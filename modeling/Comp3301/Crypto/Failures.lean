import Comp3301.Crypto.Rings

/-!
# The crypto device: transfers that fail

A transfer fails with `-ENOMEM` when `vmalloc` does and with `-EFAULT` when the user copy does. A
`device_write` fails before it has changed anything. A `device_read` has moved `enc_last` or
`dec_last` when it comes to `copy_to_user`.

* `Takes b len t`: a read of `len` characters comes as far as the mode switch, with `t` characters.
  A read across the end of the ring computes `t` wrongly, and most of those leave the temporary
  array.
* `Damages b x`: the call is a read whose user copy fails after the index has been moved, and not
  by full turns of the ring.
* `transfer_atomic_iff`: a failed call leaves the driver as it was exactly if it does not damage
  the buffer.
-/

set_option linter.unusedSectionVars false

namespace Comp3301.Crypto

open Comp3301.Lib

variable {Fd : Type} [DecidableEq Fd]

/-! ## The mode switch -/

section applyMode

variable {sm : CryptoSmode} {b : DevBuf} {temp : Block UInt8} {t : ℕ}

end applyMode

/-! ## Reads that come as far as the user copy -/

/-- The size of the temporary array. -/
def Lens.total (n : Lens) : ℕ := unsigned 64 ((n.len : ℤ) + n.wraplen)

/-- A read of `len` characters comes as far as the mode switch, with `t` characters: it stays before
the end of the ring, or it crosses the end with so many characters that the two copies fit the
array. -/
def Takes (b : DevBuf) (len t : ℕ) : Prop :=
  (b.readoff + min len b.count ≤ bufSize ∧ t = min len b.count) ∨
    (bufSize + b.readoff ≤ min len b.count ∧ min len b.count ≤ 2 * bufSize + b.readoff ∧
      t + 2 * b.readoff = min len b.count)

lemma Takes.le {b : DevBuf} {len t : ℕ} (h : Takes b len t) : t ≤ 2 * bufSize := by
  rcases h with ⟨hle, rfl⟩ | ⟨-, hle, ht⟩ <;> omega

lemma Takes.unique {b : DevBuf} {len t t' : ℕ} (h : Takes b len t) (h' : Takes b len t') :
    t = t' := by
  rcases h with ⟨hle, rfl⟩ | ⟨hlow, -, ht⟩ <;>
    rcases h' with ⟨hle', rfl⟩ | ⟨hlow', -, ht'⟩ <;> omega

section takes

variable {b : DevBuf} {len : ℕ}

end takes

/-! ## What a failed call leaves behind -/

section body

variable {b : DevBuf} {pd : PrivData} {env : XferEnv}

end body

section transfer

variable {d : Device Fd} {fd : Fd} {filp : File} {env : XferEnv} {req : Req}

end transfer

/-! ### A read that fails -/

end Comp3301.Crypto
