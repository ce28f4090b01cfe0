import Comp3301.Crypto.Buffers

/-!
# The crypto device: `device_read` and `device_write`

The two transfer functions of `a2/fops.c` with the loops they call. `none` is the result of an
execution that has indexed an array out of its bounds; everything else, the error returns
included, is `some`.

The functions are cut where the source is: first the lengths are settled (`readLens`,
`writeLens`), then the transfer is made with those lengths (`readBody`, `writeBody`). What they
compute is the subject of `TransferSpec`.
-/

namespace Comp3301.Crypto

open Comp3301.Lib

/-! ## The loops -/

/-- The loop of `substr`, with `n` rounds to go. -/
def substrLoop (str : Block UInt8) (off : ℤ) : ℕ → ℤ → ℤ → Block UInt8 → Option (Block UInt8)
  | 0, _, _, sub => some sub
  | n + 1, i, suboff, sub => do
      let c ← str.load (off + i)
      let sub ← sub.store suboff c
      substrLoop str off n (i + 1) (suboff + 1) sub

/-- `substr`: copy `len` characters of `str` from `off` on to `sub` from `suboff` on. -/
def substr (str sub : Block UInt8) (off suboff len : ℤ) : Option (Block UInt8) :=
  substrLoop str off len.toNat 0 suboff sub

/-- The character with which the loop of `encrypt` mixes character `i`. -/
def encryptWith (dbuf : DevBuf) (plain : Block UInt8) (key : UInt8) (i : ℕ) : Option UInt8 :=
  if i = 0 then
    if dbuf.encLast ≠ -1 then dbuf.buf.load dbuf.encLast else some key
  else plain.load ((i : ℤ) - 1)

/-- The loop of `encrypt`, with `n` rounds to go. -/
def encryptLoop (dbuf : DevBuf) (key : UInt8) : ℕ → ℕ → Block UInt8 → Option (Block UInt8)
  | 0, _, plain => some plain
  | n + 1, i, plain => do
      let c ← plain.load i
      let x ← encryptWith dbuf plain key i
      let plain ← plain.store i (c ^^^ x)
      encryptLoop dbuf key n (i + 1) plain

/-- `encrypt`: every character is mixed with the ciphertext character before it, the first one
with the ring character at `enc_last` or, at the start of the stream, with the key. -/
def encrypt (dbuf : DevBuf) (plain : Block UInt8) (len : ℤ) (key : UInt8) :
    Option (DevBuf × Block UInt8) := do
  let plain ← encryptLoop dbuf key len.toNat 0 plain
  some ({ dbuf with encLast := (signed 32 (dbuf.encLast + len)).tmod bufSize }, plain)

/-- The character with which the loop of `decrypt` mixes character `i`; `previous` is set by
every round and read by every round but the first. -/
def decryptWith (dbuf : DevBuf) (key : UInt8) (previous : Option UInt8) (i : ℕ) : Option UInt8 :=
  if i = 0 then
    if dbuf.decLast ≠ -1 then dbuf.buf.load dbuf.decLast else some key
  else previous

/-- The loop of `decrypt`, with `n` rounds to go. -/
def decryptLoop (dbuf : DevBuf) (key : UInt8) :
    ℕ → ℕ → Option UInt8 → Block UInt8 → Option (Block UInt8)
  | 0, _, _, cipher => some cipher
  | n + 1, i, previous, cipher => do
      let now ← cipher.load i
      let x ← decryptWith dbuf key previous i
      let cipher ← cipher.store i (now ^^^ x)
      decryptLoop dbuf key n (i + 1) (some now) cipher

/-- `decrypt`: every character is mixed with the ciphertext character before it, the first one
with the ring character at `dec_last` or, at the start of the stream, with the key. -/
def decrypt (dbuf : DevBuf) (cipher : Block UInt8) (len : ℤ) (key : UInt8) :
    Option (DevBuf × Block UInt8) := do
  let cipher ← decryptLoop dbuf key len.toNat 0 none cipher
  some ({ dbuf with decLast := (signed 32 (dbuf.decLast + len)).tmod bufSize }, cipher)

/-! ## The transfer functions -/

/-- What a transfer meets outside the driver: whether `vmalloc` delivers the temporary array, what
that memory holds, and whether the user copy succeeds. -/
structure XferEnv where
  vmallocOk : Bool
  tempMem : ℕ → UInt8
  copyOk : Bool

/-- The lengths with which a transfer is made. -/
structure Lens where
  len : ℕ
  wraplen : ℕ
  wrap : Bool
  err : Bool
  deriving DecidableEq, Repr

/-- `device_read`: the lengths. The length behind the end of the ring is computed as
`(len - BUF_SIZE) - readoff`, in `size_t`. -/
def readLens (b : DevBuf) (len : ℕ) : Lens :=
  let err := decide (len > b.count)
  let len := if len > b.count then b.count else len
  if unsigned 64 (b.readoff + len) > bufSize then
    { wraplen := unsigned 64 ((len - bufSize) - b.readoff)
      len := unsigned 32 (bufSize - b.readoff)
      wrap := true
      err := err }
  else { wraplen := 0, len := len, wrap := false, err := err }

/-- The test with which `device_write` detects that the request is too long. -/
def writeOver (b : DevBuf) (len : ℕ) : Prop :=
  b.count > 0 ∧ unsigned 64 (b.writeoff + len) ≥ unsigned 32 (b.readoff + bufSize)

instance (b : DevBuf) (len : ℕ) : Decidable (writeOver b len) :=
  inferInstanceAs (Decidable (_ ∧ _))

/-- `device_write`: the lengths. A request that is too long is cut to
`BUF_SIZE - writeoff - readoff`, in `unsigned int`. -/
def writeLens (b : DevBuf) (len : ℕ) : Lens :=
  let err := decide (writeOver b len)
  let len := if writeOver b len then unsigned 32 (bufSize - b.writeoff - b.readoff) else len
  if unsigned 64 (b.writeoff + len) > bufSize then
    { wraplen := unsigned 64 (b.writeoff + len - bufSize)
      len := unsigned 32 (bufSize - b.writeoff)
      wrap := true
      err := err }
  else { wraplen := 0, len := len, wrap := false, err := err }

/-- The `switch` over the mode, the same in both functions. -/
def applyMode (sm : CryptoSmode) (b : DevBuf) (temp : Block UInt8) (len : ℤ) :
    Option (DevBuf × Block UInt8) :=
  match sm.mode with
  | .enc => encrypt b temp len sm.key
  | .dec => decrypt b temp len sm.key
  | _ => some (b, temp)

/-- `copy_to_user (buf, temp, n)`: the characters delivered. -/
def copyToUser (temp : Block UInt8) (n : ℕ) : Option (List UInt8) :=
  if n ≤ temp.size then some (slice temp.cell 0 n) else none

/-- `copy_from_user (temp, buf, n)`, where the user's memory from `buf` on is `src`. -/
def copyFromUser (temp : Block UInt8) (src : ℕ → UInt8) (n : ℕ) : Option (Block UInt8) :=
  if n ≤ temp.size then
    some { temp with cell := fun k => if k < n then src k else temp.cell k }
  else none

/-- The result of a transfer: the buffers, the return value and the characters delivered to the
user. -/
abbrev Xferred (σ : Type) := σ × ℤ × List UInt8

/-- The copies from the ring to the temporary array in `device_read`. -/
def readCopies (b : DevBuf) (n : Lens) (temp : Block UInt8) : Option (Block UInt8) := do
  let temp ← substr b.buf temp (signed 32 b.readoff) 0 (signed 32 n.len)
  if n.wrap then substr b.buf temp 0 (signed 32 n.len) (signed 32 n.wraplen) else some temp

/-- The copies from the temporary array to the ring in `device_write`. -/
def writeCopies (b : DevBuf) (n : Lens) (temp : Block UInt8) : Option (Block UInt8) := do
  let ring ← substr temp b.buf 0 (signed 32 b.writeoff) (signed 32 n.len)
  if n.wrap then substr temp ring (signed 32 n.len) 0 (signed 32 n.wraplen) else some ring

/-- `device_read` from the allocation of the temporary array on. -/
def readBody (env : XferEnv) (sm : CryptoSmode) (b : DevBuf) (n : Lens) :
    Option (Xferred DevBuf) :=
  let total := unsigned 64 (n.len + n.wraplen)
  if env.vmallocOk = false then some (b, -enomem, []) else do
    let temp ← readCopies b n ⟨total, env.tempMem⟩
    let (b, temp) ← applyMode sm b temp (signed 32 total)
    if env.copyOk = false then some (b, -efault, []) else do
      let out ← copyToUser temp n.len
      let b := { b with
        count := unsigned 32 (b.count - total)
        readoff := unsigned 32 (b.readoff + total) % bufSize }
      some (b, if n.err then -enobufs else signed 64 total, out)

/-- `device_write` from the allocation of the temporary array on. -/
def writeBody (env : XferEnv) (sm : CryptoSmode) (b : DevBuf) (src : ℕ → UInt8) (n : Lens) :
    Option (Xferred DevBuf) :=
  let total := unsigned 64 (n.len + n.wraplen)
  if env.vmallocOk = false then some (b, -enomem, []) else
  if env.copyOk = false then some (b, -efault, []) else do
    let temp ← copyFromUser ⟨total, env.tempMem⟩ src total
    let (b, temp) ← applyMode sm b temp (signed 32 total)
    let ring ← writeCopies b n temp
    let b := { b with
      buf := ring
      count := unsigned 32 (b.count + total)
      writeoff := unsigned 32 (b.writeoff + total) % bufSize }
    some (b, if n.err then -enobufs else signed 64 total, [])

/-- Run a transfer on the buffer to which the descriptor is attached. The checks before it are the
same in both functions: an unattached descriptor, then no entry found. -/
def onBuffer (bufs : List DevBuf) (pd : PrivData)
    (body : DevBuf → Option (Xferred DevBuf)) : Option (Xferred (List DevBuf)) :=
  if pd.bufId = 0 then some (bufs, -enotsup, []) else
  match searchEntry pd.bufId bufs with
  | none => some (bufs, -einval, [])
  | some (i, b) => do
      let (b, ret, out) ← body b
      some (bufs.set i b, ret, out)

/-- `device_read`, called by a descriptor with private data `pd` for `len` characters. -/
def deviceRead (env : XferEnv) (bufs : List DevBuf) (pd : PrivData) (len : ℕ) :
    Option (Xferred (List DevBuf)) :=
  onBuffer bufs pd fun b => readBody env pd.readsmode b (readLens b len)

/-- `device_write`, called by a descriptor with private data `pd` with the first `len` characters
of the user's memory `src`. -/
def deviceWrite (env : XferEnv) (bufs : List DevBuf) (pd : PrivData) (src : ℕ → UInt8)
    (len : ℕ) : Option (Xferred (List DevBuf)) :=
  onBuffer bufs pd fun b => writeBody env pd.writesmode b src (writeLens b len)

end Comp3301.Crypto
