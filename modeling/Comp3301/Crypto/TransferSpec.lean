import Comp3301.Crypto.Transfer
import Comp3301.Lib.Stream

/-!
# The crypto device: what the transfers compute

The ring of a buffer is well formed when `RingRep` holds of it. On a well-formed ring:

* the loops are described by `blit`, `chainEnc` and `chainDec`, the mode switch by `transform` and
  `modeBuf`;
* `device_read` of available characters that lie before the end of the ring, and `device_write` of
  at most a ringful, are given as a whole (`readBody_eq`, `writeBody_eq`): the return value, the
  characters delivered and the next buffer (`takenBuf`, `putBuf`);
* which calls arrive at such lengths is a matter of the length computations alone (`readLens_eq`,
  `writeLens_of_not_over`, `writeLens_of_over`);
* both keep the ring well formed (`RingRep.takenBuf`, `RingRep.putBuf`).
-/

namespace Comp3301.Crypto

open Comp3301.Lib

/-! ## What the loops compute -/

/-- The loop of `substr` inside both arrays. -/
lemma substrLoop_eq {str sub : Block UInt8} {off i s n : ℕ} (hstr : off + i + n ≤ str.size)
    (hsub : s + n ≤ sub.size) :
    substrLoop str off n i s sub =
      some { sub with cell := blit sub.cell s n fun k => str.cell (off + i + k) } := by
  induction n generalizing i s sub with
  | zero => rw [substrLoop, blit_zero]
  | succ n ih =>
      have hload : str.load ((off : ℤ) + i) = some (str.cell (off + i)) := by
        rw [← Nat.cast_add, Block.load_natCast (by omega)]
      let sub₁ : Block UInt8 := { sub with cell := Function.update sub.cell s (str.cell (off + i)) }
      have hrec : substrLoop str off n ((i + 1 : ℕ) : ℤ) ((s + 1 : ℕ) : ℤ) sub₁ = _ :=
        ih (by omega) (by simpa [sub₁] using by omega)
      push_cast at hrec
      rw [substrLoop, hload, Option.bind_eq_bind, Option.bind_some,
        Block.store_natCast (by omega), Option.bind_eq_bind, Option.bind_some, hrec]
      simp only [sub₁, ← blit_succ, Nat.add_zero, Option.some.injEq, Block.mk.injEq, true_and]
      congr 1
      funext k
      congr 1
      omega

/-- `substr` inside both arrays. -/
lemma substr_eq {str sub : Block UInt8} {off s n : ℕ} (hstr : off + n ≤ str.size)
    (hsub : s + n ≤ sub.size) :
    substr str sub off s n =
      some { sub with cell := blit sub.cell s n fun k => str.cell (off + k) } := by
  have h : substrLoop str off n ((0 : ℕ) : ℤ) s sub = _ := substrLoop_eq (by omega) hsub
  simpa [substr] using h

/-- The loop of `encrypt` from position `i` on, where `prev` is the character before it. -/
lemma encryptLoop_spec {dbuf : DevBuf} {key prev : UInt8} {n i : ℕ} {plain : Block UInt8}
    (hsize : i + n ≤ plain.size) (hprev : encryptWith dbuf plain key i = some prev) :
    ∃ plain', encryptLoop dbuf key n i plain = some plain' ∧ plain'.size = plain.size ∧
      slice plain'.cell i n = chainEnc (· ^^^ ·) prev (slice plain.cell i n) ∧
      ∀ k < i, plain'.cell k = plain.cell k := by
  induction n generalizing i prev plain with
  | zero => exact ⟨plain, rfl, rfl, rfl, fun _ _ => rfl⟩
  | succ n ih =>
      let c := plain.cell i ^^^ prev
      let plain₁ : Block UInt8 := { plain with cell := Function.update plain.cell i c }
      have hprev₁ : encryptWith dbuf plain₁ key (i + 1) = some c := by
        have hload : plain₁.load i = some (plain₁.cell i) :=
          Block.load_natCast (by simpa [plain₁] using by omega)
        simpa [encryptWith, plain₁] using hload
      obtain ⟨plain', hloop, hsz, hslice, hlow⟩ :=
        ih (by simpa [plain₁] using by omega) hprev₁
      refine ⟨plain', ?_, hsz, ?_, ?_⟩
      · rw [encryptLoop, Block.load_natCast (by omega), Option.bind_eq_bind, Option.bind_some,
          hprev, Option.bind_eq_bind, Option.bind_some, Block.store_natCast (by omega),
          Option.bind_some]
        exact hloop
      · have hrest : slice plain₁.cell (i + 1) n = slice plain.cell (i + 1) n := by
          apply slice_congr
          intro k _
          exact Function.update_of_ne (by omega) _ _
        have hi : plain'.cell i = c := by
          rw [hlow i (by omega)]
          exact Function.update_self _ _ _
        rw [slice_succ, slice_succ, hslice, hrest, hi]
        rfl
      · intro k hk
        rw [hlow k (by omega)]
        exact Function.update_of_ne (by omega) _ _

/-- The loop of `decrypt` from position `i` on, where `prev` is the ciphertext character before
it. -/
lemma decryptLoop_spec {dbuf : DevBuf} {key prev : UInt8} {n i : ℕ} {previous : Option UInt8}
    {cipher : Block UInt8} (hsize : i + n ≤ cipher.size)
    (hprev : decryptWith dbuf key previous i = some prev) :
    ∃ cipher', decryptLoop dbuf key n i previous cipher = some cipher' ∧
      cipher'.size = cipher.size ∧
      slice cipher'.cell i n = chainDec (· ^^^ ·) prev (slice cipher.cell i n) ∧
      ∀ k < i, cipher'.cell k = cipher.cell k := by
  induction n generalizing i prev previous cipher with
  | zero => exact ⟨cipher, rfl, rfl, rfl, fun _ _ => rfl⟩
  | succ n ih =>
      let now := cipher.cell i
      let cipher₁ : Block UInt8 :=
        { cipher with cell := Function.update cipher.cell i (now ^^^ prev) }
      have hprev₁ : decryptWith dbuf key (some now) (i + 1) = some now := by
        simp [decryptWith]
      obtain ⟨cipher', hloop, hsz, hslice, hlow⟩ :=
        ih (show i + 1 + n ≤ cipher₁.size by simpa [cipher₁] using by omega) hprev₁
      refine ⟨cipher', ?_, hsz, ?_, ?_⟩
      · rw [decryptLoop, Block.load_natCast (by omega), Option.bind_eq_bind, Option.bind_some,
          hprev, Option.bind_eq_bind, Option.bind_some, Block.store_natCast (by omega),
          Option.bind_some]
        exact hloop
      · have hrest : slice cipher₁.cell (i + 1) n = slice cipher.cell (i + 1) n := by
          apply slice_congr
          intro k _
          exact Function.update_of_ne (by omega) _ _
        have hi : cipher'.cell i = now ^^^ prev := by
          rw [hlow i (by omega)]
          exact Function.update_self _ _ _
        rw [slice_succ, slice_succ, hslice, hrest, hi]
        rfl
      · intro k hk
        rw [hlow k (by omega)]
        exact Function.update_of_ne (by omega) _ _

/-! ## The representation invariant of a ring -/

/-- The ring of a buffer is well formed: the offsets are inside it, `writeoff` lies `count` behind
`readoff`, and `enc_last` and `dec_last` are indices of the ring or `-1`. -/
structure RingRep (b : DevBuf) : Prop where
  size : b.buf.size = bufSize
  readoff_lt : b.readoff < bufSize
  writeoff_lt : b.writeoff < bufSize
  count_le : b.count ≤ bufSize
  writeoff_eq : b.writeoff = (b.readoff + b.count) % bufSize
  encLast_ge : -1 ≤ b.encLast
  encLast_lt : b.encLast < bufSize
  decLast_ge : -1 ≤ b.decLast
  decLast_lt : b.decLast < bufSize

/-- A buffer is born with a well-formed ring. -/
lemma ringRep_freshBuf (id : ℤ) (readRef writeRef : Bool) (mem : ℕ → UInt8) :
    RingRep (freshBuf id readRef writeRef mem) := by
  constructor <;> simp [freshBuf, bufSize]

/-! ## What the mode switch computes -/

/-- The character from which a chained transformation starts. -/
def chainStart (last : ℤ) (ring : ℕ → UInt8) (key : UInt8) : UInt8 :=
  if last = -1 then key else ring last.toNat

/-- The characters a transfer makes of `xs`. -/
def transform (sm : CryptoSmode) (b : DevBuf) (xs : List UInt8) : List UInt8 :=
  match sm.mode with
  | .enc => chainEnc (· ^^^ ·) (chainStart b.encLast b.buf.cell sm.key) xs
  | .dec => chainDec (· ^^^ ·) (chainStart b.decLast b.buf.cell sm.key) xs
  | _ => xs

/-- The buffer after the mode switch has worked on `n` characters. -/
def modeBuf (sm : CryptoSmode) (b : DevBuf) (n : ℕ) : DevBuf :=
  match sm.mode with
  | .enc => { b with encLast := (b.encLast + n).tmod bufSize }
  | .dec => { b with decLast := (b.decLast + n).tmod bufSize }
  | _ => b

@[simp] lemma length_transform (sm : CryptoSmode) (b : DevBuf) (xs : List UInt8) :
    (transform sm b xs).length = xs.length := by
  unfold transform
  split <;> simp

section modeBuf

variable (sm : CryptoSmode) (b : DevBuf) (n : ℕ)

@[simp] lemma modeBuf_id : (modeBuf sm b n).id = b.id := by unfold modeBuf; split <;> rfl

@[simp] lemma modeBuf_readoff : (modeBuf sm b n).readoff = b.readoff := by
  unfold modeBuf; split <;> rfl

@[simp] lemma modeBuf_writeoff : (modeBuf sm b n).writeoff = b.writeoff := by
  unfold modeBuf; split <;> rfl

@[simp] lemma modeBuf_count : (modeBuf sm b n).count = b.count := by
  unfold modeBuf; split <;> rfl

@[simp] lemma modeBuf_buf : (modeBuf sm b n).buf = b.buf := by unfold modeBuf; split <;> rfl

end modeBuf

/-- Stepping `enc_last` or `dec_last` forward keeps it in range. -/
lemma tmod_bufSize_range {last : ℤ} {n : ℕ} (hlow : -1 ≤ last) :
    -1 ≤ (last + n).tmod bufSize ∧ (last + n).tmod bufSize < bufSize := by
  unfold bufSize
  rcases lt_or_ge (last + n) 0 with hneg | hpos
  · have h : last + n = -1 := by omega
    rw [h]
    decide
  · rw [Int.tmod_eq_emod_of_nonneg hpos]
    omega

/-- The mode switch keeps the ring well formed. -/
lemma RingRep.modeBuf {b : DevBuf} (hb : RingRep b) (sm : CryptoSmode) (n : ℕ) :
    RingRep (modeBuf sm b n) := by
  unfold Crypto.modeBuf
  split
  · obtain ⟨hlow, hlt⟩ := tmod_bufSize_range (n := n) hb.encLast_ge
    exact { hb with encLast_ge := hlow, encLast_lt := hlt }
  · obtain ⟨hlow, hlt⟩ := tmod_bufSize_range (n := n) hb.decLast_ge
    exact { hb with decLast_ge := hlow, decLast_lt := hlt }
  · exact hb

/-- The character before the first one of a chunk, where the ring is well formed. -/
lemma load_chainStart {m : Block UInt8} {last : ℤ} (hsize : m.size = bufSize) (hlow : -1 ≤ last)
    (hlt : last < bufSize) (key : UInt8) :
    (if last ≠ -1 then m.load last else some key) = some (chainStart last m.cell key) := by
  unfold chainStart
  by_cases h : last = -1
  · rw [if_neg (not_not.mpr h), if_pos h]
  · rw [if_pos h, if_neg h]
    unfold Block.load
    rw [if_pos ⟨by omega, by omega⟩]

/-- The mode switch on `n` characters inside the temporary array. -/
lemma applyMode_spec (sm : CryptoSmode) {b : DevBuf} {temp : Block UInt8} {n : ℕ}
    (hb : RingRep b) (hn : n ≤ temp.size) (hnB : n ≤ bufSize) :
    ∃ temp', applyMode sm b temp n = some (modeBuf sm b n, temp') ∧ temp'.size = temp.size ∧
      slice temp'.cell 0 n = transform sm b (slice temp.cell 0 n) := by
  have hstep : ∀ last : ℤ, -1 ≤ last → last < bufSize → signed 32 (last + n) = last + n := by
    intro last hlow hlt
    unfold bufSize at hlt hnB
    unfold signed
    split_ifs <;> omega
  have hsize : 0 + n ≤ temp.size := by omega
  obtain ⟨dir, mode, key⟩ := sm
  cases mode with
  | enc =>
      obtain ⟨temp', hloop, hsz, hslice, -⟩ := encryptLoop_spec hsize
        (load_chainStart hb.size hb.encLast_ge hb.encLast_lt key)
      refine ⟨temp', ?_, hsz, hslice⟩
      simp only [applyMode, encrypt]
      rw [Int.toNat_natCast, hloop, hstep _ hb.encLast_ge hb.encLast_lt]
      rfl
  | dec =>
      obtain ⟨temp', hloop, hsz, hslice, -⟩ := decryptLoop_spec hsize
        (load_chainStart hb.size hb.decLast_ge hb.decLast_lt key)
      refine ⟨temp', ?_, hsz, hslice⟩
      simp only [applyMode, decrypt]
      rw [Int.toNat_natCast, hloop, hstep _ hb.decLast_ge hb.decLast_lt]
      rfl
  | passthrough => exact ⟨temp, rfl, rfl, rfl⟩
  | other => exact ⟨temp, rfl, rfl, rfl⟩

/-! ## What the bodies compute -/

/-- The buffer after `n` characters have been taken out. -/
def takenBuf (sm : CryptoSmode) (b : DevBuf) (n : ℕ) : DevBuf :=
  { modeBuf sm b n with
    count := b.count - n
    readoff := (b.readoff + n) % bufSize }

/-- Lengths and offsets of the ring are not changed by a conversion to `int`. -/
lemma signed_of_le_bufSize {k : ℕ} (h : k ≤ bufSize) : signed 32 (k : ℤ) = k :=
  signed_natCast (by unfold bufSize at h; omega)

/-- Neither by a conversion to `unsigned int`, nor are sums of two of them. -/
lemma unsigned_of_le_bufSize {k : ℕ} (h : k ≤ 2 * bufSize) : unsigned 32 (k : ℤ) = k :=
  unsigned_natCast (by unfold bufSize at h; omega)

/-- The total length, when it fits the ring. -/
lemma unsigned_total {m k n : ℕ} (h : m + k = n) (hn : n ≤ bufSize) :
    unsigned 64 ((m : ℤ) + k) = n := by
  rw [← Nat.cast_add, h]
  exact unsigned_natCast (by unfold bufSize at hn; omega)

/-- `device_read` of `n` available characters that lie before the end of the ring. -/
lemma readBody_eq {env : XferEnv} {sm : CryptoSmode} {b : DevBuf} {n : ℕ} {err : Bool}
    (hb : RingRep b) (halloc : env.vmallocOk = true) (hcount : n ≤ b.count)
    (hcross : b.readoff + n ≤ bufSize) :
    readBody env sm b ⟨n, 0, false, err⟩ =
      if env.copyOk = false then some (modeBuf sm b n, -efault, [])
      else some (takenBuf sm b n, if err then -enobufs else n,
        transform sm b (slice b.buf.cell b.readoff n)) := by
  have hnB : n ≤ bufSize := hcount.trans hb.count_le
  have hroff : b.readoff ≤ bufSize := hb.readoff_lt.le
  let temp : Block UInt8 := ⟨n, blit env.tempMem 0 n fun k => b.buf.cell (b.readoff + k)⟩
  have hcopy : readCopies b ⟨n, 0, false, err⟩ ⟨n, env.tempMem⟩ = some temp := by
    have hs : substr b.buf ⟨n, env.tempMem⟩ b.readoff ((0 : ℕ) : ℤ) n = some temp :=
      substr_eq (by rw [hb.size]; omega) (by simp)
    rw [Nat.cast_zero] at hs
    unfold readCopies
    simp only [Bool.false_eq_true, if_false]
    rw [signed_of_le_bufSize hroff, signed_of_le_bufSize hnB, hs]
    rfl
  obtain ⟨temp', hmode, hsz, hslice⟩ := applyMode_spec sm hb (show n ≤ temp.size from le_rfl) hnB
  have htemp : slice temp.cell 0 n = slice b.buf.cell b.readoff n := by
    apply slice_congr
    intro k hk
    simp only [temp, blit]
    rw [if_pos ⟨by omega, by omega⟩]
    exact congrArg b.buf.cell (by omega)
  have hout : copyToUser temp' n = some (transform sm b (slice b.buf.cell b.readoff n)) := by
    rw [copyToUser, hsz, if_pos (show n ≤ temp.size from le_rfl), hslice, htemp]
  have hcnt : unsigned 32 ((b.count : ℤ) - n) = b.count - n := by
    rw [← Nat.cast_sub hcount]
    exact unsigned_of_le_bufSize (by have := hb.count_le; omega)
  have hoff : unsigned 32 ((b.readoff : ℤ) + n) = b.readoff + n := by
    rw [← Nat.cast_add]
    exact unsigned_of_le_bufSize (by omega)
  have hret : signed 64 (n : ℤ) = n := signed_natCast (by unfold bufSize at hnB; omega)
  unfold readBody takenBuf
  rw [unsigned_total (Nat.add_zero n) hnB]
  simp only [halloc, Bool.true_eq_false, if_false]
  rw [hcopy, Option.bind_eq_bind, Option.bind_some, signed_of_le_bufSize hnB, hmode,
    Option.bind_eq_bind, Option.bind_some]
  simp only
  rw [hout, Option.bind_eq_bind, Option.bind_some, modeBuf_count, modeBuf_readoff, hcnt, hoff, hret]

/-- The lengths of a transfer of `n` characters from `w` on round the ring. -/
def ringLens (w n : ℕ) (err : Bool) : Lens :=
  if w + n > bufSize then ⟨bufSize - w, w + n - bufSize, true, err⟩ else ⟨n, 0, false, err⟩

lemma ringLens_of_gt {w n : ℕ} (h : w + n > bufSize) (err : Bool) :
    ringLens w n err = ⟨bufSize - w, w + n - bufSize, true, err⟩ := if_pos h

lemma ringLens_of_le {w n : ℕ} (h : w + n ≤ bufSize) (err : Bool) :
    ringLens w n err = ⟨n, 0, false, err⟩ := if_neg (Nat.not_lt.mpr h)

/-- The buffer after `xs` has been put in, where `xs` is what the mode makes of the request. -/
def putBuf (sm : CryptoSmode) (b : DevBuf) (xs : List UInt8) : DevBuf :=
  { modeBuf sm b xs.length with
    buf := ⟨bufSize, ringPut bufSize b.buf.cell b.writeoff xs⟩
    count := b.count + xs.length
    writeoff := (b.writeoff + xs.length) % bufSize }

/-- The two copies of `device_write` inside their arrays. -/
lemma writeCopies_wrap {b : DevBuf} {temp : Block UInt8} {m k : ℕ} (err : Bool)
    (hring : b.buf.size = bufSize) (hm : b.writeoff + m ≤ bufSize) (hk : k ≤ bufSize)
    (htemp : m + k ≤ temp.size) :
    writeCopies b ⟨m, k, true, err⟩ temp =
      some ⟨bufSize, blit (blit b.buf.cell b.writeoff m temp.cell) 0 k
        fun i => temp.cell (m + i)⟩ := by
  let ring₁ : Block UInt8 := ⟨bufSize, blit b.buf.cell b.writeoff m temp.cell⟩
  have hfirst : substr temp b.buf 0 b.writeoff m = some ring₁ := by
    have hs : substr temp b.buf ((0 : ℕ) : ℤ) b.writeoff m = _ :=
      substr_eq (by omega) (by omega)
    simpa only [Nat.cast_zero, Nat.zero_add, hring] using hs
  have hsecond : substr temp ring₁ m 0 k =
      some ⟨bufSize, blit ring₁.cell 0 k fun i => temp.cell (m + i)⟩ := by
    have hs : substr temp ring₁ m ((0 : ℕ) : ℤ) k = _ :=
      substr_eq htemp (by simp only [ring₁]; omega)
    simpa only [Nat.cast_zero] using hs
  unfold writeCopies
  simp only
  rw [signed_of_le_bufSize (show b.writeoff ≤ bufSize by omega),
    signed_of_le_bufSize (show m ≤ bufSize by omega), signed_of_le_bufSize hk, hfirst,
    Option.bind_eq_bind, Option.bind_some, if_true, hsecond]

/-- The two copies of `device_write` store `n` characters round the ring. -/
lemma writeCopies_eq {b : DevBuf} {temp : Block UInt8} {n : ℕ} (err : Bool) (hb : RingRep b)
    (htemp : temp.size = n) (hn : n ≤ bufSize) :
    writeCopies b (ringLens b.writeoff n err) temp =
      some ⟨bufSize, ringPut bufSize b.buf.cell b.writeoff (slice temp.cell 0 n)⟩ := by
  have hw : b.writeoff < bufSize := hb.writeoff_lt
  have hring : b.buf.size = bufSize := hb.size
  rcases Nat.lt_or_ge bufSize (b.writeoff + n) with h | h
  · rw [ringLens_of_gt h, writeCopies_wrap err hring (by omega) (by omega) (by omega),
      blit_blit_eq_ringPut hw hn h]
  · have hfirst : substr temp b.buf 0 b.writeoff n =
        some ⟨bufSize, ringPut bufSize b.buf.cell b.writeoff (slice temp.cell 0 n)⟩ := by
      have hs : substr temp b.buf ((0 : ℕ) : ℤ) b.writeoff n = _ :=
        substr_eq (by omega) (by omega)
      simpa only [Nat.cast_zero, Nat.zero_add, hring, blit_eq_ringPut hw h] using hs
    unfold writeCopies
    rw [signed_of_le_bufSize hw.le]
    simp only [ringLens_of_le h, signed_of_le_bufSize hn, hfirst, Option.bind_eq_bind,
      Option.bind_some, Bool.false_eq_true, if_false]

lemma ringLens_total (w n : ℕ) (err : Bool) (hw : w ≤ bufSize) :
    (ringLens w n err).len + (ringLens w n err).wraplen = n := by
  rcases Nat.lt_or_ge bufSize (w + n) with h | h
  · rw [ringLens_of_gt h]
    simp only
    omega
  · rw [ringLens_of_le h]
    rfl

/-- The steps of `device_write` behind the two checks, for lengths with the total `n`. -/
lemma writeBody_of_copies {env : XferEnv} {sm : CryptoSmode} {b : DevBuf} {src : ℕ → UInt8}
    {n : ℕ} (lens : Lens) (halloc : env.vmallocOk = true) (hcopy : env.copyOk = true)
    (hn : n ≤ 2 * bufSize) (htotal : unsigned 64 ((lens.len : ℤ) + lens.wraplen) = n)
    (hcount : b.count ≤ bufSize) (hw : b.writeoff < bufSize) {temp temp' ring : Block UInt8}
    (hfrom : copyFromUser ⟨n, env.tempMem⟩ src n = some temp)
    (hmode : applyMode sm b temp n = some (modeBuf sm b n, temp'))
    (hcopies : writeCopies (modeBuf sm b n) lens temp' = some ring) :
    writeBody env sm b src lens =
      some ({ modeBuf sm b n with
          buf := ring, count := b.count + n, writeoff := (b.writeoff + n) % bufSize },
        if lens.err then -enobufs else n, []) := by
  have hB : n ≤ 16384 ∧ b.count ≤ 8192 ∧ b.writeoff < 8192 := ⟨hn, hcount, hw⟩
  have hcnt : unsigned 32 ((b.count : ℤ) + n) = b.count + n := by
    rw [← Nat.cast_add]
    exact unsigned_natCast (by omega)
  have hoff : unsigned 32 ((b.writeoff : ℤ) + n) = b.writeoff + n := by
    rw [← Nat.cast_add]
    exact unsigned_natCast (by omega)
  have hlen : signed 32 (n : ℤ) = n := signed_natCast (by omega)
  have hret : signed 64 (n : ℤ) = n := signed_natCast (by omega)
  unfold writeBody
  rw [htotal]
  simp only [halloc, hcopy, Bool.true_eq_false, if_false]
  rw [hfrom, Option.bind_eq_bind, Option.bind_some, hlen, hmode, Option.bind_eq_bind,
    Option.bind_some]
  simp only
  rw [hcopies, Option.bind_some, modeBuf_writeoff, modeBuf_count, hcnt, hoff, hret]

lemma ringLens_err (w n : ℕ) (err : Bool) : (ringLens w n err).err = err := by
  unfold ringLens
  split_ifs <;> rfl

/-- `device_write` of `n` characters with lengths that go round the ring at most once. -/
lemma writeBody_eq {env : XferEnv} {sm : CryptoSmode} {b : DevBuf} {src : ℕ → UInt8} {n : ℕ}
    {err : Bool} (hb : RingRep b) (halloc : env.vmallocOk = true) (hcopy : env.copyOk = true)
    (hn : n ≤ bufSize) :
    writeBody env sm b src (ringLens b.writeoff n err) =
      some (putBuf sm b (transform sm b (slice src 0 n)), if err then -enobufs else n, []) := by
  let temp : Block UInt8 := ⟨n, fun k => if k < n then src k else env.tempMem k⟩
  have hfrom : copyFromUser ⟨n, env.tempMem⟩ src n = some temp := by
    rw [copyFromUser, if_pos le_rfl]
  obtain ⟨temp', hmode, hsz, hslice⟩ := applyMode_spec sm hb (show n ≤ temp.size from le_rfl) hn
  have htemp : slice temp.cell 0 n = slice src 0 n := by
    apply slice_congr
    intro k hk
    exact if_pos (by omega)
  have hcopies := writeCopies_eq err (hb.modeBuf sm n) hsz hn
  rw [modeBuf_writeoff, modeBuf_buf, hslice, htemp] at hcopies
  rw [writeBody_of_copies _ halloc hcopy (hn.trans (Nat.le_mul_of_pos_left _ two_pos))
    (unsigned_total (ringLens_total b.writeoff n err hb.writeoff_lt.le) hn) hb.count_le
    hb.writeoff_lt hfrom hmode hcopies, ringLens_err]
  simp [putBuf]

/-! ## The length computations -/

/-- The two places `writeoff` can have. -/
lemma RingRep.writeoff_cases {b : DevBuf} (hb : RingRep b) :
    (b.readoff + b.count < bufSize ∧ b.writeoff = b.readoff + b.count) ∨
      (bufSize ≤ b.readoff + b.count ∧ b.writeoff + bufSize = b.readoff + b.count) := by
  have hr := hb.readoff_lt
  have hc := hb.count_le
  have hw := hb.writeoff_eq
  rcases Nat.lt_or_ge (b.readoff + b.count) bufSize with h | h
  · exact Or.inl ⟨h, by rw [hw, Nat.mod_eq_of_lt h]⟩
  · refine Or.inr ⟨h, ?_⟩
    rw [hw, Nat.mod_eq_sub_mod h, Nat.mod_eq_of_lt (by omega)]
    omega

/-- The lengths of a read that stays before the end of the ring. -/
lemma readLens_eq {b : DevBuf} {len : ℕ}
    (hcross : b.readoff + min len b.count ≤ bufSize) :
    readLens b len = ⟨min len b.count, 0, false, decide (len > b.count)⟩ := by
  have hmin : (if len > b.count then b.count else len) = min len b.count := by
    split_ifs <;> omega
  have hoff : unsigned 64 ((b.readoff : ℤ) + (min len b.count : ℕ)) =
      b.readoff + min len b.count := by
    rw [← Nat.cast_add]
    exact unsigned_natCast (by unfold bufSize at hcross; omega)
  unfold readLens
  simp only [hmin]
  rw [hoff, if_neg (by omega)]

/-- The overflow test in exact arithmetic. -/
lemma writeOver_iff {b : DevBuf} {len : ℕ} (hb : RingRep b) (hlen : len ≤ bufSize) :
    writeOver b len ↔ 0 < b.count ∧ b.readoff + bufSize ≤ b.writeoff + len := by
  have hw := hb.writeoff_lt
  have hr := hb.readoff_lt
  have hleft : unsigned 64 ((b.writeoff : ℤ) + len) = b.writeoff + len := by
    rw [← Nat.cast_add]
    exact unsigned_natCast (by unfold bufSize at hw hlen; omega)
  have hright : unsigned 32 ((b.readoff : ℤ) + bufSize) = b.readoff + bufSize := by
    rw [← Nat.cast_add]
    exact unsigned_of_le_bufSize (by omega)
  unfold writeOver
  rw [hleft, hright]

/-- A request for less than the free space passes the overflow test. -/
lemma not_writeOver_of_lt {b : DevBuf} {len : ℕ} (hb : RingRep b)
    (hlen : len < bufSize - b.count) : ¬ writeOver b len := by
  rw [writeOver_iff hb (by omega)]
  rintro ⟨-, hover⟩
  rcases hb.writeoff_cases with ⟨-, hw⟩ | ⟨-, hw⟩ <;> omega

/-- The lengths that follow once the request has been settled to be `n` characters. -/
lemma lens_eq_ringLens {b : DevBuf} {n : ℕ} {err : Bool} (hb : RingRep b) (hn : n ≤ bufSize) :
    (if unsigned 64 ((b.writeoff : ℤ) + n) > bufSize then
      (⟨unsigned 32 ((bufSize : ℤ) - b.writeoff), unsigned 64 ((b.writeoff : ℤ) + n - bufSize),
        true, err⟩ : Lens)
    else ⟨n, 0, false, err⟩) = ringLens b.writeoff n err := by
  have hw := hb.writeoff_lt
  have hoff : unsigned 64 ((b.writeoff : ℤ) + n) = b.writeoff + n := by
    rw [← Nat.cast_add]
    exact unsigned_natCast (by unfold bufSize at hw hn; omega)
  rw [hoff]
  rcases Nat.lt_or_ge bufSize (b.writeoff + n) with h | h
  · have hlen : unsigned 32 ((bufSize : ℤ) - b.writeoff) = bufSize - b.writeoff := by
      rw [← Nat.cast_sub hw.le]
      exact unsigned_of_le_bufSize (by omega)
    have hwrap : unsigned 64 ((b.writeoff : ℤ) + n - bufSize) = b.writeoff + n - bufSize := by
      rw [← Nat.cast_add, ← Nat.cast_sub h.le]
      exact unsigned_natCast (by unfold bufSize at hw hn ⊢; omega)
    rw [if_pos h, hlen, hwrap, ringLens_of_gt h]
  · rw [if_neg (by omega), ringLens_of_le h]

/-- The lengths of a write that passes the overflow test. -/
lemma writeLens_of_not_over {b : DevBuf} {len : ℕ} (hb : RingRep b) (hover : ¬ writeOver b len)
    (hlen : len ≤ bufSize) : writeLens b len = ringLens b.writeoff len false := by
  unfold writeLens
  simp only [if_neg hover, decide_eq_false hover]
  exact lens_eq_ringLens hb hlen

/-- The lengths of a write that is cut by the overflow test to `n` characters. -/
lemma writeLens_of_over {b : DevBuf} {len n : ℕ} (hb : RingRep b) (hover : writeOver b len)
    (hn : b.writeoff + b.readoff + n = bufSize) :
    writeLens b len = ringLens b.writeoff n true := by
  have hcut : unsigned 32 ((bufSize : ℤ) - b.writeoff - b.readoff) = n := by
    rw [show (bufSize : ℤ) - b.writeoff - b.readoff = (n : ℕ) by omega]
    exact unsigned_of_le_bufSize (by omega)
  unfold writeLens
  simp only [if_pos hover, decide_eq_true hover, hcut]
  exact lens_eq_ringLens hb (by omega)

/-! ## The transfers keep the ring well formed -/

/-- Taking out available characters keeps the ring well formed. -/
lemma RingRep.takenBuf {b : DevBuf} (hb : RingRep b) (sm : CryptoSmode) {n : ℕ}
    (hn : n ≤ b.count) : RingRep (takenBuf sm b n) := by
  have hm := hb.modeBuf sm n
  have hc := hb.count_le
  have hB : 0 < bufSize := by decide
  have hw : b.writeoff = ((b.readoff + n) % bufSize + (b.count - n)) % bufSize := by
    rw [Nat.mod_add_mod, hb.writeoff_eq, show b.readoff + n + (b.count - n) = b.readoff + b.count
      by omega]
  exact
    { hm with
      readoff_lt := Nat.mod_lt _ hB
      count_le := (Nat.sub_le _ _).trans hc
      writeoff_eq := (modeBuf_writeoff sm b n).trans hw }

/-- Putting in characters for which there is room keeps the ring well formed. -/
lemma RingRep.putBuf {b : DevBuf} (hb : RingRep b) (sm : CryptoSmode) {xs : List UInt8}
    (hn : xs.length ≤ bufSize - b.count) : RingRep (putBuf sm b xs) := by
  have hm := hb.modeBuf sm xs.length
  have hc := hb.count_le
  have hB : 0 < bufSize := by decide
  have hw : (b.writeoff + xs.length) % bufSize =
      (b.readoff + (b.count + xs.length)) % bufSize := by
    rw [hb.writeoff_eq, Nat.mod_add_mod, Nat.add_assoc]
  exact
    { hm with
      size := rfl
      writeoff_lt := Nat.mod_lt _ hB
      count_le := show b.count + xs.length ≤ bufSize by omega
      writeoff_eq := hw.trans (by rw [← modeBuf_readoff sm b xs.length]; rfl) }

end Comp3301.Crypto
