import Comp3301.Ext3301.Immediate

/-!
# Writing and reading in `/encrypt`

A regular file in `/encrypt` holds each byte encrypted (`crypt`).

* `lastWritten` is, for every position of the file, the byte that was last written there. It is a
  byte-array file itself, whose elements are missing where nothing has been written.
* `encrypts_writes`: after any writes the file holds the encryption of these bytes.
* A byte that equals the key is stored as zero, and a zero is read back as it is. So everything is
  read back exactly if the key is zero or the key is not among the bytes last written
  (`roundTrip_iff`).
-/

namespace Comp3301.Ext3301

open Comp3301.Lib

/-! ## Bytes -/

/-- Decryption undoes encryption but for the byte that equals the key. -/
lemma crypt_crypt_eq_iff (key b : UInt8) : crypt key (crypt key b) = b ↔ key = 0 ∨ b ≠ key := by
  unfold crypt
  by_cases hb : b = 0
  · subst hb
    simp [eq_comm, em]
  · rw [if_pos hb]
    by_cases hkey : b = key
    · subst hkey
      simp [Ne.symm hb, hb]
    · have hxor : b ^^^ key ≠ 0 := fun h => hkey (UInt8.xor_eq_zero_iff.mp h)
      rw [if_pos hxor, UInt8.xor_assoc, UInt8.xor_self, UInt8.xor_zero]
      simp [hkey]

/-! ## Writes -/

/-- A call of `ext3301_sync_write`. -/
structure WriteCall where
  env : Env
  append : Bool
  buf : List UInt8
  pos : ℕ

/-- The inode after writes to a file. -/
def writes (key : UInt8) (dentry : Dentry) (ino : Inode) (ws : List WriteCall) : Inode :=
  ws.foldl
    (fun ino w => (syncWrite byteArray key w.env ⟨dentry, w.append⟩ ino w.buf w.pos).inode) ino

/-- The bytes last written, after one more write. A write that fails writes nothing. -/
def noteWrite (last : List (Option UInt8)) (w : WriteCall) : List (Option UInt8) :=
  if w.env.alloc ∧ w.env.copy then
    ByteFile.put none last (if w.append then last.length else w.pos) (w.buf.map some)
  else last

/-- The bytes last written to a file of `size` bytes. -/
def lastWritten (size : ℕ) (ws : List WriteCall) : List (Option UInt8) :=
  ws.foldl noteWrite (List.replicate size none)

/-- A byte of the file, and the byte last written there, if any. -/
def Encrypts (key : UInt8) (last : Option UInt8) (c : UInt8) : Prop := ∀ b ∈ last, c = crypt key b

section encrypted

variable (key : UInt8) {dentry : Dentry} (hdir : dentry.inEncrypt) {ino : Inode}
  (hreg : sIsreg ino.iMode)

include hdir hreg

/-- A write to a regular file in `/encrypt`. -/
lemma syncWrite_regular (w : WriteCall) :
    (syncWrite byteArray key w.env ⟨dentry, w.append⟩ ino w.buf w.pos).inode =
      if w.env.alloc ∧ w.env.copy then
        { ino with
          contents := ByteFile.put 0 ino.contents
            (if w.append then ino.contents.length else w.pos) (w.buf.map (crypt key)) }
      else ino := by
  rw [syncWrite, hdir, if_pos rfl]
  cases halloc : w.env.alloc
  · rfl
  · cases hcopy : w.env.copy
    · rfl
    · simp only [if_true, plainWrite, not_sIsim_of_sIsreg hreg, Bool.false_eq_true, if_false,
        byteArray, and_self]

lemma sIsreg_syncWrite (w : WriteCall) :
    sIsreg (syncWrite byteArray key w.env ⟨dentry, w.append⟩ ino w.buf w.pos).inode.iMode := by
  rw [syncWrite_regular key hdir hreg]
  split_ifs <;> exact hreg

/-- One write. -/
lemma encrypts_noteWrite {last : List (Option UInt8)}
    (h : List.Forall₂ (Encrypts key) last ino.contents) (w : WriteCall) :
    List.Forall₂ (Encrypts key) (noteWrite last w)
      (syncWrite byteArray key w.env ⟨dentry, w.append⟩ ino w.buf w.pos).inode.contents := by
  rw [syncWrite_regular key hdir hreg, noteWrite]
  by_cases hok : w.env.alloc ∧ w.env.copy
  · rw [if_pos hok, if_pos hok, h.length_eq]
    apply ByteFile.forall₂_put _ h
    · rw [List.forall₂_map_left_iff, List.forall₂_map_right_iff, List.forall₂_same]
      intro b _ c hc
      rw [Option.mem_some_iff.mp hc]
    · intro b hb
      cases hb
  · rwa [if_neg hok, if_neg hok]

/-- **After any writes the file holds the encryption of the bytes last written.** -/
lemma encrypts_writes (ws : List WriteCall) :
    sIsreg (writes key dentry ino ws).iMode ∧
      List.Forall₂ (Encrypts key) (lastWritten ino.contents.length ws)
        (writes key dentry ino ws).contents := by
  have hstart : List.Forall₂ (Encrypts key) (List.replicate ino.contents.length none)
      ino.contents := by
    rw [List.forall₂_iff_get]
    refine ⟨List.length_replicate, ?_⟩
    intro i hi _ b hb
    rw [List.get_eq_getElem, List.getElem_replicate] at hb
    cases hb
  unfold lastWritten writes
  generalize List.replicate ino.contents.length none = last at hstart
  induction ws generalizing ino last with
  | nil => exact ⟨hreg, hstart⟩
  | cons w ws ih =>
      rw [List.foldl_cons, List.foldl_cons]
      apply ih (sIsreg_syncWrite key hdir hreg w)
      exact encrypts_noteWrite key hdir hreg hstart w

end encrypted

/-! ## Reads -/

/-- The bytes that reads into the given buffers deliver, one after the other. -/
def reads (key : UInt8) (filp : Filp) (ino : Inode) : ℕ → List (List UInt8) → List UInt8
  | _, [] => []
  | pos, buf :: bufs =>
      let r := syncRead byteArray key Env.good filp ino buf pos
      r.delivered ++ reads key filp ino r.ppos bufs

section encrypted

variable (key : UInt8) {dentry : Dentry} (hdir : dentry.inEncrypt) {ino : Inode}
  (hreg : sIsreg ino.iMode) (append : Bool)

include hdir hreg

/-- A read of a regular file in `/encrypt`. -/
lemma syncRead_regular (buf : List UInt8) (pos : ℕ) :
    let r := syncRead byteArray key Env.good ⟨dentry, append⟩ ino buf pos
    r.delivered = (ByteFile.get ino.contents pos buf.length).map (crypt key) ∧
      r.ppos = pos + (ByteFile.get ino.contents pos buf.length).length := by
  simp only [syncRead, hdir, Env.good, if_true, plainRead, not_sIsim_of_sIsreg hreg,
    Bool.false_eq_true, if_false, byteArray, List.length_replicate, and_true, Read.delivered,
    Int.toNat_natCast]
  rw [← List.map_take, List.take_left]

/-- Reading with any split. -/
lemma reads_regular (pos : ℕ) (bufs : List (List UInt8)) :
    reads key ⟨dentry, append⟩ ino pos bufs =
      (ByteFile.get ino.contents pos (bufs.map List.length).sum).map (crypt key) := by
  induction bufs generalizing pos with
  | nil => simp [reads, ByteFile.get]
  | cons buf bufs ih =>
      obtain ⟨hdelivered, hppos⟩ := syncRead_regular key hdir hreg append buf pos
      rw [reads, hdelivered, hppos, ih, List.map_cons, List.sum_cons, ← ByteFile.get_append,
        List.map_append]

end encrypted

/-! ## The round trip -/

/-- A byte that is read, and the byte last written there, if any. -/
def Delivers (last : Option UInt8) (b : UInt8) : Prop := ∀ p ∈ last, b = p

/-- Whatever reads follow the writes `ws`, they deliver the bytes last written. -/
def RoundTrip (key : UInt8) (dentry : Dentry) (ino : Inode) (ws : List WriteCall) : Prop :=
  ∀ (append : Bool) (pos : ℕ) (bufs : List (List UInt8)),
    List.Forall₂ Delivers
      (ByteFile.get (lastWritten ino.contents.length ws) pos (bufs.map List.length).sum)
      (reads key ⟨dentry, append⟩ (writes key dentry ino ws) pos bufs)

section encrypted

variable {key : UInt8} {dentry : Dentry} {ino : Inode}

/-- A byte that is the key is read back as zero. -/
lemma not_roundTrip (hdir : dentry.inEncrypt) (hreg : sIsreg ino.iMode) {ws : List WriteCall}
    (hkey : key ≠ 0) (hmem : some key ∈ lastWritten ino.contents.length ws) :
    ¬ RoundTrip key dentry ino ws := by
  obtain ⟨hreg', hholds⟩ := encrypts_writes key hdir hreg ws
  obtain ⟨k, hk, hlast⟩ := List.getElem_of_mem hmem
  have hk' : k < (writes key dentry ino ws).contents.length := hholds.length_eq ▸ hk
  have hstored : (writes key dentry ino ws).contents[k] = crypt key key :=
    hholds.get hk hk' key (by rw [List.get_eq_getElem, hlast]; rfl)
  intro h
  have hread := h false k [[0]]
  rw [reads_regular key hdir hreg'] at hread
  simp only [List.map_cons, List.map_nil, List.length_cons, List.length_nil, List.sum_cons,
    List.sum_nil, Nat.zero_add, Nat.add_zero] at hread
  rw [ByteFile.get_one hk, ByteFile.get_one hk', hlast, hstored] at hread
  have hsame : crypt key (crypt key key) = key := by
    cases hread with
    | cons hbyte _ => exact hbyte key rfl
  rcases (crypt_crypt_eq_iff key key).mp hsame with hzero | hne
  · exact hkey hzero
  · exact hne rfl

/-- **In `/encrypt` everything is read back exactly if the key is zero or is not among the bytes
last written.** -/
theorem roundTrip_iff (hdir : dentry.inEncrypt) (hreg : sIsreg ino.iMode) (ws : List WriteCall) :
    RoundTrip key dentry ino ws ↔ key = 0 ∨ some key ∉ lastWritten ino.contents.length ws := by
  constructor
  · intro h
    by_contra hcon
    rw [not_or, not_not] at hcon
    exact not_roundTrip hdir hreg hcon.1 hcon.2 h
  · intro hkey append pos bufs
    obtain ⟨hreg', hholds⟩ := encrypts_writes key hdir hreg ws
    rw [reads_regular key hdir hreg' append, List.forall₂_map_right_iff]
    have hget := ByteFile.forall₂_get hholds pos (bufs.map List.length).sum
    have hmem : ∀ o ∈ ByteFile.get (lastWritten ino.contents.length ws) pos
        (bufs.map List.length).sum, key = 0 ∨ some key ≠ o := by
      intro o ho
      refine hkey.imp_right fun hnot heq => hnot ?_
      rw [heq]
      exact List.mem_of_mem_drop (List.mem_of_mem_take ho)
    refine ((List.forall₂_and_left _ _).mpr ⟨hmem, hget⟩).imp ?_
    rintro o c ⟨hne, hc⟩ b hb
    rw [hc b hb, crypt_crypt_eq_iff]
    refine hne.imp_right fun hne heq => hne ?_
    rw [← heq]
    exact hb.symm

end encrypted

/-- A file in `/encrypt`. -/
def encryptedFile : Dentry := .node (.node .root ⟨encryptName, by decide⟩) fName

/-- A regular file without contents. -/
def emptyFile : Inode := ⟨0x81A4, Data.new 0, []⟩

/-- With the key 1, `A` is read back. -/
theorem roundTrip_other_byte : RoundTrip 1 encryptedFile emptyFile [⟨Env.good, false, [65], 0⟩] :=
  (roundTrip_iff (by decide) rfl [⟨Env.good, false, [65], 0⟩]).mpr (Or.inr (by decide))

/-- With the key `A`, it is not. -/
theorem not_roundTrip_key : ¬ RoundTrip 65 encryptedFile emptyFile [⟨Env.good, false, [65], 0⟩] :=
  not_roundTrip (by decide) rfl (by decide) (by decide)

end Comp3301.Ext3301
