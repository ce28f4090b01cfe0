import Comp3301.Ext3301.Blocks
import Comp3301.Lib.System

/-!
# Block numbers and former contents

The 60 bytes of `i_data` are the contents of an immediate file, and the block numbers of a regular
one.

* `handOff` is the inode that a write hands to `do_sync_write`, if it does.
* On a conversion `i_data` is cleared up to the first zero. All its words are zero then exactly if
  no byte behind a zero was set (`words_memset_iff`).
* `hygiene_of_reach`: in runs whose conversions are all of this kind, the words of a regular file
  are blocks that the allocator has given to it.
-/

namespace Comp3301.Ext3301

open Comp3301.Lib

/-! ## Clearing -/

/-- No byte of `i_data` that is set stands behind one that is zero. -/
def Data.Solid (d : Data) : Prop := ∀ i j, i ≤ j → j < 60 → d.byte i = 0 → d.byte j = 0

section takeWhile

variable {α : Type} {p : α → Bool}

/-- The element at which `takeWhile` stops. -/
lemma getElem?_length_takeWhile (l : List α) :
    ∀ a ∈ l[(l.takeWhile p).length]?, p a = false := by
  induction l with
  | nil => simp
  | cons b l ih =>
      intro a ha
      by_cases hb : p b
      · rw [List.takeWhile_cons_of_pos hb, List.length_cons, List.getElem?_cons_succ] at ha
        exact ih a ha
      · rw [List.takeWhile_cons_of_neg hb, List.length_nil, List.getElem?_cons_zero] at ha
        rw [← Option.mem_some_iff.mp ha]
        simpa using hb

lemma getElem?_of_lt_takeWhile {l : List α} {i : ℕ} (hi : i < (l.takeWhile p).length) :
    ∀ a ∈ l[i]?, p a := by
  intro a ha
  have hmem : a ∈ l.takeWhile p := by
    rw [List.prefix_iff_eq_take.mp (List.takeWhile_prefix p)]
    apply List.mem_of_getElem? (i := i)
    rw [List.getElem?_take_of_lt hi]
    exact ha
  exact List.all_eq_true.mp List.all_takeWhile a hmem

end takeWhile

namespace Data

variable (d : Data)

lemma byte_strlen : d.byte d.strlen = 0 := by
  unfold byte
  rcases h : d.bytes[d.strlen]? with _ | a
  · rfl
  · have hzero := getElem?_length_takeWhile (p := fun b : UInt8 => b ≠ 0) d.bytes a h
    simp only [ne_eq, decide_not, Bool.not_eq_false', decide_eq_true_eq] at hzero
    rw [hzero]
    rfl

lemma byte_ne_zero {i : ℕ} (hi : i < d.strlen) : d.byte i ≠ 0 := by
  have hlt : i < d.bytes.length := hi.trans_le ((List.takeWhile_sublist _).length_le)
  have hne := getElem?_of_lt_takeWhile hi d.bytes[i] (List.getElem?_eq_getElem hlt)
  simp only [ne_eq, decide_not, Bool.not_eq_true', decide_eq_false_iff_not] at hne
  unfold byte
  rw [List.getElem?_eq_getElem hlt, Option.getD_some]
  exact fun h => hne (UInt8.toNat_inj.mp h)

lemma byte_memset (i : ℕ) : d.memset.byte i = if i < d.strlen then 0 else d.byte i := by
  unfold byte memset
  simp only
  split_ifs with hi
  · rw [List.getElem?_append_left (by simpa using hi), List.getElem?_replicate, if_pos hi]
    rfl
  · rw [List.getElem?_append_right (by simpa using hi), List.length_replicate,
      List.getElem?_drop, Nat.add_sub_cancel' (Nat.not_lt.mp hi)]

lemma byte_lt (i : ℕ) : d.byte i < 256 := (d.bytes[i]?.getD 0).toNat_lt

lemma word_eq_zero_iff (k : ℕ) : d.word k = 0 ↔
    d.byte (4 * k) = 0 ∧ d.byte (4 * k + 1) = 0 ∧ d.byte (4 * k + 2) = 0 ∧
      d.byte (4 * k + 3) = 0 := by
  have h₀ := d.byte_lt (4 * k)
  have h₁ := d.byte_lt (4 * k + 1)
  have h₂ := d.byte_lt (4 * k + 2)
  have h₃ := d.byte_lt (4 * k + 3)
  rw [word, ← BitVec.toNat_inj, BitVec.toNat_ofNat]
  change _ % _ = 0 ↔ _
  omega

lemma words_eq_zero_iff : (∀ k < 15, d.word k = 0) ↔ ∀ i < 60, d.byte i = 0 := by
  simp only [word_eq_zero_iff]
  constructor
  · intro h i hi
    have hword := h (i / 4) (by omega)
    have hcases : i = 4 * (i / 4) ∨ i = 4 * (i / 4) + 1 ∨ i = 4 * (i / 4) + 2 ∨
        i = 4 * (i / 4) + 3 := by omega
    rcases hcases with hi | hi | hi | hi <;> rw [hi]
    · exact hword.1
    · exact hword.2.1
    · exact hword.2.2.1
    · exact hword.2.2.2
  · intro h k hk
    exact ⟨h _ (by omega), h _ (by omega), h _ (by omega), h _ (by omega)⟩

/-- **When the clearing reaches all words.** -/
theorem words_memset_iff : (∀ k < 15, d.memset.word k = 0) ↔ d.Solid := by
  rw [words_eq_zero_iff]
  simp only [byte_memset]
  constructor
  · intro h i j hij hj hzero
    have hi : d.strlen ≤ i := by
      by_contra hlt
      exact d.byte_ne_zero (Nat.not_le.mp hlt) hzero
    have hcleared := h j hj
    rwa [if_neg (by omega)] at hcleared
  · intro h i hi
    split_ifs with hlt
    · rfl
    · exact h d.strlen i (Nat.not_lt.mp hlt) hi d.byte_strlen

end Data

/-! ## Handing over -/

/-- The inode that `ext3301_sync_write` hands to `do_sync_write`, if it does. -/
def handOff (key : UInt8) (env : Env) (filp : Filp) (ino : Inode) (buf : List UInt8) (ppos : ℕ) :
    Option Inode :=
  if filp.Rejects env then none
  else if sIsim ino.iMode then
    match imPrepare filp.append env.imAlloc ino.data (cipher key filp buf) ppos with
    | .handsOver data _ => some { ino with data := data }
    | _ => none
  else some ino

/-- A change of the pointers: `ext2_get_blocks`, or `ext2_truncate`, which clears pointers when a
failed write is undone. -/
inductive BlockOp where
  | get (c : GetBlocks)
  | clear (k : ℕ)

/-- One change of the pointers. -/
def BlockOp.run (ptrsBits : ℕ) (v : Volume) : BlockOp → Volume
  | get c => getBlocks ptrsBits v c
  | clear k => if hk : k < 15 then { v with data := v.data.setWord k 0 hk } else v

/-- A call of `ext3301_sync_write`. `ops` is what `do_sync_write` does to the pointers; `ret`, `pos`
and `contents` are what it comes to. -/
structure FileWrite where
  key : UInt8
  env : Env
  filp : Filp
  buf : List UInt8
  ppos : ℕ
  ops : List BlockOp
  ret : ℤ
  pos : ℕ
  contents : List UInt8

/-- The file, its indirect blocks, and the record of its blocks. -/
structure FileState where
  ino : Inode
  disk : BitVec 32 → ℕ → BitVec 32
  stores : List (ℕ × BitVec 32)
  given : List (BitVec 32)

/-- The pointers of a file. -/
def FileState.volume (s : FileState) (d : Data) : Volume := ⟨d, s.disk, s.stores, s.given⟩

namespace FileWrite

/-- The inode that the call hands over. -/
def handed (c : FileWrite) (ino : Inode) : Option Inode :=
  handOff c.key c.env c.filp ino c.buf c.ppos

/-- `do_sync_write` as it goes in this call, leaving `d`. -/
def vfs (c : FileWrite) (d : Data) : Vfs where
  doSyncRead := byteArray.doSyncRead
  doSyncWrite _ ino _ _ := ⟨c.ret, c.pos, { ino with data := d, contents := c.contents }⟩

/-- The inode after the call. -/
def result (c : FileWrite) (ino : Inode) (d : Data) : Inode :=
  (syncWrite (c.vfs d) c.key c.env c.filp ino c.buf c.ppos).inode

/-- The call. -/
def step (ptrsBits : ℕ) (s : FileState) (c : FileWrite) : FileState :=
  match c.handed s.ino with
  | none => { s with ino := c.result s.ino s.ino.data }
  | some ino =>
      let v := c.ops.foldl (BlockOp.run ptrsBits) (s.volume ino.data)
      ⟨c.result s.ino v.data, v.disk, v.stores, v.given⟩

end FileWrite

lemma Owned.blockOps {v : Volume} (h : Owned v) (ptrsBits : ℕ) (ops : List BlockOp) :
    Owned (ops.foldl (BlockOp.run ptrsBits) v) := by
  induction ops generalizing v with
  | nil => exact h
  | cons op ops ih =>
      rw [List.foldl_cons]
      apply ih
      cases op with
      | get c => exact h.getBlocks ptrsBits c
      | clear k =>
          simp only [BlockOp.run]
          split_ifs with hk
          · intro j hj hne
            by_cases hjk : j = k
            · subst hjk
              simp only [Data.word_setWord_self] at hne
              exact absurd rfl hne
            · simp only [Data.word_setWord_of_ne _ _ _ hjk] at hne ⊢
              exact h j hj hne
          · exact h

section call

variable {c : FileWrite} {ino : Inode}

/-- A write that is not handed over leaves the type, and an inode that is not immediate. -/
lemma result_of_handed_none (h : c.handed ino = none) (d : Data) :
    (c.result ino d).iMode = ino.iMode ∧ (¬ sIsim ino.iMode → c.result ino d = ino) := by
  unfold FileWrite.handed handOff at h
  unfold FileWrite.result
  by_cases hrej : c.filp.Rejects c.env
  · rw [(syncWrite_of_rejects (c.vfs d) c.key hrej ino c.buf c.ppos).1]
    exact ⟨rfl, fun _ => rfl⟩
  · rw [if_neg hrej] at h
    rw [syncWrite_of_not_rejects (c.vfs d) c.key hrej]
    split_ifs at h with him
    refine ⟨?_, fun hnot => absurd him hnot⟩
    rw [plainWrite, if_pos him, imWrite]
    rcases imPrepare_cases c.filp.append c.env.imAlloc ino.data (cipher c.key c.filp c.buf) c.ppos
      with ⟨-, out, hout⟩ | ⟨-, ⟨d', hd'⟩ | hnone⟩
    · rw [hout] at h
      cases h
    · rw [hd']
    · rw [hnone]

/-- An immediate file is handed over with `i_data` cleared, and becomes regular. -/
lemma handed_immediate (him : sIsim ino.iMode) {ino' : Inode} (h : c.handed ino = some ino') :
    ino'.data = ino.data.memset ∧
      ∀ d, (c.result ino d).data = d ∧ sIsreg (c.result ino d).iMode := by
  unfold FileWrite.handed handOff at h
  unfold FileWrite.result
  split_ifs at h with hrej
  rcases imPrepare_cases c.filp.append c.env.imAlloc ino.data (cipher c.key c.filp c.buf) c.ppos
    with ⟨-, out, hout⟩ | ⟨-, ⟨d', hd'⟩ | hnone⟩
  · rw [hout] at h
    obtain rfl := Option.some.inj h
    refine ⟨rfl, fun d => ?_⟩
    rw [syncWrite_of_not_rejects (c.vfs d) c.key hrej, plainWrite, if_pos him, imWrite, hout]
    simp only [FileWrite.vfs]
    split_ifs
    · exact ⟨rfl, sIsreg_converted him⟩
    · exact ⟨rfl, sIsreg_converted him⟩
  · rw [hd'] at h
    cases h
  · rw [hnone] at h
    cases h

/-- A regular file is handed over as it is, and stays regular. -/
lemma handed_regular (hreg : sIsreg ino.iMode) {ino' : Inode} (h : c.handed ino = some ino') :
    ino' = ino ∧ ∀ d, (c.result ino d).data = d ∧ sIsreg (c.result ino d).iMode := by
  have him : ¬ sIsim ino.iMode := by simp [not_sIsim_of_sIsreg hreg]
  unfold FileWrite.handed handOff at h
  unfold FileWrite.result
  split_ifs at h with hrej
  refine ⟨(Option.some.inj h).symm, fun d => ?_⟩
  rw [syncWrite_of_not_rejects (c.vfs d) c.key hrej, plainWrite, if_neg him]
  exact ⟨rfl, hreg⟩

end call

/-! ## Runs -/

/-- The state of a new file. -/
def FileState.new (mode : {m : Mode // sIsreg m}) (iFlags : BitVec 32)
    (disk : BitVec 32 → ℕ → BitVec 32) : FileState := ⟨newInode mode iFlags, disk, [], []⟩

/-- The condition on the steps of a run: an immediate file that is handed over has no byte set
behind a zero. -/
def FileWrite.Clean (s : FileState) (c : FileWrite) : Prop :=
  sIsim s.ino.iMode → (c.handed s.ino).isSome → s.ino.data.Solid

/-- What holds in every state of such a run. -/
structure Tidy (s : FileState) : Prop where
  file : sIsim s.ino.iMode ∨ sIsreg s.ino.iMode
  owned : sIsreg s.ino.iMode → Owned (s.volume s.ino.data)

/-- When all words are zero, none needs an owner. -/
lemma owned_of_words_zero {v : Volume} (h : ∀ k < 15, v.data.word k = 0) : Owned v :=
  fun k hk hne => absurd (h k hk) hne

/-- One write. -/
lemma Tidy.step {s : FileState} (h : Tidy s) (ptrsBits : ℕ) {c : FileWrite} (hc : c.Clean s) :
    Tidy (c.step ptrsBits s) := by
  unfold FileWrite.step
  rcases hhanded : c.handed s.ino with _ | ino'
  · obtain ⟨hmode, hsame⟩ := result_of_handed_none hhanded s.ino.data
    constructor
    · simp only [hmode]
      exact h.file
    · simp only [hmode]
      intro hreg
      rw [hsame (by simp [not_sIsim_of_sIsreg hreg])]
      exact h.owned hreg
  · simp only
    rcases h.file with him | hreg
    · -- the conversion: no word is left
      obtain ⟨hdata, hresult⟩ := handed_immediate him hhanded
      have hzero : ∀ k < 15, ino'.data.word k = 0 := by
        rw [hdata, Data.words_memset_iff]
        exact hc him (by rw [hhanded]; rfl)
      have hops := (owned_of_words_zero (v := s.volume ino'.data) hzero).blockOps ptrsBits c.ops
      refine ⟨Or.inr (hresult _).2, fun _ => ?_⟩
      rw [FileState.volume, (hresult _).1]
      exact hops
    · obtain ⟨rfl, hresult⟩ := handed_regular hreg hhanded
      have hops := (h.owned hreg).blockOps ptrsBits c.ops
      refine ⟨Or.inr (hresult _).2, fun _ => ?_⟩
      rw [FileState.volume, (hresult _).1]
      exact hops

/-- **Block-pointer hygiene.** In every run from a new file whose conversions find no byte set
behind a zero: at a conversion all words of `i_data` are zero, and once the file is regular, every
word that is not zero has been stored by `ext2_splice_branch` and is a block that the allocator has
given to the file. -/
theorem hygiene_of_reach {ptrsBits : ℕ} {mode : {m : Mode // sIsreg m}} {iFlags : BitVec 32}
    {disk : BitVec 32 → ℕ → BitVec 32} {s : FileState}
    (hreach : Reach (FileState.new mode iFlags disk)
      (fun s c s' => s' = FileWrite.step ptrsBits s c) (fun s c => c.Clean s) s) :
    (∀ c : FileWrite, c.Clean s → sIsim s.ino.iMode → ∀ ino', c.handed s.ino = some ino' →
        ∀ k < 15, ino'.data.word k = 0) ∧
      (sIsreg s.ino.iMode → ∀ k < 15, s.ino.data.word k ≠ 0 →
        (k, s.ino.data.word k) ∈ s.stores ∧ s.ino.data.word k ∈ s.given) := by
  have htidy : Tidy s := by
    apply hreach.invariant
    · refine ⟨Or.inl (sIsim_created mode.2), fun hreg => ?_⟩
      have him : sIsim (FileState.new mode iFlags disk).ino.iMode := sIsim_created mode.2
      rw [not_sIsim_of_sIsreg hreg] at him
      cases him
    · rintro s c s' - hs hclean rfl
      exact hs.step ptrsBits hclean
  constructor
  · intro c hclean him ino' hhanded
    rw [(handed_immediate him hhanded).1, Data.words_memset_iff]
    exact hclean him (by rw [hhanded]; rfl)
  · exact htidy.owned

/-- A write to `/f` at position 0; `do_sync_write` asks for the first block and gets block 5. -/
def sampleWrite (buf : List UInt8) : FileWrite where
  key := 0
  env := Env.good
  filp := rootFilp
  buf := buf
  ppos := 0
  ops := [.get ⟨0, 1, fun _ => true, [(5, 1)]⟩]
  ret := buf.length
  pos := buf.length
  contents := buf

/-- A new file without indirect blocks. -/
def sampleFile : FileState := FileState.new plainMode 0 fun _ _ => 0

/-- After a write of `A` and one of 61 bytes, the only block is block 5. -/
theorem hygiene_short_write :
    let s := (sampleWrite (List.replicate 61 65)).step 8 ((sampleWrite [65]).step 8 sampleFile)
    sIsreg s.ino.iMode ∧ s.ino.data.word 0 = 5 ∧ (0, s.ino.data.word 0) ∈ s.stores ∧
      s.ino.data.word 0 ∈ s.given := by
  intro s
  have hsolid : ((sampleWrite [65]).step 8 sampleFile).ino.data.Solid :=
    (Data.words_memset_iff _).mp (by decide)
  have hreg : sIsreg s.ino.iMode := by decide
  have hword : s.ino.data.word 0 = 5 := by decide
  have hclean : (sampleWrite [65]).Clean sampleFile :=
    fun _ h => absurd h (by decide)
  have hall := hygiene_of_reach (s := s)
    ((Reach.init.step (k := sampleWrite [65]) hclean rfl).step
      (k := sampleWrite (List.replicate 61 65)) (fun _ _ => hsolid) rfl)
  exact ⟨hreg, hword, hall.2 hreg 0 (by decide) (by rw [hword]; decide)⟩

/-- After a write with a zero in it, the byte behind the zero is still there when the file becomes
regular, and is taken for the number of a block. -/
theorem not_hygiene_zero_byte :
    let s := (sampleWrite [1, 0, 1]).step 8 sampleFile
    let s' := (sampleWrite (List.replicate 61 65)).step 8 s
    sIsim s.ino.iMode ∧
      ((sampleWrite (List.replicate 61 65)).handed s.ino).map (fun ino => ino.data.word 0) =
        some 65536 ∧
      sIsreg s'.ino.iMode ∧ s'.ino.data.word 0 = 65536 ∧
      (0, s'.ino.data.word 0) ∉ s'.stores ∧ s'.ino.data.word 0 ∉ s'.given := by
  decide

end Comp3301.Ext3301
