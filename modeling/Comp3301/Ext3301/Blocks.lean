import Comp3301.Ext3301.Immediate
import Comp3301.Lib.System

/-!
# The file system: block numbers

How the words of `i_data` of a regular file are set: `ext2_get_blocks` and what it calls
(`a3/inode.c`), as far as it is about block numbers.

* `Volume` holds the memory of the inode and the pointers in indirect blocks. It also records which
  words of `i_data` `ext2_splice_branch` has stored, and which blocks the allocator has given.
* The allocator is a parameter: `GetBlocks.allocated` are the answers of `ext2_new_blocks`, each a
  first block and a number of blocks, which is at most what was asked for.
* Nothing else works on the file at the same time, so that the chain that was read does not change.
* `Owned` says that every word of `i_data` that is not zero has been stored by `ext2_splice_branch`
  and is a block that the allocator has given. All operations keep it (`Owned.getBlocks`).
-/

namespace Comp3301.Ext3301

open Comp3301.Lib

/-! ## Words -/

/-- A byte of the memory. -/
def Data.byte (d : Data) (i : ℕ) : ℕ := (d.bytes[i]?.getD 0).toNat

/-- Word `k` of `i_data`. -/
def Data.word (d : Data) (k : ℕ) : BitVec 32 :=
  BitVec.ofNat 32 (d.byte (4 * k) + 2 ^ 8 * d.byte (4 * k + 1) + 2 ^ 16 * d.byte (4 * k + 2) +
    2 ^ 24 * d.byte (4 * k + 3))

/-- Store a word of `i_data`. -/
def Data.setWord (d : Data) (k : ℕ) (w : BitVec 32) (hk : k < 15) : Data where
  bytes := d.bytes.take (4 * k) ++ leBytes w ++ d.bytes.drop (4 * k + 4)
  size := by
    simp only [List.length_append, List.length_take, List.length_drop, d.size, leBytes,
      List.length_cons, List.length_nil]
    omega
  faddr := by
    have hfront : (d.bytes.take (4 * k) ++ leBytes w).length = 4 * k + 4 := by
      simp only [List.length_append, List.length_take, d.size, leBytes, List.length_cons,
        List.length_nil]
      omega
    rw [List.drop_append, List.drop_eq_nil_of_le (by omega), List.nil_append, hfront,
      List.drop_drop, show 4 * k + 4 + (64 - (4 * k + 4)) = 64 by omega, d.faddr]

lemma Data.byte_setWord (d : Data) {k : ℕ} (w : BitVec 32) (hk : k < 15) (i : ℕ) :
    (d.setWord k w hk).byte i =
      if 4 * k ≤ i ∧ i < 4 * k + 4 then ((leBytes w)[i - 4 * k]?.getD 0).toNat else d.byte i := by
  have hfront : (d.bytes.take (4 * k)).length = 4 * k := by
    rw [List.length_take, d.size]
    omega
  have hle : (leBytes w).length = 4 := rfl
  unfold Data.byte Data.setWord
  simp only
  rcases Nat.lt_or_ge i (4 * k) with hi | hi
  · rw [if_neg (by omega), List.append_assoc, List.getElem?_append_left (by omega),
      List.getElem?_take_of_lt hi]
  · rcases Nat.lt_or_ge i (4 * k + 4) with hi' | hi'
    · rw [if_pos ⟨hi, hi'⟩, List.append_assoc, List.getElem?_append_right (by omega), hfront,
        List.getElem?_append_left (by omega)]
    · rw [if_neg (by omega), List.getElem?_append_right (by rw [List.length_append]; omega),
        List.length_append, hfront, hle, List.getElem?_drop]
      congr 3
      omega

lemma Data.word_setWord_self (d : Data) {k : ℕ} (w : BitVec 32) (hk : k < 15) :
    (d.setWord k w hk).word k = w := by
  unfold Data.word
  simp only [Data.byte_setWord]
  rw [if_pos (by omega), if_pos (by omega), if_pos (by omega), if_pos (by omega), Nat.sub_self,
    Nat.add_sub_cancel_left, Nat.add_sub_cancel_left, Nat.add_sub_cancel_left]
  simp only [leBytes, List.getElem?_cons_zero, List.getElem?_cons_succ, Option.getD_some,
    UInt8.toNat_ofNat']
  apply BitVec.eq_of_toNat_eq
  have hw := w.isLt
  rw [BitVec.toNat_ofNat]
  omega

lemma Data.word_setWord_of_ne (d : Data) {j k : ℕ} (w : BitVec 32) (hk : k < 15) (hjk : j ≠ k) :
    (d.setWord k w hk).word j = d.word j := by
  unfold Data.word
  simp only [Data.byte_setWord]
  rw [if_neg (by omega), if_neg (by omega), if_neg (by omega), if_neg (by omega)]

/-! ## Pointers -/

/-- `EXT2_NDIR_BLOCKS`. -/
def ndirBlocks : ℕ := 12

/-- `ext2_block_to_path`: the offsets, none if the block is out of range, and the number of blocks
to the boundary. -/
def blockToPath (ptrsBits iBlock : ℕ) : List ℕ × ℕ :=
  let ptrs := 2 ^ ptrsBits
  let doubleBlocks := 2 ^ (ptrsBits * 2)
  let boundary (final b : ℕ) : ℕ := final - 1 - b % ptrs
  if iBlock < ndirBlocks then ([iBlock], boundary ndirBlocks iBlock)
  else
    let b := iBlock - ndirBlocks
    if b < ptrs then ([12, b], boundary ptrs b)
    else
      let b := b - ptrs
      if b < doubleBlocks then ([13, b / ptrs, b % ptrs], boundary ptrs b)
      else
        let b := b - doubleBlocks
        if b / doubleBlocks < ptrs then
          ([14, b / doubleBlocks, b / ptrs % ptrs, b % ptrs], boundary ptrs b)
        else ([], 0)

/-- The place of a pointer: a word of `i_data` or of an indirect block. -/
inductive Slot where
  | inode (k : ℕ)
  | block (b : BitVec 32) (k : ℕ)

/-- The pointer `i` places behind. -/
def Slot.next : Slot → ℕ → Slot
  | inode k, i => inode (k + i)
  | block b k, i => block b (k + i)

/-- The inode's memory and the indirect blocks, with the words of `i_data` that
`ext2_splice_branch` has stored and the blocks that the allocator has given. -/
structure Volume where
  data : Data
  disk : BitVec 32 → ℕ → BitVec 32
  stores : List (ℕ × BitVec 32)
  given : List (BitVec 32)

namespace Volume

/-- The pointer at a place. -/
def load (v : Volume) : Slot → BitVec 32
  | .inode k => v.data.word k
  | .block b k => v.disk b k

/-- Store a pointer. `i_data` has 15 words. -/
def store (v : Volume) (slot : Slot) (w : BitVec 32) : Volume :=
  match slot with
  | .inode k =>
      if hk : k < 15 then
        { v with data := v.data.setWord k w hk, stores := v.stores ++ [(k, w)] }
      else v
  | .block b k => { v with disk := Function.update v.disk b (Function.update (v.disk b) k w) }

@[simp] lemma given_store (v : Volume) (slot : Slot) (w : BitVec 32) :
    (v.store slot w).given = v.given := by
  rcases slot with k | ⟨b, k⟩
  · unfold store
    simp only
    split_ifs <;> rfl
  · rfl

/-- `memset (bh->b_data, 0, blocksize)`. -/
def clearBlock (v : Volume) (b : BitVec 32) : Volume :=
  { v with disk := Function.update v.disk b fun _ => 0 }

/-- The allocator gives `count` blocks from `first` on. -/
def give (v : Volume) (first : BitVec 32) (count : ℕ) : Volume :=
  { v with given := v.given ++ (List.range count).map fun i => first + BitVec.ofNat 32 i }

end Volume

/-- What `ext2_get_branch` comes to: the chain is complete, an indirect block cannot be read, or a
pointer is missing, and `offsets` lead on from there. -/
inductive Branch where
  | complete
  | ioError
  | missing (slot : Slot) (offsets : List ℕ)

/-- `ext2_get_branch`. -/
def getBranch (v : Volume) (readable : BitVec 32 → Bool) : Slot → List ℕ → Branch
  | slot, [] => if v.load slot = 0 then .missing slot [] else .complete
  | slot, k :: offsets =>
      if v.load slot = 0 then .missing slot (k :: offsets)
      else if readable (v.load slot) then
        getBranch v readable (.block (v.load slot) k) offsets
      else .ioError

/-! ## Allocation -/

/-- The loop of `ext2_blks_to_allocate`, for at most the given number of rounds. -/
def countFree (v : Volume) (slot : Slot) (blks boundary : ℕ) : ℕ → ℕ → ℕ
  | 0, count => count
  | n + 1, count =>
      if count < blks ∧ count ≤ boundary ∧ v.load (slot.next count) = 0 then
        countFree v slot blks boundary n (count + 1)
      else count

/-- `ext2_blks_to_allocate`. The loop ends at the boundary. -/
def blksToAllocate (v : Volume) (slot : Slot) (k blks boundary : ℕ) : ℕ :=
  if 0 < k then min blks (boundary + 1)
  else countFree v slot blks boundary (boundary + 1) 1

/-- The loop of `ext2_alloc_blocks`: the blocks for the indirect blocks and the first direct one,
and the number of direct blocks. `none` when the allocator fails. -/
def allocBlocks (indirect : ℕ) :
    ℕ → List (BitVec 32) → List (BitVec 32 × ℕ) → Volume →
      Option (List (BitVec 32) × ℕ) × Volume
  | _, _, [], v => (none, v)
  | target, news, (first, n) :: answers, v =>
      let count := min n target
      let v := v.give first count
      let taken := min count (indirect - news.length)
      let news := news ++ (List.range taken).map fun i => first + BitVec.ofNat 32 i
      if 0 < count - taken then (some (news ++ [first + BitVec.ofNat 32 taken], count - taken), v)
      else allocBlocks indirect (target - count) news answers v

/-- The loop of `ext2_alloc_branch`: `b` is the block that holds the pointer to the next one. -/
def linkBlocks (num : ℕ) : BitVec 32 → List (BitVec 32) → List ℕ → Volume → Volume
  | b, new :: news, k :: offsets, v =>
      let v := (v.clearBlock b).store (.block b k) new
      let v :=
        if news = [] then
          (List.range (num - 1)).foldl
            (fun v i => v.store (.block b (k + (i + 1))) (new + BitVec.ofNat 32 (i + 1))) v
        else v
      linkBlocks num new news offsets v
  | _, _, _, v => v

/-- `ext2_splice_branch`. -/
def spliceBranch (slot : Slot) (key : BitVec 32) (num blks : ℕ) (v : Volume) : Volume :=
  let v := v.store slot key
  if num = 0 ∧ 1 < blks then
    (List.range (blks - 1)).foldl
      (fun v i => v.store (slot.next (i + 1)) (key + BitVec.ofNat 32 (i + 1))) v
  else v

/-- A call of `ext2_get_blocks` with `create`: the block and the number of blocks asked for, the
indirect blocks that can be read, and the answers of `ext2_new_blocks`. -/
structure GetBlocks where
  iBlock : ℕ
  maxBlocks : ℕ
  readable : BitVec 32 → Bool
  allocated : List (BitVec 32 × ℕ)

/-- `ext2_get_blocks`. -/
def getBlocks (ptrsBits : ℕ) (v : Volume) (c : GetBlocks) : Volume :=
  match blockToPath ptrsBits c.iBlock with
  | ([], _) => v
  | (k :: offsets, boundary) =>
      match getBranch v c.readable (.inode k) offsets with
      | .complete => v
      | .ioError => v
      | .missing slot offsets =>
          let indirect := offsets.length
          let count := blksToAllocate v slot indirect c.maxBlocks boundary
          match allocBlocks indirect (count + indirect) [] c.allocated v with
          | (none, v) => v
          | (some ([], _), v) => v
          | (some (key :: news, num), v) =>
              spliceBranch slot key indirect num (linkBlocks num key news offsets v)

/-! ## Owned words -/

/-- Every word of `i_data` that is not zero has been stored by `ext2_splice_branch` and is a block
that the allocator has given. -/
def Owned (v : Volume) : Prop :=
  ∀ k < 15, v.data.word k ≠ 0 → (k, v.data.word k) ∈ v.stores ∧ v.data.word k ∈ v.given

namespace Owned

variable {v : Volume}

/-- Storing a block that has been given. -/
lemma store (h : Owned v) (slot : Slot) {w : BitVec 32} (hw : w ∈ v.given) :
    Owned (v.store slot w) := by
  rcases slot with k | ⟨b, k⟩
  · unfold Volume.store
    simp only
    split_ifs with hk
    · intro j hj hne
      by_cases hjk : j = k
      · subst hjk
        simp only [Data.word_setWord_self]
        exact ⟨List.mem_append_right _ (List.mem_singleton_self _), hw⟩
      · simp only [Data.word_setWord_of_ne _ _ _ hjk] at hne ⊢
        exact ⟨List.mem_append_left _ (h j hj hne).1, (h j hj hne).2⟩
    · exact h
  · exact h

lemma give (h : Owned v) (first : BitVec 32) (count : ℕ) : Owned (v.give first count) :=
  fun k hk hne => ⟨(h k hk hne).1, List.mem_append_left _ (h k hk hne).2⟩

/-- Storing several pointers, one after the other. -/
lemma foldl_store (h : Owned v) (slot : ℕ → Slot) (w : ℕ → BitVec 32) (n : ℕ)
    (hw : ∀ i < n, w i ∈ v.given) :
    Owned ((List.range n).foldl (fun v i => v.store (slot i) (w i)) v) ∧
      ((List.range n).foldl (fun v i => v.store (slot i) (w i)) v).given = v.given := by
  induction n with
  | zero => exact ⟨h, rfl⟩
  | succ n ih =>
      obtain ⟨howned, hgiven⟩ := ih fun i hi => hw i (Nat.lt_succ_of_lt hi)
      rw [List.range_succ, List.foldl_append, List.foldl_cons, List.foldl_nil]
      refine ⟨howned.store _ (by rw [hgiven]; exact hw n (Nat.lt_succ_self n)), ?_⟩
      rw [Volume.given_store, hgiven]

end Owned

/-! ### Allocation -/

lemma Volume.mem_given_give {v : Volume} {first : BitVec 32} {count i : ℕ} (hi : i < count) :
    first + BitVec.ofNat 32 i ∈ (v.give first count).given :=
  List.mem_append_right _ (List.mem_map.mpr ⟨i, List.mem_range.mpr hi, rfl⟩)

lemma Owned.allocBlocks {v : Volume} (h : Owned v) (indirect target : ℕ)
    (news : List (BitVec 32)) (answers : List (BitVec 32 × ℕ)) :
    Owned (allocBlocks indirect target news answers v).2 := by
  induction answers generalizing v target news with
  | nil => exact h
  | cons answer answers ih =>
      unfold Ext3301.allocBlocks
      simp only
      split_ifs
      · exact h.give _ _
      · exact ih (h.give _ _) _ _

/-- What has been allocated has been given. Without indirect blocks, the direct blocks follow one
another. -/
lemma allocBlocks_given {indirect target num : ℕ} {news out : List (BitVec 32)}
    {answers : List (BitVec 32 × ℕ)} {v v' : Volume}
    (halloc : allocBlocks indirect target news answers v = (some (out, num), v'))
    (hnews : ∀ b ∈ news, b ∈ v.given) :
    (∀ b ∈ out, b ∈ v'.given) ∧
      (indirect = 0 → news = [] →
        ∃ first, out = [first] ∧ ∀ i < num, first + BitVec.ofNat 32 i ∈ v'.given) := by
  induction answers generalizing v target news with
  | nil => cases halloc
  | cons answer answers ih =>
      obtain ⟨first, n⟩ := answer
      unfold allocBlocks at halloc
      simp only at halloc
      set count := min n target
      set taken := min count (indirect - news.length) with htaken
      have hle : taken ≤ count := min_le_left _ _
      have hnews' : ∀ b ∈ news ++ (List.range taken).map fun i => first + BitVec.ofNat 32 i,
          b ∈ (v.give first count).given := by
        intro b hb
        rcases List.mem_append.mp hb with hb | hb
        · exact List.mem_append_left _ (hnews b hb)
        · obtain ⟨i, hi, rfl⟩ := List.mem_map.mp hb
          exact Volume.mem_given_give ((List.mem_range.mp hi).trans_le hle)
      split_ifs at halloc with hpos
      · cases halloc
        constructor
        · intro b hb
          rcases List.mem_append.mp hb with hb | hb
          · exact hnews' b hb
          · rw [List.mem_singleton.mp hb]
            exact Volume.mem_given_give (by omega)
        · rintro rfl rfl
          have hzero : taken = 0 := by simp [htaken]
          refine ⟨first, by simp [hzero], ?_⟩
          intro i hi
          exact Volume.mem_given_give (by omega)
      · obtain ⟨hout, hdirect⟩ := ih halloc hnews'
        refine ⟨hout, ?_⟩
        rintro rfl rfl
        exact hdirect rfl (by simp [htaken])

/-- Nothing has changed but the indirect blocks. -/
def Volume.SameInode (v v' : Volume) : Prop :=
  v'.data = v.data ∧ v'.stores = v.stores ∧ v'.given = v.given

lemma Owned.of_sameInode {v v' : Volume} (h : Owned v) (hsame : v.SameInode v') : Owned v' := by
  intro k hk
  rw [hsame.1, hsame.2.1, hsame.2.2]
  exact h k hk

lemma sameInode_foldl (b : BitVec 32) (slot : ℕ → ℕ) (w : ℕ → BitVec 32) (n : ℕ) (v : Volume) :
    v.SameInode ((List.range n).foldl (fun v i => v.store (.block b (slot i)) (w i)) v) := by
  induction n with
  | zero => exact ⟨rfl, rfl, rfl⟩
  | succ n ih =>
      rw [List.range_succ, List.foldl_append, List.foldl_cons, List.foldl_nil]
      exact ih

lemma sameInode_linkBlocks (num : ℕ) (b : BitVec 32) (news : List (BitVec 32)) (offsets : List ℕ)
    (v : Volume) : v.SameInode (linkBlocks num b news offsets v) := by
  induction news generalizing b offsets v with
  | nil => exact ⟨rfl, rfl, rfl⟩
  | cons new news ih =>
      cases offsets with
      | nil => exact ⟨rfl, rfl, rfl⟩
      | cons k offsets =>
          unfold linkBlocks
          simp only
          split_ifs
          · have hfold := sameInode_foldl b (fun i => k + (i + 1))
              (fun i => new + BitVec.ofNat 32 (i + 1)) (num - 1)
              ((v.clearBlock b).store (.block b k) new)
            have hrest := ih new offsets ((List.range (num - 1)).foldl
              (fun v i => v.store (.block b (k + (i + 1))) (new + BitVec.ofNat 32 (i + 1)))
              ((v.clearBlock b).store (.block b k) new))
            exact ⟨hrest.1.trans hfold.1, hrest.2.1.trans hfold.2.1, hrest.2.2.trans hfold.2.2⟩
          · exact ih new offsets ((v.clearBlock b).store (.block b k) new)

/-- Splicing in blocks that have been given. -/
lemma Owned.spliceBranch {v : Volume} (h : Owned v) (slot : Slot) {key : BitVec 32} {num blks : ℕ}
    (hkey : key ∈ v.given)
    (hdirect : num = 0 → ∀ i < blks, key + BitVec.ofNat 32 i ∈ v.given) :
    Owned (spliceBranch slot key num blks v) := by
  unfold Ext3301.spliceBranch
  simp only
  have hfirst : Owned (v.store slot key) := h.store slot hkey
  split_ifs with hnum
  · refine (hfirst.foldl_store _ _ _ ?_).1
    intro i hi
    rw [Volume.given_store]
    exact hdirect hnum.1 (i + 1) (by omega)
  · exact hfirst

/-- **`ext2_get_blocks` only stores blocks that it has been given.** -/
lemma Owned.getBlocks {v : Volume} (h : Owned v) (ptrsBits : ℕ) (c : GetBlocks) :
    Owned (getBlocks ptrsBits v c) := by
  unfold Ext3301.getBlocks
  split
  · exact h
  · rename_i k path boundary hpath
    split
    · exact h
    · exact h
    · rename_i slot offsets hbranch
      have howned := h.allocBlocks offsets.length
        (blksToAllocate v slot offsets.length c.maxBlocks boundary + offsets.length) [] c.allocated
      simp only
      split
      · rename_i hnone
        rwa [hnone] at howned
      · rename_i hempty
        rwa [hempty] at howned
      · rename_i key news num v' hsome
        rw [hsome] at howned
        obtain ⟨hgiven, hdirect⟩ := allocBlocks_given hsome (by simp)
        have hsame := sameInode_linkBlocks num key news offsets v'
        apply (howned.of_sameInode hsame).spliceBranch
        · rw [hsame.2.2]
          exact hgiven key List.mem_cons_self
        · intro hzero i hi
          obtain ⟨first, hout, hfirst⟩ := hdirect hzero rfl
          obtain ⟨rfl, -⟩ := List.cons.inj hout
          rw [hsame.2.2]
          exact hfirst i hi

end Comp3301.Ext3301
