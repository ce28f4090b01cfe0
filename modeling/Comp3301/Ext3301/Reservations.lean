import Comp3301.Lib.Bits
import Comp3301.Lib.Intervals
import Comp3301.Lib.Loops

/-!
# Reservation windows (`balloc.c`)

An inode that is written to may reserve a window of blocks. The windows of a mount hang in one
red-black tree, ordered by their blocks, with a dummy window at `0` that is always there. An inode's
window is the node of its inode number, and it is in the tree unless its end is `0`.

* `Reservations.searchReserveWindow`, `rsvWindowAdd`, `rsvWindowRemove`,
  `findNextReservableWindow`, `allocNewReservation`, `tryToExtendReservation`,
  `ext2DiscardReservation`, `ext2InitBlockAllocInfo`: the code; `none` is a `BUG`.
* `RbTree`: the two functions of the kernel's red-black trees that rebalance.
* `Reservations.WF`: the windows in the tree are disjoint and lie in order.
* `findNextReservableWindow_spec`: it takes the first place from the start on where a window of the
  wanted size meets no other, and gives up exactly where there is none.
* `allocNewReservation_spec`: a new window holds a free block.
-/

namespace Comp3301.Ext3301

open Comp3301.Lib

/-! ## The code -/

/-- `EXT2_RESERVE_WINDOW_NOT_ALLOCATED`. -/
def reserveWindowNotAllocated : ℕ := 0

/-- `EXT2_DEFAULT_RESERVE_BLOCKS`. -/
def defaultReserveBlocks : ℕ := 8

/-- `EXT2_MAX_RESERVE_BLOCKS`. -/
def maxReserveBlocks : ℕ := 1027

/-- `struct ext2_reserve_window_node`. -/
structure ReserveWindowNode where
  rsvStart : ℕ
  rsvEnd : ℕ
  rsvGoalSize : ℕ
  rsvAllocHit : ℕ
deriving DecidableEq

/-- `rsv_is_empty`. -/
def ReserveWindowNode.rsvIsEmpty (n : ReserveWindowNode) : Bool :=
  decide (n.rsvEnd = reserveWindowNotAllocated)

/-- `goal_in_my_reservation`, for the group of `blocksPerGroup` blocks from `firstBlock` on. -/
def ReserveWindowNode.goalInMyReservation (n : ReserveWindowNode) (grpGoal : Option ℕ)
    (firstBlock blocksPerGroup : ℕ) : Bool :=
  if n.rsvStart > firstBlock + blocksPerGroup - 1 ∨ n.rsvEnd < firstBlock then false
  else
    match grpGoal with
    | none => true
    | some g => !decide (g + firstBlock < n.rsvStart ∨ g + firstBlock > n.rsvEnd)

/-- The window that `find_next_reservable_window` books. -/
def ReserveWindowNode.book (n : ReserveWindowNode) (cur size : ℕ) : ReserveWindowNode :=
  { n with rsvStart := cur, rsvEnd := cur + size - 1, rsvAllocHit := 0 }

/-- `bitmap_search_next_usable_block`. -/
def bitmapSearchNextUsableBlock (start : ℕ) (b : Bits) (maxblocks : ℕ) : Option ℕ :=
  let next := nextZero b maxblocks start
  if next ≥ maxblocks then none else some next

/-- `rb_insert_color` and `rb_erase`: they may turn the tree, but keep the order of its nodes. -/
structure RbTree where
  insertColor : ℕ → BinaryTree ℕ → BinaryTree ℕ
  erase : ℕ → BinaryTree ℕ → BinaryTree ℕ
  inorder_insertColor : ∀ i t, inorder (insertColor i t) = inorder t
  inorder_erase : ∀ i t, i ∈ inorder t → inorder (erase i t) = (inorder t).erase i

/-- A tree without left branches. -/
def rightSpine : List ℕ → BinaryTree ℕ
  | [] => .nil
  | a :: as => .node a .nil (rightSpine as)

lemma inorder_rightSpine (as : List ℕ) : inorder (rightSpine as) = as := by
  induction as with
  | nil => rfl
  | cons a as ih => rw [rightSpine, inorder, inorder, List.nil_append, ih]

/-- A tree that is never balanced. -/
def RbTree.spine : RbTree where
  insertColor _ t := t
  erase i t := rightSpine ((inorder t).erase i)
  inorder_insertColor _ _ := rfl
  inorder_erase _ _ _ := inorder_rightSpine _

/-- The windows of a mount: the nodes, which inodes have a block allocation info, and the tree
`s_rsv_window_root`. -/
structure Reservations where
  node : ℕ → ReserveWindowNode
  allocInfo : ℕ → Bool
  root : BinaryTree ℕ

/-- `s_rsv_window_head`. -/
def rsvWindowHead : ℕ := 0

lemma bitmapSearchNextUsableBlock_cases (start : ℕ) (b : Bits) (maxblocks : ℕ) :
    (∃ f, bitmapSearchNextUsableBlock start b maxblocks = some f ∧ start ≤ f ∧ f < maxblocks ∧
        b f = false) ∨
      bitmapSearchNextUsableBlock start b maxblocks = none ∧
        ∀ j, start ≤ j → j < maxblocks → b j = true := by
  rw [bitmapSearchNextUsableBlock]
  rcases nextZero_cases b maxblocks start with ⟨hstart, hlt, hclear, -⟩ | ⟨heq, hset⟩
  · exact Or.inl ⟨_, if_neg (not_le.mpr hlt), hstart, hlt, hclear⟩
  · exact Or.inr ⟨if_pos heq.ge, hset⟩

namespace Reservations

/-- A new value of a node. -/
def setNode (w : Reservations) (i : ℕ) (n : ReserveWindowNode) : Reservations :=
  { w with node := Function.update w.node i n }

/-- The windows at mount time. -/
def mounted : Reservations :=
  { node := fun _ => ⟨reserveWindowNotAllocated, reserveWindowNotAllocated, 0, 0⟩
    allocInfo := fun _ => false
    root := .node rsvWindowHead .nil .nil }

/-- First block of a window. -/
def lo (w : Reservations) (i : ℕ) : ℕ := (w.node i).rsvStart

/-- Last block of a window. -/
def hi (w : Reservations) (i : ℕ) : ℕ := (w.node i).rsvEnd

/-- `search_reserve_window`: where the descent ends to the right of the goal, `rb_prev` backs up. -/
def searchReserveWindow (w : Reservations) (goal : ℕ) : Option ℕ :=
  match lastVisited (locate w.lo w.hi goal) w.root with
  | none => none
  | some i => if w.lo i > goal then before i (inorder w.root) else some i

/-- `ext2_rsv_window_add`. -/
def rsvWindowAdd (rb : RbTree) (w : Reservations) (i : ℕ) : Option Reservations :=
  (link (locate w.lo w.hi (w.lo i)) i w.root).map fun t => { w with root := rb.insertColor i t }

/-- `rsv_window_remove`. -/
def rsvWindowRemove (rb : RbTree) (w : Reservations) (i : ℕ) : Reservations :=
  { w.setNode i { w.node i with
      rsvStart := reserveWindowNotAllocated
      rsvEnd := reserveWindowNotAllocated
      rsvAllocHit := 0 } with
    root := rb.erase i w.root }

/-- `ext2_init_block_alloc_info`, where the allocation of the memory succeeds. -/
def ext2InitBlockAllocInfo (w : Reservations) (i : ℕ) (reservation : Bool) : Reservations :=
  { w.setNode i ⟨reserveWindowNotAllocated, reserveWindowNotAllocated,
      if reservation then defaultReserveBlocks else 0, 0⟩ with
    allocInfo := Function.update w.allocInfo i true }

/-- `ext2_discard_reservation`. -/
def ext2DiscardReservation (rb : RbTree) (w : Reservations) (i : ℕ) : Reservations :=
  if w.allocInfo i = false then w
  else if (w.node i).rsvIsEmpty then w else w.rsvWindowRemove rb i

/-- `ext2_clear_inode`. -/
def ext2ClearInode (rb : RbTree) (w : Reservations) (i : ℕ) : Reservations :=
  let w := w.ext2DiscardReservation rb i
  { w with allocInfo := Function.update w.allocInfo i false }

/-- `EXT2_IOC_SETRSVSZ`, where the ioctl is let through. -/
def setRsvSize (w : Reservations) (i : ℕ) (reservation : Bool) (size : ℕ) : Reservations :=
  let w := if w.allocInfo i then w else w.ext2InitBlockAllocInfo i reservation
  w.setNode i { w.node i with rsvGoalSize := min size maxReserveBlocks }

/-- The start, where the loop of `find_next_reservable_window` has got past a window. -/
def passWindow (w : Reservations) (rsv cur : ℕ) : ℕ :=
  if cur ≤ w.hi rsv then w.hi rsv + 1 else cur

/-- The loop of `find_next_reservable_window`, from the window `rsv` on, with what follows it in the
tree. The result is the start of the new window and the window before it. -/
def findHole (w : Reservations) (size lastBlock : ℕ) : ℕ → ℕ → List ℕ → Option (ℕ × ℕ)
  | cur, rsv, [] =>
      let cur := w.passWindow rsv cur
      if cur > lastBlock then none else some (cur, rsv)
  | cur, rsv, next :: rest =>
      let cur := w.passWindow rsv cur
      if cur > lastBlock then none
      else if cur + size ≤ w.lo next then some (cur, rsv)
      else findHole w size lastBlock cur next rest

/-- `find_next_reservable_window`, for the window `i`. -/
def findNextReservableWindow (rb : RbTree) (w : Reservations) (searchHead : Option ℕ)
    (i startBlock lastBlock : ℕ) : Option (Bool × Reservations) :=
  let size := (w.node i).rsvGoalSize
  match searchHead with
  | none => some (false, w)
  | some rsv =>
    match w.findHole size lastBlock startBlock rsv (after rsv (inorder w.root)) with
    | none => some (false, w)
    | some (cur, prev) =>
      let w := if prev ≠ i ∧ (w.node i).rsvIsEmpty = false then w.rsvWindowRemove rb i else w
      let w := w.setNode i ((w.node i).book cur size)
      if prev ≠ i then (w.rsvWindowAdd rb i).map fun w => (true, w) else some (true, w)

/-- The window is taken out of the tree, unless it is empty. -/
def dropWindow (rb : RbTree) (w : Reservations) (i : ℕ) : Reservations :=
  if (w.node i).rsvIsEmpty then w else w.rsvWindowRemove rb i

/-- A round of the loop at `retry` of `alloc_new_reservation`. -/
def retryRound (rb : RbTree) (i firstBlock blocksPerGroup : ℕ) (b : Bits)
    (s : Reservations × Option ℕ × ℕ) :
    Option ((Reservations × Option ℕ × ℕ) ⊕ (Bool × Reservations)) :=
  let (w, searchHead, startBlock) := s
  let groupEndBlock := firstBlock + (blocksPerGroup - 1)
  match w.findNextReservableWindow rb searchHead i startBlock groupEndBlock with
  | none => none
  | some (false, w) => some (.inr (false, w.dropWindow rb i))
  | some (true, w) =>
    match bitmapSearchNextUsableBlock (w.lo i - firstBlock) b (groupEndBlock - firstBlock + 1) with
    | none => some (.inr (false, w.dropWindow rb i))
    | some firstFreeBlock =>
      let startBlock := firstFreeBlock + firstBlock
      if startBlock ≥ w.lo i ∧ startBlock ≤ w.hi i then some (.inr (true, w))
      else some (.inl (w, some i, startBlock))

/-- `alloc_new_reservation`, for the window `i` in the group of `blocksPerGroup` blocks from
`firstBlock` on, with the bitmap `b`. -/
def allocNewReservation (rb : RbTree) (w : Reservations) (i : ℕ) (grpGoal : Option ℕ)
    (firstBlock blocksPerGroup : ℕ) (b : Bits) : Option (Bool × Reservations) :=
  let groupEndBlock := firstBlock + (blocksPerGroup - 1)
  let startBlock := grpGoal.elim firstBlock fun g => g + firstBlock
  let n := w.node i
  if n.rsvIsEmpty = false ∧ n.rsvStart ≤ groupEndBlock ∧ n.rsvEnd > groupEndBlock ∧
      startBlock ≥ n.rsvStart then
    some (false, w)
  else
    let w :=
      if n.rsvIsEmpty = false ∧ n.rsvAllocHit > (n.rsvEnd - n.rsvStart + 1) / 2 then
        w.setNode i { n with rsvGoalSize := min (n.rsvGoalSize * 2) maxReserveBlocks }
      else w
    loopFor (retryRound rb i firstBlock blocksPerGroup b) (blocksPerGroup + 1)
      (w, w.searchReserveWindow startBlock, startBlock)

/-- `try_to_extend_reservation`; `trylock` says whether the lock was free. -/
def tryToExtendReservation (w : Reservations) (i size : ℕ) (trylock : Bool) : Reservations :=
  if trylock = false then w
  else
    match (after i (inorder w.root)).head? with
    | none => w.setNode i { w.node i with rsvEnd := w.hi i + size }
    | some next =>
      if w.lo next - w.hi i - 1 ≥ size then w.setNode i { w.node i with rsvEnd := w.hi i + size }
      else w.setNode i { w.node i with rsvEnd := w.lo next - 1 }

/-! ## What the windows keep -/

/-- The windows in the tree are disjoint and lie in order; the inodes whose windows are in it are
those whose windows are not empty. -/
structure WF (w : Reservations) : Prop where
  apart : Apart w.lo w.hi (inorder w.root)
  mem_iff : ∀ i, i ∈ inorder w.root ↔ i = rsvWindowHead ∨ w.hi i ≠ 0
  head : w.lo rsvWindowHead = 0 ∧ w.hi rsvWindowHead = 0
  info : ∀ i, w.allocInfo i = false → w.hi i = 0

/-- Nothing but the window `i` has changed. -/
structure OnlyNode (i : ℕ) (w w' : Reservations) : Prop where
  node : ∀ j, j ≠ i → w'.node j = w.node j
  info : w'.allocInfo = w.allocInfo
  goal : 0 < (w.node i).rsvGoalSize → 0 < (w'.node i).rsvGoalSize

/-- A window of `size` blocks from `c` on meets no window of the list. -/
def FreeAt (w : Reservations) (xs : List ℕ) (c size : ℕ) : Prop :=
  ∀ j ∈ xs, w.hi j < c ∨ c + size ≤ w.lo j

variable {rb : RbTree} {w w' w'' : Reservations} {i j c size last cur start : ℕ} {xs : List ℕ}
  {n : ReserveWindowNode}

lemma rsvIsEmpty_iff : n.rsvIsEmpty = true ↔ n.rsvEnd = 0 := by
  rw [ReserveWindowNode.rsvIsEmpty, decide_eq_true_iff, reserveWindowNotAllocated]

lemma rsvIsEmpty_eq_false_iff : n.rsvIsEmpty = false ↔ n.rsvEnd ≠ 0 := by
  rw [← Bool.not_eq_true, rsvIsEmpty_iff]

@[simp] lemma setNode_root (w : Reservations) (i : ℕ) (n : ReserveWindowNode) :
    (w.setNode i n).root = w.root := rfl

@[simp] lemma setNode_allocInfo (w : Reservations) (i : ℕ) (n : ReserveWindowNode) :
    (w.setNode i n).allocInfo = w.allocInfo := rfl

lemma setNode_node_self (w : Reservations) (i : ℕ) (n : ReserveWindowNode) :
    (w.setNode i n).node i = n := by
  simp only [setNode, Function.update_self]

lemma setNode_node_ne (w : Reservations) (n : ReserveWindowNode) (h : j ≠ i) :
    (w.setNode i n).node j = w.node j := by
  simp only [setNode, Function.update_of_ne h]

lemma lo_setNode_self (w : Reservations) (i : ℕ) (n : ReserveWindowNode) :
    (w.setNode i n).lo i = n.rsvStart := by
  rw [lo, setNode_node_self]

lemma hi_setNode_self (w : Reservations) (i : ℕ) (n : ReserveWindowNode) :
    (w.setNode i n).hi i = n.rsvEnd := by
  rw [hi, setNode_node_self]

lemma lo_setNode_ne (w : Reservations) (n : ReserveWindowNode) (h : j ≠ i) :
    (w.setNode i n).lo j = w.lo j := by
  rw [lo, setNode_node_ne w n h, lo]

lemma hi_setNode_ne (w : Reservations) (n : ReserveWindowNode) (h : j ≠ i) :
    (w.setNode i n).hi j = w.hi j := by
  rw [hi, setNode_node_ne w n h, hi]

namespace OnlyNode

lemma refl (i : ℕ) (w : Reservations) : OnlyNode i w w := ⟨fun _ _ => rfl, rfl, id⟩

lemma trans (h : OnlyNode i w w') (h' : OnlyNode i w' w'') : OnlyNode i w w'' :=
  ⟨fun j hj => (h'.node j hj).trans (h.node j hj), h'.info.trans h.info,
    fun hgoal => h'.goal (h.goal hgoal)⟩

/-- A new value of the node `i`. -/
lemma setNode (w : Reservations) (hgoal : 0 < (w.node i).rsvGoalSize → 0 < n.rsvGoalSize) :
    OnlyNode i w (w.setNode i n) := by
  refine ⟨fun j hj => setNode_node_ne w n hj, rfl, fun h => ?_⟩
  rw [setNode_node_self]
  exact hgoal h

end OnlyNode

namespace WF

/-- At mount time there is the dummy window alone. -/
lemma mounted : WF mounted := by
  refine ⟨⟨List.pairwise_singleton _ _, ?_⟩, fun i => ?_, ⟨rfl, rfl⟩, fun _ _ => rfl⟩
  · intro i _
    exact le_refl 0
  · constructor
    · intro h
      exact Or.inl (List.mem_singleton.mp h)
    · rintro (rfl | h)
      · exact List.mem_singleton.mpr rfl
      · exact absurd rfl h

/-- The window of an inode is in the tree unless it is empty. -/
lemma mem_iff_of_ne (h : w.WF) (hi : i ≠ rsvWindowHead) : i ∈ inorder w.root ↔ w.hi i ≠ 0 := by
  rw [h.mem_iff i]
  exact or_iff_right hi

lemma head_mem (h : w.WF) : rsvWindowHead ∈ inorder w.root := (h.mem_iff _).mpr (Or.inl rfl)

/-- All windows but the dummy one begin behind block `0`. -/
lemma lo_pos (h : w.WF) (hne : i ≠ rsvWindowHead) (hmem : i ∈ inorder w.root) : 0 < w.lo i := by
  rcases h.apart.disjoint hmem h.head_mem hne with hlt | hlt
  · rw [h.head.1] at hlt
    exact absurd hlt (Nat.not_lt_zero _)
  · rw [h.head.2] at hlt
    exact hlt

/-- **Two inodes never share a reserved block.** -/
lemma disjoint (h : w.WF) (hi : w.hi i ≠ 0) (hj : w.hi j ≠ 0) (hne : i ≠ j) :
    w.hi i < w.lo j ∨ w.hi j < w.lo i :=
  h.apart.disjoint ((h.mem_iff i).mpr (Or.inr hi)) ((h.mem_iff j).mpr (Or.inr hj)) hne

/-- A node that keeps its place may be changed where the tree does not look. -/
lemma setNode_of_eq (h : w.WF) (hstart : n.rsvStart = w.lo i) (hend : n.rsvEnd = w.hi i) :
    (w.setNode i n).WF := by
  have hlo : (w.setNode i n).lo = w.lo := by
    funext j
    rcases eq_or_ne j i with rfl | hj
    · rw [lo_setNode_self, hstart]
    · exact lo_setNode_ne w n hj
  have hhi : (w.setNode i n).hi = w.hi := by
    funext j
    rcases eq_or_ne j i with rfl | hj
    · rw [hi_setNode_self, hend]
    · exact hi_setNode_ne w n hj
  refine ⟨?_, ?_, ?_, ?_⟩
  · rw [hlo, hhi]
    exact h.apart
  · rw [hhi]
    exact h.mem_iff
  · rw [hlo, hhi]
    exact h.head
  · rw [hhi]
    exact h.info

/-- A window in the tree may be given another place between its neighbours. -/
lemma setNode_of_mem (h : w.WF) (hne : i ≠ rsvWindowHead) {pre post : List ℕ}
    (hroot : inorder w.root = pre ++ i :: post) (hle : n.rsvStart ≤ n.rsvEnd)
    (hpos : 0 < n.rsvEnd) (hpre : ∀ j ∈ pre, w.hi j < n.rsvStart)
    (hpost : ∀ j ∈ post, n.rsvEnd < w.lo j) : (w.setNode i n).WF := by
  have hnodup := hroot ▸ h.apart.nodup
  have hout : ∀ j ∈ pre ++ post, j ≠ i := by
    rintro j hj rfl
    exact (List.nodup_middle.mp hnodup).notMem hj
  have hapart : Apart (w.setNode i n).lo (w.setNode i n).hi (pre ++ post) := by
    refine (hroot ▸ h.apart).sublist ?_ |>.congr ?_
    · exact (List.Sublist.refl pre).append (List.sublist_cons_self i post)
    · intro j hj
      exact ⟨lo_setNode_ne w n (hout j hj), hi_setNode_ne w n (hout j hj)⟩
  refine ⟨?_, fun j => ?_, ?_, fun j hj => ?_⟩
  · rw [setNode_root, hroot]
    refine hapart.insert ?_ (fun j hj => ?_) fun j hj => ?_
    · rw [lo_setNode_self, hi_setNode_self]
      exact hle
    · rw [lo_setNode_self, hi_setNode_ne w n (hout j (List.mem_append_left _ hj))]
      exact hpre j hj
    · rw [hi_setNode_self, lo_setNode_ne w n (hout j (List.mem_append_right _ hj))]
      exact hpost j hj
  · rw [setNode_root]
    rcases eq_or_ne j i with rfl | hj
    · rw [hi_setNode_self, hroot]
      exact iff_of_true (List.mem_append_right _ List.mem_cons_self) (Or.inr hpos.ne')
    · rw [hi_setNode_ne w n hj]
      exact h.mem_iff j
  · rw [lo_setNode_ne w n (Ne.symm hne), hi_setNode_ne w n (Ne.symm hne)]
    exact h.head
  · rcases eq_or_ne j i with rfl | hji
    · have hmem : j ∈ inorder w.root := hroot ▸ List.mem_append_right _ List.mem_cons_self
      exact absurd (h.info j hj) ((h.mem_iff_of_ne hne).mp hmem)
    · rw [hi_setNode_ne w n hji]
      exact h.info j hj

end WF

/-! ## Removing and adding -/

lemma rsvWindowRemove_node_ne (h : j ≠ i) : (w.rsvWindowRemove rb i).node j = w.node j :=
  setNode_node_ne w _ h

lemma hi_rsvWindowRemove (rb : RbTree) (w : Reservations) (i : ℕ) :
    (w.rsvWindowRemove rb i).hi i = 0 := hi_setNode_self w i _

lemma rsvWindowRemove_only (rb : RbTree) (w : Reservations) (i : ℕ) :
    OnlyNode i w (w.rsvWindowRemove rb i) := by
  refine ⟨fun j hj => rsvWindowRemove_node_ne hj, rfl, fun h => ?_⟩
  rw [rsvWindowRemove, setNode]
  simp only [Function.update_self]
  exact h

/-- **Removing a window.** -/
lemma WF.rsvWindowRemove (h : w.WF) (rb : RbTree) (hne : i ≠ rsvWindowHead) (hi : w.hi i ≠ 0) :
    (w.rsvWindowRemove rb i).WF := by
  have hmem := (h.mem_iff_of_ne hne).mpr hi
  have hroot : inorder (w.rsvWindowRemove rb i).root = (inorder w.root).erase i :=
    rb.inorder_erase i w.root hmem
  have hnode : ∀ j, j ≠ i → (w.rsvWindowRemove rb i).node j = w.node j :=
    fun j hj => rsvWindowRemove_node_ne hj
  refine ⟨?_, fun j => ?_, ?_, fun j hj => ?_⟩
  · rw [hroot]
    refine (h.apart.sublist List.erase_sublist).congr ?_
    intro j hj
    have hji := (h.apart.nodup.mem_erase_iff.mp hj).1
    exact ⟨by rw [lo, hnode j hji, lo], by rw [Reservations.hi, hnode j hji, Reservations.hi]⟩
  · rw [hroot, h.apart.nodup.mem_erase_iff]
    rcases eq_or_ne j i with rfl | hji
    · rw [hi_rsvWindowRemove]
      exact iff_of_false (fun hj => hj.1 rfl) (fun hj => hj.elim hne fun hj => hj rfl)
    · rw [and_iff_right hji, h.mem_iff j, Reservations.hi, Reservations.hi, hnode j hji]
  · rw [lo, Reservations.hi, hnode _ (Ne.symm hne)]
    exact h.head
  · rcases eq_or_ne j i with rfl | hji
    · exact hi_rsvWindowRemove rb w j
    · rw [Reservations.hi, hnode j hji]
      exact h.info j hj

/-- A window of an inode that is out of the tree. -/
structure Dropped (i : ℕ) (w w' : Reservations) : Prop where
  wf : w'.WF
  only : OnlyNode i w w'
  goalSize : (w'.node i).rsvGoalSize = (w.node i).rsvGoalSize
  hi_eq : w'.hi i = 0
  mem : ∀ j ∈ inorder w'.root, j ∈ inorder w.root ∧ j ≠ i

lemma WF.dropWindow (h : w.WF) (rb : RbTree) (hne : i ≠ rsvWindowHead) :
    Dropped i w (w.dropWindow rb i) := by
  rw [Reservations.dropWindow]
  split_ifs with hempty
  · have hi : w.hi i = 0 := rsvIsEmpty_iff.mp hempty
    refine ⟨h, OnlyNode.refl i w, rfl, hi, fun j hj => ⟨hj, ?_⟩⟩
    rintro rfl
    exact (h.mem_iff_of_ne hne).mp hj hi
  · have hi : w.hi i ≠ 0 := fun hi => hempty (rsvIsEmpty_iff.mpr hi)
    have hmem := (h.mem_iff_of_ne hne).mpr hi
    refine ⟨h.rsvWindowRemove rb hne hi, rsvWindowRemove_only rb w i, ?_,
      hi_rsvWindowRemove rb w i, fun j hj => ?_⟩
    · rw [Reservations.rsvWindowRemove, setNode]
      simp only [Function.update_self]
    · have hj' : j ∈ (inorder w.root).erase i := rb.inorder_erase i w.root hmem ▸ hj
      rw [h.apart.nodup.mem_erase_iff] at hj'
      exact ⟨hj'.2, hj'.1⟩

/-- **Adding a window** that meets no other one does not hit the `BUG`. -/
lemma WF.rsvWindowAdd (h : w.WF) (rb : RbTree) (hinfo : w.allocInfo i = true)
    (hi : w.hi i = 0) (hne : i ≠ rsvWindowHead) (hle : n.rsvStart ≤ n.rsvEnd)
    (hpos : 0 < n.rsvEnd)
    (hfree : ∀ j ∈ inorder w.root, w.hi j < n.rsvStart ∨ n.rsvEnd < w.lo j) :
    ∃ w', (w.setNode i n).rsvWindowAdd rb i = some w' ∧ w'.WF ∧
      w'.node = (w.setNode i n).node ∧ w'.allocInfo = w.allocInfo := by
  have hout : ∀ j ∈ inorder w.root, j ≠ i := by
    rintro j hj rfl
    exact (h.mem_iff_of_ne hne).mp hj hi
  have hapart : Apart (w.setNode i n).lo (w.setNode i n).hi (inorder w.root) :=
    h.apart.congr fun j hj => ⟨lo_setNode_ne w n (hout j hj), hi_setNode_ne w n (hout j hj)⟩
  have hdirects := hapart.directs n.rsvStart
  have hmiss : ∀ j ∈ inorder w.root,
      locate (w.setNode i n).lo (w.setNode i n).hi n.rsvStart j ≠ .eq := by
    intro j hj
    rcases hfree j hj with hlt | hlt
    · rw [← hi_setNode_ne w n (hout j hj)] at hlt
      rw [(locate_eq_gt (hapart.le j hj)).mpr hlt]
      decide
    · rw [← lo_setNode_ne w n (hout j hj)] at hlt
      rw [locate_eq_lt.mpr (hle.trans_lt hlt)]
      decide
  obtain ⟨t, pre, post, hlink, hroot, hroot', hcut⟩ := link_spec hdirects hmiss i
  obtain ⟨hpre, hpost⟩ := (hroot ▸ hapart).cut hcut
  refine ⟨{ w.setNode i n with root := rb.insertColor i t }, ?_, ⟨?_, fun j => ?_, ?_, ?_⟩,
    rfl, rfl⟩
  · rw [Reservations.rsvWindowAdd, lo_setNode_self, setNode_root, hlink, Option.map_some]
  · have hinorder := rb.inorder_insertColor i t
    simp only [hinorder, hroot']
    refine (hroot ▸ hapart).insert (i := i) ?_ (fun j hj => ?_) fun j hj => ?_
    · rw [lo_setNode_self, hi_setNode_self]
      exact hle
    · rw [lo_setNode_self]
      exact hpre j hj
    · rw [hi_setNode_self]
      have hmem : j ∈ inorder w.root := hroot ▸ List.mem_append_right _ hj
      have hlt := hpost j hj
      rw [lo_setNode_ne w n (hout j hmem)] at hlt ⊢
      rcases hfree j hmem with hbefore | hbehind
      · exact absurd (hbefore.trans hlt) (not_lt.mpr (h.apart.le j hmem))
      · exact hbehind
  · have hinorder := rb.inorder_insertColor i t
    have hmem : j ∈ pre ++ i :: post ↔ j = i ∨ j ∈ inorder w.root := by
      rw [hroot, List.mem_append, List.mem_append, List.mem_cons]
      tauto
    simp only [hinorder, hroot', hmem]
    rcases eq_or_ne j i with rfl | hji
    · exact iff_of_true (Or.inl rfl) (Or.inr (by
        show (w.setNode j n).hi j ≠ 0
        rw [hi_setNode_self]
        exact hpos.ne'))
    · show j = i ∨ j ∈ inorder w.root ↔ j = rsvWindowHead ∨ (w.setNode i n).hi j ≠ 0
      rw [hi_setNode_ne w n hji, or_iff_right hji]
      exact h.mem_iff j
  · show (w.setNode i n).lo rsvWindowHead = 0 ∧ (w.setNode i n).hi rsvWindowHead = 0
    rw [lo_setNode_ne w n (Ne.symm hne), hi_setNode_ne w n (Ne.symm hne)]
    exact h.head
  · intro j hj
    show (w.setNode i n).hi j = 0
    rcases eq_or_ne j i with rfl | hji
    · exact absurd (hinfo.symm.trans hj) (by decide)
    · rw [hi_setNode_ne w n hji]
      exact h.info j hj

/-! ## Searching -/

/-- **The search ends at the window with the goal, or at the last one before it.** -/
theorem searchReserveWindow_spec (h : w.WF) (goal : ℕ) :
    ∃ i pre post, w.searchReserveWindow goal = some i ∧ inorder w.root = pre ++ i :: post ∧
      w.lo i ≤ goal ∧ (∀ j ∈ pre, w.hi j < goal) ∧ ∀ j ∈ post, goal < w.lo j := by
  rcases hlast : lastVisited (locate w.lo w.hi goal) w.root with _ | i
  · have hmem := h.head_mem
    rw [lastVisited_eq_none hlast] at hmem
    exact absurd hmem List.not_mem_nil
  · obtain ⟨pre, post, hroot, hpre, hpost⟩ := lastVisited_spec (h.apart.directs goal) hlast
    have hsides : (∀ j ∈ pre, w.hi j < goal) ∧ ∀ j ∈ post, goal < w.lo j := by
      have hsub : (pre ++ post).Sublist (inorder w.root) := by
        rw [hroot]
        exact (List.Sublist.refl pre).append (List.sublist_cons_self i post)
      exact (h.apart.sublist hsub).cut ⟨hpre, hpost⟩
    by_cases hlo : w.lo i > goal
    · -- the descent has ended to the right of the goal, and the window before it is the one
      rcases List.eq_nil_or_concat' pre with rfl | ⟨pre', k, rfl⟩
      · have hfirst := h.head_mem
        rw [hroot, List.nil_append] at hfirst
        rcases List.mem_cons.mp hfirst with heq | hmem
        · rw [← heq, h.head.1] at hlo
          exact absurd hlo (Nat.not_lt_zero _)
        · have := hsides.2 _ hmem
          rw [h.head.1] at this
          exact absurd this (Nat.not_lt_zero _)
      · rw [List.append_assoc, List.singleton_append] at hroot
        have hnodup := hroot ▸ h.apart.nodup
        have hki : k ≠ i := by
          rintro rfl
          exact (List.nodup_cons.mp (List.nodup_append.mp hnodup).2.1).1 List.mem_cons_self
        have hpre' : i ∉ pre' := by
          intro hmem
          exact (List.nodup_append.mp hnodup).2.2 i hmem i
            (List.mem_cons_of_mem k List.mem_cons_self) rfl
        refine ⟨k, pre', i :: post, ?_, hroot, ?_, ?_, ?_⟩
        · rw [searchReserveWindow, hlast]
          simp only
          rw [if_pos hlo, hroot, before_append hpre' hki]
        · exact (h.apart.le k (hroot ▸ List.mem_append_right _ List.mem_cons_self)).trans
            (hsides.1 k (List.mem_append_right _ (List.mem_singleton.mpr rfl))).le
        · exact fun j hj => hsides.1 j (List.mem_append_left _ hj)
        · intro j hj
          rcases List.mem_cons.mp hj with rfl | hj
          · exact hlo
          · exact hsides.2 j hj
    · refine ⟨i, pre, post, ?_, hroot, not_lt.mp hlo, hsides.1, hsides.2⟩
      rw [searchReserveWindow, hlast]
      simp only
      rw [if_neg hlo]

lemma le_passWindow (w : Reservations) (rsv cur : ℕ) : cur ≤ w.passWindow rsv cur := by
  rw [passWindow]
  split_ifs with h
  · exact h.trans (Nat.le_succ _)
  · exact le_refl _

lemma lt_passWindow (w : Reservations) (rsv cur : ℕ) : w.hi rsv < w.passWindow rsv cur := by
  rw [passWindow]
  split_ifs with h
  · exact Nat.lt_succ_self _
  · exact not_le.mp h

/-- No place is free between the old start and the new one. -/
lemma not_freeAt_of_lt_passWindow {rsv : ℕ} (hmem : rsv ∈ xs) (hrsv : w.lo rsv < cur + size)
    (hc : cur ≤ c) (hlt : c < w.passWindow rsv cur) : ¬ w.FreeAt xs c size := by
  intro hfree
  rw [passWindow] at hlt
  split_ifs at hlt with h
  · rcases hfree rsv hmem with hbefore | hbehind <;> omega
  · exact absurd hc (not_le.mpr hlt)

/-- **First fit.** -/
lemma findHole_spec (size last : ℕ) (hapart : Apart w.lo w.hi xs) {pre rest : List ℕ} {rsv : ℕ}
    (hroot : xs = pre ++ rsv :: rest) (hpre : ∀ j ∈ pre, w.hi j < cur)
    (hrsv : w.lo rsv < cur + size) :
    match w.findHole size last cur rsv rest with
    | none => ∀ c, cur ≤ c → c ≤ last → ¬ w.FreeAt xs c size
    | some (c, prev) =>
      (cur ≤ c ∧ c ≤ last) ∧
        (∃ pre' post', xs = pre' ++ prev :: post' ∧ (∀ j ∈ pre', w.hi j < c) ∧ w.hi prev < c ∧
          ∀ j ∈ post', c + size ≤ w.lo j) ∧
        ∀ c', cur ≤ c' → c' < c → ¬ w.FreeAt xs c' size := by
  induction rest generalizing pre rsv cur with
  | nil =>
      have hmem : rsv ∈ xs := hroot ▸ List.mem_append_right _ List.mem_cons_self
      have hle := le_passWindow w rsv cur
      have hlt := lt_passWindow w rsv cur
      have hnone : ∀ c, cur ≤ c → c < w.passWindow rsv cur → ¬ w.FreeAt xs c size :=
        fun c hc hlt => not_freeAt_of_lt_passWindow hmem hrsv hc hlt
      rw [findHole]
      split_ifs with hlast
      · exact fun c hc hcl => hnone c hc (hcl.trans_lt hlast)
      · exact ⟨⟨hle, not_lt.mp hlast⟩, ⟨pre, [], hroot, fun j hj => (hpre j hj).trans_le hle, hlt,
          by simp⟩, hnone⟩
  | cons next rest ih =>
      have hmem : rsv ∈ xs := hroot ▸ List.mem_append_right _ List.mem_cons_self
      have hle := le_passWindow w rsv cur
      have hlt := lt_passWindow w rsv cur
      have hnone : ∀ c, cur ≤ c → c < w.passWindow rsv cur → ¬ w.FreeAt xs c size :=
        fun c hc hlt => not_freeAt_of_lt_passWindow hmem hrsv hc hlt
      rw [findHole]
      split_ifs with hlast hfits
      · exact fun c hc hcl => hnone c hc (hcl.trans_lt hlast)
      · refine ⟨⟨hle, not_lt.mp hlast⟩, ⟨pre, next :: rest, hroot,
          fun j hj => (hpre j hj).trans_le hle, hlt, ?_⟩, hnone⟩
        intro j hj
        rcases List.mem_cons.mp hj with rfl | hj
        · exact hfits
        · have hnext : next ∈ xs := hroot ▸
            List.mem_append_right _ (List.mem_cons_of_mem _ List.mem_cons_self)
          have hafter : Apart w.lo w.hi ((pre ++ [rsv]) ++ next :: rest) := by
            rw [List.append_assoc]
            exact hroot ▸ hapart
          exact hfits.trans ((hapart.le next hnext).trans (hafter.lt_of_mem_post hj).le)
      · have hpre' : ∀ j ∈ pre ++ [rsv], w.hi j < w.passWindow rsv cur := by
          intro j hj
          rcases List.mem_append.mp hj with hj | hj
          · exact (hpre j hj).trans_le hle
          · exact List.mem_singleton.mp hj ▸ hlt
        have hroot' : xs = (pre ++ [rsv]) ++ next :: rest := by
          rw [hroot, List.append_assoc, List.singleton_append]
        specialize ih hroot' hpre' (not_le.mp hfits)
        rcases hres : w.findHole size last (w.passWindow rsv cur) next rest with _ | ⟨c, prev⟩
        · rw [hres] at ih
          intro c hc hcl
          by_cases hbefore : c < w.passWindow rsv cur
          · exact hnone c hc hbefore
          · exact ih c (not_lt.mp hbefore) hcl
        · rw [hres] at ih
          obtain ⟨⟨hc, hcl⟩, hplace, hfirst⟩ := ih
          refine ⟨⟨hle.trans hc, hcl⟩, hplace, fun c' hc' hlt' => ?_⟩
          by_cases hbefore : c' < w.passWindow rsv cur
          · exact hnone c' hc' hbefore
          · exact hfirst c' (not_lt.mp hbefore) hlt'

/-- The place that a search finds for the window of an inode. -/
structure Booked (i start last : ℕ) (w w' : Reservations) : Prop where
  wf : w'.WF
  only : OnlyNode i w w'
  goalSize : (w'.node i).rsvGoalSize = (w.node i).rsvGoalSize
  range : start ≤ w'.lo i ∧ w'.lo i ≤ last
  pos : 0 < w'.lo i
  end_eq : w'.hi i + 1 = w'.lo i + (w.node i).rsvGoalSize
  free : w.FreeAt (inorder w.root) (w'.lo i) (w.node i).rsvGoalSize
  first : ∀ c, start ≤ c → c < w'.lo i → ¬ w.FreeAt (inorder w.root) c (w.node i).rsvGoalSize

/-- An inode's window may be booked at a free place when it is not in the tree. -/
lemma WF.book_of_empty (h : w.WF) (rb : RbTree) (hne : i ≠ rsvWindowHead)
    (hinfo : w.allocInfo i = true) (hi : w.hi i = 0) (hsize : 0 < size) (hc : 0 < c)
    (hfree : w.FreeAt (inorder w.root) c size) :
    ∃ w', (w.setNode i ((w.node i).book c size)).rsvWindowAdd rb i = some w' ∧ w'.WF ∧
      w'.node = (w.setNode i ((w.node i).book c size)).node ∧ w'.allocInfo = w.allocInfo := by
  have hend : ((w.node i).book c size).rsvEnd = c + size - 1 := rfl
  apply h.rsvWindowAdd rb hinfo hi hne
  · rw [hend]
    exact Nat.le_sub_one_of_lt (Nat.lt_add_of_pos_right hsize)
  · rw [hend]
    omega
  · intro j hj
    rw [hend]
    rcases hfree j hj with hbefore | hbehind
    · exact Or.inl hbefore
    · exact Or.inr (by omega)

/-- **First fit**: the window is booked at the first free place, or there is none. -/
theorem findNextReservableWindow_spec (h : w.WF) (rb : RbTree) (hne : i ≠ rsvWindowHead)
    (hinfo : w.allocInfo i = true) (hsize : 0 < (w.node i).rsvGoalSize) {s : ℕ}
    {pre post : List ℕ} (hroot : inorder w.root = pre ++ s :: post)
    (hpre : ∀ j ∈ pre, w.hi j < start) (hs : w.lo s ≤ start) (last : ℕ) :
    (w.findNextReservableWindow rb (some s) i start last = some (false, w) ∧
        ∀ c, start ≤ c → c ≤ last → ¬ w.FreeAt (inorder w.root) c (w.node i).rsvGoalSize) ∨
      ∃ w', w.findNextReservableWindow rb (some s) i start last = some (true, w') ∧
        Booked i start last w w' := by
  have hafter : after s (inorder w.root) = post := by
    have hnodup := hroot ▸ h.apart.nodup
    have hs : s ∉ pre := fun hmem =>
      (List.nodup_append.mp hnodup).2.2 s hmem s List.mem_cons_self rfl
    rw [hroot, after_append hs]
  have hspec := findHole_spec (w.node i).rsvGoalSize last h.apart hroot hpre
    (hs.trans_lt (Nat.lt_add_of_pos_right hsize))
  rcases hhole : w.findHole (w.node i).rsvGoalSize last start s post with _ | ⟨c, prev⟩
  · rw [hhole] at hspec
    refine Or.inl ⟨?_, hspec⟩
    rw [findNextReservableWindow]
    simp only [hafter, hhole]
  · rw [hhole] at hspec
    obtain ⟨hrange, ⟨pre', post', hplace, hpre', hprev, hpost'⟩, hfirst⟩ := hspec
    have hc : 0 < c := (Nat.zero_le _).trans_lt hprev
    have hfree : w.FreeAt (inorder w.root) c (w.node i).rsvGoalSize := by
      intro j hj
      rw [hplace] at hj
      rcases List.mem_append.mp hj with hj | hj
      · exact Or.inl (hpre' j hj)
      · rcases List.mem_cons.mp hj with rfl | hj
        · exact Or.inl hprev
        · exact Or.inr (hpost' j hj)
    have hend : c + (w.node i).rsvGoalSize - 1 + 1 = c + (w.node i).rsvGoalSize := by omega
    refine Or.inr ?_
    rw [findNextReservableWindow]
    simp only [hafter, hhole]
    by_cases hprevi : prev = i
    · -- the hole lies behind the own window, which is moved in its place
      obtain rfl := hprevi
      refine ⟨w.setNode prev ((w.node prev).book c (w.node prev).rsvGoalSize), ?_, ?_⟩
      · rw [if_neg (not_not.mpr rfl), if_neg (fun h => h.1 rfl)]
      · refine ⟨?_, OnlyNode.setNode w id, ?_, ?_, ?_, ?_, ?_, ?_⟩
        · apply h.setNode_of_mem hne hplace
          · exact Nat.le_sub_one_of_lt (Nat.lt_add_of_pos_right hsize)
          · show 0 < c + (w.node prev).rsvGoalSize - 1
            omega
          · exact hpre'
          · intro j hj
            have := hpost' j hj
            show c + (w.node prev).rsvGoalSize - 1 < w.lo j
            omega
        · rw [setNode_node_self]
          rfl
        · rw [lo_setNode_self]
          exact hrange
        · rw [lo_setNode_self]
          exact hc
        · rw [lo_setNode_self, hi_setNode_self]
          exact hend
        · rw [lo_setNode_self]
          exact hfree
        · rw [lo_setNode_self]
          exact hfirst
    · rw [if_pos hprevi]
      have hdrop :
          (if prev ≠ i ∧ (w.node i).rsvIsEmpty = false then w.rsvWindowRemove rb i else w) =
          w.dropWindow rb i := by
        rw [Reservations.dropWindow]
        by_cases hempty : (w.node i).rsvIsEmpty = true
        · rw [if_pos hempty, if_neg fun h => Bool.false_ne_true (h.2.symm.trans hempty)]
        · rw [if_neg hempty, if_pos ⟨hprevi, Bool.not_eq_true _ ▸ hempty⟩]
      have hdropped := h.dropWindow rb hne
      have hfree' : (w.dropWindow rb i).FreeAt (inorder (w.dropWindow rb i).root) c
          (w.node i).rsvGoalSize := by
        intro j hj
        obtain ⟨hmem, hji⟩ := hdropped.mem j hj
        rw [hi, lo, hdropped.only.node j hji]
        exact hfree j hmem
      obtain ⟨w', hadd, hwf, hnode, hinfo'⟩ := hdropped.wf.book_of_empty rb hne
        (hdropped.only.info ▸ hinfo) hdropped.hi_eq hsize hc hfree'
      have hself : w'.node i = ((w.dropWindow rb i).node i).book c (w.node i).rsvGoalSize := by
        rw [hnode, setNode_node_self]
      refine ⟨w', ?_, ?_⟩
      · rw [hdrop, hadd, Option.map_some]
      · refine ⟨hwf, ⟨fun j hj => ?_, ?_, fun _ => ?_⟩, ?_, ?_, ?_, ?_, ?_, ?_⟩
        · rw [hnode, setNode_node_ne _ _ hj, hdropped.only.node j hj]
        · rw [hinfo', hdropped.only.info]
        · rw [hself]
          exact hdropped.goalSize.symm ▸ hsize
        · rw [hself]
          exact hdropped.goalSize
        · rw [lo, hself]
          exact hrange
        · rw [lo, hself]
          exact hc
        · rw [lo, hi, hself]
          exact hend
        · rw [lo, hself]
          exact hfree
        · rw [lo, hself]
          exact hfirst

/-! ## New windows -/

section alloc

variable {firstBlock blocksPerGroup : ℕ} {b : Bits} {grpGoal : Option ℕ}

/-- What holds at `retry` in `alloc_new_reservation`. -/
structure Retrying (i startBlock groupEndBlock : ℕ) (w : Reservations)
    (s : Reservations × Option ℕ × ℕ) : Prop where
  wf : s.1.WF
  only : OnlyNode i w s.1
  goalSize : 0 < (s.1.node i).rsvGoalSize
  range : startBlock ≤ s.2.2 ∧ s.2.2 ≤ groupEndBlock
  place : ∃ k pre post, s.2.1 = some k ∧ inorder s.1.root = pre ++ k :: post ∧
    (∀ j ∈ pre, s.1.hi j < s.2.2) ∧ s.1.lo k ≤ s.2.2

/-- What `alloc_new_reservation` leaves behind: a window with a free block of the group, or no
window. -/
structure Reserved (i startBlock firstBlock blocksPerGroup : ℕ) (b : Bits) (w : Reservations)
    (r : Bool × Reservations) : Prop where
  wf : r.2.WF
  only : OnlyNode i w r.2
  window : r.1 = true → startBlock ≤ r.2.lo i ∧
    ∃ f < blocksPerGroup, b f = false ∧ r.2.lo i ≤ f + firstBlock ∧ f + firstBlock ≤ r.2.hi i
  empty : r.1 = false → r.2 = w ∨ r.2.hi i = 0

/-- A round that fails takes the window out of the tree. -/
lemma Retrying.dropped {startBlock groupEndBlock : ℕ} {s : Reservations × Option ℕ × ℕ}
    (hs : Retrying i startBlock groupEndBlock w s) (hne : i ≠ rsvWindowHead) (hwf : w'.WF)
    (honly : OnlyNode i s.1 w') :
    Reserved i startBlock firstBlock blocksPerGroup b w (false, w'.dropWindow rb i) := by
  have hdropped := hwf.dropWindow rb hne
  exact ⟨hdropped.wf, (hs.only.trans honly).trans hdropped.only, (fun h => nomatch h),
    fun _ => Or.inr hdropped.hi_eq⟩

/-- **One round** ends, or goes on further behind in the group. -/
lemma retryRound_advances (hne : i ≠ rsvWindowHead) (hinfo : w.allocInfo i = true)
    (hblocks : 0 < blocksPerGroup) {startBlock : ℕ} (hstart : firstBlock ≤ startBlock)
    {s : Reservations × Option ℕ × ℕ}
    (hs : Retrying i startBlock (firstBlock + (blocksPerGroup - 1)) w s) :
    Advances (retryRound rb i firstBlock blocksPerGroup b)
      (Retrying i startBlock (firstBlock + (blocksPerGroup - 1)) w)
      (fun s => firstBlock + blocksPerGroup - s.2.2)
      (Reserved i startBlock firstBlock blocksPerGroup b w) s := by
  obtain ⟨w₁, head, st⟩ := s
  obtain ⟨k, pre, post, rfl, hroot, hpre, hk⟩ := hs.place
  have hwf : w₁.WF := hs.wf
  have hgoal : 0 < (w₁.node i).rsvGoalSize := hs.goalSize
  have hinfo₁ : w₁.allocInfo i = true := hs.only.info ▸ hinfo
  have hrange := hs.range
  simp only at hroot hpre hk hrange
  have hspec := findNextReservableWindow_spec hwf rb hne hinfo₁ hgoal hroot hpre hk
    (firstBlock + (blocksPerGroup - 1))
  rcases hspec with ⟨hfail, -⟩ | ⟨w₂, hfound, hbooked⟩
  · refine Or.inr ⟨(false, w₁.dropWindow rb i), ?_,
      hs.dropped hne hs.wf (OnlyNode.refl i w₁)⟩
    rw [retryRound]
    simp only [hfail]
  · have hlo := hbooked.range
    have hpos := hbooked.pos
    have hhi := hbooked.end_eq
    rcases bitmapSearchNextUsableBlock_cases (w₂.lo i - firstBlock) b
        (firstBlock + (blocksPerGroup - 1) - firstBlock + 1) with
      ⟨f, hsearch, hf, hflt, hclear⟩ | ⟨hsearch, -⟩
    · by_cases hin : f + firstBlock ≥ w₂.lo i ∧ f + firstBlock ≤ w₂.hi i
      · refine Or.inr ⟨(true, w₂), ?_, ⟨hbooked.wf, hs.only.trans hbooked.only, fun _ => ⟨?_, f, ?_,
          hclear, hin.1, hin.2⟩, fun h => nomatch h⟩⟩
        · rw [retryRound]
          simp only [hfound, hsearch]
          rw [if_pos hin]
        · exact hrange.1.trans hlo.1
        · omega
      · -- the free block lies behind the window, and the search goes on from there
        have hbehind : w₂.hi i < f + firstBlock := by omega
        have hmem : i ∈ inorder w₂.root :=
          (hbooked.wf.mem_iff_of_ne hne).mpr (by omega)
        obtain ⟨pre₂, post₂, hroot₂⟩ := List.append_of_mem hmem
        refine Or.inl ⟨(w₂, some i, f + firstBlock), ?_, ⟨hbooked.wf,
          hs.only.trans hbooked.only, hbooked.goalSize.symm ▸ hgoal, ⟨?_, ?_⟩, ?_⟩, ?_⟩
        · rw [retryRound]
          simp only [hfound, hsearch]
          rw [if_neg hin]
        · simp only
          omega
        · simp only
          omega
        · refine ⟨i, pre₂, post₂, rfl, hroot₂, fun j hj => ?_, ?_⟩
          · have := (hroot₂ ▸ hbooked.wf.apart).lt_of_mem_pre hj
            simp only
            omega
          · simp only
            omega
        · simp only
          omega
    · refine Or.inr ⟨(false, w₂.dropWindow rb i), ?_, hs.dropped hne hbooked.wf hbooked.only⟩
      rw [retryRound]
      simp only [hfound, hsearch]

/-- **A new window holds a free block of the group**, behind the goal. -/
theorem allocNewReservation_spec (h : w.WF) (rb : RbTree) (hne : i ≠ rsvWindowHead)
    (hinfo : w.allocInfo i = true) (hsize : 0 < (w.node i).rsvGoalSize)
    (hblocks : 0 < blocksPerGroup) (hgoal : ∀ g ∈ grpGoal, g < blocksPerGroup) (firstBlock : ℕ)
    (b : Bits) :
    ∃ r, w.allocNewReservation rb i grpGoal firstBlock blocksPerGroup b = some r ∧
      Reserved i (grpGoal.elim firstBlock fun g => g + firstBlock) firstBlock blocksPerGroup b w
        r := by
  have hstart : firstBlock ≤ (grpGoal.elim firstBlock fun g => g + firstBlock) ∧
      (grpGoal.elim firstBlock fun g => g + firstBlock) ≤ firstBlock + (blocksPerGroup - 1) := by
    rcases grpGoal with _ | g
    · exact ⟨le_refl _, Nat.le_add_right _ _⟩
    · have := hgoal g rfl
      simp only [Option.elim_some]
      omega
  rw [allocNewReservation]
  generalize (grpGoal.elim firstBlock fun g => g + firstBlock) = startBlock at hstart
  -- the search from `startBlock` on, once the wanted size is known
  have hloop : ∀ w₁ : Reservations, w₁.WF → OnlyNode i w w₁ →
      ∃ r, loopFor (retryRound rb i firstBlock blocksPerGroup b) (blocksPerGroup + 1)
        (w₁, w₁.searchReserveWindow startBlock, startBlock) = some r ∧
          Reserved i startBlock firstBlock blocksPerGroup b w r := by
    intro w₁ hwf honly
    obtain ⟨k, pre, post, hsearch, hroot, hk, hpre, -⟩ := searchReserveWindow_spec hwf startBlock
    apply loopFor_total (fun s hs => retryRound_advances hne hinfo hblocks hstart.1 hs)
    · exact ⟨hwf, honly, honly.goal hsize, ⟨le_refl _, hstart.2⟩, k, pre, post, hsearch, hroot,
        hpre, hk⟩
    · simp only
      omega
  simp only
  split_ifs with hcross hhit
  · exact ⟨(false, w), rfl, h, OnlyNode.refl i w, (fun h => nomatch h), fun _ => Or.inl rfl⟩
  · have honly : OnlyNode i w (w.setNode i { w.node i with
        rsvGoalSize := min ((w.node i).rsvGoalSize * 2) maxReserveBlocks }) := by
      refine OnlyNode.setNode w fun _ => ?_
      exact lt_min (Nat.mul_pos hsize (by decide)) (by decide)
    exact hloop _ (h.setNode_of_eq rfl rfl) honly
  · exact hloop w h (OnlyNode.refl i w)

/-! ## The other operations -/

/-- **Extending a window** stops at the next one. -/
theorem tryToExtendReservation_spec (h : w.WF) (hne : i ≠ rsvWindowHead) (hi : w.hi i ≠ 0)
    (size : ℕ) (trylock : Bool) :
    (w.tryToExtendReservation i size trylock).WF ∧
      OnlyNode i w (w.tryToExtendReservation i size trylock) ∧
      (w.tryToExtendReservation i size trylock).lo i = w.lo i ∧
      w.hi i ≤ (w.tryToExtendReservation i size trylock).hi i := by
  obtain ⟨pre, post, hroot⟩ := List.append_of_mem ((h.mem_iff_of_ne hne).mpr hi)
  have hle := h.apart.le i (hroot ▸ List.mem_append_right _ List.mem_cons_self)
  have hafter : after i (inorder w.root) = post := by
    have hnodup := hroot ▸ h.apart.nodup
    have hout : i ∉ pre := fun hmem =>
      (List.nodup_append.mp hnodup).2.2 i hmem i List.mem_cons_self rfl
    rw [hroot, after_append hout]
  -- every branch sets the end, to one before the next window
  have hset : ∀ e, w.hi i ≤ e → (∀ j ∈ post, e < w.lo j) →
      (w.setNode i { w.node i with rsvEnd := e }).WF ∧
        OnlyNode i w (w.setNode i { w.node i with rsvEnd := e }) ∧
        (w.setNode i { w.node i with rsvEnd := e }).lo i = w.lo i ∧
        w.hi i ≤ (w.setNode i { w.node i with rsvEnd := e }).hi i := by
    intro e he hpost
    refine ⟨?_, OnlyNode.setNode w id, lo_setNode_self w i _, ?_⟩
    · apply h.setNode_of_mem hne hroot
      · exact hle.trans he
      · exact (Nat.pos_of_ne_zero hi).trans_le he
      · exact fun j hj => (hroot ▸ h.apart).lt_of_mem_pre hj
      · exact hpost
    · rw [hi_setNode_self]
      exact he
  rw [tryToExtendReservation, hafter]
  split_ifs with htry
  · exact ⟨h, OnlyNode.refl i w, rfl, le_refl _⟩
  · rcases post with _ | ⟨next, post⟩
    · exact hset _ (Nat.le_add_right _ _) (by simp)
    · have hnext := (hroot ▸ h.apart).lt_of_mem_post List.mem_cons_self
      have hbehind : ∀ j ∈ next :: post, w.lo next ≤ w.lo j := by
        intro j hj
        rcases List.mem_cons.mp hj with rfl | hj
        · exact le_refl _
        · have hapart : Apart w.lo w.hi ((pre ++ [i]) ++ next :: post) := by
            rw [List.append_assoc]
            exact hroot ▸ h.apart
          exact (hapart.le next (List.mem_append_right _ List.mem_cons_self)).trans
            (hapart.lt_of_mem_post hj).le
      simp only [List.head?_cons]
      split_ifs with hroom
      · apply hset _ (Nat.le_add_right _ _)
        intro j hj
        have := hbehind j hj
        omega
      · apply hset _ (Nat.le_sub_one_of_lt hnext)
        intro j hj
        have := hbehind j hj
        omega

/-- **Discarding a window.** -/
lemma WF.ext2DiscardReservation (h : w.WF) (rb : RbTree) (hne : i ≠ rsvWindowHead) :
    (w.ext2DiscardReservation rb i).WF ∧ OnlyNode i w (w.ext2DiscardReservation rb i) ∧
      (w.ext2DiscardReservation rb i).hi i = 0 := by
  rw [Reservations.ext2DiscardReservation]
  split_ifs with hinfo hempty
  · exact ⟨h, OnlyNode.refl i w, h.info i hinfo⟩
  · exact ⟨h, OnlyNode.refl i w, rsvIsEmpty_iff.mp hempty⟩
  · have hi : w.hi i ≠ 0 := fun hi => hempty (rsvIsEmpty_iff.mpr hi)
    exact ⟨h.rsvWindowRemove rb hne hi, rsvWindowRemove_only rb w i, hi_rsvWindowRemove rb w i⟩

/-- Whatever happens to an inode whose window is empty and stays so. -/
lemma WF.of_empty (h : w.WF) (hne : i ≠ rsvWindowHead) (hi : w.hi i = 0) (hi' : w'.hi i = 0)
    (hroot : w'.root = w.root) (hnode : ∀ j, j ≠ i → w'.node j = w.node j)
    (hinfo : ∀ j, j ≠ i → w'.allocInfo j = w.allocInfo j) : w'.WF := by
  have hlo : ∀ j, j ≠ i → w'.lo j = w.lo j := fun j hj => by rw [lo, hnode j hj, lo]
  have hhi : ∀ j, w'.hi j = w.hi j := by
    intro j
    rcases eq_or_ne j i with rfl | hj
    · rw [hi, hi']
    · rw [Reservations.hi, hnode j hj, Reservations.hi]
  refine ⟨?_, fun j => ?_, ?_, fun j hj => ?_⟩
  · rw [hroot]
    refine h.apart.congr fun j hj => ⟨hlo j ?_, hhi j⟩
    rintro rfl
    exact (h.mem_iff_of_ne hne).mp hj hi
  · rw [hroot, hhi]
    exact h.mem_iff j
  · rw [hlo _ (Ne.symm hne), hhi]
    exact h.head
  · rcases eq_or_ne j i with rfl | hji
    · exact hi'
    · rw [hhi]
      exact h.info j (hinfo j hji ▸ hj)

/-- An inode goes away, with its window. -/
lemma WF.ext2ClearInode (h : w.WF) (rb : RbTree) (hne : i ≠ rsvWindowHead) :
    (w.ext2ClearInode rb i).WF := by
  obtain ⟨hwf, -, hi⟩ := h.ext2DiscardReservation rb hne
  exact hwf.of_empty hne hi hi rfl (fun _ _ => rfl) fun j hj => Function.update_of_ne hj _ _

/-- An inode gets its block allocation info, when it has none. -/
lemma WF.ext2InitBlockAllocInfo (h : w.WF) (hne : i ≠ rsvWindowHead)
    (hinfo : w.allocInfo i = false) (reservation : Bool) :
    (w.ext2InitBlockAllocInfo i reservation).WF := by
  apply h.of_empty hne (h.info i hinfo)
  · exact hi_setNode_self w i _
  · rfl
  · exact fun j hj => setNode_node_ne w _ hj
  · exact fun j hj => Function.update_of_ne hj _ _

/-- The wanted size may be set at any time. -/
lemma WF.setRsvSize (h : w.WF) (hne : i ≠ rsvWindowHead) (reservation : Bool) (size : ℕ) :
    (w.setRsvSize i reservation size).WF := by
  rw [Reservations.setRsvSize]
  apply WF.setNode_of_eq
  · split_ifs with hinfo
    · exact h
    · exact h.ext2InitBlockAllocInfo hne (Bool.not_eq_true _ ▸ hinfo) reservation
  · rfl
  · rfl

end alloc

end Reservations

end Comp3301.Ext3301
