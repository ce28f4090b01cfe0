import Comp3301.Ext3301.Reservations

/-!
# Allocating blocks in a group (`balloc.c`)

Blocks are allocated by setting bits in the bitmap of a block group, whose first block is
`firstBlock`. Bit numbers are relative to the group, and `none` stands for the goal `-1` and for the
result `-1`; an outer `none` is a `BUG`.

* `findNextUsableBlock`, `ext2TryToAllocate`, `ext2TryToAllocateWithRsv`: the code.
* `Claimed`: what an attempt does to the bitmap. Either it sets a run of bits that were all clear,
  from the range it was given, or the range has no clear bit and nothing changes.
* `ext2TryToAllocate_spec`, `ext2TryToAllocateWithRsv_spec`: every attempt ends that way, within the
  own window if there is one, and the windows stay disjoint.
-/

namespace Comp3301.Ext3301

open Comp3301.Lib Reservations

/-! ## The code -/

/-- `find_next_usable_block`: near the goal, then a free byte, then any free bit. -/
def findNextUsableBlock (start : ℕ) (b : Bits) (maxblocks : ℕ) : Option ℕ :=
  let endGoal := min ((start + 63) / 64 * 64) maxblocks
  let here := nextZero b endGoal start
  if start > 0 ∧ here < endGoal then some here
  else
    let here := start
    let r := memscan b (here / 8) ((maxblocks + 7) / 8 - here / 8)
    let next := r * 8
    if next < maxblocks ∧ next ≥ here then some next
    else bitmapSearchNextUsableBlock here b maxblocks

/-- The loop of `ext2_try_to_allocate` that backs up over at most `k` free bits. -/
def backUp (b : Bits) (start : ℕ) : ℕ → ℕ → ℕ
  | 0, goal => goal
  | k + 1, goal =>
      if goal > start ∧ b (goal - 1) = false then backUp b start k (goal - 1) else goal

/-- The range of an attempt and the goal in it. -/
def allocRange (firstBlock blocksPerGroup : ℕ) (grpGoal : Option ℕ) (myRsv : Option (ℕ × ℕ)) :
    ℕ × ℕ × Option ℕ :=
  match myRsv with
  | some (rsvStart, rsvEnd) =>
      let start := if rsvStart ≥ firstBlock then rsvStart - firstBlock else 0
      let stop := min (rsvEnd + 1 - firstBlock) blocksPerGroup
      match grpGoal with
      | some g => if start ≤ g ∧ g < stop then (g, stop, some g) else (start, stop, none)
      | none => (start, stop, none)
  | none =>
      match grpGoal with
      | some g => (g, blocksPerGroup, some g)
      | none => (0, blocksPerGroup, none)

/-- A round at `repeat` of `ext2_try_to_allocate`, once there is a goal: the bit at the goal is
free, or the next one is tried. -/
def repeatRound (b : Bits) (stop goal : ℕ) : Option (ℕ ⊕ Option ℕ) :=
  if b goal then
    if goal + 1 ≥ stop then some (.inr none) else some (.inl (goal + 1))
  else some (.inr (some goal))

/-- A round of the loop that claims the bits behind the first one; the state is the bitmap, the
number of bits claimed and the next bit. -/
def claimRound (count stop : ℕ) (s : Bits × ℕ × ℕ) :
    Option ((Bits × ℕ × ℕ) ⊕ (Bits × ℕ × ℕ)) :=
  let (b, num, goal) := s
  if num < count ∧ goal < stop ∧ b goal = false then some (.inl (setBit b goal, num + 1, goal + 1))
  else some (.inr s)

/-- `ext2_try_to_allocate`. The result is the first bit, the number of bits and the new bitmap. -/
def ext2TryToAllocate (firstBlock blocksPerGroup : ℕ) (b : Bits) (grpGoal : Option ℕ) (count : ℕ)
    (myRsv : Option (ℕ × ℕ)) : Option (Option ℕ × ℕ × Bits) :=
  let (start, stop, goal) := allocRange firstBlock blocksPerGroup grpGoal myRsv
  if start > blocksPerGroup then none
  else
    let goal :=
      match goal with
      | some g => some g
      | none => (findNextUsableBlock start b stop).map fun g =>
          if myRsv.isNone then backUp b start 7 g else g
    match goal with
    | none => some (none, 0, b)
    | some g =>
      match loopFor (repeatRound b stop) (blocksPerGroup + 1) g with
      | none => none
      | some none => some (none, 0, b)
      | some (some g) =>
        (loopFor (claimRound count stop) (blocksPerGroup + 1) (setBit b g, 1, g + 1)).map
          fun (b, num, goal) => (some (goal - num), num, b)

/-- What is done about the window before an attempt in `ext2_try_to_allocate_with_rsv`: it is left
as it is, extended, or booked anew. The result is `none` where no new one can be had, and otherwise
the goal. -/
def prepareWindow (rb : RbTree) (w : Reservations) (i : ℕ) (firstBlock blocksPerGroup : ℕ)
    (b : Bits) (count : ℕ) (trylock failed : Bool) (grpGoal : Option ℕ) :
    Option (Option (Option ℕ) × Reservations) :=
  let n := w.node i
  if n.rsvIsEmpty ∨ failed ∨ n.goalInMyReservation grpGoal firstBlock blocksPerGroup = false then
    let w := if n.rsvGoalSize < count then w.setNode i { n with rsvGoalSize := count } else w
    match w.allocNewReservation rb i grpGoal firstBlock blocksPerGroup b with
    | none => none
    | some (false, w) => some (none, w)
    | some (true, w) =>
        if (w.node i).goalInMyReservation grpGoal firstBlock blocksPerGroup then
          some (some grpGoal, w)
        else some (some none, w)
  else
    match grpGoal with
    | some g =>
        let curr := n.rsvEnd + 1 - (g + firstBlock)
        if curr < count then some (some grpGoal, w.tryToExtendReservation i (count - curr) trylock)
        else some (some grpGoal, w)
    | none => some (some grpGoal, w)

/-- A round of `ext2_try_to_allocate_with_rsv`; the state is the windows, whether the last attempt
has failed, and the goal. -/
def rsvRound (rb : RbTree) (i firstBlock blocksPerGroup : ℕ) (b : Bits) (count : ℕ)
    (trylock : Bool) (s : Reservations × Bool × Option ℕ) :
    Option ((Reservations × Bool × Option ℕ) ⊕ (Option ℕ × ℕ × Bits × Reservations)) :=
  let (w, failed, grpGoal) := s
  match prepareWindow rb w i firstBlock blocksPerGroup b count trylock failed grpGoal with
  | none => none
  | some (none, w) => some (.inr (none, count, b, w))
  | some (some grpGoal, w) =>
    if w.lo i > firstBlock + (blocksPerGroup - 1) ∨ w.hi i < firstBlock then none
    else
      match ext2TryToAllocate firstBlock blocksPerGroup b grpGoal count (some (w.lo i, w.hi i)) with
      | none => none
      | some (some ret, num, b) =>
          let n := w.node i
          some (.inr (some ret, num, b,
            w.setNode i { n with rsvAllocHit := n.rsvAllocHit + num }))
      | some (none, _, _) => some (.inl (w, true, grpGoal))

/-- `ext2_try_to_allocate_with_rsv`. The loop takes two rounds at most. -/
def ext2TryToAllocateWithRsv (rb : RbTree) (w : Reservations) (firstBlock blocksPerGroup : ℕ)
    (b : Bits) (grpGoal : Option ℕ) (myRsv : Option ℕ) (count : ℕ) (trylock : Bool) :
    Option (Option ℕ × ℕ × Bits × Reservations) :=
  match myRsv with
  | none =>
      (ext2TryToAllocate firstBlock blocksPerGroup b grpGoal count none).map
        fun (ret, num, b) => (ret, num, b, w)
  | some i =>
      loopFor (rsvRound rb i firstBlock blocksPerGroup b count trylock) 2 (w, false, grpGoal)

/-! ## Searches in the bitmap -/

variable {b : Bits} {start stop goal count num firstBlock blocksPerGroup maxblocks i : ℕ}
  {grpGoal : Option ℕ} {myRsv : Option (ℕ × ℕ)} {rb : RbTree} {w w' : Reservations}
  {trylock failed : Bool}

/-- **It finds a free bit exactly where there is one.** -/
theorem findNextUsableBlock_cases (start : ℕ) (b : Bits) (maxblocks : ℕ) :
    (∃ f, findNextUsableBlock start b maxblocks = some f ∧ start ≤ f ∧ f < maxblocks ∧
        b f = false) ∨
      findNextUsableBlock start b maxblocks = none ∧
        ∀ j, start ≤ j → j < maxblocks → b j = true := by
  rw [findNextUsableBlock]
  simp only
  split_ifs with hnear hbyte
  · left
    rcases nextZero_cases b (min ((start + 63) / 64 * 64) maxblocks) start with
      ⟨hle, hlt, hclear, -⟩ | ⟨heq, -⟩
    · exact ⟨_, rfl, hle, hlt.trans_le (min_le_right _ _), hclear⟩
    · exact absurd heq hnear.2.ne
  · left
    have hscan : memscan b (start / 8) ((maxblocks + 7) / 8 - start / 8) <
        start / 8 + ((maxblocks + 7) / 8 - start / 8) := by
      have := hbyte.1
      omega
    have hclear := memscan_clear hscan 0 (by decide)
    rw [Nat.add_zero, Nat.mul_comm] at hclear
    exact ⟨_, rfl, hbyte.2, hbyte.1, hclear⟩
  · exact bitmapSearchNextUsableBlock_cases start b maxblocks

/-- Backing up stays at free bits. -/
lemma backUp_spec (k : ℕ) (hle : start ≤ goal) (hclear : b goal = false) :
    start ≤ backUp b start k goal ∧ backUp b start k goal ≤ goal ∧
      b (backUp b start k goal) = false := by
  induction k generalizing goal with
  | zero => exact ⟨hle, le_refl _, hclear⟩
  | succ k ih =>
      rw [backUp]
      split_ifs with h
      · obtain ⟨hlow, hhigh, hfree⟩ := ih (Nat.le_sub_one_of_lt h.1) h.2
        exact ⟨hlow, hhigh.trans (Nat.sub_le _ _), hfree⟩
      · exact ⟨hle, le_refl _, hclear⟩

/-! ## An attempt -/

/-- A run of clear bits between `start` and `stop` is claimed. -/
structure Claimed (start stop count first num : ℕ) (b b' : Bits) : Prop where
  range : start ≤ first ∧ first + num ≤ stop
  num_pos : 0 < num
  num_le : num ≤ max count 1
  clear : ∀ j, first ≤ j → j < first + num → b j = false
  bitmap : b' = fill b first num

/-- What an attempt between `start` and `stop` ends with. -/
def Attempt (start stop count : ℕ) (b : Bits) (r : Option ℕ × ℕ × Bits) : Prop :=
  (∃ first, r.1 = some first ∧ Claimed start stop count first r.2.1 b r.2.2) ∨
    r = (none, 0, b) ∧ ∀ j, start ≤ j → j < stop → b j = true

/-- From a goal on, the first free bit of the range. -/
lemma repeat_spec (b : Bits) (hgoal : goal < stop) (hstop : stop ≤ blocksPerGroup) :
    ∃ r, loopFor (repeatRound b stop) (blocksPerGroup + 1) goal = some r ∧
      ((∃ f, r = some f ∧ goal ≤ f ∧ f < stop ∧ b f = false) ∨
        r = none ∧ ∀ j, goal ≤ j → j < stop → b j = true) := by
  apply loopFor_total (I := fun g => (goal ≤ g ∧ g < stop) ∧ ∀ j, goal ≤ j → j < g → b j = true)
    (m := fun g => stop - g)
  · rintro g ⟨⟨hle, hlt⟩, hset⟩
    rcases Bool.eq_false_or_eq_true (b g) with hbit | hbit
    · have hset' : ∀ j, goal ≤ j → j < g + 1 → b j = true := by
        intro j hj hjg
        rcases Nat.lt_succ_iff_lt_or_eq.mp hjg with hjg | rfl
        · exact hset j hj hjg
        · exact hbit
      by_cases hend : g + 1 ≥ stop
      · refine Or.inr ⟨none, ?_, Or.inr ⟨rfl, fun j hj hjs => hset' j hj (hjs.trans_le hend)⟩⟩
        rw [repeatRound, if_pos hbit, if_pos hend]
      · refine Or.inl ⟨g + 1, ?_, ⟨⟨Nat.le_succ_of_le hle, not_le.mp hend⟩, hset'⟩, ?_⟩
        · rw [repeatRound, if_pos hbit, if_neg hend]
        · exact Nat.sub_lt_sub_left hlt (Nat.lt_succ_self g)
    · refine Or.inr ⟨some g, ?_, Or.inl ⟨g, rfl, hle, hlt, hbit⟩⟩
      rw [repeatRound, if_neg (by rw [hbit]; decide)]
  · exact ⟨⟨le_refl _, hgoal⟩, fun j hj hlt => absurd hj (not_le.mpr hlt)⟩
  · omega

/-- From the first bit on, the claim grows over clear bits. -/
lemma claim_spec {f : ℕ} (hf : start ≤ f) (hfstop : f < stop) (hstop : stop ≤ blocksPerGroup)
    (hclear : b f = false) (count : ℕ) :
    ∃ s, loopFor (claimRound count stop) (blocksPerGroup + 1) (setBit b f, 1, f + 1) = some s ∧
      s.2.2 = f + s.2.1 ∧ Claimed start stop count f s.2.1 b s.1 := by
  apply loopFor_total (I := fun s => s.2.2 = f + s.2.1 ∧ Claimed start stop count f s.2.1 b s.1)
    (m := fun s => stop - s.2.2)
  · rintro ⟨b', num, g⟩ ⟨hg, hclaimed⟩
    simp only at hg hclaimed
    subst hg
    by_cases hmore : num < count ∧ f + num < stop ∧ b' (f + num) = false
    · refine Or.inl ⟨(setBit b' (f + num), num + 1, f + num + 1), ?_, ⟨rfl, ?_⟩, ?_⟩
      · rw [claimRound, if_pos hmore]
      · have hbit : b (f + num) = false := by
          have hbit := hmore.2.2
          rw [hclaimed.bitmap, fill_eq_false_iff] at hbit
          exact hbit.1
        refine ⟨⟨hclaimed.range.1, hmore.2.1⟩, Nat.succ_pos _,
          hmore.1.trans_le (le_max_left _ _), ?_, ?_⟩
        · intro j hj hjlt
          rcases Nat.lt_succ_iff_lt_or_eq.mp hjlt with hjlt | rfl
          · exact hclaimed.clear j hj hjlt
          · exact hbit
        · simp only [hclaimed.bitmap]
          exact setBit_fill b f num
      · simp only
        omega
    · refine Or.inr ⟨(b', num, f + num), ?_, rfl, hclaimed⟩
      rw [claimRound, if_neg hmore]
  · refine ⟨rfl, ⟨hf, hfstop⟩, Nat.one_pos, le_max_right _ _, ?_, ?_⟩
    · intro j hj hjlt
      rwa [show j = f from le_antisymm (Nat.lt_succ_iff.mp hjlt) hj]
    · have hfill := setBit_fill b f 0
      rw [fill_zero, Nat.add_zero] at hfill
      exact hfill
  · simp only
    omega

/-- The range of an attempt: in the group, and not empty. -/
structure RangeOk (blocksPerGroup : ℕ) (r : ℕ × ℕ × Option ℕ) : Prop where
  lt : r.1 < r.2.1
  le : r.2.1 ≤ blocksPerGroup
  goal : ∀ g ∈ r.2.2, g = r.1

/-- **An attempt claims free bits of its range, or finds all of them set.** -/
theorem ext2TryToAllocate_spec
    (hrange : RangeOk blocksPerGroup (allocRange firstBlock blocksPerGroup grpGoal myRsv))
    (b : Bits) (count : ℕ) :
    ∃ r, ext2TryToAllocate firstBlock blocksPerGroup b grpGoal count myRsv = some r ∧
      Attempt (allocRange firstBlock blocksPerGroup grpGoal myRsv).1
        (allocRange firstBlock blocksPerGroup grpGoal myRsv).2.1 count b r := by
  rcases hr : allocRange firstBlock blocksPerGroup grpGoal myRsv with ⟨start, stop, goal⟩
  rw [hr] at hrange
  obtain ⟨hlt, hle, hgoal⟩ := hrange
  simp only at hlt hle hgoal
  -- what happens once there is a bit to begin with
  have hbegin : ∀ g, start ≤ g → g < stop →
      (g = start ∨ b g = false) →
      ∃ r, (match loopFor (repeatRound b stop) (blocksPerGroup + 1) g with
        | none => none
        | some none => some (none, 0, b)
        | some (some g) =>
          (loopFor (claimRound count stop) (blocksPerGroup + 1) (setBit b g, 1, g + 1)).map
            fun (b, num, goal) => (some (goal - num), num, b)) = some r ∧
        Attempt start stop count b r := by
    intro g hg hgstop hfree
    obtain ⟨r, hrepeat, ⟨f, rfl, hf, hfstop, hclear⟩ | ⟨rfl, hset⟩⟩ := repeat_spec b hgstop hle
    · obtain ⟨⟨b', num, last⟩, hclaim, hlast, hclaimed⟩ :=
        claim_spec (hg.trans hf) hfstop hle hclear count
      simp only at hlast hclaimed
      refine ⟨(some f, num, b'), ?_, Or.inl ⟨f, rfl, hclaimed⟩⟩
      simp only [hrepeat, hclaim, Option.map_some, hlast, Nat.add_sub_cancel]
    · refine ⟨(none, 0, b), ?_, Or.inr ⟨rfl, ?_⟩⟩
      · simp only [hrepeat]
      · rcases hfree with rfl | hfree
        · exact hset
        · rw [hset g (le_refl _) hgstop] at hfree
          cases hfree
  rw [ext2TryToAllocate, hr]
  simp only
  rw [if_neg (not_lt.mpr (hlt.le.trans hle))]
  rcases goal with _ | g
  · rcases findNextUsableBlock_cases start b stop with
      ⟨f, hfind, hf, hfstop, hclear⟩ | ⟨hfind, hset⟩
    · simp only [hfind, Option.map_some]
      split_ifs with hrsv
      · obtain ⟨hlow, hhigh, hfree⟩ := backUp_spec 7 hf hclear
        exact hbegin _ hlow (hhigh.trans_lt hfstop) (Or.inr hfree)
      · exact hbegin f hf hfstop (Or.inr hclear)
    · simp only [hfind, Option.map_none]
      exact ⟨(none, 0, b), rfl, Or.inr ⟨rfl, hset⟩⟩
  · obtain rfl := hgoal g rfl
    exact hbegin g (le_refl _) hlt (Or.inl rfl)

/-- Without a window, the range goes from the goal to the end of the group. -/
lemma rangeOk_none (hblocks : 0 < blocksPerGroup) (hgoal : ∀ g ∈ grpGoal, g < blocksPerGroup)
    (firstBlock : ℕ) :
    RangeOk blocksPerGroup (allocRange firstBlock blocksPerGroup grpGoal none) := by
  rcases grpGoal with _ | g
  · exact ⟨hblocks, le_refl _, fun g hg => nomatch hg⟩
  · exact ⟨hgoal g rfl, le_refl _, fun g' hg => (Option.some.inj hg).symm⟩

/-! ## Within a window -/

/-- The window has blocks of the group. -/
def Reservations.Overlaps (w : Reservations) (i firstBlock blocksPerGroup : ℕ) : Prop :=
  w.lo i ≤ w.hi i ∧ w.lo i ≤ firstBlock + (blocksPerGroup - 1) ∧ firstBlock ≤ w.hi i

/-- The range with a window, without the case distinction for a window that begins in an earlier
group. -/
lemma allocRange_some (firstBlock blocksPerGroup : ℕ) (grpGoal : Option ℕ) (rsvStart rsvEnd : ℕ) :
    allocRange firstBlock blocksPerGroup grpGoal (some (rsvStart, rsvEnd)) =
      match grpGoal with
      | some g =>
          if rsvStart - firstBlock ≤ g ∧ g < min (rsvEnd + 1 - firstBlock) blocksPerGroup then
            (g, min (rsvEnd + 1 - firstBlock) blocksPerGroup, some g)
          else (rsvStart - firstBlock, min (rsvEnd + 1 - firstBlock) blocksPerGroup, none)
      | none => (rsvStart - firstBlock, min (rsvEnd + 1 - firstBlock) blocksPerGroup, none) := by
  have hstart : (if rsvStart ≥ firstBlock then rsvStart - firstBlock else 0) =
      rsvStart - firstBlock := by
    split_ifs with h
    · rfl
    · exact (Nat.sub_eq_zero_of_le (not_le.mp h).le).symm
  unfold allocRange
  simp only [hstart]

/-- With a window, the range goes from the goal, or from the start of the window, to the end of the
window, as far as they lie in the group. -/
lemma rangeOk_some (hblocks : 0 < blocksPerGroup) (h : w.Overlaps i firstBlock blocksPerGroup)
    (grpGoal : Option ℕ) :
    RangeOk blocksPerGroup
        (allocRange firstBlock blocksPerGroup grpGoal (some (w.lo i, w.hi i))) ∧
      w.lo i ≤ (allocRange firstBlock blocksPerGroup grpGoal (some (w.lo i, w.hi i))).1 +
        firstBlock ∧
      (allocRange firstBlock blocksPerGroup grpGoal (some (w.lo i, w.hi i))).2.1 + firstBlock ≤
        w.hi i + 1 := by
  obtain ⟨hle, hlo, hhi⟩ := h
  have hlt : w.lo i - firstBlock < min (w.hi i + 1 - firstBlock) blocksPerGroup :=
    lt_min (by omega) (by omega)
  have hstart : w.lo i ≤ w.lo i - firstBlock + firstBlock := le_tsub_add
  have hstop : min (w.hi i + 1 - firstBlock) blocksPerGroup + firstBlock ≤ w.hi i + 1 := by
    have := min_le_left (w.hi i + 1 - firstBlock) blocksPerGroup
    omega
  rw [allocRange_some]
  rcases grpGoal with _ | g
  · exact ⟨⟨hlt, min_le_right _ _, fun g hg => nomatch hg⟩, hstart, hstop⟩
  · simp only
    split_ifs with hin
    · refine ⟨⟨hin.2, min_le_right _ _, fun g' hg => (Option.some.inj hg).symm⟩, ?_, hstop⟩
      exact hstart.trans (Nat.add_le_add_right hin.1 _)
    · exact ⟨⟨hlt, min_le_right _ _, fun g hg => nomatch hg⟩, hstart, hstop⟩

/-- A goal in the window, and what it says of the window. -/
lemma goalInMyReservation_iff (hblocks : 0 < blocksPerGroup) :
    (w.node i).goalInMyReservation grpGoal firstBlock blocksPerGroup = true ↔
      (w.lo i ≤ firstBlock + (blocksPerGroup - 1) ∧ firstBlock ≤ w.hi i) ∧
        ∀ g ∈ grpGoal, w.lo i ≤ g + firstBlock ∧ g + firstBlock ≤ w.hi i := by
  have hlast : firstBlock + blocksPerGroup - 1 = firstBlock + (blocksPerGroup - 1) :=
    Nat.add_sub_assoc hblocks firstBlock
  unfold ReserveWindowNode.goalInMyReservation
  rw [hlast]
  split_ifs with hout
  · refine iff_of_false (by decide) fun h => ?_
    rcases hout with hout | hout
    · exact absurd h.1.1 (not_le.mpr hout)
    · exact absurd h.1.2 (not_le.mpr hout)
  · rw [not_or, not_lt, not_lt] at hout
    rcases grpGoal with _ | g
    · exact iff_of_true rfl ⟨hout, fun g hg => nomatch hg⟩
    · simp only [Bool.not_eq_true', decide_eq_false_iff_not, not_or, not_lt]
      constructor
      · rintro h
        refine ⟨hout, fun g' hg => ?_⟩
        obtain rfl := Option.some.inj hg
        exact h
      · exact fun h => h.2 g rfl

/-- The windows are ready for an attempt with the goal; after a failure, the range of the attempt
has a free bit. -/
structure Ready (i firstBlock blocksPerGroup : ℕ) (b : Bits) (failed : Bool) (w : Reservations)
    (goal : Option ℕ) : Prop where
  overlaps : w.Overlaps i firstBlock blocksPerGroup
  free : failed = true → ∃ f, b f = false ∧
    (allocRange firstBlock blocksPerGroup goal (some (w.lo i, w.hi i))).1 ≤ f ∧
    f < (allocRange firstBlock blocksPerGroup goal (some (w.lo i, w.hi i))).2.1

/-- A window that has just been booked is ready: it begins at the goal or behind it, so an attempt
looks through all of it. -/
lemma ready_of_free {f : ℕ} (hlt : f < blocksPerGroup)
    (hclear : b f = false) (hlo : w.lo i ≤ f + firstBlock) (hhi : f + firstBlock ≤ w.hi i)
    (hgoal : ∀ g ∈ grpGoal, w.lo i ≤ g + firstBlock → w.lo i = g + firstBlock) (failed : Bool) :
    Ready i firstBlock blocksPerGroup b failed w grpGoal := by
  refine ⟨⟨hlo.trans hhi, by omega, by omega⟩, fun _ => ⟨f, hclear, ?_⟩⟩
  have hstop : f < min (w.hi i + 1 - firstBlock) blocksPerGroup := lt_min (by omega) hlt
  rw [allocRange_some]
  rcases grpGoal with _ | g
  · exact ⟨by simp only; omega, hstop⟩
  · simp only
    split_ifs with hin
    · have := hgoal g rfl (by omega)
      exact ⟨by simp only; omega, hstop⟩
    · exact ⟨by simp only; omega, hstop⟩

/-- A new window for an attempt. -/
lemma prepareWindow_new (h : w.WF) (rb : RbTree) (hne : i ≠ rsvWindowHead)
    (hinfo : w.allocInfo i = true) (hsize : 0 < (w.node i).rsvGoalSize)
    (hblocks : 0 < blocksPerGroup) (hgoal : ∀ g ∈ grpGoal, g < blocksPerGroup) (firstBlock : ℕ)
    (b : Bits) (failed : Bool) :
    ∃ r, (match w.allocNewReservation rb i grpGoal firstBlock blocksPerGroup b with
        | none => none
        | some (false, w) => some (none, w)
        | some (true, w) =>
            if (w.node i).goalInMyReservation grpGoal firstBlock blocksPerGroup then
              some (some grpGoal, w)
            else some (some none, w)) = some r ∧
      r.2.WF ∧ OnlyNode i w r.2 ∧ ∀ goal ∈ r.1, (∀ g ∈ goal, g < blocksPerGroup) ∧
        Ready i firstBlock blocksPerGroup b failed r.2 goal := by
  obtain ⟨⟨ok, w₂⟩, halloc, hres⟩ := allocNewReservation_spec h rb hne hinfo hsize hblocks
    hgoal firstBlock b
  have hwf : w₂.WF := hres.wf
  have honly : OnlyNode i w w₂ := hres.only
  rw [halloc]
  rcases ok with _ | _
  · exact ⟨(none, w₂), rfl, hwf, honly, fun goal hg => nomatch hg⟩
  · obtain ⟨hstart, f, hlt, hclear, hlo, hhi⟩ := hres.window rfl
    simp only at hstart hlo hhi
    simp only
    split_ifs with hin
    · refine ⟨(some grpGoal, w₂), rfl, hwf, honly, fun goal hg => ?_⟩
      obtain rfl := Option.some.inj hg
      refine ⟨hgoal, ready_of_free hlt hclear hlo hhi (fun g hg hle => ?_) failed⟩
      rw [show grpGoal = some g from hg] at hstart
      exact le_antisymm hle hstart
    · refine ⟨(some none, w₂), rfl, hwf, honly, fun goal hg => ?_⟩
      obtain rfl := Option.some.inj hg
      have hnone : ∀ g : ℕ, g ∉ (none : Option ℕ) := Option.not_mem_none
      exact ⟨fun g hg => absurd hg (hnone g),
        ready_of_free hlt hclear hlo hhi (fun g hg => absurd hg (hnone g)) failed⟩

/-- **Before an attempt** the window of the inode has blocks of the group, or the attempt is given
up. -/
lemma prepareWindow_spec (h : w.WF) (rb : RbTree) (hne : i ≠ rsvWindowHead)
    (hinfo : w.allocInfo i = true) (hsize : 0 < (w.node i).rsvGoalSize)
    (hblocks : 0 < blocksPerGroup) (hgoal : ∀ g ∈ grpGoal, g < blocksPerGroup) (firstBlock : ℕ)
    (b : Bits) (count : ℕ) (trylock failed : Bool) :
    ∃ r, prepareWindow rb w i firstBlock blocksPerGroup b count trylock failed grpGoal = some r ∧
      r.2.WF ∧ OnlyNode i w r.2 ∧ ∀ goal ∈ r.1, (∀ g ∈ goal, g < blocksPerGroup) ∧
        Ready i firstBlock blocksPerGroup b failed r.2 goal := by
  by_cases hneed : (w.node i).rsvIsEmpty ∨ failed ∨
      (w.node i).goalInMyReservation grpGoal firstBlock blocksPerGroup = false
  · unfold prepareWindow
    simp only
    rw [if_pos hneed]
    by_cases hsmall : (w.node i).rsvGoalSize < count
    · rw [if_pos hsmall]
      have honly : OnlyNode i w (w.setNode i { w.node i with rsvGoalSize := count }) :=
        OnlyNode.setNode w fun hpos => hpos.trans hsmall
      have hwf : (w.setNode i { w.node i with rsvGoalSize := count }).WF :=
        h.setNode_of_eq rfl rfl
      obtain ⟨r, hnew, hrwf, hronly, hr⟩ := prepareWindow_new hwf rb hne hinfo
        (honly.goal hsize) hblocks hgoal firstBlock b failed
      exact ⟨r, hnew, hrwf, honly.trans hronly, hr⟩
    · rw [if_neg hsmall]
      exact prepareWindow_new h rb hne hinfo hsize hblocks hgoal firstBlock b failed
  · -- the window is not empty and holds the goal
    simp only [not_or, Bool.not_eq_true, Bool.not_eq_false] at hneed
    obtain ⟨hempty, rfl, hin⟩ := hneed
    have hi : w.hi i ≠ 0 := rsvIsEmpty_eq_false_iff.mp hempty
    have hmem := (h.mem_iff_of_ne hne).mpr hi
    have hover := ((goalInMyReservation_iff hblocks).mp hin).1
    have hready : ∀ w' : Reservations, w'.lo i = w.lo i → w.hi i ≤ w'.hi i →
        Ready i firstBlock blocksPerGroup b false w' grpGoal := by
      intro w' hlo hhi
      refine ⟨⟨?_, ?_, hover.2.trans hhi⟩, fun hf => nomatch hf⟩
      · exact hlo ▸ (h.apart.le i hmem).trans hhi
      · exact hlo ▸ hover.1
    have hsame : ∃ r : Option (Option ℕ) × Reservations, some (some grpGoal, w) = some r ∧
        r.2.WF ∧ OnlyNode i w r.2 ∧ ∀ goal ∈ r.1, (∀ g ∈ goal, g < blocksPerGroup) ∧
          Ready i firstBlock blocksPerGroup b false r.2 goal := by
      refine ⟨_, rfl, h, OnlyNode.refl i w, fun goal hg => ?_⟩
      obtain rfl := Option.some.inj hg
      exact ⟨hgoal, hready w rfl (le_refl _)⟩
    unfold prepareWindow
    simp only
    rw [if_neg (by simp only [hempty, hin]; decide)]
    rcases grpGoal with _ | g
    · exact hsame
    · simp only
      split_ifs with hcurr
      · obtain ⟨hwf, honly, hlo, hhi⟩ := tryToExtendReservation_spec h hne hi
          (count - ((w.node i).rsvEnd + 1 - (g + firstBlock))) trylock
        refine ⟨_, rfl, hwf, honly, fun goal hg => ?_⟩
        obtain rfl := Option.some.inj hg
        exact ⟨hgoal, hready _ hlo hhi⟩
      · exact hsame

/-- What `ext2_try_to_allocate_with_rsv` ends with for an inode with a window: a claim within that
window, or nothing. -/
structure WithRsv (i firstBlock blocksPerGroup count : ℕ) (b : Bits) (w : Reservations)
    (r : Option ℕ × ℕ × Bits × Reservations) : Prop where
  wf : r.2.2.2.WF
  only : OnlyNode i w r.2.2.2
  attempt : (∃ first, r.1 = some first ∧
      Claimed 0 blocksPerGroup count first r.2.1 b r.2.2.1 ∧
      r.2.2.2.lo i ≤ first + firstBlock ∧
      first + r.2.1 + firstBlock ≤ r.2.2.2.hi i + 1) ∨
    r.1 = none ∧ r.2.1 = count ∧ r.2.2.1 = b

/-- **A round** ends the loop, or it was the first one. -/
lemma rsvRound_advances (hne : i ≠ rsvWindowHead) (hinfo : w.allocInfo i = true)
    (hblocks : 0 < blocksPerGroup) {s : Reservations × Bool × Option ℕ}
    (hs : s.1.WF ∧ OnlyNode i w s.1 ∧ 0 < (s.1.node i).rsvGoalSize ∧
      ∀ g ∈ s.2.2, g < blocksPerGroup) :
    Advances (rsvRound rb i firstBlock blocksPerGroup b count trylock)
      (fun s => s.1.WF ∧ OnlyNode i w s.1 ∧ 0 < (s.1.node i).rsvGoalSize ∧
        ∀ g ∈ s.2.2, g < blocksPerGroup)
      (fun s => if s.2.1 then 0 else 1)
      (WithRsv i firstBlock blocksPerGroup count b w) s := by
  obtain ⟨w₁, failed, goal⟩ := s
  obtain ⟨hwf, honly, hsize, hgoal⟩ := hs
  simp only at hwf honly hsize hgoal
  obtain ⟨⟨goal', w₂⟩, hprepare, hwf₂, honly₂, hready⟩ := prepareWindow_spec
    hwf rb hne (honly.info ▸ hinfo) hsize hblocks hgoal firstBlock b count trylock failed
  simp only at hwf₂ honly₂ hready
  rcases goal' with _ | goal'
  · refine Or.inr ⟨(none, count, b, w₂), ?_, hwf₂, honly.trans honly₂, Or.inr ⟨rfl, rfl, rfl⟩⟩
    rw [rsvRound, hprepare]
  · obtain ⟨hgoal', hready⟩ := hready goal' rfl
    obtain ⟨hrange, hlo, hhi⟩ := rangeOk_some hblocks hready.overlaps goal'
    obtain ⟨r, htry, hattempt⟩ := ext2TryToAllocate_spec hrange b count
    have hover : ¬ (w₂.lo i > firstBlock + (blocksPerGroup - 1) ∨ w₂.hi i < firstBlock) := by
      rw [not_or, not_lt, not_lt]
      exact hready.overlaps.2
    rcases hattempt with ⟨first, hfirst, hclaimed⟩ | ⟨rfl, hset⟩
    · obtain ⟨ret, num, b'⟩ := r
      simp only at hfirst hclaimed
      subst hfirst
      refine Or.inr ⟨(some first, num, b', w₂.setNode i { w₂.node i with
        rsvAllocHit := (w₂.node i).rsvAllocHit + num }), ?_, hwf₂.setNode_of_eq rfl rfl,
        (honly.trans honly₂).trans (OnlyNode.setNode w₂ id), Or.inl ⟨first, rfl, ?_, ?_, ?_⟩⟩
      · rw [rsvRound, hprepare]
        simp only
        rw [if_neg hover, htry]
      · exact ⟨⟨Nat.zero_le _, hclaimed.range.2.trans hrange.le⟩, hclaimed.num_pos,
          hclaimed.num_le, hclaimed.clear, hclaimed.bitmap⟩
      · rw [lo_setNode_self]
        exact hlo.trans (Nat.add_le_add_right hclaimed.range.1 _)
      · rw [hi_setNode_self]
        exact (Nat.add_le_add_right hclaimed.range.2 _).trans hhi
    · rcases failed with _ | _
      · refine Or.inl ⟨(w₂, true, goal'), ?_, ⟨hwf₂, honly.trans honly₂, honly₂.goal hsize,
          hgoal'⟩, Nat.zero_lt_one⟩
        rw [rsvRound, hprepare]
        simp only
        rw [if_neg hover, htry]
      · -- a window that has just been booked has a free block, so the attempt cannot fail
        obtain ⟨f, hclear, hf, hfstop⟩ := hready.free rfl
        rw [hset f hf hfstop] at hclear
        cases hclear

/-- **Allocating within the own window.** -/
theorem ext2TryToAllocateWithRsv_spec (h : w.WF) (rb : RbTree) (hne : i ≠ rsvWindowHead)
    (hinfo : w.allocInfo i = true) (hsize : 0 < (w.node i).rsvGoalSize)
    (hblocks : 0 < blocksPerGroup) (hgoal : ∀ g ∈ grpGoal, g < blocksPerGroup) (firstBlock : ℕ)
    (b : Bits) (count : ℕ) (trylock : Bool) :
    ∃ r, ext2TryToAllocateWithRsv rb w firstBlock blocksPerGroup b grpGoal (some i) count trylock =
        some r ∧ WithRsv i firstBlock blocksPerGroup count b w r := by
  apply loopFor_total (fun s hs => rsvRound_advances hne hinfo hblocks hs)
  · exact ⟨h, OnlyNode.refl i w, hsize, hgoal⟩
  · exact Nat.one_lt_two

/-- **An inode with a window is given no block of another inode's window**, whatever the bitmap
is. -/
theorem withRsv_spares (h : w.WF) (rb : RbTree) (hne : i ≠ rsvWindowHead)
    (hinfo : w.allocInfo i = true) (hsize : 0 < (w.node i).rsvGoalSize)
    (hblocks : 0 < blocksPerGroup) (hgoal : ∀ g ∈ grpGoal, g < blocksPerGroup) (firstBlock : ℕ)
    (b : Bits) (count : ℕ) (trylock : Bool) :
    ∃ ret num b' w', ext2TryToAllocateWithRsv rb w firstBlock blocksPerGroup b grpGoal (some i)
        count trylock = some (ret, num, b', w') ∧ w'.WF ∧
      ∀ first ∈ ret, ∀ x, first + firstBlock ≤ x → x < first + num + firstBlock →
        (w'.lo i ≤ x ∧ x ≤ w'.hi i) ∧
          ∀ j, j ≠ i → w.hi j ≠ 0 → ¬ (w.lo j ≤ x ∧ x ≤ w.hi j) := by
  obtain ⟨⟨ret, num, b', w'⟩, hcall, hwf, honly, hattempt⟩ :=
    ext2TryToAllocateWithRsv_spec h rb hne hinfo hsize hblocks hgoal firstBlock b count trylock
  refine ⟨ret, num, b', w', hcall, hwf, fun first hfirst x hlow hhigh => ?_⟩
  simp only at hwf honly hattempt
  rcases hattempt with ⟨first', rfl, -, hlo, hhi⟩ | ⟨rfl, -, -⟩
  · obtain rfl := Option.some.inj hfirst
    have hin : w'.lo i ≤ x ∧ x ≤ w'.hi i := ⟨by omega, by omega⟩
    refine ⟨hin, fun j hj hhij hother => ?_⟩
    -- the other window is still where it was
    have hnode : w'.node j = w.node j := honly.node j hj
    rw [lo, hi, ← hnode] at hother
    rw [hi, ← hnode] at hhij
    have hj' : j ≠ rsvWindowHead := by
      rintro rfl
      exact hhij hwf.head.2
    have hpos : 0 < w'.lo j := hwf.lo_pos hj' ((hwf.mem_iff_of_ne hj').mpr hhij)
    have hi' : w'.hi i ≠ 0 := ((hpos.trans_le hother.1).trans_le hin.2).ne'
    rcases hwf.disjoint hi' hhij (Ne.symm hj) with hlt | hlt
    · exact absurd (hother.1.trans hin.2) (not_le.mpr hlt)
    · exact absurd (hin.1.trans hother.2) (not_le.mpr hlt)
  · exact absurd hfirst (Option.not_mem_none _)

/-- An inode that asks for a window for the first time. -/
theorem withRsv_spares_mounted :
    ∃ ret num b' w', ext2TryToAllocateWithRsv RbTree.spine (mounted.ext2InitBlockAllocInfo 12 true) 1
        8 (fun j => decide (j < 3)) none (some 12) 2 true = some (ret, num, b', w') ∧ w'.WF ∧
      ∀ first ∈ ret, ∀ x, first + 1 ≤ x → x < first + num + 1 →
        (w'.lo 12 ≤ x ∧ x ≤ w'.hi 12) ∧
          ∀ j, j ≠ 12 → (mounted.ext2InitBlockAllocInfo 12 true).hi j ≠ 0 →
            ¬ ((mounted.ext2InitBlockAllocInfo 12 true).lo j ≤ x ∧
              x ≤ (mounted.ext2InitBlockAllocInfo 12 true).hi j) :=
  withRsv_spares (WF.mounted.ext2InitBlockAllocInfo (by decide) rfl true) RbTree.spine (by decide)
    rfl (by decide) (by decide) (fun g hg => absurd hg (Option.not_mem_none g)) 1 _ 2 true

end Comp3301.Ext3301
