import Comp3301.Ext3301.MakeRemove

/-!
# Trees of directories

What the directories of a file system are for: a tree of directories, each with names for inodes.

* `NameTree`: which directories there are, their parents, and their names with the inodes that they
  stand for, in no order.
* `NameTree.Ok`: every directory but the root has exactly one name, and this is in its parent; a
  name in a directory is there once; names only stand for directories that are in the tree; and the
  parents of a directory lead to the root.
* `add` and `remove` are about names of files, `graft`, `prune` and `move` about directories. Each
  keeps `Ok`.
-/

namespace Comp3301.Ext3301

/-- A tree of directories. -/
structure NameTree where
  live : Finset ℕ
  parent : ℕ → ℕ
  names : ℕ → Multiset (Name × ℕ)

namespace NameTree

/-- A name that is none of the first two entries. -/
def Proper (name : Name) : Prop := name ≠ dotName ∧ name ≠ dotDotName

/-- The names of `c` in `p`. -/
def namesOf (T : NameTree) (p c : ℕ) : ℕ := (T.names p).countP fun x => x.2 = c

/-- The tree is one, with `isDir` saying which inodes are directories. -/
structure Ok (T : NameTree) (root : ℕ) (isDir : ℕ → Bool) : Prop where
  root_mem : root ∈ T.live
  dirs : ∀ d ∈ T.live, isDir d = true
  parent_mem : ∀ d ∈ T.live, T.parent d ∈ T.live
  parent_root : T.parent root = root
  nodup : ∀ p ∈ T.live, ((T.names p).map Prod.fst).Nodup
  proper : ∀ p ∈ T.live, ∀ x ∈ T.names p, Proper x.1
  closed : ∀ p ∈ T.live, ∀ x ∈ T.names p, isDir x.2 = true → x.2 ∈ T.live
  once : ∀ p ∈ T.live, ∀ c ∈ T.live,
    T.namesOf p c = if c ≠ root ∧ T.parent c = p then 1 else 0
  rooted : ∀ d ∈ T.live, ∃ k, T.parent^[k] d = root

/-- Other names in `p`. -/
def setNames (T : NameTree) (p : ℕ) (m : Multiset (Name × ℕ)) : NameTree :=
  { T with names := Function.update T.names p m }

/-- A name for a file. -/
def add (T : NameTree) (p : ℕ) (x : Name × ℕ) : NameTree := T.setNames p (x ::ₘ T.names p)

/-- The name `x` is taken away. -/
def remove (T : NameTree) (p : ℕ) (x : Name × ℕ) : NameTree :=
  T.setNames p ((T.names p).erase x)

/-- A new directory `x.2` without names in it. -/
def graft (T : NameTree) (p : ℕ) (x : Name × ℕ) : NameTree :=
  { live := insert x.2 T.live
    parent := Function.update T.parent x.2 p
    names := Function.update (Function.update T.names x.2 0) p (x ::ₘ T.names p) }

/-- The directory `x.2` is taken out of the tree. -/
def prune (T : NameTree) (p : ℕ) (x : Name × ℕ) : NameTree :=
  { T.remove p x with live := T.live.erase x.2 }

/-- The directory `x.2` goes from `p` to `q`, where its name is `name`. -/
def move (T : NameTree) (p q : ℕ) (x : Name × ℕ) (name : Name) : NameTree :=
  { (T.remove p x).add q (name, x.2) with parent := Function.update T.parent x.2 q }

variable {T : NameTree} {root n p q c : ℕ} {isDir isDir' : ℕ → Bool} {x : Name × ℕ} {name : Name}
  {m : Multiset (Name × ℕ)}

@[simp] lemma setNames_live : (T.setNames p m).live = T.live := rfl

@[simp] lemma setNames_parent : (T.setNames p m).parent = T.parent := rfl

@[simp] lemma setNames_names_self : (T.setNames p m).names p = m := by
  simp only [setNames, Function.update_self]

lemma setNames_names_ne (h : q ≠ p) : (T.setNames p m).names q = T.names q := by
  simp only [setNames, Function.update_of_ne h]

lemma namesOf_cons (m : Multiset (Name × ℕ)) (x : Name × ℕ) (c : ℕ) :
    (x ::ₘ m).countP (fun x => x.2 = c) =
      m.countP (fun x => x.2 = c) + if x.2 = c then 1 else 0 :=
  Multiset.countP_cons _ _ _

lemma namesOf_add (T : NameTree) (p : ℕ) (x : Name × ℕ) (q c : ℕ) :
    (T.add p x).namesOf q c = T.namesOf q c + if q = p ∧ x.2 = c then 1 else 0 := by
  rcases eq_or_ne q p with rfl | hne
  · rw [namesOf, add, setNames_names_self, namesOf_cons, namesOf]
    simp only [true_and]
  · rw [namesOf, add, setNames_names_ne hne, if_neg fun h => hne h.1, Nat.add_zero, namesOf]

lemma namesOf_remove (hx : x ∈ T.names p) (q c : ℕ) :
    (T.remove p x).namesOf q c + (if q = p ∧ x.2 = c then 1 else 0) = T.namesOf q c := by
  rcases eq_or_ne q p with rfl | hne
  · rw [namesOf, remove, setNames_names_self, namesOf]
    conv_rhs => rw [← Multiset.cons_erase hx]
    rw [namesOf_cons]
    simp only [true_and]
  · rw [namesOf, remove, setNames_names_ne hne, if_neg fun h => hne h.1, Nat.add_zero, namesOf]

/-- Taking one name away and making another in its place. -/
lemma remove_add (T : NameTree) (p : ℕ) (x y : Name × ℕ) :
    (T.remove p x).add p y = T.setNames p (y ::ₘ (T.names p).erase x) := by
  rw [add, remove, setNames_names_self]
  simp only [setNames, Function.update_idem]

/-- The order does not matter. -/
lemma add_remove (hx : x ∈ T.names p) (q : ℕ) (y : Name × ℕ) :
    (T.add q y).remove p x = (T.remove p x).add q y := by
  rcases eq_or_ne q p with rfl | hne
  · rw [remove_add, remove, add, setNames_names_self, Multiset.erase_cons_tail_of_mem hx]
    simp only [setNames, Function.update_idem]
  · rw [remove, add, setNames_names_ne hne.symm, add, remove, setNames_names_ne hne]
    simp only [setNames, Function.update_comm hne]

/-- A new directory is a name and what is in it. -/
lemma graft_eq (T : NameTree) (h : x.2 ≠ p) :
    T.graft p x = { live := insert x.2 (T.add p x).live
                    parent := Function.update (T.add p x).parent x.2 p
                    names := Function.update (T.add p x).names x.2 0 } := by
  simp only [graft, add, setNames, Function.update_comm h]

lemma mem_remove {y : Name × ℕ} (hy : y ∈ (T.remove p x).names q) : y ∈ T.names q := by
  rcases eq_or_ne q p with rfl | hne
  · rw [remove, setNames_names_self] at hy
    exact Multiset.mem_of_mem_erase hy
  · rwa [remove, setNames_names_ne hne] at hy

lemma mem_remove_of_ne {y : Name × ℕ} (hy : y ∈ T.names q) (hne : q = p → y ≠ x) :
    y ∈ (T.remove p x).names q := by
  rcases eq_or_ne q p with rfl | hqp
  · rw [remove, setNames_names_self]
    exact (Multiset.mem_erase_of_ne (hne rfl)).mpr hy
  · rwa [remove, setNames_names_ne hqp]

lemma mem_add {y : Name × ℕ} (hy : y ∈ (T.add p x).names q) :
    (q = p ∧ y = x) ∨ y ∈ T.names q := by
  rcases eq_or_ne q p with rfl | hne
  · rw [add, setNames_names_self] at hy
    exact (Multiset.mem_cons.mp hy).imp (fun h => ⟨rfl, h⟩) id
  · rw [add, setNames_names_ne hne] at hy
    exact Or.inr hy

lemma mem_add_of_mem {y z : Name × ℕ} (hy : y ∈ T.names q) : y ∈ (T.add p z).names q := by
  rcases eq_or_ne q p with rfl | hne
  · rw [add, setNames_names_self]
    exact Multiset.mem_cons_of_mem hy
  · rwa [add, setNames_names_ne hne]

/-- A directory that stays where it is. -/
lemma move_eq (h : T.parent x.2 = q) :
    T.move p q x name = (T.remove p x).add q (name, x.2) := by
  rw [move, ← h, Function.update_eq_self]
  rfl

/-- A directory of the tree has a name in its parent. -/
lemma Ok.exists_name (h : T.Ok root isDir) (hc : c ∈ T.live) (hroot : c ≠ root) :
    ∃ x ∈ T.names (T.parent c), x.2 = c := by
  have hpos : 0 < T.namesOf (T.parent c) c := by
    rw [h.once (T.parent c) (h.parent_mem c hc) c hc, if_pos ⟨hroot, rfl⟩]
    exact Nat.one_pos
  exact Multiset.countP_pos.mp hpos

/-- The directory that a name in `p` stands for has `p` for its parent. -/
lemma Ok.parent_eq (h : T.Ok root isDir) (hp : p ∈ T.live) (hx : x ∈ T.names p)
    (hc : x.2 ∈ T.live) : x.2 ≠ root ∧ T.parent x.2 = p := by
  have hpos : 0 < T.namesOf p x.2 := Multiset.countP_pos.mpr ⟨x, hx, rfl⟩
  rw [h.once p hp x.2 hc] at hpos
  by_contra hnot
  rw [if_neg hnot] at hpos
  exact lt_irrefl 0 hpos

/-- A directory has no name besides `x`. -/
lemma Ok.only_name (h : T.Ok root isDir) (hp : p ∈ T.live) (hx : x ∈ T.names p)
    (hlive : x.2 ∈ T.live) (hq : q ∈ T.live) {y : Name × ℕ} (hy : y ∈ (T.remove p x).names q) :
    y.2 ≠ x.2 := by
  obtain ⟨hroot, hparent⟩ := h.parent_eq hp hx hlive
  intro heq
  have hcount := namesOf_remove hx q x.2
  have hpos : 0 < (T.remove p x).namesOf q x.2 := Multiset.countP_pos.mpr ⟨y, hy, heq⟩
  rw [h.once q hq x.2 hlive] at hcount
  simp only [and_true, hroot, ne_eq, not_false_eq_true, true_and, hparent, eq_comm (a := q)]
    at hcount
  split_ifs at hcount <;> omega

/-- A directory without names in it is nobody's parent. -/
lemma Ok.not_parent (h : T.Ok root isDir) (hempty : T.names n = 0) (hroot : n ≠ root)
    (hc : c ∈ T.live) : T.parent c ≠ n := by
  rintro rfl
  have hne : c ≠ root := by
    rintro rfl
    exact hroot h.parent_root
  obtain ⟨x, hx, -⟩ := h.exists_name hc hne
  rw [hempty] at hx
  exact Multiset.notMem_zero x hx

/-- The parents of a directory are directories. -/
lemma Ok.iterate_mem (h : T.Ok root isDir) (hc : c ∈ T.live) (k : ℕ) : T.parent^[k] c ∈ T.live := by
  induction k with
  | zero => exact hc
  | succ k ih =>
    rw [Function.iterate_succ_apply']
    exact h.parent_mem _ ih

/-- The parents on a way that `n` is not on do not change with the parent of `n`. -/
lemma iterate_update {f : ℕ → ℕ} (h : ∀ k, f^[k] c ≠ n) (k : ℕ) :
    (Function.update f n p)^[k] c = f^[k] c := by
  induction k with
  | zero => rfl
  | succ k ih =>
    rw [Function.iterate_succ_apply', Function.iterate_succ_apply', ih, Function.update_of_ne (h k)]

/-- Only the inodes that are named count. -/
lemma Ok.congr (h : T.Ok root isDir) (hlive : ∀ d ∈ T.live, isDir' d = isDir d)
    (hnames : ∀ p ∈ T.live, ∀ x ∈ T.names p, isDir' x.2 = isDir x.2) : T.Ok root isDir' :=
  ⟨h.root_mem, fun d hd => (hlive d hd).trans (h.dirs d hd), h.parent_mem, h.parent_root, h.nodup,
    h.proper, fun p hp x hx hdir => h.closed p hp x hx ((hnames p hp x hx).symm.trans hdir), h.once,
    h.rooted⟩

lemma nodup_remove (h : ((T.names q).map Prod.fst).Nodup) :
    (((T.remove p x).names q).map Prod.fst).Nodup := by
  rcases eq_or_ne q p with rfl | hne
  · rw [remove, setNames_names_self]
    exact Multiset.nodup_of_le (Multiset.map_le_map (Multiset.erase_le _ _)) h
  · rwa [remove, setNames_names_ne hne]

/-- A name that is taken away is there no longer. -/
lemma fresh_remove (h : ((T.names p).map Prod.fst).Nodup) (hx : x ∈ T.names p) :
    x.1 ∉ ((T.remove p x).names p).map Prod.fst := by
  rw [← Multiset.cons_erase hx, Multiset.map_cons, Multiset.nodup_cons] at h
  rw [remove, setNames_names_self]
  exact h.1

lemma nodup_add (h : ((T.names q).map Prod.fst).Nodup)
    (hfresh : x.1 ∉ (T.names p).map Prod.fst) : (((T.add p x).names q).map Prod.fst).Nodup := by
  rcases eq_or_ne q p with rfl | hne
  · rw [add, setNames_names_self, Multiset.map_cons, Multiset.nodup_cons]
    exact ⟨hfresh, h⟩
  · rwa [add, setNames_names_ne hne]

/-! ## Names of files -/

/-- A name for a file. -/
lemma Ok.add (h : T.Ok root isDir) (hfile : isDir x.2 = false) (hproper : Proper x.1)
    (hfresh : x.1 ∉ (T.names p).map Prod.fst) : (T.add p x).Ok root isDir := by
  refine ⟨h.root_mem, h.dirs, h.parent_mem, h.parent_root,
    fun q hq => nodup_add (h.nodup q hq) hfresh,
    fun q hq y hy => ?_, fun q hq y hy hdir => ?_, fun q hq c hc => ?_, h.rooted⟩
  · rcases mem_add hy with ⟨-, rfl⟩ | hy
    · exact hproper
    · exact h.proper q hq y hy
  · rcases mem_add hy with ⟨-, rfl⟩ | hy
    · rw [hfile] at hdir
      cases hdir
    · exact h.closed q hq y hy hdir
  · rw [namesOf_add, if_neg, Nat.add_zero]
    · exact h.once q hq c hc
    · rintro ⟨-, rfl⟩
      rw [h.dirs _ hc] at hfile
      cases hfile

/-- The name of a file is taken away. -/
lemma Ok.remove (h : T.Ok root isDir) (hx : x ∈ T.names p) (hfile : isDir x.2 = false) :
    (T.remove p x).Ok root isDir := by
  refine ⟨h.root_mem, h.dirs, h.parent_mem, h.parent_root, fun q hq => nodup_remove (h.nodup q hq),
    fun q hq y hy => h.proper q hq y (mem_remove hy),
    fun q hq y hy => h.closed q hq y (mem_remove hy), fun q hq c hc => ?_, h.rooted⟩
  have hcount := namesOf_remove hx q c
  rw [if_neg, Nat.add_zero] at hcount
  · rw [hcount]
    exact h.once q hq c hc
  · rintro ⟨-, rfl⟩
    rw [h.dirs _ hc] at hfile
    cases hfile

/-! ## Directories -/

/-- **A new directory.** -/
lemma Ok.graft (h : T.Ok root isDir) (hp : p ∈ T.live) (hx : x.2 ∉ T.live)
    (hdir : isDir x.2 = true) (hproper : Proper x.1) (hfresh : x.1 ∉ (T.names p).map Prod.fst)
    (hunnamed : ∀ q ∈ T.live, ∀ y ∈ T.names q, y.2 ≠ x.2) : (T.graft p x).Ok root isDir := by
  have hne : ∀ d ∈ T.live, d ≠ x.2 := by
    rintro d hd rfl
    exact hx hd
  have hparent : ∀ d ∈ T.live, (T.graft p x).parent d = T.parent d := fun d hd =>
    Function.update_of_ne (hne d hd) _ _
  have hparent' : (T.graft p x).parent x.2 = p := Function.update_self _ _ _
  have hself : (T.graft p x).names x.2 = 0 := by
    simp only [NameTree.graft, Function.update_of_ne (hne p hp).symm, Function.update_self]
  have hnames : ∀ q ∈ T.live, (T.graft p x).names q = (T.add p x).names q := by
    intro q hq
    rcases eq_or_ne q p with rfl | hqp
    · simp only [NameTree.graft, NameTree.add, setNames, Function.update_self]
    · simp only [NameTree.graft, NameTree.add, setNames, Function.update_of_ne hqp,
        Function.update_of_ne (hne q hq)]
  refine ⟨Finset.mem_insert_of_mem h.root_mem, fun d hd => ?_, fun d hd => ?_, ?_, fun q hq => ?_,
    fun q hq y hy => ?_, fun q hq y hy hy' => ?_, fun q hq c hc => ?_, fun d hd => ?_⟩
  · rcases Finset.mem_insert.mp hd with rfl | hd
    · exact hdir
    · exact h.dirs d hd
  · apply Finset.mem_insert_of_mem
    rcases Finset.mem_insert.mp hd with rfl | hd
    · rw [hparent']
      exact hp
    · rw [hparent d hd]
      exact h.parent_mem d hd
  · rw [hparent root h.root_mem]
    exact h.parent_root
  · rcases Finset.mem_insert.mp hq with rfl | hq
    · rw [hself]
      exact Multiset.nodup_zero
    · rw [hnames q hq]
      exact nodup_add (h.nodup q hq) hfresh
  · rcases Finset.mem_insert.mp hq with rfl | hq
    · rw [hself] at hy
      exact absurd hy (Multiset.notMem_zero y)
    · rw [hnames q hq] at hy
      rcases mem_add hy with ⟨-, rfl⟩ | hy
      · exact hproper
      · exact h.proper q hq y hy
  · rcases Finset.mem_insert.mp hq with rfl | hq
    · rw [hself] at hy
      exact absurd hy (Multiset.notMem_zero y)
    · rw [hnames q hq] at hy
      rcases mem_add hy with ⟨-, rfl⟩ | hy
      · exact Finset.mem_insert_self _ _
      · exact Finset.mem_insert_of_mem (h.closed q hq y hy hy')
  · rcases Finset.mem_insert.mp hq with rfl | hq
    · -- the new directory is nobody's parent
      rw [namesOf, hself, Multiset.countP_zero, if_neg]
      rintro ⟨-, hc'⟩
      rcases Finset.mem_insert.mp hc with rfl | hc
      · rw [hparent'] at hc'
        exact hne p hp hc'
      · rw [hparent c hc] at hc'
        exact hne _ (h.parent_mem c hc) hc'
    · rw [namesOf, hnames q hq, ← namesOf, namesOf_add]
      rcases Finset.mem_insert.mp hc with rfl | hc
      · have hzero : T.namesOf q x.2 = 0 :=
          Multiset.countP_eq_zero.mpr fun y hy => hunnamed q hq y hy
        rw [hzero, Nat.zero_add, hparent']
        simp only [and_true, (hne root h.root_mem).symm, ne_eq, not_false_eq_true, true_and,
          eq_comm (a := q)]
      · rw [if_neg fun h => hne c hc h.2.symm, Nat.add_zero, hparent c hc]
        exact h.once q hq c hc
  · have hway : ∀ d ∈ T.live, ∃ k, (T.graft p x).parent^[k] d = root := by
      intro d hd
      obtain ⟨k, hk⟩ := h.rooted d hd
      exact ⟨k, (iterate_update (fun j => hne _ (h.iterate_mem hd j)) k).trans hk⟩
    rcases Finset.mem_insert.mp hd with rfl | hd
    · obtain ⟨k, hk⟩ := hway p hp
      exact ⟨k + 1, by rw [Function.iterate_succ_apply, hparent', hk]⟩
    · exact hway d hd

/-- **A directory without names in it is taken away.** -/
lemma Ok.prune (h : T.Ok root isDir) (hp : p ∈ T.live) (hx : x ∈ T.names p) (hlive : x.2 ∈ T.live)
    (hempty : T.names x.2 = 0) : (T.prune p x).Ok root isDir := by
  obtain ⟨hroot, -⟩ := h.parent_eq hp hx hlive
  refine ⟨Finset.mem_erase.mpr ⟨hroot.symm, h.root_mem⟩,
    fun d hd => h.dirs d (Finset.mem_of_mem_erase hd), fun d hd => ?_, h.parent_root,
    fun q hq => nodup_remove (h.nodup q (Finset.mem_of_mem_erase hq)),
    fun q hq y hy => h.proper q (Finset.mem_of_mem_erase hq) y (mem_remove hy),
    fun q hq y hy hdir => ?_, fun q hq c hc => ?_,
    fun d hd => h.rooted d (Finset.mem_of_mem_erase hd)⟩
  · have hd' := Finset.mem_of_mem_erase hd
    exact Finset.mem_erase.mpr ⟨h.not_parent hempty hroot hd', h.parent_mem d hd'⟩
  · have hq' := Finset.mem_of_mem_erase hq
    exact Finset.mem_erase.mpr ⟨h.only_name hp hx hlive hq' hy, h.closed q hq' y (mem_remove hy) hdir⟩
  · obtain ⟨hne, hc'⟩ := Finset.mem_erase.mp hc
    have hcount := namesOf_remove hx q c
    rw [if_neg fun h => hne h.2.symm, Nat.add_zero] at hcount
    exact hcount.trans (h.once q (Finset.mem_of_mem_erase hq) c hc')

/-- **A directory goes to another place**, which must not be below it. -/
lemma Ok.move (h : T.Ok root isDir) (hp : p ∈ T.live) (hq : q ∈ T.live) (hx : x ∈ T.names p)
    (hlive : x.2 ∈ T.live) (hproper : Proper name)
    (hfresh : name ∉ ((T.remove p x).names q).map Prod.fst)
    (hbelow : ∀ k, T.parent^[k] q ≠ x.2) :
    (T.move p q x name).Ok root isDir := by
  obtain ⟨hroot, hparent⟩ := h.parent_eq hp hx hlive
  have hself : (T.move p q x name).parent x.2 = q := Function.update_self _ _ _
  have hother : ∀ d, d ≠ x.2 → (T.move p q x name).parent d = T.parent d := fun d hd =>
    Function.update_of_ne hd _ _
  refine ⟨h.root_mem, h.dirs, fun d hd => ?_, ?_, fun r hr => ?_, fun r hr y hy => ?_,
    fun r hr y hy hdir => ?_, fun r hr c hc => ?_, fun d hd => ?_⟩
  · rcases eq_or_ne d x.2 with rfl | hd'
    · rw [hself]
      exact hq
    · rw [hother d hd']
      exact h.parent_mem d hd
  · rw [hother root hroot.symm]
    exact h.parent_root
  · exact nodup_add (nodup_remove (h.nodup r hr)) hfresh
  · rcases mem_add hy with ⟨-, rfl⟩ | hy
    · exact hproper
    · exact h.proper r hr y (mem_remove hy)
  · rcases mem_add hy with ⟨-, rfl⟩ | hy
    · exact hlive
    · exact h.closed r hr y (mem_remove hy) hdir
  · have hcount : (T.move p q x name).namesOf r c =
        (T.remove p x).namesOf r c + if r = q ∧ x.2 = c then 1 else 0 := namesOf_add _ _ _ _ _
    have hremove := namesOf_remove hx r c
    have honce := h.once r hr c hc
    rw [hcount]
    rcases eq_or_ne c x.2 with rfl | hne
    · rw [hself]
      simp only [and_true, hroot, ne_eq, not_false_eq_true, true_and, hparent, eq_comm (a := r)]
        at honce hremove ⊢
      split_ifs at honce hremove ⊢ <;> omega
    · rw [hother c hne, ← honce, ← hremove, if_neg fun h => hne h.2.symm,
        if_neg fun h => hne h.2.symm]
  · obtain ⟨j, hj⟩ := h.rooted q hq
    obtain ⟨k, hk⟩ := h.rooted d hd
    have hway : (T.move p q x name).parent^[j] q = root := (iterate_update hbelow j).trans hj
    clear hd
    induction k generalizing d with
    | zero => exact ⟨0, hk⟩
    | succ k ih =>
      rcases eq_or_ne d x.2 with rfl | hne
      · exact ⟨j + 1, by rw [Function.iterate_succ_apply, hself, hway]⟩
      · rw [Function.iterate_succ_apply] at hk
        obtain ⟨k', hk'⟩ := ih _ hk
        exact ⟨k' + 1, by rw [Function.iterate_succ_apply, hother d hne, hk']⟩

end NameTree

end Comp3301.Ext3301
