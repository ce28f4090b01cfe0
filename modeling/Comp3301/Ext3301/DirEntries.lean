import Comp3301.Lib.Splice
import Comp3301.Ext3301.DirPages

/-!
# The file system: entries of a directory page

The loops over the records of a page and the changes of a page (`a3/dir.c`), each against the live
entries of the page (`liveOf`).

* An entry never moves: making a new one splits a record or takes one that is not used, and deleting
  one lets the record before it grow over it.
* `findInPage_spec`, `gotIt_split`, `gotIt_reuse`, `deleteAt_spec`, `setLinkAt_spec`: on a tiled
  page the functions stay inside the page and leave it tiled, and the live entries are the old ones
  but for the one concerned.
-/

namespace Comp3301.Ext3301

open Comp3301.Lib

/-! ## Live entries -/

/-- A name, as it is on disk. -/
abbrev DiskName := List UInt8

/-- What an entry says: the name, the inode and the type. -/
structure Link where
  name : DiskName
  inode : ℕ
  fileType : UInt8
  deriving DecidableEq, Repr

/-- The entry of a record. -/
def linkAt (page : Page) (a : ℕ × Dirent) : Link :=
  ⟨slice page (a.1 + 8) a.2.nameLen, a.2.inode, a.2.fileType⟩

/-- The live entries among the records, with their places. -/
def liveOf (page : Page) (as : List (ℕ × Dirent)) : List (ℕ × Link) :=
  (as.filter fun a => a.2.inode ≠ 0).map fun a => (a.1, linkAt page a)

section live

variable {sb : DirSb} {page page' : Page} {limit p q : ℕ} {a : ℕ × Dirent}
  {as bs pre new post : List (ℕ × Dirent)}

@[simp] lemma liveOf_nil (page : Page) : liveOf page [] = [] := rfl

lemma liveOf_append (page : Page) (as bs : List (ℕ × Dirent)) :
    liveOf page (as ++ bs) = liveOf page as ++ liveOf page bs := by
  rw [liveOf, List.filter_append, List.map_append]
  rfl

lemma liveOf_cons (page : Page) (a : ℕ × Dirent) (as : List (ℕ × Dirent)) :
    liveOf page (a :: as) = liveOf page [a] ++ liveOf page as :=
  liveOf_append page [a] as

lemma liveOf_singleton (page : Page) (a : ℕ × Dirent) :
    liveOf page [a] = if a.2.inode ≠ 0 then [(a.1, linkAt page a)] else [] := by
  unfold liveOf
  split_ifs with h
  · rw [List.filter_singleton, decide_eq_true h]
    rfl
  · rw [List.filter_singleton, decide_eq_false h]
    rfl

/-- A live entry by its record. -/
lemma mem_liveOf {x : ℕ × Link} :
    x ∈ liveOf page as ↔ ∃ a ∈ as, a.2.inode ≠ 0 ∧ (a.1, linkAt page a) = x := by
  simp [liveOf, List.mem_map, List.mem_filter, and_assoc]

lemma linkAt_eq {de : Dirent} {name : DiskName} (h : slice page (p + 8) de.nameLen = name) :
    linkAt page (p, de) = ⟨name, de.inode, de.fileType⟩ := by
  subst h
  rfl

/-- The name of an entry is inside its record. -/
lemma linkAt_sameOn (h : SameOn page page' a.1 (a.1 + dirRecLen a.2.nameLen)) :
    linkAt page a = linkAt page' a := by
  have hroom := le_dirRecLen a.2.nameLen
  unfold linkAt
  rw [slice_sameOn (h.mono (by omega) (by omega))]

lemma liveOf_sameOn (h : Packed (slotAt page) p as q) (hok : ∀ a ∈ as, SlotOk sb a)
    (hsame : SameOn page page' p q) : liveOf page as = liveOf page' as := by
  apply List.map_congr_left
  intro a ha
  have hmem := (List.mem_filter.mp ha).1
  have hplace := place_of_mem h hmem
  have hroom := (hok a hmem).room
  rw [linkAt_sameOn (hsame.mono hplace.1 (by omega))]

lemma Tiled.around (h : Tiled sb page limit (pre ++ a :: post)) :
    ∀ b ∈ pre ++ post, SlotOk sb b := by
  intro b hb
  apply h.ok
  rcases List.mem_append.mp hb with hb | hb
  · exact List.mem_append_left _ hb
  · exact List.mem_append_right _ (List.mem_cons_of_mem _ hb)

/-- Some of the records of a page are replaced, the bytes outside of them being left alone. -/
lemma Tiled.rewrite (h : ∀ a ∈ pre ++ post, SlotOk sb a)
    (hpre : Packed (slotAt page) 0 pre p) (hpost : Packed (slotAt page) q post limit)
    (hbefore : SameOn page page' 0 p) (hafter : SameOn page page' q limit)
    (hnew : Packed (slotAt page') p new q) (hok : ∀ a ∈ new, SlotOk sb a) :
    Tiled sb page' limit (pre ++ (new ++ post)) ∧
      liveOf page' (pre ++ (new ++ post)) =
        liveOf page pre ++ (liveOf page' new ++ liveOf page post) := by
  have hokpre : ∀ a ∈ pre, SlotOk sb a := fun a ha => h a (List.mem_append_left _ ha)
  have hokpost : ∀ a ∈ post, SlotOk sb a := fun a ha => h a (List.mem_append_right _ ha)
  refine ⟨⟨?_, ?_⟩, ?_⟩
  · apply (packed_sameOn hpre hokpre hbefore).append
    exact hnew.append (packed_sameOn hpost hokpost hafter)
  · intro a ha
    rcases List.mem_append.mp ha with ha | ha
    · exact hokpre a ha
    · rcases List.mem_append.mp ha with ha | ha
      · exact hok a ha
      · exact hokpost a ha
  · rw [liveOf_append, liveOf_append, liveOf_sameOn hpre hokpre hbefore,
      liveOf_sameOn hpost hokpost hafter]

end live

/-! ## Searching -/

/-- `ext2_match`, for the record at `p`. -/
def dirMatch (page : Page) (p : ℕ) (de : Dirent) (name : DiskName) : Option Bool :=
  if name.length ≠ de.nameLen then some false
  else if de.inode = 0 then some false
  else (nameAt page p name.length).map fun xs => decide (xs = name)

/-- How the search in a page ends early: at a record of length zero, or at the entry. -/
inductive Find where
  | zeroLength
  | found (p : ℕ)
  deriving DecidableEq, Repr

/-- The body of the loop over a page in `ext2_find_entry`. -/
def findBody (page : Page) (name : DiskName) (a : ℕ × Dirent) (_ : Unit) :
    Option (Unit ⊕ Find) :=
  if a.2.recLen = 0 then some (.inr .zeroLength)
  else
    match dirMatch page a.1 a.2 name with
    | none => none
    | some true => some (.inr (.found a.1))
    | some false => some (.inl ())

/-- The loop over a page in `ext2_find_entry`: it goes on while an entry of the name has room. -/
def findInPage (page : Page) (limit : ℕ) (name : DiskName) : Option (Unit ⊕ Find) :=
  loopFor (recordRound (slotAt page) (limit + 1 - dirRecLen name.length) (findBody page name))
    (pageSize + 1) (0, ())

/-- An entry of that name. -/
def Names (page : Page) (name : DiskName) (a : ℕ × Dirent) : Prop :=
  a.2.inode ≠ 0 ∧ (linkAt page a).name = name

instance (page : Page) (name : DiskName) : DecidablePred (Names page name) :=
  fun _ => inferInstanceAs (Decidable (_ ∧ _))

section find

variable {sb : DirSb} {page : Page} {limit : ℕ} {a : ℕ × Dirent} {as : List (ℕ × Dirent)}
  {name : DiskName}

lemma Names.length_eq (h : Names page name a) : name.length = a.2.nameLen := by
  rw [← h.2, linkAt, length_slice]

/-- `ext2_match` in a record that lies inside the page. -/
lemma dirMatch_eq (hend : a.1 + a.2.len ≤ pageSize) (hroom : dirRecLen a.2.nameLen ≤ a.2.len) :
    dirMatch page a.1 a.2 name = some (decide (Names page name a)) := by
  have hname := le_dirRecLen a.2.nameLen
  unfold dirMatch
  split_ifs with hlen hinode
  · rw [decide_eq_false fun h => hlen h.length_eq]
  · rw [decide_eq_false fun h => h.1 hinode]
  · rw [nameAt, if_pos (by omega), Option.map_some, not_not.mp hlen]
    congr 1
    exact decide_eq_decide.mpr (and_iff_right hinode).symm

lemma findBody_eq (hend : a.1 + a.2.len ≤ pageSize) (hok : SlotOk sb a)
    (hraw : a.2.recLen = a.2.len) :
    findBody page name a () =
      if decide (Names page name a) then some (.inr (.found a.1)) else some (.inl ()) := by
  have hpos := hok.pos
  unfold findBody
  rw [if_neg (by omega), dirMatch_eq hend hok.room]
  by_cases h : Names page name a
  · rw [decide_eq_true h]
    rfl
  · rw [decide_eq_false h]
    rfl

/-- **The search finds the first live entry of the name.** -/
theorem findInPage_spec (name : DiskName) (h : Tiled sb page limit as)
    (hlimit : sb.chunkSize ∣ limit) (hpage : limit ≤ pageSize) :
    findInPage page limit name =
      some ((as.find? fun a => Names page name a).elim (.inl ()) fun a => .inr (.found a.1)) := by
  have hlength := le_dirRecLen name.length
  obtain ⟨as₁, as₂, m, rfl, hpass, hm, hleft, hright⟩ :=
    h.packed.exists_passes (show limit + 1 - dirRecLen name.length ≤ limit by omega)
  have hcount := hleft.length_le
  have hend := hright.le
  have hloop : findInPage page limit name = runOver (findBody page name) as₁ () :=
    recordLoop_cut hpass _ _ (by omega)
  have hbody : ∀ a ∈ as₁, findBody page name a () =
      if decide (Names page name a) then some (.inr (.found a.1)) else some (.inl ()) := by
    intro a ha
    have hok := h.ok a (List.mem_append_left _ ha)
    have hplace := place_of_mem hleft ha
    have hpos := hok.pos
    exact findBody_eq (by omega) hok (hok.recLen_eq (show a.1 < limit by omega) hlimit hpage)
  -- a record that begins too late is too short for the name
  have hrest : as₂.find? (fun a => Names page name a) = none := by
    rw [List.find?_eq_none]
    intro a ha hnames
    have hplace := place_of_mem hright ha
    have hroom := (h.ok a (List.mem_append_right _ ha)).room
    rw [← (of_decide_eq_true hnames).length_eq] at hroom
    omega
  rw [hloop, runOver_eq_find hbody, List.find?_append, hrest, Option.or_none]

end find

/-! ## Storing -/

/-- `de->rec_len = …`. -/
def setRecLen (page : Page) (p dlen : ℕ) : Option Page :=
  if p + 6 ≤ pageSize then some (setLeNat page (p + 4) 2 dlen) else none

/-- `de->inode = …`. -/
def setInum (page : Page) (p ino : ℕ) : Option Page :=
  if p + 4 ≤ pageSize then some (setLeNat page p 4 ino) else none

/-- `ext2_set_de_type`, of an inode of mode `mode`. -/
def setDeType (sb : DirSb) (page : Page) (p : ℕ) (mode : Mode) : Option Page :=
  if p + 8 ≤ pageSize then some (Function.update page (p + 7) (deType sb.filetype mode)) else none

/-- `de->name_len = namelen; memcpy (de->name, name, namelen);`. -/
def setName (page : Page) (p : ℕ) (name : DiskName) : Option Page :=
  if p + 8 + name.length ≤ pageSize then
    some (putBytes (Function.update page (p + 6) (UInt8.ofNat name.length)) (p + 8) name)
  else none

/-- The end of `ext2_add_link`: the name, the inode and the type of the record at `p`. -/
def fillEntry (sb : DirSb) (page : Page) (p : ℕ) (name : DiskName) (ino : ℕ) (mode : Mode) :
    Option Page := do
  let page ← setName page p name
  let page ← setInum page p ino
  setDeType sb page p mode

section store

variable {sb : DirSb} {page : Page} {p ino : ℕ} {name : DiskName} {mode : Mode}

/-- A record whose length is in place is filled. -/
lemma fillEntry_spec (sb : DirSb) (page : Page) (mode : Mode)
    (hend : p + dirRecLen name.length ≤ pageSize) (hname : name.length < 256)
    (hino : ino < 2 ^ 32) :
    ∃ page', fillEntry sb page p name ino mode = some page' ∧
      (∀ x y, y ≤ p ∨ p + dirRecLen name.length ≤ x → SameOn page page' x y) ∧
      direntAt page' p =
        some ⟨ino, leNat page (p + 4) 2, name.length, deType sb.filetype mode⟩ ∧
      slice page' (p + 8) name.length = name := by
  have hlen := le_dirRecLen name.length
  have hbyte : (UInt8.ofNat name.length).toNat = name.length := by
    rw [UInt8.toNat_ofNat', Nat.mod_eq_of_lt hname]
  refine ⟨Function.update (setLeNat (putBytes (Function.update page (p + 6)
      (UInt8.ofNat name.length)) (p + 8) name) p 4 ino) (p + 7) (deType sb.filetype mode),
    ?_, ?_, ?_, ?_⟩
  · simp only [fillEntry, setName, setInum, setDeType, Option.bind_eq_bind]
    rw [if_pos (by omega), Option.bind_some, if_pos (by omega), Option.bind_some,
      if_pos (by omega)]
  · intro x y hxy
    apply SameOn.symm
    apply (sameOn_update _ _ (by omega)).trans
    apply (sameOn_setLeNat _ _ (by omega)).trans
    apply (sameOn_putBytes _ (by omega)).trans
    exact sameOn_update _ _ (by omega)
  · unfold direntAt
    rw [if_pos (by omega)]
    congr 2
    · rw [leNat_update_of_disjoint _ _ (by omega), leNat_setLeNat _ _ (by omega)]
    · rw [leNat_update_of_disjoint _ _ (by omega), leNat_setLeNat_of_disjoint _ _ (by omega),
        leNat_putBytes_of_disjoint _ (by omega), leNat_update_of_disjoint _ _ (by omega)]
    · rw [Function.update_of_ne (by omega), setLeNat_of_disjoint _ _ (by omega),
        putBytes_of_disjoint _ (by omega), Function.update_self, hbyte]
    · rw [Function.update_self]
  · rw [slice_sameOn (sameOn_update _ _ (by omega)), slice_sameOn (sameOn_setLeNat _ _ (by omega)),
      slice_putBytes]

/-- A record whose length has been changed. -/
lemma direntAt_setRecLen {de : Dirent} {dlen : ℕ} (h : direntAt page p = some de)
    (hdlen : dlen < 2 ^ 16) :
    direntAt (setLeNat page (p + 4) 2 dlen) p = some { de with recLen := dlen } := by
  unfold direntAt at h ⊢
  split_ifs at h ⊢ with hp
  cases h
  congr 2
  · exact leNat_setLeNat_of_disjoint _ _ (by omega)
  · exact leNat_setLeNat _ _ (by omega)
  · rw [setLeNat_of_disjoint _ _ (by omega)]
  · rw [setLeNat_of_disjoint _ _ (by omega)]

/-- A record whose inode has been changed. -/
lemma direntAt_setInum {de : Dirent} (h : direntAt page p = some de) (hino : ino < 2 ^ 32) :
    direntAt (setLeNat page p 4 ino) p = some { de with inode := ino } := by
  unfold direntAt at h ⊢
  split_ifs at h ⊢ with hp
  cases h
  congr 2
  · exact leNat_setLeNat _ _ (by omega)
  · exact leNat_setLeNat_of_disjoint _ _ (by omega)
  · rw [setLeNat_of_disjoint _ _ (by omega)]
  · rw [setLeNat_of_disjoint _ _ (by omega)]

/-- A record whose type has been changed. -/
lemma direntAt_setDeType {de : Dirent} (h : direntAt page p = some de) (t : UInt8) :
    direntAt (Function.update page (p + 7) t) p = some { de with fileType := t } := by
  unfold direntAt at h ⊢
  split_ifs at h ⊢ with hp
  cases h
  congr 2
  · exact leNat_update_of_disjoint _ _ (by omega)
  · exact leNat_update_of_disjoint _ _ (by omega)
  · rw [Function.update_of_ne (by omega)]
  · rw [Function.update_self]

lemma recLen_of_direntAt {de : Dirent} (h : direntAt page p = some de) :
    leNat page (p + 4) 2 = de.recLen := by
  unfold direntAt at h
  split_ifs at h
  cases h
  rfl

/-- Lengths below `2 ^ 16` are stored as they are. -/
lemma recLenToDisk_eq {len : ℕ} (h : len ≤ pageSize) : recLenToDisk len = some len := by
  unfold pageSize at h
  rw [recLenToDisk, if_neg (by omega), if_pos (by omega)]

lemma len_mk {ino recLen nameLen : ℕ} {t : UInt8} (h : recLen ≤ pageSize) :
    (Dirent.mk ino recLen nameLen t).len = recLen := by
  unfold pageSize at h
  exact if_neg (by simp only [maxRecLen]; omega)

end store

/-! ## Making an entry -/

/-- `ext2_add_link` from `got_it` on, in the record at `p`; `nameLen` bytes of it are taken if it is
used. -/
def gotIt (sb : DirSb) (page : Page) (p nameLen recLen : ℕ) (name : DiskName) (ino : ℕ)
    (mode : Mode) : Option Page := do
  let de ← direntAt page p
  if de.inode ≠ 0 then
    let dlen₁ ← recLenToDisk (recLen - nameLen)
    let page ← setRecLen page (p + nameLen) dlen₁
    let dlen ← recLenToDisk nameLen
    let page ← setRecLen page p dlen
    fillEntry sb page (p + nameLen) name ino mode
  else fillEntry sb page p name ino mode

/-- What a new entry has to be. -/
structure LinkOk (sb : DirSb) (name : DiskName) (ino : ℕ) : Prop where
  name_ne : name ≠ []
  length_lt : name.length < 256
  ino_ne : ino ≠ 0
  ino_le : ino ≤ sb.inodesCount

lemma LinkOk.ino_lt {sb : DirSb} {name : DiskName} {ino : ℕ} (h : LinkOk sb name ino) :
    ino < 2 ^ 32 := h.ino_le.trans_lt sb.count_lt

lemma LinkOk.le_dirRecLen {sb : DirSb} {name : DiskName} {ino : ℕ} (h : LinkOk sb name ino) :
    dirRecLen 1 ≤ dirRecLen name.length :=
  dirRecLen_mono (List.length_pos_of_ne_nil h.name_ne)

section gotIt

variable {sb : DirSb} {page : Page} {limit ino : ℕ} {a : ℕ × Dirent}
  {pre post : List (ℕ × Dirent)} {name : DiskName} {mode : Mode}

/-- In a record that is not used. -/
lemma gotIt_reuse (mode : Mode) (h : Tiled sb page limit (pre ++ a :: post))
    (hlimit : sb.chunkSize ∣ limit)
    (hpage : limit ≤ pageSize) (hlink : LinkOk sb name ino) (hfree : a.2.inode = 0)
    (hroom : dirRecLen name.length ≤ a.2.len) (nameLen : ℕ) :
    ∃ page' as', gotIt sb page a.1 nameLen a.2.len name ino mode = some page' ∧
      Tiled sb page' limit as' ∧
      liveOf page' as' = liveOf page pre ++
        ([(a.1, ⟨name, ino, deType sb.filetype mode⟩)] ++ liveOf page post) := by
  obtain ⟨hpre, hde, hpos, hpost⟩ := packed_middle h.packed
  have hok := h.ok a (by simp)
  have hend := hpost.le
  have hraw := hok.recLen_eq (by omega) hlimit hpage
  have hrec := (recLen_of_direntAt hde).trans hraw
  obtain ⟨page', hfill, hsame, hde', hname⟩ := fillEntry_spec sb page mode
    (show a.1 + dirRecLen name.length ≤ pageSize by omega) hlink.length_lt hlink.ino_lt
  rw [hrec] at hde'
  have hlen : Dirent.len ⟨ino, a.2.len, name.length, deType sb.filetype mode⟩ = a.2.len :=
    len_mk (by omega)
  have hslot : SlotOk sb (a.1, ⟨ino, a.2.len, name.length, deType sb.filetype mode⟩) := by
    refine ⟨?_, ?_, ?_, ?_, hlink.ino_le⟩
    all_goals simp only [hlen]
    · exact hok.minimal
    · exact hok.aligned
    · exact hroom
    · exact hok.inChunk
  obtain ⟨htiled, hlive⟩ := Tiled.rewrite h.around hpre hpost
    (hsame _ _ (Or.inl (le_refl _))) (hsame _ _ (Or.inr (by omega)))
    (packed_one hde' hlen hpos) (by simpa using hslot)
  refine ⟨page', _, ?_, htiled, ?_⟩
  · simp only [gotIt, hde, Option.bind_eq_bind, Option.bind_some, hfree, ne_eq, not_true_eq_false,
      if_false, hfill]
  · rw [hlive, liveOf_singleton, if_pos hlink.ino_ne, linkAt_eq hname]

/-- Behind the name of a record that is used. -/
lemma gotIt_split (mode : Mode) (h : Tiled sb page limit (pre ++ a :: post))
    (hpage : limit ≤ pageSize) (hlink : LinkOk sb name ino) (hused : a.2.inode ≠ 0)
    (hnamed : a.2.nameLen ≠ 0) (hroom : dirRecLen a.2.nameLen + dirRecLen name.length ≤ a.2.len) :
    ∃ page' as', gotIt sb page a.1 (dirRecLen a.2.nameLen) a.2.len name ino mode = some page' ∧
      Tiled sb page' limit as' ∧
      liveOf page' as' = liveOf page pre ++ ((a.1, linkAt page a) ::
        [(a.1 + dirRecLen a.2.nameLen, ⟨name, ino, deType sb.filetype mode⟩)] ++
          liveOf page post) := by
  obtain ⟨hpre, hde, hpos, hpost⟩ := packed_middle h.packed
  have hok := h.ok a (by simp)
  have hend := hpost.le
  have hmin := hlink.le_dirRecLen
  have hmin' := dirRecLen_mono (Nat.one_le_iff_ne_zero.mpr hnamed)
  rw [dirRecLen_one] at hmin hmin'
  set nl := dirRecLen a.2.nameLen with hnl
  have hnamelen : a.2.nameLen + 8 ≤ nl := le_dirRecLen _
  have hdlen : a.2.len ≤ pageSize := by omega
  have hsmall : a.2.len < 2 ^ 16 := by
    unfold pageSize at hdlen
    omega
  -- the two lengths are written, then the new record is filled
  set page₁ := setLeNat page (a.1 + nl + 4) 2 (a.2.len - nl) with hpage₁
  set page₂ := setLeNat page₁ (a.1 + 4) 2 nl with hpage₂
  have hde₂ : direntAt page₂ a.1 = some { a.2 with recLen := nl } := by
    apply direntAt_setRecLen _ (by omega)
    rw [← hde]
    exact direntAt_congr (sameOn_setLeNat _ _ (by omega))
  have hrec : leNat page₂ (a.1 + nl + 4) 2 = a.2.len - nl := by
    rw [hpage₂, leNat_setLeNat_of_disjoint _ _ (by omega), hpage₁, leNat_setLeNat _ _ (by omega)]
  obtain ⟨page', hfill, hsame, hde', hname⟩ := fillEntry_spec sb page₂ mode
    (show a.1 + nl + dirRecLen name.length ≤ pageSize by omega) hlink.length_lt hlink.ino_lt
  rw [hrec] at hde'
  have hout : ∀ x y, y ≤ a.1 + 4 ∨ a.1 + a.2.len ≤ x ∨ a.1 + 6 ≤ x ∧ y ≤ a.1 + nl →
      SameOn page page' x y := by
    intro x y hxy
    apply ((sameOn_setLeNat page _ _).symm).trans
    · apply ((sameOn_setLeNat page₁ _ _).symm).trans (hsame x y _)
      all_goals omega
    · omega
  have hlen : Dirent.len ⟨ino, a.2.len - nl, name.length, deType sb.filetype mode⟩ =
      a.2.len - nl := len_mk (by omega)
  have hlen₀ : Dirent.len { a.2 with recLen := nl } = nl := len_mk (by omega)
  have hslot : SlotOk sb
      (a.1 + nl, ⟨ino, a.2.len - nl, name.length, deType sb.filetype mode⟩) := by
    refine ⟨?_, ?_, ?_, ?_, hlink.ino_le⟩
    all_goals simp only [hlen]
    · rw [dirRecLen_one]
      omega
    · have := hok.aligned
      have := dirRecLen_mod a.2.nameLen
      omega
    · omega
    · exact hok.part_inChunk (by omega) (by omega) (by omega)
  have hslot₀ : SlotOk sb (a.1, { a.2 with recLen := nl }) := by
    refine ⟨?_, ?_, ?_, ?_, hok.inumber⟩
    all_goals simp only [hlen₀]
    · rw [dirRecLen_one]
      omega
    · exact dirRecLen_mod _
    · exact le_of_eq hnl.symm
    · exact hok.part_inChunk (le_refl _) (by omega) (by omega)
  have hde₀ : direntAt page' a.1 = some { a.2 with recLen := nl } := by
    rw [← hde₂]
    exact (direntAt_congr (hsame _ _ (Or.inl (by omega)))).symm
  have hnew : Packed (slotAt page') a.1
      [(a.1, { a.2 with recLen := nl }),
        (a.1 + nl, ⟨ino, a.2.len - nl, name.length, deType sb.filetype mode⟩)]
      (a.1 + a.2.len) := by
    have hlast := packed_one hde' hlen (by omega)
    rw [show a.1 + nl + (a.2.len - nl) = a.1 + a.2.len by omega] at hlast
    exact (packed_one hde₀ hlen₀ (by omega)).append hlast
  obtain ⟨htiled, hlive⟩ := Tiled.rewrite h.around hpre hpost
    (hout _ _ (Or.inl (by omega))) (hout _ _ (Or.inr (Or.inl (le_refl _)))) hnew
    (by simpa using ⟨hslot₀, hslot⟩)
  refine ⟨page', _, ?_, htiled, ?_⟩
  · simp only [gotIt, hde, Option.bind_eq_bind, Option.bind_some]
    rw [if_pos hused, recLenToDisk_eq (by omega), recLenToDisk_eq (by omega)]
    simp only [Option.bind_some, setRecLen]
    rw [if_pos (by omega)]
    simp only [Option.bind_some]
    rw [if_pos (by omega)]
    exact hfill
  · have hlink₀ : linkAt page' (a.1, { a.2 with recLen := nl }) = linkAt page a := by
      unfold linkAt
      rw [slice_sameOn (hout (a.1 + 8) (a.1 + 8 + a.2.nameLen) (by omega))]
    have hlink₁ : linkAt page'
        (a.1 + nl, ⟨ino, a.2.len - nl, name.length, deType sb.filetype mode⟩) =
          ⟨name, ino, deType sb.filetype mode⟩ := linkAt_eq hname
    rw [hlive, liveOf_cons, liveOf_singleton, liveOf_singleton, if_pos hused,
      if_pos hlink.ino_ne, hlink₀, hlink₁]
    rfl

/-- A new chunk with one record that is not used: what `ext2_add_link` makes of the memory behind
the end of the directory. -/
lemma tiled_newChunk {as : List (ℕ × Dirent)} (h : Tiled sb page limit as)
    (hlimit : sb.chunkSize ∣ limit) (hpage : limit + sb.chunkSize ≤ pageSize) :
    ∃ dlen page₁ page₂ de, recLenToDisk sb.chunkSize = some dlen ∧
      setRecLen page limit dlen = some page₁ ∧ setInum page₁ limit 0 = some page₂ ∧
      de.inode = 0 ∧ de.len = sb.chunkSize ∧
      Tiled sb page₂ (limit + sb.chunkSize) (as ++ [(limit, de)]) ∧
      liveOf page₂ as = liveOf page as := by
  have hchunk := sb.le_chunkSize
  have hsmall : sb.chunkSize < 2 ^ 16 := by
    unfold pageSize at hpage
    omega
  set page₁ := setLeNat page (limit + 4) 2 sb.chunkSize with hpage₁
  set page₂ := setLeNat page₁ limit 4 0 with hpage₂
  have hsame : SameOn page page₂ 0 limit := by
    apply ((sameOn_setLeNat page _ _).symm).trans ((sameOn_setLeNat page₁ _ _).symm)
    all_goals omega
  obtain ⟨de, hde⟩ : ∃ de, direntAt page limit = some de := by
    rw [direntAt, if_pos (by omega)]
    exact ⟨_, rfl⟩
  have hde₂ : direntAt page₂ limit = some { de with recLen := sb.chunkSize, inode := 0 } :=
    direntAt_setInum (direntAt_setRecLen hde hsmall) (by norm_num)
  have hlen : Dirent.len { de with recLen := sb.chunkSize, inode := 0 } = sb.chunkSize :=
    len_mk (by omega)
  have hname : de.nameLen ≤ 255 := by
    unfold direntAt at hde
    split_ifs at hde
    obtain rfl := Option.some.inj hde
    exact Nat.le_of_lt_succ (UInt8.toNat_lt _)
  have hslot : SlotOk sb (limit, { de with recLen := sb.chunkSize, inode := 0 }) := by
    refine ⟨?_, ?_, ?_, ?_, Nat.zero_le _⟩
    all_goals simp only [hlen]
    · rw [dirRecLen_one]
      omega
    · exact Nat.mod_eq_zero_of_dvd sb.four_dvd_chunkSize
    · have := dirRecLen_le hname
      omega
    · obtain ⟨c, rfl⟩ := hlimit
      rw [Nat.add_sub_assoc sb.chunkSize_pos, Nat.mul_add_div sb.chunkSize_pos,
        Nat.mul_div_cancel_left _ sb.chunkSize_pos,
        Nat.div_eq_of_lt (Nat.sub_lt sb.chunkSize_pos Nat.one_pos), Nat.add_zero]
  refine ⟨sb.chunkSize, page₁, page₂, _, recLenToDisk_eq (by omega), ?_, ?_, rfl, hlen, ⟨?_, ?_⟩,
    (liveOf_sameOn h.packed h.ok hsame).symm⟩
  · rw [setRecLen, if_pos (by omega)]
  · rw [setInum, if_pos (by omega)]
  · exact (packed_sameOn h.packed h.ok hsame).append (packed_one hde₂ hlen (by omega))
  · intro b hb
    rcases List.mem_append.mp hb with hb | hb
    · exact h.ok b hb
    · rw [List.mem_singleton.mp hb]
      exact hslot

end gotIt

/-! ### Looking for room -/

/-- How the search of `ext2_add_link` in a page ends: nothing in the page, the end of the directory,
an entry of the name, a record of length zero, or `got_it`. -/
inductive AddScan where
  | full
  | atEnd (p : ℕ)
  | eexist
  | eio
  | gotIt (p nameLen recLen : ℕ)
  deriving DecidableEq, Repr

/-- A round of the loop over a page in `ext2_add_link`. -/
def addRound (page : Page) (dirEnd : ℕ) (name : DiskName) (p : ℕ) : Option (ℕ ⊕ AddScan) :=
  let reclen := dirRecLen name.length
  if p + reclen ≤ pageSize then
    if p = dirEnd then some (.inr (.atEnd p))
    else
      match direntAt page p with
      | none => none
      | some de =>
          if de.recLen = 0 then some (.inr .eio)
          else
            match dirMatch page p de name with
            | none => none
            | some true => some (.inr .eexist)
            | some false =>
                let nameLen := dirRecLen de.nameLen
                -- `rec_len` is an `unsigned short`
                let recLen := de.len % 2 ^ 16
                if de.inode = 0 ∧ reclen ≤ recLen ∨ nameLen + reclen ≤ recLen then
                  some (.inr (.gotIt p nameLen recLen))
                else some (.inl (p + recLen))
  else some (.inr .full)

/-- Room in a record, behind its name if it is used. -/
def HasRoom (a : ℕ × Dirent) (reclen : ℕ) : Prop :=
  a.2.inode = 0 ∧ reclen ≤ a.2.len ∨ dirRecLen a.2.nameLen + reclen ≤ a.2.len

/-- What the search in a page comes to. -/
def AddScan.Finds (page : Page) (name : DiskName) (limit : ℕ) (as : List (ℕ × Dirent)) :
    AddScan → Prop
  | full => limit = pageSize
  | atEnd p => p = limit ∧ limit < pageSize
  | eexist => ∃ a ∈ as, Names page name a
  | eio => False
  | gotIt p nameLen recLen => ∃ pre a post, as = pre ++ a :: post ∧ p = a.1 ∧
      nameLen = dirRecLen a.2.nameLen ∧ recLen = a.2.len ∧ HasRoom a (dirRecLen name.length)

/-- **Making an entry in a record that has room.** -/
theorem gotIt_page {sb : DirSb} {page : Page} {limit ino : ℕ} {a : ℕ × Dirent}
    {pre post : List (ℕ × Dirent)} {name : DiskName} (mode : Mode)
    (h : Tiled sb page limit (pre ++ a :: post)) (hlimit : sb.chunkSize ∣ limit)
    (hpage : limit ≤ pageSize) (hlink : LinkOk sb name ino)
    (hroom : HasRoom a (dirRecLen name.length)) (hnamed : a.2.inode ≠ 0 → a.2.nameLen ≠ 0) :
    ∃ page' as' pos,
      gotIt sb page a.1 (dirRecLen a.2.nameLen) a.2.len name ino mode = some page' ∧
      Tiled sb page' limit as' ∧
      Splice [] [(pos, ⟨name, ino, deType sb.filetype mode⟩)] (liveOf page (pre ++ a :: post))
        (liveOf page' as') := by
  rw [liveOf_append, liveOf_cons, liveOf_singleton]
  by_cases hused : a.2.inode = 0
  · have hbig : dirRecLen name.length ≤ a.2.len := by
      rcases hroom with ⟨-, hroom⟩ | hroom <;> omega
    obtain ⟨page', as', hgot, has', hlive⟩ :=
      gotIt_reuse mode h hlimit hpage hlink hused hbig (dirRecLen a.2.nameLen)
    refine ⟨page', as', a.1, hgot, has', _, _, ?_, hlive⟩
    rw [if_neg (not_not.mpr hused)]
  · have hsplit : dirRecLen a.2.nameLen + dirRecLen name.length ≤ a.2.len :=
      hroom.resolve_left fun hfree => hused hfree.1
    obtain ⟨page', as', hgot, has', hlive⟩ :=
      gotIt_split mode h hpage hlink hused (hnamed hused) hsplit
    refine ⟨page', as', a.1 + dirRecLen a.2.nameLen, hgot, has',
      liveOf page pre ++ [(a.1, linkAt page a)], liveOf page post, ?_, ?_⟩
    · rw [if_pos hused, List.append_assoc, List.nil_append]
    · rw [hlive]
      simp

section scan

variable {sb : DirSb} {page : Page} {limit p : ℕ} {a : ℕ × Dirent} {as : List (ℕ × Dirent)}
  {name : DiskName} {r : AddScan}

lemma AddScan.Finds.cons (h : r.Finds page name limit as) (a : ℕ × Dirent) :
    r.Finds page name limit (a :: as) := by
  cases r with
  | full => exact h
  | atEnd p => exact h
  | eexist =>
      obtain ⟨b, hb, hnames⟩ := h
      exact ⟨b, List.mem_cons_of_mem a hb, hnames⟩
  | eio => exact h
  | gotIt p nameLen recLen =>
      obtain ⟨pre, b, post, rfl, hb⟩ := h
      exact ⟨a :: pre, b, post, rfl, hb⟩

/-- A round at a record. -/
lemma addRound_cases (as : List (ℕ × Dirent)) (hde : direntAt page a.1 = some a.2)
    (hok : SlotOk sb a) (hraw : a.2.recLen = a.2.len) (hpage : a.1 + a.2.len ≤ pageSize)
    (hfits : a.1 + dirRecLen name.length ≤ pageSize) (hne : a.1 ≠ limit) :
    addRound page limit name a.1 = some (.inl (a.1 + a.2.len)) ∨
      ∃ r, addRound page limit name a.1 = some (.inr r) ∧ r.Finds page name limit (a :: as) := by
  have hpos := hok.pos
  have hmod : a.2.len % 2 ^ 16 = a.2.len := by
    unfold pageSize at hpage
    exact Nat.mod_eq_of_lt (by omega)
  unfold addRound
  simp only [if_pos hfits, if_neg hne, hde, if_neg (show a.2.recLen ≠ 0 by omega),
    dirMatch_eq hpage hok.room, hmod]
  by_cases hnames : Names page name a
  · rw [decide_eq_true hnames]
    exact Or.inr ⟨.eexist, rfl, a, List.mem_cons_self, hnames⟩
  · rw [decide_eq_false hnames]
    by_cases hroom : HasRoom a (dirRecLen name.length)
    · refine Or.inr ⟨.gotIt a.1 (dirRecLen a.2.nameLen) a.2.len, ?_, [], a, as, rfl, rfl, rfl,
        rfl, hroom⟩
      exact if_pos hroom
    · exact Or.inl (if_neg hroom)

/-- The search in the part of a page from `p` on. -/
lemma addLoop_from (h : Packed (slotAt page) p as limit) (hok : ∀ a ∈ as, SlotOk sb a)
    (hlimit : sb.chunkSize ∣ limit) (hpage : limit ≤ pageSize) (hname : name.length < 256) {n : ℕ}
    (hn : as.length < n) :
    ∃ r, loopFor (addRound page limit name) n p = some (r : AddScan) ∧
      r.Finds page name limit as := by
  -- before the end of the page there is room for another chunk
  have hreclen := dirRecLen_le (Nat.le_of_lt_succ hname)
  have hchunk := sb.le_chunkSize
  have hlast : limit ≠ pageSize → limit + dirRecLen name.length ≤ pageSize := by
    intro hne
    obtain ⟨c, rfl⟩ := hlimit
    obtain ⟨e, he⟩ := sb.chunkSize_dvd
    have hce : c < e := by
      rw [he] at hne hpage
      exact lt_of_le_of_ne (Nat.le_of_mul_le_mul_left hpage sb.chunkSize_pos)
        (fun hce => hne (by rw [hce]))
    have hmul : sb.chunkSize * (c + 1) ≤ sb.chunkSize * e := Nat.mul_le_mul_left _ hce
    rw [← he, Nat.mul_add, Nat.mul_one] at hmul
    omega
  induction as generalizing p n with
  | nil =>
      obtain rfl := h.nil_inv
      obtain ⟨n, rfl⟩ := Nat.exists_eq_succ_of_ne_zero (Nat.ne_zero_of_lt hn)
      by_cases hfits : p + dirRecLen name.length ≤ pageSize
      · have hround : addRound page p name p = some (.inr (.atEnd p)) := by
          simp only [addRound, if_pos hfits, if_true]
        have hreclen' := Comp3301.Ext3301.le_dirRecLen name.length
        exact ⟨.atEnd p, loopFor_stop hround n, rfl, by omega⟩
      · have hround : addRound page p name p = some (.inr .full) := by
          simp only [addRound, if_neg hfits]
        exact ⟨.full, loopFor_stop hround n, not_imp_comm.mp hlast hfits⟩
  | cons a as ih =>
      obtain ⟨n, rfl⟩ := Nat.exists_eq_succ_of_ne_zero (Nat.ne_zero_of_lt hn)
      obtain ⟨hleft, hde, hpos, hright⟩ :=
        packed_middle (show Packed (slotAt page) p ([] ++ a :: as) limit from h)
      obtain rfl := hleft.nil_inv
      have hend := hright.le
      have hoka := hok a List.mem_cons_self
      by_cases hfits : a.1 + dirRecLen name.length ≤ pageSize
      · have hraw := hoka.recLen_eq (show a.1 < limit by omega) hlimit hpage
        rcases addRound_cases as hde hoka hraw (by omega) hfits
          (show a.1 ≠ limit by omega) with hround | ⟨r, hround, hr⟩
        · obtain ⟨r, hloop, hr⟩ := ih hright (fun b hb => hok b (List.mem_cons_of_mem a hb))
            (Nat.lt_of_succ_lt_succ hn)
          exact ⟨r, by rw [loopFor_next hround, hloop], hr.cons a⟩
        · exact ⟨r, loopFor_stop hround n, hr⟩
      · have hround : addRound page limit name a.1 = some (.inr .full) := by
          simp only [addRound, if_neg hfits]
        refine ⟨.full, loopFor_stop hround n, not_imp_comm.mp hlast ?_⟩
        omega

/-- **What `ext2_add_link` finds in a page.** -/
theorem addLoop_spec (name : DiskName) (h : Tiled sb page limit as) (hlimit : sb.chunkSize ∣ limit)
    (hpage : limit ≤ pageSize) (hname : name.length < 256) :
    ∃ r, loopFor (addRound page limit name) (pageSize + 1) 0 = some (r : AddScan) ∧
      r.Finds page name limit as := by
  have hcount := h.packed.length_le
  exact addLoop_from h.packed h.ok hlimit hpage hname (by omega)

end scan

/-! ## Redirecting and deleting an entry -/

/-- `ext2_set_link`, for the record at `p`. -/
def setLinkAt (sb : DirSb) (page : Page) (p ino : ℕ) (mode : Mode) : Option Page := do
  let page ← setInum page p ino
  setDeType sb page p mode

/-- How the loop of `ext2_delete_entry` ends early: at a record of length zero. -/
def deleteBody (a : ℕ × Dirent) (_ : Option ℕ) : Option (Option ℕ ⊕ Unit) :=
  if a.2.recLen = 0 then some (.inr ()) else some (.inl (some a.1))

/-- `ext2_delete_entry`, for the record at `p`: the page and what is to be written of it, or that a
record has length zero. -/
def deleteAt (sb : DirSb) (page : Page) (p : ℕ) : Option (Option (Page × ℕ × ℕ)) := do
  let start := p / sb.chunkSize * sb.chunkSize
  let dir ← direntAt page p
  let stop := p + dir.len
  match ← loopFor (recordRound (slotAt page) p deleteBody) (pageSize + 1) (start, none) with
  | .inr () => some none
  | .inl pde =>
      let page ←
        match pde with
        | some q => do
            let dlen ← recLenToDisk (stop - q)
            setRecLen page q dlen
        | none => some page
      let page ← setInum page p 0
      some (some (page, pde.getD start, stop))

section delete

variable {sb : DirSb} {page : Page} {limit ino : ℕ} {a b : ℕ × Dirent}
  {as pre post : List (ℕ × Dirent)} {mode : Mode}

/-- **Redirecting an entry.** -/
theorem setLinkAt_spec (mode : Mode) (h : Tiled sb page limit (pre ++ a :: post))
    (hpage : limit ≤ pageSize) (hino : ino ≠ 0) (hle : ino ≤ sb.inodesCount) :
    ∃ page' a', setLinkAt sb page a.1 ino mode = some page' ∧
      Tiled sb page' limit (pre ++ ([a'] ++ post)) ∧ a'.2.nameLen = a.2.nameLen ∧
      liveOf page' (pre ++ ([a'] ++ post)) = liveOf page pre ++
        ([(a.1, { linkAt page a with inode := ino, fileType := deType sb.filetype mode })] ++
          liveOf page post) := by
  obtain ⟨hpre, hde, hpos, hpost⟩ := packed_middle h.packed
  have hok := h.ok a (by simp)
  have hend := hpost.le
  have hmin := hok.minimal
  rw [dirRecLen_one] at hmin
  set page₁ := setLeNat page a.1 4 ino with hpage₁
  set page' := Function.update page₁ (a.1 + 7) (deType sb.filetype mode) with hpage'
  set de : Dirent := { a.2 with inode := ino, fileType := deType sb.filetype mode } with hde_def
  have hde' : direntAt page' a.1 = some de :=
    direntAt_setDeType (direntAt_setInum hde (hle.trans_lt sb.count_lt)) _
  have hout : ∀ x y, y ≤ a.1 ∨ a.1 + 8 ≤ x → SameOn page page' x y := by
    intro x y hxy
    apply ((sameOn_setLeNat page _ _).symm).trans ((sameOn_update page₁ _ _).symm)
    all_goals omega
  have hslot : SlotOk sb (a.1, de) := ⟨hok.minimal, hok.aligned, hok.room, hok.inChunk, hle⟩
  obtain ⟨htiled, hlive⟩ := Tiled.rewrite h.around hpre hpost
    (hout _ _ (Or.inl (le_refl _))) (hout _ _ (Or.inr (by omega))) (packed_one hde' rfl hpos)
    (by simpa using hslot)
  refine ⟨page', (a.1, de), ?_, htiled, rfl, ?_⟩
  · simp only [setLinkAt, setInum, setDeType, Option.bind_eq_bind]
    rw [if_pos (by omega), Option.bind_some, if_pos (by omega)]
  · have hname : slice page' (a.1 + 8) de.nameLen = slice page (a.1 + 8) a.2.nameLen :=
      slice_sameOn (hout _ _ (Or.inr (le_refl _))).symm
    rw [hlive, liveOf_singleton, if_pos hino, linkAt_eq hname]
    rfl

/-- A loop over records that end before a chunk. -/
lemma passes_le {p q c : ℕ} (h : Passes (slotAt page) c p as q) (hok : ∀ a ∈ as, SlotOk sb a)
    (hc : sb.chunkSize ∣ c) (hp : p ≤ c) : q ≤ c := by
  induction h with
  | stop _ => exact hp
  | @next p len q a as hlt head pos tail ih =>
      apply ih (fun b hb => hok b (List.mem_cons_of_mem _ hb))
      obtain ⟨rfl, rfl, -⟩ := slotAt_eq_some_iff.mp head
      exact (hok a List.mem_cons_self).end_le hlt hc

/-- No record is so short that a loop that stops one before the end would miss it. -/
lemma passes_short {p q : ℕ} (h : Packed (slotAt page) p as q) (hok : ∀ a ∈ as, SlotOk sb a) :
    Passes (slotAt page) (q + 1 - dirRecLen 1) p as q := by
  have hle : q + 1 - dirRecLen 1 ≤ q := by
    rw [dirRecLen_one]
    omega
  induction h with
  | nil p => exact Passes.stop hle
  | @cons p len q a as head pos tail ih =>
      obtain ⟨rfl, rfl, -⟩ := slotAt_eq_some_iff.mp head
      have hmin := (hok a List.mem_cons_self).minimal
      have hend := tail.le
      exact Passes.next (by omega) head pos (ih (fun b hb => hok b (List.mem_cons_of_mem _ hb)) hle)

/-- The chunks begin with records. -/
lemma exists_chunk_start {m c : ℕ} (h : Packed (slotAt page) 0 as m)
    (hok : ∀ a ∈ as, SlotOk sb a) (hc : sb.chunkSize ∣ c) (hcm : c ≤ m) :
    ∃ as₁ as₂, as = as₁ ++ as₂ ∧ Packed (slotAt page) 0 as₁ c ∧ Packed (slotAt page) c as₂ m := by
  obtain ⟨as₁, as₂, x, rfl, hpass, hx, hleft, hright⟩ := h.exists_passes hcm
  have hle := passes_le hpass (fun b hb => hok b (List.mem_append_left _ hb)) hc (Nat.zero_le _)
  obtain rfl := le_antisymm hle hx
  exact ⟨as₁, as₂, rfl, hleft, hright⟩

/-- The loop of `ext2_delete_entry` finds the record before. -/
lemma deleteLoop_eq {p q : ℕ} (h : Packed (slotAt page) p as q) (hraw : ∀ a ∈ as, a.2.recLen ≠ 0)
    (hq : q ≤ pageSize) :
    loopFor (recordRound (slotAt page) q deleteBody) (pageSize + 1) (p, none) =
      some (.inl (as.getLast?.map Prod.fst)) := by
  have hcount := h.length_le
  have hrun : runOver deleteBody as none = some (.inl (as.foldl (fun _ a => some a.1) none)) := by
    apply runOver_invariant (I := fun _ as => ∀ a ∈ as, a.2.recLen ≠ 0) _ hraw
    intro s a as has
    refine ⟨?_, fun b hb => has b (List.mem_cons_of_mem _ hb)⟩
    rw [deleteBody, if_neg (has a List.mem_cons_self)]
  rw [recordLoop_eq h _ _ (by omega), hrun]
  congr 2
  rcases List.eq_nil_or_concat as with rfl | ⟨as, a, rfl⟩
  · rfl
  · rw [List.concat_eq_append, List.foldl_append, List.getLast?_concat]
    rfl

/-- The first record of a chunk is deleted. -/
lemma deleteAt_first (h : Tiled sb page limit (pre ++ a :: post)) (hpage : limit ≤ pageSize) :
    ∃ page' as', setInum page a.1 0 = some page' ∧ Tiled sb page' limit as' ∧
      liveOf page' as' = liveOf page pre ++ liveOf page post := by
  obtain ⟨hpre, hde, hpos, hpost⟩ := packed_middle h.packed
  have hok := h.ok a (by simp)
  have hend := hpost.le
  have hmin := hok.minimal
  rw [dirRecLen_one] at hmin
  set page' := setLeNat page a.1 4 0 with hpage'
  have hde' : direntAt page' a.1 = some { a.2 with inode := 0 } :=
    direntAt_setInum hde (by norm_num)
  have hslot : SlotOk sb (a.1, { a.2 with inode := 0 }) :=
    ⟨hok.minimal, hok.aligned, hok.room, hok.inChunk, Nat.zero_le _⟩
  obtain ⟨htiled, hlive⟩ := Tiled.rewrite h.around hpre hpost
    (sameOn_setLeNat page 0 (Or.inl (le_refl _))).symm
    (sameOn_setLeNat page 0 (Or.inr (by omega))).symm (packed_one hde' rfl hpos)
    (by simpa using hslot)
  refine ⟨page', _, ?_, htiled, ?_⟩
  · rw [setInum, if_pos (by omega)]
  · rw [hlive, liveOf_singleton, if_neg (not_not.mpr rfl), List.nil_append]

/-- A record grows over the one behind it. -/
lemma deleteAt_behind (h : Tiled sb page limit (pre ++ b :: a :: post)) (hpage : limit ≤ pageSize)
    (hchunk : b.1 / sb.chunkSize = a.1 / sb.chunkSize) :
    ∃ dlen page₁ page' as', recLenToDisk (a.1 + a.2.len - b.1) = some dlen ∧
      setRecLen page b.1 dlen = some page₁ ∧ setInum page₁ a.1 0 = some page' ∧
      Tiled sb page' limit as' ∧
      liveOf page' as' = liveOf page (pre ++ [b]) ++ liveOf page post := by
  obtain ⟨hpre, hde, hpos, hrest⟩ := packed_middle h.packed
  obtain ⟨hgap, hdea, hposa, hpost⟩ :=
    packed_middle (show Packed (slotAt page) _ ([] ++ a :: post) limit from hrest)
  have hnext : b.1 + b.2.len = a.1 := hgap.nil_inv
  have hok := h.ok b (by simp)
  have hoka := h.ok a (by simp)
  have hend := hpost.le
  have hmin := hok.minimal
  have hmina := hoka.minimal
  rw [dirRecLen_one] at hmin hmina
  have hname := le_dirRecLen b.2.nameLen
  have hroom := hok.room
  have hdlen : a.1 + a.2.len - b.1 ≤ pageSize := by omega
  set len := a.1 + a.2.len - b.1 with hlen_def
  set page₁ := setLeNat page (b.1 + 4) 2 len with hpage₁
  set page' := setLeNat page₁ a.1 4 0 with hpage'
  have hde₁ : direntAt page₁ b.1 = some { b.2 with recLen := len } :=
    direntAt_setRecLen hde (by unfold pageSize at hdlen; omega)
  have hde' : direntAt page' b.1 = some { b.2 with recLen := len } := by
    rw [← hde₁]
    exact direntAt_congr (sameOn_setLeNat _ _ (by omega))
  have hlen : Dirent.len { b.2 with recLen := len } = len := len_mk hdlen
  have hout : ∀ x y, y ≤ b.1 + 4 ∨ b.1 + 6 ≤ x ∧ y ≤ a.1 ∨ a.1 + 4 ≤ x → SameOn page page' x y := by
    intro x y hxy
    apply ((sameOn_setLeNat page _ _).symm).trans ((sameOn_setLeNat page₁ _ _).symm)
    all_goals omega
  have hslot : SlotOk sb (b.1, { b.2 with recLen := len }) := by
    refine ⟨?_, ?_, ?_, ?_, hok.inumber⟩
    all_goals simp only [hlen]
    · rw [dirRecLen_one]
      omega
    · have := hok.aligned
      have := hoka.aligned
      omega
    · omega
    · rw [show b.1 + len - 1 = a.1 + a.2.len - 1 by omega, hoka.inChunk, hchunk]
  have hnew : Packed (slotAt page') b.1 [(b.1, { b.2 with recLen := len })] (a.1 + a.2.len) := by
    have hone := packed_one hde' hlen (by omega)
    rwa [show b.1 + len = a.1 + a.2.len by omega] at hone
  have haround : ∀ x ∈ pre ++ post, SlotOk sb x := by
    intro x hx
    apply h.ok
    simp only [List.mem_append, List.mem_cons] at hx ⊢
    tauto
  obtain ⟨htiled, hlive⟩ := Tiled.rewrite haround hpre hpost (hout _ _ (Or.inl (by omega)))
    (hout _ _ (Or.inr (Or.inr (by omega)))) hnew (by simpa using hslot)
  refine ⟨len, page₁, page', _, recLenToDisk_eq hdlen, ?_, ?_, htiled, ?_⟩
  · rw [setRecLen, if_pos (by omega)]
  · rw [setInum, if_pos (by omega)]
  · have hlink : linkAt page' (b.1, { b.2 with recLen := len }) = linkAt page b := by
      unfold linkAt
      rw [slice_sameOn (hout (b.1 + 8) (b.1 + 8 + b.2.nameLen)
        (Or.inr (Or.inl ⟨by omega, by omega⟩)))]
    rw [hlive, liveOf_append, List.append_assoc, liveOf_singleton, liveOf_singleton, hlink]

/-- **Deleting an entry.** -/
theorem deleteAt_spec (h : Tiled sb page limit (pre ++ a :: post)) (hlimit : sb.chunkSize ∣ limit)
    (hpage : limit ≤ pageSize) :
    ∃ page' as' q, deleteAt sb page a.1 = some (some (page', q, a.1 + a.2.len)) ∧ q ≤ a.1 ∧
      Tiled sb page' limit as' ∧ liveOf page' as' = liveOf page pre ++ liveOf page post := by
  obtain ⟨hpre, hde, hpos, hpost⟩ := packed_middle h.packed
  have hend := hpost.le
  have hok : ∀ b ∈ pre, SlotOk sb b := fun b hb => h.ok b (List.mem_append_left _ hb)
  have hstart : a.1 / sb.chunkSize * sb.chunkSize ≤ a.1 := Nat.div_mul_le_self _ _
  obtain ⟨pre₁, pre₂, rfl, hpre₁, hpre₂⟩ :=
    exists_chunk_start hpre hok (Dvd.intro_left _ rfl) hstart
  have hraw : ∀ b ∈ pre₂, b.2.recLen ≠ 0 := by
    intro b hb
    have hplace := place_of_mem hpre₂ hb
    have hokb := hok b (List.mem_append_right _ hb)
    have hposb := hokb.pos
    rw [hokb.recLen_eq (show b.1 < limit by omega) hlimit hpage]
    omega
  have hloop := deleteLoop_eq hpre₂ hraw (by omega)
  unfold deleteAt
  simp only [hde, hloop, Option.bind_eq_bind, Option.bind_some]
  rcases List.eq_nil_or_concat pre₂ with rfl | ⟨mid, b, rfl⟩
  · obtain ⟨page', as', hset, htiled, hlive⟩ := deleteAt_first h hpage
    exact ⟨page', as', _, by simp [hset], hstart, htiled, hlive⟩
  · rw [List.concat_eq_append] at hpre₂ h ⊢
    obtain ⟨-, -, hposb, hgap⟩ := packed_middle hpre₂
    have hplace := place_of_mem hpre₂ (List.mem_append_right _ (List.mem_singleton_self b))
    have hchunk : b.1 / sb.chunkSize = a.1 / sb.chunkSize := by
      apply le_antisymm
      · exact Nat.div_le_div_right (by omega)
      · exact (Nat.le_div_iff_mul_le sb.chunkSize_pos).mpr hplace.1
    rw [← List.append_assoc, List.append_assoc (pre₁ ++ mid), List.singleton_append] at h
    obtain ⟨dlen, page₁, page', as', hdlen, hset₁, hset, htiled, hlive⟩ :=
      deleteAt_behind h hpage hchunk
    refine ⟨page', as', b.1, ?_, by omega, htiled, ?_⟩
    · simp [hdlen, hset₁, hset]
    · rw [hlive, List.append_assoc]

end delete

end Comp3301.Ext3301
