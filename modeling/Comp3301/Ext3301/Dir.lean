import Comp3301.Lib.Splice
import Comp3301.Ext3301.DirEntries

/-!
# The file system: directories in pages

The functions of `a3/dir.c` on a whole directory, each against the live entries of the directory
with their places (`Dir.live`).

* `Dir` is what the functions see of a directory: its size and its blocks, the page where the last
  entry was found, and the pages with their flags. `readErr` is what reading a page fails with, and
  `DirEnv` what else may go wrong in a call.
* `Dir.WF` is the invariant: the pages are tiled, live entries have names, and there are blocks for
  all bytes. Every function keeps it, whatever fails.
* The functions never access a byte outside of a page, and never come to `BUG`. Searching finds an
  entry of the name if there is one, and the other functions change the live entries by exactly one
  and move none.
-/

namespace Comp3301.Ext3301

open Comp3301.Lib

/-! ## Directories -/

/-- A directory, with its pages in the page cache and their flags `PageChecked` and `PageError`. -/
structure Dir where
  iSize : ℕ
  iBlocks : ℕ
  iVersion : ℕ
  dirStartLookup : ℕ
  page : ℕ → Page
  checked : ℕ → Bool
  error : ℕ → Bool

/-- What may go wrong in a call: reading a page, `__ext2_write_begin`, and flushing a directory with
`IS_DIRSYNC`; and how many sectors a new chunk takes. -/
structure DirEnv where
  readErr : ℕ → ℤ
  beginErr : ℤ
  sectors : ℕ
  commitErr : ℤ

/-- The place in the directory of what is at `x.1` in page `n`. -/
def placeIn (n : ℕ) (x : ℕ × Link) : ℕ × Link := (n * pageSize + x.1, x.2)

namespace Dir

/-- The records of page `n`. -/
def slots (d : Dir) (n : ℕ) : List (ℕ × Dirent) := slotsOf (d.page n) (lastByte d.iSize n)

/-- The live entries of page `n`, with their places in the directory. -/
def liveIn (d : Dir) (n : ℕ) : List (ℕ × Link) :=
  (liveOf (d.page n) (d.slots n)).map (placeIn n)

/-- The live entries, with their places. -/
def live (d : Dir) : List (ℕ × Link) := (List.range (dirPages d.iSize)).flatMap d.liveIn

/-- Page `n` holds other bytes. -/
def setPage (d : Dir) (n : ℕ) (page : Page) : Dir :=
  { d with page := Function.update d.page n page }

/-- `ext2_check_page`, with the flags. -/
def checkPage (sb : DirSb) (d : Dir) (n : ℕ) : Option Dir := do
  let r ← Ext3301.checkPage sb d.iSize (d.page n) n
  some { d with
    checked := Function.update d.checked n true
    error := if r = .ok () then d.error else Function.update d.error n true }

/-- `ext2_get_page`. -/
def getPage (sb : DirSb) (readErr : ℕ → ℤ) (d : Dir) (n : ℕ) : Option (Except ℤ Page × Dir) :=
  if readErr n ≠ 0 then some (.error (readErr n), d)
  else do
    let d ← if d.checked n then some d else d.checkPage sb n
    some (if d.error n then .error (-eio) else .ok (d.page n), d)

/-- The invariant of directories. -/
structure WF (sb : DirSb) (d : Dir) : Prop where
  aligned : sb.chunkSize ∣ d.iSize
  tiled : ∀ n < dirPages d.iSize, ∃ as, Tiled sb (d.page n) (lastByte d.iSize n) as
  named : ∀ x ∈ d.live, x.2.name ≠ []
  blocks : d.iSize ≤ 512 * d.iBlocks
  noError : ∀ n, d.error n = false

/-- The same bytes. -/
structure Same (d d' : Dir) : Prop where
  iSize : d'.iSize = d.iSize
  iBlocks : d'.iBlocks = d.iBlocks
  iVersion : d'.iVersion = d.iVersion
  page : d'.page = d.page

section basic

variable {sb : DirSb} {d d' d'' : Dir} {n : ℕ} {x : ℕ × Link} {readErr : ℕ → ℤ}

namespace Same

lemma refl (d : Dir) : d.Same d := ⟨rfl, rfl, rfl, rfl⟩

lemma trans (h : d.Same d') (h' : d'.Same d'') : d.Same d'' :=
  ⟨h'.iSize.trans h.iSize, h'.iBlocks.trans h.iBlocks, h'.iVersion.trans h.iVersion,
    h'.page.trans h.page⟩

lemma slots_eq (h : d.Same d') : d'.slots = d.slots := by
  funext n
  unfold slots
  rw [h.iSize, h.page]

lemma liveIn_eq (h : d.Same d') : d'.liveIn = d.liveIn := by
  funext n
  unfold liveIn
  rw [h.slots_eq, h.page]

lemma live_eq (h : d.Same d') : d'.live = d.live := by
  unfold live
  rw [h.iSize, h.liveIn_eq]

lemma wf (h : d.Same d') (hd : d.WF sb) (herror : d'.error = d.error) : d'.WF sb := by
  refine ⟨?_, ?_, ?_, ?_, ?_⟩
  · rw [h.iSize]
    exact hd.aligned
  · rw [h.iSize, h.page]
    exact hd.tiled
  · rw [h.live_eq]
    exact hd.named
  · rw [h.iSize, h.iBlocks]
    exact hd.blocks
  · rw [herror]
    exact hd.noError

end Same

lemma mem_liveIn : x ∈ d.liveIn n ↔
    ∃ y ∈ liveOf (d.page n) (d.slots n), placeIn n y = x :=
  List.mem_map

lemma mem_live : x ∈ d.live ↔ ∃ n < dirPages d.iSize, x ∈ d.liveIn n := by
  simp [live, List.mem_flatMap]

/-- The limit of a page is the end of a chunk. -/
lemma WF.dvd_lastByte (h : d.WF sb) (n : ℕ) : sb.chunkSize ∣ lastByte d.iSize n := by
  unfold lastByte
  split_ifs
  · rcases min_choice (d.iSize - n * pageSize) pageSize with hmin | hmin
    · rw [hmin]
      exact Nat.dvd_sub h.aligned (Dvd.dvd.mul_left sb.chunkSize_dvd n)
    · rw [hmin]
      exact sb.chunkSize_dvd
  · exact sb.chunkSize_dvd

lemma slots_eq {as : List (ℕ × Dirent)} (h : Tiled sb (d.page n) (lastByte d.iSize n) as) :
    d.slots n = as := h.slotsOf_eq

lemma liveIn_eq {as : List (ℕ × Dirent)} (h : Tiled sb (d.page n) (lastByte d.iSize n) as) :
    d.liveIn n = (liveOf (d.page n) as).map (placeIn n) := by
  rw [liveIn, slots_eq h]

/-- A page that passes the check is given. -/
lemma getPage_of_check (hd : d.WF sb)
    (hok : Ext3301.checkPage sb d.iSize (d.page n) n = some (.ok ())) :
    ∃ d', d.getPage sb readErr n =
        some (if readErr n ≠ 0 then .error (readErr n) else .ok (d.page n), d') ∧
      d.Same d' ∧ d'.WF sb := by
  unfold getPage
  by_cases hread : readErr n = 0
  · rw [if_neg (not_not.mpr hread), if_neg (not_not.mpr hread)]
    by_cases hchecked : d.checked n
    · refine ⟨d, ?_, Same.refl d, hd⟩
      simp [hchecked, hd.noError n]
    · set d' : Dir := { d with checked := Function.update d.checked n true }
      have hsame : d.Same d' := ⟨rfl, rfl, rfl, rfl⟩
      refine ⟨d', ?_, hsame, hsame.wf hd rfl⟩
      simp [hchecked, checkPage, hok, hd.noError n, d']
  · rw [if_pos hread, if_pos hread]
    exact ⟨d, rfl, Same.refl d, hd⟩

/-- **Every page of the directory is given**, unless it cannot be read. -/
lemma getPage_spec (hd : d.WF sb) (readErr : ℕ → ℤ) (hn : n < dirPages d.iSize) :
    ∃ d', d.getPage sb readErr n =
        some (if readErr n ≠ 0 then .error (readErr n) else .ok (d.page n), d') ∧
      d.Same d' ∧ d'.WF sb := by
  obtain ⟨as, has⟩ := hd.tiled n hn
  exact getPage_of_check hd (checkPage_of_tiled hn (hd.dvd_lastByte n) has)

/-- So is the page behind a directory that fills its pages. -/
lemma getPage_end (hd : d.WF sb) (readErr : ℕ → ℤ) (hn : d.iSize = n * pageSize) :
    ∃ d', d.getPage sb readErr n =
        some (if readErr n ≠ 0 then .error (readErr n) else .ok (d.page n), d') ∧
      d.Same d' ∧ d'.WF sb := by
  apply getPage_of_check hd
  have hdiv : d.iSize / pageSize = n := by rw [hn, Nat.mul_div_cancel _ (by norm_num [pageSize])]
  have hmod : d.iSize % pageSize = 0 := by rw [hn, Nat.mul_mod_left]
  unfold Ext3301.checkPage
  rw [if_pos hdiv, hmod]
  simp

end basic

/-! ## A page that changes -/

section change

variable {sb : DirSb} {d d' : Dir} {n limit : ℕ} {page' : Page} {as as' : List (ℕ × Dirent)}
  {old new : List (ℕ × Link)}

@[simp] lemma setPage_page_self (d : Dir) (n : ℕ) (page : Page) :
    (d.setPage n page).page n = page := Function.update_self _ _ _

lemma liveIn_congr {m : ℕ} (hpage : d'.page m = d.page m)
    (hlast : lastByte d'.iSize m = lastByte d.iSize m) : d'.liveIn m = d.liveIn m := by
  unfold liveIn slots
  rw [hpage, hlast]

/-- One page of a directory of the same size changes. -/
lemma live_of_page (hn : n < dirPages d.iSize) (hsize : d'.iSize = d.iSize)
    (hpage : ∀ m, m ≠ n → d'.page m = d.page m) (h : Splice old new (d.liveIn n) (d'.liveIn n)) :
    Splice old new d.live d'.live := by
  have hother : ∀ m, m ≠ n → d'.liveIn m = d.liveIn m := fun m hm =>
    liveIn_congr (hpage m hm) (by rw [hsize])
  obtain ⟨k, -, hpages⟩ := range_around hn
  have hbefore : (List.range n).flatMap d'.liveIn = (List.range n).flatMap d.liveIn := by
    apply List.flatMap_congr
    intro m hm
    exact hother m (List.mem_range.mp hm).ne
  have hafter : (List.range' (n + 1) k).flatMap d'.liveIn =
      (List.range' (n + 1) k).flatMap d.liveIn := by
    apply List.flatMap_congr
    intro m hm
    exact hother m (by have := (List.mem_range'_1.mp hm).1; omega)
  unfold live
  rw [hsize, hpages, List.flatMap_append, List.flatMap_append, List.flatMap_singleton,
    List.flatMap_append, List.flatMap_append, List.flatMap_singleton, hbefore, hafter]
  exact h.within _ _

/-- The last page, which may not have begun yet. -/
lemma live_last (hsize : d.iSize = n * pageSize + limit) (hlimit : limit ≤ pageSize) :
    d.live = (List.range n).flatMap d.liveIn ++ d.liveIn n := by
  rcases Nat.eq_zero_or_pos limit with rfl | hpos
  · have hpages : dirPages d.iSize = n := by
      unfold dirPages pageSize at *
      omega
    have hnil : d.liveIn n = [] := by
      have hlast : lastByte d.iSize n = 0 := by
        unfold lastByte
        rw [hsize, Nat.add_zero, if_pos (le_refl _), Nat.sub_self, Nat.zero_min]
      rw [liveIn, slots, hlast]
      rfl
    rw [live, hpages, hnil, List.append_nil]
  · have hpages : dirPages d.iSize = n + 1 := by
      unfold dirPages pageSize at *
      omega
    rw [live, hpages, List.range_succ, List.flatMap_append, List.flatMap_singleton]

lemma lastByte_last (hsize : d.iSize = n * pageSize + limit) (hlimit : limit ≤ pageSize) :
    lastByte d.iSize n = limit := by
  unfold lastByte
  rw [hsize, if_pos (by omega)]
  omega

lemma lastByte_end (hsize : d.iSize = n * pageSize) : lastByte d.iSize n = 0 := by
  unfold lastByte
  rw [hsize, if_pos (le_refl _), Nat.sub_self, Nat.zero_min]

lemma lastByte_before {m : ℕ} (hsize : d.iSize = n * pageSize + limit) (hm : m < n) :
    lastByte d.iSize m = pageSize := by
  apply lastByte_of_lt
  unfold pageSize at *
  omega

/-- The directory grows in its last page. -/
lemma live_of_growth {limit' : ℕ} (hsize : d.iSize = n * pageSize + limit)
    (hsize' : d'.iSize = n * pageSize + limit') (hle : limit ≤ limit') (hlimit : limit' ≤ pageSize)
    (hpage : ∀ m, m ≠ n → d'.page m = d.page m) (h : Splice old new (d.liveIn n) (d'.liveIn n)) :
    Splice old new d.live d'.live := by
  have hbefore : (List.range n).flatMap d'.liveIn = (List.range n).flatMap d.liveIn := by
    apply List.flatMap_congr
    intro m hm
    have hlt := List.mem_range.mp hm
    exact liveIn_congr (hpage m hlt.ne)
      ((lastByte_before hsize' hlt).trans (lastByte_before hsize hlt).symm)
  rw [live_last hsize (hle.trans hlimit), live_last hsize' hlimit, hbefore,
    ← List.append_nil (d.liveIn n), ← List.append_nil (d'.liveIn n)]
  exact h.within _ _

/-- The invariant after a change in one page, with entries that have names. -/
lemma WF.of_splice (h : d.WF sb) (hlive : Splice old new d.live d'.live)
    (hnew : ∀ x ∈ new, x.2.name ≠ []) (haligned : sb.chunkSize ∣ d'.iSize)
    (htiled : ∀ m < dirPages d'.iSize, ∃ as, Tiled sb (d'.page m) (lastByte d'.iSize m) as)
    (hblocks : d'.iSize ≤ 512 * d'.iBlocks) (herror : d'.error = d.error) : d'.WF sb := by
  refine ⟨haligned, htiled, ?_, hblocks, ?_⟩
  · intro x hx
    rcases hlive.mem_or_mem hx with hx | hx
    · exact h.named x hx
    · exact hnew x hx
  · rw [herror]
    exact h.noError

/-- **A page that is tiled anew.** -/
lemma WF.update (h : d.WF sb) (hn : n < dirPages d.iSize)
    (has : Tiled sb (d.page n) (lastByte d.iSize n) as)
    (has' : Tiled sb page' (lastByte d.iSize n) as')
    (hlive : Splice old new (liveOf (d.page n) as) (liveOf page' as'))
    (hnew : ∀ x ∈ new, x.2.name ≠ []) (hsize : d'.iSize = d.iSize)
    (hpage : d'.page = Function.update d.page n page') (hblocks : d'.iBlocks = d.iBlocks)
    (herror : d'.error = d.error) :
    d'.WF sb ∧ Splice (old.map (placeIn n)) (new.map (placeIn n)) d.live d'.live := by
  have hother : ∀ m, m ≠ n → d'.page m = d.page m := fun m hm => by
    rw [hpage, Function.update_of_ne hm]
  have hself : d'.page n = page' := by rw [hpage, Function.update_self]
  have hsplice : Splice (old.map (placeIn n)) (new.map (placeIn n)) d.live d'.live := by
    apply live_of_page hn hsize hother
    rw [liveIn_eq has, liveIn_eq (show Tiled sb (d'.page n) (lastByte d'.iSize n) as' by
      rwa [hself, hsize]), hself]
    exact hlive.map _
  refine ⟨h.of_splice hsplice ?_ (by rw [hsize]; exact h.aligned) ?_
    (by rw [hsize, hblocks]; exact h.blocks) herror, hsplice⟩
  · intro x hx
    obtain ⟨y, hy, rfl⟩ := List.mem_map.mp hx
    exact hnew y hy
  · intro m hm
    rw [hsize] at hm ⊢
    rcases eq_or_ne m n with rfl | hne
    · rw [hself]
      exact ⟨as', has'⟩
    · rw [hother m hne]
      exact h.tiled m hm

/-- **The last page is tiled anew**, perhaps up to a later limit. -/
lemma WF.grow {limit' : ℕ} (h : d.WF sb) (hsize : d.iSize = n * pageSize + limit)
    (hsize' : d'.iSize = n * pageSize + limit') (hle : limit ≤ limit') (hlimit : limit' ≤ pageSize)
    (hdvd : sb.chunkSize ∣ limit') (has : Tiled sb (d.page n) limit as)
    (has' : Tiled sb page' limit' as')
    (hlive : Splice old new (liveOf (d.page n) as) (liveOf page' as'))
    (hnew : ∀ x ∈ new, x.2.name ≠ []) (hpage : d'.page = Function.update d.page n page')
    (hblocks : d'.iSize ≤ 512 * d'.iBlocks) (herror : d'.error = d.error) :
    d'.WF sb ∧ Splice (old.map (placeIn n)) (new.map (placeIn n)) d.live d'.live := by
  have hother : ∀ m, m ≠ n → d'.page m = d.page m := fun m hm => by
    rw [hpage, Function.update_of_ne hm]
  have hself : d'.page n = page' := by rw [hpage, Function.update_self]
  have hlast := lastByte_last hsize (hle.trans hlimit)
  have hlast' := lastByte_last hsize' hlimit
  have hsplice : Splice (old.map (placeIn n)) (new.map (placeIn n)) d.live d'.live := by
    apply live_of_growth hsize hsize' hle hlimit hother
    rw [liveIn_eq (by rwa [hlast]), liveIn_eq (show Tiled sb (d'.page n) _ as' by
      rwa [hself, hlast']), hself]
    exact hlive.map _
  refine ⟨h.of_splice hsplice ?_ ?_ ?_ hblocks herror, hsplice⟩
  · intro x hx
    obtain ⟨y, hy, rfl⟩ := List.mem_map.mp hx
    exact hnew y hy
  · rw [hsize']
    exact Dvd.dvd.add (Dvd.dvd.mul_left sb.chunkSize_dvd n) hdvd
  · intro m hm
    rcases eq_or_ne m n with rfl | hne
    · rw [hself, hlast']
      exact ⟨as', has'⟩
    · have hlt : m < n := by
        rw [lt_dirPages_iff, hsize'] at hm
        unfold pageSize at *
        omega
      rw [hother m hne, lastByte_before hsize' hlt, ← lastByte_before hsize hlt]
      apply h.tiled m
      rw [lt_dirPages_iff, hsize]
      unfold pageSize
      omega

end change

/-! ## Searching -/

/-- A page in `ext2_find_entry`: the entry, or that there is none, ends the search. -/
def findPage (sb : DirSb) (readErr : ℕ → ℤ) (name : DiskName) (npages n : ℕ) (d : Dir) :
    Option (Dir ⊕ (Option (ℕ × ℕ) × Dir)) := do
  let (page, d) ← d.getPage sb readErr n
  let found ←
    match page with
    | .error _ => some (.inl ())
    | .ok page => findInPage page (lastByte d.iSize n) name
  match found with
  | .inr .zeroLength => some (.inr (none, d))
  | .inr (.found p) => some (.inr (some (n, p), { d with dirStartLookup := n }))
  | .inl () =>
      let next := if npages ≤ n + 1 then 0 else n + 1
      -- next page is past the blocks we've got
      if d.iBlocks / 8 < next then some (.inr (none, d)) else some (.inl d)

/-- `ext2_find_entry`: the page of the entry and its place in it. -/
def findEntry (sb : DirSb) (readErr : ℕ → ℤ) (d : Dir) (name : DiskName) :
    Option (Option (ℕ × ℕ) × Dir) :=
  let npages := dirPages d.iSize
  if npages = 0 then some (none, d)
  else
    let start := if npages ≤ d.dirStartLookup then 0 else d.dirStartLookup
    match loopFor (cycleRound npages start (findPage sb readErr name npages)) npages (start, d) with
    | none => none
    | some (.inl d) => some (none, d)
    | some (.inr r) => some r

/-- `ext2_inode_by_name`. -/
def inodeByName (sb : DirSb) (readErr : ℕ → ℤ) (d : Dir) (name : DiskName) :
    Option (ℕ × Dir) := do
  let (de, d) ← d.findEntry sb readErr name
  match de with
  | none => some (0, d)
  | some (n, p) => do
      let de ← direntAt (d.page n) p
      some (de.inode, d)

section search

variable {sb : DirSb} {d d' : Dir} {readErr : ℕ → ℤ} {name : DiskName} {n : ℕ}

/-- The record at `p` in page `n` is the live entry `l`. -/
def Holds (d : Dir) (n p : ℕ) (l : Link) : Prop :=
  n < dirPages d.iSize ∧ (p, l) ∈ liveOf (d.page n) (d.slots n)

/-- What the search for a name may come to: an entry of the name, or that there is none in the pages
that can be read. -/
def Found (d : Dir) (readErr : ℕ → ℤ) (name : DiskName) : Option (ℕ × ℕ) → Prop
  | some (n, p) => ∃ l, d.Holds n p l ∧ l.name = name
  | none => ∀ n < dirPages d.iSize, readErr n = 0 → ∀ x ∈ d.liveIn n, x.2.name ≠ name

lemma Holds.mem_live {p : ℕ} {l : Link} (h : d.Holds n p l) : placeIn n (p, l) ∈ d.live :=
  Dir.mem_live.mpr ⟨n, h.1, List.mem_map_of_mem h.2⟩

/-- The record of a live entry. -/
lemma Holds.exists_record {p : ℕ} {l : Link} (h : d.Holds n p l) (hd : d.WF sb) :
    ∃ pre a post, Tiled sb (d.page n) (lastByte d.iSize n) (pre ++ a :: post) ∧ a.1 = p ∧
      a.2.inode ≠ 0 ∧ linkAt (d.page n) a = l ∧ n * pageSize + a.1 + a.2.len ≤ d.iSize := by
  obtain ⟨as, has⟩ := hd.tiled n h.1
  have hmem := h.2
  rw [slots_eq has] at hmem
  obtain ⟨a, ha, hused, heq⟩ := mem_liveOf.mp hmem
  obtain ⟨rfl, rfl⟩ := Prod.mk.inj heq
  have hplace := place_of_mem has.packed ha
  have hn := lt_dirPages_iff.mp h.1
  obtain ⟨pre, post, rfl⟩ := List.append_of_mem ha
  refine ⟨pre, a, post, has, rfl, hused, rfl, ?_⟩
  unfold lastByte at hplace
  rw [if_pos hn.le] at hplace
  omega

lemma findPage_spec (hd : d.WF sb) (hn : n < dirPages d.iSize) (name : DiskName)
    (hsame : d.Same d') (hd' : d'.WF sb) :
    (∃ d'', findPage sb readErr name (dirPages d.iSize) n d' = some (.inl d'') ∧ d.Same d'' ∧
        d''.WF sb ∧ (readErr n = 0 → ∀ x ∈ d.liveIn n, x.2.name ≠ name)) ∨
      ∃ p d'', findPage sb readErr name (dirPages d.iSize) n d' = some (.inr (some (n, p), d'')) ∧
        d.Same d'' ∧ d''.WF sb ∧ d.Found readErr name (some (n, p)) := by
  obtain ⟨d'', hget, hsame', hd''⟩ := getPage_spec hd' readErr (by rwa [hsame.iSize])
  have hsame'' := hsame.trans hsame'
  obtain ⟨as, has⟩ := hd.tiled n hn
  have hblocks : ¬ d''.iBlocks / 8 < if dirPages d.iSize ≤ n + 1 then 0 else n + 1 := by
    have hle := hd.blocks
    rw [hsame''.iBlocks]
    unfold dirPages pageSize at *
    split_ifs <;> omega
  unfold findPage
  rw [hget]
  by_cases hread : readErr n = 0
  · have hscan := findInPage_spec name has (hd.dvd_lastByte n) (lastByte_le _ _)
    rw [← hsame''.iSize, ← hsame.page] at hscan
    simp only [Option.bind_eq_bind, Option.bind_some, if_neg (not_not.mpr hread), hscan]
    rw [hsame.page]
    rcases hfind : as.find? (fun a => Names (d.page n) name a) with _ | a
    · refine Or.inl ⟨d'', ?_, hsame'', hd'', ?_⟩
      · simp only [Option.elim_none, if_neg hblocks]
      · intro _ x hx hname
        rw [liveIn_eq has] at hx
        obtain ⟨y, hy, rfl⟩ := List.mem_map.mp hx
        obtain ⟨a, ha, hino, rfl⟩ := mem_liveOf.mp hy
        have hnot := List.find?_eq_none.mp hfind a ha
        exact hnot (decide_eq_true ⟨hino, hname⟩)
    · have hnames : Names (d.page n) name a := by simpa using List.find?_some hfind
      have ha := List.mem_of_find?_eq_some hfind
      have hcache : d''.Same { d'' with dirStartLookup := n } := ⟨rfl, rfl, rfl, rfl⟩
      refine Or.inr ⟨a.1, _, rfl, hsame''.trans hcache, hcache.wf hd'' rfl, _, ⟨hn, ?_⟩, hnames.2⟩
      rw [slots_eq has]
      exact mem_liveOf.mpr ⟨a, ha, hnames.1, rfl⟩
  · refine Or.inl ⟨d'', ?_, hsame'', hd'', fun h => absurd h hread⟩
    simp [if_pos hread, if_neg hblocks]

/-- **The search finds an entry of the name** if there is one in a page that can be read. -/
theorem findEntry_spec (hd : d.WF sb) (readErr : ℕ → ℤ) (name : DiskName) :
    ∃ r d', d.findEntry sb readErr name = some (r, d') ∧ d.Same d' ∧ d'.WF sb ∧
      d.Found readErr name r := by
  unfold findEntry
  by_cases hempty : dirPages d.iSize = 0
  · simp only [if_pos hempty]
    refine ⟨none, d, rfl, Same.refl d, hd, ?_⟩
    intro n hn
    omega
  · simp only [if_neg hempty]
    set start := if dirPages d.iSize ≤ d.dirStartLookup then 0 else d.dirStartLookup with hstart_def
    have hstart : start < dirPages d.iSize := by
      rw [hstart_def]
      split_ifs <;> omega
    rw [cycleLoop_eq hstart]
    have hbody : ∀ n ∈ List.range' start (dirPages d.iSize - start) ++ List.range start,
        ∀ d', (d.Same d' ∧ d'.WF sb) →
          (∃ d'', findPage sb readErr name (dirPages d.iSize) n d' = some (.inl d'') ∧
            (d.Same d'' ∧ d''.WF sb) ∧ (readErr n = 0 → ∀ x ∈ d.liveIn n, x.2.name ≠ name)) ∨
          ∃ r, findPage sb readErr name (dirPages d.iSize) n d' = some (.inr r) ∧
            d.Same r.2 ∧ r.2.WF sb ∧ d.Found readErr name r.1 := by
      rintro n hn d' ⟨hsame, hd'⟩
      rcases findPage_spec hd ((mem_cycle hstart).mp hn) name hsame hd' with
        ⟨d'', hpage, hsame', hd'', hnot⟩ | ⟨p, d'', hpage, hsame', hd'', hfound⟩
      · exact Or.inl ⟨d'', hpage, ⟨hsame', hd''⟩, hnot⟩
      · exact Or.inr ⟨_, hpage, hsame', hd'', hfound⟩
    rcases runOver_search hbody ⟨Same.refl d, hd⟩ with
      ⟨d', hrun, ⟨hsame, hd'⟩, hnot⟩ | ⟨n, -, r, hrun, hsame, hd', hfound⟩
    · rw [hrun]
      exact ⟨none, d', rfl, hsame, hd', fun n hn => hnot n ((mem_cycle hstart).mpr hn)⟩
    · rw [hrun]
      exact ⟨r.1, r.2, rfl, hsame, hd', hfound⟩

end search

/-! ## Making an entry -/

/-- `ext2_commit_chunk`, but for its result. -/
def commit (d : Dir) (pos len : ℕ) : Dir :=
  { d with
    iVersion := d.iVersion + 1
    iSize := if d.iSize < pos + len then pos + len else d.iSize }

/-- `ext2_add_link` from `got_it` on, for the record at `p` in page `n`. -/
def gotIt (sb : DirSb) (env : DirEnv) (d : Dir) (n p nameLen recLen : ℕ) (name : DiskName) (ino : ℕ)
    (mode : Mode) : Option (ℤ × Dir) :=
  if env.beginErr ≠ 0 then some (env.beginErr, d)
  else do
    let pos := n * pageSize + p
    let page ← Ext3301.gotIt sb (d.page n) p nameLen recLen name ino mode
    let iBlocks := if d.iSize < pos + recLen then d.iBlocks + env.sectors else d.iBlocks
    some (env.commitErr, { d.setPage n page with iBlocks := iBlocks }.commit pos recLen)

/-- A page in `ext2_add_link`. -/
def addPage (sb : DirSb) (env : DirEnv) (name : DiskName) (ino : ℕ) (mode : Mode) (n : ℕ)
    (d : Dir) : Option (Dir ⊕ (ℤ × Dir)) := do
  let (page, d) ← d.getPage sb env.readErr n
  match page with
  | .error err => some (.inr (err, d))
  | .ok page =>
      match ← loopFor (addRound page (lastByte d.iSize n) name) (pageSize + 1) 0 with
      | .full => some (.inl d)
      | .eexist => some (.inr (-Ext3301.eexist, d))
      | .eio => some (.inr (-Ext3301.eio, d))
      | .atEnd p => do
          let dlen ← recLenToDisk sb.chunkSize
          let page ← setRecLen page p dlen
          let page ← setInum page p 0
          let r ← (d.setPage n page).gotIt sb env n p 0 sb.chunkSize name ino mode
          some (.inr r)
      | .gotIt p nameLen recLen => do
          let r ← d.gotIt sb env n p nameLen recLen name ino mode
          some (.inr r)

/-- `ext2_add_link`; `none` is `BUG`, too. -/
def addLink (sb : DirSb) (env : DirEnv) (d : Dir) (name : DiskName) (ino : ℕ) (mode : Mode) :
    Option (ℤ × Dir) := do
  match ← runOver (addPage sb env name ino mode) (List.range (dirPages d.iSize + 1)) d with
  | .inl _ => none
  | .inr r => some r

/-- What making an entry may come to: a page that cannot be read, an entry of the name, no block for
it, or the new entry `l`, if flushing it fails, too. -/
inductive Added (env : DirEnv) (d : Dir) (l : Link) : ℤ → Dir → Prop
  | unread {n : ℕ} {d' : Dir} (hread : env.readErr n ≠ 0) (hsame : d.Same d') :
      Added env d l (env.readErr n) d'
  | exists {x : ℕ × Link} {d' : Dir} (hx : x ∈ d.live) (hname : x.2.name = l.name)
      (hsame : d.Same d') : Added env d l (-eexist) d'
  | noBlock {d' : Dir} (hbegin : env.beginErr ≠ 0) (hlive : d'.live = d.live)
      (hslots : d'.slots = d.slots) (hsize : d'.iSize = d.iSize)
      (hversion : d'.iVersion = d.iVersion) : Added env d l env.beginErr d'
  | done {pos : ℕ} {d' : Dir} (hbegin : env.beginErr = 0)
      (hlive : Splice [] [(pos, l)] d.live d'.live) (hversion : d'.iVersion = d.iVersion + 1) :
      Added env d l env.commitErr d'

section add

variable {sb : DirSb} {env : DirEnv} {d d' : Dir} {name : DiskName} {ino n limit : ℕ} {mode : Mode}
  {as : List (ℕ × Dirent)}

lemma commit_iSize {pos len : ℕ} (h : pos + len ≤ d.iSize) : (d.commit pos len).iSize = d.iSize :=
  if_neg (Nat.not_lt.mpr h)

lemma mem_live_of_mem (hn : n < dirPages d.iSize)
    (has : Tiled sb (d.page n) (lastByte d.iSize n) as) {a : ℕ × Dirent} (ha : a ∈ as)
    (hused : a.2.inode ≠ 0) : placeIn n (a.1, linkAt (d.page n) a) ∈ d.live := by
  apply mem_live.mpr
  refine ⟨n, hn, ?_⟩
  rw [liveIn_eq has]
  exact List.mem_map_of_mem (mem_liveOf.mpr ⟨a, ha, hused, rfl⟩)

/-- Live records are named. -/
lemma WF.nameLen_ne (hd : d.WF sb) (hn : n < dirPages d.iSize)
    (has : Tiled sb (d.page n) (lastByte d.iSize n) as) {a : ℕ × Dirent} (ha : a ∈ as)
    (hused : a.2.inode ≠ 0) : a.2.nameLen ≠ 0 := by
  intro hzero
  apply hd.named _ (mem_live_of_mem hn has ha hused)
  simp [placeIn, linkAt, hzero, slice]

/-- A record of the page that has room. -/
lemma gotIt_spec (mode : Mode) (hd : d.WF sb) (hn : n < dirPages d.iSize)
    (has : Tiled sb (d.page n) (lastByte d.iSize n) as) (hlink : LinkOk sb name ino)
    {p nameLen recLen : ℕ}
    (hfinds : (AddScan.gotIt p nameLen recLen).Finds (d.page n) name (lastByte d.iSize n) as) :
    ∃ err d', d.gotIt sb env n p nameLen recLen name ino mode = some (err, d') ∧ d'.WF sb ∧
      Added env d ⟨name, ino, deType sb.filetype mode⟩ err d' := by
  obtain ⟨pre, a, post, rfl, rfl, rfl, rfl, hroom⟩ := hfinds
  unfold gotIt
  by_cases hbegin : env.beginErr = 0
  · rw [if_neg (not_not.mpr hbegin)]
    have hlimit := hd.dvd_lastByte n
    have hpage := lastByte_le d.iSize n
    have hend := (packed_middle has.packed).2.2.2.le
    have hfits : n * pageSize + a.1 + a.2.len ≤ d.iSize := by
      rw [lt_dirPages_iff] at hn
      unfold lastByte at hend
      rw [if_pos hn.le] at hend
      omega
    obtain ⟨page', as', pos, hgot, has', hsplice⟩ := gotIt_page mode has hlimit hpage hlink
      hroom (hd.nameLen_ne hn has (by simp))
    rw [hgot]
    simp only [Option.bind_eq_bind, Option.bind_some, if_neg (Nat.not_lt.mpr hfits)]
    have hsize : ({ d.setPage n page' with iBlocks := d.iBlocks }.commit (n * pageSize + a.1)
        a.2.len).iSize = d.iSize := commit_iSize hfits
    obtain ⟨hwf, hlive⟩ :=
      hd.update hn has has' hsplice (by simpa using hlink.name_ne) hsize rfl rfl rfl
    refine ⟨_, _, rfl, hwf, ?_⟩
    exact Added.done hbegin hlive rfl
  · rw [if_pos hbegin]
    exact ⟨_, d, rfl, hd, Added.noBlock hbegin rfl rfl rfl rfl⟩

/-- A chunk that ends before the page does leaves room for another one. -/
lemma add_chunkSize_le (hdvd : sb.chunkSize ∣ limit) (hlt : limit < pageSize) :
    limit + sb.chunkSize ≤ pageSize := by
  obtain ⟨c, rfl⟩ := hdvd
  obtain ⟨e, he⟩ := sb.chunkSize_dvd
  rw [he] at hlt ⊢
  rw [← Nat.mul_succ]
  exact Nat.mul_le_mul_left _ (Nat.lt_of_mul_lt_mul_left hlt)

/-- The end of the directory: a new chunk. -/
lemma newChunk_spec (mode : Mode) (hd : d.WF sb) (hsize : d.iSize = n * pageSize + limit)
    (hlt : limit < pageSize) (has : Tiled sb (d.page n) limit as) (hlink : LinkOk sb name ino)
    (hsectors : sb.chunkSize ≤ 512 * env.sectors) :
    ∃ dlen page₁ page₂ err d', recLenToDisk sb.chunkSize = some dlen ∧
      setRecLen (d.page n) limit dlen = some page₁ ∧ setInum page₁ limit 0 = some page₂ ∧
      (d.setPage n page₂).gotIt sb env n limit 0 sb.chunkSize name ino mode = some (err, d') ∧
      d'.WF sb ∧ Added env d ⟨name, ino, deType sb.filetype mode⟩ err d' := by
  have hdvd : sb.chunkSize ∣ limit := by
    rw [← lastByte_last hsize hlt.le]
    exact hd.dvd_lastByte n
  have hnext := add_chunkSize_le hdvd hlt
  have hchunk := sb.le_chunkSize
  obtain ⟨dlen, page₁, page₂, de, hdlen, hset₁, hset₂, hfree, hlen, has₂, hlive₂⟩ :=
    tiled_newChunk has hdvd hnext
  refine ⟨dlen, page₁, page₂, ?_⟩
  unfold gotIt
  by_cases hbegin : env.beginErr = 0
  · rw [if_neg (not_not.mpr hbegin)]
    have hfits : dirRecLen name.length ≤ de.len := by
      rw [hlen]
      exact (dirRecLen_le (Nat.le_of_lt_succ hlink.length_lt)).trans (by omega)
    obtain ⟨page', as', hgot, has', hlive⟩ :=
      gotIt_reuse mode has₂ (hdvd.add (dvd_refl _)) hnext hlink hfree hfits 0
    have hsplice : Splice [] [(limit, ⟨name, ino, deType sb.filetype mode⟩)]
        (liveOf (d.page n) as) (liveOf page' as') := by
      refine ⟨liveOf (d.page n) as, [], by simp, ?_⟩
      rw [hlive, hlive₂]
      rfl
    have hgrows : d.iSize < n * pageSize + limit + sb.chunkSize := by omega
    simp only [hlen] at hgot
    simp only [setPage_page_self, hgot, Option.bind_eq_bind, Option.bind_some]
    set d' := Dir.commit _ _ _ with hd'
    have hsize' : d'.iSize = n * pageSize + (limit + sb.chunkSize) := by
      rw [← Nat.add_assoc]
      exact if_pos hgrows
    have hblocks' : d'.iBlocks = d.iBlocks + env.sectors := if_pos hgrows
    have hblocks := hd.blocks
    obtain ⟨hwf, hlive'⟩ := hd.grow hsize hsize' (Nat.le_add_right _ _) hnext
      (hdvd.add (dvd_refl _)) has has' hsplice (by simpa using hlink.name_ne)
      (by simp [hd', commit, setPage]) (by omega) rfl
    exact ⟨_, d', hdlen, hset₁, hset₂, rfl, hwf, Added.done hbegin hlive' rfl⟩
  · rw [if_pos hbegin]
    have has' : Tiled sb page₂ limit as :=
      ⟨(packed_middle has₂.packed).1, fun a ha => has₂.ok a (List.mem_append_left _ ha)⟩
    have hsplice : Splice [] [] (liveOf (d.page n) as) (liveOf page₂ as) := by
      rw [hlive₂]
      exact ⟨[], _, rfl, rfl⟩
    obtain ⟨hwf, pre, post, hlive, hlive'⟩ :=
      WF.grow (show d.WF sb from hd) hsize (show (d.setPage n page₂).iSize = _ from hsize)
        (le_refl _) hlt.le hdvd has has' hsplice (by simp) rfl hd.blocks rfl
    have hslots : (d.setPage n page₂).slots = d.slots := by
      have hlast : lastByte d.iSize n = limit := lastByte_last hsize hlt.le
      funext m
      rcases eq_or_ne m n with rfl | hne
      · rw [slots_eq (by rwa [hlast] : Tiled sb (d.page m) (lastByte d.iSize m) as)]
        apply slots_eq
        rw [setPage_page_self]
        rwa [← hlast] at has'
      · unfold slots setPage
        simp only [Function.update_of_ne hne]
    exact ⟨_, d.setPage n page₂, hdlen, hset₁, hset₂, rfl, hwf,
      Added.noBlock hbegin (hlive'.trans hlive.symm) hslots rfl rfl⟩

lemma Added.of_same {l : Link} {err : ℤ} {d'' : Dir} (hsame : d.Same d')
    (h : Added env d' l err d'') : Added env d l err d'' := by
  cases h with
  | unread hread h => exact Added.unread hread (hsame.trans h)
  | «exists» hx hname h => exact Added.exists (by rwa [← hsame.live_eq]) hname (hsame.trans h)
  | noBlock hbegin hlive hslots hsize hversion =>
      exact Added.noBlock hbegin (hlive.trans hsame.live_eq) (hslots.trans hsame.slots_eq)
        (hsize.trans hsame.iSize) (hversion.trans hsame.iVersion)
  | done hbegin hlive hversion =>
      rw [hsame.live_eq] at hlive
      rw [hsame.iVersion] at hversion
      exact Added.done hbegin hlive hversion

/-- The pages that `ext2_add_link` looks at: those of the directory, and the one behind it if all of
them are full. -/
def Reaches (d : Dir) (n : ℕ) : Prop := n < dirPages d.iSize ∨ d.iSize = n * pageSize

lemma Reaches.getPage (h : d.Reaches n) (hd : d.WF sb) (readErr : ℕ → ℤ) :
    ∃ d', d.getPage sb readErr n =
        some (if readErr n ≠ 0 then .error (readErr n) else .ok (d.page n), d') ∧
      d.Same d' ∧ d'.WF sb := h.elim (getPage_spec hd readErr) (getPage_end hd readErr)

lemma Reaches.tiled (h : d.Reaches n) (hd : d.WF sb) :
    ∃ as, Tiled sb (d.page n) (lastByte d.iSize n) as := by
  rcases h with hn | hsize
  · exact hd.tiled n hn
  · rw [lastByte_end hsize]
    exact ⟨[], Packed.nil 0, by simp⟩

/-- A page with records is one of the directory. -/
lemma Reaches.lt_of_mem (h : d.Reaches n) (has : Tiled sb (d.page n) (lastByte d.iSize n) as)
    {a : ℕ × Dirent} (ha : a ∈ as) : n < dirPages d.iSize := by
  refine h.resolve_right fun hsize => ?_
  have hplace := place_of_mem has.packed ha
  have hpos := (has.ok a ha).pos
  rw [lastByte_end hsize] at hplace
  omega

/-- A page with room behind its records is the last one. -/
lemma Reaches.iSize_eq (h : d.Reaches n) (hlt : lastByte d.iSize n < pageSize) :
    d.iSize = n * pageSize + lastByte d.iSize n := by
  rcases h with hn | hsize
  · rw [lt_dirPages_iff] at hn
    unfold lastByte at hlt ⊢
    rw [if_pos hn.le] at hlt ⊢
    omega
  · rw [lastByte_end hsize, hsize, Nat.add_zero]

/-- A page is full, or the call ends in it. -/
lemma addPage_spec (mode : Mode) (hd : d.WF sb) (hn : d.Reaches n) (hlink : LinkOk sb name ino)
    (hsectors : sb.chunkSize ≤ 512 * env.sectors) :
    (∃ d', addPage sb env name ino mode n d = some (.inl d') ∧ d.Same d' ∧ d'.WF sb ∧
        lastByte d.iSize n = pageSize) ∨
      ∃ err d', addPage sb env name ino mode n d = some (.inr (err, d')) ∧ d'.WF sb ∧
        Added env d ⟨name, ino, deType sb.filetype mode⟩ err d' := by
  obtain ⟨d', hget, hsame, hd'⟩ := hn.getPage hd env.readErr
  obtain ⟨as, has⟩ := hn.tiled hd
  unfold addPage
  rw [hget]
  by_cases hread : env.readErr n = 0
  · obtain ⟨r, hscan, hr⟩ := addLoop_spec name has (hd.dvd_lastByte n) (lastByte_le _ _)
      hlink.length_lt
    simp only [Option.bind_eq_bind, Option.bind_some, if_neg (not_not.mpr hread), hsame.iSize,
      hscan]
    cases r with
    | full => exact Or.inl ⟨d', rfl, hsame, hd', hr⟩
    | atEnd p =>
        obtain ⟨rfl, hlt⟩ := hr
        obtain ⟨dlen, page₁, page₂, err, d'', hdlen, hset₁, hset₂, hgot, hd'', hadded⟩ :=
          newChunk_spec mode hd' (by rw [hsame.iSize]; exact hn.iSize_eq hlt) hlt
            (by rwa [hsame.page]) hlink hsectors
        rw [hsame.page] at hset₁
        refine Or.inr ⟨err, d'', ?_, hd'', hadded.of_same hsame⟩
        simp [hdlen, hset₁, hset₂, hgot]
    | eexist =>
        obtain ⟨a, ha, hnames⟩ := hr
        have hmem := mem_live_of_mem (hn.lt_of_mem has ha) has ha hnames.1
        exact Or.inr ⟨_, d', rfl, hd', Added.exists hmem hnames.2 hsame⟩
    | eio => exact absurd hr not_false
    | gotIt p nameLen recLen =>
        have hlt : n < dirPages d.iSize := by
          obtain ⟨pre, a, post, rfl, -⟩ := hr
          exact hn.lt_of_mem has (by simp : a ∈ pre ++ a :: post)
        rw [← hsame.page, ← hsame.iSize] at has hr
        obtain ⟨err, d'', hgot, hd'', hadded⟩ :=
          gotIt_spec mode hd' (by rwa [hsame.iSize]) has hlink hr
        refine Or.inr ⟨err, d'', ?_, hd'', hadded.of_same hsame⟩
        simp [hgot]
  · refine Or.inr ⟨env.readErr n, d', ?_, hd', Added.unread hread hsame⟩
    simp [if_pos hread]

/-- **Making an entry** adds it to the live entries or leaves them as they are, and does not come to
`BUG`. -/
theorem addLink_spec (mode : Mode) (hd : d.WF sb) (hlink : LinkOk sb name ino)
    (hsectors : sb.chunkSize ≤ 512 * env.sectors) :
    ∃ err d', d.addLink sb env name ino mode = some (err, d') ∧ d'.WF sb ∧
      Added env d ⟨name, ino, deType sb.filetype mode⟩ err d' := by
  have hbody : ∀ n ∈ List.range (dirPages d.iSize), ∀ d', (d.Same d' ∧ d'.WF sb) →
      (∃ d'', addPage sb env name ino mode n d' = some (.inl d'') ∧ (d.Same d'' ∧ d''.WF sb) ∧
        lastByte d.iSize n = pageSize) ∨
      ∃ r, addPage sb env name ino mode n d' = some (.inr r) ∧ r.2.WF sb ∧
        Added env d ⟨name, ino, deType sb.filetype mode⟩ r.1 r.2 := by
    rintro n hn d' ⟨hsame, hd'⟩
    have hreach : d'.Reaches n := Or.inl (by rw [hsame.iSize]; exact List.mem_range.mp hn)
    rcases addPage_spec mode hd' hreach hlink hsectors with
      ⟨d'', hpage, hsame', hd'', hfull⟩ | ⟨err, d'', hpage, hd'', hadded⟩
    · rw [hsame.iSize] at hfull
      exact Or.inl ⟨d'', hpage, ⟨hsame.trans hsame', hd''⟩, hfull⟩
    · exact Or.inr ⟨(err, d''), hpage, hd'', hadded.of_same hsame⟩
  unfold addLink
  rw [List.range_succ, runOver_append]
  rcases runOver_search hbody ⟨Same.refl d, hd⟩ with
    ⟨d', hrun, ⟨hsame, hd'⟩, hfull⟩ | ⟨n, -, r, hrun, hd', hadded⟩
  · -- all pages are full, so that the next one is where the directory ends
    have hend : d'.iSize = dirPages d.iSize * pageSize := by
      rw [hsame.iSize]
      rcases hpages : dirPages d.iSize with _ | k
      · unfold dirPages pageSize at *
        omega
      · have hk := hfull k (List.mem_range.mpr (by omega))
        unfold lastByte dirPages pageSize at *
        rw [if_pos (by omega)] at hk
        omega
    have hempty : lastByte d'.iSize (dirPages d.iSize) ≠ pageSize := by
      rw [lastByte_end hend]
      norm_num [pageSize]
    rw [hrun]
    rcases addPage_spec mode hd' (Or.inr hend) hlink hsectors with
      ⟨-, -, -, -, hfull'⟩ | ⟨err, d'', hpage, hd'', hadded⟩
    · exact absurd hfull' hempty
    · refine ⟨err, d'', ?_, hd'', hadded.of_same hsame⟩
      simp [runOver, hpage]
  · rw [hrun]
    exact ⟨r.1, r.2, rfl, hd', hadded⟩

end add

/-! ## Redirecting and deleting an entry -/

/-- `ext2_set_link`, for the record at `p` in page `n`; `none` is `BUG`, too. -/
def setLink (sb : DirSb) (env : DirEnv) (d : Dir) (n p ino : ℕ) (mode : Mode) : Option Dir := do
  let de ← direntAt (d.page n) p
  if env.beginErr ≠ 0 then none
  else
    let page ← setLinkAt sb (d.page n) p ino mode
    some ((d.setPage n page).commit (n * pageSize + p) de.len)

/-- `ext2_delete_entry`, for the record at `p` in page `n`; `none` is `BUG`, too. -/
def deleteEntry (sb : DirSb) (env : DirEnv) (d : Dir) (n p : ℕ) : Option (ℤ × Dir) := do
  match ← deleteAt sb (d.page n) p with
  | none => some (-eio, d)
  | some (page, start, stop) =>
      if env.beginErr ≠ 0 then none
      else
        let pos := n * pageSize + start
        some (env.commitErr, (d.setPage n page).commit pos (stop - start))

section edit

variable {sb : DirSb} {env : DirEnv} {d : Dir} {n p ino : ℕ} {l : Link}

/-- **Redirecting an entry.** -/
theorem setLink_spec (hd : d.WF sb) (h : d.Holds n p l) (hbegin : env.beginErr = 0)
    (hino : ino ≠ 0) (hle : ino ≤ sb.inodesCount) (mode : Mode) :
    ∃ d', d.setLink sb env n p ino mode = some d' ∧ d'.WF sb ∧ d'.iVersion = d.iVersion + 1 ∧
      Splice [placeIn n (p, l)]
        [placeIn n (p, { l with inode := ino, fileType := deType sb.filetype mode })] d.live
        d'.live := by
  obtain ⟨pre, a, post, has, rfl, hused, rfl, hfits⟩ := h.exists_record hd
  obtain ⟨page', a', hset, has', -, hlive⟩ :=
    setLinkAt_spec mode has (lastByte_le _ _) hino hle
  have hde := (packed_middle has.packed).2.1
  have hsplice : Splice [(a.1, linkAt (d.page n) a)] [(a.1, { linkAt (d.page n) a with
      inode := ino, fileType := deType sb.filetype mode })] (liveOf (d.page n) (pre ++ a :: post))
      (liveOf page' (pre ++ ([a'] ++ post))) := by
    refine ⟨liveOf (d.page n) pre, liveOf (d.page n) post, ?_, hlive⟩
    rw [liveOf_append, liveOf_cons, liveOf_singleton, if_pos hused]
  have hsize : ((d.setPage n page').commit (n * pageSize + a.1) a.2.len).iSize = d.iSize :=
    commit_iSize hfits
  have hname : linkAt (d.page n) a ∈ d.live.map Prod.snd := List.mem_map_of_mem h.mem_live
  obtain ⟨x, hx, hxl⟩ := List.mem_map.mp hname
  obtain ⟨hwf, hlive'⟩ := hd.update h.1 has has' hsplice
    (by simpa [← hxl] using hd.named x hx) hsize rfl rfl rfl
  refine ⟨_, ?_, hwf, rfl, hlive'⟩
  simp [setLink, hde, hbegin, hset]

/-- **Deleting an entry.** -/
theorem deleteEntry_spec (hd : d.WF sb) (h : d.Holds n p l) (hbegin : env.beginErr = 0) :
    ∃ d', d.deleteEntry sb env n p = some (env.commitErr, d') ∧ d'.WF sb ∧
      d'.iVersion = d.iVersion + 1 ∧ Splice [placeIn n (p, l)] [] d.live d'.live := by
  obtain ⟨pre, a, post, has, rfl, hused, rfl, hfits⟩ := h.exists_record hd
  obtain ⟨page', as', q, hdel, hq, has', hlive⟩ :=
    deleteAt_spec has (hd.dvd_lastByte n) (lastByte_le _ _)
  have hsplice : Splice [(a.1, linkAt (d.page n) a)] [] (liveOf (d.page n) (pre ++ a :: post))
      (liveOf page' as') := by
    refine ⟨liveOf (d.page n) pre, liveOf (d.page n) post, ?_, hlive⟩
    rw [liveOf_append, liveOf_cons, liveOf_singleton, if_pos hused]
  have hsize : ((d.setPage n page').commit (n * pageSize + q) (a.1 + a.2.len - q)).iSize =
      d.iSize :=
    commit_iSize (show n * pageSize + q + (a.1 + a.2.len - q) ≤ d.iSize by omega)
  obtain ⟨hwf, hlive'⟩ := hd.update h.1 has has' hsplice (by simp) hsize rfl rfl rfl
  refine ⟨_, ?_, hwf, rfl, hlive'⟩
  simp [deleteEntry, hdel, hbegin]

end edit

/-! ## Evolution -/

/-- How the live entries may change in a call that concerns one name: not at all, or by one entry
that is made, redirected or, if the call `removes` entries, removed. -/
inductive Changes (removes : Prop) (name : DiskName) (xs : List (ℕ × Link)) :
    List (ℕ × Link) → Prop
  | same : Changes removes name xs xs
  | made {x : ℕ × Link} {ys : List (ℕ × Link)} (hname : x.2.name = name)
      (h : Splice [] [x] xs ys) : Changes removes name xs ys
  | removed {x : ℕ × Link} {ys : List (ℕ × Link)} (hremoves : removes) (hname : x.2.name = name)
      (h : Splice [x] [] xs ys) : Changes removes name xs ys
  | redirected {p : ℕ} {l l' : Link} {ys : List (ℕ × Link)} (hname : l.name = name)
      (hname' : l'.name = name) (h : Splice [(p, l)] [(p, l')] xs ys) : Changes removes name xs ys

/-- A change of a directory that concerns one name. The records are the old ones if the version
is. -/
structure Evolves (removes : Prop) (name : DiskName) (d d' : Dir) : Prop where
  live : Changes removes name d.live d'.live
  version : d.iVersion < d'.iVersion ∨
    d'.iVersion = d.iVersion ∧ d'.iSize = d.iSize ∧ d'.slots = d.slots

section evolves

variable {env : DirEnv} {d d' d'' : Dir} {removes : Prop} {name : DiskName} {l : Link} {err : ℤ}
  {xs ys : List (ℕ × Link)}

lemma Same.evolves (h : d.Same d') (removes : Prop) (name : DiskName) :
    Evolves removes name d d' := by
  refine ⟨?_, Or.inr ⟨h.iVersion, h.iSize, h.slots_eq⟩⟩
  rw [h.live_eq]
  exact Changes.same

lemma Evolves.of_same (h : Evolves removes name d' d'') (hsame : d.Same d') :
    Evolves removes name d d'' := by
  obtain ⟨hlive, hversion⟩ := h
  rw [hsame.live_eq] at hlive
  rw [hsame.iVersion, hsame.iSize, hsame.slots_eq] at hversion
  exact ⟨hlive, hversion⟩

lemma Added.evolves (h : Added env d l err d') (removes : Prop) :
    Evolves removes l.name d d' := by
  cases h with
  | unread _ hsame => exact hsame.evolves _ _
  | «exists» _ _ hsame => exact hsame.evolves _ _
  | noBlock _ hlive hslots hsize hversion =>
      refine ⟨?_, Or.inr ⟨hversion, hsize, hslots⟩⟩
      rw [hlive]
      exact Changes.same
  | done _ hlive hversion => exact ⟨Changes.made rfl hlive, Or.inl (by omega)⟩

/-- Entries of other names stay where they are. -/
lemma Changes.mem_iff (h : Changes removes name xs ys) {x : ℕ × Link}
    (hx : x.2.name ≠ name) : x ∈ ys ↔ x ∈ xs := by
  have hout : ∀ y : ℕ × Link, y.2.name = name → x ≠ y := fun y hy hxy => hx (hxy ▸ hy)
  cases h with
  | same => exact Iff.rfl
  | made hname h =>
      obtain ⟨rest, hold, hnew⟩ := h.exists_perm
      rw [hold.mem_iff, hnew.mem_iff]
      simp [hout _ hname]
  | removed _ hname h =>
      obtain ⟨rest, hold, hnew⟩ := h.exists_perm
      rw [hold.mem_iff, hnew.mem_iff]
      simp [hout _ hname]
  | @redirected p l l' _ hname hname' h =>
      obtain ⟨rest, hold, hnew⟩ := h.exists_perm
      rw [hold.mem_iff, hnew.mem_iff]
      simp [hout (p, l) hname, hout (p, l') hname']

/-- An entry that is not removed is still where it was, perhaps redirected. -/
lemma Changes.keeps (h : Changes removes name xs ys) {p : ℕ} (hl : (p, l) ∈ xs)
    (hkeep : removes → l.name ≠ name) : ∃ l', (p, l') ∈ ys ∧ l'.name = l.name := by
  by_cases hname : l.name = name
  · cases h with
    | same => exact ⟨l, hl, rfl⟩
    | made _ h =>
        obtain ⟨rest, hold, hnew⟩ := h.exists_perm
        exact ⟨l, hnew.mem_iff.mpr (List.mem_append_right _ (hold.mem_iff.mp hl)), rfl⟩
    | removed hremoves _ _ => exact absurd hname (hkeep hremoves)
    | redirected hname₁ hname₂ h =>
        obtain ⟨rest, hold, hnew⟩ := h.exists_perm
        rcases List.mem_append.mp (hold.mem_iff.mp hl) with hmem | hmem
        · obtain ⟨rfl, rfl⟩ := Prod.mk.inj (List.mem_singleton.mp hmem)
          exact ⟨_, hnew.mem_iff.mpr (List.mem_append_left _ (List.mem_singleton_self _)),
            hname₂.trans hname₁.symm⟩
        · exact ⟨l, hnew.mem_iff.mpr (List.mem_append_right _ hmem), rfl⟩
  · exact ⟨l, (h.mem_iff hname).mpr hl, rfl⟩

end evolves

end Dir

end Comp3301.Ext3301
