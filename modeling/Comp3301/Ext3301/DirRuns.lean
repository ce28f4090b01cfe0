import Comp3301.Lib.Refine
import Comp3301.Lib.Table
import Comp3301.Ext3301.Dir

/-!
# The file system: what directories are for

A directory is a map from names to inodes and types. `ext2_make_empty` makes one with the entries
`.` and `..`, and any sequence of searches, additions, removals and redirections, as the callers in
`a3/namei.c` make them, does to the bytes what it does to the map.

* `DirOp` is an operation, `Dir.apply` what the code does, `DirMap.apply` what is meant.
* The kernel promises (`DirOp.Promise`) that a name that is added is not there yet: it looks the
  name up before, and holds the mutex of the directory. `ext2_add_link` itself does not look further
  than the first record with room.
* `DirMap.run_refines` is the refinement. `emptyDir_spec` says when `ext2_empty_dir` lets a
  directory be removed, and `dotdot_spec` that `ext2_dotdot` finds the second entry.
-/

namespace Comp3301.Ext3301

open Comp3301.Lib

/-! ## The first entries -/

/-- `"."`. -/
def dot : DiskName := [0x2e]

/-- `".."`. -/
def dotDot : DiskName := [0x2e, 0x2e]

/-- The record of a name of dots, of which `dots` is copied: what `ext2_make_empty` stores twice,
the second time with the inode before the name. -/
def putDots (sb : DirSb) (page : Page) (p nameLen recLen : ℕ) (dots : List UInt8) (ino : ℕ)
    (mode : Mode) : Option Page := do
  let page ← if p + 7 ≤ pageSize then some (Function.update page (p + 6) (UInt8.ofNat nameLen))
    else none
  let dlen ← recLenToDisk recLen
  let page ← setRecLen page p dlen
  let page ← if p + 8 + dots.length ≤ pageSize then some (putBytes page (p + 8) dots) else none
  let page ← setInum page p ino
  setDeType sb page p mode

namespace Dir

/-- `ext2_make_empty`. -/
def makeEmpty (sb : DirSb) (env : DirEnv) (d : Dir) (ino parent : ℕ) (mode : Mode) :
    Option (ℤ × Dir) :=
  if env.beginErr ≠ 0 then some (env.beginErr, d)
  else do
    let page := blit (d.page 0) 0 sb.chunkSize fun _ => 0
    let page ← putDots sb page 0 1 (dirRecLen 1) [0x2e, 0, 0, 0] ino mode
    let page ← putDots sb page (dirRecLen 1) 2 (sb.chunkSize - dirRecLen 1) [0x2e, 0x2e, 0, 0]
      parent mode
    let d := { d.setPage 0 page with iBlocks := d.iBlocks + env.sectors }
    some (env.commitErr, d.commit 0 sb.chunkSize)

end Dir

section makeEmpty

variable {sb : DirSb} {page : Page} {ino : ℕ} {mode : Mode}

lemma putDots_spec (sb : DirSb) (page : Page) (p nameLen recLen : ℕ) (dots : List UInt8)
    (mode : Mode) (hdots : dots.length = 4) (hend : p + 12 ≤ pageSize) (hrec : recLen ≤ pageSize)
    (hname : nameLen ≤ 4) (hino : ino < 2 ^ 32) :
    ∃ page', putDots sb page p nameLen recLen dots ino mode = some page' ∧
      (∀ x y, y ≤ p ∨ p + 12 ≤ x → SameOn page page' x y) ∧
      direntAt page' p = some ⟨ino, recLen, nameLen, deType sb.filetype mode⟩ ∧
      slice page' (p + 8) nameLen = dots.take nameLen := by
  have hbyte : (UInt8.ofNat nameLen).toNat = nameLen := by
    rw [UInt8.toNat_ofNat', Nat.mod_eq_of_lt (by omega)]
  have hsmall : recLen < 256 ^ 2 := by
    unfold pageSize at hrec
    omega
  refine ⟨Function.update (setLeNat (putBytes (setLeNat (Function.update page (p + 6)
    (UInt8.ofNat nameLen)) (p + 4) 2 recLen) (p + 8) dots) p 4 ino) (p + 7)
      (deType sb.filetype mode), ?_, ?_, ?_, ?_⟩
  · simp only [putDots, setRecLen, setInum, setDeType, recLenToDisk_eq hrec, Option.bind_eq_bind]
    rw [if_pos (by omega), Option.bind_some, Option.bind_some, if_pos (by omega),
      Option.bind_some, if_pos (by omega), Option.bind_some, if_pos (by omega), Option.bind_some,
      if_pos (by omega)]
  · intro x y hxy
    apply SameOn.symm
    apply (sameOn_update _ _ (by omega)).trans
    apply (sameOn_setLeNat _ _ (by omega)).trans
    apply (sameOn_putBytes _ (by omega)).trans
    apply (sameOn_setLeNat _ _ (by omega)).trans
    exact sameOn_update _ _ (by omega)
  · unfold direntAt
    rw [if_pos (by omega)]
    congr 2
    · rw [leNat_update_of_disjoint _ _ (by omega), leNat_setLeNat _ _ (by omega)]
    · rw [leNat_update_of_disjoint _ _ (by omega), leNat_setLeNat_of_disjoint _ _ (by omega),
        leNat_putBytes_of_disjoint _ (by omega), leNat_setLeNat _ _ hsmall]
    · rw [Function.update_of_ne (by omega), setLeNat_of_disjoint _ _ (by omega),
        putBytes_of_disjoint _ (by omega), setLeNat_of_disjoint _ _ (by omega),
        Function.update_self, hbyte]
    · rw [Function.update_self]
  · rw [slice_sameOn (sameOn_update _ _ (by omega)), slice_sameOn (sameOn_setLeNat _ _ (by omega)),
      slice_putBytes_take _ _ (by omega)]

/-- What is wanted of an inode number in an entry. -/
def InoOk (sb : DirSb) (ino : ℕ) : Prop := ino ≠ 0 ∧ ino ≤ sb.inodesCount

/-- The page of a new directory. -/
lemma putDots_twice (sb : DirSb) (page : Page) (mode : Mode) {parent : ℕ} (hino : InoOk sb ino)
    (hparent : InoOk sb parent) :
    ∃ page₁ page₂ as, putDots sb page 0 1 (dirRecLen 1) [0x2e, 0, 0, 0] ino mode = some page₁ ∧
      putDots sb page₁ (dirRecLen 1) 2 (sb.chunkSize - dirRecLen 1) [0x2e, 0x2e, 0, 0] parent mode =
        some page₂ ∧
      Tiled sb page₂ sb.chunkSize as ∧
      liveOf page₂ as = [(0, ⟨dot, ino, deType sb.filetype mode⟩),
        (dirRecLen 1, ⟨dotDot, parent, deType sb.filetype mode⟩)] := by
  have hchunk := sb.le_chunkSize
  have hle := sb.chunkSize_le
  have hpage : pageSize = 4096 := rfl
  rw [dirRecLen_one]
  obtain ⟨page₁, hput₁, -, hde₁, hname₁⟩ := putDots_spec sb page 0 1 12 [0x2e, 0, 0, 0] mode rfl
    (by omega) (by omega) (by omega) (hino.2.trans_lt sb.count_lt)
  obtain ⟨page₂, hput₂, hsame, hde₂, hname₂⟩ := putDots_spec sb page₁ 12 2 (sb.chunkSize - 12)
    [0x2e, 0x2e, 0, 0] mode rfl (by omega) (by omega) (by omega)
    (hparent.2.trans_lt sb.count_lt)
  rw [direntAt_congr (hsame 0 (0 + 8) (Or.inl (by omega)))] at hde₁
  rw [slice_sameOn (hsame (0 + 8) (0 + 8 + 1) (Or.inl (by omega)))] at hname₁
  set de₁ : Dirent := ⟨ino, 12, 1, deType sb.filetype mode⟩
  set de₂ : Dirent := ⟨parent, sb.chunkSize - 12, 2, deType sb.filetype mode⟩
  have hlen₁ : de₁.len = 12 := len_mk (by omega)
  have hlen₂ : de₂.len = sb.chunkSize - 12 := len_mk (by omega)
  have hpacked := (packed_one hde₁ hlen₁ (by omega)).append (packed_one hde₂ hlen₂ (by omega))
  rw [show 12 + (sb.chunkSize - 12) = sb.chunkSize by omega] at hpacked
  have hok₁ : SlotOk sb (0, de₁) := by
    refine ⟨?_, ?_, ?_, ?_, hino.2⟩
    all_goals simp only [hlen₁]
    · exact le_of_eq dirRecLen_one
    · exact le_of_eq dirRecLen_one
    · rw [Nat.div_eq_of_lt (by omega), Nat.zero_div]
  have hok₂ : SlotOk sb (12, de₂) := by
    refine ⟨?_, ?_, ?_, ?_, hparent.2⟩
    all_goals simp only [hlen₂]
    · rw [dirRecLen_one]
      omega
    · have hdvd : 4 ∣ sb.chunkSize := sb.four_dvd_chunkSize
      omega
    · exact le_trans (show dirRecLen 2 ≤ 12 from le_refl _) (by omega)
    · rw [Nat.div_eq_of_lt (by omega), Nat.div_eq_of_lt (by omega)]
  refine ⟨page₁, page₂, _, hput₁, hput₂, ⟨hpacked, by simpa using ⟨hok₁, hok₂⟩⟩, ?_⟩
  rw [List.singleton_append, liveOf_cons, liveOf_singleton, liveOf_singleton, if_pos hino.1,
    if_pos hparent.1, linkAt_eq hname₁, linkAt_eq hname₂]
  rfl

/-- **A new directory** has the entries `.` and `..`. -/
theorem Dir.makeEmpty_spec {d : Dir} {env : DirEnv} {parent : ℕ} (hnew : d.iSize = 0)
    (herror : ∀ n, d.error n = false) (hbegin : env.beginErr = 0)
    (hsectors : sb.chunkSize ≤ 512 * env.sectors) (hino : InoOk sb ino)
    (hparent : InoOk sb parent) (mode : Mode) :
    ∃ d', d.makeEmpty sb env ino parent mode = some (env.commitErr, d') ∧ d'.WF sb ∧
      d'.live = [(0, ⟨dot, ino, deType sb.filetype mode⟩),
        (dirRecLen 1, ⟨dotDot, parent, deType sb.filetype mode⟩)] := by
  obtain ⟨page₁, page₂, as, hput₁, hput₂, has, hlive⟩ :=
    putDots_twice sb (blit (d.page 0) 0 sb.chunkSize fun _ => 0) mode hino hparent
  have hpos := sb.chunkSize_pos
  have hempty : d.WF sb := by
    refine ⟨?_, ?_, ?_, ?_, herror⟩
    · rw [hnew]
      exact dvd_zero _
    · intro n hn
      rw [lt_dirPages_iff, hnew] at hn
      exact absurd hn (Nat.not_lt_zero _)
    · intro x hx
      obtain ⟨n, hn, -⟩ := Dir.mem_live.mp hx
      rw [lt_dirPages_iff, hnew] at hn
      exact absurd hn (Nat.not_lt_zero _)
    · rw [hnew]
      exact Nat.zero_le _
  have hnone : d.live = [] := by
    rw [Dir.live, hnew]
    rfl
  set d' : Dir :=
    { d.setPage 0 page₂ with iBlocks := d.iBlocks + env.sectors }.commit 0 sb.chunkSize with hd'
  have hsize : d'.iSize = 0 * pageSize + sb.chunkSize := by
    rw [Nat.zero_mul]
    exact if_pos (show d.iSize < 0 + sb.chunkSize by omega)
  have hblocks : d'.iSize ≤ 512 * d'.iBlocks := by
    rw [hsize, hd']
    simp only [Dir.commit]
    omega
  have hsplice : Splice [] (liveOf page₂ as) (liveOf (d.page 0) []) (liveOf page₂ as) :=
    ⟨[], [], rfl, (List.append_nil _).symm⟩
  obtain ⟨hwf, pre, post, hold, hlive'⟩ := hempty.grow (n := 0) (by simpa using hnew) hsize
    (Nat.zero_le _) sb.chunkSize_le (dvd_refl _) ⟨Packed.nil 0, by simp⟩ has hsplice
    (by simp [hlive, dot, dotDot]) rfl hblocks rfl
  refine ⟨d', ?_, hwf, ?_⟩
  · rw [Dir.makeEmpty, if_neg (not_not.mpr hbegin)]
    simp only [hput₁, hput₂, Option.bind_eq_bind, Option.bind_some, hd']
  · rw [hnone] at hold
    obtain ⟨rfl, hrest⟩ := List.append_eq_nil_iff.mp hold.symm
    obtain ⟨-, rfl⟩ := List.append_eq_nil_iff.mp hrest
    rw [hlive', hlive]
    simp [placeIn]

/-- A directory without pages. -/
def Dir.blank : Dir where
  iSize := 0
  iBlocks := 0
  iVersion := 0
  dirStartLookup := 0
  page _ _ := 0
  checked _ := false
  error _ := false

/-- Nothing goes wrong, and a new chunk takes two sectors. -/
def DirEnv.calm : DirEnv where
  readErr _ := 0
  beginErr := 0
  sectors := 2
  commitErr := 0

lemma inoOk_kilobyte {ino : ℕ} (hpos : ino ≠ 0) (hle : ino ≤ 100) : InoOk DirSb.kilobyte ino :=
  ⟨hpos, hle⟩

/-- The entries of a new directory `11` in the root directory. -/
lemma Dir.makeEmpty_blank (mode : Mode) :
    ∃ d, Dir.blank.makeEmpty DirSb.kilobyte DirEnv.calm 11 2 mode = some (0, d) ∧
      d.WF DirSb.kilobyte ∧ d.live = [(0, ⟨dot, 11, deType true mode⟩),
        (dirRecLen 1, ⟨dotDot, 2, deType true mode⟩)] :=
  Dir.makeEmpty_spec rfl (fun _ => rfl) rfl (le_refl _)
    (inoOk_kilobyte (by decide) (by decide)) (inoOk_kilobyte (by decide) (by decide)) mode

end makeEmpty

/-! ## Empty directories -/

/-- The byte at `k`. -/
def byteAt (page : Page) (k : ℕ) : Option UInt8 := if k < pageSize then some (page k) else none

/-- The body of the loop over a page in `ext2_empty_dir`; leaving the loop is `not_empty`. -/
def emptyBody (page : Page) (ino : ℕ) (a : ℕ × Dirent) (_ : Unit) : Option (Unit ⊕ Unit) :=
  if a.2.recLen = 0 then some (.inr ())
  else if a.2.inode ≠ 0 then do
    -- check for . and ..
    let c ← byteAt page (a.1 + 8)
    if c ≠ 0x2e then some (.inr ())
    else if 2 < a.2.nameLen then some (.inr ())
    else if a.2.nameLen < 2 then
      if a.2.inode ≠ ino then some (.inr ()) else some (.inl ())
    else
      let c ← byteAt page (a.1 + 9)
      if c ≠ 0x2e then some (.inr ()) else some (.inl ())
  else some (.inl ())

namespace Dir

/-- A page in `ext2_empty_dir`. -/
def emptyPage (sb : DirSb) (readErr : ℕ → ℤ) (ino n : ℕ) (d : Dir) : Option (Dir ⊕ Dir) := do
  let (page, d) ← d.getPage sb readErr n
  match page with
  | .error _ => some (.inl d)
  | .ok page =>
      let limit := lastByte d.iSize n + 1 - dirRecLen 1
      match ← loopFor (recordRound (slotAt page) limit (emptyBody page ino)) (pageSize + 1)
        (0, ()) with
      | .inl () => some (.inl d)
      | .inr () => some (.inr d)

/-- `ext2_empty_dir`, of directory `ino`. -/
def emptyDir (sb : DirSb) (readErr : ℕ → ℤ) (d : Dir) (ino : ℕ) : Option (Bool × Dir) := do
  match ← runOver (emptyPage sb readErr ino) (List.range (dirPages d.iSize)) d with
  | .inl d => some (true, d)
  | .inr d => some (false, d)

/-- `ext2_dotdot`: the place of the second record in page 0. -/
def dotdot (sb : DirSb) (readErr : ℕ → ℤ) (d : Dir) : Option (Option ℕ × Dir) := do
  let (page, d) ← d.getPage sb readErr 0
  match page with
  | .error _ => some (none, d)
  | .ok page => do
      let de ← direntAt page 0
      some (some de.len, d)

end Dir

/-- An entry that an empty directory may have: `.` for itself, or `..`. -/
def DotLink (ino : ℕ) (l : Link) : Prop := l.name = dot ∧ l.inode = ino ∨ l.name = dotDot

instance (ino : ℕ) (l : Link) : Decidable (DotLink ino l) := inferInstanceAs (Decidable (_ ∨ _))

section emptyDir

variable {sb : DirSb} {page : Page} {limit ino : ℕ} {a : ℕ × Dirent} {as : List (ℕ × Dirent)}

/-- A record that a page of an empty directory may have. -/
def DotSlot (page : Page) (ino : ℕ) (a : ℕ × Dirent) : Prop :=
  a.2.inode = 0 ∨ DotLink ino (linkAt page a)

instance (page : Page) (ino : ℕ) : DecidablePred (DotSlot page ino) :=
  fun _ => inferInstanceAs (Decidable (_ ∨ _))

lemma emptyBody_eq (hend : a.1 + a.2.len ≤ pageSize) (hok : SlotOk sb a)
    (hraw : a.2.recLen = a.2.len) (hnamed : a.2.inode ≠ 0 → a.2.nameLen ≠ 0) :
    emptyBody page ino a () =
      if decide (¬ DotSlot page ino a) then some (.inr ()) else some (.inl ()) := by
  have hpos := hok.pos
  have hmin := hok.minimal
  rw [dirRecLen_one] at hmin
  unfold emptyBody
  rw [if_neg (by omega)]
  by_cases hfree : a.2.inode = 0
  · have hdot : DotSlot page ino a := Or.inl hfree
    rw [if_neg (not_not.mpr hfree), decide_eq_false (not_not.mpr hdot)]
    rfl
  · rw [if_pos hfree]
    have hlive : DotSlot page ino a ↔ DotLink ino (linkAt page a) := or_iff_right hfree
    simp only [byteAt, if_pos (show a.1 + 8 < pageSize by omega),
      if_pos (show a.1 + 9 < pageSize by omega), Option.bind_eq_bind, Option.bind_some, hlive]
    -- the name by its length
    obtain ⟨k, hk⟩ := Nat.exists_eq_succ_of_ne_zero (hnamed hfree)
    rcases k with _ | _ | k
    · simp [DotLink, linkAt, dot, dotDot, hk, slice]
      split_ifs <;> simp_all
    · simp [DotLink, linkAt, dot, dotDot, hk, slice, List.range']
      split_ifs <;> simp_all
    · simp [DotLink, linkAt, dot, dotDot, hk, slice, List.range']

/-- A page. -/
lemma emptyLoop_eq (h : Tiled sb page limit as) (ino : ℕ) (hlimit : sb.chunkSize ∣ limit)
    (hpage : limit ≤ pageSize) (hnamed : ∀ a ∈ as, a.2.inode ≠ 0 → a.2.nameLen ≠ 0) :
    loopFor (recordRound (slotAt page) (limit + 1 - dirRecLen 1) (emptyBody page ino))
        (pageSize + 1) (0, ()) =
      some (if ∀ a ∈ as, DotSlot page ino a then .inl () else .inr ()) := by
  have hcount := h.packed.length_le
  have hbody : ∀ a ∈ as, emptyBody page ino a () =
      if decide (¬ DotSlot page ino a) then some (.inr ()) else some (.inl ()) := by
    intro a ha
    have hok := h.ok a ha
    have hplace := place_of_mem h.packed ha
    have hpos := hok.pos
    exact emptyBody_eq (by omega) hok (hok.recLen_eq (show a.1 < limit by omega) hlimit hpage)
      (hnamed a ha)
  rw [recordLoop_cut (passes_short h.packed h.ok) _ _ (by omega), runOver_eq_find hbody]
  rcases hfind : as.find? (fun a => decide (¬ DotSlot page ino a)) with _ | a
  · have hall : ∀ a ∈ as, DotSlot page ino a := by
      intro a ha
      simpa using List.find?_eq_none.mp hfind a ha
    rw [if_pos hall]
    rfl
  · have hbad : ¬ DotSlot page ino a := by simpa using List.find?_some hfind
    rw [if_neg fun hall => hbad (hall a (List.mem_of_find?_eq_some hfind))]
    rfl

namespace Dir

variable {d d' : Dir} {n : ℕ} {readErr : ℕ → ℤ}

lemma emptyPage_spec (hd : d.WF sb) (hn : n < dirPages d.iSize) (readErr : ℕ → ℤ) (ino : ℕ) :
    ∃ d', d.Same d' ∧ d'.WF sb ∧ emptyPage sb readErr ino n d =
      if readErr n = 0 → ∀ x ∈ d.liveIn n, DotLink ino x.2 then some (.inl d')
      else some (.inr d') := by
  obtain ⟨d', hget, hsame, hd'⟩ := getPage_spec hd readErr hn
  obtain ⟨as, has⟩ := hd.tiled n hn
  refine ⟨d', hsame, hd', ?_⟩
  unfold emptyPage
  rw [hget]
  by_cases hread : readErr n = 0
  · have hall : (∀ a ∈ as, DotSlot (d.page n) ino a) ↔ ∀ x ∈ d.liveIn n, DotLink ino x.2 := by
      rw [liveIn_eq has, List.forall_mem_map]
      constructor
      · intro h x hx
        obtain ⟨a, ha, hused, rfl⟩ := mem_liveOf.mp hx
        exact (h a ha).resolve_left hused
      · intro h a ha
        by_cases hused : a.2.inode = 0
        · exact Or.inl hused
        · exact Or.inr (h _ (mem_liveOf.mpr ⟨a, ha, hused, rfl⟩))
    have hloop := emptyLoop_eq has ino (hd.dvd_lastByte n) (lastByte_le _ _) fun a ha =>
      hd.nameLen_ne hn has ha
    simp only [Option.bind_eq_bind, Option.bind_some, if_neg (not_not.mpr hread), hsame.iSize,
      hloop]
    by_cases hdots : ∀ a ∈ as, DotSlot (d.page n) ino a
    · rw [if_pos hdots, if_pos fun _ => hall.mp hdots]
    · rw [if_neg hdots, if_neg fun h => hdots (hall.mpr (h hread))]
  · have hskip : readErr n = 0 → ∀ x ∈ d.liveIn n, DotLink ino x.2 := fun h => absurd h hread
    rw [if_pos hskip]
    simp [hread]

/-- **A directory counts as empty** when the pages that can be read hold no entries but `.`, for the
directory itself, and `..`. Pages that cannot be read are passed over. -/
theorem emptyDir_spec (hd : d.WF sb) (readErr : ℕ → ℤ) (ino : ℕ) :
    ∃ r d', d.emptyDir sb readErr ino = some (r, d') ∧ d.Same d' ∧ d'.WF sb ∧
      (r = true ↔ ∀ n < dirPages d.iSize, readErr n = 0 → ∀ x ∈ d.liveIn n, DotLink ino x.2) := by
  have hbody : ∀ n ∈ List.range (dirPages d.iSize), ∀ d', (d.Same d' ∧ d'.WF sb) →
      (∃ d'', emptyPage sb readErr ino n d' = some (.inl d'') ∧ (d.Same d'' ∧ d''.WF sb) ∧
        (readErr n = 0 → ∀ x ∈ d.liveIn n, DotLink ino x.2)) ∨
      ∃ r, emptyPage sb readErr ino n d' = some (.inr r) ∧ (d.Same r ∧ r.WF sb) ∧
        ¬ (readErr n = 0 → ∀ x ∈ d.liveIn n, DotLink ino x.2) := by
    rintro n hn d' ⟨hsame, hd'⟩
    have hn' := List.mem_range.mp hn
    obtain ⟨d'', hsame', hd'', hpage⟩ :=
      emptyPage_spec hd' (by rwa [hsame.iSize]) readErr ino
    rw [hsame.liveIn_eq] at hpage
    by_cases hdots : readErr n = 0 → ∀ x ∈ d.liveIn n, DotLink ino x.2
    · rw [if_pos hdots] at hpage
      exact Or.inl ⟨d'', hpage, ⟨hsame.trans hsame', hd''⟩, hdots⟩
    · rw [if_neg hdots] at hpage
      exact Or.inr ⟨d'', hpage, ⟨hsame.trans hsame', hd''⟩, hdots⟩
  unfold emptyDir
  rcases runOver_search hbody ⟨Same.refl d, hd⟩ with
    ⟨d', hrun, ⟨hsame, hd'⟩, hall⟩ | ⟨n, hn, r, hrun, ⟨hsame, hd'⟩, hbad⟩
  · rw [hrun]
    refine ⟨true, d', rfl, hsame, hd', iff_of_true rfl ?_⟩
    intro n hn
    exact hall n (List.mem_range.mpr hn)
  · rw [hrun]
    refine ⟨false, r, rfl, hsame, hd', iff_of_false Bool.false_ne_true ?_⟩
    intro hall
    exact hbad (hall n (List.mem_range.mp hn))

/-- A new directory. -/
theorem emptyDir_spec_blank :
    ∃ d, blank.makeEmpty DirSb.kilobyte DirEnv.calm 11 2 0x41ed = some (0, d) ∧
      ∃ r d', d.emptyDir DirSb.kilobyte (fun _ => 0) 11 = some (r, d') ∧ d.Same d' ∧
        d'.WF DirSb.kilobyte ∧ (r = true ↔
          ∀ n < dirPages d.iSize, (0 : ℤ) = 0 → ∀ x ∈ d.liveIn n, DotLink 11 x.2) := by
  obtain ⟨d, hmake, hd, -⟩ := makeEmpty_blank 0x41ed
  exact ⟨d, hmake, emptyDir_spec hd (fun _ => 0) 11⟩

end Dir

end emptyDir

/-! ## Operations -/

/-- A map from names to inodes and types: what a directory is for. -/
abbrev DirMap := DiskName → Option (ℕ × UInt8)

/-- What is done to a directory: `ext2_inode_by_name`, `ext2_add_link`, and `ext2_find_entry` with
`ext2_delete_entry` or `ext2_set_link` for what it finds. -/
inductive DirOp where
  | inodeByName (readErr : ℕ → ℤ) (name : DiskName)
  | addLink (env : DirEnv) (name : DiskName) (ino : ℕ) (mode : Mode)
  | deleteEntry (env : DirEnv) (name : DiskName)
  | setLink (env : DirEnv) (name : DiskName) (ino : ℕ) (mode : Mode)

/-- The operation, with the inode it finds or its error. -/
def Dir.apply (sb : DirSb) (op : DirOp) (d : Dir) : Option (ℤ × Dir) :=
  match op with
  | .inodeByName readErr name => (d.inodeByName sb readErr name).map fun r => ((r.1 : ℤ), r.2)
  | .addLink env name ino mode => d.addLink sb env name ino mode
  | .deleteEntry env name => do
      match ← d.findEntry sb env.readErr name with
      | (none, d) => some (-enoent, d)
      | (some (n, p), d) => d.deleteEntry sb env n p
  | .setLink env name ino mode => do
      match ← d.findEntry sb env.readErr name with
      | (none, d) => some (-enoent, d)
      | (some (n, p), d) => do
          let d ← d.setLink sb env n p ino mode
          some (0, d)

/-- The operation on the map. An entry that cannot be flushed has been made all the same. -/
def DirMap.apply (sb : DirSb) (op : DirOp) (m : DirMap) : ℤ × DirMap :=
  match op with
  | .inodeByName _ name => ((m name).elim 0 fun v => (v.1 : ℤ), m)
  | .addLink env name ino mode =>
      if env.beginErr ≠ 0 then (env.beginErr, m)
      else (env.commitErr, Function.update m name (some (ino, deType sb.filetype mode)))
  | .deleteEntry env name =>
      if m name = none then (-enoent, m) else (env.commitErr, Function.update m name none)
  | .setLink _ name ino mode =>
      if m name = none then (-enoent, m)
      else (0, Function.update m name (some (ino, deType sb.filetype mode)))

/-- The name that an operation is about. -/
def DirOp.name : DirOp → DiskName
  | .inodeByName _ name => name
  | .addLink _ name _ _ => name
  | .deleteEntry _ name => name
  | .setLink _ name _ _ => name

/-- Whether it removes the entry. -/
def DirOp.Removes : DirOp → Prop
  | .deleteEntry _ _ => True
  | _ => False

/-- What fails to be read. -/
def DirOp.readErr : DirOp → ℕ → ℤ
  | .inodeByName readErr _ => readErr
  | .addLink env _ _ _ => env.readErr
  | .deleteEntry env _ => env.readErr
  | .setLink env _ _ _ => env.readErr

/-- What the functions need: names and inodes are possible ones, blocks that are there can be
written, and a new chunk gets blocks. -/
def DirOp.Safe (sb : DirSb) : DirOp → Prop
  | .inodeByName _ _ => True
  | .addLink env name ino _ => sb.chunkSize ≤ 512 * env.sectors ∧ LinkOk sb name ino
  | .deleteEntry env _ => env.beginErr = 0
  | .setLink env _ ino _ => env.beginErr = 0 ∧ InoOk sb ino

/-- What the callers promise besides: pages can be read, and a name that is added is a new one. -/
structure DirOp.Promise (sb : DirSb) (op : DirOp) (m : DirMap) : Prop where
  safe : op.Safe sb
  read : ∀ n, op.readErr n = 0
  fresh : ∀ env name ino mode, op = .addLink env name ino mode → m name = none

/-- The directory holds the map. -/
structure Dir.Represents (sb : DirSb) (d : Dir) (m : DirMap) : Prop where
  wf : d.WF sb
  table : Tabulates (fun x : ℕ × Link => x.2.name) (fun x => (x.2.inode, x.2.fileType)) d.live m

section runs

variable {sb : DirSb} {d d' : Dir} {m : DirMap} {name : DiskName} {readErr : ℕ → ℤ} {n p : ℕ}
  {l l' : Link}

lemma Dir.Represents.of_same (h : d.Represents sb m) (hsame : d.Same d') (hd' : d'.WF sb) :
    d'.Represents sb m := by
  refine ⟨hd', ?_⟩
  rw [hsame.live_eq]
  exact h.table

lemma Dir.Holds.of_same (h : d.Holds n p l) (hsame : d.Same d') : d'.Holds n p l := by
  unfold Dir.Holds at *
  rwa [hsame.iSize, hsame.page, hsame.slots_eq]

/-- The search finds what the map says. -/
lemma Dir.Represents.find (h : d.Represents sb m) (hread : ∀ n, readErr n = 0)
    (name : DiskName) :
    ∃ d', d'.Represents sb m ∧
      ((m name = none ∧ d.findEntry sb readErr name = some (none, d')) ∨
        ∃ n p l, d.findEntry sb readErr name = some (some (n, p), d') ∧ d'.Holds n p l ∧
          l.name = name ∧ m name = some (l.inode, l.fileType)) := by
  obtain ⟨r, d', hfind, hsame, hd', hr⟩ := Dir.findEntry_spec h.wf readErr name
  refine ⟨d', h.of_same hsame hd', ?_⟩
  rcases r with _ | ⟨n, p⟩
  · refine Or.inl ⟨?_, hfind⟩
    rw [h.table.get_eq_none_iff]
    intro x hx
    obtain ⟨n, hn, hx⟩ := Dir.mem_live.mp hx
    exact hr n hn (hread n) x hx
  · obtain ⟨l, hholds, rfl⟩ := hr
    exact Or.inr ⟨n, p, l, hfind, hholds.of_same hsame, rfl, h.table.get hholds.mem_live⟩

/-- An entry has been removed. -/
lemma Dir.Represents.erased (h : d.Represents sb m) (hd' : d'.WF sb)
    (hlive : Splice [placeIn n (p, l)] [] d.live d'.live) :
    d'.Represents sb (Function.update m l.name none) := by
  obtain ⟨rest, hold, hnew⟩ := hlive.exists_perm
  exact ⟨hd', ((h.table.perm hold.symm).erase).perm hnew⟩

/-- An entry says something else. -/
lemma Dir.Represents.replaced (h : d.Represents sb m) (hd' : d'.WF sb) (hname : l'.name = l.name)
    (hlive : Splice [placeIn n (p, l)] [placeIn n (p, l')] d.live d'.live) :
    d'.Represents sb (Function.update m l.name (some (l'.inode, l'.fileType))) := by
  obtain ⟨rest, hold, hnew⟩ := hlive.exists_perm
  exact ⟨hd', ((h.table.perm hold.symm).replace hname).perm hnew⟩

/-- An entry has been made. -/
lemma Dir.Represents.added (h : d.Represents sb m) (hd' : d'.WF sb) (hnone : m l.name = none)
    (hlive : Splice [] [(p, l)] d.live d'.live) :
    d'.Represents sb (Function.update m l.name (some (l.inode, l.fileType))) := by
  obtain ⟨rest, hold, hnew⟩ := hlive.exists_perm
  exact ⟨hd', ((h.table.perm hold.symm).insert (x := (p, l)) hnone).perm hnew⟩

/-- The inode of a live entry is read. -/
lemma Dir.Holds.exists_dirent (h : d.Holds n p l) (hd : d.WF sb) :
    ∃ de, direntAt (d.page n) p = some de ∧ de.inode = l.inode := by
  obtain ⟨pre, a, post, has, rfl, -, rfl, -⟩ := h.exists_record hd
  exact ⟨a.2, (packed_middle has.packed).2.1, rfl⟩

/-- **No operation breaks the directory**, whatever fails: it changes at most the entry of its
name. -/
theorem Dir.apply_safe (hd : d.WF sb) {op : DirOp} (hop : op.Safe sb) :
    ∃ r d', d.apply sb op = some (r, d') ∧ d'.WF sb ∧ Dir.Evolves op.Removes op.name d d' := by
  cases op with
  | inodeByName readErr name =>
      obtain ⟨r, d', hfind, hsame, hd', hr⟩ := Dir.findEntry_spec hd readErr name
      rcases r with _ | ⟨n, p⟩
      · refine ⟨0, d', ?_, hd', hsame.evolves _ _⟩
        simp [Dir.apply, Dir.inodeByName, hfind]
      · obtain ⟨l, hholds, rfl⟩ := hr
        obtain ⟨de, hde, -⟩ := (hholds.of_same hsame).exists_dirent hd'
        refine ⟨de.inode, d', ?_, hd', hsame.evolves _ _⟩
        simp [Dir.apply, Dir.inodeByName, hfind, hde]
  | addLink env name ino mode =>
      obtain ⟨err, d', hadd, hd', hadded⟩ := Dir.addLink_spec mode hd hop.2 hop.1
      exact ⟨err, d', hadd, hd', hadded.evolves _⟩
  | deleteEntry env name =>
      obtain ⟨r, d', hfind, hsame, hd', hr⟩ := Dir.findEntry_spec hd env.readErr name
      rcases r with _ | ⟨n, p⟩
      · refine ⟨-enoent, d', ?_, hd', hsame.evolves _ _⟩
        simp [Dir.apply, hfind]
      · obtain ⟨l, hholds, rfl⟩ := hr
        obtain ⟨d'', hdel, hd'', hversion, hlive⟩ :=
          Dir.deleteEntry_spec hd' (hholds.of_same hsame) hop
        have hev : Dir.Evolves True l.name d' d'' :=
          ⟨Dir.Changes.removed trivial rfl hlive, Or.inl (by omega)⟩
        refine ⟨env.commitErr, d'', ?_, hd'', hev.of_same hsame⟩
        simp [Dir.apply, hfind, hdel]
  | setLink env name ino mode =>
      obtain ⟨r, d', hfind, hsame, hd', hr⟩ := Dir.findEntry_spec hd env.readErr name
      rcases r with _ | ⟨n, p⟩
      · refine ⟨-enoent, d', ?_, hd', hsame.evolves _ _⟩
        simp [Dir.apply, hfind]
      · obtain ⟨l, hholds, rfl⟩ := hr
        obtain ⟨d'', hset, hd'', hversion, hlive⟩ :=
          Dir.setLink_spec hd' (hholds.of_same hsame) hop.1 hop.2.1 hop.2.2 mode
        have hnamed : ({ l with inode := ino, fileType := deType sb.filetype mode } : Link).name =
            l.name := rfl
        have hev : Dir.Evolves False l.name d' d'' :=
          ⟨Dir.Changes.redirected rfl hnamed hlive, Or.inl (by omega)⟩
        refine ⟨0, d'', ?_, hd'', hev.of_same hsame⟩
        simp [Dir.apply, hfind, hset]

/-- **The code does to a directory what is meant to be done to the map.** -/
theorem Dir.apply_simulates (sb : DirSb) :
    Simulates (Dir.apply sb) (DirMap.apply sb) (DirOp.Promise sb) (Dir.Represents sb) := by
  intro op d m h hop
  cases op with
  | inodeByName readErr name =>
      have hread : ∀ n, readErr n = 0 := hop.read
      obtain ⟨d', hrep, ⟨hnone, hfind⟩ | ⟨n, p, l, hfind, hholds, -, hsome⟩⟩ := h.find hread name
      · refine ⟨d', ?_, hrep⟩
        simp [Dir.apply, Dir.inodeByName, DirMap.apply, hfind, hnone]
      · obtain ⟨de, hde, hino⟩ := hholds.exists_dirent hrep.wf
        refine ⟨d', ?_, hrep⟩
        simp [Dir.apply, Dir.inodeByName, DirMap.apply, hfind, hsome, hde, hino]
  | addLink env name ino mode =>
      obtain ⟨⟨hsectors, hlink⟩, hread, hfresh⟩ := hop
      have hnone := hfresh _ _ _ _ rfl
      obtain ⟨err, d', hadd, hd', hadded⟩ := Dir.addLink_spec mode h.wf hlink hsectors
      unfold Dir.apply DirMap.apply
      simp only [hadd]
      cases hadded with
      | unread hbad _ => exact absurd (hread _) hbad
      | «exists» hx hname _ => exact absurd hname (h.table.get_eq_none_iff.mp hnone _ hx)
      | noBlock hbegin hlive _ _ _ =>
          rw [if_pos hbegin]
          refine ⟨d', rfl, hd', ?_⟩
          rw [hlive]
          exact h.table
      | done hbegin hlive _ =>
          rw [if_neg (not_not.mpr hbegin)]
          exact ⟨d', rfl, h.added hd' hnone hlive⟩
  | deleteEntry env name =>
      obtain ⟨hbegin, hread, -⟩ := hop
      change env.beginErr = 0 at hbegin
      change ∀ n, env.readErr n = 0 at hread
      obtain ⟨d', hrep, ⟨hnone, hfind⟩ | ⟨n, p, l, hfind, hholds, rfl, hsome⟩⟩ := h.find hread name
      · refine ⟨d', ?_, ?_⟩
        · simp [Dir.apply, DirMap.apply, hfind, hnone]
        · simpa [DirMap.apply, hnone] using hrep
      · obtain ⟨d'', hdel, hd'', -, hlive⟩ := Dir.deleteEntry_spec hrep.wf hholds hbegin
        refine ⟨d'', ?_, ?_⟩
        · simp [Dir.apply, DirMap.apply, hfind, hsome, hdel]
        · simpa [DirMap.apply, hsome] using hrep.erased hd'' hlive
  | setLink env name ino mode =>
      obtain ⟨⟨hbegin, hino⟩, hread, -⟩ := hop
      change ∀ n, env.readErr n = 0 at hread
      obtain ⟨d', hrep, ⟨hnone, hfind⟩ | ⟨n, p, l, hfind, hholds, rfl, hsome⟩⟩ := h.find hread name
      · refine ⟨d', ?_, ?_⟩
        · simp [Dir.apply, DirMap.apply, hfind, hnone]
        · simpa [DirMap.apply, hnone] using hrep
      · obtain ⟨d'', hset, hd'', -, hlive⟩ :=
          Dir.setLink_spec hrep.wf hholds hbegin hino.1 hino.2 mode
        refine ⟨d'', ?_, ?_⟩
        · simp [Dir.apply, DirMap.apply, hfind, hsome, hset]
        · have hnamed : ({ l with inode := ino, fileType := deType sb.filetype mode } : Link).name =
              l.name := rfl
          simpa [DirMap.apply, hsome] using hrep.replaced hd'' hnamed hlive

/-- An entry `a` is made and removed. -/
def makeAndRemove : List DirOp :=
  [.addLink DirEnv.calm [0x61] 12 0x81a4, .deleteEntry DirEnv.calm [0x61]]

lemma linkOk_a : LinkOk DirSb.kilobyte [0x61] 12 :=
  ⟨List.cons_ne_nil _ _, by decide, by decide, by decide⟩

lemma safe_makeAndRemove : ∀ op ∈ makeAndRemove, op.Safe DirSb.kilobyte := by
  intro op hop
  rcases List.mem_cons.mp hop with rfl | hop
  · exact ⟨le_refl _, linkOk_a⟩
  · rw [List.mem_singleton.mp hop]
    rfl

/-- The map of a new directory. -/
def DirMap.dots (ino parent : ℕ) (t : UInt8) : DirMap :=
  Function.update (Function.update (fun _ => none) dotDot (some (parent, t))) dot (some (ino, t))

lemma Dir.Represents.of_makeEmpty {ino parent : ℕ} {t : UInt8} (hd : d.WF sb)
    (hlive : d.live = [(0, ⟨dot, ino, t⟩), (dirRecLen 1, ⟨dotDot, parent, t⟩)]) :
    d.Represents sb (DirMap.dots ino parent t) := by
  refine ⟨hd, ?_⟩
  rw [hlive]
  have hnil := Tabulates.nil (fun x : ℕ × Link => x.2.name) fun x => (x.2.inode, x.2.fileType)
  have hone := hnil.insert (x := (dirRecLen 1, ⟨dotDot, parent, t⟩)) rfl
  exact hone.insert (x := (0, ⟨dot, ino, t⟩)) (by simp [dot, dotDot])

/-- **Directories are maps**: from a new one on, every sequence of operations gives the results, and
leads to the entries, that it gives for the map. -/
theorem DirMap.run_refines {env : DirEnv} {ino parent : ℕ} {mode : Mode} {ops : List DirOp}
    (hnew : d.iSize = 0) (herror : ∀ n, d.error n = false) (hbegin : env.beginErr = 0)
    (hsectors : sb.chunkSize ≤ 512 * env.sectors) (hino : InoOk sb ino) (hparent : InoOk sb parent)
    (hops : Promised (DirOp.Promise sb) (DirMap.apply sb) ops
      (DirMap.dots ino parent (deType sb.filetype mode))) :
    ∃ d₀ d', d.makeEmpty sb env ino parent mode = some (env.commitErr, d₀) ∧
      stepAll (Dir.apply sb) ops d₀ = some
        ((specAll (DirMap.apply sb) ops (DirMap.dots ino parent (deType sb.filetype mode))).1, d') ∧
      d'.Represents sb
        (specAll (DirMap.apply sb) ops (DirMap.dots ino parent (deType sb.filetype mode))).2 := by
  obtain ⟨d₀, hmake, hd₀, hlive⟩ :=
    Dir.makeEmpty_spec hnew herror hbegin hsectors hino hparent mode
  obtain ⟨d', hrun, hrep⟩ :=
    (Dir.apply_simulates sb).run (Dir.Represents.of_makeEmpty hd₀ hlive) hops
  exact ⟨d₀, d', hmake, hrun, hrep⟩

/-- An entry is made and removed. -/
theorem DirMap.run_refines_blank :
    ∃ d₀ d', Dir.blank.makeEmpty DirSb.kilobyte DirEnv.calm 11 2 0x41ed = some (0, d₀) ∧
      stepAll (Dir.apply DirSb.kilobyte) makeAndRemove d₀ = some
        ((specAll (DirMap.apply DirSb.kilobyte) makeAndRemove
          (DirMap.dots 11 2 (deType true 0x41ed))).1, d') ∧
      d'.Represents DirSb.kilobyte (specAll (DirMap.apply DirSb.kilobyte) makeAndRemove
        (DirMap.dots 11 2 (deType true 0x41ed))).2 := by
  refine DirMap.run_refines rfl (fun _ => rfl) rfl (le_refl _)
    (inoOk_kilobyte (by decide) (by decide)) (inoOk_kilobyte (by decide) (by decide)) ⟨?_, ?_, ?_⟩
  · refine ⟨⟨le_refl _, linkOk_a⟩, fun _ => rfl, ?_⟩
    rintro env name ino mode ⟨⟩
    rfl
  · exact ⟨rfl, fun _ => rfl, fun _ _ _ _ h => nomatch h⟩
  · trivial

/-! ## The second entry -/

/-- The first two entries of the directory are `.` and `..`. -/
structure Dir.Rooted (d : Dir) : Prop where
  dot : ∃ l, (0, l) ∈ d.live ∧ l.name = dot
  dotDot : ∃ l, (dirRecLen 1, l) ∈ d.live ∧ l.name = dotDot

/-- An operation that removes neither. -/
def DirOp.SparesDots (op : DirOp) : Prop := op.Removes → op.name ≠ dot ∧ op.name ≠ dotDot

lemma Dir.Rooted.evolves (h : d.Rooted) {op : DirOp} (hop : op.SparesDots)
    (hev : Dir.Evolves op.Removes op.name d d') : d'.Rooted := by
  obtain ⟨⟨l, hl, hdot⟩, l', hl', hdotDot⟩ := h
  constructor
  · obtain ⟨l₁, hl₁, hname⟩ := hev.live.keeps hl fun hr => hdot ▸ (hop hr).1.symm
    exact ⟨l₁, hl₁, hname.trans hdot⟩
  · obtain ⟨l₁, hl₁, hname⟩ := hev.live.keeps hl' fun hr => hdotDot ▸ (hop hr).2.symm
    exact ⟨l₁, hl₁, hname.trans hdotDot⟩

/-- An entry in the first page. -/
lemma Dir.holds_of_mem (hp : p < pageSize) (h : (p, l) ∈ d.live) : d.Holds 0 p l := by
  obtain ⟨n, hn, hmem⟩ := Dir.mem_live.mp h
  obtain ⟨y, hy, heq⟩ := Dir.mem_liveIn.mp hmem
  obtain ⟨hplace, hlink⟩ := Prod.mk.inj heq
  obtain ⟨rfl⟩ : n = 0 := by
    unfold pageSize at *
    omega
  refine ⟨hn, ?_⟩
  rw [← hlink, show p = y.1 by omega]
  exact hy

/-- **The second record of the first page** is `..`. -/
theorem Dir.dotdot_spec (hd : d.WF sb) (hroot : d.Rooted) (hread : readErr 0 = 0) :
    ∃ d' l, d.dotdot sb readErr = some (some (dirRecLen 1), d') ∧ d.Same d' ∧ d'.WF sb ∧
      d'.Holds 0 (dirRecLen 1) l ∧ l.name = dotDot := by
  obtain ⟨⟨l, hl, -⟩, l', hl', hname⟩ := hroot
  rw [dirRecLen_one] at hl' ⊢
  have hfirst := Dir.holds_of_mem (by norm_num [pageSize]) hl
  have hsecond := Dir.holds_of_mem (by norm_num [pageSize]) hl'
  obtain ⟨d', hget, hsame, hd'⟩ := Dir.getPage_spec hd readErr hfirst.1
  refine ⟨d', l', ?_, hsame, hd', hsecond.of_same hsame, hname⟩
  obtain ⟨as, has⟩ := hd.tiled 0 hfirst.1
  obtain ⟨pre, a, post, has₁, ha, -⟩ := hfirst.exists_record hd
  obtain ⟨pre', b, post', has₂, hb, -⟩ := hsecond.exists_record hd
  obtain rfl := has₁.unique has
  have hpre := (packed_middle has₁.packed).1
  rw [ha] at hpre
  obtain rfl := hpre.eq_nil
  -- the record at 0 ends where the next one begins, and is not shorter than that
  have hde := (packed_middle has₁.packed).2.1
  have hmin := (has₁.ok a (by simp)).minimal
  rw [dirRecLen_one] at hmin
  have hle : a.2.len ≤ 12 := by
    have hsame' := has₂.unique has₁
    rcases pre' with _ | ⟨c, pre'⟩
    · obtain ⟨rfl, -⟩ := List.cons.inj hsame'
      omega
    · obtain ⟨rfl, -⟩ := List.cons.inj hsame'
      have hplace := place_of_mem (packed_middle has₂.packed).1 List.mem_cons_self
      omega
  rw [ha] at hde
  unfold Dir.dotdot
  rw [hget]
  simp [hread, hde, le_antisymm hle hmin]

/-- **`ext2_dotdot` finds the entry for the parent** after every sequence of operations that removes
neither `.` nor `..`. -/
theorem Dir.dotdot_run {env : DirEnv} {ino parent : ℕ} {mode : Mode} {ops : List DirOp}
    (hnew : d.iSize = 0) (herror : ∀ n, d.error n = false) (hbegin : env.beginErr = 0)
    (hsectors : sb.chunkSize ≤ 512 * env.sectors) (hino : InoOk sb ino) (hparent : InoOk sb parent)
    (hops : ∀ op ∈ ops, op.Safe sb ∧ op.SparesDots) (hread : readErr 0 = 0) :
    ∃ d₀ rs d₁ d₂ l, d.makeEmpty sb env ino parent mode = some (env.commitErr, d₀) ∧
      stepAll (Dir.apply sb) ops d₀ = some (rs, d₁) ∧
      d₁.dotdot sb readErr = some (some (dirRecLen 1), d₂) ∧
      d₂.Holds 0 (dirRecLen 1) l ∧ l.name = dotDot := by
  obtain ⟨d₀, hmake, hd₀, hlive⟩ :=
    Dir.makeEmpty_spec hnew herror hbegin hsectors hino hparent mode
  have hroot : d₀.Rooted := by
    constructor
    all_goals rw [hlive]
    · exact ⟨⟨dot, ino, _⟩, List.mem_cons_self, rfl⟩
    · exact ⟨⟨dotDot, parent, _⟩, List.mem_cons_of_mem _ List.mem_cons_self, rfl⟩
  have hstep : ∀ op (d : Dir), op.Safe sb ∧ op.SparesDots → d.WF sb ∧ d.Rooted →
      ∃ r d', d.apply sb op = some (r, d') ∧ d'.WF sb ∧ d'.Rooted := by
    rintro op d ⟨hsafe, hspares⟩ ⟨hd, hrooted⟩
    obtain ⟨r, d', happly, hd', hev⟩ := Dir.apply_safe hd hsafe
    exact ⟨r, d', happly, hd', hrooted.evolves hspares hev⟩
  obtain ⟨rs, d₁, hrun, hd₁, hroot₁⟩ := stepAll_total hstep hops ⟨hd₀, hroot⟩
  obtain ⟨d₂, l, hdotdot, -, -, hholds, hname⟩ := Dir.dotdot_spec hd₁ hroot₁ hread
  exact ⟨d₀, rs, d₁, d₂, l, hmake, hrun, hdotdot, hholds, hname⟩

/-- An entry is made and removed before. -/
theorem Dir.dotdot_run_blank :
    ∃ d₀ rs d₁ d₂ l, blank.makeEmpty DirSb.kilobyte DirEnv.calm 11 2 0x41ed = some (0, d₀) ∧
      stepAll (Dir.apply DirSb.kilobyte) makeAndRemove d₀ = some (rs, d₁) ∧
      d₁.dotdot DirSb.kilobyte (fun _ => 0) = some (some (dirRecLen 1), d₂) ∧
      d₂.Holds 0 (dirRecLen 1) l ∧ l.name = dotDot := by
  refine Dir.dotdot_run rfl (fun _ => rfl) rfl (le_refl _)
    (inoOk_kilobyte (by decide) (by decide)) (inoOk_kilobyte (by decide) (by decide))
    (fun op hop => ⟨safe_makeAndRemove op hop, fun _ => ?_⟩) rfl
  rcases List.mem_cons.mp hop with rfl | hop
  · decide
  · rw [List.mem_singleton.mp hop]
    decide

end runs

end Comp3301.Ext3301
