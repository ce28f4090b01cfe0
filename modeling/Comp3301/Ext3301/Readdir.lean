import Comp3301.Lib.Windows
import Comp3301.Ext3301.DirRuns

/-!
# The file system: listing a directory

`ext2_readdir` (`a3/dir.c`) lists a directory over several calls, between which it may change. The
place in the file is the place of a record; when the directory has changed, `ext2_validate_entry`
looks for the next record.

* `DirFile` is the open directory, `filldir` answers whether the buffer is full, from what it
  has taken in the call. What it takes is collected.
* `readdir_spec`: a call lists the live entries between the old place and the new one.
* `scan_spec`: over all calls, and whatever is done to the directory in between, no place is listed
  twice, and when the listing has come to its end, every entry that has been there is in it.
-/

namespace Comp3301.Ext3301

open Comp3301.Lib

/-- `ext2_filetype_table`, of the values of `DT_…`. -/
def ext2FiletypeTable : ℕ → ℕ
  | 1 => 8
  | 2 => 4
  | 3 => 2
  | 4 => 6
  | 5 => 1
  | 6 => 12
  | 7 => 10
  | _ => 0

/-- The type that is given to `filldir`: `DT_IM` for immediate files, else by the table, if the
types are stored. -/
def dType (sb : DirSb) (t : UInt8) : ℕ :=
  if t = 8 then 16 else if sb.filetype ∧ t < 8 then ext2FiletypeTable t.toNat else 0

/-- What `filldir` is given. -/
structure Listed where
  name : DiskName
  place : ℕ
  ino : ℕ
  type : ℕ
  deriving DecidableEq, Repr

/-- The open directory: `f_pos` and `f_version`. -/
structure DirFile where
  pos : ℕ
  version : ℕ
  deriving DecidableEq, Repr

/-! ## The code -/

/-- The loop of `ext2_validate_entry`; the state is the next record. -/
def validateBody (a : ℕ × Dirent) (_ : ℕ) : Option (ℕ ⊕ ℕ) :=
  if a.2.recLen = 0 then some (.inr a.1) else some (.inl (a.1 + a.2.len))

/-- `ext2_validate_entry`. -/
def validateEntry (sb : DirSb) (page : Page) (offset : ℕ) : Option ℕ := do
  let start := offset / sb.chunkSize * sb.chunkSize
  match ← loopFor (recordRound (slotAt page) offset validateBody) (pageSize + 1) (start, start) with
  | .inl p => some p
  | .inr p => some p

/-- The body of the loop over the records of page `n`; the state is `f_pos` and what is listed. -/
def readBody (sb : DirSb) (filldir : List Listed → Listed → Bool) (page : Page) (n : ℕ)
    (a : ℕ × Dirent) (s : ℕ × List Listed) : Option ((ℕ × List Listed) ⊕ (ℤ × ℕ × List Listed)) :=
  if a.2.recLen = 0 then some (.inr (-eio, s))
  else if a.2.inode ≠ 0 then do
    let name ← nameAt page a.1 a.2.nameLen
    let x := ⟨name, n * pageSize + a.1, a.2.inode, dType sb a.2.fileType⟩
    if filldir s.2 x then some (.inr (0, s)) else some (.inl (s.1 + a.2.len, s.2 ++ [x]))
  else some (.inl (s.1 + a.2.len, s.2))

/-- The variables of `ext2_readdir`: the directory, `offset`, the file, `need_revalidate`, and what
is listed. -/
structure ReadState where
  dir : Dir
  offset : ℕ
  file : DirFile
  stale : Bool
  out : List Listed

/-- The revalidation, in page `n`. -/
def revalidate (sb : DirSb) (page : Page) (n : ℕ) (s : ReadState) : Option ReadState :=
  if s.stale then do
    let s ←
      if s.offset ≠ 0 then do
        let offset ← validateEntry sb page s.offset
        some { s with offset := offset, file := { s.file with pos := n * pageSize + offset } }
      else some s
    some { s with file := { s.file with version := s.dir.iVersion }, stale := false }
  else some s

/-- A page in `ext2_readdir`. -/
def readPage (sb : DirSb) (readErr : ℕ → ℤ) (filldir : List Listed → Listed → Bool) (n : ℕ)
    (s : ReadState) : Option (ReadState ⊕ (ℤ × ReadState)) := do
  let (page, d) ← s.dir.getPage sb readErr n
  let s := { s with dir := d }
  match page with
  | .error err =>
      some (.inr (err,
        { s with file := { s.file with pos := s.file.pos + (pageSize - s.offset) } }))
  | .ok page => do
      let s ← revalidate sb page n s
      let limit := lastByte d.iSize n + 1 - dirRecLen 1
      match ← loopFor (recordRound (slotAt page) limit (readBody sb filldir page n)) (pageSize + 1)
        (s.offset, (s.file.pos, s.out)) with
      | .inl (pos, out) =>
          some (.inl { s with offset := 0, file := { s.file with pos := pos }, out := out })
      | .inr (err, pos, out) =>
          some (.inr (err, { s with file := { s.file with pos := pos }, out := out }))

/-- `ext2_readdir`. -/
def readdir (sb : DirSb) (readErr : ℕ → ℤ) (filldir : List Listed → Listed → Bool) (d : Dir)
    (f : DirFile) : Option (ℤ × ReadState) := do
  let n := f.pos / pageSize
  let s : ReadState := ⟨d, f.pos % pageSize, f, decide (f.version ≠ d.iVersion), []⟩
  if d.iSize < f.pos + dirRecLen 1 then some (0, s)
  else
    match ← runOver (readPage sb readErr filldir) (List.range' n (dirPages d.iSize - n)) s with
    | .inl s => some (0, s)
    | .inr r => some r

/-! ## The order of the entries -/

section order

variable {sb : DirSb} {page : Page} {d : Dir} {p q n : ℕ} {as : List (ℕ × Dirent)}

lemma pairwise_of_packed (h : Packed (slotAt page) p as q) :
    as.Pairwise fun a b => a.1 < b.1 := by
  induction as generalizing p with
  | nil => exact List.Pairwise.nil
  | cons a as ih =>
      obtain ⟨-, -, hpos, hrest⟩ := packed_middle (show Packed _ p ([] ++ a :: as) q from h)
      refine List.pairwise_cons.mpr ⟨fun b hb => ?_, ih hrest⟩
      have hplace := place_of_mem hrest hb
      omega

lemma liveOf_pairwise (h : Packed (slotAt page) p as q) (n : ℕ) :
    ((liveOf page as).map (placeIn n)).Pairwise fun x y => x.1 < y.1 := by
  have hsorted := (pairwise_of_packed h).filter fun a => decide (a.2.inode ≠ 0)
  unfold liveOf
  rw [List.map_map, List.pairwise_map]
  refine hsorted.imp fun {a b} hab => ?_
  exact Nat.add_lt_add_left hab _

/-- Where the live entries of a stretch of records lie. -/
lemma place_of_mem_liveOf (h : Packed (slotAt page) p as q) (hok : ∀ a ∈ as, SlotOk sb a) {n : ℕ}
    {x : ℕ × Link} (hx : x ∈ (liveOf page as).map (placeIn n)) :
    n * pageSize + p ≤ x.1 ∧ x.1 + dirRecLen 1 ≤ n * pageSize + q := by
  obtain ⟨y, hy, rfl⟩ := List.mem_map.mp hx
  obtain ⟨a, ha, -, rfl⟩ := mem_liveOf.mp hy
  have hplace := place_of_mem h ha
  have hmin := (hok a ha).minimal
  simp only [placeIn]
  omega

namespace Dir

/-- The live entries of a page are in it. -/
lemma WF.place_of_mem_liveIn (hd : d.WF sb) (hn : n < dirPages d.iSize) {x : ℕ × Link}
    (hx : x ∈ d.liveIn n) :
    n * pageSize ≤ x.1 ∧ x.1 + dirRecLen 1 ≤ n * pageSize + lastByte d.iSize n := by
  obtain ⟨as, has⟩ := hd.tiled n hn
  rw [liveIn_eq has] at hx
  have hplace := place_of_mem_liveOf has.packed has.ok hx
  rwa [Nat.add_zero] at hplace

lemma add_lastByte_le (hn : n < dirPages d.iSize) :
    n * pageSize + lastByte d.iSize n ≤ d.iSize := by
  rw [lt_dirPages_iff] at hn
  unfold lastByte
  rw [if_pos hn.le]
  omega

/-- **The live entries are listed by their places.** -/
lemma WF.sorted (hd : d.WF sb) : d.live.Pairwise fun x y => x.1 < y.1 := by
  unfold live
  rw [List.pairwise_flatMap]
  constructor
  · intro n hn
    obtain ⟨as, has⟩ := hd.tiled n (List.mem_range.mp hn)
    rw [liveIn_eq has]
    exact liveOf_pairwise has.packed n
  · refine List.pairwise_lt_range.imp_of_mem fun {m n} hm hn hlt x hx y hy => ?_
    have hleft := hd.place_of_mem_liveIn (List.mem_range.mp hm) hx
    have hright := hd.place_of_mem_liveIn (List.mem_range.mp hn) hy
    have hlast := lastByte_le d.iSize m
    have hmul : (m + 1) * pageSize ≤ n * pageSize := Nat.mul_le_mul_right _ hlt
    rw [dirRecLen_one] at hleft
    rw [Nat.succ_mul] at hmul
    omega

/-- The live entries between two places. -/
def between (d : Dir) (lo hi : ℕ) : List (ℕ × Link) := window Prod.fst lo hi d.live

/-- Those between two places of a page. -/
lemma WF.between_page (hd : d.WF sb) (hn : n < dirPages d.iSize) {pre mid post : List (ℕ × Dirent)}
    (has : Tiled sb (d.page n) (lastByte d.iSize n) (pre ++ (mid ++ post)))
    (hpre : Packed (slotAt (d.page n)) 0 pre p) (hmid : Packed (slotAt (d.page n)) p mid q)
    (hpost : Packed (slotAt (d.page n)) q post (lastByte d.iSize n)) :
    d.between (n * pageSize + p) (n * pageSize + q) = (liveOf (d.page n) mid).map (placeIn n) := by
  have hoks := has.ok
  simp only [List.mem_append] at hoks
  obtain ⟨k, hk, hpages⟩ := range_around hn
  have hq : q ≤ pageSize := hpost.le.trans (lastByte_le _ _)
  unfold between live
  rw [hpages, List.flatMap_append, List.flatMap_append, List.flatMap_singleton, liveIn_eq has,
    liveOf_append, liveOf_append, List.map_append, List.map_append]
  simp only [window_append]
  have hbefore : window Prod.fst (n * pageSize + p) (n * pageSize + q)
      ((List.range n).flatMap d.liveIn) = [] := by
    apply window_eq_nil
    intro x hx
    obtain ⟨m, hm, hx⟩ := List.mem_flatMap.mp hx
    have hm := List.mem_range.mp hm
    have hplace := hd.place_of_mem_liveIn (hm.trans hn) hx
    have hlast := lastByte_le d.iSize m
    have hmul : (m + 1) * pageSize ≤ n * pageSize := Nat.mul_le_mul_right _ hm
    rw [dirRecLen_one] at hplace
    rw [Nat.succ_mul] at hmul
    omega
  have hafter : window Prod.fst (n * pageSize + p) (n * pageSize + q)
      ((List.range' (n + 1) k).flatMap d.liveIn) = [] := by
    apply window_eq_nil
    intro x hx
    obtain ⟨m, hm, hx⟩ := List.mem_flatMap.mp hx
    have hm := List.mem_range'_1.mp hm
    have hplace := hd.place_of_mem_liveIn (show m < dirPages d.iSize by omega) hx
    have hmul : (n + 1) * pageSize ≤ m * pageSize := Nat.mul_le_mul_right _ hm.1
    rw [Nat.succ_mul] at hmul
    omega
  have hleft : window Prod.fst (n * pageSize + p) (n * pageSize + q)
      ((liveOf (d.page n) pre).map (placeIn n)) = [] := by
    apply window_eq_nil
    intro x hx
    have hplace := place_of_mem_liveOf hpre (fun a ha => hoks a (Or.inl ha)) hx
    rw [dirRecLen_one] at hplace
    omega
  have hin : window Prod.fst (n * pageSize + p) (n * pageSize + q)
      ((liveOf (d.page n) mid).map (placeIn n)) = (liveOf (d.page n) mid).map (placeIn n) := by
    apply window_eq_self
    intro x hx
    have hplace := place_of_mem_liveOf hmid (fun a ha => hoks a (Or.inr (Or.inl ha))) hx
    rw [dirRecLen_one] at hplace
    omega
  have hright : window Prod.fst (n * pageSize + p) (n * pageSize + q)
      ((liveOf (d.page n) post).map (placeIn n)) = [] := by
    apply window_eq_nil
    intro x hx
    have hplace := place_of_mem_liveOf hpost (fun a ha => hoks a (Or.inr (Or.inr ha))) hx
    omega
  rw [hbefore, hafter, hleft, hin, hright]
  simp

end Dir

end order

/-! ## Places of records -/

/-- A place where a record begins or the last one ends. -/
def IsBoundary (as : List (ℕ × Dirent)) (p : ℕ) : Prop := p = 0 ∨ ∃ a ∈ as, a.1 + a.2.len = p

section boundary

variable {sb : DirSb} {page : Page} {limit offset p q : ℕ} {as pre post : List (ℕ × Dirent)}

/-- The records are cut there. -/
lemma IsBoundary.cut (hp : IsBoundary as p) (h : Packed (slotAt page) 0 as limit) :
    ∃ pre post, as = pre ++ post ∧ Packed (slotAt page) 0 pre p ∧
      Packed (slotAt page) p post limit := by
  rcases hp with rfl | ⟨a, ha, rfl⟩
  · exact ⟨[], as, rfl, Packed.nil 0, h⟩
  · obtain ⟨pre, post, rfl⟩ := List.append_of_mem ha
    obtain ⟨hpre, hde, hpos, hpost⟩ := packed_middle h
    refine ⟨pre ++ [a], post, by simp, ?_, hpost⟩
    exact hpre.append (packed_one hde rfl hpos)

lemma isBoundary_of_cut (h : Packed (slotAt page) 0 pre p) : IsBoundary (pre ++ post) p := by
  rcases List.eq_nil_or_concat pre with rfl | ⟨pre, a, rfl⟩
  · exact Or.inl h.nil_inv.symm
  · rw [List.concat_eq_append] at h ⊢
    obtain ⟨-, -, -, hend⟩ := packed_middle h
    exact Or.inr ⟨a, by simp, hend.nil_inv⟩

lemma lt_of_passes (h : Passes (slotAt page) limit p as q) : ∀ a ∈ as, a.1 < limit := by
  induction h with
  | stop _ => simp
  | @next p len q a as hlt head pos tail ih =>
      obtain ⟨rfl, -, -⟩ := slotAt_eq_some_iff.mp head
      exact List.forall_mem_cons.mpr ⟨hlt, ih⟩

lemma foldl_end (h : Packed (slotAt page) p as q) :
    as.foldl (fun _ a => a.1 + a.2.len) p = q := by
  induction as generalizing p with
  | nil => exact h.nil_inv
  | cons a as ih =>
      obtain ⟨-, -, -, hrest⟩ := packed_middle (show Packed _ p ([] ++ a :: as) q from h)
      exact ih hrest

lemma recLen_ne_zero (h : Packed (slotAt page) p as q) (hok : ∀ a ∈ as, SlotOk sb a)
    (hq : q ≤ limit) (hlimit : sb.chunkSize ∣ limit) (hpage : limit ≤ pageSize) :
    ∀ a ∈ as, a.2.recLen = a.2.len := by
  intro a ha
  have hplace := place_of_mem h ha
  have hpos := (hok a ha).pos
  exact (hok a ha).recLen_eq (show a.1 < limit by omega) hlimit hpage

/-- **The revalidation** finds the first place of a record that is not before the offset. -/
theorem validateEntry_spec (h : Tiled sb page limit as) (hlimit : sb.chunkSize ∣ limit)
    (hpage : limit ≤ pageSize) (hoffset : offset ≤ limit) :
    ∃ q pre post, validateEntry sb page offset = some q ∧ as = pre ++ post ∧
      Packed (slotAt page) 0 pre q ∧ Packed (slotAt page) q post limit ∧ offset ≤ q ∧
      ∀ a ∈ pre, a.1 < offset := by
  have hstart : offset / sb.chunkSize * sb.chunkSize ≤ offset := Nat.div_mul_le_self _ _
  obtain ⟨as₁, as₂, rfl, hleft, hright⟩ :=
    exists_chunk_start h.packed h.ok (Dvd.intro_left _ rfl) (hstart.trans hoffset)
  obtain ⟨as₃, as₄, m, rfl, hpass, hm, hmid, hrest⟩ := hright.exists_passes hoffset
  have hok₃ : ∀ a ∈ as₃, SlotOk sb a := fun a ha => h.ok a (by simp [ha])
  have hraw := recLen_ne_zero hmid hok₃ hrest.le hlimit hpage
  have hcount := hmid.length_le
  have hend := hrest.le
  have hrun : runOver validateBody as₃ (offset / sb.chunkSize * sb.chunkSize) =
      some (.inl m) := by
    have hbody : ∀ (s : ℕ) a (as : List (ℕ × Dirent)), (∀ b ∈ a :: as, b.2.recLen ≠ 0) →
        validateBody a s = some (.inl (a.1 + a.2.len)) ∧ ∀ b ∈ as, b.2.recLen ≠ 0 := by
      intro s a as has
      refine ⟨?_, fun b hb => has b (List.mem_cons_of_mem _ hb)⟩
      rw [validateBody, if_neg (has a List.mem_cons_self)]
    have hne : ∀ a ∈ as₃, a.2.recLen ≠ 0 := by
      intro a ha
      have hpos := (hok₃ a ha).pos
      rw [hraw a ha]
      omega
    rw [runOver_invariant (f := fun _ a => a.1 + a.2.len)
      (I := fun _ as => ∀ b ∈ as, b.2.recLen ≠ 0)
      hbody hne, foldl_end hmid]
  refine ⟨m, as₁ ++ as₃, as₄, ?_, by simp, hleft.append hmid, hrest, hm, ?_⟩
  · unfold validateEntry
    simp only [recordLoop_cut hpass _ _ (show as₃.length < pageSize + 1 by omega), hrun,
      Option.bind_eq_bind, Option.bind_some]
  · intro a ha
    rcases List.mem_append.mp ha with ha | ha
    · have hplace := place_of_mem hleft ha
      have hpos := (h.ok a (by simp [ha])).pos
      omega
    · exact lt_of_passes hpass a ha

end boundary

/-! ## A page -/

/-- What `filldir` is given of an entry. -/
def listedOf (sb : DirSb) (x : ℕ × Link) : Listed :=
  ⟨x.2.name, x.1, x.2.inode, dType sb x.2.fileType⟩

section page

variable {sb : DirSb} {page : Page} {limit p n : ℕ} {as : List (ℕ × Dirent)}
  {filldir : List Listed → Listed → Bool}

/-- A record. -/
lemma readBody_eq (filldir : List Listed → Listed → Bool) (page : Page) (n : ℕ)
    {a : ℕ × Dirent} (hend : a.1 + a.2.len ≤ pageSize) (hok : SlotOk sb a)
    (hraw : a.2.recLen = a.2.len) (s : ℕ × List Listed) :
    readBody sb filldir page n a s =
      if a.2.inode ≠ 0 then
        if filldir s.2 (listedOf sb (placeIn n (a.1, linkAt page a))) then some (.inr (0, s))
        else some (.inl (s.1 + a.2.len,
          s.2 ++ [listedOf sb (placeIn n (a.1, linkAt page a))]))
      else some (.inl (s.1 + a.2.len, s.2)) := by
  have hpos := hok.pos
  have hname := le_dirRecLen a.2.nameLen
  have hroom := hok.room
  have hread : nameAt page a.1 a.2.nameLen = some (slice page (a.1 + 8) a.2.nameLen) :=
    if_pos (by omega)
  unfold readBody
  rw [if_neg (by omega), hread]
  rfl

/-- The records from `p` on: the live ones are listed, in order, up to the first one for which there
is no room. -/
lemma readOver_spec (filldir : List Listed → Listed → Bool) (n : ℕ)
    (h : Packed (slotAt page) p as limit) (hok : ∀ a ∈ as, SlotOk sb a)
    (hraw : ∀ a ∈ as, a.2.recLen = a.2.len) (hpage : limit ≤ pageSize) (out : List Listed) :
    ∃ mid post m, as = mid ++ post ∧ Packed (slotAt page) p mid m ∧
      Packed (slotAt page) m post limit ∧
      ((post = [] ∧ runOver (readBody sb filldir page n) as (n * pageSize + p, out) =
        some (.inl (n * pageSize + m,
          out ++ ((liveOf page mid).map (placeIn n)).map (listedOf sb)))) ∨
      ((∃ xs x, filldir xs x = true) ∧
        runOver (readBody sb filldir page n) as (n * pageSize + p, out) =
          some (.inr (0, n * pageSize + m,
            out ++ ((liveOf page mid).map (placeIn n)).map (listedOf sb))))) := by
  induction as generalizing p out with
  | nil =>
      obtain rfl := h.nil_inv
      exact ⟨[], [], p, rfl, h, h, Or.inl ⟨rfl, by simp [runOver]⟩⟩
  | cons a as ih =>
      obtain ⟨hnil, hde, hpos, hrest⟩ :=
        packed_middle (show Packed _ p ([] ++ a :: as) limit from h)
      obtain rfl := hnil.nil_inv
      have hend := hrest.le
      have hbody := fun s => readBody_eq filldir page n (hend.trans hpage)
        (hok a List.mem_cons_self) (hraw a List.mem_cons_self) s
      -- what the records behind it come to
      have hnext := fun out' => ih hrest (fun b hb => hok b (List.mem_cons_of_mem a hb))
        (fun b hb => hraw b (List.mem_cons_of_mem a hb)) out'
      have hone := packed_one hde rfl hpos
      rw [runOver, hbody, Nat.add_assoc]
      by_cases hused : a.2.inode = 0
      · rw [if_neg (not_not.mpr hused)]
        obtain ⟨mid, post, m, rfl, hmid, hpost, hrun⟩ := hnext out
        refine ⟨a :: mid, post, m, rfl, hone.append hmid, hpost, ?_⟩
        rw [liveOf_cons, liveOf_singleton, if_neg (not_not.mpr hused), List.nil_append]
        exact hrun
      · rw [if_pos hused]
        set x := listedOf sb (placeIn n (a.1, linkAt page a)) with hx
        by_cases hfull : filldir out x
        · simp only [if_pos hfull]
          refine ⟨[], a :: as, a.1, rfl, Packed.nil _, h, Or.inr ⟨⟨_, _, hfull⟩, ?_⟩⟩
          simp
        · simp only [if_neg hfull]
          obtain ⟨mid, post, m, rfl, hmid, hpost, hrun⟩ := hnext (out ++ [x])
          refine ⟨a :: mid, post, m, rfl, hone.append hmid, hpost, ?_⟩
          rw [liveOf_cons, liveOf_singleton, if_pos hused, List.map_append, List.map_append,
            List.map_singleton, List.map_singleton, ← hx, ← List.append_assoc]
          exact hrun

end page

namespace Dir

/-- The state in which `ext2_readdir` comes to page `n`. -/
structure Ready (sb : DirSb) (d : Dir) (n : ℕ) (s : ReadState) : Prop where
  same : d.Same s.dir
  wf : s.dir.WF sb
  lt : n < dirPages d.iSize
  pos : s.file.pos = n * pageSize + s.offset
  le : s.offset ≤ lastByte d.iSize n
  version_le : s.file.version ≤ d.iVersion
  fresh : s.stale = false → s.file.version = d.iVersion ∧ IsBoundary (d.slots n) s.offset

section readPage

variable {sb : DirSb} {d : Dir} {n offset q : ℕ} {s : ReadState} {readErr : ℕ → ℤ}
  {filldir : List Listed → Listed → Bool} {pre post : List (ℕ × Dirent)}

/-- No entry is passed over when the next record is looked for. -/
lemma WF.between_gap (hd : d.WF sb) (hn : n < dirPages d.iSize)
    (has : Tiled sb (d.page n) (lastByte d.iSize n) (pre ++ post))
    (hpost : Packed (slotAt (d.page n)) q post (lastByte d.iSize n))
    (hlt : ∀ a ∈ pre, a.1 < offset) :
    d.between (n * pageSize + offset) (n * pageSize + q) = [] := by
  have hq : q ≤ pageSize := hpost.le.trans (lastByte_le _ _)
  apply window_eq_nil
  intro x hx
  obtain ⟨m, hm, hx⟩ := mem_live.mp hx
  have hplace := hd.place_of_mem_liveIn hm hx
  have hlast := lastByte_le d.iSize m
  rw [dirRecLen_one] at hplace
  rcases Nat.lt_trichotomy m n with hmn | rfl | hmn
  · have hmul : (m + 1) * pageSize ≤ n * pageSize := Nat.mul_le_mul_right _ hmn
    rw [Nat.succ_mul] at hmul
    omega
  · rw [liveIn_eq has, liveOf_append, List.map_append, List.mem_append] at hx
    rcases hx with hx | hx
    · obtain ⟨y, hy, rfl⟩ := List.mem_map.mp hx
      obtain ⟨a, ha, -, rfl⟩ := mem_liveOf.mp hy
      exact Or.inl (Nat.add_lt_add_left (hlt a ha) _)
    · have hright := place_of_mem_liveOf hpost (fun a ha => has.ok a (by simp [ha])) hx
      exact Or.inr hright.1
  · have hmul : (n + 1) * pageSize ≤ m * pageSize := Nat.mul_le_mul_right _ hmn
    rw [Nat.succ_mul] at hmul
    omega

/-- After the revalidation the offset is the place of a record. -/
lemma Ready.revalidate (hs : d.Ready sb n s) (hd : d.WF sb) :
    ∃ q pre post, Ext3301.revalidate sb (d.page n) n s =
        some { s with offset := q, file := ⟨n * pageSize + q, d.iVersion⟩, stale := false } ∧
      d.slots n = pre ++ post ∧ Packed (slotAt (d.page n)) 0 pre q ∧
      Packed (slotAt (d.page n)) q post (lastByte d.iSize n) ∧ s.offset ≤ q ∧
      d.between s.file.pos (n * pageSize + q) = [] := by
  obtain ⟨as, has⟩ := hd.tiled n hs.lt
  have hslots := slots_eq has
  unfold Ext3301.revalidate
  by_cases hstale : s.stale
  · rw [if_pos hstale]
    by_cases hzero : s.offset = 0
    · refine ⟨0, [], as, ?_, hslots, Packed.nil 0, has.packed, by omega, ?_⟩
      · simp only [hzero, ne_eq, not_true_eq_false, if_false, Option.bind_eq_bind,
          Option.bind_some, hs.same.iVersion]
        rw [← hzero, ← hs.pos]
      · rw [hs.pos, hzero]
        exact window_self _ _ _
    · obtain ⟨q, pre, post, hval, rfl, hpre, hpost, hle, hlt⟩ :=
        validateEntry_spec has (hd.dvd_lastByte n) (lastByte_le _ _) hs.le
      refine ⟨q, pre, post, ?_, hslots, hpre, hpost, hle, ?_⟩
      · simp only [hzero, ne_eq, not_false_eq_true, if_true, hval, Option.bind_eq_bind,
          Option.bind_some, hs.same.iVersion]
      · rw [hs.pos]
        exact hd.between_gap hs.lt has hpost hlt
  · obtain ⟨hversion, hbound⟩ := hs.fresh (by simpa using hstale)
    rw [hslots] at hbound
    obtain ⟨pre, post, rfl, hpre, hpost⟩ := hbound.cut has.packed
    refine ⟨s.offset, pre, post, ?_, hslots, hpre, hpost, le_refl _, ?_⟩
    · rw [if_neg hstale, ← hs.pos, ← hversion]
      have hfalse : s.stale = false := by simpa using hstale
      rw [← hfalse]
    · rw [hs.pos]
      exact window_self _ _ _

/-- What a page comes to: it cannot be read, or its entries are listed, all of them or up to a
place. -/
lemma Ready.readPage (hs : d.Ready sb n s) (hd : d.WF sb) (readErr : ℕ → ℤ)
    (filldir : List Listed → Listed → Bool) :
    ∃ d', d.Same d' ∧ d'.WF sb ∧
      ((readErr n ≠ 0 ∧ Ext3301.readPage sb readErr filldir n s = some (.inr (readErr n,
          { s with dir := d', file := { s.file with pos := (n + 1) * pageSize } }))) ∨
        ∃ m, s.offset ≤ m ∧ m ≤ lastByte d.iSize n ∧ IsBoundary (d.slots n) m ∧ ∃ out,
          out = s.out ++ (d.between s.file.pos (n * pageSize + m)).map (listedOf sb) ∧
          ((m = lastByte d.iSize n ∧ Ext3301.readPage sb readErr filldir n s =
              some (.inl ⟨d', 0, ⟨n * pageSize + m, d.iVersion⟩, false, out⟩)) ∨
            (∃ xs x, filldir xs x = true) ∧ ∃ q, Ext3301.readPage sb readErr filldir n s =
              some (.inr (0, ⟨d', q, ⟨n * pageSize + m, d.iVersion⟩, false, out⟩)))) := by
  obtain ⟨d', hget, hsame', hd'⟩ := getPage_spec hs.wf readErr (by rw [hs.same.iSize]; exact hs.lt)
  have hsame := hs.same.trans hsame'
  refine ⟨d', hsame, hd', ?_⟩
  unfold Ext3301.readPage
  rw [hget]
  by_cases hread : readErr n = 0
  · obtain ⟨as, has⟩ := hd.tiled n hs.lt
    obtain ⟨q, pre, post, hreval, hslots, hpre, hpost, hle, hgap⟩ :=
      (show d.Ready sb n { s with dir := d' } from
        ⟨hsame, hd', hs.lt, hs.pos, hs.le, hs.version_le, hs.fresh⟩).revalidate hd
    change s.offset ≤ q at hle
    change d.between s.file.pos _ = [] at hgap
    rw [slots_eq has] at hslots ⊢
    subst hslots
    have hlimit := hd.dvd_lastByte n
    have hpage := lastByte_le d.iSize n
    have hokpost : ∀ a ∈ post, SlotOk sb a := fun a ha => has.ok a (by simp [ha])
    have hraw := recLen_ne_zero hpost hokpost (le_refl _) hlimit hpage
    obtain ⟨mid, rest, m, rfl, hmid, hrest, hrun⟩ :=
      readOver_spec filldir n hpost hokpost hraw hpage s.out
    have hcount := hpost.length_le
    have hloop := recordLoop_cut (passes_short hpost hokpost) (readBody sb filldir (d.page n) n)
      (n * pageSize + q, s.out) (show (mid ++ rest).length < pageSize + 1 by omega)
    have hout : d.between s.file.pos (n * pageSize + m) =
        (liveOf (d.page n) mid).map (placeIn n) := by
      rw [between, window_split hd.sorted (show s.file.pos ≤ n * pageSize + q by
        rw [hs.pos]; omega) (Nat.add_le_add_left hmid.le _)]
      unfold between at hgap
      rw [hgap, List.nil_append]
      exact hd.between_page hs.lt has hpre hmid hrest
    rw [← hout] at hrun
    refine Or.inr ⟨m, hle.trans hmid.le, hrest.le, ?_, _, rfl, ?_⟩
    · rw [← List.append_assoc]
      exact isBoundary_of_cut (hpre.append hmid)
    · simp only [Option.bind_eq_bind, Option.bind_some, if_neg (not_not.mpr hread), hs.same.page,
        hsame.iSize, hreval, hloop]
      rcases hrun with ⟨rfl, hrun⟩ | ⟨hfull, hrun⟩
      · refine Or.inl ⟨hrest.nil_inv, ?_⟩
        rw [hrun]
        rfl
      · refine Or.inr ⟨hfull, q, ?_⟩
        rw [hrun]
        rfl
  · refine Or.inl ⟨hread, ?_⟩
    have hpos : s.file.pos + (pageSize - s.offset) = (n + 1) * pageSize := by
      have hle := hs.le.trans (lastByte_le _ _)
      rw [hs.pos, Nat.succ_mul]
      omega
    simp only [Option.bind_eq_bind, Option.bind_some, if_pos hread, hpos]

end readPage

/-! ## A call -/

/-- The place in the file is the place of a record if the directory has not changed since. -/
structure FileOk (d : Dir) (f : DirFile) : Prop where
  version_le : f.version ≤ d.iVersion
  place : f.version = d.iVersion → f.pos < d.iSize →
    IsBoundary (d.slots (f.pos / pageSize)) (f.pos % pageSize)

/-- What a call comes to that begins at `lo`, with `out` listed before. If pages can be read,
exactly the live entries are listed that lie before the new place; and if there is room for all of
them, the directory has come to its end. -/
structure Lists (sb : DirSb) (d : Dir) (readErr : ℕ → ℤ) (filldir : List Listed → Listed → Bool)
    (lo : ℕ) (out : List Listed) (r : ℤ) (s : ReadState) : Prop where
  same : d.Same s.dir
  wf : s.dir.WF sb
  fileOk : d.FileOk s.file
  le : lo ≤ s.file.pos
  listed : (∀ n, readErr n = 0) →
    r = 0 ∧ s.out = out ++ (d.between lo s.file.pos).map (listedOf sb)
  complete : (∀ n, readErr n = 0) → (∀ xs x, filldir xs x = false) →
    d.iSize < s.file.pos + dirRecLen 1

section readdir

variable {sb : DirSb} {d d' : Dir} {n m : ℕ} {s s' : ReadState} {f : DirFile} {readErr : ℕ → ℤ}
  {filldir : List Listed → Listed → Bool} {r : ℤ}

lemma fileOk_of_boundary (hm : m ≤ pageSize) (hbound : IsBoundary (d.slots n) m) :
    d.FileOk ⟨n * pageSize + m, d.iVersion⟩ := by
  refine ⟨le_refl _, fun _ _ => ?_⟩
  have hpos : 0 < pageSize := by norm_num [pageSize]
  rcases hm.lt_or_eq with hlt | rfl
  · rw [Nat.add_comm, Nat.add_mul_div_right _ _ hpos, Nat.div_eq_of_lt hlt, Nat.zero_add,
      Nat.add_mul_mod_self_right, Nat.mod_eq_of_lt hlt]
    exact hbound
  · rw [← Nat.succ_mul, Nat.mul_mod_left]
    exact Or.inl rfl

/-- The listing goes on. -/
lemma Lists.trans (hd : d.WF sb) {lo mid : ℕ} {out : List Listed} (hle : lo ≤ mid)
    (h : Lists sb d readErr filldir mid (out ++ (d.between lo mid).map (listedOf sb)) r s) :
    Lists sb d readErr filldir lo out r s := by
  refine ⟨h.same, h.wf, h.fileOk, hle.trans h.le, fun hread => ?_, h.complete⟩
  obtain ⟨hr, hout⟩ := h.listed hread
  refine ⟨hr, ?_⟩
  rw [hout, List.append_assoc, ← List.map_append]
  unfold between
  rw [← window_split hd.sorted hle h.le]

/-- The pages from `n` on. -/
lemma readPages_spec (readErr : ℕ → ℤ) (filldir : List Listed → Listed → Bool) (hd : d.WF sb)
    {k : ℕ} (hk : dirPages d.iSize = n + k) (hs : d.Ready sb n s) :
    ∃ t, runOver (readPage sb readErr filldir) (List.range' n k) s = some t ∧
      Lists sb d readErr filldir s.file.pos s.out (Sum.elim (fun _ => 0) Prod.fst t)
        (Sum.elim id Prod.snd t) := by
  induction k generalizing n s with
  | zero =>
      have := hs.lt
      omega
  | succ k ih =>
      have hpage := lastByte_le d.iSize n
      rw [List.range'_succ, runOver]
      obtain ⟨d', hsame, hd', ⟨hread, hrun⟩ | ⟨m, hle, hm, hbound, out, rfl, ⟨rfl, hrun⟩ |
        ⟨⟨xs, x, hfull⟩, q, hrun⟩⟩⟩ := hs.readPage hd readErr filldir
      · rw [hrun]
        refine ⟨_, rfl, hsame, hd', ⟨hs.version_le, fun _ _ => ?_⟩, ?_, ?_, ?_⟩
        · exact Or.inl (Nat.mul_mod_left _ _)
        · have := hs.le
          simp only [Sum.elim_inr, hs.pos, Nat.succ_mul]
          omega
        · exact fun hall => absurd (hall n) hread
        · exact fun hall => absurd (hall n) hread
      · rw [hrun]
        have hlo : s.file.pos ≤ n * pageSize + lastByte d.iSize n := by
          rw [hs.pos]
          omega
        rcases Nat.eq_zero_or_pos k with rfl | hpos
        · -- the last page
          have hend : d.iSize ≤ n * pageSize + lastByte d.iSize n := by
            have hlt := lt_dirPages_iff.mp hs.lt
            unfold lastByte
            rw [if_pos hlt.le]
            unfold dirPages pageSize at *
            omega
          refine ⟨_, rfl, hsame, hd', fileOk_of_boundary hpage hbound, hlo, fun _ => ⟨rfl, rfl⟩,
            fun _ _ => ?_⟩
          exact hend.trans_lt (Nat.lt_add_of_pos_right (by norm_num))
        · have hlast : lastByte d.iSize n = pageSize := by
            apply lastByte_of_lt
            unfold dirPages pageSize at *
            omega
          have hnext : d.Ready sb (n + 1) ⟨d', 0, ⟨n * pageSize + lastByte d.iSize n, d.iVersion⟩,
              false, s.out ++ (d.between s.file.pos
                (n * pageSize + lastByte d.iSize n)).map (listedOf sb)⟩ := by
            refine ⟨hsame, hd', by omega, ?_, Nat.zero_le _, le_refl _, fun _ => ⟨rfl, Or.inl rfl⟩⟩
            change n * pageSize + lastByte d.iSize n = (n + 1) * pageSize + 0
            rw [hlast, Nat.succ_mul, Nat.add_zero]
          obtain ⟨t, hrest, hlists⟩ := ih (by omega) hnext
          exact ⟨t, hrest, hlists.trans hd hlo⟩
      · rw [hrun]
        refine ⟨_, rfl, hsame, hd', fileOk_of_boundary (hm.trans hpage) hbound, ?_,
          fun _ => ⟨rfl, rfl⟩, fun _ hall => ?_⟩
        · simp only [Sum.elim_inr, hs.pos]
          omega
        · rw [hall] at hfull
          exact absurd hfull Bool.false_ne_true

/-- **A call lists the live entries between the old place and the new one**, and a call with room
for all of them comes to the end. -/
theorem readdir_spec (hd : d.WF sb) (hf : d.FileOk f) (readErr : ℕ → ℤ)
    (filldir : List Listed → Listed → Bool) :
    ∃ r s, readdir sb readErr filldir d f = some (r, s) ∧
      Lists sb d readErr filldir f.pos [] r s := by
  unfold readdir
  simp only
  by_cases hend : d.iSize < f.pos + dirRecLen 1
  · rw [if_pos hend]
    refine ⟨0, _, rfl, Same.refl d, hd, hf, le_refl _, fun _ => ⟨rfl, ?_⟩, fun _ _ => hend⟩
    unfold between
    rw [window_self]
    rfl
  · rw [if_neg hend]
    rw [dirRecLen_one] at hend
    have hpos : f.pos / pageSize * pageSize + f.pos % pageSize = f.pos := Nat.div_add_mod' _ _
    have hlt : f.pos / pageSize < dirPages d.iSize := by
      rw [lt_dirPages_iff]
      omega
    have hready : d.Ready sb (f.pos / pageSize)
        ⟨d, f.pos % pageSize, f, decide (f.version ≠ d.iVersion), []⟩ := by
      refine ⟨Same.refl d, hd, hlt, hpos.symm, ?_, hf.version_le, fun hfresh => ?_⟩
      · have hmod : f.pos % pageSize < pageSize := Nat.mod_lt _ (by norm_num [pageSize])
        unfold lastByte
        rw [if_pos (lt_dirPages_iff.mp hlt).le]
        simp only
        omega
      · have hversion : f.version = d.iVersion := by simpa using hfresh
        exact ⟨hversion, hf.place hversion (by omega)⟩
    obtain ⟨t, hrun, hlists⟩ := readPages_spec readErr filldir hd
      (show dirPages d.iSize = f.pos / pageSize + (dirPages d.iSize - f.pos / pageSize) by omega)
      hready
    rw [hrun]
    rcases t with s | ⟨r, s⟩
    · exact ⟨0, s, rfl, hlists⟩
    · exact ⟨r, s, rfl, hlists⟩

end readdir

end Dir

/-! ## Listings -/

/-- What happens while a directory is listed: something is done to it, or the listing goes on. -/
inductive DirEvent where
  | call (op : DirOp)
  | readdir (readErr : ℕ → ℤ) (filldir : List Listed → Listed → Bool)

/-- An event, with what is listed. -/
def Dir.scanStep (sb : DirSb) (e : DirEvent) (s : Dir × DirFile) :
    Option (List Listed × (Dir × DirFile)) :=
  match e with
  | .call op => (s.1.apply sb op).map fun r => ([], (r.2, s.2))
  | .readdir readErr filldir =>
      (readdir sb readErr filldir s.1 s.2).map fun r => (r.2.out, (r.2.dir, r.2.file))

/-- Operations are safe, and pages are read. -/
def DirEvent.Safe (sb : DirSb) : DirEvent → Prop
  | .call op => op.Safe sb
  | .readdir readErr _ => ∀ n, readErr n = 0

section scan

variable {sb : DirSb} {d d' : Dir} {f : DirFile} {events : List DirEvent}

lemma Dir.FileOk.of_same (h : d.FileOk f) (hsame : d.Same d') : d'.FileOk f := by
  refine ⟨?_, ?_⟩
  · rw [hsame.iVersion]
    exact h.version_le
  · rw [hsame.iVersion, hsame.iSize, hsame.slots_eq]
    exact h.place

lemma Dir.FileOk.evolves {removes : Prop} {name : DiskName} (h : d.FileOk f)
    (hev : Dir.Evolves removes name d d') : d'.FileOk f := by
  rcases hev.version with hlt | ⟨hversion, hsize, hslots⟩
  · exact ⟨h.version_le.trans hlt.le, fun heq => absurd (heq ▸ h.version_le) (Nat.not_le.mpr hlt)⟩
  · refine ⟨?_, ?_⟩
    · rw [hversion]
      exact h.version_le
    · rw [hversion, hsize, hslots]
      exact h.place

/-- An entry that no operation is about. -/
def Untouched (events : List DirEvent) (x : ℕ × Link) : Prop :=
  ∀ op, DirEvent.call op ∈ events → op.name ≠ x.2.name

/-- A listing from any place on. -/
lemma scan_from (hd : d.WF sb) (hf : d.FileOk f) (hevents : ∀ e ∈ events, e.Safe sb) :
    ∃ outs d' f', stepAll (Dir.scanStep sb) events (d, f) = some (outs, (d', f')) ∧ d'.WF sb ∧
      f.pos ≤ f'.pos ∧ (outs.flatten.Pairwise fun x y => x.place < y.place) ∧
      (∀ y ∈ outs.flatten, f.pos ≤ y.place ∧ y.place < f'.pos) ∧
      ∀ x ∈ d.live, Untouched events x →
        x ∈ d'.live ∧ (f.pos ≤ x.1 → x.1 < f'.pos → listedOf sb x ∈ outs.flatten) := by
  induction events generalizing d f with
  | nil =>
      refine ⟨[], d, f, rfl, hd, le_refl _, List.Pairwise.nil, by simp, fun x hx _ => ⟨hx, ?_⟩⟩
      intro hle hlt
      omega
  | cons e es ih =>
      have hrest : ∀ e' ∈ es, e'.Safe sb := fun e' he' => hevents e' (List.mem_cons_of_mem _ he')
      cases e with
      | call op =>
          obtain ⟨r, d₁, happly, hd₁, hev⟩ := Dir.apply_safe hd (hevents _ List.mem_cons_self)
          obtain ⟨outs, d', f', hrun, hd', hle, hsorted, hplaces, hall⟩ :=
            ih hd₁ (hf.evolves hev) hrest
          refine ⟨[] :: outs, d', f', ?_, hd', hle, hsorted, hplaces, fun x hx huntouched => ?_⟩
          · simp [stepAll, Dir.scanStep, happly, hrun]
          · apply hall x ((hev.live.mem_iff (huntouched op List.mem_cons_self).symm).mpr hx)
            exact fun op' hop' => huntouched op' (List.mem_cons_of_mem _ hop')
      | readdir readErr filldir =>
          obtain ⟨r, s, hread, hlists⟩ := Dir.readdir_spec hd hf readErr filldir
          obtain ⟨-, hout⟩ := hlists.listed (hevents _ List.mem_cons_self)
          rw [List.nil_append] at hout
          obtain ⟨outs, d', f', hrun, hd', hle, hsorted, hplaces, hall⟩ :=
            ih hlists.wf (hlists.fileOk.of_same hlists.same) hrest
          have hfirst : ∀ y ∈ s.out, f.pos ≤ y.place ∧ y.place < s.file.pos := by
            intro y hy
            rw [hout] at hy
            obtain ⟨x, hx, rfl⟩ := List.mem_map.mp hy
            exact (mem_window.mp hx).2
          refine ⟨s.out :: outs, d', f', ?_, hd', hlists.le.trans hle, ?_, ?_, ?_⟩
          · simp [stepAll, Dir.scanStep, hread, hrun]
          · rw [List.flatten_cons, List.pairwise_append]
            refine ⟨?_, hsorted, fun x hx y hy => ?_⟩
            · rw [hout, List.pairwise_map]
              exact window_pairwise hd.sorted _ _
            · exact (hfirst x hx).2.trans_le (hplaces y hy).1
          · intro y hy
            rcases List.mem_append.mp hy with hy | hy
            · exact ⟨(hfirst y hy).1, (hfirst y hy).2.trans_le hle⟩
            · exact ⟨hlists.le.trans (hplaces y hy).1, (hplaces y hy).2⟩
          · intro x hx huntouched
            rw [← hlists.same.live_eq] at hx
            obtain ⟨hx', hlater⟩ :=
              hall x hx fun op hop => huntouched op (List.mem_cons_of_mem _ hop)
            refine ⟨hx', fun hlo hhi => ?_⟩
            rw [List.flatten_cons, List.mem_append]
            rcases Nat.lt_or_ge x.1 s.file.pos with hlt | hge
            · rw [hlists.same.live_eq] at hx
              rw [hout]
              exact Or.inl (List.mem_map_of_mem (mem_window.mpr ⟨hx, hlo, hlt⟩))
            · exact Or.inr (hlater hge hhi)

/-- **Listing a directory that changes**: whatever is done to it between the calls, no place is
listed twice, and when the listing has come to the end of the directory, all entries are in it that
no operation was about. -/
theorem scan_spec (hd : d.WF sb) (hpos : f.pos = 0) (hversion : f.version ≤ d.iVersion)
    (hevents : ∀ e ∈ events, e.Safe sb) :
    ∃ outs d' f', stepAll (Dir.scanStep sb) events (d, f) = some (outs, (d', f')) ∧
      (outs.flatten.Pairwise fun x y => x.place < y.place) ∧
      (d'.iSize < f'.pos + dirRecLen 1 →
        ∀ x ∈ d.live, Untouched events x → listedOf sb x ∈ outs.flatten) := by
  have hf : d.FileOk f := by
    refine ⟨hversion, fun _ _ => Or.inl ?_⟩
    rw [hpos, Nat.zero_mod]
  obtain ⟨outs, d', f', hrun, hd', -, hsorted, -, hall⟩ := scan_from hd hf hevents
  refine ⟨outs, d', f', hrun, hsorted, fun hend x hx huntouched => ?_⟩
  obtain ⟨hx', hlisted⟩ := hall x hx huntouched
  apply hlisted
  · rw [hpos]
    exact Nat.zero_le _
  · obtain ⟨n, hn, hmem⟩ := Dir.mem_live.mp hx'
    have hplace := hd'.place_of_mem_liveIn hn hmem
    have hsize := Dir.add_lastByte_le hn
    omega

/-- One entry is listed, then an entry `a` is made and removed, then the rest is listed. -/
def scanNew : List DirEvent :=
  [.readdir (fun _ => 0) fun out _ => decide (out.length = 1)] ++ makeAndRemove.map .call ++
    [.readdir (fun _ => 0) fun _ _ => false]

/-- In a new directory. -/
theorem scan_spec_blank :
    ∃ d, Dir.blank.makeEmpty DirSb.kilobyte DirEnv.calm 11 2 0x41ed = some (0, d) ∧
      ∃ outs d' f', stepAll (Dir.scanStep DirSb.kilobyte) scanNew (d, ⟨0, 0⟩) =
          some (outs, (d', f')) ∧
        (outs.flatten.Pairwise fun x y => x.place < y.place) ∧
        (d'.iSize < f'.pos + dirRecLen 1 →
          ∀ x ∈ d.live, Untouched scanNew x → listedOf DirSb.kilobyte x ∈ outs.flatten) := by
  obtain ⟨d, hmake, hd, -⟩ := Dir.makeEmpty_blank 0x41ed
  refine ⟨d, hmake, scan_spec hd rfl (Nat.zero_le _) fun e he => ?_⟩
  rcases List.mem_append.mp he with he | he
  · rcases List.mem_append.mp he with he | he
    · rw [List.mem_singleton.mp he]
      exact fun _ => rfl
    · obtain ⟨op, hop, rfl⟩ := List.mem_map.mp he
      exact safe_makeAndRemove op hop
  · rw [List.mem_singleton.mp he]
    exact fun _ => rfl

end scan

end Comp3301.Ext3301
