import Comp3301.Shell.Files

/-!
# The shell: removing a directory

`rm` of `a0/shell.c`. Unlike `ls` it calls `getdents` once only: the entries that this call
delivers are unlinked, and `rmdir` then fails if the directory has others.

* `firstBatch` is what the call delivers, the longest run of records that fits the buffer
  (`lt_batchCount_iff`).
* So a directory is removed exactly if every entry other than `.` and `..` ends within the first
  `BUF_SIZE` bytes of its records (`removes_iff`).
-/

namespace Comp3301.Shell

open Comp3301.Lib

/-! ## Removing -/

/-- What `rm` finds: the files before it runs, which of them can be opened, the records of the
directories, what the first call of `getdents` delivers, the files that `unlink` refuses to unlink,
and whether the file can be closed. -/
structure RmCalls where
  lstat : Path → Option Stat
  opens : Path → Bool
  records : Path → List Record
  getdents : Path → Option (List UInt8)
  denies : Path → Bool
  closes : Bool

/-- `unlink (path)`, when the files in `gone` have been removed: the files that are gone then, or
`none` for -1. -/
def RmCalls.unlink (calls : RmCalls) (path : List UInt8) (gone : List Path) :
    Option (List Path) :=
  match lstatPath calls.lstat path with
  | none => none
  | some st =>
      if st.type = sIfdir ∨ resolve path ∈ gone ∨ calls.denies (resolve path) then none
      else some (resolve path :: gone)

/-- `rmdir (path)`: it must be a directory, and have no entries other than `.` and `..`. -/
def RmCalls.rmdir (calls : RmCalls) (path : List UInt8) (gone : List Path) : Option (List Path) :=
  match lstatPath calls.lstat path with
  | none => none
  | some st =>
      if st.type = sIfdir ∧ ∀ r ∈ calls.records (resolve path), ¬ IsDots r.name →
          (resolve path).child r.name ∈ gone then
        some (resolve path :: gone)
      else none

/-- The body of the loop over the records. The array `fullpath` starts with what is in `mem`. -/
def rmEntry (calls : RmCalls) (mem : List UInt8 → ℕ → UInt8) (filedir dename : List UInt8)
    (gone : List Path) : Option (List Path ⊕ (Outcome × List Path)) :=
  if IsDots dename then some (.inl gone) else do
    let fullpath ← compose ⟨maxChar, mem dename⟩ filedir dename
    let path ← cstring fullpath
    match calls.unlink path gone with
    | none => some (.inr (.perror "unlink", gone))
    | some gone => some (.inl gone)

/-- The end of `rm`. -/
def RmCalls.close (calls : RmCalls) : Outcome := if calls.closes then .done else .perror "close"

/-- `rm` of a directory, from `getdents` on. -/
def rmDir (fuel : ℕ) (calls : RmCalls) (buffer : ℕ → UInt8) (mem : List UInt8 → ℕ → UInt8)
    (filedir : List UInt8) : Option (Outcome × List Path) :=
  match calls.getdents (resolve filedir) with
  | none => some (.perror "getdents", [])
  | some bytes => do
      let buffer ← (⟨bufSize, buffer⟩ : Block UInt8).write bytes
      let result ← loopFor (recordRound (fun bufferptr => dirent (buffer.drop bufferptr))
        bytes.length (rmEntry calls mem filedir)) fuel (0, [])
      match result with
      | .inr returned => some returned
      | .inl gone =>
          match calls.rmdir filedir gone with
          | none => some (.perror "rmdir", gone)
          | some gone => some (calls.close, gone)

/-- `rm`: how it ends, and the files that it has removed. -/
def rm (fuel : ℕ) (calls : RmCalls) (buffer : ℕ → UInt8) (mem : List UInt8 → ℕ → UInt8)
    (count : ℤ) (filedir : List UInt8) : Option (Outcome × List Path) :=
  if 2 < count then some (.message "too many arguments", [])
  else if count < 2 then some (.message "too few arguments", [])
  else if !calls.opens (resolve filedir) then some (.perror "open", [])
  else match lstatPath calls.lstat filedir with
    | none => some (.perror "lstat", [])
    | some fstat =>
        if fstat.type ≠ sIfdir then
          match calls.unlink filedir [] with
          | none => some (.perror "unlink", [])
          | some gone => some (calls.close, gone)
        else rmDir fuel calls buffer mem filedir

/-! ## The first batch -/

/-- How many of the records fit `room` bytes. -/
def batchCount : ℕ → List Record → ℕ
  | _, [] => 0
  | room, r :: rs => if r.reclen ≤ room then batchCount (room - r.reclen) rs + 1 else 0

/-- What one call of `getdents` delivers: the longest run of records that fits the buffer. -/
def firstBatch (rs : List Record) : List Record := rs.take (batchCount bufSize rs)

/-- The records up to the one at `i` fit. -/
lemma lt_batchCount_iff {room i : ℕ} {rs : List Record} (hi : i < rs.length) :
    i < batchCount room rs ↔ ((rs.take (i + 1)).map Record.reclen).sum ≤ room := by
  induction rs generalizing room i with
  | nil => cases hi
  | cons r rs ih =>
      rw [batchCount, List.take_succ_cons, List.map_cons, List.sum_cons]
      split_ifs with hfits
      · cases i with
        | zero => simpa using hfits
        | succ i =>
            rw [Nat.add_lt_add_iff_right, ih (Nat.lt_of_succ_lt_succ hi)]
            omega
      · refine iff_of_false (Nat.not_lt_zero i) ?_
        omega

/-- The batch fits. -/
lemma length_batch_le (room : ℕ) (rs : List Record) :
    (bytesOf (rs.take (batchCount room rs))).length ≤ room := by
  induction rs generalizing room with
  | nil => exact Nat.zero_le room
  | cons r rs ih =>
      rw [batchCount]
      split_ifs with hfits
      · have hle := ih (room - r.reclen)
        rw [List.take_succ_cons, bytesOf, List.flatMap_cons, List.length_append, r.length_bytes]
        unfold bytesOf at hle
        omega
      · exact Nat.zero_le room

/-! ## Which directories are removed -/

/-- A directory with files in it only, which can all be unlinked, and whose paths fit
`fullpath`. -/
structure Removable (calls : RmCalls) (filedir : List UInt8) : Prop where
  nonzero : 0 ∉ filedir
  isDir : ∃ st, lstatPath calls.lstat filedir = some st ∧ st.type = sIfdir
  opens : calls.opens (resolve filedir) = true
  getdents : calls.getdents (resolve filedir) =
    some (bytesOf (firstBatch (calls.records (resolve filedir))))
  nodup : ((calls.records (resolve filedir)).map Record.name).Nodup
  files : ∀ r ∈ calls.records (resolve filedir), ¬ IsDots r.name →
    ∃ st, calls.lstat ((resolve filedir).child r.name) = some st ∧ st.type ≠ sIfdir
  unlinks : ∀ r ∈ calls.records (resolve filedir), ¬ IsDots r.name →
    calls.denies ((resolve filedir).child r.name) = false
  short : ∀ r ∈ calls.records (resolve filedir), ¬ IsDots r.name →
    (composed filedir r.name).length < maxChar

/-- `rm` unlinks every entry and removes the directory. -/
def Removes (calls : RmCalls) (buffer : ℕ → UInt8) (mem : List UInt8 → ℕ → UInt8)
    (filedir : List UInt8) : Prop :=
  ∃ n, ∀ fuel ≥ n, ∃ outcome gone, rm fuel calls buffer mem 2 filedir = some (outcome, gone) ∧
    (∀ r ∈ calls.records (resolve filedir), ¬ IsDots r.name →
      (resolve filedir).child r.name ∈ gone) ∧ resolve filedir ∈ gone

section rm

variable {calls : RmCalls} {filedir : List UInt8}

lemma child_injective (dir : Path) {name name' : List UInt8}
    (h : dir.child name = dir.child name') : name = name' := by
  have hparts := congrArg Path.parts h
  simpa [Path.child] using hparts

/-- A directory is not a file in itself. -/
lemma child_ne (dir : Path) (name : List UInt8) : dir.child name ≠ dir := by
  intro h
  have hparts := congrArg (fun p : Path => p.parts.length) h
  simp [Path.child] at hparts

lemma Removable.filedir_ne_nil (h : Removable calls filedir) : filedir ≠ [] := by
  obtain ⟨st, hlstat, -⟩ := h.isDir
  rintro rfl
  cases hlstat

/-- What is gone after an entry. -/
def goneAfter (dir : Path) (gone : List Path) (name : List UInt8) : List Path :=
  if IsDots name then gone else dir.child name :: gone

lemma mem_goneAfter (dir : Path) (names : List (List UInt8)) (gone : List Path) (p : Path) :
    p ∈ names.foldl (goneAfter dir) gone ↔
      p ∈ gone ∨ ∃ name ∈ names, ¬ IsDots name ∧ p = dir.child name := by
  induction names generalizing gone with
  | nil => simp
  | cons name names ih =>
      rw [List.foldl_cons, ih, goneAfter]
      by_cases hdots : IsDots name
      · simp [hdots]
      · simp [hdots, or_assoc, or_left_comm]

/-- The body of the loop over the records: the entry is unlinked. -/
lemma rmEntry_spec (h : Removable calls filedir) {r : Record}
    (hr : r ∈ calls.records (resolve filedir)) {gone : List Path}
    (hnot : (resolve filedir).child r.name ∉ gone) (mem : List UInt8 → ℕ → UInt8) :
    rmEntry calls mem filedir r.name gone =
      some (.inl (goneAfter (resolve filedir) gone r.name)) := by
  unfold rmEntry goneAfter
  by_cases hdots : IsDots r.name
  · rw [if_pos hdots, if_pos hdots]
  · have harg := h.filedir_ne_nil
    obtain ⟨m, hcompose, hm⟩ := compose_spec (m := ⟨maxChar, mem r.name⟩) harg h.nonzero r.nonzero
      (h.short r hr hdots)
    obtain ⟨st, hlstat, hst⟩ := h.files r hr hdots
    have hname := r.nameOk hdots
    have hunlink : calls.unlink (composed filedir r.name) gone =
        some ((resolve filedir).child r.name :: gone) := by
      rw [RmCalls.unlink, lstatPath_composed _ harg hname, hlstat, resolve_composed harg hname]
      simp only
      rw [if_neg]
      simp [hst, hnot, h.unlinks r hr hdots]
    rw [if_neg hdots, if_neg hdots, hcompose, Option.bind_eq_bind, Option.bind_some,
      hm.cstring_eq, Option.bind_eq_bind, Option.bind_some, hunlink]

/-- What is gone when the loop over the records of the batch has come to its end. -/
def goneAfterBatch (calls : RmCalls) (dir : Path) : List Path :=
  ((firstBatch (calls.records dir)).map Record.name).foldl (goneAfter dir) []

/-- Every entry of the batch is unlinked. -/
lemma rmLoop_spec (h : Removable calls filedir) (mem : List UInt8 → ℕ → UInt8) :
    runOver (rmEntry calls mem filedir)
      ((firstBatch (calls.records (resolve filedir))).map Record.name) [] =
        some (.inl (goneAfterBatch calls (resolve filedir))) := by
  apply runOver_invariant (I := fun gone names => names.Nodup ∧ ∀ name ∈ names,
    (∃ r ∈ calls.records (resolve filedir), r.name = name) ∧ (resolve filedir).child name ∉ gone)
  · rintro gone name names ⟨hnodup, hnames⟩
    obtain ⟨⟨r, hr, rfl⟩, hnot⟩ := hnames name List.mem_cons_self
    obtain ⟨hfresh, hnodup⟩ := List.nodup_cons.mp hnodup
    refine ⟨rmEntry_spec h hr hnot mem, hnodup, fun name hname => ?_⟩
    obtain ⟨hrecord, hnot'⟩ := hnames name (List.mem_cons_of_mem _ hname)
    refine ⟨hrecord, fun hmem => ?_⟩
    unfold goneAfter at hmem
    split_ifs at hmem with hdots
    · exact hnot' hmem
    · rcases List.mem_cons.mp hmem with heq | hmem
      · exact hfresh (child_injective _ heq ▸ hname)
      · exact hnot' hmem
  · constructor
    · rw [firstBatch, List.map_take]
      exact h.nodup.sublist (List.take_sublist _ _)
    · intro name hname
      obtain ⟨r, hr, rfl⟩ := List.mem_map.mp hname
      exact ⟨⟨r, List.mem_of_mem_take hr, rfl⟩, List.not_mem_nil⟩

/-- `rm` unlinks what the first call of `getdents` delivers, and tries to remove the directory. -/
lemma rm_eq (h : Removable calls filedir) (buffer : ℕ → UInt8) (mem : List UInt8 → ℕ → UInt8)
    {fuel : ℕ} (hfuel : (firstBatch (calls.records (resolve filedir))).length < fuel) :
    rm fuel calls buffer mem 2 filedir =
      some (match calls.rmdir filedir (goneAfterBatch calls (resolve filedir)) with
        | none => (.perror "rmdir", goneAfterBatch calls (resolve filedir))
        | some gone => (calls.close, gone)) := by
  have hfits : (bytesOf (firstBatch (calls.records (resolve filedir)))).length ≤ bufSize :=
    length_batch_le bufSize _
  have hwrite : (⟨bufSize, buffer⟩ : Block UInt8).write
      (bytesOf (firstBatch (calls.records (resolve filedir)))) = some _ := Block.write_eq hfits
  obtain ⟨st, hlstat, hst⟩ := h.isDir
  have hdir : rm fuel calls buffer mem 2 filedir = rmDir fuel calls buffer mem filedir := by
    rw [rm, if_neg (by decide), if_neg (by decide), h.opens, hlstat]
    simp [hst]
  rw [hdir, rmDir, h.getdents]
  simp only [hwrite, Option.bind_eq_bind, Option.bind_some]
  rw [recordLoop_written hfits _ _ hfuel, rmLoop_spec h mem, Option.bind_some]
  rcases hrmdir : calls.rmdir filedir (goneAfterBatch calls (resolve filedir)) with _ | gone <;>
    simp only [hrmdir]

/-- What is gone then. -/
lemma child_mem_goneAfterBatch_iff (h : Removable calls filedir) {r : Record}
    (hr : r ∈ calls.records (resolve filedir)) (hdots : ¬ IsDots r.name) :
    (resolve filedir).child r.name ∈ goneAfterBatch calls (resolve filedir) ↔
      r ∈ firstBatch (calls.records (resolve filedir)) := by
  rw [goneAfterBatch, mem_goneAfter]
  constructor
  · rintro (hnil | ⟨name, hname, -, heq⟩)
    · cases hnil
    · obtain ⟨r', hr', rfl⟩ := List.mem_map.mp hname
      have hsame := List.inj_on_of_nodup_map h.nodup hr (List.mem_of_mem_take hr')
        (child_injective _ heq)
      rwa [hsame]
  · exact fun hmem => Or.inr ⟨r.name, List.mem_map_of_mem hmem, hdots, rfl⟩

/-- The directory is not among the entries. -/
lemma dir_not_mem (dir : Path) : dir ∉ goneAfterBatch calls dir := by
  rw [goneAfterBatch, mem_goneAfter]
  rintro (hnil | ⟨name, -, -, heq⟩)
  · cases hnil
  · exact child_ne dir name heq.symm

/-- The directory is removed exactly if the batch has all of its files. -/
lemma removes_iff_firstBatch (h : Removable calls filedir) (buffer : ℕ → UInt8)
    (mem : List UInt8 → ℕ → UInt8) :
    Removes calls buffer mem filedir ↔
      ∀ r ∈ calls.records (resolve filedir), ¬ IsDots r.name →
        r ∈ firstBatch (calls.records (resolve filedir)) := by
  obtain ⟨st, hlstat, hst⟩ := h.isDir
  constructor
  · rintro ⟨n, hn⟩ r hr hdots
    obtain ⟨outcome, gone, hrm, -, hremoved⟩ :=
      hn (max n ((firstBatch (calls.records (resolve filedir))).length + 1)) (le_max_left _ _)
    rw [rm_eq h buffer mem (le_max_right n _), RmCalls.rmdir, hlstat] at hrm
    simp only at hrm
    by_cases hall : st.type = sIfdir ∧ ∀ r ∈ calls.records (resolve filedir), ¬ IsDots r.name →
        (resolve filedir).child r.name ∈ goneAfterBatch calls (resolve filedir)
    · exact (child_mem_goneAfterBatch_iff h hr hdots).mp (hall.2 r hr hdots)
    · rw [if_neg hall] at hrm
      cases hrm
      exact absurd hremoved (dir_not_mem _)
  · intro hall
    refine ⟨(firstBatch (calls.records (resolve filedir))).length + 1, fun fuel hfuel => ?_⟩
    have hgone : ∀ r ∈ calls.records (resolve filedir), ¬ IsDots r.name →
        (resolve filedir).child r.name ∈ goneAfterBatch calls (resolve filedir) :=
      fun r hr hdots => (child_mem_goneAfterBatch_iff h hr hdots).mpr (hall r hr hdots)
    refine ⟨calls.close, resolve filedir :: goneAfterBatch calls (resolve filedir), ?_,
      fun r hr hdots => List.mem_cons_of_mem _ (hgone r hr hdots), List.mem_cons_self⟩
    rw [rm_eq h buffer mem hfuel, RmCalls.rmdir, hlstat]
    simp only
    rw [if_pos ⟨hst, hgone⟩]

/-- An entry is in the batch if the records up to its own fit. -/
lemma mem_firstBatch_iff {rs : List Record} (hnodup : rs.Nodup) {i : ℕ} (hi : i < rs.length) :
    rs[i] ∈ firstBatch rs ↔ ((rs.take (i + 1)).map Record.reclen).sum ≤ bufSize := by
  rw [← lt_batchCount_iff hi, firstBatch, List.mem_take_iff_getElem]
  constructor
  · rintro ⟨j, hj, heq⟩
    obtain rfl : j = i := hnodup.getElem_inj_iff.mp heq
    exact (lt_min_iff.mp hj).1
  · exact fun hlt => ⟨i, lt_min hlt hi, rfl⟩

/-- **`rm` removes a directory of files exactly if every entry other than `.` and `..` ends within
the first `BUF_SIZE` bytes of its records.** -/
theorem removes_iff (h : Removable calls filedir) (buffer : ℕ → UInt8)
    (mem : List UInt8 → ℕ → UInt8) :
    Removes calls buffer mem filedir ↔
      ∀ i r, (calls.records (resolve filedir))[i]? = some r → ¬ IsDots r.name →
        (((calls.records (resolve filedir)).take (i + 1)).map Record.reclen).sum ≤ bufSize := by
  rw [removes_iff_firstBatch h]
  constructor
  · intro hall i r hi hdots
    obtain ⟨hlt, rfl⟩ := List.getElem?_eq_some_iff.mp hi
    exact (mem_firstBatch_iff (h.nodup.of_map _) hlt).mp (hall _ (List.getElem_mem hlt) hdots)
  · intro hall r hr hdots
    obtain ⟨i, hi, rfl⟩ := List.getElem_of_mem hr
    exact (mem_firstBatch_iff (h.nodup.of_map _) hi).mpr
      (hall i _ (List.getElem?_eq_getElem hi) hdots)

end rm

/-- A directory `d` with these records. -/
def dirOf (rs : List Record) : RmCalls where
  lstat path := if path = resolve [100] then some ⟨sIfdir, 4096⟩ else some ⟨sIfreg, 3⟩
  opens _ := true
  records _ := rs
  getdents _ := some (bytesOf (firstBatch rs))
  denies _ := false
  closes := true

lemma removable_dirOf {rs : List Record} (hnodup : (rs.map Record.name).Nodup)
    (hshort : ∀ r ∈ rs, r.name.length ≤ 255) : Removable (dirOf rs) [100] where
  nonzero := by decide
  isDir := ⟨⟨sIfdir, 4096⟩, rfl, rfl⟩
  opens := rfl
  getdents := rfl
  nodup := hnodup
  files r _ _ := by
    have hne : (resolve [100]).child r.name ≠ resolve [100] := child_ne _ _
    exact ⟨⟨sIfreg, 3⟩, by simp [dirOf, hne], by decide⟩
  unlinks _ _ _ := rfl
  short r hr _ := by
    have hle := hshort r hr
    have hcomposed : composed [100] r.name = joined [100] r.name := if_neg (by decide)
    rw [hcomposed, joined, List.length_append, List.length_singleton, List.length_cons]
    unfold maxChar
    omega

/-- A directory with one file is removed. -/
theorem removes_one :
    Removes (dirOf [dotRecord, dotDotRecord, fileRecord]) (fun _ => 0) (fun _ _ => 0) [100] := by
  refine (removes_iff (removable_dirOf (by decide) (by decide)) _ _).mpr ?_
  intro i r hi _
  match i, hi with
  | 0, _ => decide
  | 1, _ => decide
  | 2, _ => decide

/-- A name of `n` characters. -/
def longText (n : ℕ) : List UInt8 := List.replicate n 102

lemma slash_not_mem_longText (n : ℕ) : slash ∉ longText n :=
  fun h => absurd (List.eq_of_mem_replicate h) (by decide)

lemma zero_not_mem_longText (n : ℕ) : 0 ∉ longText n :=
  fun h => absurd (List.eq_of_mem_replicate h) (by decide)

lemma length_longText_lt (i : Fin 100) :
    19 + (longText (i.val + 1)).length + [(0 : UInt8), 0].length < 2 ^ 16 := by
  have := i.isLt
  simp only [longText, List.length_replicate, List.length_cons, List.length_nil]
  omega

/-- A file whose name has `i + 1` characters. -/
def longName (i : Fin 100) : Record :=
  ⟨sampleHeader, longText (i.val + 1), [0, 0], length_sampleHeader, List.cons_ne_nil _ _,
    slash_not_mem_longText _, zero_not_mem_longText _, length_longText_lt i⟩

/-- The records of a directory with a hundred files. -/
def hundredFiles : List Record :=
  dotRecord :: dotDotRecord :: (List.finRange 100).map longName

lemma dots_ne_longName (i : Fin 100) : ¬ IsDots (longName i).name := by
  rintro (h | h) <;>
    exact absurd (List.eq_of_mem_replicate (h ▸ List.mem_cons_self)) (by decide)

lemma nodup_hundredFiles : (hundredFiles.map Record.name).Nodup := by
  have hfiles : ((List.finRange 100).map fun i => (longName i).name).Nodup := by
    refine (List.nodup_finRange 100).map fun i j heq => ?_
    have hlen := congrArg List.length heq
    simpa [longName, longText, Fin.ext_iff] using hlen
  rw [hundredFiles, List.map_cons, List.map_cons, List.map_map]
  refine List.nodup_cons.mpr ⟨?_, List.nodup_cons.mpr ⟨?_, hfiles⟩⟩
  · rw [List.mem_cons, not_or]
    refine ⟨by decide, fun hmem => ?_⟩
    obtain ⟨i, -, heq⟩ := List.mem_map.mp hmem
    exact dots_ne_longName i (Or.inl heq)
  · intro hmem
    obtain ⟨i, -, heq⟩ := List.mem_map.mp hmem
    exact dots_ne_longName i (Or.inr heq)

lemma length_name_le {r : Record} (hr : r ∈ hundredFiles) : r.name.length ≤ 255 := by
  rcases List.mem_cons.mp hr with rfl | hr
  · decide
  rcases List.mem_cons.mp hr with rfl | hr
  · decide
  · obtain ⟨i, -, rfl⟩ := List.mem_map.mp hr
    have := i.isLt
    simp only [longName, longText, List.length_replicate]
    omega

/-- Their records do not fit the buffer. -/
lemma bufSize_lt_hundredFiles :
    bufSize < ((hundredFiles.take (101 + 1)).map Record.reclen).sum := by
  have hlen : hundredFiles.length = 101 + 1 := by simp [hundredFiles]
  rw [List.take_of_length_le hlen.le, hundredFiles, List.map_cons, List.map_cons, List.map_map]
  have hfiles : (Record.reclen ∘ longName) = fun i : Fin 100 => 22 + i.val := by
    funext i
    simp only [Function.comp, Record.reclen, longName, longText, List.length_replicate,
      List.length_cons, List.length_nil]
    omega
  rw [hfiles]
  decide

/-- A directory with a hundred files is not removed. -/
theorem not_removes_hundred :
    Removable (dirOf hundredFiles) [100] ∧
      ¬ Removes (dirOf hundredFiles) (fun _ => 0) (fun _ _ => 0) [100] := by
  have hremovable := removable_dirOf nodup_hundredFiles fun r hr => length_name_le hr
  refine ⟨hremovable, fun h => ?_⟩
  have hlen : 101 < hundredFiles.length := by simp [hundredFiles]
  have hlast : hundredFiles[101] = longName 99 := by simp [hundredFiles]
  have hbatch := (removes_iff_firstBatch hremovable _ _).mp h _ (List.getElem_mem hlen)
    (hlast ▸ dots_ne_longName 99)
  have hsum := (mem_firstBatch_iff (nodup_hundredFiles.of_map _) hlen).mp hbatch
  exact absurd hsum (Nat.not_le.mpr bufSize_lt_hundredFiles)

end Comp3301.Shell
