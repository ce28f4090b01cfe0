import Comp3301.Shell.Files

/-!
# The shell: listing a directory

`ls` of `a0/shell.c`. `getdents` delivers the records of the directory in batches, and nothing at
the end; each batch is read record by record, and for every entry other than `.` and `..` the path
of the file is put together for `lstat`.

In which way the records are split into batches does not matter: every entry is listed once, in
the order in which it is delivered, with what `lstat` says about the file of that name in the
directory (`ls_lists`).
-/

namespace Comp3301.Shell

open Comp3301.Lib

/-! ## Printing -/

/-- The characters of `%lld`. -/
def decimal (n : ℤ) : List UInt8 :=
  (if n < 0 then [45] else []) ++ (Nat.toDigits 10 n.natAbs).map fun c => UInt8.ofNat c.toNat

/-- `printf ("%c %10lld %s\n", type, size, name)`. -/
def printLine (type : UInt8) (size : ℤ) (name : List UInt8) : List UInt8 :=
  [type, space] ++ (decimal size).leftpad 10 space ++ [space] ++ name ++ [newline]

/-- The letter for the type of the argument. -/
def argType (st : Stat) : UInt8 :=
  if st.type = sIfreg then 102 else if st.type = sIflnk then 115 else 111

/-- The letter for the type of an entry. -/
def typeLetter (st : Stat) : UInt8 :=
  if st.type = sIfreg then 102
  else if st.type = sIflnk then 115
  else if st.type = sIfdir then 100
  else 111

/-- `strrchr (arg, '/')`: what stands behind the last slash, or all of it. -/
def lastComponent (arg : List UInt8) : List UInt8 :=
  (arg.reverse.takeWhile (· ≠ slash)).reverse

/-! ## Listing -/

/-- What `ls` finds: `lstat`, whether a file can be opened, what the calls of `getdents` deliver,
and whether the directory can be closed. -/
structure LsCalls where
  lstat : Path → Option Stat
  opens : Path → Bool
  getdents : ℕ → Option (List UInt8)
  closes : Bool

/-- Forming `fullpath`. -/
def formPath (fullpath : Block UInt8) (count : ℤ) (arg dename : List UInt8) :
    Option (Block UInt8) :=
  if 1 < count then compose fullpath arg dename else strcpy fullpath dename

/-- The body of the loop over the records. The array `fullpath` starts with what is in `mem`. -/
def lsEntry (calls : LsCalls) (mem : List UInt8 → ℕ → UInt8) (count : ℤ) (arg dename : List UInt8)
    (out : List UInt8) : Option (List UInt8 ⊕ (Outcome × List UInt8)) :=
  if IsDots dename then some (.inl out) else do
    let fullpath ← formPath ⟨maxChar, mem dename⟩ count arg dename
    let path ← cstring fullpath
    match lstatPath calls.lstat path with
    | none => some (.inr (.perror "lstat", out))
    | some fstat => some (.inl (out ++ printLine (typeLetter fstat) fstat.size dename))

/-- A round of the loop over the batches: the number of the call of `getdents`, the buffer, and what
has been printed. The loop ends with `.inl`, and `ls` with `.inr`. -/
def lsRound (calls : LsCalls) (mem : List UInt8 → ℕ → UInt8) (count : ℤ) (arg : List UInt8)
    (fuel : ℕ) : ℕ × Block UInt8 × List UInt8 → Option ((ℕ × Block UInt8 × List UInt8) ⊕
      (List UInt8 ⊕ (Outcome × List UInt8)))
  | (i, buffer, out) =>
      match calls.getdents i with
      | none => some (.inr (.inr (.perror "getdents", out)))
      | some bytes => do
          let buffer ← buffer.write bytes
          if bytes.length = 0 then some (.inr (.inl out)) else do
            let result ← loopFor (recordRound (fun bufferptr => dirent (buffer.drop bufferptr))
              bytes.length (lsEntry calls mem count arg)) fuel (0, out)
            match result with
            | .inl out => some (.inl (i + 1, buffer, out))
            | .inr returned => some (.inr (.inr returned))

/-- `ls` from `open` on. -/
def lsDir (fuel : ℕ) (calls : LsCalls) (buffer : ℕ → UInt8) (mem : List UInt8 → ℕ → UInt8)
    (count : ℤ) (arg : List UInt8) : Option (Outcome × List UInt8) :=
  if !calls.opens (resolve (if 1 < count then arg else [dot])) then some (.perror "open", [])
  else do
    let result ← loopFor (lsRound calls mem count arg fuel) fuel (0, ⟨bufSize, buffer⟩, [])
    match result with
    | .inr returned => some returned
    | .inl out => if !calls.closes then some (.perror "close", out) else some (.done, out)

/-- `ls`: how it ends, and what it has printed. -/
def ls (fuel : ℕ) (calls : LsCalls) (buffer : ℕ → UInt8) (mem : List UInt8 → ℕ → UInt8)
    (count : ℤ) (arg : List UInt8) : Option (Outcome × List UInt8) :=
  if 2 < count then some (.message "too many arguments", [])
  else if 1 < count then
    match lstatPath calls.lstat arg with
    | none => some (.perror "lstat", [])
    | some argstat =>
        if argstat.type ≠ sIfdir then
          some (.done, printLine (argType argstat) argstat.size (lastComponent arg))
        else lsDir fuel calls buffer mem count arg
  else lsDir fuel calls buffer mem count arg

/-! ## Every entry is listed once -/

/-- The path of the directory. -/
def dirPath (count : ℤ) (arg : List UInt8) : List UInt8 := if 1 < count then arg else [dot]

/-- What is put into `fullpath`. -/
def entryPath (count : ℤ) (arg name : List UInt8) : List UInt8 :=
  if 1 < count then composed arg name else name

/-- The argument, if there is one, names a directory, which can be opened. -/
structure OpensDir (calls : LsCalls) (count : ℤ) (arg : List UInt8) : Prop where
  count_le : count ≤ 2
  nonzero : 1 < count → 0 ∉ arg
  isDir : 1 < count → ∃ st, lstatPath calls.lstat arg = some st ∧ st.type = sIfdir
  opens : calls.opens (resolve (dirPath count arg)) = true

/-- `getdents` delivers the records in these batches, and nothing after them. -/
structure Delivers (calls : LsCalls) (batches : List (List Record)) : Prop where
  getdents : ∀ i ≤ batches.length, calls.getdents i = some (bytesOf (batches[i]?.getD []))
  nonempty : ∀ batch ∈ batches, batch ≠ []
  fits : ∀ batch ∈ batches, (bytesOf batch).length ≤ bufSize

/-- The entries that are listed. -/
def listed (batches : List (List Record)) : List Record :=
  batches.flatten.filter fun r => ¬ IsDots r.name

/-- The files of these entries are there, and their paths fit `fullpath`. -/
structure Found (calls : LsCalls) (count : ℤ) (arg : List UInt8) (batches : List (List Record))
    (stat : List UInt8 → Stat) : Prop where
  lstat : ∀ r ∈ listed batches,
    lstatPath calls.lstat (joined (dirPath count arg) r.name) = some (stat r.name)
  short : ∀ r ∈ listed batches, (entryPath count arg r.name).length < maxChar

/-- The line of an entry. -/
def entryLine (stat : List UInt8 → Stat) (name : List UInt8) : List UInt8 :=
  printLine (typeLetter (stat name)) (stat name).size name

section ls

variable {calls : LsCalls} {count : ℤ} {arg : List UInt8} {batches : List (List Record)}
  {stat : List UInt8 → Stat}

lemma OpensDir.arg_ne_nil (h : OpensDir calls count arg) (hcount : 1 < count) : arg ≠ [] := by
  obtain ⟨st, hlstat, -⟩ := h.isDir hcount
  rintro rfl
  cases hlstat

/-- The path is put together, and names the file of that name in the directory. -/
lemma lsEntry_path (h : OpensDir calls count arg) {r : Record} (hdots : ¬ IsDots r.name)
    (hshort : (entryPath count arg r.name).length < maxChar) (mem : ℕ → UInt8) :
    ∃ m, formPath ⟨maxChar, mem⟩ count arg r.name = some m ∧
      cstring m = some (entryPath count arg r.name) ∧
        lstatPath calls.lstat (entryPath count arg r.name) =
          lstatPath calls.lstat (joined (dirPath count arg) r.name) := by
  have hname := r.nameOk hdots
  unfold formPath
  unfold entryPath at hshort ⊢
  unfold dirPath
  split_ifs at hshort ⊢ with hcount
  · have harg := h.arg_ne_nil hcount
    obtain ⟨m, hcompose, hm⟩ := compose_spec (m := ⟨maxChar, mem⟩) harg (h.nonzero hcount) r.nonzero
      hshort
    refine ⟨m, hcompose, hm.cstring_eq, ?_⟩
    rw [lstatPath_composed _ harg hname, lstatPath_joined _ harg hname]
  · obtain ⟨m, hcopy, hm, -⟩ := strcpy_spec (m := ⟨maxChar, mem⟩) hshort r.nonzero
    refine ⟨m, hcopy, hm.cstring_eq, ?_⟩
    rw [lstatPath_name _ hname, lstatPath_joined _ (List.cons_ne_nil dot []) hname]

/-- The body of the loop over the records. -/
lemma lsEntry_spec (h : OpensDir calls count arg) (hfound : Found calls count arg batches stat)
    {r : Record} (hr : r ∈ batches.flatten) (mem : List UInt8 → ℕ → UInt8) (out : List UInt8) :
    lsEntry calls mem count arg r.name out =
      some (.inl (out ++ if IsDots r.name then [] else entryLine stat r.name)) := by
  unfold lsEntry
  by_cases hdots : IsDots r.name
  · rw [if_pos hdots, if_pos hdots, List.append_nil]
  · have hlisted : r ∈ listed batches := List.mem_filter.mpr ⟨hr, by simpa using hdots⟩
    obtain ⟨m, hcompose, hpath, hlstat⟩ :=
      lsEntry_path h hdots (hfound.short r hlisted) (mem r.name)
    rw [if_neg hdots, if_neg hdots, hcompose, Option.bind_eq_bind, Option.bind_some, hpath,
      Option.bind_eq_bind, Option.bind_some, hlstat, hfound.lstat r hlisted]
    rfl

/-- What is printed for some batches. -/
def linesOf (stat : List UInt8 → Stat) (batches : List (List Record)) : List UInt8 :=
  (listed batches).flatMap fun r => entryLine stat r.name

lemma linesOf_append (batches batches' : List (List Record)) :
    linesOf stat (batches ++ batches') = linesOf stat batches ++ linesOf stat batches' := by
  simp [linesOf, listed]

/-- The lines of one batch. -/
lemma linesOf_singleton (batch : List Record) :
    linesOf stat [batch] =
      (batch.map Record.name).flatMap fun name =>
        if IsDots name then [] else entryLine stat name := by
  simp only [linesOf, listed, List.flatten_cons, List.flatten_nil, List.append_nil]
  induction batch with
  | nil => rfl
  | cons r rs ih =>
      rw [List.map_cons, List.flatMap_cons, ← ih]
      by_cases hdots : IsDots r.name
      · rw [List.filter_cons_of_neg (by simpa using hdots), if_pos hdots, List.nil_append]
      · rw [List.filter_cons_of_pos (by simpa using hdots), if_neg hdots, List.flatMap_cons]

/-- The loop over the records of one batch. -/
lemma recordLoop_batch (h : OpensDir calls count arg) (hfound : Found calls count arg batches stat)
    {batch : List Record} (hbatch : batch ∈ batches) {buffer : Block UInt8}
    (hfits : (bytesOf batch).length ≤ buffer.size) (mem : List UInt8 → ℕ → UInt8)
    (out : List UInt8) {fuel : ℕ} (hfuel : batch.length < fuel) :
    loopFor (recordRound (fun p => dirent ((buffer.written (bytesOf batch)).drop p))
      (bytesOf batch).length (lsEntry calls mem count arg)) fuel (0, out) =
        some (.inl (out ++ linesOf stat [batch])) := by
  rw [recordLoop_written hfits _ _ hfuel, linesOf_singleton]
  apply runOver_eq_flatMap
  intro name hname out
  obtain ⟨r, hr, rfl⟩ := List.mem_map.mp hname
  exact lsEntry_spec h hfound (List.mem_flatten_of_mem hbatch hr) mem out

/-- The invariant of the loop over the batches: the batches before the next call of `getdents` have
been listed. -/
structure ListedUpTo (batches : List (List Record)) (stat : List UInt8 → Stat)
    (state : ℕ × Block UInt8 × List UInt8) : Prop where
  index : state.1 ≤ batches.length
  size : state.2.1.size = bufSize
  printed : state.2.2 = linesOf stat (batches.take state.1)

/-- One batch. -/
lemma lsRound_advances (h : OpensDir calls count arg) (hdelivers : Delivers calls batches)
    (hfound : Found calls count arg batches stat) (mem : List UInt8 → ℕ → UInt8) {fuel : ℕ}
    (hfuel : ∀ batch ∈ batches, batch.length < fuel) (state : ℕ × Block UInt8 × List UInt8)
    (hstate : ListedUpTo batches stat state) :
    Advances (lsRound calls mem count arg fuel) (ListedUpTo batches stat)
      (fun state => batches.length - state.1) (· = .inl (linesOf stat batches)) state := by
  obtain ⟨i, buffer, out⟩ := state
  have hindex := hstate.index
  have hprinted := hstate.printed
  simp only at hindex hprinted
  have hgot := hdelivers.getdents i hindex
  by_cases hi : i < batches.length
  · have hmem : batches[i] ∈ batches := List.getElem_mem hi
    rw [List.getElem?_eq_getElem hi, Option.getD_some] at hgot
    have hfits : (bytesOf batches[i]).length ≤ buffer.size :=
      (hdelivers.fits _ hmem).trans hstate.size.ge
    have hpos : (bytesOf batches[i]).length ≠ 0 := by
      obtain ⟨r, rs, hcons⟩ := List.exists_cons_of_ne_nil (hdelivers.nonempty _ hmem)
      rw [hcons, bytesOf, List.flatMap_cons, List.length_append, r.length_bytes]
      exact (Nat.add_pos_left r.reclen_pos _).ne'
    have hloop := recordLoop_batch h hfound hmem hfits mem out (hfuel _ hmem)
    have hround : lsRound calls mem count arg fuel (i, buffer, out) =
        some (.inl (i + 1, buffer.written (bytesOf batches[i]),
          out ++ linesOf stat [batches[i]])) := by
      rw [lsRound, hgot]
      simp only [Block.write_eq hfits, Option.bind_eq_bind, Option.bind_some, if_neg hpos, hloop]
    refine Or.inl ⟨_, hround, ⟨hi, hstate.size, ?_⟩, ?_⟩
    · simp only
      rw [hprinted, ← linesOf_append, ← List.take_concat_get' _ _ hi]
    · simp only
      omega
  · obtain rfl : i = batches.length := le_antisymm hindex (Nat.not_lt.mp hi)
    rw [List.getElem?_eq_none (le_refl _), Option.getD_none] at hgot
    have hround : lsRound calls mem count arg fuel (batches.length, buffer, out) =
        some (.inr (.inl out)) := by
      rw [lsRound, hgot]
      simp [bytesOf, Block.write]
    refine Or.inr ⟨_, hround, ?_⟩
    rw [hprinted, List.take_length]

/-- **`ls` lists every entry exactly once**, in the order of the records and however they are split
into batches, with the type and the size of the file of that name in the directory. -/
theorem ls_lists (h : OpensDir calls count arg) (hdelivers : Delivers calls batches)
    (hfound : Found calls count arg batches stat) (buffer : ℕ → UInt8)
    (mem : List UInt8 → ℕ → UInt8) :
    ∃ n, ∀ fuel ≥ n, ls fuel calls buffer mem count arg =
      some (if calls.closes then .done else .perror "close",
        (listed batches).flatMap fun r => entryLine stat r.name) := by
  refine ⟨(batches.map List.length).sum + batches.length + 1, fun fuel hfuel => ?_⟩
  have hbatch : ∀ batch ∈ batches, batch.length < fuel := by
    intro batch hmem
    have hle := List.le_sum_of_mem (List.mem_map_of_mem (f := List.length) hmem)
    omega
  have hstart : ListedUpTo batches stat (0, ⟨bufSize, buffer⟩, []) := ⟨Nat.zero_le _, rfl, rfl⟩
  obtain ⟨_, hloop, rfl⟩ := loopFor_total (lsRound_advances h hdelivers hfound mem hbatch) hstart
    (show batches.length - 0 < fuel by omega)
  have hopens := h.opens
  unfold dirPath at hopens
  have hdir : lsDir fuel calls buffer mem count arg =
      some (if calls.closes then .done else .perror "close", linesOf stat batches) := by
    rw [lsDir, hopens, hloop]
    cases calls.closes <;> rfl
  rw [ls, if_neg (not_lt.mpr h.count_le)]
  by_cases hcount : 1 < count
  · obtain ⟨st, hlstat, hst⟩ := h.isDir hcount
    rw [if_pos hcount, hlstat]
    simp only [hst, ne_eq, not_true, if_false]
    exact hdir
  · rw [if_neg hcount]
    exact hdir

end ls

/-- A directory `d` with the file `f` in it, delivered in two batches. -/
def oneFile : LsCalls where
  lstat path := if path = resolve [100, slash] then some ⟨sIfdir, 4096⟩ else some ⟨sIfreg, 3⟩
  opens _ := true
  getdents i := some (bytesOf ([[dotRecord], [fileRecord]][i]?.getD []))
  closes := true

/-- `ls d/` lists `f`. -/
theorem ls_lists_one :
    ∃ n, ∀ fuel ≥ n, ls fuel oneFile (fun _ => 0) (fun _ _ => 0) 2 [100, slash] =
      some (.done, [102, 32, 32, 32, 32, 32, 32, 32, 32, 32, 32, 51, 32, 102, 10]) :=
  @ls_lists oneFile 2 [100, slash] [[dotRecord], [fileRecord]] (fun _ => ⟨sIfreg, 3⟩)
    ⟨by decide, by decide, fun _ => ⟨⟨sIfdir, 4096⟩, by decide, by decide⟩, rfl⟩
    ⟨fun _ _ => rfl, by decide, by decide⟩ ⟨by decide, by decide⟩ (fun _ => 0) (fun _ _ => 0)

end Comp3301.Shell
