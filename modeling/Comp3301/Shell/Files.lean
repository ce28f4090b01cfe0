import Comp3301.Lib.Records
import Comp3301.Shell.Main

/-!
# The shell: files, paths and directory records

What `ls`, `cp` and `rm` of `a0/shell.c` share.

* `resolve` is how the kernel reads a path: what counts are the components between the slashes, and
  a component `.` counts for nothing. So a path that `compose` puts together names the same file as
  the directory, a slash and the name (`resolve_compose`).
* `Record` is a directory record (`struct ldirent`) as the kernel writes it, and `dirent` reads one.
  A buffer with records in it is read record by record (`packed_records`).
-/

namespace Comp3301.Shell

open Comp3301.Lib

/-! ## Files -/

/-- `BUF_SIZE`. -/
def bufSize : ℕ := 4096

/-- `S_IFMT`. -/
def sIfmt : BitVec 32 := 0xF000

/-- `S_IFREG`. -/
def sIfreg : BitVec 32 := 0x8000

/-- `S_IFDIR`. -/
def sIfdir : BitVec 32 := 0x4000

/-- `S_IFLNK`. -/
def sIflnk : BitVec 32 := 0xA000

/-- `struct stat`. -/
structure Stat where
  mode : BitVec 32
  size : ℤ
  deriving DecidableEq, Repr

/-- `st_mode & S_IFMT`. -/
def Stat.type (st : Stat) : BitVec 32 := st.mode &&& sIfmt

/-- How a command ends: with a message of its own, with one of `perror`, or at its end. -/
inductive Outcome where
  | message (text : String)
  | perror (call : String)
  | done
  deriving DecidableEq, Repr

/-! ## Paths -/

/-- `'/'`. -/
def slash : UInt8 := 47

/-- `'.'`. -/
def dot : UInt8 := 46

/-- A path as the kernel reads it: where it starts, its components, and whether it ends with one
that counts for nothing. -/
structure Path where
  absolute : Bool
  parts : List (List UInt8)
  trailing : Bool
  deriving DecidableEq, Repr

/-- A component that counts for nothing. -/
def Idle (part : List UInt8) : Prop := part = [] ∨ part = [dot]

instance : DecidablePred Idle := fun _ => inferInstanceAs (Decidable (_ ∨ _))

/-- Reading a path. -/
def resolve (path : List UInt8) : Path where
  absolute := decide (path.head? = some slash)
  parts := (path.splitOn slash).filter fun part => ¬ Idle part
  trailing := decide (∀ part ∈ (path.splitOn slash).getLast?, Idle part)

/-- A file in a directory. -/
def Path.child (dir : Path) (name : List UInt8) : Path := ⟨dir.absolute, dir.parts ++ [name], false⟩

/-- `dir`, a slash and `name`. -/
def joined (dir name : List UInt8) : List UInt8 := dir ++ slash :: name

/-- The names that stand in a directory, `.` apart. -/
structure NameOk (name : List UInt8) : Prop where
  nonempty : name ≠ []
  noSlash : slash ∉ name
  notDot : name ≠ [dot]

section resolve

variable {dir name : List UInt8}

lemma NameOk.not_idle (h : NameOk name) : ¬ Idle name := not_or.mpr ⟨h.nonempty, h.notDot⟩

lemma splitOn_append (hname : NameOk name) :
    (dir ++ slash :: name).splitOn slash = dir.splitOn slash ++ [name] := by
  rw [List.splitOn_append_cons_self, List.splitOn_eq_singleton hname.noSlash]

/-- The directory, a slash and the name. -/
lemma resolve_joined (hdir : dir ≠ []) (hname : NameOk name) :
    resolve (joined dir name) = (resolve dir).child name := by
  obtain ⟨c, cs, rfl⟩ := List.exists_cons_of_ne_nil hdir
  rw [joined, resolve, splitOn_append hname]
  simp [Path.child, resolve, hname.not_idle]

/-- With a slash at the end of the directory, the slash is there already. -/
lemma resolve_slash (hname : NameOk name) (dir : List UInt8) :
    resolve (dir ++ slash :: name) = (resolve (dir ++ [slash])).child name := by
  have hnil : Idle [] := Or.inl rfl
  rw [resolve, splitOn_append hname]
  simp [Path.child, resolve, hname.not_idle, hnil, List.splitOn_append_cons_self]

/-- The name alone, in the current directory. -/
lemma resolve_name (hname : NameOk name) : resolve name = (resolve [dot]).child name := by
  have hhead : name.head? ≠ some slash := fun h => hname.noSlash (List.mem_of_head? h)
  have hdot : resolve [dot] = ⟨false, [], true⟩ := by decide
  rw [hdot, resolve, List.splitOn_eq_singleton hname.noSlash]
  simp [Path.child, hname.not_idle, hhead]

end resolve

/-! ## Composing a path -/

/-- Forming `fullpath` from the argument and a name. -/
def compose (fullpath : Block UInt8) (arg name : List UInt8) : Option (Block UInt8) := do
  let fullpath ← strcpy fullpath arg
  let len ← strlen fullpath
  let last ← fullpath.load ((len : ℤ) - 1)
  let fullpath ← if last ≠ slash then strcat fullpath [slash] else some fullpath
  strcat fullpath name

/-- What is in `fullpath` then. -/
def composed (arg name : List UInt8) : List UInt8 :=
  if arg.getLast? = some slash then arg ++ name else joined arg name

lemma length_le_composed (arg name : List UInt8) :
    arg.length + name.length ≤ (composed arg name).length := by
  unfold composed joined
  split_ifs
  · rw [List.length_append]
  · rw [List.length_append, List.length_cons]
    omega

/-- A path that fits the array is put together in it. -/
lemma compose_spec {m : Block UInt8} {arg name : List UInt8} (harg : arg ≠ []) (hnz : 0 ∉ arg)
    (hname : 0 ∉ name) (hsize : (composed arg name).length < m.size) :
    ∃ m', compose m arg name = some m' ∧ HoldsString m' (composed arg name) := by
  have hle := length_le_composed arg name
  obtain ⟨m₁, hcopy, hm₁, hsize₁⟩ := strcpy_spec (m := m) (by omega) hnz
  have hpos : 0 < arg.length := List.length_pos_of_ne_nil harg
  have hindex : (arg.length : ℤ) - 1 = (arg.length - 1 : ℕ) := by omega
  have hlast : m₁.load ((arg.length : ℤ) - 1) = some (arg.getLast harg) := by
    rw [hindex, Block.load_natCast (by omega), hm₁.cell_eq (by omega), List.getLast_eq_getElem]
  have hgetLast : arg.getLast? = some slash ↔ arg.getLast harg = slash := by
    rw [List.getLast?_eq_getLast_of_ne_nil harg, Option.some_inj]
  unfold compose
  simp only [hcopy, hm₁.strlen_eq, hlast, Option.bind_eq_bind, Option.bind_some]
  by_cases hslash : arg.getLast harg = slash
  · rw [composed, if_pos (hgetLast.mpr hslash)] at hsize ⊢
    obtain ⟨m₂, hcat, hm₂, -⟩ := strcat_spec hm₁ (hsize₁ ▸ hsize) hname
    exact ⟨m₂, by simp [hslash, hcat], hm₂⟩
  · rw [composed, if_neg (hgetLast.not.mpr hslash)] at hsize ⊢
    have hsplit : joined arg name = (arg ++ [slash]) ++ name := by simp [joined]
    rw [hsplit] at hsize ⊢
    have hfits : (arg ++ [slash]).length < m₁.size := by
      rw [List.length_append] at hsize
      omega
    obtain ⟨m₂, hcat, hm₂, hsize₂⟩ := strcat_spec hm₁ hfits (by decide)
    obtain ⟨m₃, hcat', hm₃, -⟩ := strcat_spec hm₂ (by omega) hname
    exact ⟨m₃, by simp [hslash, hcat, hcat'], hm₃⟩

/-- **It names the file with that name in the directory.** -/
lemma resolve_composed {arg name : List UInt8} (harg : arg ≠ []) (hname : NameOk name) :
    resolve (composed arg name) = (resolve arg).child name := by
  unfold composed
  split_ifs with hslash
  · obtain ⟨dir, rfl⟩ := List.getLast?_eq_some_iff.mp hslash
    rw [List.append_assoc, List.singleton_append, resolve_slash hname]
  · exact resolve_joined harg hname

/-- `lstat (path, …)`. There is no file with an empty path. -/
def lstatPath (lstat : Path → Option Stat) (path : List UInt8) : Option Stat :=
  if path = [] then none else lstat (resolve path)

section lstatPath

variable (lstat : Path → Option Stat) {dir name : List UInt8}

lemma lstatPath_of_ne_nil {path : List UInt8} (h : path ≠ []) :
    lstatPath lstat path = lstat (resolve path) := if_neg h

lemma lstatPath_joined (hdir : dir ≠ []) (hname : NameOk name) :
    lstatPath lstat (joined dir name) = lstat ((resolve dir).child name) := by
  rw [lstatPath_of_ne_nil lstat (by simp [joined]), resolve_joined hdir hname]

lemma lstatPath_composed (hdir : dir ≠ []) (hname : NameOk name) :
    lstatPath lstat (composed dir name) = lstat ((resolve dir).child name) := by
  have hle := length_le_composed dir name
  have hpos := List.length_pos_of_ne_nil hdir
  have hne : composed dir name ≠ [] := List.ne_nil_of_length_pos (by omega)
  rw [lstatPath_of_ne_nil lstat hne, resolve_composed hdir hname]

lemma lstatPath_name (hname : NameOk name) :
    lstatPath lstat name = lstat ((resolve [dot]).child name) := by
  rw [lstatPath_of_ne_nil lstat hname.nonempty, resolve_name hname]

end lstatPath

/-! ## Directory records -/

/-- A record of `getdents`: a `struct ldirent` with its name, and what stands behind the name. -/
structure Record where
  /-- `ino` and `off`. -/
  header : List UInt8
  name : List UInt8
  padding : List UInt8
  header_length : header.length = 16
  nonempty : name ≠ []
  noSlash : slash ∉ name
  nonzero : 0 ∉ name
  short : 19 + name.length + padding.length < 2 ^ 16

namespace Record

/-- `reclen`. -/
def reclen (r : Record) : ℕ := 19 + r.name.length + r.padding.length

/-- What stands in front of the name, `reclen` with its lower byte first. -/
def front (r : Record) : List UInt8 :=
  r.header ++ [UInt8.ofNat r.reclen, UInt8.ofNat (r.reclen / 256)]

/-- The record in memory. -/
def bytes (r : Record) : List UInt8 := r.front ++ (r.name ++ 0 :: r.padding)

lemma length_front (r : Record) : r.front.length = 18 := by simp [front, r.header_length]

lemma length_bytes (r : Record) : r.bytes.length = r.reclen := by
  simp only [bytes, reclen, List.length_append, List.length_cons, r.length_front]
  omega

/-- The two bytes make up `reclen`. -/
lemma reclen_eq (r : Record) :
    (UInt8.ofNat r.reclen).toNat + 256 * (UInt8.ofNat (r.reclen / 256)).toNat = r.reclen := by
  have hshort : r.reclen < 2 ^ 16 := r.short
  rw [UInt8.toNat_ofNat', UInt8.toNat_ofNat']
  omega

lemma reclen_pos (r : Record) : 0 < r.reclen := by
  unfold reclen
  omega

end Record

/-- The entry is `.` or `..`. -/
def IsDots (name : List UInt8) : Prop := name = [dot] ∨ name = [dot, dot]

instance : DecidablePred IsDots := fun _ => inferInstanceAs (Decidable (_ ∨ _))

lemma Record.nameOk (r : Record) (h : ¬ IsDots r.name) : NameOk r.name :=
  ⟨r.nonempty, r.noSlash, fun heq => h (Or.inl heq)⟩

/-- Reading the record at the front of `m`: its name and its length. -/
def dirent (m : Block UInt8) : Option (List UInt8 × ℕ) := do
  let low ← m.load 16
  let high ← m.load 17
  let name ← cstring (m.drop 18)
  some (name, low.toNat + 256 * high.toNat)

/-- What is read is what was written. -/
lemma dirent_written {m : Block UInt8} {r : Record} (rest : List UInt8)
    (hsize : r.reclen ≤ m.size) :
    dirent (m.written (r.bytes ++ rest)) = some (r.name, r.reclen) := by
  have hle : 19 + r.name.length ≤ m.size := by
    unfold Record.reclen at hsize
    omega
  have hlow : (m.written (r.bytes ++ rest)).load 16 = some (UInt8.ofNat r.reclen) := by
    have hload := Block.load_natCast (m := m.written (r.bytes ++ rest)) (i := 16)
      (show 16 < m.size by omega)
    rw [Nat.cast_ofNat] at hload
    rw [hload]
    simp [Block.written, Record.bytes, Record.front, List.getElem?_append, r.header_length]
  have hhigh : (m.written (r.bytes ++ rest)).load 17 = some (UInt8.ofNat (r.reclen / 256)) := by
    have hload := Block.load_natCast (m := m.written (r.bytes ++ rest)) (i := 17)
      (show 17 < m.size by omega)
    rw [Nat.cast_ofNat] at hload
    rw [hload]
    simp [Block.written, Record.bytes, Record.front, List.getElem?_append, r.header_length]
  have hname : cstring ((m.written (r.bytes ++ rest)).drop 18) = some r.name := by
    have hsplit : r.bytes ++ rest = r.front ++ (r.name ++ 0 :: (r.padding ++ rest)) := by
      simp [Record.bytes]
    rw [hsplit, ← r.length_front, Block.written_append_drop]
    refine (holdsString_written_append _ ?_ r.nonzero).cstring_eq
    show r.name.length < m.size - r.front.length
    rw [r.length_front]
    omega
  rw [dirent, hlow, hhigh, hname]
  simp only [Option.bind_eq_bind, Option.bind_some, r.reclen_eq]

/-- The records in memory. -/
def bytesOf (rs : List Record) : List UInt8 := rs.flatMap Record.bytes

/-- **A buffer with records in it is read record by record.** -/
lemma packed_records {m : Block UInt8} (front : List UInt8) (rs : List Record)
    (hsize : (front ++ bytesOf rs).length ≤ m.size) :
    Packed (fun p => dirent ((m.written (front ++ bytesOf rs)).drop p)) front.length
      (rs.map Record.name) (front ++ bytesOf rs).length := by
  induction rs generalizing front with
  | nil =>
      simp only [bytesOf, List.flatMap_nil, List.append_nil, List.map_nil]
      exact Packed.nil _
  | cons r rs ih =>
      have hassoc : front ++ bytesOf (r :: rs) = (front ++ r.bytes) ++ bytesOf rs := by
        simp [bytesOf]
      have htail := ih (front ++ r.bytes) (hassoc ▸ hsize)
      have hroom : front.length + r.reclen ≤ m.size := by
        rw [hassoc, List.length_append, List.length_append, r.length_bytes] at hsize
        omega
      rw [← hassoc, List.length_append, r.length_bytes] at htail
      refine Packed.cons ?_ r.reclen_pos htail
      rw [hassoc, List.append_assoc, Block.written_append_drop]
      apply dirent_written
      show r.reclen ≤ m.size - front.length
      omega

/-- So the loop over the records in a buffer runs its body over their names. -/
lemma recordLoop_written {σ ρ : Type} {m : Block UInt8} {rs : List Record}
    (hsize : (bytesOf rs).length ≤ m.size) (body : List UInt8 → σ → Option (σ ⊕ ρ)) (s : σ)
    {fuel : ℕ} (hfuel : rs.length < fuel) :
    loopFor (recordRound (fun p => dirent ((m.written (bytesOf rs)).drop p)) (bytesOf rs).length
      body) fuel (0, s) = runOver body (rs.map Record.name) s := by
  have hpacked := packed_records (m := m) [] rs hsize
  rw [List.nil_append, List.length_nil] at hpacked
  exact recordLoop_eq hpacked body s (by rwa [List.length_map])

/-- `ino` and `off` of the sample records. -/
def sampleHeader : List UInt8 := List.replicate 16 0

lemma length_sampleHeader : sampleHeader.length = 16 := rfl

/-- The record of the directory itself. -/
def dotRecord : Record :=
  ⟨sampleHeader, [dot], [0, 0, 0, 4], length_sampleHeader, by decide, by decide, by decide,
    by decide⟩

/-- The record of the directory above it. -/
def dotDotRecord : Record :=
  ⟨sampleHeader, [dot, dot], [0, 0, 4], length_sampleHeader, by decide, by decide, by decide,
    by decide⟩

/-- The record of a file `f`. -/
def fileRecord : Record :=
  ⟨sampleHeader, [102], [0, 0, 0, 8], length_sampleHeader, by decide, by decide, by decide,
    by decide⟩

end Comp3301.Shell
