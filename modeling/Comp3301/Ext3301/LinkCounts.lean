import Comp3301.Ext3301.NameTree
import Comp3301.Ext3301.EntryTypes
import Comp3301.Lib.RefCounts
import Comp3301.Lib.Splice

/-!
# Link counts

The directories of a file system keep a tree, and every link count is the number of entries that
refer to the inode.

* `Fs.Keeps` says so, but for what is owed while a call goes on; a rule for each step of a call says
  what it does to the tree and to the debt.
* `Fs.Sound`: nothing is owed, and the tree is one. Then the directories of the tree are those with
  links (`Sound.live_iff`).
-/

namespace Comp3301.Ext3301

open Comp3301.Lib NameTree

/-- `S_ISDIR (inode->i_mode)`. -/
def Fs.isDir (fs : Fs) (n : ℕ) : Bool := sIsdir (fs.inodes n).iMode

/-- What an entry says. -/
def Entry.link (e : Entry) : Name × ℕ := (e.name, e.inode)

/-- The entries of directory `d` with the parent `p` and the names `m`. -/
def EntriesOf (d p : ℕ) (m : Multiset (Name × ℕ)) (xs : List Entry) : Prop :=
  ∃ t t' rest, xs = ⟨dotName, d, t⟩ :: ⟨dotDotName, p, t'⟩ :: rest ∧
    (rest.map Entry.link : Multiset (Name × ℕ)) = m

namespace EntriesOf

variable {d p i : ℕ} {m : Multiset (Name × ℕ)} {xs : List Entry} {e : Entry}

lemma dot_mem (h : EntriesOf d p m xs) : ∃ e ∈ xs, e.name = dotName ∧ e.inode = d := by
  obtain ⟨t, t', rest, rfl, -⟩ := h
  exact ⟨_, List.mem_cons_self, rfl, rfl⟩

lemma dotDot_mem (h : EntriesOf d p m xs) : ∃ e ∈ xs, e.name = dotDotName ∧ e.inode = p := by
  obtain ⟨t, t', rest, rfl, -⟩ := h
  exact ⟨_, List.mem_cons_of_mem _ List.mem_cons_self, rfl, rfl⟩

/-- What an entry is. -/
lemma cases (h : EntriesOf d p m xs) (he : e ∈ xs) :
    e.inode = d ∨ e.inode = p ∨ e.link ∈ m := by
  obtain ⟨t, t', rest, rfl, rfl⟩ := h
  rcases List.mem_cons.mp he with rfl | he
  · exact Or.inl rfl
  · rcases List.mem_cons.mp he with rfl | he
    · exact Or.inr (Or.inl rfl)
    · exact Or.inr (Or.inr (Multiset.mem_coe.mpr (List.mem_map_of_mem he)))

lemma exists_of_mem (h : EntriesOf d p m xs) {x : Name × ℕ} (hx : x ∈ m) :
    ∃ e ∈ xs, e.link = x := by
  obtain ⟨t, t', rest, rfl, rfl⟩ := h
  obtain ⟨e, he, rfl⟩ := List.mem_map.mp (Multiset.mem_coe.mp hx)
  exact ⟨e, List.mem_cons_of_mem _ (List.mem_cons_of_mem _ he), rfl⟩

lemma append (h : EntriesOf d p m xs) (e : Entry) : EntriesOf d p (e.link ::ₘ m) (xs ++ [e]) := by
  obtain ⟨t, t', rest, rfl, rfl⟩ := h
  refine ⟨t, t', rest ++ [e], rfl, ?_⟩
  rw [List.map_append, List.map_singleton, Multiset.cons_coe, Multiset.coe_eq_coe]
  exact List.perm_append_singleton _ _

/-- An entry but the first two, with what is around it. -/
lemma split (h : EntriesOf d p m xs) (he : xs[i]? = some e) (hname : Proper e.name) :
    e.link ∈ m ∧ ∃ pre post, xs = pre ++ e :: post ∧ pre.length = i ∧
      EntriesOf d p (m.erase e.link) (pre ++ post) ∧
      ∀ e', EntriesOf d p (e'.link ::ₘ m.erase e.link) (pre ++ e' :: post) := by
  obtain ⟨t, t', rest, rfl, rfl⟩ := h
  rcases i with _ | _ | i
  · rw [List.getElem?_cons_zero, Option.some_inj] at he
    exact absurd (congrArg Entry.name he).symm hname.1
  · rw [List.getElem?_cons_succ, List.getElem?_cons_zero, Option.some_inj] at he
    exact absurd (congrArg Entry.name he).symm hname.2
  · rw [List.getElem?_cons_succ, List.getElem?_cons_succ] at he
    obtain ⟨hi, he⟩ := List.getElem?_eq_some_iff.mp he
    have hrest : rest = rest.take i ++ e :: rest.drop (i + 1) := by
      rw [← he, List.getElem_cons_drop, List.take_append_drop]
    have hlength : (rest.take i).length = i := List.length_take_of_le hi.le
    generalize rest.take i = pre at hrest hlength
    generalize rest.drop (i + 1) = post at hrest
    subst hrest
    have hperm : ∀ e' : Entry, ((pre ++ e' :: post).map Entry.link : Multiset (Name × ℕ)) =
        e'.link ::ₘ ((pre ++ post).map Entry.link : Multiset (Name × ℕ)) := by
      intro e'
      rw [Multiset.cons_coe, Multiset.coe_eq_coe, ← List.map_cons]
      exact List.perm_middle.map _
    rw [hperm, Multiset.erase_cons_head]
    refine ⟨Multiset.mem_cons_self _ _, ⟨dotName, d, t⟩ :: ⟨dotDotName, p, t'⟩ :: pre, post, rfl,
      ?_, ⟨t, t', pre ++ post, rfl, rfl⟩, fun e' => ⟨t, t', pre ++ e' :: post, rfl, hperm e'⟩⟩
    rw [List.length_cons, List.length_cons, hlength]

/-- The second entry is redirected. -/
lemma setParent (h : EntriesOf d p m xs) (q : ℕ) (t : UInt8) :
    EntriesOf d q m (xs.modify 1 fun e => { e with inode := q, fileType := t }) := by
  obtain ⟨t₀, t', rest, rfl, rfl⟩ := h
  exact ⟨t₀, t, rest, rfl, rfl⟩

/-- The types in the entries do not matter. -/
lemma of_links {ys : List Entry} (h : EntriesOf d p m xs)
    (heq : ys.map Entry.link = xs.map Entry.link) : EntriesOf d p m ys := by
  obtain ⟨t, t', rest, rfl, rfl⟩ := h
  rcases ys with _ | ⟨⟨name, n, u⟩, _ | ⟨⟨name', n', u'⟩, ys⟩⟩
  · cases heq
  · cases heq
  · simp only [List.map_cons, Entry.link, List.cons.injEq, Prod.mk.injEq] at heq
    obtain ⟨⟨rfl, rfl⟩, ⟨rfl, rfl⟩, heq⟩ := heq
    exact ⟨u, u', ys, rfl, congrArg _ heq⟩

/-- The links of a directory: to itself, to its parent and to what has a name in it. -/
lemma linksOf_eq (h : EntriesOf d p m xs) (k : ℕ) :
    linksOf Entry.inode xs k =
      (if d = k then 1 else 0) + (if p = k then 1 else 0) + m.countP fun x => x.2 = k := by
  obtain ⟨t, t', rest, rfl, rfl⟩ := h
  have hrest : (rest.map Entry.link : Multiset (Name × ℕ)).countP (fun x => x.2 = k) =
      linksOf Entry.inode rest k := by
    rw [Multiset.coe_countP, List.countP_map]
    rfl
  rw [linksOf_cons, linksOf_cons, hrest]
  ring

lemma linksOf_empty (h : EntriesOf d p m xs) (hm : m = 0) (k : ℕ) :
    (linksOf Entry.inode xs k : ℤ) = one d k + one p k := by
  rw [h.linksOf_eq, hm, Multiset.countP_zero, add_zero, one_apply, one_apply]
  simp only [eq_comm (a := k)]
  split_ifs <;> rfl

end EntriesOf

/-- The directories keep what is in `T`, and the link counts are right but for what is owed. -/
structure Fs.Keeps (T : NameTree) (debt : ℕ → ℤ) (fs : Fs) : Prop where
  entries : ∀ d ∈ T.live, EntriesOf d (T.parent d) (T.names d) (fs.dirs d)
  owes : Owes fs.nlink Entry.inode T.live fs.dirs debt

/-- The directories keep the tree `T`, and all link counts are right. -/
structure Fs.Sound (root : ℕ) (T : NameTree) (fs : Fs) : Prop where
  ok : T.Ok root fs.isDir
  keeps : fs.Keeps T 0

namespace Fs

variable {root n p q d i : ℕ} {T : NameTree} {debt debt' : ℕ → ℤ} {fs fs' : Fs} {name : Name}
  {e : Entry} {err : ℤ}

/-! ## Steps -/

/-- `ext2_add_link` fails, or makes an entry with a new name. -/
lemma addLink_cases (fs : Fs) (p : ℕ) (name : Name) (n : ℕ) (err : ℤ) :
    ((fs.addLink p name n err).1 ≠ 0 ∧ (fs.addLink p name n err).2 = fs) ∨
      ((fs.addLink p name n err).1 = 0 ∧ (∀ e ∈ fs.dirs p, e.name ≠ name) ∧
        (fs.addLink p name n err).2 =
          fs.setDir p (fs.dirs p ++ [⟨name, n, deType fs.filetype (fs.inodes n).iMode⟩])) := by
  unfold addLink
  split_ifs with hfind herr
  · exact Or.inl ⟨by simp [eexist], rfl⟩
  · exact Or.inl ⟨herr, rfl⟩
  · refine Or.inr ⟨rfl, fun e he hname => ?_, rfl⟩
    rw [Option.not_isSome_iff_eq_none, findEntry, List.findIdx?_eq_none_iff] at hfind
    have := hfind e he
    rw [hname] at this
    simp at this

lemma addLink_dirs_ne (fs : Fs) (name : Name) (n : ℕ) (err : ℤ) (hd : d ≠ p) :
    (fs.addLink p name n err).2.dirs d = fs.dirs d := by
  unfold addLink
  split_ifs
  · rfl
  · rfl
  · exact Function.update_of_ne hd _ _

/-- What `ext2_find_entry` finds. -/
lemma findEntry_eq (h : fs.findEntry p name = some i) :
    ∃ e, (fs.dirs p)[i]? = some e ∧ e.name = name := by
  obtain ⟨hi, hname, -⟩ := List.findIdx?_eq_some_iff_getElem.mp h
  refine ⟨(fs.dirs p)[i], List.getElem?_eq_getElem hi, ?_⟩
  simpa using hname

namespace Keeps

lemma congr (h : fs.Keeps T debt) (heq : ∀ k, debt k = debt' k) : fs.Keeps T debt' :=
  ⟨h.entries, h.owes.congr heq⟩

lemma inc (h : fs.Keeps T debt) (n : ℕ) : (fs.incLinkCount n).Keeps T (debt + one n) :=
  ⟨h.entries, h.owes.inc n⟩

lemma dec (h : fs.Keeps T debt) (hpos : 0 < debt n) : (fs.decLinkCount n).Keeps T (debt - one n) :=
  ⟨h.entries, h.owes.dec hpos⟩

/-- A new inode. -/
lemma addInode (h : fs.Keeps T debt) (hn : fs.nlink n = 0) (ino : Inode) :
    (fs.addInode n ino).Keeps T (debt + one n) := by
  refine ⟨h.entries, (h.owes.set n 1).congr fun k => ?_⟩
  rw [hn]
  rfl

/-- Other entries in a directory. -/
lemma entries_setDir (h : fs.Keeps T debt) {m : Multiset (Name × ℕ)} {xs : List Entry}
    (hxs : EntriesOf p q m xs) :
    ∀ d ∈ T.live, EntriesOf d (Function.update T.parent p q d) ((T.setNames p m).names d)
      ((fs.setDir p xs).dirs d) := by
  intro d hd
  rw [setDir]
  simp only
  rcases eq_or_ne d p with rfl | hne
  · rw [setNames_names_self, Function.update_self, Function.update_self]
    exact hxs
  · rw [setNames_names_ne hne, Function.update_of_ne hne, Function.update_of_ne hne]
    exact h.entries d hd

/-- Entries with other types. -/
lemma setTypes (h : fs.Keeps T debt) {xs : List Entry}
    (hxs : xs.map Entry.link = (fs.dirs p).map Entry.link) : (fs.setDir p xs).Keeps T debt := by
  have hlinks : ∀ k, linksOf Entry.inode xs k = linksOf Entry.inode (fs.dirs p) k := by
    intro k
    have hmap : ∀ ys : List Entry, linksOf Entry.inode ys k =
        (ys.map Entry.link).countP fun x => x.2 = k := fun ys => by
      rw [List.countP_map]
      rfl
    rw [hmap, hmap, hxs]
  refine ⟨fun d hd => ?_, fun k => ?_⟩
  · rw [setDir]
    simp only
    rcases eq_or_ne d p with rfl | hne
    · rw [Function.update_self]
      exact (h.entries d hd).of_links hxs
    · rw [Function.update_of_ne hne]
      exact h.entries d hd
  · rcases Decidable.em (p ∈ T.live) with hp | hp
    · have hk := h.owes.update hp xs k
      rw [Pi.add_apply, hlinks, sub_self, add_zero] at hk
      exact hk
    · exact h.owes.outside hp xs k

/-- An inode that is none of the directories may have any entries. -/
lemma outside (h : fs.Keeps T debt) (hd : d ∉ T.live) (xs : List Entry) :
    (fs.setDir d xs).Keeps T debt := by
  refine ⟨fun p hp => ?_, h.owes.outside hd xs⟩
  rw [setDir]
  simp only
  rw [Function.update_of_ne]
  · exact h.entries p hp
  · rintro rfl
    exact hd hp

/-- A name. -/
lemma append (h : fs.Keeps T debt) (hp : p ∈ T.live) (e : Entry) :
    (fs.setDir p (fs.dirs p ++ [e])).Keeps (T.add p e.link) (debt - one e.inode) := by
  have hentries := h.entries_setDir ((h.entries p hp).append e)
  rw [Function.update_eq_self] at hentries
  exact ⟨hentries, h.owes.append hp e⟩

/-- A name is taken away. -/
lemma deleteEntry (h : fs.Keeps T debt) (hp : p ∈ T.live) (he : (fs.dirs p)[i]? = some e)
    (hproper : Proper e.name) :
    e.link ∈ T.names p ∧ (fs.deleteEntry p i).Keeps (T.remove p e.link) (debt + one e.inode) := by
  obtain ⟨hmem, pre, post, hsplit, rfl, hxs, -⟩ := (h.entries p hp).split he hproper
  have hentries := h.entries_setDir hxs
  rw [Function.update_eq_self] at hentries
  rw [Fs.deleteEntry, hsplit, eraseIdx_between]
  exact ⟨hmem, hentries, h.owes.remove hp hsplit⟩

/-- A name gets another inode. -/
lemma setLink (h : fs.Keeps T debt) (hp : p ∈ T.live) (he : (fs.dirs p)[i]? = some e)
    (hproper : Proper e.name) (n : ℕ) :
    e.link ∈ T.names p ∧ (fs.setLink p i n).Keeps ((T.remove p e.link).add p (e.name, n))
      (debt + one e.inode - one n) := by
  obtain ⟨hmem, pre, post, hsplit, rfl, -, hxs⟩ := (h.entries p hp).split he hproper
  have hentries := h.entries_setDir (hxs ⟨e.name, n, deType fs.filetype (fs.inodes n).iMode⟩)
  rw [Function.update_eq_self] at hentries
  rw [Fs.setLink, hsplit, modify_middle, remove_add]
  exact ⟨hmem, hentries, h.owes.replace hp hsplit _⟩

/-- A directory gets another parent. -/
lemma setParent (h : fs.Keeps T debt) (hd : d ∈ T.live) (q : ℕ) :
    (fs.setLink d 1 q).Keeps { T with parent := Function.update T.parent d q }
      (debt + one (T.parent d) - one q) := by
  have hxs := (h.entries d hd).setParent q (deType fs.filetype (fs.inodes q).iMode)
  have hentries := h.entries_setDir hxs
  obtain ⟨t, t', rest, hdir, -⟩ := h.entries d hd
  have howes := h.owes.replace hd (show fs.dirs d = [⟨dotName, d, t⟩] ++
    ⟨dotDotName, T.parent d, t'⟩ :: rest from hdir)
    ⟨dotDotName, q, deType fs.filetype (fs.inodes q).iMode⟩
  refine ⟨?_, ?_⟩
  · simp only [setNames, Function.update_eq_self] at hentries
    exact hentries
  · rw [Fs.setLink, hdir]
    exact howes

/-- A directory without names in it is taken out. -/
lemma dismiss (h : fs.Keeps T debt) (hd : d ∈ T.live) (hempty : T.names d = 0) :
    fs.Keeps { T with live := T.live.erase d } (debt + one d + one (T.parent d)) := by
  refine ⟨fun p hp => h.entries p (Finset.mem_of_mem_erase hp),
    (h.owes.dismiss hd).congr fun k => ?_⟩
  rw [Pi.add_apply, Pi.add_apply, Pi.add_apply, (h.entries d hd).linksOf_empty hempty, add_assoc]

/-- A directory without names in it is let in. -/
lemma letIn (h : fs.Keeps T debt) (hd : d ∉ T.live) (hxs : EntriesOf d q 0 (fs.dirs d)) :
    fs.Keeps { live := insert d T.live, parent := Function.update T.parent d q,
               names := Function.update T.names d 0 } (debt - one d - one q) := by
  refine ⟨fun p hp => ?_, (h.owes.letIn hd).congr fun k => ?_⟩
  · rcases Finset.mem_insert.mp hp with rfl | hp'
    · simp only [Function.update_self]
      exact hxs
    · have hne : p ≠ d := by
        rintro rfl
        exact hd hp'
      simp only [Function.update_of_ne hne]
      exact h.entries p hp'
  · rw [Pi.sub_apply, Pi.sub_apply, Pi.sub_apply, hxs.linksOf_empty rfl]
    ring

end Keeps

/-- A new name is not there yet. -/
lemma Keeps.fresh (h : fs.Keeps T debt) (hp : p ∈ T.live)
    (hnew : ∀ e ∈ fs.dirs p, e.name ≠ name) :
    Proper name ∧ name ∉ (T.names p).map Prod.fst := by
  have hentries := h.entries p hp
  refine ⟨⟨?_, ?_⟩, fun hmem => ?_⟩
  · obtain ⟨e, he, hname, -⟩ := hentries.dot_mem
    exact fun heq => hnew e he (hname.trans heq.symm)
  · obtain ⟨e, he, hname, -⟩ := hentries.dotDot_mem
    exact fun heq => hnew e he (hname.trans heq.symm)
  · obtain ⟨x, hx, rfl⟩ := Multiset.mem_map.mp hmem
    obtain ⟨e, he, rfl⟩ := hentries.exists_of_mem hx
    exact hnew e he rfl

/-- `ext2_add_link` fails, or makes a name. -/
lemma Keeps.addLink (h : fs.Keeps T debt) (hp : p ∈ T.live) (name : Name) (n : ℕ) (err : ℤ) :
    ((fs.addLink p name n err).1 ≠ 0 ∧ (fs.addLink p name n err).2 = fs) ∨
      ((fs.addLink p name n err).1 = 0 ∧ Proper name ∧ name ∉ (T.names p).map Prod.fst ∧
        (fs.addLink p name n err).2.isDir = fs.isDir ∧
        (fs.addLink p name n err).2.Keeps (T.add p (name, n)) (debt - one n)) := by
  rcases addLink_cases fs p name n err with hfail | ⟨hok, hnew, hfs⟩
  · exact Or.inl hfail
  · obtain ⟨hproper, hfresh⟩ := h.fresh hp hnew
    refine Or.inr ⟨hok, hproper, hfresh, ?_, ?_⟩
    · rw [hfs]
      rfl
    · rw [hfs]
      exact h.append hp ⟨name, n, deType fs.filetype (fs.inodes n).iMode⟩

/-! ## What is sound -/

namespace Sound

/-- **The directories of the tree are those with links.** -/
lemma live_iff (h : fs.Sound root T) : d ∈ T.live ↔ fs.isDir d = true ∧ fs.nlink d ≠ 0 := by
  constructor
  · intro hd
    obtain ⟨e, he, -, hinode⟩ := (h.keeps.entries d hd).dot_mem
    exact ⟨h.ok.dirs d hd, (hinode ▸ h.keeps.owes.count_pos hd he).ne'⟩
  · rintro ⟨hdir, hlinks⟩
    have hcount := h.keeps.owes d
    rw [Pi.zero_apply, add_zero, Nat.cast_inj] at hcount
    rw [hcount, ne_eq, links_eq_zero] at hlinks
    simp only [not_forall, not_not] at hlinks
    obtain ⟨p, hp, e, he, rfl⟩ := hlinks
    rcases (h.keeps.entries p hp).cases he with heq | heq | hlink
    · rw [heq]
      exact hp
    · rw [heq]
      exact h.ok.parent_mem p hp
    · exact h.ok.closed p hp e.link hlink hdir

/-- An inode without links is none of the directories, and has no name. -/
lemma unlinked (h : fs.Sound root T) (hn : fs.nlink n = 0) :
    n ∉ T.live ∧ ∀ q ∈ T.live, ∀ x ∈ T.names q, x.2 ≠ n := by
  refine ⟨fun hlive => (h.live_iff.mp hlive).2 hn, fun q hq x hx hxn => ?_⟩
  obtain ⟨e, he, rfl⟩ := (h.keeps.entries q hq).exists_of_mem hx
  have hpos := h.keeps.owes.count_pos hq he
  rw [show e.inode = n from hxn, hn] at hpos
  exact lt_irrefl 0 hpos

end Sound

/-- A directory that `ext2_empty_dir` finds empty has no names in it. -/
lemma Sound.names_of_emptyDir (h : fs.Sound root T) (hd : d ∈ T.live)
    (hempty : fs.emptyDir d = true) : T.names d = 0 := by
  rw [Multiset.eq_zero_iff_forall_notMem]
  intro x hx
  obtain ⟨e, he, rfl⟩ := (h.keeps.entries d hd).exists_of_mem hx
  obtain ⟨hdot, hdotDot⟩ := h.ok.proper d hd e.link hx
  have hname := List.all_eq_true.mp hempty e he
  rw [Entry.link] at hdot hdotDot
  rcases hchars : e.name with _ | ⟨c, _ | ⟨c', _ | ⟨c'', cs⟩⟩⟩
  · simp [hchars] at hname
  · simp only [hchars, List.head?_cons, Option.some.injEq, Bool.and_eq_true, decide_eq_true_eq]
      at hname
    rw [hname.1.1] at hchars
    exact hdot hchars
  · simp [hchars] at hname
    rw [hname.1, hname.2] at hchars
    exact hdotDot hchars
  · simp [hchars] at hname

end Fs

end Comp3301.Ext3301
