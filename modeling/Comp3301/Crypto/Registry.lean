import Comp3301.Crypto.Device

/-!
# The crypto device: the registry of buffers and attachments

What the driver keeps about its buffers apart from their contents: which ids are live, free or not
yet given out, the reference counts and access flags of the live buffers, and which buffer each
open file is attached to. `Device.registry` reads it off the state of the driver.

`RegStep` says once what a call can do to the registry, with one constructor for each way in which
a call changes it and `idle` for all calls that do not. The driver is simulated by it
(`registry_step`); every invariant of the bookkeeping is then proved over `RegStep` and never looks
at the code again.

Two constructors record where the driver does something else than asked: `Resolves` follows
`search_entry`, which hands out the last buffer when there is none with the id, and a failed
allocation can leave a call half done (`leaked`, `stayed`, `deleteFailed`).
-/

set_option linter.unusedSectionVars false

namespace Comp3301.Crypto

open Comp3301.Lib

/-! ## The registry -/

/-- A live buffer without its contents. -/
structure Header where
  id : ℤ
  refcount : ℕ
  readRef : Bool
  writeRef : Bool
  deriving DecidableEq, Repr

/-- An open file without its transfer modes. -/
structure Holder where
  mode : FMode
  bufId : ℤ
  deriving DecidableEq, Repr

/-- The registry. -/
structure Registry (Fd : Type) where
  newId : ℤ
  free : List ℤ
  live : List Header
  holders : Fd → Option Holder

/-- The header of a buffer. -/
def DevBuf.header (b : DevBuf) : Header := ⟨b.id, b.refcount, b.readRef, b.writeRef⟩

/-- The holder of an open file. -/
def File.holder (f : File) : Holder := ⟨f.fMode, f.privateData.bufId⟩

variable {Fd : Type}

/-- The registry of the driver. -/
def Device.registry (d : Device Fd) : Registry Fd where
  newId := d.newId
  free := d.detachedIds
  live := d.devBufs.map DevBuf.header
  holders := fun fd => (d.files fd).map File.holder

/-- `search_entry` for `id` finds `e`, which has `pre` before it and `post` behind it. -/
def Resolves (id : ℤ) (l pre : List Header) (e : Header) (post : List Header) : Prop :=
  l = pre ++ e :: post ∧
    (e.id = id ∧ (∀ c ∈ pre, c.id ≠ id) ∨ post = [] ∧ ∀ c ∈ l, c.id ≠ id)

/-- The header after a file with the given mode has attached. -/
def Header.attach (e : Header) (mode : FMode) : Header :=
  ⟨e.id, unsigned 32 (e.refcount + 1), if mode.read then true else e.readRef,
    if mode.write then true else e.writeRef⟩

/-- The header after a file has left; only `CRYPTO_IOCDETACH` clears the access flags. -/
def Header.leave (e : Header) (mode : FMode) (clear : Bool) : Header :=
  ⟨e.id, unsigned 32 (e.refcount - 1), if clear && mode.read then false else e.readRef,
    if clear && mode.write then false else e.writeRef⟩

@[simp] lemma Header.attach_id (e : Header) (mode : FMode) : (e.attach mode).id = e.id := rfl

@[simp] lemma Header.leave_id (e : Header) (mode : FMode) (clear : Bool) :
    (e.leave mode clear).id = e.id := rfl

/-- The id of the next buffer, with the counter and the free ids after it has been taken. -/
def Registry.takeId (r : Registry Fd) : ℤ × ℤ × List ℤ :=
  match r.free with
  | [] => (r.newId, r.newId + 1, [])
  | id :: rest => (id, r.newId, rest)

/-- The calls with which a file leaves its buffer: whether they clear the access flags, and what
is kept of the file. -/
inductive Leaves (fd : Fd) (mode : FMode) : Call Fd → Bool → Option Holder → Prop
  | release : Leaves fd mode (.release fd) false none
  | detach : Leaves fd mode (.ioctl fd .detach) true (some ⟨mode, 0⟩)

variable [DecidableEq Fd]

/-- Replace what is known of a file. -/
def Registry.hold (r : Registry Fd) (fd : Fd) (h : Option Holder) : Registry Fd :=
  { r with holders := Function.update r.holders fd h }

/-- What a call can do to the registry. -/
inductive RegStep (a : Alloc) (r : Registry Fd) : Call Fd → Registry Fd → Prop
  | idle (c : Call Fd) : RegStep a r c r
  | opened {fd : Fd} {mode : FMode} : r.holders fd = none →
      RegStep a r (.open fd mode) (r.hold fd (some ⟨mode, 0⟩))
  | closed {fd : Fd} {h : Holder} : r.holders fd = some h → h.bufId = 0 ∨ r.live = [] →
      RegStep a r (.release fd) (r.hold fd none)
  | created {fd : Fd} {mode : FMode} : r.holders fd = some ⟨mode, 0⟩ → a.node = true →
      RegStep a r (.ioctl fd .create)
        { newId := r.takeId.2.1
          free := r.takeId.2.2
          live := ⟨r.takeId.1, 1, mode.read, mode.write⟩ :: r.live
          holders := Function.update r.holders fd (some ⟨mode, r.takeId.1⟩) }
  | leaked {fd : Fd} {mode : FMode} : r.holders fd = some ⟨mode, 0⟩ → a.node = false →
      RegStep a r (.ioctl fd .create)
        { newId := r.takeId.2.1
          free := r.takeId.2.2
          live := r.live
          holders := Function.update r.holders fd (some ⟨mode, r.takeId.1⟩) }
  | attached {fd : Fd} {mode : FMode} {id : ℤ} {pre post : List Header} {e : Header} :
      r.holders fd = some ⟨mode, 0⟩ → Resolves id r.live pre e post →
      ¬ (mode.read = true ∧ e.readRef = true) → ¬ (mode.write = true ∧ e.writeRef = true) →
      RegStep a r (.ioctl fd (.attach id))
        { r with
          live := pre ++ e.attach mode :: post
          holders := Function.update r.holders fd (some ⟨mode, e.id⟩) }
  | stayed {fd : Fd} {c : Call Fd} {mode : FMode} {clear : Bool} {h : Option Holder} {id : ℤ}
      {pre post : List Header} {e : Header} :
      Leaves fd mode c clear h → r.holders fd = some ⟨mode, id⟩ → id ≠ 0 →
      Resolves id r.live pre e post → (e.leave mode clear).refcount ≠ 0 ∨ a.idnode = false →
      RegStep a r c
        { r with
          live := pre ++ e.leave mode clear :: post
          holders := Function.update r.holders fd h }
  | freed {fd : Fd} {c : Call Fd} {mode : FMode} {clear : Bool} {h : Option Holder} {id : ℤ}
      {pre post : List Header} {e : Header} :
      Leaves fd mode c clear h → r.holders fd = some ⟨mode, id⟩ → id ≠ 0 →
      Resolves id r.live pre e post → (e.leave mode clear).refcount = 0 →
      RegStep a r c
        { r with
          live := pre ++ post
          free := e.id :: r.free
          holders := Function.update r.holders fd h }
  | deleted {fd : Fd} {mode : FMode} {own id : ℤ} {pre post : List Header} {e : Header} :
      r.holders fd = some ⟨mode, own⟩ → Resolves id r.live pre e post → e.refcount ≤ 1 →
      RegStep a r (.ioctl fd (.delete id))
        { r with
          live := pre ++ post
          free := e.id :: r.free
          holders := Function.update r.holders fd (some ⟨mode, 0⟩) }
  | deleteFailed {fd : Fd} {mode : FMode} {own id : ℤ} :
      r.holders fd = some ⟨mode, own⟩ → a.idnode = false →
      RegStep a r (.ioctl fd (.delete id)) (r.hold fd (some ⟨mode, 0⟩))

/-! ## Transfers do not touch the registry -/

lemma applyMode_header {sm : CryptoSmode} {b b' : DevBuf} {temp temp' : Block UInt8} {len : ℤ}
    (h : applyMode sm b temp len = some (b', temp')) : b'.header = b.header := by
  obtain ⟨dir, mode, key⟩ := sm
  cases mode with
  | enc =>
      simp only [applyMode, encrypt, Option.bind_eq_bind, Option.bind_eq_some_iff] at h
      obtain ⟨plain, -, h⟩ := h
      cases h
      rfl
  | dec =>
      simp only [applyMode, decrypt, Option.bind_eq_bind, Option.bind_eq_some_iff] at h
      obtain ⟨cipher, -, h⟩ := h
      cases h
      rfl
  | passthrough =>
      cases h
      rfl
  | other =>
      cases h
      rfl

lemma readBody_header {env : XferEnv} {sm : CryptoSmode} {b b' : DevBuf} {n : Lens} {ret : ℤ}
    {out : List UInt8} (h : readBody env sm b n = some (b', ret, out)) :
    b'.header = b.header := by
  unfold readBody at h
  by_cases halloc : env.vmallocOk = false
  · rw [if_pos halloc] at h
    cases h
    rfl
  · rw [if_neg halloc] at h
    simp only [Option.bind_eq_bind, Option.bind_eq_some_iff] at h
    obtain ⟨temp, -, ⟨b₁, temp₁⟩, hmode, h⟩ := h
    rw [← applyMode_header hmode]
    by_cases hcopy : env.copyOk = false
    · rw [if_pos hcopy] at h
      cases h
      rfl
    · rw [if_neg hcopy] at h
      simp only [Option.bind_eq_some_iff] at h
      obtain ⟨o, -, h⟩ := h
      cases h
      rfl

lemma writeBody_header {env : XferEnv} {sm : CryptoSmode} {b b' : DevBuf} {src : ℕ → UInt8}
    {n : Lens} {ret : ℤ} {out : List UInt8} (h : writeBody env sm b src n = some (b', ret, out)) :
    b'.header = b.header := by
  unfold writeBody at h
  by_cases halloc : env.vmallocOk = false
  · rw [if_pos halloc] at h
    cases h
    rfl
  · rw [if_neg halloc] at h
    by_cases hcopy : env.copyOk = false
    · rw [if_pos hcopy] at h
      cases h
      rfl
    · rw [if_neg hcopy] at h
      simp only [Option.bind_eq_bind, Option.bind_eq_some_iff] at h
      obtain ⟨temp, -, ⟨b₁, temp₁⟩, hmode, ring, -, h⟩ := h
      rw [← applyMode_header hmode]
      cases h
      rfl

/-- A transfer changes no header. -/
lemma onBuffer_header {bufs bufs' : List DevBuf} {pd : PrivData}
    {body : DevBuf → Option (Xferred DevBuf)} {ret : ℤ} {out : List UInt8}
    (hbody : ∀ b b' ret out, body b = some (b', ret, out) → b'.header = b.header)
    (h : onBuffer bufs pd body = some (bufs', ret, out)) :
    bufs'.map DevBuf.header = bufs.map DevBuf.header := by
  unfold onBuffer at h
  split_ifs at h with hid
  · cases h
    rfl
  · rcases searchEntry_cases pd.bufId bufs with ⟨-, hs⟩ | ⟨pre, b, post, rfl, hs, -⟩
    · rw [hs] at h
      cases h
      rfl
    · rw [hs] at h
      simp only [Option.bind_eq_bind, Option.bind_eq_some_iff] at h
      obtain ⟨⟨b', ret', out'⟩, hb', h⟩ := h
      cases h
      simp [hbody _ _ _ _ hb']

/-! ## The driver is simulated by the registry -/

/-- `search_entry`, seen in the registry. -/
lemma searchEntry_resolves (id : ℤ) (l : List DevBuf) :
    (l = [] ∧ searchEntry id l = none) ∨
      ∃ pre b post, l = pre ++ b :: post ∧ searchEntry id l = some (pre.length, b) ∧
        Resolves id (l.map DevBuf.header) (pre.map DevBuf.header) b.header
          (post.map DevBuf.header) := by
  rcases searchEntry_cases id l with h | ⟨pre, b, post, hl, hs, hcase⟩
  · exact Or.inl h
  · refine Or.inr ⟨pre, b, post, hl, hs, by simp [hl], ?_⟩
    rcases hcase with ⟨hb, hpre⟩ | ⟨hpost, hall⟩
    · refine Or.inl ⟨hb, ?_⟩
      intro c hc
      obtain ⟨x, hx, rfl⟩ := List.mem_map.mp hc
      exact hpre x hx
    · refine Or.inr ⟨by simp [hpost], ?_⟩
      intro c hc
      obtain ⟨x, hx, rfl⟩ := List.mem_map.mp hc
      exact hall x hx

/-- The registry after a file has been changed, together with anything else. -/
lemma registry_mk (newId : ℤ) (free : List ℤ) (bufs : List DevBuf) (files : Fd → Option File)
    (fd : Fd) (f : Option File) :
    (⟨newId, free, bufs, Function.update files fd f⟩ : Device Fd).registry =
      ⟨newId, free, bufs.map DevBuf.header,
        Function.update (fun x => (files x).map File.holder) fd (f.map File.holder)⟩ := by
  unfold Device.registry
  congr 1
  funext x
  by_cases hx : x = fd
  · subst hx
    simp
  · simp [Function.update_of_ne hx]

lemma registry_holders {d : Device Fd} {fd : Fd} {filp : File} (h : d.files fd = some filp) :
    d.registry.holders fd = some ⟨filp.fMode, filp.privateData.bufId⟩ := by
  simp [Device.registry, h, File.holder]

/-- Holding what is held already changes nothing. -/
lemma Registry.hold_self {r : Registry Fd} {fd : Fd} {h : Option Holder}
    (hfd : r.holders fd = h) : r.hold fd h = r := by
  unfold Registry.hold
  rw [← hfd, Function.update_eq_self]

lemma freebufReturn_ok {a : Alloc} (h : a.idnode = true) (d : Device Fd) (e : Entry) :
    freebufReturn a d e =
      ({ d with
          devBufs := d.devBufs.eraseIdx e.1
          detachedIds := e.2.id :: d.detachedIds }, 0) := by
  simp [freebufReturn, freebuf, h, enomem]

lemma freebufReturn_fail {a : Alloc} (h : a.idnode = false) (d : Device Fd) (e : Entry) :
    freebufReturn a d e = (d, -enomem) := by
  simp [freebufReturn, freebuf, h]

lemma takeId_registry (d : Device Fd) : d.registry.takeId = takeId d := rfl

section simulation

variable {a : Alloc} {d : Device Fd} {fd : Fd} {filp : File}

lemma regStep_open (mode : FMode) (hfd : d.files fd = none) :
    RegStep a d.registry (.open fd mode) (deviceOpen a d fd mode).1.registry := by
  unfold deviceOpen
  by_cases hpriv : a.privData = false
  · rw [if_pos hpriv]
    exact RegStep.idle _
  · rw [if_neg hpriv, registry_mk]
    exact RegStep.opened (by simp [Device.registry, hfd])

lemma regStep_create (hfd : d.files fd = some filp) :
    RegStep a d.registry (.ioctl fd .create) (ioctlCreate a d fd filp).1.registry := by
  have hheld := registry_holders hfd
  unfold ioctlCreate
  by_cases hid : filp.privateData.bufId ≠ 0
  · rw [if_pos hid]
    exact RegStep.idle _
  rw [if_neg hid]
  rw [not_not.mp hid] at hheld
  by_cases hdev : a.devBuf = false
  · rw [if_pos hdev]
    exact RegStep.idle _
  rw [if_neg hdev]
  by_cases hring : a.ring = false
  · rw [if_pos hring]
    exact RegStep.idle _
  rw [if_neg hring]
  by_cases hnode : a.node = false
  · simp only [hnode, if_true, Device.setPriv, registry_mk]
    exact RegStep.leaked hheld hnode
  · have hnode' : a.node = true := by simpa using hnode
    simp only [hnode', Bool.true_eq_false, if_false, Device.setPriv, registry_mk]
    exact RegStep.created hheld hnode'

lemma regStep_delete (id : ℤ) (hfd : d.files fd = some filp) :
    RegStep a d.registry (.ioctl fd (.delete id)) (ioctlDelete a d fd filp id).1.registry := by
  have hheld := registry_holders hfd
  unfold ioctlDelete
  rcases searchEntry_resolves id d.devBufs with ⟨-, hs⟩ | ⟨pre, b, post, hl, hs, hres⟩
  · rw [hs]
    exact RegStep.idle _
  · rw [hs]
    simp only
    by_cases hcount : b.refcount > 1
    · rw [if_pos hcount]
      exact RegStep.idle _
    · rw [if_neg hcount]
      by_cases hnode : a.idnode = false
      · rw [freebufReturn_fail hnode]
        simp only [Device.setPriv, registry_mk]
        exact RegStep.deleteFailed hheld hnode
      · rw [freebufReturn_ok (by simpa using hnode)]
        simp only [Device.setPriv, registry_mk, hl, List.eraseIdx_append_of_length_le le_rfl,
          Nat.sub_self, List.eraseIdx_cons_zero, List.map_append]
        exact RegStep.deleted hheld hres (by simpa [DevBuf.header] using hcount)

lemma regStep_attach (id : ℤ) (hfd : d.files fd = some filp) :
    RegStep a d.registry (.ioctl fd (.attach id)) (ioctlAttach d fd filp id).1.registry := by
  have hheld := registry_holders hfd
  unfold ioctlAttach
  by_cases hid : filp.privateData.bufId ≠ 0
  · rw [if_pos hid]
    exact RegStep.idle _
  rw [if_neg hid]
  rw [not_not.mp hid] at hheld
  rcases searchEntry_resolves id d.devBufs with ⟨-, hs⟩ | ⟨pre, b, post, hl, hs, hres⟩
  · rw [hs]
    exact RegStep.idle _
  · rw [hs]
    simp only
    by_cases hread : filp.fMode.read = true ∧ b.readRef = true
    · rw [if_pos hread]
      exact RegStep.idle _
    rw [if_neg hread]
    by_cases hwrite : filp.fMode.write = true ∧ b.writeRef = true
    · rw [if_pos hwrite]
      exact RegStep.idle _
    rw [if_neg hwrite]
    simp only [Device.setPriv, registry_mk, hl, List.set_append_right _ _ le_rfl, Nat.sub_self,
      List.set_cons_zero, List.map_append, List.map_cons]
    exact RegStep.attached hheld hres hread hwrite

/-- What both ways of leaving a buffer do after the reference count has been dropped. -/
lemma regStep_leave {c : Call Fd} {clear : Bool} {f : Option File} {pre post : List DevBuf}
    {b b' : DevBuf} {id : ℤ} (hleaves : Leaves fd filp.fMode c clear (f.map File.holder))
    (hheld : d.registry.holders fd = some ⟨filp.fMode, id⟩) (hid : id ≠ 0)
    (hl : d.devBufs = pre ++ b :: post)
    (hres : Resolves id (d.devBufs.map DevBuf.header) (pre.map DevBuf.header) b.header
      (post.map DevBuf.header))
    (hb' : b'.header = b.header.leave filp.fMode clear) {ret : Device Fd × ℤ}
    (hret : ret = if b'.refcount = 0 then
      freebufReturn a
        { d with devBufs := d.devBufs.set pre.length b', files := Function.update d.files fd f }
        (pre.length, b')
      else ({ d with devBufs := d.devBufs.set pre.length b',
                     files := Function.update d.files fd f }, 0)) :
    RegStep a d.registry c ret.1.registry := by
  have hset : d.devBufs.set pre.length b' = pre ++ b' :: post := by
    rw [hl, List.set_append_right _ _ le_rfl, Nat.sub_self, List.set_cons_zero]
  have hcount : b'.refcount = (b.header.leave filp.fMode clear).refcount := by
    rw [← hb']
    rfl
  have hbid : b'.id = b.header.id := by
    have h := congrArg Header.id hb'
    exact h
  rw [hret, hset]
  by_cases hzero : b'.refcount = 0
  · rw [if_pos hzero]
    by_cases hnode : a.idnode = false
    · rw [freebufReturn_fail hnode, registry_mk, List.map_append, List.map_cons, hb']
      exact RegStep.stayed hleaves hheld hid hres (Or.inr hnode)
    · rw [freebufReturn_ok (by simpa using hnode)]
      simp only [registry_mk, List.eraseIdx_append_of_length_le le_rfl, Nat.sub_self,
        List.eraseIdx_cons_zero, List.map_append, hbid]
      exact RegStep.freed hleaves hheld hid hres (hcount.symm.trans hzero)
  · rw [if_neg hzero, registry_mk, List.map_append, List.map_cons, hb']
    exact RegStep.stayed hleaves hheld hid hres (Or.inl fun h => hzero (hcount.trans h))

lemma regStep_detach (hfd : d.files fd = some filp) :
    RegStep a d.registry (.ioctl fd .detach) (ioctlDetach a d fd filp).1.registry := by
  have hheld := registry_holders hfd
  unfold ioctlDetach
  by_cases hid : filp.privateData.bufId = 0
  · rw [if_pos hid]
    exact RegStep.idle _
  rw [if_neg hid]
  rcases searchEntry_resolves filp.privateData.bufId d.devBufs with
    ⟨-, hs⟩ | ⟨pre, b, post, hl, hs, hres⟩
  · rw [hs]
    exact RegStep.idle _
  · rw [hs]
    refine regStep_leave (f := some ⟨filp.fMode, { filp.privateData with bufId := 0 }⟩)
      Leaves.detach hheld hid hl hres ?_ rfl
    rfl

/-- `freebuf` does not look at the files. -/
lemma freebufReturn_close (d : Device Fd) (e : Entry) (fd : Fd) :
    (freebufReturn a d e).1.close fd = (freebufReturn a (d.close fd) e).1 := by
  by_cases hnode : a.idnode = false
  · rw [freebufReturn_fail hnode, freebufReturn_fail hnode]
  · rw [freebufReturn_ok (by simpa using hnode), freebufReturn_ok (by simpa using hnode)]
    rfl

lemma regStep_release (hfd : d.files fd = some filp) :
    RegStep a d.registry (.release fd) ((deviceRelease a d filp).1.close fd).registry := by
  have hheld := registry_holders hfd
  have hclosed : filp.privateData.bufId = 0 ∨ d.registry.live = [] →
      RegStep a d.registry (.release fd) (d.close fd).registry := by
    intro h
    unfold Device.close
    rw [registry_mk]
    exact RegStep.closed hheld h
  unfold deviceRelease
  by_cases hid : filp.privateData.bufId ≠ 0
  · rw [if_pos hid]
    rcases searchEntry_resolves filp.privateData.bufId d.devBufs with
      ⟨hnil, hs⟩ | ⟨pre, b, post, hl, hs, hres⟩
    · rw [hs]
      exact hclosed (Or.inr (by simp [Device.registry, hnil]))
    · rw [hs]
      let b' : DevBuf := { b with refcount := unsigned 32 (b.refcount - 1) }
      have hleave := regStep_leave (a := a) (d := d) (f := none) Leaves.release hheld hid hl hres
        (show b'.header = b.header.leave filp.fMode false from rfl) rfl
      simp only
      by_cases hzero : b'.refcount = 0
      · rw [if_pos hzero] at hleave ⊢
        rw [freebufReturn_close]
        exact hleave
      · rw [if_neg hzero] at hleave ⊢
        exact hleave
  · rw [if_neg hid]
    exact hclosed (Or.inl (not_not.mp hid))

lemma regStep_smode (sm : Option CryptoSmode) (hfd : d.files fd = some filp) :
    RegStep a d.registry (.ioctl fd (.smode sm)) (ioctlSmode d fd filp sm).1.registry := by
  have hheld := registry_holders hfd
  have hsame : ∀ pd : PrivData, pd.bufId = filp.privateData.bufId →
      (d.setPriv fd filp pd).registry = d.registry := by
    intro pd hpd
    unfold Device.setPriv
    rw [registry_mk]
    refine Registry.hold_self (r := d.registry) ?_
    rw [hheld, ← hpd]
    rfl
  cases sm with
  | none => exact RegStep.idle _
  | some tempsmode =>
      unfold ioctlSmode
      simp only
      by_cases hdir : tempsmode.dir = .write
      · rw [if_pos hdir, hsame { filp.privateData with writesmode := tempsmode } rfl]
        exact RegStep.idle _
      · rw [if_neg hdir, hsame { filp.privateData with readsmode := tempsmode } rfl]
        exact RegStep.idle _

/-- **Simulation**: every call of the driver is a step of the registry. -/
theorem registry_step {c : Call Fd} {d' : Device Fd} {ret : ℤ} (h : step a d c = some (d', ret)) :
    RegStep a d.registry c d'.registry := by
  cases c with
  | «open» fd mode =>
      simp only [step, Option.isNone_iff_eq_none] at h
      by_cases hfd : d.files fd = none
      · rw [if_pos hfd] at h
        have hstep := regStep_open (a := a) mode hfd
        rw [Option.some.inj h] at hstep
        exact hstep
      · rw [if_neg hfd] at h
        cases h
  | release fd =>
      simp only [step, Option.bind_eq_bind, Option.bind_eq_some_iff] at h
      obtain ⟨filp, hfd, h⟩ := h
      have hd' : (deviceRelease a d filp).1.close fd = d' :=
        congrArg Prod.fst (Option.some.inj h)
      rw [← hd']
      exact regStep_release hfd
  | ioctl fd cmd =>
      simp only [step, Option.bind_eq_bind, Option.bind_eq_some_iff] at h
      obtain ⟨filp, hfd, h⟩ := h
      have hd' : (deviceIoctl a d fd filp cmd).1 = d' := congrArg Prod.fst (Option.some.inj h)
      rw [← hd']
      cases cmd with
      | create => exact regStep_create hfd
      | delete id => exact regStep_delete id hfd
      | attach id => exact regStep_attach id hfd
      | detach => exact regStep_detach hfd
      | smode sm => exact regStep_smode sm hfd
      | other => exact RegStep.idle _
  | read fd env len =>
      simp only [step, Option.bind_eq_bind, Option.bind_eq_some_iff] at h
      obtain ⟨filp, hfd, ⟨bufs, ret', out⟩, hread, h⟩ := h
      cases h
      have hlive := onBuffer_header (fun _ _ _ _ => readBody_header) hread
      have hsame : ({ d with devBufs := bufs } : Device Fd).registry = d.registry := by
        simp [Device.registry, hlive]
      rw [hsame]
      exact RegStep.idle _
  | write fd env src len =>
      simp only [step, Option.bind_eq_bind, Option.bind_eq_some_iff] at h
      obtain ⟨filp, hfd, ⟨bufs, ret', out⟩, hwrite, h⟩ := h
      cases h
      have hlive := onBuffer_header (fun _ _ _ _ => writeBody_header) hwrite
      have hsame : ({ d with devBufs := bufs } : Device Fd).registry = d.registry := by
        simp [Device.registry, hlive]
      rw [hsame]
      exact RegStep.idle _

end simulation

end Comp3301.Crypto
