import Comp3301.Crypto.Fifo

/-!
# The crypto device: transfers on different buffers

* `Device.transfer` is a `device_read` or `device_write` of an open file, with the characters it
  delivers; `step_call` compares it with `step`.
* `search_entry` looks at ids only, which transfers leave alone. So it finds the same entry after
  another buffer of the list has been changed (`searchEntry_set`).
* `transfers_commute`: two calls on different live buffers can be exchanged.
-/

set_option linter.unusedSectionVars false

namespace Comp3301.Crypto

open Comp3301.Lib

variable {Fd : Type} [DecidableEq Fd]

/-! ## Transfers of a file -/

/-- A transfer call of the file `fd`: the driver after it, the return value and the characters
delivered. -/
def Device.transfer (d : Device Fd) (fd : Fd) (env : XferEnv) (req : Req) :
    Option (Xferred (Device Fd)) := do
  let filp ← d.files fd
  let (bufs, ret, out) ← xfer d.devBufs ⟨filp.privateData, env, req⟩
  some ({ d with devBufs := bufs }, ret, out)

/-- The call of the driver with a request. -/
def Req.call (req : Req) (fd : Fd) (env : XferEnv) : Call Fd :=
  match req with
  | .read len => .read fd env len
  | .write src len => .write fd env src len

/-- But for the characters delivered, a transfer is a step of the driver. -/
lemma step_call (a : Alloc) (d : Device Fd) (fd : Fd) (env : XferEnv) (req : Req) :
    step a d (req.call fd env) = (d.transfer fd env req).map fun r => (r.1, r.2.1) := by
  unfold Device.transfer
  cases req <;>
    simp only [Req.call, step, xfer, Option.bind_eq_bind, Option.map_bind, Function.comp_def,
      Option.map_some]

/-- A transfer of an open file. -/
lemma transfer_eq_some_iff {d d' : Device Fd} {fd : Fd} {filp : File}
    (hfd : d.files fd = some filp) {env : XferEnv} {req : Req} {r : ℤ × List UInt8} :
    d.transfer fd env req = some (d', r) ↔
      ∃ bufs, xfer d.devBufs ⟨filp.privateData, env, req⟩ = some (bufs, r) ∧
        d' = { d with devBufs := bufs } := by
  unfold Device.transfer
  rw [hfd, Option.bind_eq_bind, Option.bind_some, Option.bind_eq_bind, Option.bind_eq_some_iff]
  constructor
  · rintro ⟨⟨bufs, ret, out⟩, hxfer, hres⟩
    cases hres
    exact ⟨bufs, hxfer, rfl⟩
  · rintro ⟨bufs, hxfer, rfl⟩
    exact ⟨(bufs, r), hxfer, rfl⟩

/-! ## Lookups beside a change -/

/-- What is found of a live id: the first buffer with the id. -/
lemma searchEntry_live {id : ℤ} {l : List DevBuf} (h : id ∈ l.map DevBuf.id) :
    ∃ pre b post, l = pre ++ b :: post ∧ searchEntry id l = some (pre.length, b) ∧ b.id = id ∧
      ∀ c ∈ pre, c.id ≠ id := by
  obtain ⟨c, hc, hcid⟩ := List.mem_map.mp h
  rcases searchEntry_cases id l with ⟨rfl, -⟩ | ⟨pre, b, post, hl, hs, hcases⟩
  · cases hc
  · rcases hcases with ⟨hb, hpre⟩ | ⟨-, hne⟩
    · exact ⟨pre, b, post, hl, hs, hb, hpre⟩
    · exact absurd hcid (hne c hc)

/-- The entry is found after another buffer has been changed, but for its id. -/
lemma searchEntry_set {id : ℤ} {pre post : List DevBuf} {b : DevBuf} (hb : b.id = id)
    (hpre : ∀ c ∈ pre, c.id ≠ id) {j : ℕ} {c c' : DevBuf} (hj : (pre ++ b :: post)[j]? = some c)
    (hid : c'.id = c.id) (hne : j ≠ pre.length) :
    searchEntry id ((pre ++ b :: post).set j c') = some (pre.length, b) := by
  rcases Nat.lt_or_gt_of_ne hne with hlt | hgt
  · -- before the entry: the changed buffer still has another id
    rw [List.set_append_left _ _ hlt, searchEntry_append _ hb, List.length_set]
    intro x hx
    rcases List.mem_or_eq_of_mem_set hx with hx | rfl
    · exact hpre x hx
    · rw [hid]
      rw [List.getElem?_append_left hlt] at hj
      exact hpre c (List.mem_of_getElem? hj)
  · obtain ⟨k, hk⟩ := Nat.exists_eq_add_of_lt hgt
    rw [List.set_append_right _ _ hgt.le, hk,
      show pre.length + k + 1 - pre.length = k + 1 by omega, List.set_cons_succ]
    exact searchEntry_append hpre hb _

/-! ## Exchanging two calls -/

/-- A transfer on a live buffer changes that buffer alone, and not its id. -/
lemma xfer_live {l l' : List DevBuf} {x : Xfer} {r : ℤ × List UInt8}
    (hid : x.pd.bufId ≠ 0) (hlive : x.pd.bufId ∈ l.map DevBuf.id)
    (h : xfer l x = some (l', r)) :
    ∃ pre b post b', l = pre ++ b :: post ∧ b.id = x.pd.bufId ∧ (∀ c ∈ pre, c.id ≠ x.pd.bufId) ∧
      xferBody x b = some (b', r) ∧ b'.id = b.id ∧ l' = l.set pre.length b' := by
  obtain ⟨pre, b, post, hl, hs, hb, hpre⟩ := searchEntry_live hlive
  rw [xfer_eq, onBuffer, if_neg hid, hs] at h
  simp only [Option.bind_eq_bind, Option.bind_eq_some_iff] at h
  obtain ⟨⟨b', ret, out⟩, hbody, hres⟩ := h
  cases hres
  exact ⟨pre, b, post, b', hl, hb, hpre, hbody, congrArg Header.id (xferBody_header hbody), rfl⟩

/-- A transfer on the buffer that is found. -/
lemma xfer_of_search {l : List DevBuf} {x : Xfer} {i : ℕ} {b b' : DevBuf} {r : ℤ × List UInt8}
    (hid : x.pd.bufId ≠ 0) (hs : searchEntry x.pd.bufId l = some (i, b))
    (hbody : xferBody x b = some (b', r)) : xfer l x = some (l.set i b', r) := by
  rw [xfer_eq, onBuffer, if_neg hid, hs]
  simp only [hbody]
  rfl

/-- **Transfers on different buffers commute.** Two calls by files that are attached to different
live buffers, each of which stays inside its arrays: after either of them the other one returns and
delivers the same, and both orders end in the same state. -/
theorem transfers_commute {d d₁ d₂ : Device Fd} {fd₁ fd₂ : Fd} {filp₁ filp₂ : File}
    {env₁ env₂ : XferEnv} {req₁ req₂ : Req} {r₁ r₂ : ℤ × List UInt8}
    (hfd₁ : d.files fd₁ = some filp₁) (hfd₂ : d.files fd₂ = some filp₂)
    (hattached₁ : filp₁.privateData.bufId ≠ 0) (hattached₂ : filp₂.privateData.bufId ≠ 0)
    (hlive₁ : filp₁.privateData.bufId ∈ d.devBufs.map DevBuf.id)
    (hlive₂ : filp₂.privateData.bufId ∈ d.devBufs.map DevBuf.id)
    (hne : filp₁.privateData.bufId ≠ filp₂.privateData.bufId)
    (h₁ : d.transfer fd₁ env₁ req₁ = some (d₁, r₁))
    (h₂ : d.transfer fd₂ env₂ req₂ = some (d₂, r₂)) :
    ∃ d', d₁.transfer fd₂ env₂ req₂ = some (d', r₂) ∧
      d₂.transfer fd₁ env₁ req₁ = some (d', r₁) := by
  obtain ⟨bufs₁, hxfer₁, rfl⟩ := (transfer_eq_some_iff hfd₁).mp h₁
  obtain ⟨bufs₂, hxfer₂, rfl⟩ := (transfer_eq_some_iff hfd₂).mp h₂
  obtain ⟨pre₁, b₁, post₁, b₁', hl₁, hb₁, hpre₁, hbody₁, hid₁, rfl⟩ :=
    xfer_live hattached₁ hlive₁ hxfer₁
  obtain ⟨pre₂, b₂, post₂, b₂', hl₂, hb₂, hpre₂, hbody₂, hid₂, rfl⟩ :=
    xfer_live hattached₂ hlive₂ hxfer₂
  have hget₁ : d.devBufs[pre₁.length]? = some b₁ := by simp [hl₁]
  have hget₂ : d.devBufs[pre₂.length]? = some b₂ := by simp [hl₂]
  have hpos : pre₁.length ≠ pre₂.length := by
    intro hpos
    rw [hpos, hget₂] at hget₁
    obtain rfl := Option.some.inj hget₁
    exact hne (hb₁.symm.trans hb₂)
  have hcall₂ : xfer (d.devBufs.set pre₁.length b₁') ⟨filp₂.privateData, env₂, req₂⟩ =
      some ((d.devBufs.set pre₁.length b₁').set pre₂.length b₂', r₂) := by
    rw [hl₂] at hget₁ ⊢
    exact xfer_of_search hattached₂ (searchEntry_set hb₂ hpre₂ hget₁ hid₁ hpos) hbody₂
  have hcall₁ : xfer (d.devBufs.set pre₂.length b₂') ⟨filp₁.privateData, env₁, req₁⟩ =
      some ((d.devBufs.set pre₂.length b₂').set pre₁.length b₁', r₁) := by
    rw [hl₁] at hget₂ ⊢
    exact xfer_of_search hattached₁ (searchEntry_set hb₁ hpre₁ hget₂ hid₂ hpos.symm) hbody₁
  let d₁ : Device Fd := { d with devBufs := d.devBufs.set pre₁.length b₁' }
  let d₂ : Device Fd := { d with devBufs := d.devBufs.set pre₂.length b₂' }
  refine ⟨{ d with devBufs := (d.devBufs.set pre₁.length b₁').set pre₂.length b₂' }, ?_, ?_⟩
  · exact (transfer_eq_some_iff (d := d₁) hfd₂).mpr ⟨_, hcall₂, rfl⟩
  · rw [List.set_comm _ _ hpos]
    exact (transfer_eq_some_iff (d := d₂) hfd₁).mpr ⟨_, hcall₁, rfl⟩

/-! ### Two buffers -/

/-- The private data of a file that is attached to the buffer `id`. -/
def attachedPd (id : ℤ) : PrivData := { newPrivData with bufId := id }

/-- Two files, each of which has created a buffer. -/
def twoBuffers : Device Bool :=
  let d := (deviceOpen goodAlloc Device.init false ⟨true, true⟩).1
  let d := (deviceOpen goodAlloc d true ⟨true, true⟩).1
  let d := (deviceIoctl goodAlloc d false ⟨⟨true, true⟩, newPrivData⟩ .create).1
  (deviceIoctl goodAlloc d true ⟨⟨true, true⟩, newPrivData⟩ .create).1

/-- A write to a buffer that is found and new. -/
lemma xfer_write_fresh {l : List DevBuf} {i : ℕ} {id : ℤ} (hid : id ≠ 0)
    (hs : searchEntry id l = some (i, freshBuf id true true fun _ => 0)) (src : ℕ → UInt8) {len : ℕ}
    (hpos : 1 ≤ len) (hlen : len < bufSize) :
    ∃ bufs, xfer l ⟨attachedPd id, goodEnv, .write src len⟩ = some (bufs, (len : ℤ), []) :=
  ⟨_, xfer_of_search hid hs (write_sized (ringRep_freshBuf id true true _)
    ⟨⟨rfl, rfl⟩, hpos, hlen⟩)⟩

/-- Three characters are written to the one and five to the other. -/
theorem transfers_commute_twoBuffers :
    ∃ d₁ d₂ d', twoBuffers.transfer false goodEnv (.write (fun _ => 7) 3) = some (d₁, 3, []) ∧
      twoBuffers.transfer true goodEnv (.write (fun _ => 8) 5) = some (d₂, 5, []) ∧
      d₁.transfer true goodEnv (.write (fun _ => 8) 5) = some (d', 5, []) ∧
      d₂.transfer false goodEnv (.write (fun _ => 7) 3) = some (d', 3, []) := by
  let filp₁ : File := ⟨⟨true, true⟩, attachedPd 1⟩
  let filp₂ : File := ⟨⟨true, true⟩, attachedPd 2⟩
  obtain ⟨bufs₁, h₁⟩ := xfer_write_fresh one_ne_zero (l := twoBuffers.devBufs) rfl
    (fun _ => 7) (show 1 ≤ 3 by decide) (by decide)
  obtain ⟨bufs₂, h₂⟩ := xfer_write_fresh two_ne_zero (l := twoBuffers.devBufs) rfl
    (fun _ => 8) (show 1 ≤ 5 by decide) (by decide)
  have hfd₁ : twoBuffers.files false = some filp₁ := rfl
  have hfd₂ : twoBuffers.files true = some filp₂ := rfl
  have hcall₁ := (transfer_eq_some_iff hfd₁).mpr ⟨bufs₁, h₁, rfl⟩
  have hcall₂ := (transfer_eq_some_iff hfd₂).mpr ⟨bufs₂, h₂, rfl⟩
  obtain ⟨d', h⟩ := transfers_commute hfd₁ hfd₂ one_ne_zero two_ne_zero (by decide) (by decide)
    (show (1 : ℤ) ≠ 2 by decide) hcall₁ hcall₂
  exact ⟨_, _, d', hcall₁, hcall₂, h⟩

end Comp3301.Crypto
