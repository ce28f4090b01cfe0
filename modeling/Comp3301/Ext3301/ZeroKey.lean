import Comp3301.Ext3301.Moves

/-!
# The key 0

With the key 0 nothing is encrypted, but a read in `/encrypt` still goes through a buffer of zeros
of the length asked for, all of which is copied to the user.

* `Vfs.Stores` is what `do_sync_read` promises: it stores bytes at the front of the buffer, and what
  it does besides does not depend on what the buffer holds.
* So reading inside and outside of `/encrypt` is the same exactly if the user's buffer is zero
  behind the bytes that are stored (`zeroKey_iff`).
-/

namespace Comp3301.Ext3301

open Comp3301.Lib

/-! ## What a read stores -/

/-- A read stores `got` at the front of the buffer. Its result and the position depend on the length
of the buffer only. -/
structure Vfs.Stores (vfs : Vfs) (got : Inode → ℕ → ℕ → List UInt8) : Prop where
  length_le : ∀ ino ppos len, (got ino ppos len).length ≤ len
  buf : ∀ ino buf ppos, (vfs.doSyncRead ino buf ppos).buf =
    got ino ppos buf.length ++ buf.drop (got ino ppos buf.length).length
  ret : ∀ ino buf buf' ppos, buf.length = buf'.length →
    (vfs.doSyncRead ino buf ppos).ret = (vfs.doSyncRead ino buf' ppos).ret
  ppos : ∀ ino buf buf' ppos, buf.length = buf'.length →
    (vfs.doSyncRead ino buf ppos).ppos = (vfs.doSyncRead ino buf' ppos).ppos

lemma stores_byteArray :
    byteArray.Stores fun ino ppos len => ByteFile.get ino.contents ppos len where
  length_le _ _ _ := by
    rw [ByteFile.length_get]
    exact min_le_left _ _
  buf _ _ _ := rfl
  ret _ _ _ _ h := by simp [byteArray, h]
  ppos _ _ _ _ h := by simp [byteArray, h]

/-- What `ext3301_im_read` stores: nothing when the string goes on behind the bytes asked for. -/
def imGot (d : Data) (ppos len : ℕ) : List UInt8 :=
  if ppos < d.strlen ∧ d.strlen ≤ ppos + len then d.bytes.take (d.strlen - ppos) else []

/-- What the read stores, for both kinds of files. -/
def plainGot (got : Inode → ℕ → ℕ → List UInt8) (ino : Inode) (ppos len : ℕ) : List UInt8 :=
  if sIsim ino.iMode then imGot ino.data ppos len else got ino ppos len

/-- An immediate file promises the same. -/
lemma imRead_stores {env : Env} (hcopy : env.copy) (ino : Inode) (buf : List UInt8) (ppos : ℕ) :
    (imRead env ino buf ppos).buf =
        imGot ino.data ppos buf.length ++ buf.drop (imGot ino.data ppos buf.length).length ∧
      ∀ buf' : List UInt8, buf.length = buf'.length →
        (imRead env ino buf ppos).ret = (imRead env ino buf' ppos).ret ∧
          (imRead env ino buf ppos).ppos = (imRead env ino buf' ppos).ppos := by
  constructor
  · unfold imRead imGot
    simp only [hcopy, if_true]
    by_cases hend : ino.data.strlen ≤ ppos
    · rw [if_pos hend, if_neg (fun h => absurd h.1 hend.not_gt)]
      rfl
    · rw [if_neg hend]
      by_cases hall : ino.data.strlen ≤ ppos + buf.length
      · have hlen : ino.data.strlen - ppos ≤ ino.data.bytes.length := by
          have := ino.data.strlen_le
          rw [ino.data.size]
          omega
        rw [if_pos hall, if_pos ⟨Nat.not_le.mp hend, hall⟩, List.length_take_of_le hlen]
      · rw [if_neg hall, if_neg (fun h => hall h.2)]
        rfl
  · intro buf' hlen
    unfold imRead
    simp only [hcopy, if_true, hlen]
    split_ifs <;> exact ⟨rfl, rfl⟩

section reads

variable {vfs : Vfs} {got : Inode → ℕ → ℕ → List UInt8} (hvfs : vfs.Stores got) {env : Env}
  (hcopy : env.copy) (ino : Inode) (buf : List UInt8) (ppos : ℕ)

include hvfs hcopy

lemma plainRead_stores : (plainRead vfs env ino buf ppos).buf =
    plainGot got ino ppos buf.length ++ buf.drop (plainGot got ino ppos buf.length).length := by
  unfold plainRead plainGot
  split_ifs
  · exact (imRead_stores hcopy ino buf ppos).1
  · exact hvfs.buf ino buf ppos

lemma plainRead_congr {buf' : List UInt8} (hlen : buf.length = buf'.length) :
    (plainRead vfs env ino buf ppos).ret = (plainRead vfs env ino buf' ppos).ret ∧
      (plainRead vfs env ino buf ppos).ppos = (plainRead vfs env ino buf' ppos).ppos := by
  unfold plainRead
  split_ifs
  · exact (imRead_stores hcopy ino buf ppos).2 buf' hlen
  · exact ⟨hvfs.ret _ _ _ _ hlen, hvfs.ppos _ _ _ _ hlen⟩

end reads

/-! ## The key 0 -/

/-- **When reading in `/encrypt` with the key 0 is reading outside**, for every file, position and
buffer, and whatever the underlying read does. -/
theorem zeroKey_iff {vfs : Vfs} {got : Inode → ℕ → ℕ → List UInt8} (hvfs : vfs.Stores got)
    {env : Env} (halloc : env.alloc) (hcopy : env.copy) {inside outside : Filp}
    (hin : inside.dentry.inEncrypt) (hout : outside.dentry.inEncrypt = false) (ino : Inode)
    (buf : List UInt8) (ppos : ℕ) :
    syncRead vfs 0 env inside ino buf ppos = syncRead vfs 0 env outside ino buf ppos ↔
      ∀ b ∈ buf.drop (plainGot got ino ppos buf.length).length, b = 0 := by
  have henv : { env with copy := true } = env := by rw [← hcopy]
  have hcrypt : crypt 0 = id := funext fun b => (crypt_eq_self_iff 0 b).mpr (Or.inl rfl)
  have hlen : (List.replicate buf.length (0 : UInt8)).length = buf.length := List.length_replicate
  obtain ⟨hret, hppos⟩ := plainRead_congr hvfs hcopy ino (List.replicate buf.length 0) ppos hlen
  have hplain := plainRead_stores hvfs hcopy ino buf ppos
  have htemp := plainRead_stores hvfs hcopy ino (List.replicate buf.length 0) ppos
  rw [hlen, List.drop_replicate] at htemp
  have hinside : syncRead vfs 0 env inside ino buf ppos =
      ⟨(plainRead vfs env ino buf ppos).ret, (plainRead vfs env ino buf ppos).ppos,
        plainGot got ino ppos buf.length ++
          List.replicate (buf.length - (plainGot got ino ppos buf.length).length) 0⟩ := by
    rw [syncRead, if_pos hin, if_pos halloc, henv, hcrypt]
    simp only [if_pos hcopy, List.map_id]
    rw [hret, hppos, htemp]
  have houtside : syncRead vfs 0 env outside ino buf ppos = plainRead vfs env ino buf ppos := by
    rw [syncRead, hout, if_neg Bool.false_ne_true]
  have hiff : syncRead vfs 0 env inside ino buf ppos = syncRead vfs 0 env outside ino buf ppos ↔
      List.replicate (buf.length - (plainGot got ino ppos buf.length).length) 0 =
        buf.drop (plainGot got ino ppos buf.length).length := by
    rw [hinside, houtside, ← List.append_right_inj (plainGot got ino ppos buf.length), ← hplain]
    constructor
    · exact fun h => congrArg Read.buf h
    · intro h
      rw [h]
  rw [hiff, eq_comm, List.eq_replicate_iff, List.length_drop]
  exact and_iff_right rfl

/-- A regular file that holds `A`. -/
def aRegular : Inode := ⟨0x81A4, Data.new 0, [65]⟩

/-- Reading its only byte. -/
theorem zeroKey_one_byte :
    syncRead byteArray 0 Env.good ⟨encryptedFile, false⟩ aRegular [7] 0 =
      syncRead byteArray 0 Env.good rootFilp aRegular [7] 0 :=
  (zeroKey_iff stores_byteArray rfl rfl (by decide) rfl aRegular [7] 0).mpr
    fun _ hb => absurd hb List.not_mem_nil

/-- Asking for one byte more overwrites it. -/
theorem not_zeroKey_short_read :
    syncRead byteArray 0 Env.good ⟨encryptedFile, false⟩ aRegular [7, 7] 0 ≠
      syncRead byteArray 0 Env.good rootFilp aRegular [7, 7] 0 := by
  intro h
  have hbuf := congrArg Read.buf h
  exact absurd hbuf (by decide)

end Comp3301.Ext3301
