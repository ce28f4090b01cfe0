import Comp3301.Crypto.Transfer
import Comp3301.Lib.System

/-!
# The crypto device: the driver as a transition system

The global state of the driver (`Device`): the counter `new_id`, the lists `detached_id_head` and
`dev_buf_head`, and the open files with their private data. Its operations are `device_open`,
`device_release`, `device_ioctl` and the transfers of `Transfer`.

* A file (`struct file`) is named by an element of a type `Fd`; `files` maps it to its mode and
  private data while it is open. The file system opens a file only when it is closed, calls the
  other operations only on open files, and drops a file after `device_release` whatever that
  returns; these are the only assumptions about it.
* Whether an allocation succeeds is an input: `Alloc` has one flag for each `kzalloc` and `vmalloc`
  of the four operations. `Alloc.ok` says that none fails.
* `step` performs one call. It is `none` when the file system would not make the call, or when the
  call indexes an array out of its bounds.

A NULL `private_data` cannot occur: `device_open` sets it or fails.
-/

namespace Comp3301.Crypto

open Comp3301.Lib

/-! ## The state -/

/-- The access bits of `f_mode`. -/
structure FMode where
  /-- `FMODE_READ`. -/
  read : Bool
  /-- `FMODE_WRITE`. -/
  write : Bool
  deriving DecidableEq, Repr

/-- An open file of the device. -/
structure File where
  fMode : FMode
  privateData : PrivData
  deriving DecidableEq, Repr

/-- The state of the driver. Both lists start at the node behind the list head. -/
structure Device (Fd : Type) where
  newId : ℤ
  detachedIds : List ℤ
  devBufs : List DevBuf
  files : Fd → Option File

/-- The outcomes of the allocations of a call (`true`: it succeeds), and the contents of the
memory that `vmalloc` delivers for a ring. -/
structure Alloc where
  /-- `kzalloc` of the private data in `device_open`. -/
  privData : Bool
  /-- `kzalloc` of the `dev_buf` in `CRYPTO_IOCCREATE`. -/
  devBuf : Bool
  /-- `vmalloc` of the ring in `CRYPTO_IOCCREATE`. -/
  ring : Bool
  /-- `kzalloc` of the list node in `CRYPTO_IOCCREATE`. -/
  node : Bool
  /-- `kzalloc` of the `detached_id` in `freebuf`. -/
  idnode : Bool
  ringMem : ℕ → UInt8

/-- No allocation fails. -/
def Alloc.ok (a : Alloc) : Prop :=
  a.privData = true ∧ a.devBuf = true ∧ a.ring = true ∧ a.node = true ∧ a.idnode = true

/-- The ioctl commands with their arguments; the argument of `CRYPTO_IOCSMODE` is `none` when it
cannot be copied from the user. -/
inductive Cmd where
  | create
  | delete (arg : ℤ)
  | attach (arg : ℤ)
  | detach
  | smode (arg : Option CryptoSmode)
  | other
  deriving DecidableEq, Repr

variable {Fd : Type}

/-- The state after `init_module`. -/
def Device.init : Device Fd where
  newId := 1
  detachedIds := []
  devBufs := []
  files := fun _ => none

variable [DecidableEq Fd]

/-- Store private data in an open file. -/
def Device.setPriv (d : Device Fd) (fd : Fd) (filp : File) (pd : PrivData) : Device Fd :=
  { d with files := Function.update d.files fd (some { filp with privateData := pd }) }

/-- Drop a file. -/
def Device.close (d : Device Fd) (fd : Fd) : Device Fd :=
  { d with files := Function.update d.files fd none }

/-! ## `device_open` and `device_release` -/

/-- The private data of a newly opened file. -/
def newPrivData : PrivData where
  bufId := 0
  readsmode := ⟨.read, .passthrough, 0⟩
  writesmode := ⟨.write, .passthrough, 0⟩

/-- `device_open`; on failure the file system does not keep the file. -/
def deviceOpen (a : Alloc) (d : Device Fd) (fd : Fd) (mode : FMode) : Device Fd × ℤ :=
  if a.privData = false then (d, -enomem)
  else ({ d with files := Function.update d.files fd (some ⟨mode, newPrivData⟩) }, 0)

/-- `freebuf` of the entry `e`: its id goes to the front of the free ids. -/
def freebuf (a : Alloc) (d : Device Fd) (e : Entry) : Device Fd × ℤ :=
  if a.idnode = false then (d, -enomem)
  else
    ({ d with
        devBufs := d.devBufs.eraseIdx e.1
        detachedIds := e.2.id :: d.detachedIds }, 0)

/-- `if (freebuf (entry) == -ENOMEM) return -ENOMEM; return 0;` -/
def freebufReturn (a : Alloc) (d : Device Fd) (e : Entry) : Device Fd × ℤ :=
  if (freebuf a d e).2 = -enomem then ((freebuf a d e).1, -enomem) else ((freebuf a d e).1, 0)

/-- `device_release`. The reference count is dropped, the access flags are left alone. -/
def deviceRelease (a : Alloc) (d : Device Fd) (filp : File) : Device Fd × ℤ :=
  if filp.privateData.bufId ≠ 0 then
    match searchEntry filp.privateData.bufId d.devBufs with
    | none => (d, -einval)
    | some (i, b) =>
        let b := { b with refcount := unsigned 32 (b.refcount - 1) }
        let d := { d with devBufs := d.devBufs.set i b }
        if b.refcount = 0 then freebufReturn a d (i, b) else (d, 0)
  else (d, 0)

/-! ## `device_ioctl` -/

/-- The id of a new buffer, with `new_id` and the free ids after it has been taken. -/
def takeId (d : Device Fd) : ℤ × ℤ × List ℤ :=
  match d.detachedIds with
  | [] => (d.newId, d.newId + 1, [])
  | ident :: rest => (ident, d.newId, rest)

/-- `CRYPTO_IOCCREATE`. The id and the private data have changed before the last allocation. -/
def ioctlCreate (a : Alloc) (d : Device Fd) (fd : Fd) (filp : File) : Device Fd × ℤ :=
  if filp.privateData.bufId ≠ 0 then (d, -enotsup) else
  if a.devBuf = false then (d, -enomem) else
  if a.ring = false then (d, -enomem) else
    let id := (takeId d).1
    let newDevBuf := freshBuf id filp.fMode.read filp.fMode.write a.ringMem
    let d := ({ d with newId := (takeId d).2.1, detachedIds := (takeId d).2.2 } : Device Fd)
    let d := d.setPriv fd filp { filp.privateData with bufId := id }
    if a.node = false then (d, -enomem) else
    ({ d with devBufs := newDevBuf :: d.devBufs }, id)

/-- `CRYPTO_IOCTDELETE`. The requester's attachment is cleared whatever it was. -/
def ioctlDelete (a : Alloc) (d : Device Fd) (fd : Fd) (filp : File) (id : ℤ) : Device Fd × ℤ :=
  match searchEntry id d.devBufs with
  | none => (d, -einval)
  | some (i, b) =>
      if b.refcount > 1 then (d, -enotsup) else
      freebufReturn a (d.setPriv fd filp { filp.privateData with bufId := 0 }) (i, b)

/-- `CRYPTO_IOCTATTACH`. -/
def ioctlAttach (d : Device Fd) (fd : Fd) (filp : File) (id : ℤ) : Device Fd × ℤ :=
  if filp.privateData.bufId ≠ 0 then (d, -enotsup) else
  match searchEntry id d.devBufs with
  | none => (d, -einval)
  | some (i, b) =>
      if filp.fMode.read = true ∧ b.readRef = true then (d, -enotsup) else
      if filp.fMode.write = true ∧ b.writeRef = true then (d, -enotsup) else
      let b := { b with
        readRef := if filp.fMode.read then true else b.readRef
        writeRef := if filp.fMode.write then true else b.writeRef
        refcount := unsigned 32 (b.refcount + 1) }
      let d := { d with devBufs := d.devBufs.set i b }
      (d.setPriv fd filp { filp.privateData with bufId := b.id }, 0)

/-- `CRYPTO_IOCDETACH`. -/
def ioctlDetach (a : Alloc) (d : Device Fd) (fd : Fd) (filp : File) : Device Fd × ℤ :=
  if filp.privateData.bufId = 0 then (d, -enotsup) else
  match searchEntry filp.privateData.bufId d.devBufs with
  | none => (d, -einval)
  | some (i, b) =>
      let b := { b with
        readRef := if filp.fMode.read then false else b.readRef
        writeRef := if filp.fMode.write then false else b.writeRef
        refcount := unsigned 32 (b.refcount - 1) }
      let d := { d with devBufs := d.devBufs.set i b }
      let d := d.setPriv fd filp { filp.privateData with bufId := 0 }
      if b.refcount = 0 then freebufReturn a d (i, b) else (d, 0)

/-- `CRYPTO_IOCSMODE`. -/
def ioctlSmode (d : Device Fd) (fd : Fd) (filp : File) : Option CryptoSmode → Device Fd × ℤ
  | none => (d, -efault)
  | some tempsmode =>
      if tempsmode.dir = .write then
        (d.setPriv fd filp { filp.privateData with writesmode := tempsmode }, 0)
      else (d.setPriv fd filp { filp.privateData with readsmode := tempsmode }, 0)

/-- `device_ioctl` on the open file `filp`. -/
def deviceIoctl (a : Alloc) (d : Device Fd) (fd : Fd) (filp : File) : Cmd → Device Fd × ℤ
  | .create => ioctlCreate a d fd filp
  | .delete arg => ioctlDelete a d fd filp arg
  | .attach arg => ioctlAttach d fd filp arg
  | .detach => ioctlDetach a d fd filp
  | .smode arg => ioctlSmode d fd filp arg
  | .other => (d, -einval)

/-! ## Calls and runs -/

/-- A call of the driver. -/
inductive Call (Fd : Type) where
  | open (fd : Fd) (mode : FMode)
  | release (fd : Fd)
  | ioctl (fd : Fd) (cmd : Cmd)
  | read (fd : Fd) (env : XferEnv) (len : ℕ)
  | write (fd : Fd) (env : XferEnv) (src : ℕ → UInt8) (len : ℕ)

/-- One call: the next state and the return value. -/
def step (a : Alloc) (d : Device Fd) : Call Fd → Option (Device Fd × ℤ)
  | .open fd mode => if (d.files fd).isNone then some (deviceOpen a d fd mode) else none
  | .release fd => do
      let filp ← d.files fd
      let (d, ret) := deviceRelease a d filp
      some (d.close fd, ret)
  | .ioctl fd cmd => do
      let filp ← d.files fd
      some (deviceIoctl a d fd filp cmd)
  | .read fd env len => do
      let filp ← d.files fd
      let (bufs, ret, _) ← deviceRead env d.devBufs filp.privateData len
      some ({ d with devBufs := bufs }, ret)
  | .write fd env src len => do
      let filp ← d.files fd
      let (bufs, ret, _) ← deviceWrite env d.devBufs filp.privateData src len
      some ({ d with devBufs := bufs }, ret)

/-- A call with the outcomes of its allocations takes the driver from `d` to `d'`. -/
def Next (d : Device Fd) (k : Alloc × Call Fd) (d' : Device Fd) : Prop :=
  ∃ ret, step k.1 d k.2 = some (d', ret)

/-- The states of the driver in runs whose calls all meet `guard`. -/
abbrev ReachableBy (guard : Device Fd → Alloc × Call Fd → Prop) : Device Fd → Prop :=
  Reach Device.init Next guard

/-- The states of the driver in any run. -/
abbrev Reachable : Device Fd → Prop := ReachableBy fun _ _ => True

end Comp3301.Crypto
