import Aixos.Kernel.Ipc
import Aixos.Kernel.Namespace
import Aixos.Kernel.Posix

/-!
# Named semaphores and message queues

`posix/src/semaphore.c` and `posix/src/mqueue.c`: names for semaphores and for message queues, counted
references to them, and names that are taken away while there are still references.

## The model

The two files are the same program on two tables. What they share is defined once, with the kind of
object as an argument; what they do differently (what they check, what they find an entry by, what
they return) is in the functions with their names.

* `Named` — the kernel, the tables, and how far each task is in a call.
* `Named.semOpenNamed`, `Named.semCloseNamed`, … — the functions, up to the end of their first critical section.
* `Named.goOn` — their further critical sections, and the deletion of the native object between them.
* `Named.step` — a call begins, a call goes on, or the rest of the system does something.

What the rest of the system does to the kernel is an argument. Whether there is memory for a queue is one, too.
-/

namespace Aixos

namespace Posix.Errno

/-- `ENOENT` -/
def noent : Errno := 2

/-- `EBADF` -/
def badf : Errno := 9

/-- `EEXIST` -/
def exist : Errno := 17

/-- `EMFILE` -/
def mfile : Errno := 24

/-- `ENOSPC` -/
def nospc : Errno := 28

/-- `ENOTSUP` -/
def notsup : Errno := 45

end Posix.Errno

/-- `O_NONBLOCK` -/
def oNonblock : BitVec 32 := 0x0004

/-- `O_CREAT` -/
def oCreat : BitVec 32 := 0x0200

/-- `O_EXCL` -/
def oExcl : BitVec 32 := 0x0800

/-- Which of the two files. -/
inductive NamedKind where
  /-- `semaphore.c` -/
  | sem
  /-- `mqueue.c` -/
  | mq
  deriving DecidableEq

/-- The native objects. -/
def NamedKind.objKind : NamedKind → ObjKind
  | .sem => .sem
  | .mq => .mq

/-- `named_sem_t` or `named_mq_t`, where `used` is 1. -/
structure NamedEntry where
  /-- `name` -/
  name : CString
  /-- `semaphore` or `descriptor` -/
  native : Handle
  /-- `references` -/
  references : BitVec 16
  /-- `unlinked` -/
  unlinked : Bool
  deriving DecidableEq

/-- What an open returns: the `sem_t` in an entry of `named_semaphores`, or a `mqd_t`. -/
inductive NamedDesc where
  | semaphore (i : ℕ)
  | descriptor (h : Handle)
  deriving DecidableEq

/-- What a call returns. -/
inductive NamedResult where
  | opened (d : NamedDesc)
  /-- 0 -/
  | ok
  /-- `SEM_FAILED`, `AIXOS_HANDLE_INVALID` or -1, with `errno` -/
  | failed (errno : Posix.Errno)
  deriving DecidableEq

/-- Where a call goes on after a critical section. -/
inductive NamedStage where
  /-- a close, before it deletes the native object -/
  | closeDelete
  /-- a close that could not delete it, before it sets `references` to 1 -/
  | closeUndo
  /-- an unlink, before it deletes the native object -/
  | unlinkDelete
  /-- a close or an unlink that has deleted it, before it clears the entry -/
  | clear
  deriving DecidableEq

/-- A call between two critical sections. -/
structure NamedPending where
  stage : NamedStage
  kind : NamedKind
  /-- which entry `entry` points to -/
  index : ℕ
  /-- `native` or `descriptor` -/
  native : Handle
  deriving DecidableEq

/-- What `mq_open` reads of a `struct mq_attr`. -/
structure MqAttr where
  /-- `mq_maxmsg` -/
  maxmsg : ℤ
  /-- `mq_msgsize` -/
  msgsize : ℤ
  deriving DecidableEq

/-- The calls. A name or an `attr` is `none` where the caller gives `NULL`. -/
inductive NamedCall where
  | semOpen (name : Option CString) (flags : BitVec 32) (value : ℕ)
  /-- which entry `sem` points into; a number beyond the table for another pointer -/
  | semClose (sem : ℕ)
  | semUnlink (name : Option CString)
  | mqOpen (name : Option CString) (flags : BitVec 32) (attr : Option MqAttr) (memory : Bool)
  | mqClose (descriptor : Handle)
  | mqUnlink (name : Option CString)
  deriving DecidableEq

/-- The kernel, `named_semaphores` and `named_queues`, and where each task is in a call and what its last call has
returned. -/
structure Named where
  kernel : Kernel
  /-- the entries; `none` where `used` is 0 -/
  entry : NamedKind → ℕ → Option NamedEntry
  pending : TaskId → Option NamedPending
  result : TaskId → Option NamedResult

/-- A step. -/
inductive NamedAct where
  /-- A task calls a function and runs to the end of its first critical section. -/
  | call (t : TaskId) (c : NamedCall)
  /-- A task goes on in a call. -/
  | goOn (t : TaskId)
  /-- The rest of the system changes the kernel. -/
  | other (f : Kernel → Kernel)

/-- `POSIX_SEM_NAME_MAX`, `POSIX_MQ_NAME_MAX` -/
def posixNameMax : ℕ := 31

/-- A name that starts with a slash, goes on after it and is not too long. -/
def CString.isPosixName (name : CString) : Bool :=
  match name.val with
  | 47 :: _ :: _ => name.val.length ≤ posixNameMax
  | _ => false

namespace Named

variable [cfg : Config]

omit cfg in
/-- Before any call. -/
def init (k : Kernel) : Named where
  kernel := k
  entry := fun _ _ => none
  pending := fun _ => none
  result := fun _ => none

omit cfg in
/-- Store an entry, or clear it. -/
def setEntry (s : Named) (kind : NamedKind) (i : ℕ) (e : Option NamedEntry) : Named :=
  { s with entry := Function.update s.entry kind (Function.update (s.entry kind) i e) }

/-- The loop of `find_name`, `find_descriptor`: the first used entry that passes a test. -/
def findEntry (s : Named) (kind : NamedKind) (p : NamedEntry → Bool) : Option (ℕ × NamedEntry) :=
  (List.range (cfg.maxCount kind.objKind)).findSome? fun i => ((s.entry kind i).filter p).map fun e => (i, e)

/-- `find_name` -/
def findName (s : Named) (kind : NamedKind) (name : CString) : Option (ℕ × NamedEntry) :=
  s.findEntry kind fun e => !e.unlinked && decide (e.name = name)

/-- `find_pointer` -/
def findPointer (s : Named) (sem : ℕ) : Option (ℕ × NamedEntry) :=
  if sem < cfg.maxCount .sem then (s.entry .sem sem).map fun e => (sem, e) else none

/-- `find_descriptor` -/
def findDescriptor (s : Named) (descriptor : Handle) : Option (ℕ × NamedEntry) :=
  s.findEntry .mq fun e => decide (e.native = descriptor)

/-- `find_free_entry` -/
def findFreeEntry (s : Named) (kind : NamedKind) : Option ℕ :=
  (List.range (cfg.maxCount kind.objKind)).find? fun i => (s.entry kind i).isNone

omit cfg in
/-- A function returns with an error. -/
def fail (s : Named) (errno : Posix.Errno) : Named × (NamedResult ⊕ NamedPending) := (s, .inl (.failed errno))

/-- What an open returns for entry `i`. -/
def descOf (kind : NamedKind) (i : ℕ) (native : Handle) : NamedDesc :=
  match kind with
  | .sem => .semaphore i
  | .mq => .descriptor native

/-- The critical section of an open. `refusal` is the error that only a call that creates an object can get. -/
def openNamed (s : Named) (kind : NamedKind) (name : CString) (flags : BitVec 32) (refusal : Option Posix.Errno)
    (create : Kernel → Kernel × Outcome) : Named × (NamedResult ⊕ NamedPending) :=
  match s.findName kind name with
  | some (i, e) =>
    if flags &&& (oCreat ||| oExcl) = oCreat ||| oExcl then s.fail Posix.Errno.exist
    else if e.references = 0xFFFF then s.fail Posix.Errno.mfile
    else (s.setEntry kind i (some { e with references := e.references + 1 }), .inl (.opened (descOf kind i e.native)))
  | none =>
    if flags &&& oCreat = 0 then s.fail Posix.Errno.noent
    else match refusal, s.findFreeEntry kind with
      | some errno, _ => s.fail errno
      | none, none => s.fail Posix.Errno.nospc
      | none, some i =>
        match create s.kernel with
        | (k, .ret (.handle (some native))) =>
          let e := { name := name.copy posixNameMax, native, references := 1, unlinked := false }
          ({ s with kernel := k }.setEntry kind i (some e), .inl (.opened (descOf kind i native)))
        | (k, _) => { s with kernel := k }.fail Posix.Errno.again

/-- `aixos_posix_sem_open_named` -/
def semOpenNamed (s : Named) (name : Option CString) (flags : BitVec 32) (value : ℕ) : Named × (NamedResult ⊕ NamedPending) :=
  match name with
  | none => s.fail Posix.Errno.inval
  | some name =>
    if !name.isPosixName || decide (semMaxCount < value) then s.fail Posix.Errno.inval
    else s.openNamed .sem name flags none fun k => k.semCreate value

/-- `aixos_posix_mq_open_named` -/
def mqOpenNamed (s : Named) (name : Option CString) (flags : BitVec 32) (attr : Option MqAttr) (memory : Bool) :
    Named × (NamedResult ⊕ NamedPending) :=
  match name with
  | none => s.fail (if flags &&& oNonblock ≠ 0 then Posix.Errno.notsup else Posix.Errno.inval)
  | some name =>
    if !name.isPosixName || decide (flags &&& oNonblock ≠ 0) then
      s.fail (if flags &&& oNonblock ≠ 0 then Posix.Errno.notsup else Posix.Errno.inval)
    else match attr with
      | none => s.openNamed .mq name flags (some Posix.Errno.inval) fun k => (k, .ret (.handle none))
      | some a =>
        s.openNamed .mq name flags (if a.maxmsg ≤ 0 ∨ a.msgsize ≤ 0 then some Posix.Errno.inval else none) fun k =>
          k.mqCreate a.maxmsg.toNat a.msgsize.toNat false memory

omit cfg in
/-- The first critical section of a close. -/
def closeNamed (s : Named) (kind : NamedKind) (found : Option (ℕ × NamedEntry)) (errno : Posix.Errno) :
    Named × (NamedResult ⊕ NamedPending) :=
  match found with
  | none => s.fail errno
  | some (i, e) =>
    if e.references = 0 then s.fail errno
    else
      let s := s.setEntry kind i (some { e with references := e.references - 1 })
      if e.references - 1 = 0 ∧ e.unlinked then (s, .inr { stage := .closeDelete, kind, index := i, native := e.native })
      else (s, .inl .ok)

/-- `aixos_posix_sem_close_named` -/
def semCloseNamed (s : Named) (sem : ℕ) : Named × (NamedResult ⊕ NamedPending) :=
  s.closeNamed .sem (s.findPointer sem) Posix.Errno.inval

/-- `aixos_posix_mq_close_named` -/
def mqCloseNamed (s : Named) (descriptor : Handle) : Named × (NamedResult ⊕ NamedPending) :=
  s.closeNamed .mq (s.findDescriptor descriptor) Posix.Errno.badf

/-- The first critical section of an unlink. -/
def unlinkNamed (s : Named) (kind : NamedKind) (name : Option CString) : Named × (NamedResult ⊕ NamedPending) :=
  match name with
  | none => s.fail Posix.Errno.inval
  | some name =>
    match s.findName kind name with
    | none => s.fail Posix.Errno.noent
    | some (i, e) =>
      let s := s.setEntry kind i (some { e with unlinked := true })
      if e.references = 0 then (s, .inr { stage := .unlinkDelete, kind, index := i, native := e.native })
      else (s, .inl .ok)

/-- `aixos_posix_sem_unlink_named` -/
def semUnlinkNamed (s : Named) (name : Option CString) : Named × (NamedResult ⊕ NamedPending) := s.unlinkNamed .sem name

/-- `aixos_posix_mq_unlink_named` -/
def mqUnlinkNamed (s : Named) (name : Option CString) : Named × (NamedResult ⊕ NamedPending) := s.unlinkNamed .mq name

/-- A call, up to the end of its first critical section. -/
def call (s : Named) : NamedCall → Named × (NamedResult ⊕ NamedPending)
  | .semOpen name flags value => s.semOpenNamed name flags value
  | .semClose sem => s.semCloseNamed sem
  | .semUnlink name => s.semUnlinkNamed name
  | .mqOpen name flags attr memory => s.mqOpenNamed name flags attr memory
  | .mqClose descriptor => s.mqCloseNamed descriptor
  | .mqUnlink name => s.mqUnlinkNamed name

/-- `aixos_sem_delete` or `aixos_mq_delete` -/
def nativeDelete (k : Kernel) : NamedKind → Handle → Kernel × Outcome
  | .sem, h => k.semDelete h
  | .mq, h => k.mqDelete h

/-- The rest of a close or an unlink, up to the end of the next critical section. -/
def goOn (s : Named) (p : NamedPending) : Named × (NamedResult ⊕ NamedPending) :=
  match p.stage with
  | .closeDelete =>
    let (k, r) := nativeDelete s.kernel p.kind p.native
    if r ≠ .ret (.code Code.ok) then ({ s with kernel := k }, .inr { p with stage := .closeUndo })
    else ({ s with kernel := k }, .inr { p with stage := .clear })
  | .closeUndo =>
    (s.setEntry p.kind p.index ((s.entry p.kind p.index).map fun e => { e with references := 1 }),
      .inl (.failed Posix.Errno.busy))
  | .unlinkDelete =>
    let (k, r) := nativeDelete s.kernel p.kind p.native
    if r ≠ .ret (.code Code.ok) then { s with kernel := k }.fail Posix.Errno.busy
    else ({ s with kernel := k }, .inr { p with stage := .clear })
  | .clear => (s.setEntry p.kind p.index none, .inl .ok)

omit cfg in
/-- A task has come to the end of a critical section. -/
def settle (t : TaskId) : Named × (NamedResult ⊕ NamedPending) → Named
  | (s, .inl r) => { s with pending := Function.update s.pending t none, result := Function.update s.result t (some r) }
  | (s, .inr p) => { s with pending := Function.update s.pending t (some p), result := Function.update s.result t none }

/-- One step. -/
def step (s : Named) : NamedAct → Option Named
  | .call t c => if s.pending t = none then some (settle t (s.call c)) else none
  | .goOn t => (s.pending t).map fun p => settle t (s.goOn p)
  | .other f => some { s with kernel := f s.kernel }

end Named

end Aixos
