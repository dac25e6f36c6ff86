import Aixos.Kernel.Microkernel
import Aixos.Objects.StaleHandles

/-!
# Capabilities of semaphores and queues

The system calls of `microkernel.c` on semaphores and message queues, with capabilities that store handles of 32 bits,
on the pools of `object.c`, `sem_pool` and `mq_pool`.

* `Grants` — the pools, the objects and the capability tables.
* `ObjectCall`, `Grants.dispatch` — the system calls.
* `Grants.step` — these, and what kernel tasks and interrupts do with the objects.

What a call does to the object that it finds is part of the action: any change of what the object holds, and any result.
The reasons why an object is not created or not deleted, other than the pools and the tables, are too.
-/

namespace Aixos

/-- One of the objects that a slot has held: the number of allocations of the slot, with the one that made it. -/
structure Incarnation where
  pool : PoolId
  slot : ℕ
  allocs : ℕ
  deriving DecidableEq

/-- An entry of `capabilities` that is used. -/
structure CapEntry where
  /-- `object` -/
  object : BitVec 32
  /-- `type` -/
  type : ObjType
  /-- `rights` -/
  rights : Rights
  /-- What it was granted for, if that is in a pool; this is not in the source. -/
  granted : Option Incarnation
  deriving DecidableEq

/-- An entry of `sem_pool` or `mq_pool`. -/
structure PoolEntry (σ : Type) where
  /-- `handle`, 0 if the entry is free -/
  handle : BitVec 32
  /-- the other fields -/
  content : σ
  deriving DecidableEq

/-- The pools, the objects and the capability tables. -/
structure Grants (σ : Type) where
  /-- `object.c`; a slot points to an entry of `sem_pool` or `mq_pool` -/
  history : History ℕ
  /-- `sem_pool` and `mq_pool` -/
  entries : PoolId → ℕ → PoolEntry σ
  /-- `tcb->capabilities`; `none` where `used` is 0 -/
  capabilities : TaskId → ℕ → Option CapEntry

/-- The system calls on semaphores and queues. -/
inductive ObjectCall (σ : Type) where
  /-- The content of the new semaphore; none if the count is refused. -/
  | semCreate (content : Option σ)
  | semWait (cap : ℤ) (effect : σ → σ × Code)
  | semPost (cap : ℤ) (effect : σ → σ × Code)
  | semDelete (cap : ℤ) (busy : Bool)
  /-- The content of the new queue; none if the sizes are refused or there is no memory. -/
  | mqCreate (content : Option σ)
  /-- `refused`: the result, if the size or the address of the message is refused. -/
  | mqSend (cap : ℤ) (refused : Option Code) (effect : σ → σ × Code)
  | mqRecv (cap : ℤ) (refused : Option Code) (effect : σ → σ × Code)
  | mqDelete (cap : ℤ) (busy : Bool)
  | capClose (cap : ℤ)

/-- What happens. -/
inductive GrantAct (σ : Type) where
  /-- A system call, by a user task. -/
  | syscall (t : TaskId) (x : ObjectCall σ)
  /-- A kernel task creates a semaphore or a queue. -/
  | create (p : PoolId) (content : Option σ)
  /-- A kernel task or an interrupt handler calls a function with a handle. -/
  | operate (p : PoolId) (h : BitVec 32) (effect : σ → σ × Code)
  /-- A kernel task deletes a semaphore or a queue. -/
  | delete (p : PoolId) (h : BitVec 32) (busy : Bool)
  /-- `cap_grant_direct`, with the handle of an object that there is or was. -/
  | grantDirect (t : TaskId) (i : Incarnation) (rights : Rights)
  /-- `sc_channel_create` or `sc_connect` grants a capability. -/
  | grantIndex (t : TaskId) (type : ObjType) (index : ℕ) (rights : Rights)
  /-- A control block is cleared, for a new task. -/
  | clear (t : TaskId)

namespace Grants

variable {σ : Type} [cfg : Config] [ocfg : ObjectConfig]

/-- Before anything is created. -/
def init [Inhabited σ] : Grants σ where
  history := .init
  entries _ _ := { handle := 0, content := default }
  capabilities _ _ := none

omit cfg ocfg in
/-- Store an entry of `sem_pool` or `mq_pool`. -/
def setEntry (s : Grants σ) (p : PoolId) (k : ℕ) (x : PoolEntry σ) : Grants σ :=
  { s with entries := setAt s.entries p k x }

omit cfg ocfg in
/-- Store into an entry of `tcb->capabilities`. -/
def setCap (s : Grants σ) (t : TaskId) (c : ℕ) (x : Option CapEntry) : Grants σ :=
  { s with capabilities := Function.update s.capabilities t (Function.update (s.capabilities t) c x) }

/-! ### Capabilities -/

omit ocfg in
/-- `cap_grant` -/
def capGrant (s : Grants σ) (t : TaskId) (e : CapEntry) : Option (Grants σ × ℕ) :=
  match (List.range cfg.capsPerTask).find? fun c => (s.capabilities t c).isNone with
  | none => none
  | some c => some (s.setCap t c (some e), c)

omit ocfg in
/-- `cap_resolve` -/
def capResolve (s : Grants σ) (t : TaskId) (cap : ℤ) (type : ObjType) (rights : Rights) : Option (BitVec 32) :=
  if cap < 0 ∨ cfg.capsPerTask ≤ cap then none
  else match s.capabilities t cap.toNat with
    | none => none
    | some e => if e.type = type ∧ e.rights &&& rights = rights then some e.object else none

omit ocfg in
/-- `cap_close` -/
def capClose (s : Grants σ) (t : TaskId) (cap : ℤ) : Grants σ × Code :=
  if cap < 0 ∨ cfg.capsPerTask ≤ cap then (s, Code.perm)
  else match s.capabilities t cap.toNat with
    | none => (s, Code.perm)
    | some _ => (s.setCap t cap.toNat none, Code.ok)

/-! ### Objects -/

/-- `aixos_sem_create`, `aixos_mq_create`: the slot of the new object. -/
def objectCreate (s : Grants σ) (p : PoolId) (content : Option σ) : Grants σ × Option ℕ :=
  match content with
  | none => (s, none)
  | some x =>
    match (List.range p.maxCount).find? fun k => decide ((s.entries p k).handle = 0) with
    | none => (s, none)
    | some k =>
      let r := s.history.objects.slotAlloc p k true
      let s := { s with history := s.history.record p k r }
      match r.2 with
      | none => (s, none)
      | some i => (s.setEntry p k { handle := s.history.objects.slotHandle p i, content := x }, some i)

/-- `aixos_sem_wait`, `aixos_sem_post`, `aixos_mq_send` or `aixos_mq_recv` -/
def objectOperate (s : Grants σ) (p : PoolId) (h : BitVec 32) (effect : σ → σ × Code) : Grants σ × Code :=
  match s.history.objects.objFromHandle h p.objType with
  | none => (s, Code.inval)
  | some k =>
    let e := s.entries p k
    (s.setEntry p k { e with content := (effect e.content).1 }, (effect e.content).2)

/-- `aixos_sem_delete`, `aixos_mq_delete` -/
def objectDelete [Inhabited σ] (s : Grants σ) (p : PoolId) (h : BitVec 32) (busy : Bool) : Grants σ × Code :=
  match s.history.objects.objFromHandle h p.objType with
  | none => (s, Code.inval)
  | some k =>
    if busy then (s, Code.busy)
    else
      let i := handleIdx h
      ({ s with history := { s.history with
          objects := s.history.objects.slotFree p i
          live := setAt s.history.live p i none } }.setEntry p k { handle := 0, content := default }, Code.ok)

/-! ### System calls -/

/-- `sc_sem_create`, `sc_mq_create` -/
def scCreate [Inhabited σ] (s : Grants σ) (p : PoolId) (rights : Rights) (t : TaskId) (content : Option σ) :
    Grants σ × Code :=
  match s.objectCreate p content with
  | (s, none) => (s, Code.nomem)
  | (s, some i) =>
    let created := s.history.objects.slotHandle p i
    match s.capGrant t { object := created, type := p.objType, rights,
                         granted := some { pool := p, slot := i, allocs := s.history.allocs p i } } with
    | none => ((s.objectDelete p created false).1, Code.nomem)
    | some (s, c) => (s, c)

/-- `sc_sem_wait`, `sc_sem_post`, `sc_mq_send`, `sc_mq_recv` -/
def scOperate (s : Grants σ) (p : PoolId) (right : Rights) (t : TaskId) (cap : ℤ) (refused : Option Code)
    (effect : σ → σ × Code) : Grants σ × Code :=
  match s.capResolve t cap p.objType right with
  | none => (s, Code.perm)
  | some h =>
    match refused with
    | some r => (s, r)
    | none => s.objectOperate p h effect

/-- `sc_sem_delete`, `sc_mq_delete` -/
def scDelete [Inhabited σ] (s : Grants σ) (p : PoolId) (t : TaskId) (cap : ℤ) (busy : Bool) : Grants σ × Code :=
  match s.capResolve t cap p.objType capControl with
  | none => (s, Code.perm)
  | some h =>
    let r := s.objectDelete p h busy
    if r.2 = Code.ok then ((r.1.capClose t cap).1, r.2) else r

/-- `sc_sem_create` -/
def scSemCreate [Inhabited σ] (s : Grants σ) (t : TaskId) (content : Option σ) : Grants σ × Code :=
  s.scCreate .sem (capWait ||| capSignal ||| capControl) t content

/-- `sc_sem_wait` -/
def scSemWait (s : Grants σ) (t : TaskId) (cap : ℤ) (effect : σ → σ × Code) : Grants σ × Code :=
  s.scOperate .sem capWait t cap none effect

/-- `sc_sem_post` -/
def scSemPost (s : Grants σ) (t : TaskId) (cap : ℤ) (effect : σ → σ × Code) : Grants σ × Code :=
  s.scOperate .sem capSignal t cap none effect

/-- `sc_sem_delete` -/
def scSemDelete [Inhabited σ] (s : Grants σ) (t : TaskId) (cap : ℤ) (busy : Bool) : Grants σ × Code :=
  s.scDelete .sem t cap busy

/-- `sc_mq_create` -/
def scMqCreate [Inhabited σ] (s : Grants σ) (t : TaskId) (content : Option σ) : Grants σ × Code :=
  s.scCreate .mq (capRead ||| capWrite ||| capControl) t content

/-- `sc_mq_send` -/
def scMqSend (s : Grants σ) (t : TaskId) (cap : ℤ) (refused : Option Code) (effect : σ → σ × Code) : Grants σ × Code :=
  s.scOperate .mq capWrite t cap refused effect

/-- `sc_mq_recv` -/
def scMqRecv (s : Grants σ) (t : TaskId) (cap : ℤ) (refused : Option Code) (effect : σ → σ × Code) : Grants σ × Code :=
  s.scOperate .mq capRead t cap refused effect

/-- `sc_mq_delete` -/
def scMqDelete [Inhabited σ] (s : Grants σ) (t : TaskId) (cap : ℤ) (busy : Bool) : Grants σ × Code :=
  s.scDelete .mq t cap busy

/-- `aixos_syscall_dispatch`, called by user task `t` -/
def dispatch [Inhabited σ] (s : Grants σ) (t : TaskId) : ObjectCall σ → Grants σ × Code
  | .semCreate content => s.scSemCreate t content
  | .semWait cap effect => s.scSemWait t cap effect
  | .semPost cap effect => s.scSemPost t cap effect
  | .semDelete cap busy => s.scSemDelete t cap busy
  | .mqCreate content => s.scMqCreate t content
  | .mqSend cap refused effect => s.scMqSend t cap refused effect
  | .mqRecv cap refused effect => s.scMqRecv t cap refused effect
  | .mqDelete cap busy => s.scMqDelete t cap busy
  | .capClose cap => s.capClose t cap

/-- One step. -/
def step [Inhabited σ] (s : Grants σ) : GrantAct σ → Option (Grants σ)
  | .syscall t x => some (s.dispatch t x).1
  | .create p content => if p = .sem ∨ p = .mq then some (s.objectCreate p content).1 else none
  | .operate p h effect => some (s.objectOperate p h effect).1
  | .delete p h busy => some (s.objectDelete p h busy).1
  | .grantDirect t i rights =>
    if i.slot < i.pool.maxCount ∧ 0 < i.allocs ∧ i.allocs ≤ s.history.allocs i.pool i.slot then
      (s.capGrant t { object := handleMake i.slot (generationOf i.allocs), type := i.pool.objType, rights,
                      granted := some i }).map Prod.fst
    else none
  | .grantIndex t type index rights =>
    if type = .channel ∨ type = .connection then
      (s.capGrant t { object := BitVec.ofNat 32 index, type, rights, granted := none }).map Prod.fst
    else none
  | .clear t => some { s with capabilities := Function.update s.capabilities t fun _ => none }

end Grants

end Aixos
