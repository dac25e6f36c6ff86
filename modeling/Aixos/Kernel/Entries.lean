import Aixos.Kernel.Object

/-!
# Creating and deleting objects

`aixos_sem_create`, `aixos_mutex_create`, … keep their objects in an array, in which an entry whose `handle` is 0 is
free; `task_create_common` takes the control block it is given, or one from the heap.

* `Entries` — the pools, and the handles in those arrays.
* `Entries.create`, `Entries.delete` — the part that all these functions share.
-/

namespace Aixos

/-- The pools, and the field `handle` of `sem_pool`, `mutex_pool`, … -/
structure Entries where
  /-- the variables of `object.c`; an object is its place in the array, or the address of the control block -/
  objects : Objects ℕ
  /-- `sem_pool[i].handle`, `mutex_pool[i].handle`, … -/
  handle : PoolId → ℕ → BitVec 32

/-- The arguments of a function that creates an object, as far as they decide about its handle. -/
structure CreateCall where
  /-- which function -/
  pool : PoolId
  /-- the arguments are valid, it is not an interrupt, and there is memory for what belongs to the object -/
  accepted : Bool
  /-- the control block of a task -/
  tcb : ℕ
  /-- there is memory for a page of task slots -/
  memory : Bool

/-- What the kernel does with its objects. -/
inductive EntryOp where
  | create (x : CreateCall)
  /-- deletion of an object that nobody waits for -/
  | delete (p : PoolId) (h : BitVec 32)

variable [cfg : Config] [ocfg : ObjectConfig]

namespace Entries

/-- Before anything is created. -/
def init : Entries where
  objects := .init
  handle := fun _ _ => 0

omit cfg ocfg in
/-- Store the handle of an entry. -/
def setHandle (e : Entries) (p : PoolId) (i : ℕ) (h : BitVec 32) : Entries :=
  { e with handle := Function.update e.handle p (Function.update (e.handle p) i h) }

/-- `for (i = 0; i < AIXOS_CFG_MAX_SEM; i++) if (sem_pool[i].handle == 0) break;` -/
def freeEntry (e : Entries) (p : PoolId) : Option ℕ := (List.range p.maxCount).find? fun i => e.handle p i = 0

/-- `task_create_common`, or `aixos_sem_create` and the like, and the handle that it returns. -/
def create (e : Entries) (x : CreateCall) : Entries × BitVec 32 :=
  if !x.accepted then (e, handleInvalid)
  else if x.pool = .task then
    match e.objects.slotAlloc .task x.tcb x.memory with
    | (o, none) => ({ e with objects := o }, handleInvalid)
    | (o, some slot) => ({ e with objects := o }, o.slotHandle .task slot)
  else
    match e.freeEntry x.pool with
    | none => (e, handleInvalid)
    | some i =>
      match e.objects.slotAlloc x.pool i x.memory with
      | (o, none) => ({ e with objects := o }, handleInvalid)
      | (o, some slot) =>
        let h := o.slotHandle x.pool slot
        ({ e with objects := o }.setHandle x.pool i h, h)

/-- `aixos_sem_delete` and the like: `aixos_slot_free`, and `memset` on the entry. -/
def delete (e : Entries) (p : PoolId) (h : BitVec 32) : Entries :=
  match e.objects.objFromHandle h p.objType with
  | none => e
  | some i =>
    let e := { e with objects := e.objects.slotFree p (handleIdx h) }
    if p = .task then e else e.setHandle p i 0

/-- One step. -/
def step (e : Entries) : EntryOp → Option Entries
  | .create x => some (e.create x).1
  | .delete p h => some (e.delete p h)

end Entries

end Aixos
