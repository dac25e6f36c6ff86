import Aixos.Kernel.Sched
import Aixos.Library.OrderedQueue
import Mathlib.Data.Int.Order.Basic

/-!
# The two back ends of the scheduler

`sched.c` is compiled with one of two ready structures: an array of queues with a bitmap, or
one list in the order of priorities. What is around them is the same.

* `SchedSimple` — the ready structure of `AIXOS_CFG_SCHED_SIMPLE`.
* `Backend` — the functions that differ, for either.
* `Scheduler`, `Scheduler.step` — the rest of `sched.c`, over a back end.

A priority is an `int` here, of any value; the functions refuse what is out of range.
-/

namespace Aixos

open OrderedQueue

variable [cfg : Config]

/-- `priority < 0 || priority >= AIXOS_CFG_MAX_PRIORITY` -/
def OutOfRange (p : ℤ) : Prop := p < 0 ∨ (cfg.maxPriority : ℤ) ≤ p

instance (p : ℤ) : Decidable (OutOfRange p) := inferInstanceAs (Decidable (_ ∨ _))

/-! ### The single list -/

/-- `ready_list`, and the nodes that are in no list but not null. -/
structure SchedSimple where
  /-- The tasks linked in `ready_list`, from the first. -/
  readyList : List TaskId
  /-- The `ready_node` is linked to itself. -/
  selfLinked : TaskId → Bool

namespace SchedSimple

/-- `tcb->ready_node.next != NULL` -/
def linked (s : SchedSimple) (t : TaskId) : Bool := decide (t ∈ s.readyList) || s.selfLinked t

/-- The task of the node after that of `t`; none if that is the head of the list. -/
def next (s : SchedSimple) (t : TaskId) : Option TaskId :=
  if s.selfLinked t then some t
  else match s.readyList.dropWhile fun u => decide (u ≠ t) with
    | _ :: u :: _ => some u
    | _ => none

/-- `aixos_list_init(&tcb->ready_node)` -/
def initNode (s : SchedSimple) (t : TaskId) : SchedSimple :=
  { s with selfLinked := Function.update s.selfLinked t true }

/-- `aixos_list_del(&tcb->ready_node)` -/
def delete (s : SchedSimple) (t : TaskId) : SchedSimple where
  readyList := s.readyList.erase t
  selfLinked := Function.update s.selfLinked t false

/-- Link the node of `t` by putting it into the list. -/
def put (s : SchedSimple) (t : TaskId) (f : List TaskId → List TaskId) : SchedSimple where
  readyList := f s.readyList
  selfLinked := Function.update s.selfLinked t false

variable (priority : TaskId → ℤ)

/-- `sched_simple_insert` -/
def insert (s : SchedSimple) (t : TaskId) : SchedSimple := s.put t (insertByKey priority t)

/-- The loop of `sched_simple_insert_after_same_priority`: behind the last task of equal priority
before the first of a lower one, if there is any. -/
def afterSame (t : TaskId) : List TaskId → Option (List TaskId)
  | [] => none
  | queued :: l =>
    if priority queued = priority t then
      match afterSame t l with
      | none => some (queued :: t :: l)
      | some l => some (queued :: l)
    else if priority queued < priority t then none
    else (afterSame t l).map (queued :: ·)

/-- `sched_simple_insert_after_same_priority` -/
def insertAfterSamePriority (s : SchedSimple) (t : TaskId) : SchedSimple :=
  match afterSame priority t s.readyList with
  | some l => s.put t fun _ => l
  | none => s.insert priority t

/-- `aixos_sched_add_task` -/
def addTask (s : SchedSimple) (t : TaskId) : SchedSimple :=
  if OutOfRange (priority t) then s else s.insert priority t

/-- `aixos_sched_remove_task` -/
def removeTask (s : SchedSimple) (t : TaskId) : SchedSimple := if s.linked t then s.delete t else s

/-- `aixos_sched_requeue_task` -/
def requeueTask (s : SchedSimple) (t : TaskId) (oldPriority : ℤ) : SchedSimple :=
  if OutOfRange oldPriority then s
  else if s.linked t then (s.delete t).addTask priority t else s

/-- `aixos_sched_rotate_current`, for the current task. -/
def rotate (s : SchedSimple) (t : TaskId) : SchedSimple :=
  if s.linked t then
    match s.next t with
    | none => s
    | some next =>
      if priority next = priority t then (s.delete t).insertAfterSamePriority priority t else s
  else s

end SchedSimple

/-! ### The rest of the scheduler -/

/-- The functions of `sched.c` that the two configurations implement. -/
structure Backend (S : Type) where
  /-- `aixos_sched_init` -/
  init : S
  /-- `aixos_list_init(&tcb->ready_node)` -/
  initNode : S → TaskId → S
  /-- `aixos_sched_add_task` -/
  addTask : (TaskId → ℤ) → S → TaskId → S
  /-- `aixos_sched_remove_task` -/
  removeTask : (TaskId → ℤ) → S → TaskId → S
  /-- `aixos_sched_requeue_task` -/
  requeueTask : (TaskId → ℤ) → S → TaskId → ℤ → S
  /-- `aixos_sched_rotate_current`, for the current task -/
  rotate : (TaskId → ℤ) → S → TaskId → S
  /-- `sched_find_highest` -/
  findHighest : S → Option TaskId

/-- `AIXOS_CFG_SCHED_BITMAP` -/
def Backend.bitmap : Backend Sched where
  init := .init
  initNode := Sched.initNode
  addTask := fun priority s t => if OutOfRange (priority t) then s else s.addTask t (priority t).toNat
  removeTask := fun priority s t => s.removeTask t (priority t).toNat
  requeueTask := fun priority s t old =>
    if OutOfRange old then s
    else if s.links.next (.task t) = none then s
    else
      let s := { s with links := s.links.delete (.task t) }.unmarkIfEmpty old.toNat
      if OutOfRange (priority t) then s else s.addTask t (priority t).toNat
  rotate := fun priority s t => s.rotate t (priority t).toNat
  findHighest := Sched.findHighest

/-- `AIXOS_CFG_SCHED_SIMPLE` -/
def Backend.simple : Backend SchedSimple where
  init := { readyList := [], selfLinked := fun _ => false }
  initNode := SchedSimple.initNode
  addTask := SchedSimple.addTask
  removeTask := fun _ => SchedSimple.removeTask
  requeueTask := SchedSimple.requeueTask
  rotate := SchedSimple.rotate
  findHighest := fun s => s.readyList.head?

/-- The scheduler over a back end. -/
structure Scheduler (S : Type) where
  /-- The ready structure. -/
  ready : S
  /-- `tcb->priority` -/
  priority : TaskId → ℤ
  /-- `tcb->state` -/
  state : TaskId → TaskState
  /-- `g_cur_task` -/
  cur : Option TaskId

/-- What the kernel does with the scheduler. -/
inductive SchedOp where
  /-- A new control block, as `task_create_common` leaves it. -/
  | create (t : TaskId) (priority : ℤ)
  /-- `aixos_sched_add_task` -/
  | addTask (t : TaskId)
  /-- `aixos_sched_remove_task` -/
  | removeTask (t : TaskId)
  /-- `tcb->priority = priority`, followed by `aixos_sched_requeue_task` -/
  | setPriority (t : TaskId) (priority : ℤ)
  /-- `aixos_sched_rotate_current` -/
  | rotateCurrent
  /-- `aixos_schedule` -/
  | schedule

namespace Scheduler

variable {S : Type} (B : Backend S)

/-- Before any task is created. -/
def init : Scheduler S where
  ready := B.init
  priority := fun _ => 0
  state := fun _ => .stop
  cur := none

omit cfg in
/-- `if (previous != NULL && previous->state == AIXOS_TASK_RUNNING) previous->state = READY` -/
def preempt (s : Scheduler S) : TaskId → TaskState :=
  match s.cur with
  | none => s.state
  | some t => if s.state t = .running then Function.update s.state t .ready else s.state

/-- `aixos_schedule` -/
def schedule (s : Scheduler S) : Scheduler S :=
  match B.findHighest s.ready with
  | none => { s with state := s.preempt, cur := none }
  | some t => { s with state := Function.update s.preempt t .running, cur := some t }

/-- Run an operation. -/
def exec (s : Scheduler S) : SchedOp → Scheduler S
  | .create t p =>
    { s with
      ready := B.initNode s.ready t
      priority := Function.update s.priority t p
      state := Function.update s.state t .ready }
  | .addTask t => { s with ready := B.addTask s.priority s.ready t }
  | .removeTask t => { s with ready := B.removeTask s.priority s.ready t }
  | .setPriority t p =>
    let priority := Function.update s.priority t p
    { s with ready := B.requeueTask priority s.ready t (s.priority t), priority := priority }
  | .rotateCurrent =>
    match s.cur with
    | none => s
    | some t => { s with ready := B.rotate s.priority s.ready t }
  | .schedule => s.schedule B

/-- One step. -/
def step (s : Scheduler S) (o : SchedOp) : Option (Scheduler S) := some (s.exec B o)

end Scheduler

end Aixos
