import Aixos.Kernel.Sched
import Aixos.Library.OrderedQueue
import Mathlib.Data.Nat.Basic

/-!
# The core: tasks, waiting and inheritance

The part of the kernel every operation goes through: `task.c`, the current task and
the tick of `sched.c`, the reschedule requests of `isr.c`, the slots of `object.c` for
the objects tasks wait on, and priority inheritance from `mutex.c`.

## The model

A wait list, the timeout list and the mutexes a task holds are plain lists; a node is
linked exactly when its list has it. The ready structure keeps its pointers (`Sched`).
Functions follow the source statement by statement, `aixos_` dropped from their
names. Interrupts are disabled in each, so each is one step.

The inheritance walk `recompute_chain` calls itself with `depth + 1` and gives up at
`AIXOS_CFG_TASK_HANDLE_LIMIT`; here it takes what is left to that limit. The end of
`recompute_chain` only looks at waiters and stores nothing, so it is left out.
-/

namespace Aixos

open OrderedQueue

/-- A wait list of an object, or that of the timer service. -/
inductive WaitList where
  /-- `sem_pool[i].wait_list` -/
  | sem (i : ℕ)
  /-- `mutex_pool[i].wait_list` -/
  | mutex (i : ℕ)
  /-- `mq_pool[i].send_wait` -/
  | mqSend (i : ℕ)
  /-- `mq_pool[i].recv_wait` -/
  | mqRecv (i : ℕ)
  /-- `event_pool[i].wait_list` -/
  | event (i : ℕ)
  /-- `pipe_pool[i].read_wait` -/
  | pipeRead (i : ℕ)
  /-- `pipe_pool[i].write_wait` -/
  | pipeWrite (i : ℕ)
  /-- `service_waiters` -/
  | service
  deriving DecidableEq, Repr

/-- The object a wait list belongs to. -/
def WaitList.object : WaitList → Option (ObjKind × ℕ)
  | .sem i => some (.sem, i)
  | .mutex i => some (.mutex, i)
  | .mqSend i => some (.mq, i)
  | .mqRecv i => some (.mq, i)
  | .event i => some (.event, i)
  | .pipeRead i => some (.pipe, i)
  | .pipeWrite i => some (.pipe, i)
  | .service => none

/-- The wait lists of an object. -/
def objLists : ObjKind → ℕ → List WaitList
  | .sem, i => [.sem i]
  | .mutex, i => [.mutex i]
  | .mq, i => [.mqSend i, .mqRecv i]
  | .event, i => [.event i]
  | .pipe, i => [.pipeRead i, .pipeWrite i]

/-- What a task waits for: `wait_obj`, `wait_list` and `wait_type` in one, since the source
sets and clears the three together. -/
inductive Wait where
  /-- `(NULL, NULL, AIXOS_OBJ_UNUSED)`: a sleep -/
  | delay
  /-- `(self, NULL, AIXOS_OBJ_TASK)`: a notification -/
  | notify
  /-- an object, through one of its wait lists -/
  | list (l : WaitList)
  /-- `(pm, NULL, AIXOS_OBJ_CONNECTION)`: the reply to a pending message -/
  | msgSend (i : ℕ)
  /-- `(channel, NULL, AIXOS_OBJ_CHANNEL)`: a message on a channel -/
  | msgReceive (i : ℕ)
  deriving DecidableEq, Repr

/-- `tcb->wait_list` -/
def Wait.waitList : Wait → Option WaitList
  | .list l => some l
  | _ => none

/-- The fields of `aixos_tcb_t` that the core uses. -/
structure Tcb where
  /-- `priority` -/
  priority : ℕ := 0
  /-- `base_priority` -/
  basePriority : ℕ := 0
  /-- `state` -/
  state : TaskState := .stop
  /-- `wait_obj`, `wait_list`, `wait_type`; `none` when they are null and unused -/
  wait : Option Wait := none
  /-- `wait_result` -/
  waitResult : Code := Code.ok
  /-- `wake_tick` -/
  wakeTick : Word := 0
  /-- `held_mutexes` -/
  heldMutexes : List ℕ := []
  /-- `time_slice` -/
  timeSlice : ℕ := 0
  /-- `domain == AIXOS_DOMAIN_USER` -/
  user : Bool := false

/-- The list `tcb->wait_list`, if any. -/
def Tcb.waitList (b : Tcb) : Option WaitList := b.wait.bind Wait.waitList

/-- READY or RUNNING. -/
def Tcb.isReady (b : Tcb) : Prop := b.state = .ready ∨ b.state = .running

instance (b : Tcb) : Decidable b.isReady := inferInstanceAs (Decidable (_ ∨ _))

/-- `wait_type == AIXOS_OBJ_MUTEX && wait_obj != NULL`, with the mutex. -/
def Tcb.waitMutex (b : Tcb) : Option ℕ :=
  match b.wait with
  | some (.list (.mutex m)) => some m
  | _ => none

/-- The fields of `aixos_mutex_t` besides its wait list. -/
structure Mutex where
  /-- `owner`; `none` is `AIXOS_HANDLE_INVALID` -/
  owner : Option TaskId := none
  /-- `lock_count` -/
  lockCount : ℕ := 0

/-- A slot of an object pool. -/
structure Slot where
  /-- `used` -/
  used : Bool := false
  /-- `generation`, 24 bits -/
  generation : ℕ := 0

/-- A handle of an object: the slot it names and the generation it was made for. -/
structure Handle where
  /-- `AIXOS_HANDLE_IDX` -/
  index : ℕ
  /-- `AIXOS_HANDLE_GEN` -/
  generation : ℕ
  deriving DecidableEq, Repr

/-- The generation of a slot when it is used again: 24 bits, never zero. -/
def nextGeneration (g : ℕ) : ℕ :=
  let g := (g + 1) % 2 ^ 24
  if g = 0 then 1 else g

/-- The state of the core. -/
structure Core where
  /-- The control blocks. -/
  tasks : TaskId → Tcb
  /-- `all_task_list` -/
  allTasks : List TaskId
  /-- The next control block to be made. -/
  nextTask : TaskId
  /-- The wait lists. -/
  waitLists : WaitList → List TaskId
  /-- `timeout_list` -/
  timeoutList : List TaskId
  /-- The ready structure. -/
  sched : Sched
  /-- `g_cur_task` -/
  cur : Option TaskId
  /-- `is_system_running` -/
  running : Bool
  /-- The slots of the pools. -/
  slots : ObjKind → ℕ → Slot
  /-- `mutex_pool` -/
  mutexes : ℕ → Mutex
  /-- `isr_nesting` -/
  isrNesting : ℕ
  /-- `scheduler_lock_nesting` -/
  schedLock : ℕ
  /-- `reschedule_pending` -/
  reschedulePending : Bool
  /-- A context switch has been requested from the processor and not yet taken. -/
  switchRequested : Bool
  /-- `total_ticks` -/
  totalTicks : BitVec 64

namespace Core

/-- The state after `aixos_object_init`, `aixos_sched_init` and `aixos_task_init`. -/
def init : Core where
  tasks := fun _ => {}
  allTasks := []
  nextTask := 0
  waitLists := fun _ => []
  timeoutList := []
  sched := .init
  cur := none
  running := false
  slots := fun _ _ => {}
  mutexes := fun _ => {}
  isrNesting := 0
  schedLock := 0
  reschedulePending := false
  switchRequested := false
  totalTicks := 0

/-- Store into the fields of one control block. -/
def setTask (c : Core) (t : TaskId) (f : Tcb → Tcb) : Core :=
  { c with tasks := Function.update c.tasks t (f (c.tasks t)) }

/-- `tcb->priority` -/
def priority (c : Core) (t : TaskId) : ℕ := (c.tasks t).priority

/-- `aixos_get_tick` -/
def getTick (c : Core) : Word := c.totalTicks.setWidth 32

/-- `aixos_in_isr` -/
def inIsr (c : Core) : Bool := c.isrNesting ≠ 0

/-- `aixos_sched_is_locked` -/
def schedIsLocked (c : Core) : Bool := c.schedLock ≠ 0

/-- The task is live: its slot is in use until it is deleted. -/
def Live (c : Core) (t : TaskId) : Prop := (c.tasks t).state ≠ .stop

instance (c : Core) (t : TaskId) : Decidable (c.Live t) := inferInstanceAs (Decidable (_ ≠ _))

/-- `aixos_tcb_from_handle` -/
def tcbFromHandle (c : Core) (h : Option TaskId) : Option TaskId := h.filter (c.Live ·)

/-! ### The processor and the ready structure -/

/-- `aixos_reschedule_request` -/
def rescheduleRequest (c : Core) : Core :=
  if c.inIsr || c.schedIsLocked then { c with reschedulePending := true }
  else { c with switchRequested := true }

variable [cfg : Config]

/-- `aixos_sched_add_task` -/
def schedAddTask (c : Core) (t : TaskId) : Core :=
  { c with sched := c.sched.addTask t (c.priority t) }

/-- `aixos_sched_remove_task` -/
def schedRemoveTask (c : Core) (t : TaskId) : Core :=
  { c with sched := c.sched.removeTask t (c.priority t) }

/-- `aixos_sched_requeue_task` -/
def schedRequeueTask (c : Core) (t : TaskId) (oldPriority : ℕ) : Core :=
  { c with sched := c.sched.requeueTask t oldPriority (c.priority t) }

/-- `aixos_sched_rotate_current` -/
def schedRotateCurrent (c : Core) : Core :=
  match c.cur with
  | none => c
  | some t => { c with sched := c.sched.rotate t (c.priority t) }

/-- `aixos_sched_request_preemption` -/
def schedRequestPreemption (c : Core) : Core :=
  match c.sched.findHighest with
  | none => c
  | some highest =>
    if c.cur = some highest then c
    else match c.cur with
      | none => c.rescheduleRequest
      | some t => if c.priority t < c.priority highest then c.rescheduleRequest else c

/-- `if (previous != NULL && previous->state == AIXOS_TASK_RUNNING) previous->state = READY` -/
def preempt (c : Core) : Core :=
  match c.cur with
  | none => c
  | some t =>
    c.setTask t fun b => if b.state = .running then { b with state := .ready } else b

/-- `aixos_schedule` -/
def schedule (c : Core) : Core :=
  match c.sched.findHighest with
  | none => { c.preempt with cur := none }
  | some t => { c.preempt with cur := some t }.setTask t fun b => { b with state := .running }

/-! ### Waiting and inheritance -/

/-- `task_wait_insert_priority`: behind the tasks of equal or higher priority. -/
def taskWaitInsertPriority (c : Core) (l : WaitList) (t : TaskId) : Core :=
  { c with waitLists := Function.update c.waitLists l (insertByKey c.priority t (c.waitLists l)) }

/-- `aixos_list_del(&tcb->wait_node); aixos_list_init(&tcb->wait_node)` -/
def waitUnlink (c : Core) (l : WaitList) (t : TaskId) : Core :=
  { c with waitLists := Function.update c.waitLists l ((c.waitLists l).erase t) }

/-- `aixos_task_waiter_priority_changed` -/
def taskWaiterPriorityChanged (c : Core) (t : TaskId) : Core :=
  match (c.tasks t).waitList with
  | none => c
  | some l => if t ∈ c.waitLists l then (c.waitUnlink l t).taskWaitInsertPriority l t else c

/-- `task_effective_priority`: the loop over the mutexes held looks at the first waiter of each. -/
def taskEffectivePriority (c : Core) (t : TaskId) : ℕ :=
  (c.tasks t).heldMutexes.foldl (fun p m =>
    match c.waitLists (.mutex m) with
    | [] => p
    | w :: _ => if p < c.priority w then c.priority w else p) (c.tasks t).basePriority

/-- One round of `recompute_chain`: give `t` its effective priority. -/
def recomputeOne (c : Core) (t : TaskId) : Core :=
  let old := c.priority t
  let new := c.taskEffectivePriority t
  if new = old then c
  else
    let c := (c.setTask t fun b => { b with priority := new }).schedRequeueTask t old
    if (c.tasks t).waitMutex.isSome then c.taskWaiterPriorityChanged t else c

/-- Where `recompute_chain` goes on: the owner of the mutex that `t` waits for. -/
def chainNext (c : Core) (t : TaskId) : Option TaskId :=
  match (c.tasks t).waitMutex with
  | none => none
  | some m => (c.tcbFromHandle (c.mutexes m).owner).filter (· ≠ t)

/-- `recompute_chain`, with `n` levels of recursion left. -/
def recomputeChain : ℕ → Core → Option TaskId → Core
  | 0, c, _ => c
  | _ + 1, c, none => c
  | n + 1, c, some t => recomputeChain n (c.recomputeOne t) (c.chainNext t)

/-- `recompute_chain(tcb, 0U)` -/
def recompute (c : Core) (t : Option TaskId) : Core := recomputeChain taskHandleLimit c t

/-- `aixos_mutex_waiter_added` and `aixos_mutex_waiter_removed`, which are the same: the owner
of the mutex that `t` waits for is recomputed. -/
def mutexWaiterChanged (c : Core) (t : TaskId) : Core :=
  match (c.tasks t).waitMutex with
  | none => c
  | some m => c.recompute (c.tcbFromHandle (c.mutexes m).owner)

/-- `aixos_mutex_task_priority_changed` -/
def mutexTaskPriorityChanged (c : Core) (t : TaskId) : Core :=
  let c := c.taskWaiterPriorityChanged t
  let c := match (c.tasks t).waitMutex with
    | none => c
    | some m =>
      if t ∈ c.waitLists (.mutex m) then c.recompute (c.tcbFromHandle (c.mutexes m).owner) else c
  c.recompute (some t)

/-- `timeout_insert` -/
def timeoutInsert (c : Core) (t : TaskId) : Core :=
  { c with timeoutList :=
      insertBefore (fun u => ((c.tasks t).wakeTick - (c.tasks u).wakeTick).msb) t c.timeoutList }

/-- The part of `task_detach_wait_locked` that takes the task off its wait list. -/
def detachWaitNode (c : Core) (t : TaskId) : Core :=
  match (c.tasks t).waitList with
  | none => c
  | some l => if t ∈ c.waitLists l then (c.waitUnlink l t).mutexWaiterChanged t else c

/-- `task_detach_wait_locked` -/
def taskDetachWaitLocked (c : Core) (t : TaskId) (result : Code) : Core :=
  let c := c.detachWaitNode t
  { c with timeoutList := c.timeoutList.erase t }.setTask t fun b =>
    { b with wait := none, waitResult := result }

/-- `aixos_task_wake` -/
def taskWake (c : Core) (t : TaskId) (result : Code) : Core :=
  if (c.tasks t).state = .blocked ∨ (c.tasks t).state = .delayed then
    let c := (c.taskDetachWaitLocked t result).setTask t fun b => { b with state := .ready }
    (c.schedAddTask t).schedRequestPreemption
  else c

/-- The body of `aixos_task_block_current`, once the current task may block. -/
def blockTask (c : Core) (t : TaskId) (w : Wait) (timeoutMs : Word) : Core :=
  let c := c.setTask t fun b =>
    { b with
      state := if w = .delay then .delayed else .blocked, wait := some w, waitResult := Code.ok }
  let c := c.schedRemoveTask t
  let c := match w.waitList with
    | none => c
    | some l => c.taskWaitInsertPriority l t
  let c := c.mutexWaiterChanged t
  let c :=
    if msToTicks timeoutMs = forever then c
    else (c.setTask t fun b => { b with wakeTick := c.getTick + msToTicks timeoutMs }).timeoutInsert t
  c.rescheduleRequest

/-- `aixos_task_block_current`, up to the point where it returns `wait_result`. -/
def taskBlockCurrent (c : Core) (w : Wait) (timeoutMs : Word) : Except Code Core :=
  match c.cur with
  | none => .error Code.context
  | some t =>
    if c.inIsr then .error Code.context
    else if c.schedIsLocked then .error Code.locked
    else .ok (c.blockTask t w timeoutMs)

/-! ### Time -/

/-- The loop of `aixos_task_tick` over the timeout list. -/
def taskTickLoop (now : Word) : Core → List TaskId → Core
  | c, [] => c
  | c, t :: ts =>
    if tickReached now (c.tasks t).wakeTick then
      taskTickLoop now
        (c.taskWake t (if (c.tasks t).state = .delayed then Code.ok else Code.timeout)) ts
    else c

/-- `aixos_task_tick` -/
def taskTick (c : Core) (now : Word) : Core := taskTickLoop now c c.timeoutList

/-- The end of `aixos_timer_tick`: the timer service is woken when a timer is pending. -/
def timerServiceWake (c : Core) (pending : Bool) : Core :=
  match pending, c.waitLists .service with
  | true, t :: _ => c.taskWake t Code.ok
  | _, _ => c

/-- `total_ticks++` and the time slice of the current task. -/
def countTick (c : Core) : Core :=
  let c := { c with totalTicks := c.totalTicks + 1 }
  match c.cur with
  | none => c
  | some t => c.setTask t fun b => { b with timeSlice := b.timeSlice - 1 }

/-- The end of `aixos_tick_handler`: a task that has used up its slice goes behind its equals. -/
def sliceExpire (c : Core) : Core :=
  match c.cur with
  | none => c
  | some t =>
    if (c.tasks t).timeSlice = 0 then
      (c.setTask t fun b => { b with timeSlice := cfg.timeSliceTicks }).schedRotateCurrent.rescheduleRequest
    else c

/-- `aixos_tick_handler`. Whether a software timer is pending is up to `timer.c`, which is
not part of this model. -/
def tickHandler (c : Core) (timerPending : Bool) : Core :=
  let c := c.countTick
  ((c.taskTick c.getTick).timerServiceWake timerPending).sliceExpire

/-! ### Tasks -/

/-- The arguments of the functions that create a task. -/
structure CreateArgs where
  /-- `entry != NULL` -/
  hasEntry : Bool := true
  /-- `stack`, when the caller provides one -/
  stack : Option ℕ := none
  /-- `stack_size` -/
  stackSize : ℕ
  /-- `priority` -/
  priority : ℤ
  /-- `user_task` -/
  userTask : Bool := false
  /-- Whether the heap gives what is asked of it: control block, stack and a page of slots. -/
  memory : Bool := true

/-- `(stack_size & (stack_size - 1U)) == 0U` and `stack & (stack_size - 1U)` -/
def CreateArgs.valid (a : CreateArgs) : Bool :=
  a.hasEntry && decide (0 ≤ a.priority) && decide (a.priority < cfg.maxPriority) &&
    (!a.userTask ||
      decide (cfg.mpuMinRegionSize ≤ a.stackSize) && decide (a.stackSize &&& (a.stackSize - 1) = 0)) &&
    decide (cfg.minTaskStackSize ≤ a.stackSize) &&
    (!a.userTask || a.stack.all fun s => decide (s &&& (a.stackSize - 1) = 0))

/-- The control block of a new task. -/
def newTcb (a : CreateArgs) : Tcb where
  priority := a.priority.toNat
  basePriority := a.priority.toNat
  state := .ready
  timeSlice := cfg.timeSliceTicks
  user := a.userTask

/-- `task_create_common`, called with `system_task == 0` by every function that creates a task. -/
def taskCreateCommon (c : Core) (a : CreateArgs) : Core × Option TaskId :=
  if c.inIsr || !a.valid || decide (taskHandleLimit ≤ c.allTasks.length) ||
      (!c.running && decide (taskHandleLimit - cfg.systemTasksReserved ≤ c.allTasks.length)) ||
      !a.memory then (c, none)
  else
    let t := c.nextTask
    let c := { c with
      tasks := Function.update c.tasks t (newTcb a)
      sched := c.sched.initNode t
      allTasks := c.allTasks ++ [t]
      nextTask := t + 1 }
    (if c.running then c.schedAddTask t else c, some t)

/-- What `aixos_task_delete` does before it returns, or waits to be switched away. -/
def deleteTask (c : Core) (t : TaskId) : Core :=
  let c := (c.schedRemoveTask t).taskDetachWaitLocked t Code.intr
  let c := { c with allTasks := c.allTasks.erase t }.setTask t fun b => { b with state := .stop }
  if c.cur = some t then c.rescheduleRequest else c

/-- `aixos_task_delete`: the error, or the new state and whether the caller is gone. -/
def taskDelete (c : Core) (t : TaskId) : Except Code (Core × Bool) :=
  if ¬ c.Live t then .error Code.inval
  else if (c.tasks t).heldMutexes ≠ [] then .error Code.busy
  else if c.cur = some t ∧ c.schedIsLocked then .error Code.locked
  else .ok (c.deleteTask t, c.cur = some t)

/-- What `aixos_task_suspend` does to a task that may be suspended. -/
def suspendTask (c : Core) (t : TaskId) : Core :=
  let waiting := (c.tasks t).state = .blocked ∨ (c.tasks t).state = .delayed
  let c := c.schedRemoveTask t
  let c := if waiting then c.taskDetachWaitLocked t Code.intr else c
  let c := c.setTask t fun b => { b with state := .suspended }
  if c.cur = some t then c.rescheduleRequest else c

/-- `aixos_task_suspend` -/
def taskSuspend (c : Core) (t : TaskId) : Core × Code :=
  if c.inIsr then (c, Code.context)
  else if (c.tasks t).state = .stop ∨ (c.tasks t).state = .suspended then (c, Code.inval)
  else if c.cur = some t ∧ c.schedIsLocked then (c, Code.locked)
  else (c.suspendTask t, Code.ok)

/-- What `aixos_task_resume` does to a suspended task. -/
def resumeTask (c : Core) (t : TaskId) : Core :=
  ((c.setTask t fun b => { b with state := .ready }).schedAddTask t).schedRequestPreemption

/-- `aixos_task_resume` -/
def taskResume (c : Core) (t : TaskId) : Core × Code :=
  if c.inIsr then (c, Code.context)
  else if (c.tasks t).state ≠ .suspended then (c, Code.inval)
  else (c.resumeTask t, Code.ok)

/-- What `aixos_task_set_priority` does once its arguments have been checked. -/
def setPriorityTask (c : Core) (t : TaskId) (priority : ℕ) : Core :=
  let old := c.priority t
  let c := c.setTask t fun b => { b with basePriority := priority, priority := priority }
  ((c.schedRequeueTask t old).mutexTaskPriorityChanged t).schedRequestPreemption

/-- `aixos_task_set_priority` -/
def taskSetPriority (c : Core) (t : TaskId) (priority : ℤ) : Core × Code :=
  if priority < 0 ∨ (cfg.maxPriority : ℤ) ≤ priority then (c, Code.inval)
  else if ¬ c.Live t then (c, Code.inval)
  else (c.setPriorityTask t priority.toNat, Code.ok)

/-- The loop of `aixos_start` over all tasks. -/
def addReadyTasks : Core → List TaskId → Core
  | c, [] => c
  | c, t :: ts => addReadyTasks (if (c.tasks t).state = .ready then c.schedAddTask t else c) ts

/-- The arguments `aixos_start` creates the idle task with. -/
def idleArgs (memory : Bool) : CreateArgs where
  stackSize := cfg.idleStackSize * 4
  priority := idlePriority
  memory := memory

/-- The arguments `aixos_timer_service_start` creates the timer task with. -/
def timerArgs (memory : Bool) : CreateArgs where
  stackSize := cfg.timerStackSize
  priority := cfg.timerTaskPriority
  memory := memory

/-- `aixos_start`, up to the first task; nothing if it cannot create the system tasks, since
it loops forever then. -/
def start (c : Core) (memory : Bool) : Option Core :=
  let c := { c with running := false }
  match c.taskCreateCommon (idleArgs memory) with
  | (_, none) => none
  | (c, some _) =>
    match c.taskCreateCommon (timerArgs memory) with
    | (_, none) => none
    | (c, some _) =>
      let c := c.addReadyTasks c.allTasks
      some { c with running := true }.schedule

/-! ### Interrupts and the scheduler lock -/

/-- `aixos_isr_enter` -/
def isrEnter (c : Core) : Core := { c with isrNesting := c.isrNesting + 1 }

/-- `aixos_isr_exit` -/
def isrExit (c : Core) : Core :=
  if c.isrNesting = 0 then c
  else
    let c := { c with isrNesting := c.isrNesting - 1 }
    if c.isrNesting = 0 ∧ c.schedLock = 0 ∧ c.reschedulePending then
      { c with reschedulePending := false, switchRequested := true }
    else c

/-- `aixos_sched_lock` -/
def schedLockTask (c : Core) : Core × Code :=
  if c.inIsr then (c, Code.context) else ({ c with schedLock := c.schedLock + 1 }, Code.ok)

/-- `aixos_sched_unlock` -/
def schedUnlockTask (c : Core) : Core × Code :=
  if c.inIsr then (c, Code.context)
  else if c.schedLock = 0 then (c, Code.inval)
  else
    let c := { c with schedLock := c.schedLock - 1 }
    if c.schedLock = 0 ∧ c.reschedulePending then
      ({ c with reschedulePending := false, switchRequested := true }, Code.ok)
    else (c, Code.ok)

/-- The switch itself: the handler of the request saves the task and calls `aixos_schedule`. -/
def contextSwitch (c : Core) : Core := { c with switchRequested := false }.schedule

/-! ### Object slots -/

/-- The slot that the next object of a kind is given. -/
def freeSlot (c : Core) (k : ObjKind) : Option ℕ :=
  (List.range (cfg.maxCount k)).find? fun i => !(c.slots k i).used

/-- `aixos_slot_alloc` and `aixos_slot_handle`. The source looks for a free entry of the pool and
for a free slot, both from the start; the two are used and freed together, so they agree. -/
def slotAlloc (c : Core) (k : ObjKind) (i : ℕ) : Core × Handle :=
  let g := nextGeneration (c.slots k i).generation
  let c := { c with
    slots := Function.update c.slots k (Function.update (c.slots k) i { used := true, generation := g })
    waitLists := fun l => if l ∈ objLists k i then [] else c.waitLists l }
  (c, { index := i, generation := g })

/-- `aixos_slot_free` -/
def slotFree (c : Core) (k : ObjKind) (i : ℕ) : Core :=
  { c with
    slots := Function.update c.slots k
      (Function.update (c.slots k) i { c.slots k i with used := false }) }

/-- `aixos_obj_from_handle` -/
def objFromHandle (c : Core) (k : ObjKind) (h : Handle) : Option ℕ :=
  if h.index < cfg.maxCount k ∧ (c.slots k h.index).used ∧
      (c.slots k h.index).generation = h.generation then some h.index
  else none

/-! ### Mutexes -/

/-- Store into the fields of one mutex. -/
def setMutex (c : Core) (m : ℕ) (f : Mutex → Mutex) : Core :=
  { c with mutexes := Function.update c.mutexes m (f (c.mutexes m)) }

/-- `aixos_mutex_lock` of a free mutex. -/
def mutexAcquire (c : Core) (m : ℕ) (t : TaskId) : Core :=
  (c.setMutex m fun _ => { owner := some t, lockCount := 1 }).setTask t fun b =>
    { b with heldMutexes := b.heldMutexes ++ [m] }

/-- The last unlock of a mutex by its owner: it goes to the first waiter, if any, and the
owner loses what it inherited through it. -/
def mutexRelease (c : Core) (m : ℕ) (self : TaskId) : Core :=
  let c := c.setTask self fun b => { b with heldMutexes := b.heldMutexes.erase m }
  let c := match c.waitLists (.mutex m) with
    | next :: _ => (c.mutexAcquire m next).taskWake next Code.ok
    | [] => c.setMutex m fun b => { b with owner := none, lockCount := 0 }
  c.recompute (some self)

/-- What `aixos_mutex_delete` does to a mutex nobody waits for. -/
def mutexDestroy (c : Core) (m : ℕ) : Core :=
  let c := match c.tcbFromHandle (c.mutexes m).owner with
    | none => c
    | some o =>
      if m ∈ (c.tasks o).heldMutexes then
        (c.setTask o fun b => { b with heldMutexes := b.heldMutexes.erase m }).recompute (some o)
      else c
  (c.slotFree .mutex m).setMutex m fun _ => {}

end Core

end Aixos
