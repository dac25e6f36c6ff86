import Aixos.Kernel.Core

/-!
# Kernel objects

Semaphores, mutexes, event groups, message queues, pipes and notifications: the files
of `kernel/ipc`, over the core.

## The model

`Kernel` adds to the core what the objects store. A call runs until it returns or
blocks. When it blocks it leaves a `Frame`: the function it is in and the local
variables it still needs, so that `resume` can go on from there once the task is
switched back in. A native task is resumed when the wait is over; how a trap handler
goes on is left to the caller of these functions.

Buffers are memory: `memcpy` is `load` and `store` on them.
-/

namespace Aixos

/-- `aixos_mq_t` without its wait lists. -/
structure Mq where
  /-- `buffer` -/
  buffer : ℕ → UInt8 := fun _ => 0
  /-- `lengths` -/
  lengths : ℕ → ℕ := fun _ => 0
  /-- `priorities`; a queue on static buffers has none -/
  priorities : Option (ℕ → ℕ) := none
  /-- `max_msgs` -/
  maxMsgs : ℕ := 0
  /-- `msg_size` -/
  msgSize : ℕ := 0
  /-- `head` -/
  head : ℕ := 0
  /-- `tail` -/
  tail : ℕ := 0
  /-- `count` -/
  count : ℕ := 0

/-- `aixos_pipe_t` without its wait lists. -/
structure Pipe where
  /-- `buffer` -/
  buffer : ℕ → UInt8 := fun _ => 0
  /-- `size` -/
  size : ℕ := 0
  /-- `head` -/
  head : ℕ := 0
  /-- `tail` -/
  tail : ℕ := 0
  /-- `count` -/
  count : ℕ := 0

/-- The fields of `aixos_tcb_t` that events and notifications use. -/
structure Pend where
  /-- `pend_mask` -/
  mask : Word := 0
  /-- `pend_mode` -/
  mode : BitVec 8 := 0
  /-- `pend_result` -/
  result : Word := 0
  /-- `notify_pending` -/
  notifyPending : Bool := false
  /-- `notify_value` -/
  notifyValue : Word := 0

/-- `aixos_notify_action_t` -/
inductive NotifyAction where
  /-- `AIXOS_NOTIFY_SET_BITS` -/
  | setBits
  /-- `AIXOS_NOTIFY_INCREMENT` -/
  | increment
  /-- `AIXOS_NOTIFY_OVERWRITE` -/
  | overwrite
  /-- `AIXOS_NOTIFY_NO_OVERWRITE` -/
  | noOverwrite
  deriving DecidableEq, Repr

/-- The core and what the objects store. -/
structure Kernel where
  /-- The core. -/
  core : Core
  /-- `sem_pool[i].count` -/
  semCount : ℕ → ℕ
  /-- `event_pool[i].flags` -/
  eventFlags : ℕ → Word
  /-- `mq_pool` -/
  mqs : ℕ → Mq
  /-- `pipe_pool` -/
  pipes : ℕ → Pipe
  /-- The event and notification fields of the control blocks. -/
  pend : TaskId → Pend

/-- What a call gives back: its result, and what it stores through its pointers. -/
inductive Ret where
  /-- an integer -/
  | code (r : Code)
  /-- `AIXOS_OK`, with `*matched` -/
  | matched (m : Word)
  /-- `AIXOS_OK`, with `*value` -/
  | value (v : Word)
  /-- `AIXOS_OK`, with the message, its length in `*size`, and `*priority` -/
  | received (bytes : List UInt8) (priority : ℕ)
  /-- `AIXOS_ERR_OVERFLOW`, with the length of the message in `*size` -/
  | tooLong (size : ℕ)
  /-- the number of bytes read, with the bytes -/
  | data (bytes : List UInt8)
  /-- the handle of a new object, or `AIXOS_HANDLE_INVALID` -/
  | handle (h : Option Handle)
  /-- the handle of a new task, or `AIXOS_HANDLE_INVALID` -/
  | task (t : Option TaskId)
  deriving DecidableEq

/-- The function a task is in, between two of its critical sections. -/
inductive Pending where
  /-- `return aixos_task_block_current(…)` -/
  | result
  /-- the loop of `aixos_event_wait` -/
  | eventWait (h : Handle) (mask : Word) (mode : BitVec 8) (startTick timeoutMs : Word)
  /-- the loop of `mq_send_common` -/
  | mqSend (h : Handle) (message : List UInt8) (priority : ℕ) (startTick timeoutMs : Word)
  /-- the loop of `aixos_mq_recv_priority` -/
  | mqRecv (h : Handle) (capacity : ℕ) (startTick timeoutMs : Word)
  /-- the loop of `pipe_write_common` -/
  | pipeWrite (h : Handle) (data : List UInt8) (startTick timeoutMs : Word)
  /-- the loop of `pipe_read_common` -/
  | pipeRead (h : Handle) (length : ℕ) (startTick timeoutMs : Word)
  /-- `aixos_task_notify_wait`, called with `take` from `aixos_task_notify_take` -/
  | notifyWait (clearOnExit : Word) (take : Option Bool)
  /-- the second critical section of `aixos_task_notify_take` -/
  | notifyTake (clearCount : Bool) (value : Word)
  /-- `for (;;)` -/
  | never
  deriving DecidableEq

/-- Where a task will go on, and the timeout it blocked with. -/
structure Frame where
  /-- The function it is in. -/
  pending : Pending
  /-- The argument `timeout_ms` of `aixos_task_block_current`. -/
  timeoutMs : Word
  deriving DecidableEq

/-- How a critical section ends. -/
inductive Outcome where
  /-- The function returns. -/
  | ret (r : Ret)
  /-- The function goes on later. -/
  | wait (f : Frame)
  /-- The function never returns. -/
  | noReturn
  deriving DecidableEq

/-- `memcpy(dst, &b[off], n)` -/
def load (b : ℕ → UInt8) (off n : ℕ) : List UInt8 := (List.range n).map fun i => b (off + i)

/-- `memcpy(&b[off], src, n)` -/
def store (b : ℕ → UInt8) (off : ℕ) (src : List UInt8) : ℕ → UInt8 := fun a =>
  if off ≤ a ∧ a < off + src.length then src.getD (a - off) 0 else b a

namespace Kernel

variable [cfg : Config]

/-- Before anything is created. -/
def init : Kernel where
  core := .init
  semCount := fun _ => 0
  eventFlags := fun _ => 0
  mqs := fun _ => {}
  pipes := fun _ => {}
  pend := fun _ => {}

omit cfg in
/-- Return an integer. -/
def code (k : Kernel) (r : Code) : Kernel × Outcome := (k, .ret (.code r))

omit cfg in
/-- A function that only uses the core and returns its result. -/
def coreCall (k : Kernel) (x : Core × Code) : Kernel × Outcome := ({ k with core := x.1 }, .ret (.code x.2))

/-- `aixos_task_block_current(…)`; the function goes on with `p` when it returns. -/
def block (k : Kernel) (w : Wait) (timeoutMs : Word) (p : Pending) : Kernel × Outcome :=
  match k.core.taskBlockCurrent w timeoutMs with
  | .error e => k.code e
  | .ok c => ({ k with core := c }, .wait { pending := p, timeoutMs })

/-- `if (!aixos_list_is_empty(&list)) aixos_task_wake(first, AIXOS_OK)` -/
def wakeFirst (k : Kernel) (l : WaitList) : Kernel :=
  match k.core.waitLists l with
  | [] => k
  | t :: _ => { k with core := k.core.taskWake t Code.ok }

/-- The part all functions that create an object share. -/
def createObject (k : Kernel) (kind : ObjKind) (fill : Kernel → ℕ → Kernel) : Kernel × Outcome :=
  match k.core.freeSlot kind with
  | none => (k, .ret (.handle none))
  | some i =>
    let (c, h) := k.core.slotAlloc kind i
    (fill { k with core := c } i, .ret (.handle (some h)))

/-- The part all functions that delete an object share: it must not be waited for. -/
def deleteObject (k : Kernel) (kind : ObjKind) (h : Handle) : Kernel × Outcome :=
  if k.core.inIsr then k.code Code.context
  else match k.core.objFromHandle kind h with
    | none => k.code Code.inval
    | some i =>
      if (objLists kind i).all fun l => (k.core.waitLists l).isEmpty then
        { k with core := k.core.slotFree kind i }.code Code.ok
      else k.code Code.busy

/-! ### Tasks -/

/-- `aixos_task_create`, `aixos_user_task_create` and their static forms. -/
def taskCreate (k : Kernel) (a : Core.CreateArgs) : Kernel × Outcome :=
  let (c, t) := k.core.taskCreateCommon a
  let k := { k with core := c }
  (match t with
    | none => k
    | some t => { k with pend := Function.update k.pend t {} }, .ret (.task t))

/-- `aixos_task_delete` -/
def taskDelete (k : Kernel) (t : TaskId) : Kernel × Outcome :=
  match k.core.taskDelete t with
  | .error e => k.code e
  | .ok (c, true) => ({ k with core := c }, .noReturn)
  | .ok (c, false) => { k with core := c }.code Code.ok

/-- `aixos_task_yield` -/
def taskYield (k : Kernel) : Kernel × Outcome :=
  if k.core.inIsr then k.code Code.context
  else { k with core := k.core.schedRotateCurrent.rescheduleRequest }.code Code.ok

/-- `aixos_task_sleep` -/
def taskSleep (k : Kernel) (ms : Word) : Kernel × Outcome :=
  if k.core.inIsr then k.code Code.context
  else if ms = 0 then k.taskYield
  else k.block .delay ms .result

/-- The block in `timer_service_entry`. -/
def timerServiceWait (k : Kernel) : Kernel × Outcome := k.block (.list .service) forever .result

/-! ### Semaphores -/

/-- `aixos_sem_create` -/
def semCreate (k : Kernel) (initialCount : ℤ) : Kernel × Outcome :=
  if k.core.inIsr ∨ initialCount < 0 ∨ (semMaxCount : ℤ) < initialCount then (k, .ret (.handle none))
  else k.createObject .sem fun k i =>
    { k with semCount := Function.update k.semCount i initialCount.toNat }

/-- `aixos_sem_wait` -/
def semWait (k : Kernel) (h : Handle) (timeoutMs : Word) : Kernel × Outcome :=
  if k.core.inIsr then k.code Code.context
  else match k.core.objFromHandle .sem h with
    | none => k.code Code.inval
    | some i =>
      if 0 < k.semCount i then
        { k with semCount := Function.update k.semCount i (k.semCount i - 1) }.code Code.ok
      else if timeoutMs = 0 then k.code Code.timeout
      else k.block (.list (.sem i)) timeoutMs .result

/-- `sem_post_common` -/
def semPostCommon (k : Kernel) (h : Handle) : Kernel × Outcome :=
  match k.core.objFromHandle .sem h with
  | none => k.code Code.inval
  | some i =>
    if k.core.waitLists (.sem i) ≠ [] then (k.wakeFirst (.sem i)).code Code.ok
    else if k.semCount i = semMaxCount then k.code Code.overflow
    else { k with semCount := Function.update k.semCount i (k.semCount i + 1) }.code Code.ok

/-- `aixos_sem_post` -/
def semPost (k : Kernel) (h : Handle) : Kernel × Outcome :=
  if k.core.inIsr then k.code Code.context else k.semPostCommon h

/-- `aixos_sem_post_from_isr` -/
def semPostFromIsr (k : Kernel) (h : Handle) : Kernel × Outcome :=
  if !k.core.inIsr then k.code Code.context else k.semPostCommon h

/-- `aixos_sem_delete` -/
def semDelete (k : Kernel) (h : Handle) : Kernel × Outcome := k.deleteObject .sem h

/-! ### Mutexes -/

/-- `aixos_mutex_create` -/
def mutexCreate (k : Kernel) : Kernel × Outcome :=
  if k.core.inIsr then (k, .ret (.handle none))
  else k.createObject .mutex fun k i => { k with core := k.core.setMutex i fun _ => {} }

/-- `aixos_mutex_lock` -/
def mutexLock (k : Kernel) (h : Handle) (timeoutMs : Word) : Kernel × Outcome :=
  match k.core.cur with
  | none => k.code Code.context
  | some self =>
    if k.core.inIsr then k.code Code.context
    else match k.core.objFromHandle .mutex h with
      | none => k.code Code.inval
      | some m =>
        if (k.core.mutexes m).owner = none then
          { k with core := k.core.mutexAcquire m self }.code Code.ok
        else if (k.core.mutexes m).owner = some self then
          if (k.core.mutexes m).lockCount = 2 ^ 32 - 1 then k.code Code.overflow
          else { k with core := k.core.setMutex m fun b =>
            { b with lockCount := b.lockCount + 1 } }.code Code.ok
        else if timeoutMs = 0 then k.code Code.busy
        else k.block (.list (.mutex m)) timeoutMs .result

/-- `aixos_mutex_unlock` -/
def mutexUnlock (k : Kernel) (h : Handle) : Kernel × Outcome :=
  match k.core.cur with
  | none => k.code Code.context
  | some self =>
    if k.core.inIsr then k.code Code.context
    else match k.core.objFromHandle .mutex h with
      | none => k.code Code.inval
      | some m =>
        if (k.core.mutexes m).owner ≠ some self then k.code Code.inval
        else if (k.core.mutexes m).lockCount - 1 ≠ 0 then
          { k with core := k.core.setMutex m fun b =>
            { b with lockCount := b.lockCount - 1 } }.code Code.ok
        else { k with core := k.core.mutexRelease m self }.code Code.ok

/-- `aixos_mutex_delete` -/
def mutexDelete (k : Kernel) (h : Handle) : Kernel × Outcome :=
  if k.core.inIsr then k.code Code.context
  else match k.core.objFromHandle .mutex h with
    | none => k.code Code.inval
    | some m =>
      if k.core.waitLists (.mutex m) ≠ [] then k.code Code.busy
      else { k with core := k.core.mutexDestroy m }.code Code.ok

/-! ### Event groups -/

/-- `AIXOS_EVENT_AND` -/
def eventAnd : BitVec 8 := 1

/-- `AIXOS_EVENT_OR` -/
def eventOr : BitVec 8 := 2

/-- `AIXOS_EVENT_CLEAR` -/
def eventClearMode : BitVec 8 := 4

/-- `event_match`, of the flags of an event group -/
def eventMatch (flags mask : Word) (mode : BitVec 8) : Word :=
  let m := flags &&& mask
  if mode &&& eventAnd ≠ 0 then if m = mask then m else 0 else m

/-- `aixos_event_create` -/
def eventCreate (k : Kernel) : Kernel × Outcome :=
  if k.core.inIsr then (k, .ret (.handle none))
  else k.createObject .event fun k i => { k with eventFlags := Function.update k.eventFlags i 0 }

/-- One round of the loop of `aixos_event_wait`. -/
def eventWaitLoop (k : Kernel) (h : Handle) (mask : Word) (mode : BitVec 8)
    (startTick timeoutMs remaining : Word) : Kernel × Outcome :=
  match k.core.objFromHandle .event h with
  | none => k.code Code.inval
  | some i =>
    let m := eventMatch (k.eventFlags i) mask mode
    if m ≠ 0 then
      (if mode &&& eventClearMode ≠ 0 then
        { k with eventFlags := Function.update k.eventFlags i (k.eventFlags i &&& ~~~m) } else k,
        .ret (.matched m))
    -- `result` is still AIXOS_OK here, so this is never AIXOS_ERR_TIMEOUT
    else if remaining = 0 then k.code Code.again
    else match k.core.cur with
      | none => (k, .noReturn)
      | some self =>
        { k with
          pend := Function.update k.pend self
            { k.pend self with mask := mask, mode := mode, result := 0 } }.block
          (.list (.event i)) remaining (.eventWait h mask mode startTick timeoutMs)

/-- The check of the arguments of `aixos_event_wait`. -/
def eventWaitValid (mask : Word) (mode : BitVec 8) : Bool :=
  let matchMode := mode &&& (eventAnd ||| eventOr)
  mask ≠ 0 && (matchMode = eventAnd || matchMode = eventOr) &&
    mode &&& ~~~(eventAnd ||| eventOr ||| eventClearMode) = 0

/-- `aixos_event_wait` with a `matched` that is not null -/
def eventWait (k : Kernel) (h : Handle) (mask : Word) (mode : BitVec 8) (timeoutMs : Word) :
    Kernel × Outcome :=
  if k.core.inIsr then k.code Code.context
  else if !eventWaitValid mask mode then k.code Code.inval
  else k.eventWaitLoop h mask mode k.core.getTick timeoutMs timeoutMs

/-- The loop of `event_set_common` over the wait list. -/
def eventSetLoop (i : ℕ) : Kernel → List TaskId → Kernel
  | k, [] => k
  | k, t :: ts =>
    let m := eventMatch (k.eventFlags i) (k.pend t).mask (k.pend t).mode
    if m ≠ 0 then
      let k := if (k.pend t).mode &&& eventClearMode ≠ 0 then
        { k with eventFlags := Function.update k.eventFlags i (k.eventFlags i &&& ~~~m) } else k
      eventSetLoop i
        { k with
          pend := Function.update k.pend t { k.pend t with result := m }
          core := k.core.taskWake t Code.ok } ts
    else eventSetLoop i k ts

/-- `aixos_event_set` -/
def eventSet (k : Kernel) (h : Handle) (flagsToSet : Word) : Kernel × Outcome :=
  if k.core.inIsr then k.code Code.context
  else match k.core.objFromHandle .event h with
    | none => k.code Code.inval
    | some i =>
      (eventSetLoop i
        { k with eventFlags := Function.update k.eventFlags i (k.eventFlags i ||| flagsToSet) }
        (k.core.waitLists (.event i))).code Code.ok

/-- `aixos_event_clear` -/
def eventClear (k : Kernel) (h : Handle) (flagsToClear : Word) : Kernel × Outcome :=
  if k.core.inIsr then k.code Code.context
  else match k.core.objFromHandle .event h with
    | none => k.code Code.inval
    | some i =>
      { k with eventFlags :=
          Function.update k.eventFlags i (k.eventFlags i &&& ~~~flagsToClear) }.code Code.ok

/-- `aixos_event_delete` -/
def eventDelete (k : Kernel) (h : Handle) : Kernel × Outcome := k.deleteObject .event h

/-! ### Message queues -/

/-- `aixos_mq_create`, or `aixos_mq_create_static` when `isStatic`; the sizes fit `size_t`. -/
def mqCreate (k : Kernel) (maxMsgs msgSize : ℕ) (isStatic memory : Bool) : Kernel × Outcome :=
  if maxMsgs = 0 ∨ msgSize = 0 ∨ maxIpcCopyBytes < msgSize ∨ k.core.inIsr ∨ !memory then
    (k, .ret (.handle none))
  else k.createObject .mq fun k i =>
    { k with
      mqs := Function.update k.mqs i
        { maxMsgs := maxMsgs, msgSize := msgSize
          priorities := if isStatic then none else some fun _ => 0 } }

/-- The place the new message goes to: before the first one of lower priority. -/
def mqInsertIndex (q : Mq) (priority : ℕ) : ℕ :=
  match q.priorities with
  | none => q.count
  | some ps =>
    if priority = 0 then q.count
    else ((List.range q.count).find? fun l => decide (ps ((q.head + l) % q.maxMsgs) < priority)).getD q.count

/-- Move one message by one place. -/
def mqMove (q : Mq) (destination source : ℕ) : Mq :=
  { q with
    buffer := store q.buffer (destination * q.msgSize) (load q.buffer (source * q.msgSize) q.msgSize)
    lengths := Function.update q.lengths destination (q.lengths source)
    priorities := q.priorities.map fun ps => Function.update ps destination (ps source) }

/-- `for (logical = count; logical > insert; logical--)`, from `logical = insert + n`. -/
def mqShift (insert : ℕ) : ℕ → Mq → Mq
  | 0, q => q
  | n + 1, q =>
    mqShift insert n
      (mqMove q ((q.head + (insert + n + 1)) % q.maxMsgs) ((q.head + (insert + n + 1) - 1) % q.maxMsgs))

/-- The storing part of `mq_send_common`. -/
def mqStore (q : Mq) (message : List UInt8) (priority : ℕ) (fromIsr : Bool) : Except Code Mq :=
  if q.priorities.isNone ∧ priority ≠ 0 then .error Code.inval
  else if fromIsr ∧ priority ≠ 0 ∧ isrMqShiftMax < q.count then .error Code.busy
  else
    let insert := mqInsertIndex q priority
    let q := mqShift insert (q.count - insert) q
    let tail := (q.head + insert) % q.maxMsgs
    .ok { q with
      buffer := store q.buffer (tail * q.msgSize) message
      lengths := Function.update q.lengths tail message.length
      priorities := q.priorities.map fun ps => Function.update ps tail priority
      tail := (tail + 1) % q.maxMsgs
      count := q.count + 1 }

/-- One round of the loop of `mq_send_common`, and what follows it. -/
def mqSendLoop (k : Kernel) (i : ℕ) (h : Handle) (message : List UInt8) (priority : ℕ)
    (startTick timeoutMs remaining : Word) (fromIsr : Bool) : Kernel × Outcome :=
  if (k.mqs i).count = (k.mqs i).maxMsgs then
    if fromIsr ∨ remaining = 0 then k.code Code.busy
    else k.block (.list (.mqSend i)) remaining (.mqSend h message priority startTick timeoutMs)
  else match mqStore (k.mqs i) message priority fromIsr with
    | .error e => k.code e
    | .ok q => ({ k with mqs := Function.update k.mqs i q }.wakeFirst (.mqRecv i)).code Code.ok

/-- `mq_send_common`, for a message of `message.length` bytes; `none` is a null pointer -/
def mqSendCommon (k : Kernel) (h : Handle) (message : Option (List UInt8)) (priority : ℕ)
    (timeoutMs : Word) (fromIsr : Bool) : Kernel × Outcome :=
  match message with
  | none => k.code (if fromIsr then Code.context else Code.inval)
  | some message =>
    if mqPriorityMax < priority ∨ k.core.inIsr ≠ fromIsr then
      k.code (if fromIsr then Code.context else Code.inval)
    else if fromIsr ∧ isrCopyMaxBytes < message.length then k.code Code.inval
    else match k.core.objFromHandle .mq h with
      | none => k.code Code.inval
      | some i =>
        if (k.mqs i).msgSize < message.length then k.code Code.inval
        else k.mqSendLoop i h message priority k.core.getTick timeoutMs timeoutMs fromIsr

/-- `aixos_mq_send_priority`; `aixos_mq_send` is the same with priority 0 -/
def mqSend (k : Kernel) (h : Handle) (message : Option (List UInt8)) (priority : ℕ)
    (timeoutMs : Word) : Kernel × Outcome :=
  if k.core.inIsr then k.code Code.context
  else k.mqSendCommon h message priority timeoutMs false

/-- `aixos_mq_send_from_isr` -/
def mqSendFromIsr (k : Kernel) (h : Handle) (message : Option (List UInt8)) : Kernel × Outcome :=
  if !k.core.inIsr then k.code Code.context else k.mqSendCommon h message 0 0 true

/-- One round of the loop of `aixos_mq_recv_priority`, and what follows it. -/
def mqRecvLoop (k : Kernel) (i : ℕ) (h : Handle) (capacity : ℕ)
    (startTick timeoutMs remaining : Word) : Kernel × Outcome :=
  let q := k.mqs i
  if q.count = 0 then
    if remaining = 0 then k.code Code.again
    else k.block (.list (.mqRecv i)) remaining (.mqRecv h capacity startTick timeoutMs)
  else if capacity < q.lengths q.head then (k, .ret (.tooLong (q.lengths q.head)))
  else
    ({ k with
        mqs := Function.update k.mqs i
          { q with head := (q.head + 1) % q.maxMsgs, count := q.count - 1 } }.wakeFirst (.mqSend i),
      .ret (.received (load q.buffer (q.head * q.msgSize) (q.lengths q.head))
        ((q.priorities.map (· q.head)).getD 0)))

/-- `aixos_mq_recv_priority` with pointers that are not null; `aixos_mq_recv` drops the priority -/
def mqRecv (k : Kernel) (h : Handle) (capacity : ℕ) (timeoutMs : Word) : Kernel × Outcome :=
  if k.core.inIsr then k.code Code.context
  else match k.core.objFromHandle .mq h with
    | none => k.code Code.inval
    | some i => k.mqRecvLoop i h capacity k.core.getTick timeoutMs timeoutMs

/-- `aixos_mq_delete` -/
def mqDelete (k : Kernel) (h : Handle) : Kernel × Outcome := k.deleteObject .mq h

/-! ### Pipes -/

/-- `aixos_pipe_create` and `aixos_pipe_create_static` -/
def pipeCreate (k : Kernel) (size : ℕ) (memory : Bool) : Kernel × Outcome :=
  if size = 0 ∨ k.core.inIsr ∨ !memory then (k, .ret (.handle none))
  else k.createObject .pipe fun k i =>
    { k with pipes := Function.update k.pipes i { size := size } }

/-- The copy of `pipe_write_common`: the new pipe and the number of bytes accepted. -/
def pipeStore (p : Pipe) (data : List UInt8) : Pipe × ℕ :=
  let length := min data.length (p.size - p.count)
  let first := min (p.size - p.tail) length
  let buffer := store (store p.buffer p.tail (data.take first)) 0 ((data.drop first).take (length - first))
  ({ p with buffer := buffer, tail := (p.tail + length) % p.size, count := p.count + length }, length)

/-- One round of the loop of `pipe_write_common`, and what follows it. -/
def pipeWriteLoop (k : Kernel) (i : ℕ) (h : Handle) (data : List UInt8)
    (startTick timeoutMs remaining : Word) (fromIsr : Bool) : Kernel × Outcome :=
  if (k.pipes i).size - (k.pipes i).count = 0 then
    if fromIsr ∨ remaining = 0 then k.code 0
    else k.block (.list (.pipeWrite i)) remaining (.pipeWrite h data startTick timeoutMs)
  else
    let (p, length) := pipeStore (k.pipes i) data
    let k := { k with pipes := Function.update k.pipes i p }
    (if length ≠ 0 then k.wakeFirst (.pipeRead i) else k).code length

/-- `pipe_write_common` -/
def pipeWriteCommon (k : Kernel) (h : Handle) (data : Option (List UInt8)) (timeoutMs : Word)
    (fromIsr : Bool) : Kernel × Outcome :=
  match data with
  | none => k.code Code.inval
  | some data =>
    if maxIpcCopyBytes < data.length then k.code Code.inval
    else if fromIsr ∧ isrCopyMaxBytes < data.length then k.code Code.inval
    else if k.core.inIsr ≠ fromIsr then k.code Code.context
    else match k.core.objFromHandle .pipe h with
      | none => k.code Code.inval
      | some i => k.pipeWriteLoop i h data k.core.getTick timeoutMs timeoutMs fromIsr

/-- `aixos_pipe_write` -/
def pipeWrite (k : Kernel) (h : Handle) (data : Option (List UInt8)) (timeoutMs : Word) :
    Kernel × Outcome :=
  if k.core.inIsr then k.code Code.context else k.pipeWriteCommon h data timeoutMs false

/-- `aixos_pipe_write_from_isr` -/
def pipeWriteFromIsr (k : Kernel) (h : Handle) (data : Option (List UInt8)) : Kernel × Outcome :=
  if !k.core.inIsr then k.code Code.context else k.pipeWriteCommon h data 0 true

/-- The copy of `pipe_read_common`: the new pipe and the bytes. -/
def pipeLoad (p : Pipe) (length : ℕ) : Pipe × List UInt8 :=
  let length := min length p.count
  let first := min (p.size - p.head) length
  ({ p with head := (p.head + length) % p.size, count := p.count - length },
    load p.buffer p.head first ++ load p.buffer 0 (length - first))

/-- One round of the loop of `pipe_read_common`, and what follows it. -/
def pipeReadLoop (k : Kernel) (i : ℕ) (h : Handle) (length : ℕ)
    (startTick timeoutMs remaining : Word) : Kernel × Outcome :=
  if (k.pipes i).count = 0 then
    if remaining = 0 then k.code 0
    else k.block (.list (.pipeRead i)) remaining (.pipeRead h length startTick timeoutMs)
  else
    let (p, bytes) := pipeLoad (k.pipes i) length
    let k := { k with pipes := Function.update k.pipes i p }
    (if bytes.length ≠ 0 then k.wakeFirst (.pipeWrite i) else k, .ret (.data bytes))

/-- `aixos_pipe_read`, into a buffer that is not null -/
def pipeRead (k : Kernel) (h : Handle) (length : ℕ) (timeoutMs : Word) : Kernel × Outcome :=
  if k.core.inIsr then k.code Code.context
  else if maxIpcCopyBytes < length then k.code Code.inval
  else match k.core.objFromHandle .pipe h with
    | none => k.code Code.inval
    | some i => k.pipeReadLoop i h length k.core.getTick timeoutMs timeoutMs

/-- `aixos_pipe_delete` -/
def pipeDelete (k : Kernel) (h : Handle) : Kernel × Outcome := k.deleteObject .pipe h

/-! ### Notifications -/

/-- The `switch` of `notify_common`. -/
def notifyStore (b : Pend) (value : Word) : NotifyAction → Except Code Pend
  | .setBits => .ok { b with notifyValue := b.notifyValue ||| value, notifyPending := true }
  | .increment =>
    if b.notifyValue = BitVec.allOnes 32 then .error Code.overflow
    else .ok { b with notifyValue := b.notifyValue + 1, notifyPending := true }
  | .overwrite => .ok { b with notifyValue := value, notifyPending := true }
  | .noOverwrite =>
    if b.notifyPending then .error Code.busy
    else .ok { b with notifyValue := value, notifyPending := true }

/-- `notify_common` -/
def notifyCommon (k : Kernel) (t : TaskId) (value : Word) (action : NotifyAction) : Kernel × Outcome :=
  if ¬ k.core.Live t then k.code Code.inval
  else match notifyStore (k.pend t) value action with
    | .error e => k.code e
    | .ok b =>
      let k := { k with pend := Function.update k.pend t b }
      if (k.core.tasks t).state = .blocked ∧ (k.core.tasks t).wait = some .notify then
        { k with core := k.core.taskWake t Code.ok }.code Code.ok
      else k.code Code.ok

/-- `aixos_task_notify` -/
def notify (k : Kernel) (t : TaskId) (value : Word) (action : NotifyAction) : Kernel × Outcome :=
  if k.core.inIsr then k.code Code.context else k.notifyCommon t value action

/-- `aixos_task_notify_from_isr` -/
def notifyFromIsr (k : Kernel) (t : TaskId) (value : Word) (action : NotifyAction) : Kernel × Outcome :=
  if !k.core.inIsr then k.code Code.context else k.notifyCommon t value action

/-- The end of `aixos_task_notify_wait`; `aixos_task_notify_take` has a critical section more. -/
def notifyFinish (k : Kernel) (self : TaskId) (clearOnExit : Word) (take : Option Bool) :
    Kernel × Outcome :=
  let value := (k.pend self).notifyValue
  ({ k with
      pend := Function.update k.pend self
        { k.pend self with notifyValue := value &&& ~~~clearOnExit, notifyPending := false } },
    match take with
    | none => .ret (.value value)
    | some clearCount => .wait { pending := .notifyTake clearCount value, timeoutMs := 0 })

/-- `aixos_task_notify_wait` with a `value` that is not null; `aixos_task_notify_take` begins
with `take := some clear_count` -/
def notifyWait (k : Kernel) (clearOnEntry clearOnExit timeoutMs : Word) (take : Option Bool) :
    Kernel × Outcome :=
  match k.core.cur with
  | none => k.code Code.context
  | some self =>
    if k.core.inIsr then k.code Code.context
    else
      let k := { k with
        pend := Function.update k.pend self
          { k.pend self with notifyValue := (k.pend self).notifyValue &&& ~~~clearOnEntry } }
      if (k.pend self).notifyPending then k.notifyFinish self clearOnExit take
      else if timeoutMs = 0 then k.code Code.again
      else k.block .notify timeoutMs (.notifyWait clearOnExit take)

/-- The second critical section of `aixos_task_notify_take`. -/
def notifyTakeEnd (k : Kernel) (self : TaskId) (clearCount : Bool) (value : Word) : Kernel × Outcome :=
  let b := k.pend self
  let b :=
    if clearCount then { b with notifyValue := 0 }
    else if b.notifyValue ≠ 0 then
      { b with
        notifyValue := b.notifyValue - 1
        notifyPending := b.notifyPending || b.notifyValue - 1 ≠ 0 }
    else b
  ({ k with pend := Function.update k.pend self b }, .ret (.value value))

/-! ### Going on after a wait -/

/-- What task `self` does once it runs again in frame `f`. -/
def resume (k : Kernel) (self : TaskId) (f : Frame) : Kernel × Outcome :=
  let result := (k.core.tasks self).waitResult
  let now := k.core.getTick
  match f.pending with
  | .result => k.code result
  | .eventWait h mask mode startTick timeoutMs =>
    if result ≠ Code.ok then k.code result
    else k.eventWaitLoop h mask mode startTick timeoutMs (timeoutRemainingMs now startTick timeoutMs)
  | .mqSend h message priority startTick timeoutMs =>
    if result ≠ Code.ok then k.code result
    else match k.core.objFromHandle .mq h with
      | none => k.code Code.inval
      | some i => k.mqSendLoop i h message priority startTick timeoutMs
          (timeoutRemainingMs now startTick timeoutMs) false
  | .mqRecv h capacity startTick timeoutMs =>
    if result ≠ Code.ok then k.code result
    else match k.core.objFromHandle .mq h with
      | none => k.code Code.inval
      | some i => k.mqRecvLoop i h capacity startTick timeoutMs
          (timeoutRemainingMs now startTick timeoutMs)
  | .pipeWrite h data startTick timeoutMs =>
    if result ≠ Code.ok then k.code result
    else match k.core.objFromHandle .pipe h with
      | none => k.code Code.inval
      | some i => k.pipeWriteLoop i h data startTick timeoutMs
          (timeoutRemainingMs now startTick timeoutMs) false
  | .pipeRead h length startTick timeoutMs =>
    if result ≠ Code.ok then k.code result
    else match k.core.objFromHandle .pipe h with
      | none => k.code Code.inval
      | some i => k.pipeReadLoop i h length startTick timeoutMs
          (timeoutRemainingMs now startTick timeoutMs)
  | .notifyWait clearOnExit take =>
    if result ≠ Code.ok ∨ (k.core.tasks self).state = .blocked then k.code result
    else k.notifyFinish self clearOnExit take
  | .notifyTake clearCount value => k.notifyTakeEnd self clearCount value
  | .never => (k, .noReturn)

end Kernel

end Aixos
