import Aixos.Kernel.Ipc
import Aixos.Library.Transition

/-!
# The system of native tasks

The kernel with its tasks as they run: the current task makes calls, blocks, is
switched away and later goes on where it blocked; interrupts arrive between critical
sections, tick, and post from their handlers.

## The model

* `Call` — the calls of the native interface, with all their arguments.
* `Act` — one action: a call of the current task (or, before `aixos_start`, of
  `main`), the return of a blocked task, the switch the processor takes once it has
  been requested, and what interrupts do.
* `Sys.step` — the next state, if the action is possible.

A task makes calls only while it is the one running. A requested switch is taken at
any later moment, so every delay of it is covered; a task that has blocked does not
go on before it has been switched in again.
-/

namespace Aixos

/-- The calls of a native task. -/
inductive Call where
  | taskCreate (a : Core.CreateArgs)
  | taskDelete (t : TaskId)
  | taskSleep (ms : Word)
  | taskYield
  | taskSuspend (t : TaskId)
  | taskResume (t : TaskId)
  | taskSetPriority (t : TaskId) (priority : ℤ)
  | schedLock
  | schedUnlock
  | semCreate (initialCount : ℤ)
  | semWait (h : Handle) (timeoutMs : Word)
  | semPost (h : Handle)
  | semDelete (h : Handle)
  | mutexCreate
  | mutexLock (h : Handle) (timeoutMs : Word)
  | mutexUnlock (h : Handle)
  | mutexDelete (h : Handle)
  | eventCreate
  | eventWait (h : Handle) (mask : Word) (mode : BitVec 8) (timeoutMs : Word)
  | eventSet (h : Handle) (flags : Word)
  | eventClear (h : Handle) (flags : Word)
  | eventDelete (h : Handle)
  | mqCreate (maxMsgs msgSize : ℕ) (isStatic memory : Bool)
  | mqSend (h : Handle) (message : Option (List UInt8)) (priority : ℕ) (timeoutMs : Word)
  | mqRecv (h : Handle) (capacity : ℕ) (timeoutMs : Word)
  | mqDelete (h : Handle)
  | pipeCreate (size : ℕ) (memory : Bool)
  | pipeWrite (h : Handle) (data : Option (List UInt8)) (timeoutMs : Word)
  | pipeRead (h : Handle) (length : ℕ) (timeoutMs : Word)
  | pipeDelete (h : Handle)
  | notify (t : TaskId) (value : Word) (action : NotifyAction)
  | notifyWait (clearOnEntry clearOnExit timeoutMs : Word)
  | notifyTake (clearCount : Bool) (timeoutMs : Word)
  | timerServiceWait

/-- What an interrupt handler does with the kernel. -/
inductive IsrCall where
  | tick (timerPending : Bool)
  | semPost (h : Handle)
  | mqSend (h : Handle) (message : Option (List UInt8))
  | pipeWrite (h : Handle) (data : Option (List UInt8))
  | notify (t : TaskId) (value : Word) (action : NotifyAction)

namespace Kernel

variable [cfg : Config]

/-- Run a call. -/
def call (k : Kernel) : Call → Kernel × Outcome
  | .taskCreate a => k.taskCreate a
  | .taskDelete t => k.taskDelete t
  | .taskSleep ms => k.taskSleep ms
  | .taskYield => k.taskYield
  | .taskSuspend t => k.coreCall (k.core.taskSuspend t)
  | .taskResume t => k.coreCall (k.core.taskResume t)
  | .taskSetPriority t p => k.coreCall (k.core.taskSetPriority t p)
  | .schedLock => k.coreCall k.core.schedLockTask
  | .schedUnlock => k.coreCall k.core.schedUnlockTask
  | .semCreate n => k.semCreate n
  | .semWait h ms => k.semWait h ms
  | .semPost h => k.semPost h
  | .semDelete h => k.semDelete h
  | .mutexCreate => k.mutexCreate
  | .mutexLock h ms => k.mutexLock h ms
  | .mutexUnlock h => k.mutexUnlock h
  | .mutexDelete h => k.mutexDelete h
  | .eventCreate => k.eventCreate
  | .eventWait h mask mode ms => k.eventWait h mask mode ms
  | .eventSet h flags => k.eventSet h flags
  | .eventClear h flags => k.eventClear h flags
  | .eventDelete h => k.eventDelete h
  | .mqCreate n size st mem => k.mqCreate n size st mem
  | .mqSend h message priority ms => k.mqSend h message priority ms
  | .mqRecv h capacity ms => k.mqRecv h capacity ms
  | .mqDelete h => k.mqDelete h
  | .pipeCreate size mem => k.pipeCreate size mem
  | .pipeWrite h data ms => k.pipeWrite h data ms
  | .pipeRead h length ms => k.pipeRead h length ms
  | .pipeDelete h => k.pipeDelete h
  | .notify t value action => k.notify t value action
  | .notifyWait entry exit ms => k.notifyWait entry exit ms none
  | .notifyTake clearCount ms => k.notifyWait 0 0 ms (some clearCount)
  | .timerServiceWait => k.timerServiceWait

/-- Run what an interrupt handler does. -/
def isrCall (k : Kernel) : IsrCall → Kernel
  | .tick pending => { k with core := k.core.tickHandler pending }
  | .semPost h => (k.semPostFromIsr h).1
  | .mqSend h message => (k.mqSendFromIsr h message).1
  | .pipeWrite h data => (k.pipeWriteFromIsr h data).1
  | .notify t value action => (k.notifyFromIsr t value action).1

end Kernel

/-- The kernel and where its tasks are. -/
structure Sys where
  /-- The kernel. -/
  kernel : Kernel
  /-- Where a task will go on, if it is inside a call. -/
  frame : TaskId → Option Frame
  /-- The result of the last call that has returned. -/
  ret : TaskId → Option Ret

/-- One action of the system. -/
inductive Act where
  /-- A call: of `main` before `aixos_start`, of the current task afterwards. -/
  | call (c : Call)
  /-- `aixos_start`; whether the heap has room for the system tasks. -/
  | start (memory : Bool)
  /-- The current task goes on after a wait. -/
  | resume
  /-- The processor takes the switch that has been requested. -/
  | switch
  /-- An interrupt begins. -/
  | isrEnter
  /-- An interrupt ends. -/
  | isrExit
  /-- An interrupt handler uses the kernel. -/
  | isr (c : IsrCall)

namespace Sys

variable [cfg : Config]

/-- The core of the kernel. -/
abbrev core (s : Sys) : Core := s.kernel.core

/-- Before anything is created. -/
def init : Sys where
  kernel := .init
  frame := fun _ => none
  ret := fun _ => none

omit cfg in
/-- The task that runs: the current one, outside interrupts, switched in and not stopped since. -/
def runningTask (s : Sys) : Option TaskId :=
  match s.core.cur with
  | none => none
  | some t =>
    if s.core.running ∧ s.core.isrNesting = 0 ∧ (s.core.tasks t).state = .running then some t else none

omit cfg in
/-- Record how a critical section of task `t` ended. -/
def finish (s : Sys) (t : TaskId) (r : Kernel × Outcome) : Sys :=
  match r.2 with
  | .ret v =>
    { kernel := r.1, frame := Function.update s.frame t none, ret := Function.update s.ret t (some v) }
  | .wait f => { s with kernel := r.1, frame := Function.update s.frame t (some f) }
  | .noReturn =>
    { s with kernel := r.1, frame := Function.update s.frame t (some { pending := .never, timeoutMs := 0 }) }

/-- One step. -/
def step (s : Sys) : Act → Option Sys
  | .call c =>
    if s.core.running then
      match s.runningTask with
      | none => none
      | some t => if (s.frame t).isSome then none else some (s.finish t (s.kernel.call c))
    else
      match s.kernel.call c with
      | (k, .ret _) => some { s with kernel := k }
      | _ => none
  | .start memory =>
    if s.core.running then none
    else (s.core.start memory).map fun c => { s with kernel := { s.kernel with core := c } }
  | .resume =>
    match s.runningTask with
    | none => none
    | some t =>
      match s.frame t with
      | none => none
      | some f => some (s.finish t (s.kernel.resume t f))
  | .switch =>
    if s.core.running ∧ s.core.isrNesting = 0 ∧ s.core.switchRequested then
      some { s with kernel := { s.kernel with core := s.core.contextSwitch } }
    else none
  | .isrEnter =>
    if s.core.running then some { s with kernel := { s.kernel with core := s.core.isrEnter } } else none
  | .isrExit =>
    if s.core.isrNesting ≠ 0 then
      some { s with kernel := { s.kernel with core := s.core.isrExit } } else none
  | .isr c => if s.core.isrNesting ≠ 0 then some { s with kernel := s.kernel.isrCall c } else none

end Sys

end Aixos
