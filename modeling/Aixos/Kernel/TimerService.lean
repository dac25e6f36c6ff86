import Aixos.Kernel.System
import Aixos.Kernel.Timer

/-!
# The timer service

The system of native tasks with software timers: `timer_service_entry` and `aixos_timer_dispatch` as the task of the
timer service runs them, and the tick, which moves timers to the list of those that are pending and wakes the service.

A callback is code that the service calls: while it is in one, the service makes calls like any other task. An
interrupt may come between any two steps.

* `TimerCall` — the functions of `timer.c` that tasks call.
* `ServicePhase` — where the service is.
* `TimerSys.step` — the next state.
-/

namespace Aixos

/-- The functions of `timer.c` that tasks call. -/
inductive TimerCall (α : Type) where
  /-- `aixos_timer_create` -/
  | create (type : TimerType) (callback : Option α)
  /-- `aixos_timer_start` -/
  | start (h : Option Handle) (intervalMs : Word)
  /-- `aixos_timer_stop` -/
  | stop (h : Option Handle)
  /-- `aixos_timer_delete` -/
  | delete (h : Option Handle)

/-- Where the timer service is. -/
inductive ServicePhase (α : Type) where
  /-- before the critical section of `aixos_timer_dispatch` -/
  | dispatch
  /-- in a callback -/
  | callback (f : Option α)
  /-- `aixos_timer_dispatch` has returned. -/
  | recheck
  /-- in `aixos_task_block_current` -/
  | waiting
  deriving DecidableEq

/-- The system of native tasks, the timers, and the task that serves them. -/
structure TimerSys (α : Type) where
  /-- The system of native tasks. -/
  sys : Sys
  /-- The variables of `timer.c`. -/
  timers : TimerPool α
  /-- The task that runs `timer_service_entry`. -/
  service : TaskId
  /-- Where it is. -/
  phase : ServicePhase α

/-- One action. -/
inductive TimerAct (α : Type) where
  /-- An action of the system of native tasks, but no tick. -/
  | native (a : Act)
  /-- The current task calls a function of `timer.c`. -/
  | call (c : TimerCall α)
  /-- A tick, in its interrupt. -/
  | tick
  /-- The service goes on. -/
  | serve

namespace TimerPool

variable {α : Type} [cfg : Config] [ocfg : ObjectConfig]

/-- A task calls a function, at tick `now`. -/
def call (p : TimerPool α) (now : Word) : TimerCall α → TimerPool α
  | .create type callback => (p.timerCreate false type callback).1
  | .start h intervalMs => (p.timerStart false now h intervalMs).1
  | .stop h => (p.timerStop false h).1
  | .delete h => (p.timerDelete false h).1

end TimerPool

namespace TimerSys

variable {α : Type} [cfg : Config] [ocfg : ObjectConfig]

/-- The scheduler has been started, and the service is the task that has been created last. Before, timers have been
created, and started. -/
def booted (k : Sys) (calls : List (TimerCall α)) : TimerSys α where
  sys := k
  timers := calls.foldl (fun p c => p.call 0 c) .init
  service := k.core.nextTask - 1
  phase := .dispatch

/-- The service is in a callback. -/
def inCallback (s : TimerSys α) : Bool :=
  match s.phase with
  | .callback _ => true
  | _ => false

/-- The service runs, and is not in a function of the kernel. -/
def serving (s : TimerSys α) : Bool := s.sys.runningTask = some s.service && (s.sys.frame s.service).isNone

/-- The current task may make a call: the service makes calls only in a callback. -/
def mayCall (s : TimerSys α) : Bool := s.sys.runningTask ≠ some s.service || s.inCallback

/-- One step. -/
def step (s : TimerSys α) (a : TimerAct α) : Option (TimerSys α) :=
  match a with
  | .native (.isr (.tick _)) | .native (.call .timerServiceWait) => none
  | .native (.call c) => if s.mayCall then (s.sys.step (.call c)).map fun k => { s with sys := k } else none
  | .native a => (s.sys.step a).map fun k => { s with sys := k }
  | .call c =>
    match s.sys.runningTask with
    | none => none
    | some t =>
      if s.mayCall ∧ s.sys.frame t = none then some { s with timers := s.timers.call s.sys.core.getTick c } else none
  | .tick =>
    let timers := s.timers.timerTick ((s.sys.core.totalTicks + 1).setWidth 32)
    (s.sys.step (.isr (.tick !timers.pendingTimers.isEmpty))).map fun k => { s with sys := k, timers := timers }
  | .serve =>
    if s.serving then
      match s.phase with
      | .dispatch =>
        match s.timers.dispatchTake with
        | none => some { s with phase := .recheck }
        | some (timers, f) => some { s with timers := timers, phase := .callback f }
      | .callback _ => some { s with phase := .dispatch }
      | .recheck =>
        if s.timers.pendingTimers ≠ [] then some { s with phase := .dispatch }
        else (s.sys.step (.call .timerServiceWait)).map fun k => { s with sys := k, phase := .waiting }
      | .waiting => some { s with phase := .dispatch }
    else none

end TimerSys

end Aixos
