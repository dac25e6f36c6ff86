import Aixos.Kernel.Posix

/-!
# One-time initialisation

`aixos_pthread_once` of `compat/posix/posix.c`: one control object, and threads that call the function on it, at any
time and as often as they like. What the source does with interrupts disabled is one step, and any other thread may run
between two steps. An `init_routine` may call the function itself, so a thread has a stack of calls.

* `Once.step` — a call begins, a thread takes its next step.
* `Once.observe` — what can be seen of a step.
-/

namespace Aixos.Posix

/-- Where a call of `aixos_pthread_once` is. -/
inductive OncePlace where
  /-- before the critical section of the loop -/
  | poll
  /-- before `init_routine()` -/
  | start
  /-- in `init_routine` -/
  | routine
  /-- before `once_control->state = 2U` -/
  | finish
  deriving DecidableEq

/-- `aixos_pthread_once_t`, and the calls that every thread is in, the innermost first. -/
structure Once (τ : Type) where
  /-- `state` -/
  state : Word
  /-- The calls that a thread is in. -/
  calls : τ → List OncePlace

/-- What a thread does. -/
inductive OnceAct (τ : Type) where
  /-- It calls the function. Whether `once_control` and `init_routine` are `NULL`. -/
  | call (t : τ) (nullControl nullRoutine : Bool)
  /-- The critical section of the loop, and `aixos_task_yield` if the loop goes on. -/
  | poll (t : τ)
  /-- `init_routine` is called. -/
  | start (t : τ)
  /-- `init_routine` returns. -/
  | returns (t : τ)
  /-- The critical section behind it. -/
  | finish (t : τ)

/-- What can be seen. -/
inductive OnceEvent (τ : Type) where
  /-- `init_routine` has been started. -/
  | started (t : τ)
  /-- `init_routine` has returned. -/
  | finished (t : τ)
  /-- `aixos_pthread_once` has returned. -/
  | returned (t : τ) (result : Errno)
  deriving DecidableEq

namespace Once

variable {τ : Type} [DecidableEq τ]

/-- `AIXOS_PTHREAD_ONCE_INIT` -/
def init : Once τ := { state := 0, calls := fun _ => [] }

/-- The calls of one thread. -/
def setCalls (s : Once τ) (t : τ) (ps : List OncePlace) : Once τ := { s with calls := Function.update s.calls t ps }

/-- The function may be called where a thread is in no call of it, or in `init_routine`. -/
def mayCall (s : Once τ) (t : τ) : Bool :=
  match s.calls t with
  | [] | .routine :: _ => true
  | _ => false

/-- One step of `aixos_pthread_once`. -/
def step (s : Once τ) : OnceAct τ → Option (Once τ)
  | .call t nullControl nullRoutine =>
    if s.mayCall t then
      if nullControl ∨ nullRoutine then some s else some (s.setCalls t (.poll :: s.calls t))
    else none
  | .poll t =>
    match s.calls t with
    | .poll :: ps =>
      if s.state = 2 then some (s.setCalls t ps)
      else if s.state = 0 then some ({ s with state := 1 }.setCalls t (.start :: ps))
      else some s
    | _ => none
  | .start t =>
    match s.calls t with
    | .start :: ps => some (s.setCalls t (.routine :: ps))
    | _ => none
  | .returns t =>
    match s.calls t with
    | .routine :: ps => some (s.setCalls t (.finish :: ps))
    | _ => none
  | .finish t =>
    match s.calls t with
    | .finish :: ps => some ({ s with state := 2 }.setCalls t ps)
    | _ => none

/-- What is seen of a step. -/
def observe (s : Once τ) : OnceAct τ → List (OnceEvent τ)
  | .call t nullControl nullRoutine => if nullControl ∨ nullRoutine then [.returned t Errno.inval] else []
  | .poll t => if s.state = 2 then [.returned t 0] else []
  | .start t => [.started t]
  | .returns t => [.finished t]
  | .finish t => [.returned t 0]

end Once

end Aixos.Posix
