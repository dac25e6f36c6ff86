import Aixos.Kernel.Types
import Mathlib.Logic.Function.Basic

/-!
# Task signals

The signal functions of `task.c`, for one receiving task. `aixos_task_signal_send` and `aixos_task_signal_mask` do their
work with interrupts disabled. `aixos_task_signal_deliver` does not: it reads and writes the fields one after the other,
and another task or an interrupt handler may send between any two of these accesses. The handler that it calls may call
it again, so the task has a stack of calls.

* `Signals` — the fields of the control block.
* `Signals.step` — a signal is sent; the task calls a function, or takes the next step of a call.
* `Signals.observe` — what can be seen of a step.

Waking a task that waits for a signal is left out, and so are the arguments of handlers.
-/

namespace Aixos

/-- Where a call of `aixos_task_signal_deliver` is. -/
inductive DeliverPlace where
  /-- before `pending_signal` is read -/
  | entry
  /-- before `signal_pending` is read -/
  | pending
  /-- before `signal_mask` is read -/
  | mask (pending : Word)
  /-- before `signal_pending` is read, to clear the bit -/
  | read (signo : ℕ)
  /-- before it is written -/
  | write (signo : ℕ) (value : Word)
  /-- before `signal_pending == 0U` -/
  | test (signo : ℕ)
  /-- before `pending_signal = 0U` -/
  | clear (signo : ℕ)
  /-- before `signal_handler` is read -/
  | handler (signo : ℕ)
  /-- in the handler -/
  | running
  deriving DecidableEq

/-- The fields of `aixos_tcb_t` for signals, and the calls of `aixos_task_signal_deliver` that the task is in, the
innermost first. -/
structure Signals where
  /-- `signal_pending` -/
  signalPending : Word
  /-- `signal_mask` -/
  signalMask : Word
  /-- `pending_signal` -/
  pendingSignal : Bool
  /-- Which elements of `signal_handler` are not `NULL`. -/
  signalHandler : ℕ → Bool
  /-- The calls that the task is in. -/
  calls : List DeliverPlace

/-- What happens. -/
inductive SignalAct where
  /-- Somebody calls `aixos_task_signal_send`. -/
  | send (signo : ℕ)
  /-- The task calls `aixos_task_signal_handle`. -/
  | handle (signo : ℕ) (handler : Bool)
  /-- The task calls `aixos_task_signal_mask`. -/
  | mask (mask : Word)
  /-- The task calls `aixos_task_signal_deliver`. -/
  | deliver
  /-- The innermost call takes its next step, or its handler returns. -/
  | next

/-- What can be seen of signals. -/
inductive SignalEvent where
  /-- A signal has become pending. -/
  | raised (signo : ℕ)
  /-- A call of `aixos_task_signal_deliver` has taken it. -/
  | taken (signo : ℕ)
  deriving DecidableEq

/-- `1U << signo` -/
def signalBit (signo : ℕ) : Word := (1 : Word) <<< signo

/-- `__builtin_ctz` -/
def ctz (w : Word) : ℕ := w.ctz.toNat

namespace Signals

/-- A new task. -/
def init : Signals :=
  { signalPending := 0, signalMask := 0, pendingSignal := false, signalHandler := fun _ => false, calls := [] }

/-- `aixos_task_signal_send` -/
def send (s : Signals) (signo : ℕ) : Signals :=
  if 32 ≤ signo then s
  else if s.signalMask &&& signalBit signo ≠ 0 then { s with signalPending := s.signalPending ||| signalBit signo }
  else { s with signalPending := s.signalPending ||| signalBit signo, pendingSignal := true }

/-- `aixos_task_signal_handle` -/
def handle (s : Signals) (signo : ℕ) (handler : Bool) : Signals :=
  if 32 ≤ signo then s else { s with signalHandler := Function.update s.signalHandler signo handler }

/-- `aixos_task_signal_mask` -/
def mask (s : Signals) (mask : Word) : Signals :=
  if s.signalPending &&& ~~~mask ≠ 0 then { s with signalMask := mask, pendingSignal := true }
  else { s with signalMask := mask }

/-- The next step of `aixos_task_signal_deliver`, at a place: what becomes of the fields, and where the call is then;
`none` if it has returned. -/
def deliver (s : Signals) : DeliverPlace → Signals × Option DeliverPlace
  | .entry => (s, if s.pendingSignal then some .pending else none)
  | .pending => (s, some (.mask s.signalPending))
  | .mask pending =>
    (s, if pending &&& ~~~s.signalMask = 0 then none else some (.read (ctz (pending &&& ~~~s.signalMask))))
  | .read signo => (s, some (.write signo s.signalPending))
  | .write signo value => ({ s with signalPending := value &&& ~~~signalBit signo }, some (.test signo))
  | .test signo => (s, some (if s.signalPending = 0 then .clear signo else .handler signo))
  | .clear signo => ({ s with pendingSignal := false }, some (.handler signo))
  | .handler signo => (s, if s.signalHandler signo then some .running else none)
  | .running => (s, none)

/-- The task is outside `aixos_task_signal_deliver`, or in a handler. -/
def mayCall (s : Signals) : Bool :=
  match s.calls with
  | [] | .running :: _ => true
  | _ => false

/-- One step. -/
def step (s : Signals) : SignalAct → Option Signals
  | .send signo => some (s.send signo)
  | .handle signo handler => if s.mayCall then some (s.handle signo handler) else none
  | .mask mask => if s.mayCall then some (s.mask mask) else none
  | .deliver => if s.mayCall then some { s with calls := .entry :: s.calls } else none
  | .next =>
    match s.calls with
    | [] => none
    | place :: places => some { (s.deliver place).1 with calls := (s.deliver place).2.toList ++ places }

/-- What is seen of a step. -/
def observe (s : Signals) : SignalAct → List SignalEvent
  | .send signo => if signo < 32 ∧ s.signalPending.getLsbD signo = false then [.raised signo] else []
  | .next =>
    match s.calls with
    | .write signo _ :: _ => [.taken signo]
    | _ => []
  | .handle .. | .mask _ | .deliver => []

end Signals

end Aixos
