import Aixos.Kernel.TimerService

/-!
# Runs of timers

Two machines over the pool of timers. In the first every function is one step: those that tasks call, the tick, and
`aixos_timer_dispatch` with all callbacks. In the second the service may be preempted in `aixos_timer_dispatch`, after its
critical section and before it calls the callback.

* `TimerPool.dispatch` — `aixos_timer_dispatch`.
* `TimerPool.seen` — what is seen of a call.
* `TimerRun.step`, `TimerRun.observe` — the first machine.
* `TimerGap.step`, `TimerGap.observe` — the second.
-/

namespace Aixos

/-- What can be seen of timers. -/
inductive TimerEvent (α : Type) where
  /-- A timer has been created. -/
  | created (i : ℕ) (type : TimerType) (callback : Option α)
  /-- It has been started, with an interval in ticks. -/
  | started (i : ℕ) (interval : ℕ)
  /-- It has been stopped. -/
  | stopped (i : ℕ)
  /-- It has been deleted. -/
  | deleted (i : ℕ)
  /-- A tick has come. -/
  | ticked
  /-- The callback of a timer is called. -/
  | called (i : ℕ) (callback : Option α)
  deriving DecidableEq

namespace TimerPool

variable {α : Type} [cfg : Config] [ocfg : ObjectConfig]

omit cfg ocfg in
/-- The loop of `aixos_timer_dispatch`, for as many timers as there are pending, with the callbacks that it calls. -/
def dispatchLoop : ℕ → TimerPool α → TimerPool α × List (ℕ × Option α)
  | 0, p => (p, [])
  | n + 1, p =>
    match p.pendingTimers, p.dispatchTake with
    | i :: _, some (q, callback) => ((dispatchLoop n q).1, (i, callback) :: (dispatchLoop n q).2)
    | _, _ => (p, [])

omit cfg ocfg in
/-- `aixos_timer_dispatch` -/
def dispatch (p : TimerPool α) : TimerPool α × List (ℕ × Option α) := dispatchLoop p.pendingTimers.length p

/-- What is seen of a call, at tick `now`, if it succeeds. -/
def seen (p : TimerPool α) (now : Word) : TimerCall α → List (TimerEvent α)
  | .create type callback =>
    match (p.timerCreate false type callback).2 with
    | some x => [.created x.index type callback]
    | none => []
  | .start h intervalMs =>
    match p.timerFromHandle h with
    | some i => if (p.timerStart false now h intervalMs).2 = Code.ok then [.started i (msToTicks intervalMs).toNat] else []
    | none => []
  | .stop h =>
    match p.timerFromHandle h with
    | some i => [.stopped i]
    | none => []
  | .delete h =>
    match p.timerFromHandle h with
    | some i => [.deleted i]
    | none => []

end TimerPool

/-- The pool, and the number of ticks. -/
structure TimerRun (α : Type) where
  /-- The variables of `timer.c`. -/
  pool : TimerPool α
  /-- How many ticks have come. -/
  ticks : ℕ

/-- What happens. -/
inductive TimerOp (α : Type) where
  /-- A task calls a function. -/
  | call (c : TimerCall α)
  /-- A tick. -/
  | tick
  /-- The service runs `aixos_timer_dispatch`. -/
  | dispatch

namespace TimerRun

variable {α : Type} [cfg : Config] [ocfg : ObjectConfig]

omit cfg ocfg in
/-- After `aixos_timer_init`. -/
def init : TimerRun α := { pool := .init, ticks := 0 }

omit cfg ocfg in
/-- `aixos_get_tick` -/
def now (s : TimerRun α) : Word := .ofNat 32 s.ticks

/-- One step. -/
def step (s : TimerRun α) : TimerOp α → Option (TimerRun α)
  | .call c => some { s with pool := s.pool.call s.now c }
  | .tick => some { pool := s.pool.timerTick (.ofNat 32 (s.ticks + 1)), ticks := s.ticks + 1 }
  | .dispatch => some { s with pool := s.pool.dispatch.1 }

/-- What is seen of a step. -/
def observe (s : TimerRun α) : TimerOp α → List (TimerEvent α)
  | .call c => s.pool.seen s.now c
  | .tick => [.ticked]
  | .dispatch => s.pool.dispatch.2.map fun x => .called x.1 x.2

end TimerRun

/-- Where the timer service is. -/
inductive DispatchPlace (α : Type) where
  /-- before the critical section of `aixos_timer_dispatch` -/
  | idle
  /-- behind it, before `callback(arg)` -/
  | taken (i : ℕ) (callback : Option α)
  /-- in the callback -/
  | running
  deriving DecidableEq

/-- The pool, the number of ticks, and the service. -/
structure TimerGap (α : Type) where
  /-- The variables of `timer.c`. -/
  pool : TimerPool α
  /-- How many ticks have come. -/
  ticks : ℕ
  /-- Where the service is. -/
  place : DispatchPlace α

/-- What happens. -/
inductive GapAct (α : Type) where
  /-- A task calls a function; the service does so in a callback. -/
  | call (c : TimerCall α)
  /-- A tick. -/
  | tick
  /-- The critical section of `aixos_timer_dispatch`. -/
  | take
  /-- The callback is called. -/
  | begins
  /-- It returns. -/
  | returns

namespace TimerGap

variable {α : Type} [cfg : Config] [ocfg : ObjectConfig]

omit cfg ocfg in
/-- After `aixos_timer_init`. -/
def init : TimerGap α := { pool := .init, ticks := 0, place := .idle }

omit cfg ocfg in
/-- `aixos_get_tick` -/
def now (s : TimerGap α) : Word := .ofNat 32 s.ticks

/-- One step. -/
def step (s : TimerGap α) : GapAct α → Option (TimerGap α)
  | .call c => some { s with pool := s.pool.call s.now c }
  | .tick => some { s with pool := s.pool.timerTick (.ofNat 32 (s.ticks + 1)), ticks := s.ticks + 1 }
  | .take =>
    match s.place, s.pool.pendingTimers, s.pool.dispatchTake with
    | .idle, i :: _, some (pool, callback) => some { s with pool := pool, place := .taken i callback }
    | _, _, _ => none
  | .begins =>
    match s.place with
    | .taken _ _ => some { s with place := .running }
    | _ => none
  | .returns => if s.place matches .running then some { s with place := .idle } else none

/-- What is seen of a step. -/
def observe (s : TimerGap α) : GapAct α → List (TimerEvent α)
  | .call c => s.pool.seen s.now c
  | .tick => [.ticked]
  | .begins =>
    match s.place with
    | .taken i callback => [.called i callback]
    | _ => []
  | .take | .returns => []

end TimerGap

end Aixos
