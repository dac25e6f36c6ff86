import Aixos.Kernel.Object

/-!
# Software timers

`timer.c`: the pool of timers, the list of those that are active, ordered by deadline, and the list of those that have
expired and whose callbacks are still to be called.

* `TimerPool` — the variables.
* `TimerPool.timerStart`, `timerStop`, `timerDelete`, `timerCreate` — the functions that tasks call.
* `TimerPool.timerTick` — `aixos_timer_tick`, without the waking of the service.
* `TimerPool.dispatchTake` — the critical section of `aixos_timer_dispatch`.

A callback and its argument are one value of a type `α`. Names are left out. The slots of `object.c` and the entries of
the pool are used and freed together, so they agree, and a handle names an entry.
-/

namespace Aixos

open OrderedQueue

/-- `aixos_timer_type_t` -/
inductive TimerType where
  /-- `AIXOS_TIMER_ONESHOT` -/
  | oneshot
  /-- `AIXOS_TIMER_PERIODIC` -/
  | periodic
  deriving DecidableEq, Repr

/-- `aixos_timer_inner_t` -/
structure Timer (α : Type) where
  /-- `type` -/
  type : TimerType := .oneshot
  /-- `callback`, with `arg` -/
  callback : Option α := none
  /-- `interval` -/
  interval : Word := 0
  /-- `deadline` -/
  deadline : Word := 0
  /-- `active` -/
  active : Bool := false
  /-- `pending` -/
  pending : Bool := false

/-- The variables of `timer.c`. -/
structure TimerPool (α : Type) where
  /-- `timer_pool` -/
  timers : ℕ → Timer α
  /-- The slots of `AIXOS_POOL_TIMER`. -/
  slots : ℕ → Slot
  /-- `active_timers` -/
  activeTimers : List ℕ
  /-- `pending_timers` -/
  pendingTimers : List ℕ

namespace TimerPool

variable {α : Type}

/-- `aixos_timer_init` -/
def init : TimerPool α where
  timers := fun _ => {}
  slots := fun _ => {}
  activeTimers := []
  pendingTimers := []

/-- Store into the fields of one timer. -/
def setTimer (p : TimerPool α) (i : ℕ) (f : Timer α → Timer α) : TimerPool α :=
  { p with timers := Function.update p.timers i (f (p.timers i)) }

/-- `active_insert` -/
def activeInsert (p : TimerPool α) (i : ℕ) : TimerPool α :=
  { p with activeTimers :=
      insertBefore (fun j => ((p.timers i).deadline - (p.timers j).deadline).msb) i p.activeTimers }

/-- `aixos_list_del(&timer->active_node)`, if the timer is active -/
def activeRemove (p : TimerPool α) (i : ℕ) : TimerPool α :=
  if (p.timers i).active then { p with activeTimers := p.activeTimers.erase i } else p

/-- `aixos_list_del(&timer->pending_node)`, if the timer is pending -/
def pendingRemove (p : TimerPool α) (i : ℕ) : TimerPool α :=
  if (p.timers i).pending then { p with pendingTimers := p.pendingTimers.erase i } else p

section

variable [ocfg : ObjectConfig]

/-- `aixos_obj_from_handle(handle, AIXOS_OBJ_TIMER)`; there is no handle for `AIXOS_HANDLE_INVALID`. -/
def timerFromHandle (p : TimerPool α) : Option Handle → Option ℕ
  | none => none
  | some h =>
    if h.index < ocfg.maxTimer ∧ (p.slots h.index).used ∧ (p.slots h.index).generation = h.generation then some h.index
    else none

/-- `aixos_timer_create` -/
def timerCreate (p : TimerPool α) (inIsr : Bool) (type : TimerType) (callback : Option α) : TimerPool α × Option Handle :=
  if inIsr ∨ callback = none then (p, none)
  else match (List.range ocfg.maxTimer).find? fun i => !(p.slots i).used with
    | none => (p, none)
    | some i =>
      let generation := nextGeneration (p.slots i).generation
      ({ p with
          slots := Function.update p.slots i ⟨true, generation⟩
          timers := Function.update p.timers i { type := type, callback := callback } }, some ⟨i, generation⟩)

/-- `aixos_timer_stop` -/
def timerStop (p : TimerPool α) (inIsr : Bool) (h : Option Handle) : TimerPool α × Code :=
  if inIsr then (p, Code.context)
  else match p.timerFromHandle h with
    | none => (p, Code.inval)
    | some i => (((p.activeRemove i).pendingRemove i).setTimer i fun t => { t with active := false, pending := false }, Code.ok)

/-- `aixos_timer_delete` -/
def timerDelete (p : TimerPool α) (inIsr : Bool) (h : Option Handle) : TimerPool α × Code :=
  if inIsr then (p, Code.context)
  else match p.timerFromHandle h with
    | none => (p, Code.inval)
    | some i =>
      let p := (p.activeRemove i).pendingRemove i
      ({ p with slots := Function.update p.slots i { p.slots i with used := false } }.setTimer i fun _ => {}, Code.ok)

variable [cfg : Config]

/-- `aixos_timer_start`, at tick `now` -/
def timerStart (p : TimerPool α) (inIsr : Bool) (now : Word) (h : Option Handle) (intervalMs : Word) : TimerPool α × Code :=
  if inIsr then (p, Code.context)
  else
    let interval := msToTicks intervalMs
    if intervalMs = 0 ∨ interval = forever then (p, Code.inval)
    else match p.timerFromHandle h with
      | none => (p, Code.inval)
      | some i =>
        let p := (p.activeRemove i).setTimer i fun t =>
          { t with interval := interval, deadline := now + interval, active := true }
        (p.activeInsert i, Code.ok)

end

/-- A timer of the active list has expired at tick `now`. -/
def expire (p : TimerPool α) (now : Word) (i : ℕ) : TimerPool α :=
  let timer := p.timers i
  let p := { p with activeTimers := p.activeTimers.erase i }
  let p :=
    match timer.type with
    | .periodic =>
      let late := now - timer.deadline
      let periods := late / timer.interval + 1
      (p.setTimer i fun t => { t with deadline := t.deadline + periods * t.interval }).activeInsert i
    | .oneshot => p.setTimer i fun t => { t with active := false }
  if timer.pending then p
  else { p.setTimer i fun t => { t with pending := true } with pendingTimers := p.pendingTimers ++ [i] }

/-- The loop of `aixos_timer_tick`, for as many timers as there are active. -/
def tickLoop (now : Word) : ℕ → TimerPool α → TimerPool α
  | 0, p => p
  | n + 1, p =>
    match p.activeTimers with
    | [] => p
    | i :: _ => if tickReached now (p.timers i).deadline then tickLoop now n (p.expire now i) else p

/-- `aixos_timer_tick`, up to where it wakes the service -/
def timerTick (p : TimerPool α) (now : Word) : TimerPool α := tickLoop now p.activeTimers.length p

/-- The critical section of `aixos_timer_dispatch`: the first timer that is pending, and its callback. -/
def dispatchTake (p : TimerPool α) : Option (TimerPool α × Option α) :=
  match p.pendingTimers with
  | [] => none
  | i :: rest => some ({ p with pendingTimers := rest }.setTimer i fun t => { t with pending := false }, (p.timers i).callback)

end TimerPool

end Aixos
