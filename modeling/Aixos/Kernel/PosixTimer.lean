import Aixos.Kernel.Clock
import Aixos.Kernel.Named
import Aixos.Kernel.Object
import Aixos.Kernel.Timer

/-!
# POSIX timers

The part of `compat/posix/posix.c` that makes timers, each over a periodic timer of `timer.c`, and the steps in which the
timer service calls `posix_timer_expired`.

* `PosixTimers.create`, `delete`, `gettime`, `settime`, `getoverrun` — the functions that tasks call.
* `PosixTimers.expired` — the critical section of `posix_timer_expired`.
* `PosixTimers.step` — a task calls a function; a tick; the service goes on.

The service is preempted between any two steps. The function and the value of an event are one value of a type `ε`.
-/

namespace Aixos.Posix

/-- The macro of `aixos_cfg.h` that POSIX timers use. -/
class PosixTimerConfig where
  /-- `AIXOS_CFG_POSIX_TIMERS` -/
  posixTimers : ℕ
  posixTimers_pos : 0 < posixTimers
  posixTimers_le : posixTimers ≤ 255

theorem PosixTimerConfig.posixTimers_default : 0 < 16 := by decide

/-- Its value when the user overrides nothing. -/
@[reducible] def PosixTimerConfig.default : PosixTimerConfig where
  posixTimers := 16
  posixTimers_pos := posixTimers_default
  posixTimers_le := by decide

/-- `AIXOS_CLOCK_REALTIME` -/
def clockRealtime : ℤ := 0

/-- `AIXOS_SIGEV_NONE` -/
def sigevNone : ℤ := 0

/-- `AIXOS_SIGEV_THREAD` -/
def sigevThread : ℤ := 2

/-- `INT32_MAX` -/
def int32Max : ℕ := 2 ^ 31 - 1

/-- `aixos_sigevent_t` -/
structure Sigevent (ε : Type) where
  /-- `notify` -/
  notify : ℤ := sigevNone
  /-- `function`, with `value` -/
  function : Option ε := none

/-- `posix_timer_t` -/
structure PosixTimer (ε : Type) where
  /-- `native`; there is no handle for `AIXOS_HANDLE_INVALID`. -/
  native : Option Handle := none
  /-- `generation` -/
  generation : Word := 0
  /-- `next_deadline` -/
  nextDeadline : Word := 0
  /-- `interval_ticks` -/
  intervalTicks : Word := 0
  /-- `overrun` -/
  overrun : ℕ := 0
  /-- `event` -/
  event : Sigevent ε := {}
  /-- `used` -/
  used : Bool := false
  /-- `active` -/
  active : Bool := false

/-- Where the timer service is. -/
inductive ExpiryPhase (ε : Type) where
  /-- before the critical section of `aixos_timer_dispatch` -/
  | idle
  /-- before the critical section of `posix_timer_expired` -/
  | taken (i : ℕ)
  /-- before it starts or stops the native timer -/
  | restart (i : ℕ) (restartMs : Word) (event : Sigevent ε)
  /-- before it calls `event.function` -/
  | call (i : ℕ) (event : Sigevent ε)

/-- The POSIX timers, their native timers, the time, and where the timer service is. -/
structure PosixTimers (ε : Type) where
  /-- The ticks so far. -/
  ticks : ℕ
  /-- The variables of `timer.c`; the callback is `posix_timer_expired` of the timer named. -/
  natives : TimerPool ℕ
  /-- `timers` -/
  timers : ℕ → PosixTimer ε
  /-- Where the timer service is. -/
  phase : ExpiryPhase ε

/-- One step. -/
inductive TimerStep (ε : Type) where
  /-- `aixos_timer_posix_create`; whether `handle` is not `NULL`. -/
  | create (clockId : ℤ) (event : Option (Sigevent ε)) (handle : Bool)
  /-- `aixos_timer_posix_delete` -/
  | delete (h : BitVec 32)
  /-- `aixos_timer_posix_gettime`; whether `value` is not `NULL`. -/
  | gettime (h : BitVec 32) (value : Bool)
  /-- `aixos_timer_posix_settime` -/
  | settime (h : BitVec 32) (flags : ℤ) (value : Option Itimerspec)
  /-- `aixos_timer_posix_getoverrun` -/
  | getoverrun (h : BitVec 32)
  /-- A tick. -/
  | tick
  /-- The timer service goes on. -/
  | serve

/-- `ms_to_timespec` -/
def msToTimespec (ms : Word) : Timespec where
  sec := (ms.toNat / 1000 : ℕ)
  nsec := (ms.toNat % 1000 * 1000000 : ℕ)

/-- `aixos_timer_posix_create` takes such an event. -/
def eventValid {ε : Type} : Option (Sigevent ε) → Bool
  | none => true
  | some event => event.notify = sigevNone ∨ (event.notify = sigevThread ∧ event.function.isSome)

namespace PosixTimers

variable {ε : Type}

/-- At the start. -/
def init : PosixTimers ε where
  ticks := 0
  natives := .init
  timers := fun _ => {}
  phase := .idle

/-- Store into the fields of one timer. -/
def setTimer (p : PosixTimers ε) (i : ℕ) (f : PosixTimer ε → PosixTimer ε) : PosixTimers ε :=
  { p with timers := Function.update p.timers i (f (p.timers i)) }

/-- `aixos_get_tick` -/
def getTick (p : PosixTimers ε) : Word := .ofNat 32 p.ticks

section

variable [pcfg : PosixTimerConfig]

/-- `timer_from_handle` -/
def timerFromHandle (p : PosixTimers ε) (handle : BitVec 32) : Option ℕ :=
  if handle.msb then none
  else
    let index := handleIdx handle
    if pcfg.posixTimers ≤ index then none
    else if !(p.timers index).used ∨ (p.timers index).generation ≠ handleGen handle then none
    else some index

/-- `timer->generation++`, and not zero -/
def nextTimerGeneration (g : Word) : Word := if g + 1 = 0 then 1 else g + 1

/-- `aixos_timer_posix_create` -/
def create [ocfg : ObjectConfig] (p : PosixTimers ε) (clockId : ℤ) (event : Option (Sigevent ε)) (handle : Bool) :
    PosixTimers ε × Errno × Option (BitVec 32) :=
  if clockId ≠ clockMonotonic ∨ !handle ∨ !eventValid event then
    (p, if clockId = clockRealtime then Errno.notsup else Errno.inval, none)
  else match (List.range pcfg.posixTimers).find? fun i => !(p.timers i).used with
    | none => (p, Errno.again, none)
    | some i =>
      let generation := nextTimerGeneration (p.timers i).generation
      let p := p.setTimer i fun t =>
        { t with generation, used := true, native := none, active := false, intervalTicks := 0, overrun := 0
                 event := event.getD {} }
      match p.natives.timerCreate false .periodic (some i) with
      | (_, none) => (p.setTimer i fun t => { t with used := false }, Errno.again, none)
      | (natives, some native) =>
        ({ p with natives }.setTimer i fun t => { t with native := some native }, 0, some (handleMake i generation))

/-- `aixos_timer_posix_delete` -/
def delete [ocfg : ObjectConfig] (p : PosixTimers ε) (handle : BitVec 32) : PosixTimers ε × Errno :=
  match p.timerFromHandle handle with
  | none => (p, Errno.inval)
  | some i =>
    let native := (p.timers i).native
    let p := p.setTimer i fun t => { t with used := false, active := false, native := none }
    let (natives, result) := p.natives.timerDelete false native
    ({ p with natives }, mapError result)

/-- `aixos_timer_posix_getoverrun` -/
def getoverrun (p : PosixTimers ε) (handle : BitVec 32) : ℤ :=
  match p.timerFromHandle handle with
  | none => -Errno.inval
  | some i => (p.timers i).overrun

variable [cfg : Config]

/-- `timer_snapshot` -/
def snapshot (p : PosixTimers ε) (i : ℕ) : Itimerspec :=
  let timer := p.timers i
  let left := timer.nextDeadline - p.getTick
  let remainingTicks := if timer.active ∧ 0 < left.toInt then left else 0
  { interval := msToTimespec (ticksToMs timer.intervalTicks), value := msToTimespec (ticksToMs remainingTicks) }

/-- `aixos_timer_posix_gettime`; whether `value` is not `NULL`. -/
def gettime (p : PosixTimers ε) (handle : BitVec 32) (value : Bool) : Errno × Option Itimerspec :=
  if !value then (Errno.inval, none)
  else match p.timerFromHandle handle with
    | none => (Errno.inval, none)
    | some i => (0, some (p.snapshot i))

/-- The part of `aixos_timer_posix_settime` before its critical section: `initial_ms`, `initial_ticks` and `interval_ticks`,
or `none` for `AIXOS_EINVAL`. -/
def settimeTicks (p : PosixTimers ε) (flags : ℤ) (value : Option Itimerspec) : Option (Word × Word × Word) :=
  match value.bind fun v => settimeMs flags v (clockGettime (p.ticks % 2 ^ 64)) with
  | none => none
  | some (initialMs, intervalMs) =>
    let initialTicks := msToTicks initialMs
    let intervalTicks := msToTicks intervalMs
    if (initialMs ≠ 0 ∧ initialTicks = forever) ∨ (intervalMs ≠ 0 ∧ intervalTicks = forever) then none
    else some (initialMs, initialTicks, intervalTicks)

/-- `aixos_timer_posix_settime`, with what it stores into `old_value`, if that is not `NULL`. -/
def settime [ocfg : ObjectConfig] (p : PosixTimers ε) (handle : BitVec 32) (flags : ℤ) (value : Option Itimerspec) :
    PosixTimers ε × Errno × Option Itimerspec :=
  match p.settimeTicks flags value with
  | none => (p, Errno.inval, none)
  | some (initialMs, initialTicks, intervalTicks) =>
    match p.timerFromHandle handle with
    | none => (p, Errno.inval, none)
    | some i =>
      let old := p.snapshot i
      let p := { p with natives := (p.natives.timerStop false (p.timers i).native).1 }
      let p := p.setTimer i fun t => { t with active := false, intervalTicks, overrun := 0 }
      if initialMs ≠ 0 then
        let p := p.setTimer i fun t => { t with nextDeadline := p.getTick + initialTicks }
        let (natives, result) := p.natives.timerStart false p.getTick (p.timers i).native initialMs
        let p := { p with natives }
        let p := if result = Code.ok then p.setTimer i fun t => { t with active := true } else p
        (p, mapError result, some old)
      else (p, mapError Code.ok, some old)

end

/-- `timer->overrun`, when `posix_timer_expired` runs at tick `now` -/
def missed (t : PosixTimer ε) (now : Word) : ℕ :=
  if tickReached now t.nextDeadline then min int32Max ((now - t.nextDeadline) / t.intervalTicks).toNat else 0

/-- The critical section of `posix_timer_expired`, with `restart_ms` and the event; `none` if it returns at once. -/
def expired [cfg : Config] (p : PosixTimers ε) (i : ℕ) : Option (PosixTimers ε × Word × Sigevent ε) :=
  let timer := p.timers i
  if !timer.used ∨ !timer.active then none
  else if timer.intervalTicks ≠ 0 then
    some (p.setTimer i fun t => { t with overrun := missed t p.getTick, nextDeadline := p.getTick + t.intervalTicks },
      ticksToMs timer.intervalTicks, timer.event)
  else some (p.setTimer i fun t => { t with overrun := 0, active := false }, 0, timer.event)

variable [cfg : Config] [ocfg : ObjectConfig]

/-- The timer service goes on. -/
def serve (p : PosixTimers ε) : Option (PosixTimers ε) :=
  match p.phase with
  | .idle =>
    match p.natives.dispatchTake with
    | some (natives, some i) => some { p with natives, phase := .taken i }
    | _ => none
  | .taken i =>
    match p.expired i with
    | none => some { p with phase := .idle }
    | some (p, restartMs, event) => some { p with phase := .restart i restartMs event }
  | .restart i restartMs event =>
    let native := (p.timers i).native
    let natives :=
      if restartMs ≠ 0 then (p.natives.timerStart false p.getTick native restartMs).1
      else (p.natives.timerStop false native).1
    some { p with natives, phase := .call i event }
  | .call _ _ => some { p with phase := .idle }

variable [pcfg : PosixTimerConfig]

/-- One step. -/
def step (p : PosixTimers ε) : TimerStep ε → Option (PosixTimers ε)
  | .create clockId event handle => some (p.create clockId event handle).1
  | .delete h => some (p.delete h).1
  | .gettime _ _ => some p
  | .settime h flags value => some (p.settime h flags value).1
  | .getoverrun _ => some p
  | .tick => some { p with ticks := p.ticks + 1, natives := p.natives.timerTick (.ofNat 32 (p.ticks + 1)) }
  | .serve => p.serve

end PosixTimers

end Aixos.Posix
