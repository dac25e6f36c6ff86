import Aixos.Kernel.Ipc
import Aixos.Kernel.Posix

/-!
# Time in POSIX functions

The part of `compat/posix/posix.c` that converts times, and the functions that sleep: `aixos_nanosleep`,
`aixos_clock_nanosleep` and `usleep` of `posix/include/unistd.h`.

* `clockGettime` — `aixos_clock_gettime`, for the monotonic clock.
* `timespecToMs`, `ticksToMs`, `settimeMs` — the conversions, beside `relativeTimeout`.
* `SleepCall` — the functions that sleep.
-/

namespace Aixos.Posix

/-- `timespec_valid` -/
def timespecValid (value : Timespec) : Bool := decide (0 ≤ value.sec ∧ 0 ≤ value.nsec ∧ value.nsec < 1000000000)

/-- The milliseconds that `timespec_to_ms` and `aixos_nanosleep` compute, in 64 bits. -/
def milliseconds (value : Timespec) : ℕ := (value.sec.toNat * 1000 + (value.nsec.toNat + 999999) / 1000000) % 2 ^ 64

/-- `timespec_to_ms`, or `none` for `AIXOS_EINVAL` -/
def timespecToMs (value : Timespec) : Option Word :=
  if !timespecValid value then none
  else if forever.toNat < milliseconds value then none
  else some (.ofNat 32 (milliseconds value))

/-- `aixos_itimerspec_t` -/
structure Itimerspec where
  /-- `interval` -/
  interval : Timespec
  /-- `value` -/
  value : Timespec
  deriving DecidableEq

/-- `AIXOS_TIMER_ABSTIME` -/
def timerAbstime : ℤ := 1

/-- The part of `aixos_timer_posix_settime` that computes `initial_ms` of an absolute time, at the time `now`. -/
def absoluteMs (absolute now : Timespec) : Option Word :=
  let borrow := decide (absolute.nsec - now.nsec < 0)
  let seconds := absolute.sec - now.sec - if borrow then 1 else 0
  let nanoseconds := absolute.nsec - now.nsec + if borrow then 1000000000 else 0
  if seconds < 0 then some 1
  else
    let deltaNs := (seconds.toNat * 1000000000 + nanoseconds.toNat) % 2 ^ 64
    if deltaNs = 0 then some 1
    else if forever.toNat * 1000000 < deltaNs then none
    else some (.ofNat 32 ((deltaNs + 999999) / 1000000))

/-- `aixos_timer_posix_settime`, up to where it has `initial_ms` and `interval_ms`; `none` for `AIXOS_EINVAL`. -/
def settimeMs (flags : ℤ) (value : Itimerspec) (now : Timespec) : Option (Word × Word) :=
  if (flags ≠ 0 ∧ flags ≠ timerAbstime) ∨ !timespecValid value.value ∨ !timespecValid value.interval then none
  else match timespecToMs value.interval with
    | none => none
    | some intervalMs =>
      if value.value.sec = 0 ∧ value.value.nsec = 0 then some (0, intervalMs)
      else
        (if flags = timerAbstime then absoluteMs value.value now else timespecToMs value.value).map (·, intervalMs)

variable [cfg : Config]

/-- `aixos_clock_gettime`, after so many ticks -/
def clockGettime (ticks : ℕ) : Timespec where
  sec := ticks / cfg.systickHz
  nsec := (ticks % cfg.systickHz * 1000000000 / cfg.systickHz : ℕ)

/-- `ticks_to_ms` -/
def ticksToMs (ticks : Word) : Word :=
  let milliseconds := (ticks.toNat * 1000 + cfg.systickHz - 1) / cfg.systickHz
  if forever.toNat < milliseconds then forever else .ofNat 32 milliseconds

/-- The functions that sleep. -/
inductive SleepCall where
  /-- `aixos_nanosleep` -/
  | nanosleep (request : Timespec)
  /-- `aixos_clock_nanosleep` -/
  | clockNanosleep (clockId : ℤ) (absolute : Bool) (request : Timespec)
  /-- `usleep` -/
  | usleep (microseconds : Word)

/-- `aixos_nanosleep`, up to its call of `aixos_task_sleep`; `none` for `AIXOS_EINVAL`. -/
def nanosleepMs (request : Timespec) : Option Word :=
  if request.sec < 0 ∨ request.nsec < 0 ∨ 1000000000 ≤ request.nsec then none
  else if forever.toNat < milliseconds request then none
  else some (.ofNat 32 (milliseconds request))

/-- `AIXOS_CLOCK_MONOTONIC` -/
def clockMonotonic : ℤ := 1

/-- The argument of `aixos_task_sleep`; `none` for `AIXOS_EINVAL` or `AIXOS_ENOTSUP`. -/
def SleepCall.ms (f : SleepCall) (now : Timespec) : Option Word :=
  match f with
  | .nanosleep request => nanosleepMs request
  | .clockNanosleep clockId absolute request =>
    if clockId ≠ clockMonotonic then none
    else if !absolute then nanosleepMs request
    else relativeTimeout request now
  | .usleep microseconds => some ((microseconds + 999) / 1000)

/-- The function is called; `none` for an error that is returned before anything is done. What `aixos_task_sleep` returns
is mapped to an `errno` value. -/
def SleepCall.exec (f : SleepCall) (k : Kernel) : Option (Kernel × Aixos.Outcome) :=
  (f.ms (clockGettime k.core.totalTicks.toNat)).map k.taskSleep

end Aixos.Posix
