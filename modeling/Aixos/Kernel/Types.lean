import Mathlib.Algebra.Order.Ring.Int
import Mathlib.Algebra.Order.Ring.Nat
import Mathlib.Data.BitVec

/-!
# Words, codes and configuration

The fixed data of the kernel: the integer codes of `types.h`, the task states, the
configuration macros of `aixos_cfg.h` with the limits its `#error` lines enforce,
and the conversions between milliseconds and ticks.

A macro that `aixos_cfg.h` lets the user override is a field of `Config`; the
results hold for every value the header accepts. A macro it fixes is a definition.
-/

namespace Aixos

/-- A 32-bit register. -/
abbrev Word := BitVec 32

/-- The identity of a task. A handle given to the kernel is modelled by the task whose
control block it was made for; no task is created twice, so a handle of a deleted
task resolves to nothing. -/
abbrev TaskId := ℕ

/-- An integer result: `AIXOS_OK`, a negative error or a count. -/
abbrev Code := ℤ

namespace Code

/-- `AIXOS_OK` -/
def ok : Code := 0

/-- `AIXOS_ERR_TIMEOUT` -/
def timeout : Code := -2

/-- `AIXOS_ERR_BUSY` -/
def busy : Code := -3

/-- `AIXOS_ERR_INVAL` -/
def inval : Code := -4

/-- `AIXOS_ERR_NOMEM` -/
def nomem : Code := -5

/-- `AIXOS_ERR_AGAIN` -/
def again : Code := -6

/-- `AIXOS_ERR_CONTEXT` -/
def context : Code := -7

/-- `AIXOS_ERR_OVERFLOW` -/
def overflow : Code := -8

/-- `AIXOS_ERR_LOCKED` -/
def locked : Code := -9

/-- `AIXOS_ERR_CORRUPT` -/
def corrupt : Code := -10

/-- `AIXOS_ERR_INTR` -/
def intr : Code := -11

/-- `AIXOS_ERR_PERM` -/
def perm : Code := -12

/-- `AIXOS_ERR_FAULT` -/
def fault : Code := -13

/-- `AIXOS_ERR_NOSYS` -/
def nosys : Code := -14

/-- `AIXOS_ERR_NOT_FOUND` -/
def notFound : Code := -16

end Code

/-- `aixos_task_state_t` -/
inductive TaskState where
  /-- In a ready queue. -/
  | ready
  /-- In a ready queue, and given the processor by the scheduler. -/
  | running
  /-- Waiting for an object. -/
  | blocked
  /-- Sleeping. -/
  | delayed
  /-- Stopped by `aixos_task_suspend`. -/
  | suspended
  /-- Deleted, or never created. -/
  | stop
  deriving DecidableEq, Repr

/-- The kinds of objects that live in a fixed pool and carry wait lists. -/
inductive ObjKind where
  /-- `AIXOS_OBJ_SEM` -/
  | sem
  /-- `AIXOS_OBJ_MUTEX` -/
  | mutex
  /-- `AIXOS_OBJ_MQ` -/
  | mq
  /-- `AIXOS_OBJ_EVENT` -/
  | event
  /-- `AIXOS_OBJ_PIPE` -/
  | pipe
  deriving DecidableEq, Repr

/-- The macros of `aixos_cfg.h` that a user may set, within the limits of the header. -/
class Config where
  /-- `AIXOS_CFG_MAX_PRIORITY` -/
  maxPriority : ℕ
  /-- `AIXOS_CFG_TIMER_TASK_PRIORITY` -/
  timerTaskPriority : ℕ
  /-- `AIXOS_CFG_SYSTEM_TASKS_RESERVED` -/
  systemTasksReserved : ℕ
  /-- `AIXOS_CFG_CAPS_PER_TASK` -/
  capsPerTask : ℕ
  /-- `AIXOS_CFG_MAX_SEM`, `AIXOS_CFG_MAX_MUTEX`, … -/
  maxCount : ObjKind → ℕ
  /-- `AIXOS_CFG_TIME_SLICE_TICKS` -/
  timeSliceTicks : ℕ
  /-- `AIXOS_CFG_SYSTICK_HZ` -/
  systickHz : ℕ
  /-- `AIXOS_CFG_IDLE_STACK_SIZE`, in words -/
  idleStackSize : ℕ
  /-- `AIXOS_CFG_TIMER_STACK_SIZE`, in bytes -/
  timerStackSize : ℕ
  /-- `AIXOS_CFG_MIN_TASK_STACK_SIZE` -/
  minTaskStackSize : ℕ
  /-- `AIXOS_CFG_MPU_MIN_REGION_SIZE` -/
  mpuMinRegionSize : ℕ
  maxPriority_ge : 2 ≤ maxPriority
  maxPriority_le : maxPriority ≤ 256
  timerTaskPriority_lt : timerTaskPriority < maxPriority
  systemTasksReserved_ge : 2 ≤ systemTasksReserved
  systemTasksReserved_lt : systemTasksReserved < 256
  capsPerTask_ge : 4 ≤ capsPerTask
  capsPerTask_le : capsPerTask ≤ 32
  maxCount_le : ∀ k, maxCount k ≤ 32
  timeSliceTicks_pos : 0 < timeSliceTicks
  systickHz_pos : 0 < systickHz
  timerStackSize_ge : minTaskStackSize ≤ timerStackSize
  idleStackSize_ge : minTaskStackSize ≤ idleStackSize * 4

/-- The values of `aixos_cfg.h` when the user overrides nothing. -/
@[reducible] def Config.default : Config where
  maxPriority := 256
  timerTaskPriority := 63
  systemTasksReserved := 2
  capsPerTask := 16
  maxCount
    | .sem => 32
    | .pipe => 8
    | _ => 16
  timeSliceTicks := 1
  systickHz := 1000
  idleStackSize := 256
  timerStackSize := 512
  minTaskStackSize := 192
  mpuMinRegionSize := 32
  maxPriority_ge := by decide
  maxPriority_le := by decide
  timerTaskPriority_lt := by decide
  systemTasksReserved_ge := by decide
  systemTasksReserved_lt := by decide
  capsPerTask_ge := by decide
  capsPerTask_le := by decide
  maxCount_le := by intro k; cases k <;> decide
  timeSliceTicks_pos := by decide
  systickHz_pos := by decide
  timerStackSize_ge := by decide
  idleStackSize_ge := by decide

/-- `AIXOS_CFG_TASK_HANDLE_LIMIT` -/
def taskHandleLimit : ℕ := 256

/-- `AIXOS_CFG_IDLE_PRIORITY` -/
def idlePriority : ℕ := 0

/-- `AIXOS_CFG_SEM_MAX_COUNT` -/
def semMaxCount : ℕ := 0x7FFFFFFF

/-- `AIXOS_CFG_TIMEOUT_MAX_TICKS` -/
def timeoutMaxTicks : ℕ := 0x7FFFFFFF

/-- `AIXOS_CFG_MAX_IPC_COPY_BYTES` -/
def maxIpcCopyBytes : ℕ := 1024

/-- `AIXOS_CFG_ISR_COPY_MAX_BYTES` -/
def isrCopyMaxBytes : ℕ := 64

/-- `AIXOS_CFG_ISR_MQ_SHIFT_MAX` -/
def isrMqShiftMax : ℕ := 2

/-- `AIXOS_CFG_MQ_PRIORITY_MAX` -/
def mqPriorityMax : ℕ := 31

/-- `UINT32_MAX`: the timeout that never ends. -/
def forever : Word := BitVec.allOnes 32

variable [cfg : Config]

/-- `aixos_ms_to_ticks`: rounded up, at least one tick for a timeout that is not zero,
and no more than the half range that tick comparison can tell apart. -/
def msToTicks (ms : Word) : Word :=
  if ms = forever then forever else
  let ticks := (ms.toNat * cfg.systickHz + 999) / 1000
  let ticks := if ticks = 0 ∧ ms ≠ 0 then 1 else ticks
  .ofNat 32 (if timeoutMaxTicks < ticks then timeoutMaxTicks else ticks)

/-- `aixos_timeout_remaining_ms`, at tick `now`. -/
def timeoutRemainingMs (now startTick timeoutMs : Word) : Word :=
  if timeoutMs = forever then forever else
  let total := msToTicks timeoutMs
  let elapsed := now - startTick
  if total ≤ elapsed then 0 else
  let remaining := total - elapsed
  let milliseconds := (remaining.toNat * 1000 + cfg.systickHz - 1) / cfg.systickHz
  if 2 ^ 32 - 1 < milliseconds then forever else .ofNat 32 milliseconds

/-- `tick_reached`: the difference, read as a signed number, is not negative. -/
def tickReached (now deadline : Word) : Bool := !(now - deadline).msb

/-- A timeout in ticks is finite exactly when the timeout in milliseconds is. -/
theorem msToTicks_eq_forever {ms : Word} : msToTicks ms = forever ↔ ms = forever := by
  unfold msToTicks
  split
  · simp [*]
  · rename_i h
    simp only [h, iff_false]
    intro e
    have hcap : ∀ n : ℕ, (if timeoutMaxTicks < n then timeoutMaxTicks else n) < 2 ^ 32 - 1 := by
      intro n
      unfold timeoutMaxTicks
      split <;> omega
    have := congrArg BitVec.toNat e
    rw [BitVec.toNat_ofNat, Nat.mod_eq_of_lt (Nat.lt_trans (hcap _) (by decide))] at this
    exact Nat.ne_of_lt (hcap _) this

end Aixos
