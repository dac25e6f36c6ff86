import Aixos.Kernel.Types

/-!
# Interrupt nesting and reschedule requests, access by access

`isr.c` with its shared variables as 32-bit words. A function is a sequence of atomic accesses, and an
interrupt may arrive between any two; what a function does with interrupts disabled is one access.

* `IsrVars` — the variables.
* `Point`, `IsrVars.access` — where a function is, and its next access.
* `Nest`, `Nest.step` — a task and the handlers that have interrupted it, one upon the other.

An interrupt handler calls `aixos_isr_enter` first, makes calls, and is over once it has called
`aixos_isr_exit` as often. What the task calls is left open.
-/

namespace Aixos

/-- The macros of `aixos_cfg.h` that `isr.c` uses. -/
class IsrConfig where
  /-- `AIXOS_CFG_ISR_NESTING_MAX` -/
  nestingMax : ℕ
  /-- `AIXOS_CFG_ISR_NESTING_PANIC` -/
  nestingPanic : Bool
  nestingMax_pos : 0 < nestingMax
  nestingMax_le : nestingMax ≤ 255

/-- The values of `aixos_cfg.h` when the user overrides nothing. -/
@[reducible] def IsrConfig.default : IsrConfig where
  nestingMax := 8
  nestingPanic := false
  nestingMax_pos := by decide
  nestingMax_le := by decide

/-- The variables of `isr.c`. -/
structure IsrVars where
  /-- `isr_nesting` -/
  nesting : Word := 0
  /-- `isr_nesting_high_watermark` -/
  highWatermark : Word := 0
  /-- `isr_nesting_overflows` -/
  overflows : Word := 0
  /-- `reschedule_pending` -/
  pending : Word := 0
  /-- `scheduler_lock_nesting` -/
  lockNesting : Word := 0

/-- The functions. -/
inductive NestCall where
  | isrEnter
  | isrExit
  | rescheduleRequest
  | schedLock
  | schedUnlock
  deriving DecidableEq, Repr

/-- The next access of a function, with the values it has loaded. -/
inductive Point where
  /-- `AIXOS_ATOMIC_ADD_FETCH(&isr_nesting, 1U)` -/
  | enterAdd
  /-- The load in `isr_update_high_watermark`. -/
  | enterLoadHigh (level : Word)
  /-- The exchange in `isr_update_high_watermark`. -/
  | enterRaiseHigh (level high : Word)
  /-- `isr_record_nesting_overflow` -/
  | enterOverflow
  /-- `aixos_panic`, which does not return. -/
  | panicked
  /-- `old_level = AIXOS_ATOMIC_LOAD(&isr_nesting)` -/
  | exitLoad
  /-- The exchange of `old_level` for `old_level - 1U`. -/
  | exitDrop (oldLevel : Word)
  /-- `AIXOS_ATOMIC_LOAD(&scheduler_lock_nesting) == 0U`, at level zero -/
  | exitTestLock
  /-- `AIXOS_ATOMIC_EXCHANGE(&reschedule_pending, 0U)` -/
  | exitTake
  /-- `aixos_arch_context_switch` in `aixos_isr_exit` -/
  | exitSwitch
  /-- `AIXOS_ATOMIC_LOAD(&isr_nesting) != 0U` -/
  | requestTestNesting
  /-- `AIXOS_ATOMIC_LOAD(&scheduler_lock_nesting) != 0U` -/
  | requestTestLock
  /-- `AIXOS_ATOMIC_STORE(&reschedule_pending, 1U)` -/
  | requestStore
  /-- `aixos_arch_context_switch` in `aixos_reschedule_request` -/
  | requestSwitch
  /-- `aixos_in_isr()` in `aixos_sched_lock` -/
  | lockTest
  /-- `AIXOS_ATOMIC_ADD_FETCH(&scheduler_lock_nesting, 1U)` -/
  | lockAdd
  /-- `aixos_in_isr()` in `aixos_sched_unlock` -/
  | unlockTest
  /-- What `aixos_sched_unlock` does with interrupts disabled. -/
  | unlockSub
  /-- `aixos_arch_context_switch` in `aixos_sched_unlock` -/
  | unlockSwitch
  deriving DecidableEq, Repr

/-- The first access of a function. -/
def NestCall.start : NestCall → Point
  | .isrEnter => .enterAdd
  | .isrExit => .exitLoad
  | .rescheduleRequest => .requestTestNesting
  | .schedLock => .lockTest
  | .schedUnlock => .unlockTest

/-- What the accesses say about reschedule requests. -/
inductive NestEvent where
  /-- A request has been left pending. -/
  | deferred
  /-- The pending requests have been taken over by a function that will switch. -/
  | taken
  /-- The switch for the requests that have been taken over. -/
  | switched
  /-- A request has been granted at once. -/
  | direct
  deriving DecidableEq, Repr

namespace IsrVars

variable [icfg : IsrConfig]

/-- The end of `aixos_isr_enter`. -/
def enterLast (level : Word) : Option Point :=
  if icfg.nestingMax < level.toNat then some .enterOverflow else none

/-- The test of the loop in `isr_update_high_watermark`. -/
def enterHigh (level high : Word) : Option Point :=
  if high < level then some (.enterRaiseHigh level high) else enterLast level

/-- The next access of a function: the variables after it, and where the function is then, unless it
has returned. -/
def access (v : IsrVars) : Point → Option (IsrVars × Option Point)
  | .enterAdd => some ({ v with nesting := v.nesting + 1 }, some (.enterLoadHigh (v.nesting + 1)))
  | .enterLoadHigh level => some (v, enterHigh level v.highWatermark)
  | .enterRaiseHigh level high =>
    if v.highWatermark = high then some ({ v with highWatermark := level }, enterLast level)
    else some (v, enterHigh level v.highWatermark)
  | .enterOverflow =>
    some ({ v with overflows := v.overflows + 1 }, if icfg.nestingPanic then some .panicked else none)
  | .panicked => none
  | .exitLoad => some (v, if v.nesting = 0 then none else some (.exitDrop v.nesting))
  | .exitDrop oldLevel =>
    if v.nesting = oldLevel then
      some ({ v with nesting := oldLevel - 1 }, if oldLevel - 1 = 0 then some .exitTestLock else none)
    else some (v, some .exitLoad)
  | .exitTestLock => some (v, if v.lockNesting = 0 then some .exitTake else none)
  | .exitTake => some ({ v with pending := 0 }, if v.pending ≠ 0 then some .exitSwitch else none)
  | .exitSwitch => some (v, none)
  | .requestTestNesting => some (v, some (if v.nesting ≠ 0 then .requestStore else .requestTestLock))
  | .requestTestLock => some (v, some (if v.lockNesting ≠ 0 then .requestStore else .requestSwitch))
  | .requestStore => some ({ v with pending := 1 }, none)
  | .requestSwitch => some (v, none)
  | .lockTest => some (v, if v.nesting ≠ 0 then none else some .lockAdd)
  | .lockAdd => some ({ v with lockNesting := v.lockNesting + 1 }, none)
  | .unlockTest => some (v, if v.nesting ≠ 0 then none else some .unlockSub)
  | .unlockSub =>
    if v.lockNesting = 0 then some (v, none)
    else if v.lockNesting - 1 = 0 then
      some ({ v with lockNesting := v.lockNesting - 1, pending := 0 },
        if v.pending ≠ 0 then some .unlockSwitch else none)
    else some ({ v with lockNesting := v.lockNesting - 1 }, none)
  | .unlockSwitch => some (v, none)

omit icfg in
/-- What an access says about reschedule requests. -/
def event (v : IsrVars) : Point → List NestEvent
  | .requestStore => [.deferred]
  | .exitTake => if v.pending ≠ 0 then [.taken] else []
  | .unlockSub => if v.lockNesting ≠ 0 ∧ v.lockNesting - 1 = 0 ∧ v.pending ≠ 0 then [.taken] else []
  | .exitSwitch => [.switched]
  | .unlockSwitch => [.switched]
  | .requestSwitch => [.direct]
  | _ => []

end IsrVars

/-- The task, or a handler. -/
structure Activation where
  /-- Where it is in a function; `none` between calls. -/
  point : Option Point := none
  /-- How many levels of nesting it has entered and not left. -/
  depth : ℕ := 0

/-- The depth of an activation after an access. -/
def Activation.depthAfter (f : Activation) (v : IsrVars) : Point → ℕ
  | .enterAdd => f.depth + 1
  | .exitDrop oldLevel => if v.nesting = oldLevel then f.depth - 1 else f.depth
  | _ => f.depth

/-- The processor: the variables, and what has been interrupted. -/
structure Nest where
  /-- The variables. -/
  vars : IsrVars
  /-- What runs. -/
  top : Activation
  /-- What has been interrupted, the last interrupted first; the task is the last. -/
  below : List Activation

/-- One action of the processor. -/
inductive NestAct where
  /-- What runs calls a function. -/
  | call (c : NestCall)
  /-- The next access of the function that runs. -/
  | access
  /-- An interrupt arrives. -/
  | interrupt
  /-- The handler returns. -/
  | handlerReturn
  deriving DecidableEq, Repr

namespace Nest

/-- The start: a task, and nothing nested, locked or pending. -/
def init : Nest where
  vars := {}
  top := {}
  below := []

variable [icfg : IsrConfig]

/-- One step. -/
def step (s : Nest) : NestAct → Option Nest
  | .call c =>
    -- a handler makes calls while it is inside a level that it has entered
    if s.top.point = none ∧ (s.below = [] ∨ s.top.depth ≠ 0) then
      some { s with top := { s.top with point := some c.start } }
    else none
  | .access =>
    match s.top.point with
    | none => none
    | some p =>
      (s.vars.access p).map fun r =>
        { s with vars := r.1, top := { point := r.2, depth := s.top.depthAfter s.vars p } }
  | .interrupt =>
    some { s with top := { point := some NestCall.isrEnter.start }, below := s.top :: s.below }
  | .handlerReturn =>
    match s.below with
    | [] => none
    | f :: below => if s.top.point = none ∧ s.top.depth = 0 then some { s with top := f, below := below } else none

omit icfg in
/-- What an action says about reschedule requests. -/
def obs (s : Nest) : NestAct → List NestEvent
  | .access =>
    match s.top.point with
    | none => []
    | some p => s.vars.event p
  | _ => []

omit icfg in
/-- No call is in progress. -/
def Quiet (s : Nest) : Prop := s.top.point = none ∧ s.below = []

omit icfg in
instance (s : Nest) : Decidable s.Quiet := inferInstanceAs (Decidable (_ ∧ _))

end Nest

end Aixos
