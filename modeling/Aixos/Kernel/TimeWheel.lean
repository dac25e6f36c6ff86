import Aixos.Kernel.Core

/-!
# The timing wheel

`timewheel.c`: two levels of 64 slots, each a list of tasks linked through `timeout_node`.

* `TimeWheel` — the two levels and their cursors.
* `TimeWheel.insert` — `aixos_timing_wheel_insert`.
* `Timed.wheelTick` — `aixos_timing_wheel_tick`, which wakes tasks of the core; `Timed.tickVisits` — the tasks that
  its loops visit.
* `Timed.step` — the wheel as the kernel uses it: tasks are inserted when they have begun to wait, and leave it when
  something else ends their wait; each tick of the clock is one of the wheel.
-/

namespace Aixos

/-- `AIXOS_CFG_TW_BITS1` -/
def twBits1 : ℕ := 6

/-- `AIXOS_CFG_TW_SIZE1` -/
def twSize1 : Word := 64

/-- `AIXOS_CFG_TW_SIZE2` -/
def twSize2 : Word := 64

/-- `tw_level1` and `tw_level2` -/
structure TimeWheel where
  /-- `tw_level1.slots` -/
  level1 : Word → List TaskId
  /-- `tw_level1.current_tick_low` -/
  currentTickLow : Word
  /-- `tw_level2.slots` -/
  level2 : Word → List TaskId
  /-- `tw_level2.current_tick_high` -/
  currentTickHigh : Word

namespace TimeWheel

/-- `aixos_timing_wheel_init` -/
def init : TimeWheel where
  level1 := fun _ => []
  currentTickLow := 0
  level2 := fun _ => []
  currentTickHigh := 0

/-- `aixos_list_add_tail(&tcb->timeout_node, &tw_level1.slots[slot])` -/
def addTail1 (w : TimeWheel) (slot : Word) (t : TaskId) : TimeWheel :=
  { w with level1 := Function.update w.level1 slot (w.level1 slot ++ [t]) }

/-- `aixos_list_add_tail(&tcb->timeout_node, &tw_level2.slots[slot])` -/
def addTail2 (w : TimeWheel) (slot : Word) (t : TaskId) : TimeWheel :=
  { w with level2 := Function.update w.level2 slot (w.level2 slot ++ [t]) }

/-- `aixos_list_del` and `aixos_list_init` of a node in a slot of the first level. -/
def del1 (w : TimeWheel) (slot : Word) (t : TaskId) : TimeWheel :=
  { w with level1 := Function.update w.level1 slot ((w.level1 slot).erase t) }

/-- `aixos_list_del` and `aixos_list_init` of a node in a slot of the second level. -/
def del2 (w : TimeWheel) (slot : Word) (t : TaskId) : TimeWheel :=
  { w with level2 := Function.update w.level2 slot ((w.level2 slot).erase t) }

/-- `aixos_timing_wheel_insert`, at tick `now`. -/
def insert (w : TimeWheel) (now : Word) (t : TaskId) (wakeTick : Word) : TimeWheel :=
  let diff := wakeTick - now
  if diff < twSize1 then w.addTail1 ((w.currentTickLow + diff) % twSize1) t
  else if diff < twSize1 * twSize2 then
    w.addTail2 ((w.currentTickHigh + ((diff - twSize1) >>> twBits1) % twSize2) % twSize2) t
  else w.addTail2 ((w.currentTickHigh + twSize2 - 1) % twSize2) t

/-- The tasks that are linked in some slot. -/
def members (w : TimeWheel) : List TaskId :=
  (List.range 64).flatMap fun i => w.level1 (.ofNat 32 i) ++ w.level2 (.ofNat 32 i)

/-- `aixos_list_del` and `aixos_list_init` of some nodes, wherever they are. -/
def remove (w : TimeWheel) (ts : List TaskId) : TimeWheel :=
  { w with
    level1 := fun i => (w.level1 i).filter (· ∉ ts)
    level2 := fun i => (w.level2 i).filter (· ∉ ts) }

end TimeWheel

/-- The node after that of `t` in a list of nodes; `none` is the head. -/
def nodeAfter (ts : List TaskId) (t : TaskId) : Option TaskId := ((ts.dropWhile (· ≠ t)).drop 1).head?

/-- The core with the wheel. -/
structure Timed where
  core : Core
  wheel : TimeWheel

/-- What happens to the wheel. -/
inductive Timed.Act where
  /-- Whatever else the kernel does. Tasks whose wait ends by it are taken off the wheel. -/
  | kernel (c : Core) (detached : List TaskId)
  /-- A task that has begun to wait is put in the wheel, for its `wake_tick`. -/
  | insert (t : TaskId)
  /-- `total_ticks++; aixos_timing_wheel_tick(total_ticks)`, the first lines of `aixos_tick_handler`. -/
  | tick

namespace Timed

/-- Before the first tick. -/
def init : Timed where
  core := .init
  wheel := .init

/-- The task is blocked or delayed. -/
def Waiting (c : Core) (t : TaskId) : Prop := (c.tasks t).state = .blocked ∨ (c.tasks t).state = .delayed

instance (c : Core) (t : TaskId) : Decidable (Waiting c t) := inferInstanceAs (Decidable (_ ∨ _))

variable [cfg : Config]

/-- `aixos_task_wake` of a task whose time has come. -/
def wakeDue (s : Timed) (t : TaskId) : Timed :=
  { s with core := s.core.taskWake t (if (s.core.tasks t).state = .delayed then Code.ok else Code.timeout) }

/-- The loop of `aixos_timing_wheel_tick` over a slot of the first level. -/
def expireLoop (now slot : Word) : Timed → List TaskId → Timed
  | s, [] => s
  | s, t :: ts =>
    if tickReached now (s.core.tasks t).wakeTick then
      expireLoop now slot ({ s with wheel := s.wheel.del1 slot t }.wakeDue t) ts
    else expireLoop now slot s ts

/-- The body of the loop of `aixos_timing_wheel_tick` over a slot of the second level. -/
def cascadeTask (now highSlot : Word) (s : Timed) (t : TaskId) : Timed :=
  let s := { s with wheel := s.wheel.del2 highSlot t }
  if tickReached now (s.core.tasks t).wakeTick then s.wakeDue t
  else
    let remaining := (s.core.tasks t).wakeTick - now
    if remaining < twSize1 then
      { s with wheel := s.wheel.addTail1 ((s.wheel.currentTickLow + remaining - 1) % twSize1) t }
    else
      let newSlot := ((remaining - twSize1) >>> twBits1) % twSize2
      { s with wheel := s.wheel.addTail2 ((s.wheel.currentTickHigh + newSlot) % twSize2) t }

/-- That loop, for so many nodes at most. The node after the current one is read before the body is run, and
the body may link the current one again, in the same slot as well. -/
def cascadeLoop (now highSlot : Word) : ℕ → Timed → Option TaskId → Option Timed
  | _, s, none => some s
  | 0, _, some _ => none
  | n + 1, s, some t =>
    cascadeLoop now highSlot n (cascadeTask now highSlot s t) (nodeAfter (s.wheel.level2 highSlot) t)

/-- The second half of `aixos_timing_wheel_tick`. A node that is linked in the same slot again is visited
again; when there are two of them, the loop does not end. -/
def cascade (now : Word) (s : Timed) : Option Timed :=
  let highSlot := s.wheel.currentTickHigh
  let ts := s.wheel.level2 highSlot
  (cascadeLoop now highSlot (ts.length + 1) s ts.head?).map fun s =>
    { s with wheel := { s.wheel with currentTickHigh := (highSlot + 1) % twSize2 } }

/-- The tasks that `cascadeLoop` visits. -/
def cascadeVisits (now highSlot : Word) : ℕ → Timed → Option TaskId → Option (List TaskId)
  | _, _, none => some []
  | 0, _, some _ => none
  | n + 1, s, some t =>
    (cascadeVisits now highSlot n (cascadeTask now highSlot s t) (nodeAfter (s.wheel.level2 highSlot) t)).map (t :: ·)

/-- The tasks that `aixos_timing_wheel_tick` visits, if its second loop comes to an end in so many rounds. -/
def tickVisits (n : ℕ) (s : Timed) (now : Word) : Option (List TaskId) :=
  let slot := s.wheel.currentTickLow
  let first := s.wheel.level1 slot
  let s := expireLoop now slot s first
  let s := { s with wheel := { s.wheel with currentTickLow := (slot + 1) % twSize1 } }
  if s.wheel.currentTickLow = 0 then
    let highSlot := s.wheel.currentTickHigh
    (cascadeVisits now highSlot n s (s.wheel.level2 highSlot).head?).map (first ++ ·)
  else some first

/-- `aixos_timing_wheel_tick` -/
def wheelTick (s : Timed) (now : Word) : Option Timed :=
  let slot := s.wheel.currentTickLow
  let s := expireLoop now slot s (s.wheel.level1 slot)
  let s := { s with wheel := { s.wheel with currentTickLow := (slot + 1) % twSize1 } }
  if s.wheel.currentTickLow = 0 then s.cascade now else some s

/-- One step. -/
def step (s : Timed) : Act → Option Timed
  | .kernel c detached =>
    if c.totalTicks = s.core.totalTicks ∧ ∀ t ∈ (s.wheel.remove detached).members,
        (c.tasks t).state = (s.core.tasks t).state ∧ (c.tasks t).wakeTick = (s.core.tasks t).wakeTick then
      some { core := c, wheel := s.wheel.remove detached }
    else none
  | .insert t =>
    if Waiting s.core t ∧ t ∉ s.wheel.members then
      some { s with wheel := s.wheel.insert s.core.getTick t (s.core.tasks t).wakeTick }
    else none
  | .tick =>
    let c := { s.core with totalTicks := s.core.totalTicks + 1 }
    { s with core := c }.wheelTick c.getTick

end Timed

end Aixos
