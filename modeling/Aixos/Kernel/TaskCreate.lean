import Aixos.Kernel.Heap
import Aixos.Kernel.Mpu
import Aixos.Kernel.Object
import Aixos.Kernel.Sched

/-!
# Creating tasks

The functions of `task.c` that create a task, with the heap that control blocks, stacks and pages of task slots are taken
from.

* `TaskKernel` — what they read and write.
* `TaskKernel.taskSlotAlloc` — `task_slot_alloc`, which may need a page from the heap.
* `TaskKernel.taskCreateCommon`, `TaskKernel.create` — the functions.

Pointers are addresses, and `NULL` is 0. A control block lies in memory byte by byte, but for the nodes of lists, which
are in the lists; a page of slots is what it holds. How the compiler lays out a control block, and what the
port writes to a new stack, is left open (`TaskLayout`).
-/

namespace Aixos

/-- What `task_create_common` stores in a control block that it has filled with zeros, and what the port returns. -/
structure TaskControl where
  /-- `stack_top` -/
  stackTop : ℕ
  /-- `arch_control` -/
  archControl : ℕ
  /-- `name` -/
  name : List UInt8
  /-- `priority` -/
  priority : ℕ
  /-- `base_priority` -/
  basePriority : ℕ
  /-- `state` -/
  state : TaskState
  /-- `handle` -/
  handle : BitVec 32
  /-- `stack_base` -/
  stackBase : ℕ
  /-- `stack_alloc_base` -/
  stackAllocBase : ℕ
  /-- `stack_size` -/
  stackSize : Word
  /-- `time_slice` -/
  timeSlice : ℕ
  /-- `owns_tcb` -/
  ownsTcb : Bool
  /-- `owns_stack` -/
  ownsStack : Bool
  /-- `domain == AIXOS_DOMAIN_USER` -/
  user : Bool
  /-- `mpu_regions`, the first `mpu_region_count` of them -/
  mpuRegions : List Mpu.Region

/-- What the compiler and the port add. -/
class TaskLayout where
  /-- `sizeof(aixos_tcb_t)` -/
  sizeofTcb : ℕ
  /-- The bytes of a control block. -/
  encode : TaskControl → List UInt8
  /-- `sizeof(aixos_task_slot_page_t)` -/
  sizeofTaskSlotPage : ℕ
  /-- `AIXOS_CFG_STACK_GUARD_BYTES` -/
  stackGuardBytes : ℕ
  /-- `aixos_arch_stack_init`: memory afterwards, and the top of the stack. -/
  stackInit : ByteMemory → (entry stackTop arg : ℕ) → (user : Bool) → ByteMemory × ℕ
  length_encode : ∀ b, (encode b).length = sizeofTcb

/-- The arguments of `task_create_common`. -/
structure TaskArgs where
  /-- `name`, up to the byte before its end; `none` is `NULL` -/
  name : Option (List UInt8) := none
  /-- `entry` -/
  entry : ℕ
  /-- `arg` -/
  arg : ℕ := 0
  /-- `stack` -/
  stack : ℕ := 0
  /-- `stack_size` -/
  stackSize : ℕ
  /-- `priority` -/
  priority : ℤ
  /-- `provided_tcb` -/
  providedTcb : ℕ := 0
  /-- `system_task` -/
  systemTask : Bool := false
  /-- `user_task` -/
  userTask : Bool := false

/-- What the functions read and write. -/
structure TaskKernel where
  /-- The heap, and memory. -/
  heap : Heap
  /-- The variables of `object.c`; a task is the address of its control block. -/
  objects : Objects ℕ
  /-- `task_count` -/
  taskCount : ℕ
  /-- `all_task_list` -/
  allTaskList : List ℕ
  /-- The ready structure. -/
  sched : Sched
  /-- `is_system_running` -/
  isSystemRunning : Bool
  /-- `aixos_in_isr()` -/
  inIsr : Bool

namespace TaskKernel

variable [hcfg : HeapConfig] [cfg : Config] [ocfg : ObjectConfig] [Mpu.MpuConfig] [layout : TaskLayout]

/-- `aixos_kernel_malloc` -/
def kernelMalloc (s : TaskKernel) (n : ℕ) : Option (TaskKernel × ℕ) :=
  (s.heap.kernelMalloc s.inIsr n).map fun r => ({ s with heap := r.1 }, r.2)

/-- `aixos_free` -/
def free (s : TaskKernel) (p : ℕ) : TaskKernel := { s with heap := s.heap.free s.inIsr p }

/-- `memset`, `strncpy` and the stores to a control block write bytes. -/
def store (s : TaskKernel) (p : ℕ) (bs : List UInt8) : TaskKernel :=
  { s with heap := { s.heap with mem := s.heap.mem.store p bs } }

/-- The loop of `task_slot_alloc` over the pages that are left. -/
def taskSlotLoop (tcb : ℕ) : TaskKernel → List ℕ → Option (TaskKernel × Option ℕ)
  | s, [] => some (s, none)
  | s, p :: ps =>
    match s.objects.taskSlotPages p with
    | none =>
      match s.kernelMalloc layout.sizeofTaskSlotPage with
      | none => none
      | some (s, page) =>
        if page = 0 then some (s, none)
        else
          let b := Pool.fresh ocfg.taskSlotPageSize
          match b.take .task tcb with
          | none => taskSlotLoop tcb { s with objects := s.objects.setPage p b } ps
          | some (b, i) => some ({ s with objects := s.objects.setPage p b }, some (p * ocfg.taskSlotPageSize + i))
    | some b =>
      match b.take .task tcb with
      | none => taskSlotLoop tcb s ps
      | some (b, i) => some ({ s with objects := s.objects.setPage p b }, some (p * ocfg.taskSlotPageSize + i))

/-- `task_slot_alloc` -/
def taskSlotAlloc (s : TaskKernel) (tcb : ℕ) : Option (TaskKernel × Option ℕ) :=
  taskSlotLoop tcb s (List.range taskSlotPageCount)

/-- Whether the arguments and the number of tasks let a task be created. -/
def admits (s : TaskKernel) (a : TaskArgs) : Bool :=
  if s.inIsr ∨ a.entry = 0 ∨ a.priority < 0 ∨ cfg.maxPriority ≤ a.priority ∨ taskHandleLimit ≤ s.taskCount ∨
      (!a.systemTask ∧ !s.isSystemRunning ∧ taskHandleLimit - cfg.systemTasksReserved ≤ s.taskCount) then false
  else if a.userTask ∧ (a.stackSize < cfg.mpuMinRegionSize ∨ a.stackSize &&& (a.stackSize - 1) ≠ 0) then false
  else if a.stackSize < cfg.minTaskStackSize then false
  else if a.userTask ∧ a.stack ≠ 0 ∧ a.stack &&& (a.stackSize - 1) ≠ 0 then false
  else true

/-- `if (provided_tcb == NULL) aixos_free(tcb);` -/
def freeTcb (s : TaskKernel) (a : TaskArgs) (tcb : ℕ) : TaskKernel := if a.providedTcb = 0 then s.free tcb else s

/-- `if (stack == NULL) aixos_free(stack_alloc_base);` -/
def freeStack (s : TaskKernel) (a : TaskArgs) (stackAllocBase : ℕ) : TaskKernel :=
  if a.stack = 0 then s.free stackAllocBase else s

/-- The stack of a new task is filled, and its first frame is made; the top of the stack. -/
def initStack (s : TaskKernel) (a : TaskArgs) (stackBase : ℕ) : TaskKernel × ℕ :=
  let s := s.store stackBase (List.replicate a.stackSize 0xA5)
  let s := s.store stackBase (List.replicate layout.stackGuardBytes 0xE7)
  let r := layout.stackInit s.heap.mem a.entry (stackBase + a.stackSize) a.arg a.userTask
  ({ s with heap := { s.heap with mem := r.1 } }, r.2)

/-- The control block of a new task. `aixos_mpu_task_init` is the last to write to it. -/
def newControl (a : TaskArgs) (stackBase stackAllocBase stackTop : ℕ) (handle : BitVec 32) : TaskControl where
  stackTop := stackTop
  archControl := if a.userTask then 3 else 2
  name := (a.name.getD []).take 15
  priority := a.priority.toNat
  basePriority := a.priority.toNat
  state := .ready
  handle := handle
  stackBase := stackBase
  stackAllocBase := stackAllocBase
  stackSize := BitVec.ofNat 32 a.stackSize
  timeSlice := cfg.timeSliceTicks
  ownsTcb := a.providedTcb = 0
  ownsStack := a.stack = 0
  user := a.userTask
  mpuRegions := (Mpu.Task.init
    { user := a.userTask, stackBase := BitVec.ofNat 32 stackBase, stackSize := BitVec.ofNat 32 a.stackSize }).regions

/-- What `task_create_common` does when it has a slot. -/
def initTask (s : TaskKernel) (a : TaskArgs) (tcb stackBase stackAllocBase slot : ℕ) : TaskKernel × BitVec 32 :=
  let handle := s.objects.slotHandle .task slot
  let r := s.initStack a stackBase
  let s := r.1.store tcb (layout.encode (newControl a stackBase stackAllocBase r.2 handle))
  let s := { s with
    allTaskList := s.allTaskList ++ [tcb]
    taskCount := s.taskCount + 1
    sched := s.sched.initNode tcb }
  (if s.isSystemRunning then { s with sched := s.sched.addTask tcb a.priority.toNat } else s, handle)

/-- `task_create_common`, when it has a control block and a stack: it takes a slot, or gives back what it owns. -/
def createTask (s : TaskKernel) (a : TaskArgs) (tcb stackBase stackAllocBase : ℕ) :
    Option (TaskKernel × Option (BitVec 32)) :=
  (s.taskSlotAlloc tcb).map fun r =>
    match r.2 with
    | none => ((r.1.freeStack a stackAllocBase).freeTcb a tcb, none)
    | some slot => (r.1.initTask a tcb stackBase stackAllocBase slot).map id some

/-- `SIZE_MAX` -/
def sizeMax : ℕ := 256 ^ hcfg.pointerSize - 1

/-- How many bytes are allocated for a stack; the stack of a user task may have to be moved up to be aligned. -/
def stackAllocSize (a : TaskArgs) : Option ℕ :=
  if a.userTask then
    if sizeMax - (a.stackSize - 1) < a.stackSize then none else some (a.stackSize + (a.stackSize - 1))
  else some a.stackSize

/-- Where the stack begins in what has been allocated. The size of the stack of a user task is a power of two. -/
def stackBaseIn (a : TaskArgs) (stackAllocBase : ℕ) : ℕ :=
  if a.userTask then (stackAllocBase + (a.stackSize - 1)) / a.stackSize * a.stackSize else stackAllocBase

/-- `task_create_common`, when it has a control block. -/
def createStack (s : TaskKernel) (a : TaskArgs) (tcb : ℕ) : Option (TaskKernel × Option (BitVec 32)) :=
  if a.stack ≠ 0 then s.createTask a tcb a.stack a.stack
  else match stackAllocSize a with
    | none => some (s.freeTcb a tcb, none)
    | some n =>
      match s.kernelMalloc n with
      | none => none
      | some (s, stackAllocBase) =>
        if stackAllocBase = 0 then some (s.freeTcb a tcb, none)
        else s.createTask a tcb (stackBaseIn a stackAllocBase) stackAllocBase

/-- `task_create_common`. The result is `none` where the source says `return AIXOS_HANDLE_INVALID;`, and otherwise the
handle of the new task. -/
def taskCreateCommon (s : TaskKernel) (a : TaskArgs) : Option (TaskKernel × Option (BitVec 32)) :=
  if !s.admits a then some (s, none)
  else if a.providedTcb ≠ 0 then s.createStack a a.providedTcb
  else
    match s.kernelMalloc layout.sizeofTcb with
    | none => none
    | some (s, tcb) => if tcb = 0 then some (s, none) else s.createStack a tcb

/-- The functions that create a task. -/
inductive Creator where
  /-- `aixos_task_create` -/
  | task
  /-- `aixos_user_task_create` -/
  | userTask
  /-- `aixos_task_create_static` -/
  | taskStatic (stack tcb : ℕ)
  /-- `aixos_user_task_create_static` -/
  | userTaskStatic (stack tcb : ℕ)

/-- A call of one of them. -/
def create (s : TaskKernel) (f : Creator) (name : Option (List UInt8)) (entry arg stackSize : ℕ) (priority : ℤ) :
    Option (TaskKernel × Option (BitVec 32)) :=
  match f with
  | .task => s.taskCreateCommon { name, entry, arg, stackSize, priority }
  | .userTask =>
    if stackSize < 256 ∨ stackSize &&& (stackSize - 1) ≠ 0 then some (s, none)
    else s.taskCreateCommon { name, entry, arg, stackSize, priority, userTask := true }
  | .taskStatic stack tcb => s.taskCreateCommon { name, entry, arg, stack, stackSize, priority, providedTcb := tcb }
  | .userTaskStatic stack tcb =>
    s.taskCreateCommon { name, entry, arg, stack, stackSize, priority, providedTcb := tcb, userTask := true }

end TaskKernel

end Aixos
