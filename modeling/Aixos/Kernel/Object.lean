import Aixos.Kernel.Core

/-!
# Object pools

`object.c`, with its slots, its bitmaps of free slots, the pages of task slots, and handles as 32 bits.

* `Objects` — the pools.
* `Objects.slotAlloc`, `Objects.slotFree`, `Objects.slotHandle`, `Objects.objFromHandle`,
  `Objects.poolGetUsage` — the functions.

`Core` keeps of this what the objects of the kernel need: whether a slot is in use, and its generation.
-/

namespace Aixos

/-- `aixos_obj_type_t` -/
inductive ObjType where
  | unused
  | task
  | sem
  | mutex
  | mq
  | event
  | pipe
  | timer
  | channel
  | connection
  | signal
  | nameSpace
  deriving DecidableEq, Repr

/-- `AIXOS_POOL_TASK`, `AIXOS_POOL_SEM`, … -/
inductive PoolId where
  | task
  | sem
  | mutex
  | mq
  | event
  | pipe
  | timer
  deriving DecidableEq, Repr

/-- `type_to_pool_id` -/
def ObjType.poolId : ObjType → Option PoolId
  | .task => some .task
  | .sem => some .sem
  | .mutex => some .mutex
  | .mq => some .mq
  | .event => some .event
  | .pipe => some .pipe
  | .timer => some .timer
  | _ => none

/-- `pool->obj_type` -/
def PoolId.objType : PoolId → ObjType
  | .task => .task
  | .sem => .sem
  | .mutex => .mutex
  | .mq => .mq
  | .event => .event
  | .pipe => .pipe
  | .timer => .timer

/-- The other macros of `aixos_cfg.h` that `object.c` uses. -/
class ObjectConfig where
  /-- `AIXOS_CFG_MAX_TIMER` -/
  maxTimer : ℕ
  /-- `AIXOS_CFG_TASK_SLOT_PAGE_SIZE` -/
  taskSlotPageSize : ℕ
  maxTimer_le : maxTimer ≤ 32
  taskSlotPageSize_pos : 0 < taskSlotPageSize
  taskSlotPageSize_le : taskSlotPageSize ≤ 32
  taskSlotPageSize_dvd : taskSlotPageSize ∣ taskHandleLimit

theorem ObjectConfig.taskSlotPageSize_default : 16 ≤ 32 := by decide

/-- The values of `aixos_cfg.h` when the user overrides nothing. -/
@[reducible] def ObjectConfig.default : ObjectConfig where
  maxTimer := 32
  taskSlotPageSize := 16
  maxTimer_le := by decide
  taskSlotPageSize_pos := by decide
  taskSlotPageSize_le := taskSlotPageSize_default
  taskSlotPageSize_dvd := by decide

/-- `AIXOS_HANDLE_MAKE` -/
def handleMake (idx : ℕ) (gen : BitVec 32) : BitVec 32 :=
  ((gen &&& 0x00FFFFFF#32) <<< 8) ||| (BitVec.ofNat 32 idx &&& 0xFF#32)

/-- `AIXOS_HANDLE_IDX` -/
def handleIdx (h : BitVec 32) : ℕ := (h &&& 0xFF#32).toNat

/-- `AIXOS_HANDLE_GEN` -/
def handleGen (h : BitVec 32) : BitVec 32 := (h >>> 8) &&& 0x00FFFFFF#32

/-- `AIXOS_HANDLE_INVALID` -/
def handleInvalid : BitVec 32 := -1

/-- `aixos_slot_t`, with objects of `α` -/
structure ObjSlot (α : Type*) where
  /-- `used` -/
  used : Bool := false
  /-- `generation` -/
  generation : BitVec 32 := 0
  /-- `type` -/
  type : ObjType := .unused
  /-- `obj` -/
  obj : Option α := none

/-- The slots and the bitmap of `aixos_pool_t`, and those of `aixos_task_slot_page_t`. -/
structure Pool (α : Type*) where
  /-- `slots` -/
  slots : ℕ → ObjSlot α
  /-- `free_bitmap` -/
  freeBitmap : BitVec 32

/-- The variables of `object.c`. -/
structure Objects (α : Type*) where
  /-- `pools`, besides that of tasks -/
  pools : PoolId → Pool α
  /-- `task_slot_pages` -/
  taskSlotPages : ℕ → Option (Pool α)

variable {α : Type*}

/-- The generation of a slot that is taken again. -/
def nextSlotGeneration (g : BitVec 32) : BitVec 32 :=
  let g := (g + 1) &&& 0x00FFFFFF#32
  if g = 0 then 1 else g

/-- The bitmap of `n` free slots. -/
def freeMask (n : ℕ) : BitVec 32 := if n = 32 then BitVec.allOnes 32 else (1#32 <<< n) - 1

/-- The lowest bit that is set. -/
def lowestBit (b : BitVec 32) : Option ℕ := (List.range 32).find? fun i => b.getLsbD i

/-- `__builtin_popcount` -/
def popcount (b : BitVec 32) : ℕ := (List.range 32).countP fun i => b.getLsbD i

theorem shiftRight_one_lt {b : BitVec 32} (h : b ≠ 0) : (b >>> 1).toNat < b.toNat := by
  have : b.toNat ≠ 0 := fun e => h (BitVec.eq_of_toNat_eq e)
  rw [BitVec.toNat_ushiftRight, Nat.shiftRight_eq_div_pow]
  omega

/-- The loop of `aixos_pool_get_usage` over the bits of a bitmap. -/
def usageLoop (used : BitVec 32) (count : ℕ) : ℕ :=
  if used = 0 then count else usageLoop (used >>> 1) (count + (used &&& 1).toNat)
termination_by used.toNat
decreasing_by exact shiftRight_one_lt ‹_›

/-- `n` free slots. -/
def Pool.fresh (n : ℕ) : Pool α where
  slots := fun _ => {}
  freeBitmap := freeMask n

/-- Take the first free slot of a pool or a page. -/
def Pool.take (b : Pool α) (type : ObjType) (obj : α) : Option (Pool α × ℕ) :=
  match lowestBit b.freeBitmap with
  | none => none
  | some i =>
    some ({
      slots := Function.update b.slots i
        { used := true, generation := nextSlotGeneration (b.slots i).generation, type := type, obj := some obj }
      freeBitmap := b.freeBitmap &&& ~~~(1#32 <<< i) }, i)

/-- Give a slot back. -/
def Pool.giveBack (b : Pool α) (i : ℕ) : Pool α where
  slots := Function.update b.slots i { b.slots i with used := false, obj := none }
  freeBitmap := b.freeBitmap ||| (1#32 <<< i)

variable [cfg : Config] [ocfg : ObjectConfig]

/-- `pool->max_count` -/
def PoolId.maxCount : PoolId → ℕ
  | .task => taskHandleLimit
  | .sem => cfg.maxCount .sem
  | .mutex => cfg.maxCount .mutex
  | .mq => cfg.maxCount .mq
  | .event => cfg.maxCount .event
  | .pipe => cfg.maxCount .pipe
  | .timer => ocfg.maxTimer

/-- `TASK_SLOT_PAGE_COUNT` -/
def taskSlotPageCount : ℕ := taskHandleLimit / ocfg.taskSlotPageSize

namespace Objects

/-- `aixos_object_init` -/
def init : Objects α where
  pools := fun p => Pool.fresh p.maxCount
  taskSlotPages := fun _ => none

omit cfg ocfg in
/-- Store an entry of `task_slot_pages`. -/
def setPage (o : Objects α) (p : ℕ) (b : Pool α) : Objects α :=
  { o with taskSlotPages := Function.update o.taskSlotPages p (some b) }

omit cfg ocfg in
/-- Store an entry of `pools`. -/
def setPool (o : Objects α) (p : PoolId) (b : Pool α) : Objects α :=
  { o with pools := Function.update o.pools p b }

omit cfg in
/-- `task_slot_at` -/
def taskSlotAt (o : Objects α) (index : ℤ) : Option (ObjSlot α) :=
  if index < 0 ∨ taskHandleLimit ≤ index then none
  else match o.taskSlotPages (index.toNat / ocfg.taskSlotPageSize) with
    | none => none
    | some b => some (b.slots (index.toNat % ocfg.taskSlotPageSize))

/-- The slot of a pool that an index names, if there is one. -/
def slotAt (o : Objects α) (p : PoolId) (index : ℤ) : Option (ObjSlot α) :=
  if p = .task then o.taskSlotAt index
  else if 0 ≤ index ∧ index < p.maxCount then some ((o.pools p).slots index.toNat)
  else none

omit cfg in
/-- The loop of `task_slot_alloc` over the pages that are left; whether the heap has room for a page. -/
def taskSlotLoop (obj : α) (memory : Bool) : Objects α → List ℕ → Objects α × Option ℕ
  | o, [] => (o, none)
  | o, p :: ps =>
    match o.taskSlotPages p with
    | none =>
      if !memory then (o, none)
      else
        let b := Pool.fresh ocfg.taskSlotPageSize
        match b.take .task obj with
        | none => taskSlotLoop obj memory (o.setPage p b) ps
        | some (b, i) => (o.setPage p b, some (p * ocfg.taskSlotPageSize + i))
    | some b =>
      match b.take .task obj with
      | none => taskSlotLoop obj memory o ps
      | some (b, i) => (o.setPage p b, some (p * ocfg.taskSlotPageSize + i))

omit cfg in
/-- `task_slot_alloc` -/
def taskSlotAlloc (o : Objects α) (obj : α) (memory : Bool) : Objects α × Option ℕ :=
  taskSlotLoop obj memory o (List.range taskSlotPageCount)

omit cfg in
/-- `aixos_slot_alloc` -/
def slotAlloc (o : Objects α) (p : PoolId) (obj : α) (memory : Bool) : Objects α × Option ℕ :=
  if p = .task then o.taskSlotAlloc obj memory
  else match (o.pools p).take p.objType obj with
    | none => (o, none)
    | some (b, i) => (o.setPool p b, some i)

/-- `aixos_slot_handle` -/
def slotHandle (o : Objects α) (p : PoolId) (index : ℤ) : BitVec 32 :=
  match o.slotAt p index with
  | none => handleInvalid
  | some s => if s.used then handleMake index.toNat s.generation else handleInvalid

/-- `aixos_slot_free` -/
def slotFree (o : Objects α) (p : PoolId) (index : ℤ) : Objects α :=
  match o.slotAt p index with
  | none => o
  | some s =>
    if !s.used then o
    else if p = .task then
      let page := index.toNat / ocfg.taskSlotPageSize
      match o.taskSlotPages page with
      | none => o
      | some b => o.setPage page (b.giveBack (index.toNat % ocfg.taskSlotPageSize))
    else o.setPool p ((o.pools p).giveBack index.toNat)

/-- `aixos_obj_from_handle` -/
def objFromHandle (o : Objects α) (h : BitVec 32) (type : ObjType) : Option α :=
  match type.poolId with
  | none => none
  | some p =>
    match o.slotAt p (handleIdx h) with
    | none => none
    | some s => if s.used ∧ s.generation = handleGen h ∧ s.type = type then s.obj else none

/-- `aixos_pool_get_usage` -/
def poolGetUsage (o : Objects α) (p : PoolId) : ℤ :=
  if p = .task then
    ((List.range taskSlotPageCount).map fun page =>
      match o.taskSlotPages page with
      | none => (0 : ℤ)
      | some b => ocfg.taskSlotPageSize - popcount b.freeBitmap).sum
  else
    let used := ~~~(o.pools p).freeBitmap
    usageLoop (if p.maxCount < 32 then used &&& ((1#32 <<< p.maxCount) - 1) else used) 0

end Objects

/-- What the kernel does with the pools. -/
inductive SlotOp (α : Type*) where
  | alloc (p : PoolId) (obj : α) (memory : Bool)
  | free (p : PoolId) (index : ℤ)

/-- One step. -/
def Objects.step (o : Objects α) : SlotOp α → Option (Objects α)
  | .alloc p obj memory => some (o.slotAlloc p obj memory).1
  | .free p index => some (o.slotFree p index)

end Aixos
