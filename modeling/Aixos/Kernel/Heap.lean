import Aixos.Kernel.Types
import Aixos.Library.ByteMemory

/-!
# The heap

`heap.c`, on memory byte by byte: headers, canaries and what the clients write share it.

* `HeapHdr` — a header, and how it lies in memory.
* `Heap.init`, `Heap.malloc`, `Heap.kernelMalloc`, `Heap.calloc`, `Heap.realloc`, `Heap.free`, `Heap.check`,
  `Heap.lockdown` — the functions.

Addresses and sizes (`uintptr_t`, `size_t`) are natural numbers, and `NULL` is 0: as long as headers are valid, no sum
of the code leaves the address space. The loops over the blocks are given as many rounds as the heap has bytes; a
function that needs more has no result. Whether an interrupt handler calls is an argument.
-/

namespace Aixos

/-- The macros of `aixos_cfg.h` that `heap.c` uses, and what the target adds. -/
class HeapConfig where
  /-- `sizeof(void *)` -/
  pointerSize : ℕ
  /-- `AIXOS_CFG_HEAP_SIZE` -/
  heapSize : ℕ
  /-- `AIXOS_CFG_HEAP_MAGIC` -/
  heapMagic : Word
  /-- `AIXOS_CFG_MAX_IPC_COPY_BYTES` -/
  maxIpcCopyBytes : ℕ
  /-- The address of `heap_pool`. -/
  heapPool : ℕ
  pointerSize_eq : pointerSize = 4 ∨ pointerSize = 8
  heapSize_ge : 1024 ≤ heapSize
  heapSize_lt : heapSize < 2 ^ 32
  heapPool_pos : 0 < heapPool
  heapPool_aligned : 8 ∣ heapPool
  heapPool_end : heapPool + heapSize < 256 ^ pointerSize

theorem HeapConfig.pointerSize_default : (4 : ℕ) = 4 ∨ (4 : ℕ) = 8 := .inl rfl

/-- The values of `aixos_cfg.h` when the user overrides nothing, on a 32-bit target. -/
@[reducible] def HeapConfig.default : HeapConfig where
  pointerSize := 4
  heapSize := 7 * 1024
  heapMagic := 0xBE05
  maxIpcCopyBytes := 1024
  heapPool := 0x20000000
  pointerSize_eq := pointerSize_default
  heapSize_ge := by decide
  heapSize_lt := by decide
  heapPool_pos := by decide
  heapPool_aligned := by decide
  heapPool_end := by decide

/-- `HEAP_MAGIC_FREE` -/
def heapMagicFree : BitVec 16 := 0xF1EE

/-- `HEAP_MAGIC_USED` -/
def heapMagicUsed : BitVec 16 := 0x1ADD

/-- `HEAP_ALIGN` -/
def heapAlign : ℕ := 8

/-- `HEAP_CANARY` -/
def heapCanary : Word := 0xBEEFC0DE

/-- `HEAP_CANARY_SIZE` -/
def heapCanarySize : ℕ := 4

/-- `heap_hdr_t` -/
structure HeapHdr where
  magic : BitVec 16
  reserved : BitVec 16
  size : Word
  requestedSize : Word
  headerGuard : Word
  next : ℕ
  prev : ℕ
  deriving DecidableEq

variable [cfg : HeapConfig]

/-- `HEAP_HEADER_SIZE` -/
def heapHeaderSize : ℕ := 16 + 2 * cfg.pointerSize

namespace HeapHdr

/-- The bytes of a header. -/
def encode (b : HeapHdr) : List UInt8 :=
  le 2 b.magic.toNat ++ (le 2 b.reserved.toNat ++ (le 4 b.size.toNat ++ (le 4 b.requestedSize.toNat ++
    (le 4 b.headerGuard.toNat ++ (le cfg.pointerSize b.next ++ le cfg.pointerSize b.prev)))))

/-- The header that has these bytes. -/
def decode (bs : List UInt8) : HeapHdr :=
  let bs₁ := bs.drop 2
  let bs₂ := bs₁.drop 2
  let bs₃ := bs₂.drop 4
  let bs₄ := bs₃.drop 4
  let bs₅ := bs₄.drop 4
  let bs₆ := bs₅.drop cfg.pointerSize
  { magic := BitVec.ofNat 16 (ofLe (bs.take 2))
    reserved := BitVec.ofNat 16 (ofLe (bs₁.take 2))
    size := BitVec.ofNat 32 (ofLe (bs₂.take 4))
    requestedSize := BitVec.ofNat 32 (ofLe (bs₃.take 4))
    headerGuard := BitVec.ofNat 32 (ofLe (bs₄.take 4))
    next := ofLe (bs₅.take cfg.pointerSize)
    prev := ofLe (bs₆.take cfg.pointerSize) }

end HeapHdr

/-- The variables of `heap.c`, and memory. -/
structure Heap where
  /-- The memory. -/
  mem : ByteMemory
  /-- `heap_first` -/
  heapFirst : ℕ := 0
  /-- `heap_begin` -/
  heapBegin : ℕ := 0
  /-- `heap_end` -/
  heapEnd : ℕ := 0
  /-- `heap_total` -/
  heapTotal : Word := 0
  /-- `heap_initialized` -/
  heapInitialized : Bool := false
  /-- `alloc_count` -/
  allocCount : Word := 0
  /-- `free_count` -/
  freeCount : Word := 0
  /-- `alloc_failures` -/
  allocFailures : Word := 0
  /-- `corruption_count` -/
  corruptionCount : Word := 0
  /-- `current_used` -/
  currentUsed : Word := 0
  /-- `peak_used` -/
  peakUsed : Word := 0
  /-- `runtime_locked` -/
  runtimeLocked : Bool := false

namespace Heap

/-- The header at an address. -/
def hdr (h : Heap) (a : ℕ) : HeapHdr := .decode (h.mem.load a heapHeaderSize)

/-- Write to the header at an address. -/
def setHdr (h : Heap) (a : ℕ) (f : HeapHdr → HeapHdr) : Heap :=
  { h with mem := h.mem.store a (f (h.hdr a)).encode }

/-- `heap_header_guard` -/
def headerGuard (a : ℕ) (b : HeapHdr) : Word := BitVec.ofNat 32 a ^^^ b.size ^^^ b.requestedSize ^^^ cfg.heapMagic

/-- `hdr->header_guard = heap_header_guard(hdr)` -/
def guardHdr (h : Heap) (a : ℕ) : Heap := h.setHdr a fun b => { b with headerGuard := headerGuard a b }

/-- `heap_header_valid` -/
def headerValid (h : Heap) (a : ℕ) : Bool :=
  let b := h.hdr a
  if a < h.heapBegin ∨ h.heapEnd < a + heapHeaderSize ∨ (b.magic ≠ heapMagicFree ∧ b.magic ≠ heapMagicUsed) ∨
      h.heapEnd - a - heapHeaderSize < b.size.toNat ∨ b.headerGuard ≠ headerGuard a b then false
  else if b.magic = heapMagicUsed ∧
      (b.size < b.requestedSize ∨ b.size < b.requestedSize + BitVec.ofNat 32 heapCanarySize) then false
  else true

/-- The canary behind the block at `a`. -/
def canary (a : ℕ) : Word := heapCanary ^^^ BitVec.ofNat 32 a

/-- `heap_write_canary` -/
def writeCanary (h : Heap) (a : ℕ) : Heap :=
  let a' := a + heapHeaderSize + (h.hdr a).requestedSize.toNat
  { h with mem := h.mem.store a' (le heapCanarySize (canary a).toNat) }

/-- `heap_canary_valid` -/
def canaryValid (h : Heap) (a : ℕ) : Bool :=
  ofLe (h.mem.load (a + heapHeaderSize + (h.hdr a).requestedSize.toNat) heapCanarySize) == (canary a).toNat

/-- `aixos_heap_init` -/
def init (mem : ByteMemory) (start size : ℕ) : Heap :=
  let given := start ≠ 0 ∧ heapHeaderSize + heapAlign ≤ size
  let first := if given then start else cfg.heapPool
  -- `size &= ~(size_t)(HEAP_ALIGN - 1U)`
  let size := if given then size / heapAlign * heapAlign else cfg.heapSize
  let first₁ := if start = 0 ∨ size = cfg.heapSize then first else start
  let h : Heap :=
    { mem := mem, heapFirst := first, heapBegin := first₁, heapEnd := first₁ + size,
      heapTotal := BitVec.ofNat 32 size, heapInitialized := true }
  let h := h.setHdr first fun _ =>
    { magic := heapMagicFree, reserved := 0, size := BitVec.ofNat 32 (size - heapHeaderSize), requestedSize := 0,
      headerGuard := 0, next := 0, prev := 0 }
  h.guardHdr first

/-- The rounds that loops over the blocks are given. -/
def rounds (h : Heap) : ℕ := h.heapEnd - h.heapBegin + 1

/-- What the best-fit search ends with. -/
inductive Search where
  /-- A header is not valid. -/
  | corrupted
  /-- `best` and `best_remain`. -/
  | found (best bestRemain : ℕ)
  deriving DecidableEq

/-- The best-fit search, from `hdr` on. -/
def bestFit (h : Heap) (size : ℕ) : (fuel hdr best bestRemain : ℕ) → Option Search
  | 0, _, _, _ => none
  | fuel + 1, hdr, best, bestRemain =>
    if hdr = 0 then some (.found best bestRemain)
    else if !h.headerValid hdr then some .corrupted
    else
      let b := h.hdr hdr
      if b.magic ≠ heapMagicFree then bestFit h size fuel b.next best bestRemain
      else if size ≤ b.size.toNat ∧ b.size.toNat - size < bestRemain then
        bestFit h size fuel b.next hdr (b.size.toNat - size)
      else bestFit h size fuel b.next best bestRemain

/-- What is left of the block `best` becomes a block. -/
def splitBlock (h : Heap) (best bestRemain size : ℕ) : Heap :=
  let newHdr := best + heapHeaderSize + size
  let next := (h.hdr best).next
  let h := h.setHdr newHdr fun _ =>
    { magic := heapMagicFree, reserved := 0, size := BitVec.ofNat 32 (bestRemain - heapHeaderSize),
      requestedSize := 0, headerGuard := 0, next := next, prev := best }
  let h := if next ≠ 0 then (h.setHdr next fun b => { b with prev := newHdr }).guardHdr next else h
  let h := h.setHdr best fun b => { b with next := newHdr, size := BitVec.ofNat 32 size }
  h.guardHdr newHdr

/-- The block `best` is used; its address, and the memory filled. -/
def takeBlock (h : Heap) (best requested : ℕ) : Heap × ℕ :=
  let h := h.setHdr best fun b => { b with magic := heapMagicUsed, requestedSize := BitVec.ofNat 32 requested }
  let h := (h.guardHdr best).writeCanary best
  let used := h.currentUsed + BitVec.ofNat 32 ((h.hdr best).size.toNat + heapHeaderSize)
  let h := { h with
    allocCount := h.allocCount + 1
    currentUsed := used
    peakUsed := if h.peakUsed < used then used else h.peakUsed }
  let result := best + heapHeaderSize
  let h := { h with mem := h.mem.store result (List.replicate (h.hdr best).requestedSize.toNat 0xCC) }
  (h.writeCanary best, result)

/-- `heap_allocate` -/
def allocate (h : Heap) (isr : Bool) (size : ℕ) (kernelAllocation : Bool) : Option (Heap × ℕ) :=
  if isr then some (h, 0)
  else if !h.heapInitialized then some (h, 0)
  else
    let requested := if size = 0 then 1 else size
    if cfg.maxIpcCopyBytes < requested ∧ !kernelAllocation then some (h, 0)
    else if 2 ^ 32 - 1 - heapCanarySize - (heapAlign - 1) < requested then some (h, 0)
    else
      let size := (requested + heapCanarySize + heapAlign - 1) / heapAlign * heapAlign
      if h.runtimeLocked ∧ !kernelAllocation then some ({ h with allocFailures := h.allocFailures + 1 }, 0)
      else
        match h.bestFit size h.rounds h.heapFirst 0 0xFFFFFFFF with
        | none => none
        | some .corrupted => some ({ h with corruptionCount := h.corruptionCount + 1 }, 0)
        | some (.found best bestRemain) =>
          if best = 0 then some ({ h with allocFailures := h.allocFailures + 1 }, 0)
          else
            let h := if heapHeaderSize + heapAlign < bestRemain then h.splitBlock best bestRemain size else h
            some (h.takeBlock best requested)

/-- `aixos_malloc` -/
def malloc (h : Heap) (isr : Bool) (size : ℕ) : Option (Heap × ℕ) := h.allocate isr size false

/-- `aixos_kernel_malloc` -/
def kernelMalloc (h : Heap) (isr : Bool) (size : ℕ) : Option (Heap × ℕ) := h.allocate isr size true

/-- `aixos_calloc` -/
def calloc (h : Heap) (isr : Bool) (count size : ℕ) : Option (Heap × ℕ) :=
  if size ≠ 0 ∧ (256 ^ cfg.pointerSize - 1) / size < count then some (h, 0)
  else (h.malloc isr (count * size)).map fun r =>
    if r.2 = 0 then r else ({ r.1 with mem := r.1.mem.store r.2 (List.replicate (count * size) 0) }, r.2)

/-- The block behind `hdr`, if it is free, becomes part of it. -/
def coalesceNext (h : Heap) (hdr : ℕ) : Heap :=
  let next := (h.hdr hdr).next
  if next ≠ 0 ∧ (h.hdr next).magic = heapMagicFree then
    let h := h.setHdr hdr fun b => { b with size := b.size + (BitVec.ofNat 32 heapHeaderSize + (h.hdr next).size) }
    let h := h.setHdr hdr fun b => { b with next := (h.hdr next).next }
    let next := (h.hdr hdr).next
    if next ≠ 0 then (h.setHdr next fun b => { b with prev := hdr }).guardHdr next else h
  else h

/-- The block `hdr` becomes part of the block before it, if that is free. -/
def coalescePrev (h : Heap) (hdr : ℕ) : Heap :=
  let prev := (h.hdr hdr).prev
  if prev ≠ 0 ∧ (h.hdr prev).magic = heapMagicFree then
    let h := h.setHdr prev fun b => { b with size := b.size + (BitVec.ofNat 32 heapHeaderSize + (h.hdr hdr).size) }
    let h := h.setHdr prev fun b => { b with next := (h.hdr hdr).next }
    let next := (h.hdr hdr).next
    let h := if next ≠ 0 then (h.setHdr next fun b => { b with prev := prev }).guardHdr next else h
    h.guardHdr prev
  else h.guardHdr hdr

/-- `aixos_free` -/
def free (h : Heap) (isr : Bool) (ptr : ℕ) : Heap :=
  if ptr = 0 then h
  else if isr then h
  else if ptr < h.heapBegin + heapHeaderSize ∨ h.heapEnd ≤ ptr ∨ ptr % heapAlign ≠ 0 then h
  else
    let hdr := ptr - heapHeaderSize
    if hdr < h.heapBegin ∨ h.heapEnd < hdr + heapHeaderSize ∨ !h.headerValid hdr ∨
        (h.hdr hdr).magic ≠ heapMagicUsed ∨ !h.canaryValid hdr then
      { h with corruptionCount := h.corruptionCount + 1 }
    else
      let h := { h with currentUsed := h.currentUsed - BitVec.ofNat 32 ((h.hdr hdr).size.toNat + heapHeaderSize) }
      let h := h.setHdr hdr fun b => { b with magic := heapMagicFree, requestedSize := 0 }
      let h := { h with freeCount := h.freeCount + 1 }
      let b := h.hdr hdr
      if b.next ≠ 0 ∧ b.next ≠ hdr + heapHeaderSize + b.size.toNat then
        { h with corruptionCount := h.corruptionCount + 1 }
      else (h.coalesceNext hdr).coalescePrev hdr

/-- `aixos_realloc` -/
def realloc (h : Heap) (isr : Bool) (ptr newSize : ℕ) : Option (Heap × ℕ) :=
  if ptr = 0 then h.malloc isr newSize
  else if newSize = 0 then some (h.free isr ptr, 0)
  else if isr then some (h, 0)
  else if ptr < h.heapBegin + heapHeaderSize ∨ h.heapEnd ≤ ptr then some (h, 0)
  else
    let hdr := ptr - heapHeaderSize
    if h.runtimeLocked then some ({ h with allocFailures := h.allocFailures + 1 }, 0)
    else if !h.headerValid hdr ∨ (h.hdr hdr).magic ≠ heapMagicUsed ∨ !h.canaryValid hdr then
      some ({ h with corruptionCount := h.corruptionCount + 1 }, 0)
    else
      let oldSize := (h.hdr hdr).requestedSize.toNat
      (h.malloc isr newSize).map fun r =>
        if r.2 = 0 then r
        else
          let copy := if oldSize < newSize then oldSize else newSize
          (({ r.1 with mem := r.1.mem.store r.2 (r.1.mem.load ptr copy) }).free isr ptr, r.2)

/-- The loop of `aixos_heap_check`, from `hdr` on: whether every block is as it should be. -/
def checkLoop (h : Heap) : (fuel hdr previous : ℕ) → Option Bool
  | 0, _, _ => none
  | fuel + 1, hdr, previous =>
    if hdr = 0 then some true
    else
      let b := h.hdr hdr
      if !h.headerValid hdr ∨ b.prev ≠ previous ∨ (b.magic = heapMagicUsed ∧ !h.canaryValid hdr) then some false
      else if b.next ≠ 0 ∧ hdr + heapHeaderSize + b.size.toNat ≠ b.next then some false
      else checkLoop h fuel b.next hdr

/-- `aixos_heap_check` -/
def check (h : Heap) : Option (Heap × Code) :=
  if !h.heapInitialized then some (h, Code.inval)
  else (h.checkLoop h.rounds h.heapFirst 0).map fun ok =>
    if ok then (h, Code.ok) else ({ h with corruptionCount := h.corruptionCount + 1 }, Code.corrupt)

/-- `aixos_heap_lockdown` -/
def lockdown (h : Heap) (isr : Bool) : Heap := if isr then h else { h with runtimeLocked := true }

/-- The blocks from `hdr` on, with their headers. -/
def walk (h : Heap) : (fuel hdr : ℕ) → Option (List (ℕ × HeapHdr))
  | 0, _ => none
  | fuel + 1, hdr => if hdr = 0 then some [] else (h.walk fuel (h.hdr hdr).next).map ((hdr, h.hdr hdr) :: ·)

/-- The list of blocks that starts at `heap_first`. -/
def blocks (h : Heap) : Option (List (ℕ × HeapHdr)) := h.walk h.rounds h.heapFirst

end Heap

end Aixos
