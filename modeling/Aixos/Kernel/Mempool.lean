import Aixos.Kernel.Types

/-!
# Memory pools

`mempool.c`: up to 32 blocks of one size in a storage that the caller gives, and a bitmap of those that are free.

* `Mempool.init`, `Mempool.alloc`, `Mempool.owns`, `Mempool.free` — the functions.
* `Mempool.Client`, `Mempool.step` — the calls of the clients of one pool, with the blocks they have.

Addresses are natural numbers, `NULL` is 0, and sizes in bytes (`size_t`) are natural numbers too; `uint32_t` is `Word`. The
pool itself is never `NULL` here. The functions are critical sections: what they read before is never written after
`aixos_mempool_init`. Whether an interrupt handler calls is an argument.
-/

namespace Aixos

/-- The sizes of the target. -/
class TargetConfig where
  /-- `sizeof(uintptr_t)` -/
  pointerSize : ℕ
  pointerSize_eq : pointerSize = 4 ∨ pointerSize = 8

/-- A 32-bit target. -/
@[reducible] def TargetConfig.default : TargetConfig where
  pointerSize := 4
  pointerSize_eq := .inl rfl

/-- An object in memory. The address after its end is an address too, as C has it. -/
structure Storage [tcfg : TargetConfig] where
  addr : ℕ
  size : ℕ
  end_lt : addr + size < 256 ^ tcfg.pointerSize

/-- `aixos_mempool_t` -/
structure Mempool where
  storage : ℕ
  storageSize : Word
  blockSize : Word
  blockCount : Word
  freeBitmap : Word
  allocated : Word := 0
  peakAllocated : Word := 0
  allocFailures : Word := 0
  deriving DecidableEq

namespace Mempool

/-- `AIXOS_MEMPOOL_MAX_BLOCKS` -/
def maxBlocks : Word := 32

section

variable [tcfg : TargetConfig]

/-- `align_up` -/
def alignUp (value : Word) : Word :=
  let alignment : Word := .ofNat 32 tcfg.pointerSize
  (value + alignment - 1) &&& ~~~(alignment - 1)

/-- `aixos_mempool_init` -/
def init (storage : Storage) (blockSize : ℕ) (blockCount : Word) : Except Code Mempool :=
  if storage.addr = 0 ∨ blockSize = 0 ∨ 2 ^ 32 - 1 < blockSize ∨ blockCount = 0 ∨ maxBlocks < blockCount ∨
      storage.addr &&& (tcfg.pointerSize - 1) ≠ 0 then
    .error Code.inval
  else
    let alignedSize := alignUp (.ofNat 32 blockSize)
    if BitVec.allOnes 32 / blockCount < alignedSize ∨
        storage.size < alignedSize.toNat * blockCount.toNat % 256 ^ tcfg.pointerSize then
      .error Code.inval
    else
      .ok {
        storage := storage.addr
        storageSize := alignedSize * blockCount
        blockSize := alignedSize
        blockCount
        freeBitmap := if blockCount = 32 then BitVec.allOnes 32 else ((1 : Word) <<< blockCount) - 1 }

end

/-- `aixos_mempool_alloc`, with the block, or `none` for `NULL`. -/
def alloc (isr : Bool) (p : Mempool) : Mempool × Option ℕ :=
  if isr then (p, none)
  else if p.freeBitmap = 0 then ({ p with allocFailures := p.allocFailures + 1 }, none)
  else
    let index := p.freeBitmap.ctz
    let p := { p with freeBitmap := p.freeBitmap &&& ~~~((1 : Word) <<< index), allocated := p.allocated + 1 }
    let p := if p.peakAllocated < p.allocated then { p with peakAllocated := p.allocated } else p
    (p, some (p.storage + (index * p.blockSize).toNat))

/-- `aixos_mempool_owns` -/
def owns (p : Mempool) (block : ℕ) : Bool :=
  if p.storage = 0 ∨ block = 0 ∨ block < p.storage ∨ p.storage + p.storageSize.toNat ≤ block then false
  else (block - p.storage) % p.blockSize.toNat = 0

/-- `aixos_mempool_free` -/
def free (isr : Bool) (p : Mempool) (block : ℕ) : Mempool × Code :=
  if isr then (p, Code.context)
  else if !p.owns block then (p, Code.inval)
  else
    let index : Word := .ofNat 32 ((block - p.storage) / p.blockSize.toNat)
    let mask := (1 : Word) <<< index
    if p.freeBitmap &&& mask ≠ 0 then (p, Code.inval)
    else ({ p with freeBitmap := p.freeBitmap ||| mask, allocated := p.allocated - 1 }, Code.ok)

/-! ### The clients -/

/-- A pool and the outstanding blocks: those that `aixos_mempool_alloc` has returned and that have not been freed. -/
structure Client where
  pool : Mempool
  outstanding : List ℕ := []
  deriving DecidableEq

/-- The calls. -/
inductive Call where
  /-- `aixos_mempool_alloc` -/
  | alloc (isr : Bool)
  /-- `aixos_mempool_free` of any pointer -/
  | free (isr : Bool) (block : ℕ)
  deriving DecidableEq

/-- One call. -/
def step (s : Client) : Call → Option Client
  | .alloc isr =>
    match s.pool.alloc isr with
    | (pool, some block) => some { pool, outstanding := block :: s.outstanding }
    | (pool, none) => some { s with pool }
  | .free isr block =>
    match s.pool.free isr block with
    | (pool, result) =>
      some { pool, outstanding := if result = Code.ok then s.outstanding.erase block else s.outstanding }

end Mempool

end Aixos
