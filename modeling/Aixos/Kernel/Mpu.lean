import Aixos.Kernel.Types
import Mathlib.Logic.Function.Basic

/-!
# Memory protection

`mpu.c`, and what `aixos_arch_mpu_configure_task` writes into the protection units of the two
architectures: `arch/arm/cortex-m3/port.c` and `arch/risc-v/port.c`.

## The model

* `Mpu.Region`, `Mpu.Task` — the regions of a task, and the fields of its control block that `mpu.c` uses.
* `Mpu.Task.allows` — the check that the kernel makes on behalf of the task.
* `ArmMpu` — the registers of the ARMv7-M unit, and what it permits: the enabled region of the
  highest number around an address decides.
* `Pmp` — the registers of the RISC-V unit: the entry of the lowest number around an address decides.

Addresses and sizes are words of 32 bits. The functions of the units are not translated from the
source: they say what the hardware does with the registers, for code that is not privileged.
-/

namespace Aixos.Mpu

/-- `AIXOS_MPU_READ` -/
def attrRead : Word := 1

/-- `AIXOS_MPU_WRITE` -/
def attrWrite : Word := 2

/-- `AIXOS_MPU_EXEC` -/
def attrExec : Word := 4

/-- `AIXOS_MPU_DEVICE` -/
def attrDevice : Word := 8

/-- The options of `aixos_cfg.h` for memory protection, with the checks it makes for the Cortex-M
profile. Its default values meet them on both architectures. -/
class MpuConfig where
  /-- `AIXOS_CFG_MPU_REGIONS_PER_TASK` -/
  regionsPerTask : ℕ
  /-- `AIXOS_CFG_MPU_MIN_REGION_SIZE` -/
  minRegionSize : Word
  regionsPerTask_pos : 0 < regionsPerTask
  regionsPerTask_le : regionsPerTask ≤ 3
  minRegionSize_ge : 32 ≤ minRegionSize

/-- The values of `aixos_cfg.h` when the user overrides nothing. -/
@[reducible] def MpuConfig.default : MpuConfig where
  regionsPerTask := 3
  minRegionSize := 32
  regionsPerTask_pos := by decide
  regionsPerTask_le := by decide
  minRegionSize_ge := by decide

/-- `AIXOS_CFG_FLASH_BASE` -/
def flashBase : Word := 0x08000000

/-- `AIXOS_CFG_FLASH_SIZE` -/
def flashSize : Word := 512 * 1024

/-- `AIXOS_CFG_RISCV_RAM_BASE` -/
def riscvRamBase : Word := 0x80000000

/-- `AIXOS_CFG_RISCV_RAM_SIZE` -/
def riscvRamSize : Word := 64 * 1024 * 1024

/-- `aixos_mpu_region_t` -/
structure Region where
  /-- `base` -/
  base : Word
  /-- `size` -/
  size : Word
  /-- `attr` -/
  attr : Word
  deriving DecidableEq

/-- The fields of `aixos_tcb_t` that `mpu.c` uses. -/
structure Task where
  /-- `domain == AIXOS_DOMAIN_USER` -/
  user : Bool
  /-- `stack_base` -/
  stackBase : Word
  /-- `stack_size` -/
  stackSize : Word
  /-- `mpu_regions`, the first `mpu_region_count` of them -/
  regions : List Region := []

/-- What a task may do with memory. -/
inductive Access where
  | read
  | write
  | exec
  deriving DecidableEq

/-- `is_power_of_two` -/
def isPowerOfTwo (value : Word) : Bool := value ≠ 0 && decide (value &&& (value - 1) = 0)

section

variable [cfg : MpuConfig]

/-- `aixos_mpu_region_valid`. No `size_t` is above `UINT32_MAX`. -/
def regionValid (base size attr : Word) : Bool :=
  if attr = 0 ∨ attr &&& ~~~(attrRead ||| attrWrite ||| attrExec ||| attrDevice) ≠ 0 then false
  else if size < cfg.minRegionSize ∨ !isPowerOfTwo size then false
  else if 0xFFFFFFFF - base < size then false
  else if base &&& (size - 1) ≠ 0 then false
  else if attr &&& attrWrite ≠ 0 ∧ attr &&& attrRead = 0 then false
  else true

namespace Task

/-- `aixos_mpu_task_init` -/
def init (t : Task) : Task :=
  { t with regions :=
      if t.user && regionValid t.stackBase t.stackSize (attrRead ||| attrWrite) then
        [{ base := t.stackBase, size := t.stackSize, attr := attrRead ||| attrWrite }]
      else [] }

/-- `aixos_task_mpu_region_add`, for a task that exists -/
def regionAdd (t : Task) (inIsr : Bool) (base size attr : Word) : Except Code Task :=
  if inIsr then .error Code.context
  else if !regionValid base size attr then .error Code.inval
  else if !t.user then .error Code.inval
  else if cfg.regionsPerTask ≤ t.regions.length then .error Code.overflow
  else .ok { t with regions := t.regions ++ [{ base, size, attr }] }

omit cfg in
/-- The loop of `aixos_mpu_task_allows` -/
def allowsLoop (base «end» : Word) (writeAccess executeAccess : Bool) : List Region → Bool
  | [] => false
  | region :: rest =>
    let regionEnd := region.base + region.size
    if base < region.base ∨ regionEnd < «end» then allowsLoop base «end» writeAccess executeAccess rest
    else if writeAccess ∧ region.attr &&& attrWrite = 0 then false
    else if executeAccess ∧ region.attr &&& attrExec = 0 then false
    else if !writeAccess ∧ !executeAccess ∧ region.attr &&& attrRead = 0 then false
    else true

omit cfg in
/-- `aixos_mpu_task_allows` -/
def allows (t : Task) (base size : Word) (writeAccess executeAccess : Bool) : Bool :=
  if !t.user ∨ size = 0 ∨ 0xFFFFFFFF - base < size then false
  else allowsLoop base (base + size) writeAccess executeAccess t.regions

end Task

end

/-! ### ARMv7-M -/

/-- `MPU_CTRL_ENABLE` -/
def mpuCtrlEnable : Word := 0x1

/-- `MPU_CTRL_PRIVDEFENA` -/
def mpuCtrlPrivdefena : Word := 0x4

/-- `MPU_RASR_ENABLE` -/
def mpuRasrEnable : Word := 0x1

/-- `MPU_RASR_XN`: bit 28 -/
def mpuRasrXn : Word := 0x10000000

/-- `MPU_RASR_AP_RO`: 6 in bits 24 to 26 -/
def mpuRasrApRo : Word := 0x6000000

/-- `MPU_RASR_AP_RW`: 3 in bits 24 to 26 -/
def mpuRasrApRw : Word := 0x3000000

/-- `MPU_RASR_NORMAL`: bits 16 to 18 -/
def mpuRasrNormal : Word := 0x70000

/-- `MPU_RASR_DEVICE`: bit 16 -/
def mpuRasrDevice : Word := 0x10000

/-- `mpu_log2`, with room for as many rounds as a word has bits. -/
def mpuLog2Loop : ℕ → Word → Word → Word
  | 0, _, log => log
  | n + 1, value, log => if 1 < value then mpuLog2Loop n (value >>> 1) (log + 1) else log

/-- `mpu_log2` -/
def mpuLog2 (value : Word) : Word := mpuLog2Loop 32 value 0

/-- `mpu_rasr_size` -/
def mpuRasrSize (size : Word) : Word := (mpuLog2 size - 1) <<< 1

end Aixos.Mpu

namespace Aixos

/-- The registers of the memory protection unit of ARMv7-M, as the source writes them. -/
structure ArmMpu where
  /-- `MPU_CTRL` -/
  ctrl : Word
  /-- `MPU_RNR` -/
  rnr : ℕ
  /-- `MPU_RBAR`, of each region -/
  rbar : ℕ → Word
  /-- `MPU_RASR`, of each region -/
  rasr : ℕ → Word

namespace ArmMpu

open Mpu

/-- A write of `MPU_RBAR`: bit 4 selects the region whose number is in the bits below it. -/
def writeRbar (m : ArmMpu) (v : Word) : ArmMpu :=
  let rnr := if v.getLsbD 4 then (v &&& 15).toNat else m.rnr
  { m with rnr, rbar := Function.update m.rbar rnr v }

/-- A write of `MPU_RASR`. -/
def writeRasr (m : ArmMpu) (v : Word) : ArmMpu := { m with rasr := Function.update m.rasr m.rnr v }

/-- `mpu_region_disable` -/
def regionDisable (m : ArmMpu) (region : ℕ) : ArmMpu := writeRasr { m with rnr := region } 0

/-- The value of `rasr` in `mpu_region_configure`, from `mpu_rasr_size` on. -/
def rasrValue (size : Word) (write exec device : Bool) : Word :=
  let rasr := mpuRasrEnable ||| size
  let rasr := if write then rasr ||| mpuRasrApRw else rasr ||| mpuRasrApRo
  let rasr := if !exec then rasr ||| mpuRasrXn else rasr
  rasr ||| (if device then mpuRasrDevice else mpuRasrNormal)

/-- `mpu_region_configure` -/
def regionConfigure (m : ArmMpu) (region : ℕ) (r : Region) : ArmMpu :=
  (writeRbar { m with rnr := region } r.base).writeRasr
    (rasrValue (mpuRasrSize r.size) (r.attr &&& attrWrite ≠ 0) (r.attr &&& attrExec ≠ 0) (r.attr &&& attrDevice ≠ 0))

/-- The second loop of `aixos_arch_mpu_configure_task`, from region `i` on. -/
def configureRegions (m : ArmMpu) (i : ℕ) : List Region → ArmMpu
  | [] => m
  | r :: rs => (m.regionConfigure (i + 1) r).configureRegions (i + 1) rs

/-- `aixos_arch_mpu_configure_task`, where the processor has a unit. -/
def configureTask [cfg : MpuConfig] (m : ArmMpu) (task : Mpu.Task) : ArmMpu :=
  let m := { m with ctrl := 0 }
  let m := (List.range 8).foldl regionDisable m
  let m := m.regionConfigure 0 { base := flashBase, size := flashSize, attr := attrRead ||| attrExec }
  let dynamicRegions := if task.user then task.regions.length else 0
  let dynamicRegions := if cfg.regionsPerTask < dynamicRegions then cfg.regionsPerTask else dynamicRegions
  let m := m.configureRegions 0 (task.regions.take dynamicRegions)
  { m with ctrl := mpuCtrlEnable ||| mpuCtrlPrivdefena }

/-- The field `SIZE` of a region: it has `2 ^ (SIZE + 1)` bytes. -/
def sizeField (m : ArmMpu) (i : ℕ) : ℕ := ((m.rasr i).extractLsb' 1 5).toNat

/-- Region `i` is enabled and around the address, and the eighth of it that the address is in is not disabled. -/
def Matches (m : ArmMpu) (a : Word) (i : ℕ) : Bool :=
  (m.rasr i).getLsbD 0 && decide (a >>> (m.sizeField i + 1) = m.rbar i >>> (m.sizeField i + 1)) &&
    !(m.rasr i).getLsbD (8 + (a >>> (m.sizeField i - 2)).toNat % 8)

/-- The region that decides: of those around the address the one of the highest number. -/
def deciding (m : ArmMpu) (a : Word) : Option ℕ := (List.range 8).reverse.find? (m.Matches a)

/-- What the field `AP` permits to code that is not privileged. -/
def apPermits (ap : BitVec 3) : Access → Bool
  | .write => decide (ap = 3)
  | .read | .exec => decide (ap = 2 ∨ ap = 3 ∨ ap = 6 ∨ ap = 7)

/-- What the unit permits to code that is not privileged. -/
def permits (m : ArmMpu) (a : Word) (x : Access) : Bool :=
  if !m.ctrl.getLsbD 0 then true
  else match m.deciding a with
    | none => false
    | some i => apPermits ((m.rasr i).extractLsb' 24 3) x && !(decide (x = .exec) && (m.rasr i).getLsbD 28)

end ArmMpu

namespace Mpu

/-! ### RISC-V -/

/-- `PMP_R` -/
def pmpR : Word := 0x01

/-- `PMP_W` -/
def pmpW : Word := 0x02

/-- `PMP_X` -/
def pmpX : Word := 0x04

/-- `PMP_A_NAPOT` -/
def pmpANapot : Word := 0x18

end Mpu

/-- The registers of the protection unit of RISC-V that the source writes. -/
structure Pmp where
  /-- `pmpaddr0` to `pmpaddr3` -/
  addr : ℕ → Word
  /-- `pmpcfg0` -/
  cfg : Word

namespace Pmp

open Mpu

/-- `pmp_napot` -/
def napot (base size : Word) : Word := base >>> 2 ||| (size - 1) >>> 3

/-- `pmp_attr` -/
def attr (a : Word) : Word :=
  let cfg := pmpANapot
  let cfg := if a &&& attrRead ≠ 0 then cfg ||| pmpR else cfg
  let cfg := if a &&& attrWrite ≠ 0 then cfg ||| pmpW else cfg
  if a &&& attrExec ≠ 0 then cfg ||| pmpX else cfg

/-- The loop of `aixos_arch_mpu_configure_task`, from entry `i` on, with `cfg` so far. -/
def configureRegions (i : ℕ) (p : Pmp) : List Region → Pmp
  | [] => p
  | r :: rs => configureRegions (i + 1)
    { addr := Function.update p.addr i (napot r.base r.size), cfg := p.cfg ||| attr r.attr <<< (8 * i) } rs

/-- `aixos_arch_mpu_configure_task` -/
def configureTask (task : Mpu.Task) : Pmp :=
  let dynamicRegions := if task.user then task.regions.length else 0
  let dynamicRegions := if 3 < dynamicRegions then 3 else dynamicRegions
  let p := configureRegions 0 { addr := fun _ => 0, cfg := 0 } (task.regions.take dynamicRegions)
  { addr := Function.update p.addr 3 (napot riscvRamBase riscvRamSize)
    cfg := p.cfg ||| attr (attrRead ||| attrExec) <<< 24 }

/-- The configuration byte of an entry. -/
def byte (p : Pmp) (i : ℕ) : BitVec 8 := p.cfg.extractLsb' (8 * i) 8

/-- How many low bits of a word are ones. -/
def trailingOnes (w : Word) : ℕ := ((List.range 32).takeWhile fun i => w.getLsbD i).length

/-- Entry `i` is of the kind `NAPOT` and around the address: with `k` low bits set, `pmpaddr` names
`2 ^ (k + 3)` bytes. The source makes no entry of another kind, but those that are off. -/
def Matches (p : Pmp) (a : Word) (i : ℕ) : Bool :=
  decide ((p.byte i).extractLsb' 3 2 = 3) &&
    decide (a >>> (trailingOnes (p.addr i) + 3) = p.addr i >>> (trailingOnes (p.addr i) + 1))

/-- The entry that decides: of those around the address the one of the lowest number. -/
def deciding (p : Pmp) (a : Word) : Option ℕ := (List.range 4).find? (p.Matches a)

/-- What the unit permits to code in user mode. -/
def permits (p : Pmp) (a : Word) (x : Access) : Bool :=
  match p.deciding a with
  | none => false
  | some i => match x with
    | .read => (p.byte i).getLsbD 0
    | .write => (p.byte i).getLsbD 1
    | .exec => (p.byte i).getLsbD 2

end Pmp

end Aixos
