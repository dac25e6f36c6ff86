import Aixos.Kernel.Types
import Mathlib.Logic.Function.Basic

/-!
# The trap handler of the RISC-V port

`arch/risc-v/portasm.s`, instruction by instruction where it saves and restores the registers of a task, with
`aixos_arch_stack_init` and `aixos_riscv_syscall_entry` of `port.c`.

* `Riscv.Instr`, `Riscv.exec` — the instructions that the handler consists of.
* `Riscv.saveCode`, `Riscv.restoreCode` — the handler from its first instruction to `trap_cause`, and from
  `trap_restore` on.
* `Riscv.KernelOp` — what is done in between, as far as frames and control blocks are concerned.
* `Riscv.step` — a task runs for a while, or is interrupted.

Memory is modelled by words, and addresses are those of words. Interrupts are masked in the handler, so a trap is one
step. `mcause` decides which functions are called in between, and is left out.
-/

namespace Aixos.Riscv

/-- The number of a register. -/
abbrev Reg := Fin 32

scoped instance neZero : NeZero 32 := ⟨by decide⟩

/-- The privilege modes that the port uses. -/
inductive Mode where
  | user
  | machine
  deriving DecidableEq

/-- The control and status registers that the handler uses. -/
inductive Csr where
  | mepc
  | mstatus
  deriving DecidableEq

/-- A hart. -/
structure Hart where
  /-- `x0` to `x31`; `x0` is not looked at -/
  regs : Reg → Word
  pc : Word
  mode : Mode
  mepc : Word
  mstatus : Word
  /-- The memory, by words. -/
  mem : Word → Word

/-- The instructions. -/
inductive Instr where
  /-- `addi rd, rs, imm` -/
  | addi (rd rs : Reg) (imm : Word)
  /-- `sw rs, off(base)` -/
  | sw (rs : Reg) (off : Word) (base : Reg)
  /-- `lw rd, off(base)` -/
  | lw (rd : Reg) (off : Word) (base : Reg)
  /-- `csrr rd, csr` -/
  | csrr (rd : Reg) (csr : Csr)
  /-- `csrw csr, rs` -/
  | csrw (csr : Csr) (rs : Reg)
  /-- `la rd, symbol` -/
  | la (rd : Reg) (symbol : Word)
  /-- `beqz rs`, over the next `n` instructions -/
  | beqz (rs : Reg) (n : ℕ)

namespace Hart

/-- What a register holds. -/
def reg (h : Hart) (r : Reg) : Word := if r = 0 then 0 else h.regs r

/-- Store into a register. -/
def setReg (h : Hart) (r : Reg) (w : Word) : Hart := { h with regs := Function.update h.regs r w }

/-- Store into a word of memory. -/
def store (h : Hart) (a w : Word) : Hart := { h with mem := Function.update h.mem a w }

/-- What a control and status register holds. -/
def csr (h : Hart) : Csr → Word
  | .mepc => h.mepc
  | .mstatus => h.mstatus

/-- Store into a control and status register. -/
def setCsr (h : Hart) (w : Word) : Csr → Hart
  | .mepc => { h with mepc := w }
  | .mstatus => { h with mstatus := w }

/-- One instruction. -/
def exec (h : Hart) : Instr → Hart
  | .addi rd rs imm => h.setReg rd (h.reg rs + imm)
  | .sw rs off base => h.store (h.reg base + off) (h.reg rs)
  | .lw rd off base => h.setReg rd (h.mem (h.reg base + off))
  | .csrr rd csr => h.setReg rd (h.csr csr)
  | .csrw csr rs => h.setCsr (h.reg rs) csr
  | .la rd symbol => h.setReg rd symbol
  | .beqz .. => h

/-- The instructions after this one that are passed over. -/
def skip (h : Hart) : Instr → ℕ
  | .beqz rs n => if h.reg rs = 0 then n else 0
  | _ => 0

/-- Straight-line code, of which the first `n` instructions are passed over. -/
def execAll (h : Hart) : ℕ → List Instr → Hart
  | _, [] => h
  | n + 1, _ :: is => h.execAll n is
  | 0, i :: is => (h.exec i).execAll (h.skip i) is

end Hart

/-! ### Traps -/

/-- `mstatus.MIE` -/
def mieBit : Word := 0x8

/-- `MSTATUS_MPIE` -/
def mpieBit : Word := 0x80

/-- `MSTATUS_MPP_M` -/
def mppMachine : Word := 0x1800

/-- `mstatus` when a trap is taken in a mode: `MPP` is the mode, `MPIE` what `MIE` was, and `MIE` is 0. -/
def enterStatus (status : Word) (mode : Mode) : Word :=
  (status &&& ~~~(mppMachine ||| mpieBit ||| mieBit)) ||| (if mode = .machine then mppMachine else 0) |||
    (if status &&& mieBit ≠ 0 then mpieBit else 0)

/-- The mode that `mret` goes to. -/
def leaveMode (status : Word) : Mode := if status &&& mppMachine = 0 then .user else .machine

/-- `mstatus` after `mret`: `MIE` is what `MPIE` was, `MPIE` is 1, and `MPP` is the least privileged mode. -/
def leaveStatus (status : Word) : Word :=
  (status &&& ~~~(mppMachine ||| mpieBit ||| mieBit)) ||| mpieBit ||| (if status &&& mpieBit ≠ 0 then mieBit else 0)

namespace Hart

/-- What the processor does when a trap is taken. -/
def trap (h : Hart) : Hart := { h with mepc := h.pc, mstatus := enterStatus h.mstatus h.mode, mode := .machine }

/-- `mret` -/
def mret (h : Hart) : Hart :=
  { h with pc := h.mepc, mode := leaveMode h.mstatus, mstatus := leaveStatus h.mstatus }

end Hart

/-- The addresses of the two symbols. -/
class Symbols where
  /-- `g_cur_task` -/
  gCurTask : Word
  /-- `aixos_task_return_trap` -/
  taskReturnTrap : Word

variable [sym : Symbols]

/-- `FRAME_SIZE` -/
def frameSize : Word := 144

/-- `MEPC_OFF` -/
def mepcOff : Word := 128

/-- `MSTATUS_OFF` -/
def mstatusOff : Word := 132

/-- The registers that `trap_handler` stores one after another, each in the word of its number. -/
def storedRegs : List Reg :=
  [1, 3, 4, 5, 6, 7, 8, 9, 10, 11, 12, 13, 14, 15, 16, 17, 18, 19, 20, 21, 22, 23, 24, 25, 26, 27, 28, 29, 30, 31]

/-- The offset of the word of a register. -/
def regOff (r : Reg) : Word := BitVec.ofNat 32 (4 * r.val)

/-- The rest of the frame, and its address in the control block. -/
def storeStatus : List Instr :=
  [.addi 5 2 frameSize,
   .sw 5 (regOff 2) 2,
   .csrr 5 .mepc,
   .sw 5 mepcOff 2,
   .csrr 5 .mstatus,
   .sw 5 mstatusOff 2,
   .la 5 sym.gCurTask,
   .lw 5 0 5,
   .beqz 5 1,
   .sw 2 0 5]

/-- `trap_handler`, up to `trap_cause` -/
def saveCode : List Instr :=
  [.addi 2 2 (-frameSize)] ++ (storedRegs.map (fun r => .sw r (regOff r) 2) ++ storeStatus)

/-- The frame that is restored from, and its last two words. -/
def loadStatus : List Instr :=
  [.la 5 sym.gCurTask,
   .lw 5 0 5,
   .lw 2 0 5,
   .lw 5 mepcOff 2,
   .csrw .mepc 5,
   .lw 5 mstatusOff 2,
   .csrw .mstatus 5]

/-- `trap_restore`, up to `mret` -/
def restoreCode : List Instr :=
  loadStatus ++ (storedRegs.map (fun r => .lw r (regOff r) 2) ++ [.lw 2 (regOff 2) 2])

/-! ### Between the two -/

/-- `aixos_arch_stack_init`: the address of the frame. -/
def initFrame (stackTop : Word) : Word := (stackTop &&& ~~~0xF) - frameSize

/-- What it stores into word `i` of the frame. -/
def initWord (stackTop entry arg : Word) (userMode : Bool) (i : ℕ) : Word :=
  if i = 1 then sym.taskReturnTrap
  else if i = 2 then stackTop &&& ~~~0xF
  else if i = 10 then arg
  else if i = 32 then entry
  else if i = 33 then (if userMode then 0 else mppMachine) ||| mpieBit
  else 0

/-- `aixos_arch_stack_init` -/
def stackInit (m : Word → Word) (stackTop entry arg : Word) (userMode : Bool) : Word → Word :=
  (List.range 36).foldl (fun m i => Function.update m (initFrame stackTop + BitVec.ofNat 32 (4 * i))
    (initWord stackTop entry arg userMode i)) m

/-- What the functions that the handler calls do to frames and control blocks. -/
inductive KernelOp where
  /-- Another word of memory is written to. -/
  | write (a w : Word)
  /-- `g_cur_task = task` in `aixos_schedule` -/
  | schedule (task : Word)
  /-- `task->stack_top = aixos_arch_stack_init(entry, stack_top, arg, user_mode)` -/
  | create (task stackTop entry arg : Word) (userMode : Bool)
  /-- A task is deleted. -/
  | delete (task : Word)
  /-- `aixos_riscv_syscall_entry`, when `aixos_syscall_dispatch` has returned -/
  | syscall (result : Word)

/-- It is done to memory. -/
def KernelOp.apply (m : Word → Word) : KernelOp → Word → Word
  | .write a w => Function.update m a w
  | .schedule task => Function.update m sym.gCurTask task
  | .create task stackTop entry arg userMode =>
    Function.update (stackInit m stackTop entry arg userMode) task (initFrame stackTop)
  | .delete _ => m
  | .syscall result =>
    let frame := m (m sym.gCurTask)
    let m := Function.update m (frame + 40) result
    Function.update m (frame + 128) (m (frame + 128) + 4)

/-- What happens. -/
inductive Act where
  /-- The current task runs: its registers change, and words of memory. -/
  | run (regs : Reg → Word) (pc mstatus : Word) (writes : List (Word × Word))
  /-- A trap is taken and handled: what the functions do that the handler calls, and the registers that they leave. -/
  | trap (ops : List KernelOp) (regs : Reg → Word)

namespace Hart

/-- `trap_handler`, with what is done between its two halves. -/
def trapHandler (h : Hart) (ops : List KernelOp) (regs : Reg → Word) : Hart :=
  let h := h.trap.execAll 0 saveCode
  let h := { h with mem := ops.foldl KernelOp.apply h.mem, regs := regs }
  (h.execAll 0 restoreCode).mret

/-- One step. -/
def step (h : Hart) : Act → Option Hart
  | .run regs pc mstatus writes =>
    some { h with regs, pc, mstatus, mem := writes.foldl (fun m w => Function.update m w.1 w.2) h.mem }
  | .trap ops regs => some (h.trapHandler ops regs)

/-- `aixos_arch_start_first_task`, with what has been done before. -/
def start (h : Hart) (ops : List KernelOp) : Hart :=
  (({ h with mem := ops.foldl KernelOp.apply h.mem } : Hart).execAll 0 restoreCode).mret

end Hart

end Aixos.Riscv
