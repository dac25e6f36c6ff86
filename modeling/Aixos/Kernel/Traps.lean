import Aixos.Kernel.UserMemory
import Aixos.Library.ByteMemory

/-!
# The ways into the kernel

`aixos_syscall_dispatch`, `aixos_syscall_invoke` and `aixos_syscall_invoke_fast` of `microkernel.c`, and between them the
trap handlers of the two architectures: `aixos_arm_svc_handler` and `aixos_riscv_syscall_entry`. Both fetch the call from the
registers that have been saved. What the system calls do is a parameter: `syscall_table`.

* `TrapState.dispatch` — a request is looked up and called.
* `Port.trap` — what happens between the trap and the return from it.
* `Port.invoke`, `Port.invokeFast` — the two ways in.
-/

namespace Aixos

open Mpu

/-- `aixos_syscall_request_t` -/
@[ext] structure SyscallRequest where
  /-- `number` -/
  number : Word
  /-- `args` -/
  args : Fin 5 → Word

/-- `sizeof(aixos_syscall_request_t)` -/
def syscallRequestSize : Word := 24

/-- `AIXOS_SC_COUNT` -/
def syscallCount : ℕ := 21

/-- What a trap works on. -/
structure TrapState (σ : Type) where
  /-- `g_cur_task` -/
  current : Option Task
  /-- memory -/
  bytes : Word → UInt8
  /-- everything else -/
  rest : σ

/-- What a system call does, as a function of the state and of the request that it reads. -/
abbrev SyscallHandler (σ : Type) := TrapState σ → SyscallRequest → TrapState σ × Code

/-- `syscall_table`, with `none` for `NULL` -/
abbrev SyscallTable (σ : Type) := ℕ → Option (SyscallHandler σ)

namespace TrapState

variable {σ : Type}

/-- The word at an address. -/
def word (s : TrapState σ) (a : Word) : Word :=
  .ofNat 32 (ofLe [s.bytes a, s.bytes (a + 1), s.bytes (a + 2), s.bytes (a + 3)])

/-- The request at an address. -/
def request (s : TrapState σ) (a : Word) : SyscallRequest where
  number := s.word a
  args i := s.word (a + 4 + .ofNat 32 (4 * i))

/-- `request_check` -/
def requestCheck (s : TrapState σ) (request : Word) : Code :=
  userMemoryCheckForTask s.current request syscallRequestSize false

/-- `aixos_syscall_dispatch` -/
def dispatch (s : TrapState σ) (table : SyscallTable σ) (request : Word) : TrapState σ × Code :=
  match s.current with
  | none => (s, Code.perm)
  | some caller =>
    if !caller.user then (s, Code.perm)
    else if s.requestCheck request ≠ Code.ok ∨ syscallCount ≤ (s.request request).number.toNat then (s, Code.fault)
    else
      match table (s.request request).number.toNat with
      | some handler => handler s (s.request request)
      | none => (s, Code.nosys)

/-- `aixos_arm_svc_handler`, with the words that the processor has saved. -/
def armSvcHandler (s : TrapState σ) (table : SyscallTable σ) (frame : ℕ → Word) : TrapState σ × (ℕ → Word) :=
  let (s', code) := s.dispatch table (frame 0)
  (s', Function.update frame 0 (.ofInt 32 code))

/-- `aixos_riscv_syscall_entry`, with the words that `trap_handler` has saved. -/
def riscvSyscallEntry (s : TrapState σ) (table : SyscallTable σ) (frame : ℕ → Word) : TrapState σ × (ℕ → Word) :=
  match s.current with
  | none => (s, frame)
  | some _ =>
    let (s', code) := s.dispatch table (frame 10)
    let frame := Function.update frame 10 (.ofInt 32 code)
    (s', Function.update frame 32 (frame 32 + 4))

end TrapState

/-- The architectures. -/
inductive Port where
  /-- ARM Cortex-M3 -/
  | arm
  /-- RISC-V -/
  | riscv
  deriving DecidableEq

namespace Port

variable {σ : Type}

/-- What the trap instruction leads to. A word of the frame is the register of the same number. -/
def trap : Port → TrapState σ → SyscallTable σ → (ℕ → Word) → TrapState σ × (ℕ → Word)
  | .arm => TrapState.armSvcHandler
  | .riscv => TrapState.riscvSyscallEntry

/-- `aixos_syscall_invoke`, where the registers are `regs` before -/
def invoke (port : Port) (s : TrapState σ) (table : SyscallTable σ) (regs : ℕ → Word) (request : Word) :
    TrapState σ × ℤ :=
  match port with
  | .arm =>
    let (s', regs) := port.trap s table (Function.update regs 0 request)
    (s', (regs 0).toInt)
  | .riscv =>
    let (s', regs) := port.trap s table (Function.update regs 10 request)
    (s', (regs 10).toInt)

/-- `aixos_syscall_invoke_fast`, where the registers are `regs` before -/
def invokeFast (port : Port) (s : TrapState σ) (table : SyscallTable σ) (regs : ℕ → Word) (number : Word)
    (args : Fin 5 → Word) : TrapState σ × ℤ :=
  match port with
  | .arm =>
    let regs := Function.update regs 0 number
    let regs := Function.update regs 1 (args 0)
    let regs := Function.update regs 2 (args 1)
    let regs := Function.update regs 3 (args 2)
    let (s', regs) := port.trap s table regs
    (s', (regs 0).toInt)
  | .riscv =>
    let regs := Function.update regs 10 number
    let regs := Function.update regs 11 (args 0)
    let regs := Function.update regs 12 (args 1)
    let regs := Function.update regs 13 (args 2)
    let regs := Function.update regs 14 (args 3)
    let regs := Function.update regs 15 (args 4)
    let (s', regs) := port.trap s table regs
    (s', (regs 10).toInt)

end Port

end Aixos
