import Aixos.Kernel.Microkernel
import Aixos.Library.ByteMemory

/-!
# Receiving from a queue in a system call

`sc_mq_recv` of `microkernel.c`, and `aixos_mq_recv` as it runs in the trap handler of a user task.

## The model

* `Micro.arg` — an argument, which is read from the request in the memory of the task.
* `Micro.scMqRecvCheck` — what is checked before the queue is touched.
* `Micro.mqRecvInTrap` — the critical sections of `aixos_mq_recv`.
* `Micro.scMqRecvCopy` — the message and its length are copied to the task.
* `Receiving.step` — the system with user tasks, and with this call.

In a trap no other task runs: `aixos_task_block_current` returns at once and the loop goes on.
Interrupts may come before, between and after the critical sections; what they do is an argument,
one list for each place. The request stays where the task has put it: `args[1]` and `args[4]` are
read again after the receive, and `args[4]` after the copy of the message.
-/

namespace Aixos

open Transition

/-- `AIXOS_SC_MQ_RECV` -/
def scMqRecvNumber : Word := 11

/-- `sizeof(aixos_syscall_request_t)`: `number` and five words `args` -/
def requestSize : ℕ := 24

/-- `kernel_capacity` -/
def kernelCapacity (capacity : ℕ) : ℕ := if maxIpcCopyBytes < capacity then maxIpcCopyBytes else capacity

/-- The bytes of a `size_t`. -/
def sizeBytes (n : ℕ) : List UInt8 := (List.range 4).map fun i => UInt8.ofNat (n / 256 ^ i)

/-- A critical section of `aixos_mq_recv`. -/
structure RecvSection where
  /-- Where it goes on, if it does after a wait. -/
  frame : Option Frame
  /-- The kernel before it. -/
  before : Kernel
  /-- The kernel after it. -/
  after : Kernel

/-- What a call of `sc_mq_recv` has done when it returns. -/
structure MqRecvRun where
  /-- The critical sections of `aixos_mq_recv`, in their order. -/
  sections : List RecvSection
  /-- What has been copied to the task, and where to. -/
  copies : List (ℕ × List UInt8)
  /-- The state it leaves. -/
  micro : Micro
  /-- Its result. -/
  result : Code

/-- An interrupt begins, ends, or uses the kernel. -/
def Act.isInterrupt : Act → Bool
  | .isrEnter | .isrExit | .isr _ => true
  | _ => false

variable [cfg : Config]

/-- A critical section of `aixos_mq_recv`, called by task `t`. -/
def Kernel.mqRecvSection (k : Kernel) (t : TaskId) (h : Handle) (capacity : ℕ) (timeoutMs : Word) :
    Option Frame → Kernel × Outcome
  | none => k.mqRecv h capacity timeoutMs
  | some f => k.resume t f

namespace Micro

omit cfg in
/-- The word at an address. -/
def word (m : Micro) (a : ℕ) : Word := .ofNat 32 (ofLe (load m.memory a 4))

omit cfg in
/-- `req->args[i]` -/
def arg (m : Micro) (req i : ℕ) : Word := m.word (req + 4 + 4 * i)

/-- `cap_resolve` with `AIXOS_OBJ_MQ` -/
def capMq (m : Micro) (t : TaskId) (cap : ℤ) (rights : Rights) : Option Handle :=
  match m.capResolve t cap rights with
  | some (.mq h) => some h
  | _ => none

/-- Interrupts, all of which have ended. -/
def interrupted (m : Micro) (as : List Act) : Option Micro :=
  if as.all Act.isInterrupt then
    ((run Sys.step { kernel := m.kernel, frame := fun _ => none, ret := fun _ => none } as).filter fun s =>
      s.core.isrNesting = m.core.isrNesting).map fun s => { m with kernel := s.kernel }
  else none

/-- `sc_mq_recv` up to the call of `aixos_mq_recv`: the queue, or the error it returns. -/
def scMqRecvCheck (m : Micro) (t : TaskId) (req : ℕ) : Except Code Handle :=
  match m.capMq t (m.arg req 0).toInt capRead with
  | none => .error Code.perm
  | some h =>
    if m.userMemoryCheck t (m.arg req 1).toNat (m.arg req 2).toNat true then .ok h else .error Code.fault

/-- `aixos_mq_recv` from one of its critical sections on; `none` where it has not returned when what
the interrupts do is used up. -/
def mqRecvInTrap (t : TaskId) (h : Handle) (capacity : ℕ) (timeoutMs : Word) (m : Micro) (frame : Option Frame) :
    List (List Act) → Option (List RecvSection × Micro × Ret)
  | [] => none
  | as :: rest => (m.interrupted as).bind fun m =>
    let (k, r) := m.kernel.mqRecvSection t h capacity timeoutMs frame
    let section' : RecvSection := { frame, before := m.kernel, after := k }
    match r with
    | .ret r => (rest.head?.bind (interrupted { m with kernel := k })).map fun m => ([section'], m, r)
    | .wait f => (mqRecvInTrap t h capacity timeoutMs { m with kernel := k } (some f) rest).map fun y =>
      (section' :: y.1, y.2)
    | .noReturn => none

omit cfg in
/-- The rest of `sc_mq_recv`, with what it copies; `aixos_mq_recv` gives back a message or an error. -/
def scMqRecvCopy (m : Micro) (t : TaskId) (req : ℕ) : Ret → Micro × List (ℕ × List UInt8) × Code
  | .received bytes _ =>
    let buffer := (m.arg req 1).toNat
    match m.copyToUserTask t buffer bytes with
    | none => (m, [], Code.fault)
    | some m =>
      -- the message may lie over the request now
      if m.arg req 4 = 0 then (m, [(buffer, bytes)], Code.ok)
      else
        let size := (m.arg req 4).toNat
        match m.copyToUserTask t size (sizeBytes bytes.length) with
        | none => (m, [(buffer, bytes)], Code.fault)
        | some m => (m, [(buffer, bytes), (size, sizeBytes bytes.length)], Code.ok)
  | .tooLong _ => (m, [], Code.overflow)
  | .code r => (m, [], r)
  | _ => (m, [], Code.inval)

/-- `sc_mq_recv`, called by task `t` with the request at address `req`, with what interrupts do meanwhile. -/
def scMqRecv (m : Micro) (t : TaskId) (req : ℕ) (interrupts : List (List Act)) : Option MqRecvRun :=
  match m.scMqRecvCheck t req with
  | .error r => some { sections := [], copies := [], micro := m, result := r }
  | .ok h =>
    (mqRecvInTrap t h (kernelCapacity (m.arg req 2).toNat) (m.arg req 3) m none interrupts).map fun (sections, m, r) =>
      let (micro, copies, result) := m.scMqRecvCopy t req r
      { sections, copies, micro, result }

/-- `aixos_syscall_dispatch`, called by user task `t`; `none` where the request is for another system call. -/
def dispatchMqRecv (m : Micro) (t : TaskId) (req : ℕ) (interrupts : List (List Act)) : Option MqRecvRun :=
  if !m.userMemoryCheck t req requestSize false then
    some { sections := [], copies := [], micro := m, result := Code.fault }
  else if m.word req = scMqRecvNumber then m.scMqRecv t req interrupts
  else none

end Micro

/-- An action of the system, with the call that receives from a queue. -/
inductive Receiving where
  /-- Another action. -/
  | other (a : Action)
  /-- The kernel, a kernel task or a device stores into the memory. -/
  | kernelStore (address : ℕ) (bytes : List UInt8)
  /-- `sc_mq_recv`, called by the current user task, with the address of the request and what interrupts do
  meanwhile. -/
  | mqRecv (req : ℕ) (interrupts : List (List Act))

/-- One step. -/
def Receiving.step (s : Machine) : Receiving → Option Machine
  | .other a => s.step a
  | .kernelStore address bytes => some { s with micro := { s.micro with memory := store s.micro.memory address bytes } }
  | .mqRecv req interrupts =>
    match s.userTask with
    | none => none
    | some t =>
      if (s.frame t).isSome then none
      else (s.micro.dispatchMqRecv t req interrupts).map fun d =>
        { s with micro := d.micro, ret := Function.update s.ret t (some (.code d.result)) }

end Aixos
