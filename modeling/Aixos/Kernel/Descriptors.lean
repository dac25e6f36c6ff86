import Aixos.Kernel.Named
import Aixos.Kernel.System

/-!
# Pipe descriptors

`posix/src/unistd.c`: numbers for the two ends of a pipe. An end can be read or written; the native pipe is deleted with
the last descriptor that refers to it.

## The model

The system runs as before; its tasks also call these functions. A call of the kernel that one of them makes is a call of the
task in the system.

* `Descriptors` — the system, the table, and how far each task is in a call.
* `Descriptors.pipeOpen`, `Descriptors.read`, `Descriptors.write`, `Descriptors.close` — the functions, up to the end of their
  first critical section or of their checks.
* `Descriptors.goOn` — what follows.
* `Descriptors.step` — the running task calls a function or goes on in one, or the system takes another step.

Whether there is memory for a pipe is an argument.
-/

namespace Aixos

/-- The macros of `aixos_cfg.h` that `unistd.c` uses. -/
class PosixConfig where
  /-- `AIXOS_CFG_POSIX_OPEN_MAX` -/
  openMax : ℕ

/-- The value of `aixos_cfg.h` when the user overrides nothing. -/
@[reducible] def PosixConfig.default : PosixConfig where
  openMax := 32

/-- `AIXOS_CFG_POSIX_PIPE_CAPACITY` -/
def posixPipeCapacity : ℕ := 256

/-- `descriptor_t` -/
structure Descriptor where
  /-- `pipe` -/
  pipe : Handle := ⟨0, 0⟩
  /-- `readable` -/
  readable : Bool := false
  /-- `writable` -/
  writable : Bool := false
  /-- `used` -/
  used : Bool := false
  deriving DecidableEq

/-- What `aixos_posix_close` stores into a descriptor. -/
def Descriptor.release (d : Descriptor) : Descriptor := { d with used := false, readable := false, writable := false }

/-- The calls. -/
inductive DescriptorCall where
  /-- whether the caller gives a place for the two numbers, and whether there is memory for a pipe -/
  | pipeOpen (result memory : Bool)
  | read (descriptor : ℤ) (count : ℕ)
  /-- the bytes, unless the caller gives `NULL` -/
  | write (descriptor : ℤ) (data : Option (List UInt8))
  | close (descriptor : ℤ)
  deriving DecidableEq

/-- What a call returns. -/
inductive DescriptorResult where
  /-- 0, with the two numbers -/
  | opened (readDescriptor writeDescriptor : ℕ)
  /-- 0 -/
  | ok
  /-- a number of bytes, with the bytes -/
  | data (bytes : List UInt8)
  /-- a number of bytes -/
  | count (n : ℕ)
  /-- -1, with `errno` -/
  | failed (errno : Posix.Errno)
  deriving DecidableEq

/-- Where a call goes on. -/
inductive DescriptorStage where
  /-- a read, before it calls `aixos_pipe_read` -/
  | reading (i count : ℕ)
  /-- a write, before it calls `aixos_pipe_write` -/
  | writing (i : ℕ) (data : Option (List UInt8))
  /-- in `aixos_pipe_read` -/
  | inRead
  /-- in `aixos_pipe_write` -/
  | inWrite
  /-- a close, before it deletes the pipe -/
  | delete (native : Handle)
  deriving DecidableEq

/-- The system, `descriptors`, and where each task is in a call and what its last call has returned. -/
structure Descriptors where
  sys : Sys
  table : ℕ → Descriptor
  pending : TaskId → Option DescriptorStage
  result : TaskId → Option DescriptorResult

/-- A step. -/
inductive DescriptorAct where
  /-- The running task calls a function. -/
  | call (c : DescriptorCall)
  /-- The running task goes on in a call. -/
  | goOn
  /-- Another step of the system. -/
  | sys (a : Act)

namespace Descriptors

variable [cfg : Config] [pcfg : PosixConfig]

omit cfg pcfg in
/-- Before any call. -/
def init (s : Sys) : Descriptors where
  sys := s
  table := fun _ => {}
  pending := fun _ => none
  result := fun _ => none

omit cfg in
/-- `allocate_descriptor` -/
def allocateDescriptor (table : ℕ → Descriptor) : Option ℕ :=
  (List.range pcfg.openMax).find? fun i => !(table i).used

omit cfg in
/-- The checks of a descriptor in the functions that get one: the index, if it is one of the table. -/
def index (descriptor : ℤ) : Option ℕ :=
  if descriptor < 0 ∨ pcfg.openMax ≤ descriptor.toNat then none else some descriptor.toNat

omit cfg pcfg in
/-- A function returns with an error. -/
def fail (s : Descriptors) (errno : Posix.Errno) : Descriptors × (DescriptorResult ⊕ DescriptorStage) :=
  (s, .inl (.failed errno))

omit pcfg in
/-- A call of the kernel by task `t`. -/
def native (s : Descriptors) (t : TaskId) (c : Call) : Descriptors × Outcome :=
  let r := s.sys.kernel.call c
  ({ s with sys := s.sys.finish t r }, r.2)

/-- `aixos_posix_pipe_open` -/
def pipeOpen (s : Descriptors) (t : TaskId) (result memory : Bool) : Descriptors × (DescriptorResult ⊕ DescriptorStage) :=
  if !result then s.fail Posix.Errno.inval
  else match allocateDescriptor s.table with
    | none => s.fail Posix.Errno.mfile
    | some readDescriptor =>
      let table := Function.update s.table readDescriptor { s.table readDescriptor with used := true }
      match allocateDescriptor table with
      | none =>
        { s with table := Function.update table readDescriptor { table readDescriptor with used := false } }.fail
          Posix.Errno.mfile
      | some writeDescriptor =>
        match s.native t (.pipeCreate posixPipeCapacity memory) with
        | (s, .ret (.handle (some native))) =>
          let table := Function.update table readDescriptor { table readDescriptor with pipe := native, readable := true }
          let table := Function.update table writeDescriptor
            { table writeDescriptor with pipe := native, writable := true, used := true }
          ({ s with table := table }, .inl (.opened readDescriptor writeDescriptor))
        | (s, _) =>
          { s with table := Function.update table readDescriptor { table readDescriptor with used := false } }.fail
            Posix.Errno.again

omit cfg in
/-- `aixos_posix_read`, up to the call of the kernel. -/
def read (s : Descriptors) (descriptor : ℤ) (count : ℕ) : Descriptors × (DescriptorResult ⊕ DescriptorStage) :=
  match index descriptor with
  | none => s.fail Posix.Errno.badf
  | some i =>
    if !(s.table i).used || !(s.table i).readable then s.fail Posix.Errno.badf
    else (s, .inr (.reading i count))

omit cfg in
/-- `aixos_posix_write`, up to the call of the kernel. -/
def write (s : Descriptors) (descriptor : ℤ) (data : Option (List UInt8)) :
    Descriptors × (DescriptorResult ⊕ DescriptorStage) :=
  match index descriptor with
  | none => s.fail Posix.Errno.badf
  | some i =>
    if !(s.table i).used || !(s.table i).writable then s.fail Posix.Errno.badf
    else (s, .inr (.writing i data))

omit cfg in
/-- The used descriptors that refer to a pipe. -/
def references (table : ℕ → Descriptor) (native : Handle) : ℕ :=
  (List.range pcfg.openMax).countP fun i => (table i).used && decide ((table i).pipe = native)

omit cfg in
/-- `aixos_posix_close`, up to the deletion of the pipe. -/
def close (s : Descriptors) (descriptor : ℤ) : Descriptors × (DescriptorResult ⊕ DescriptorStage) :=
  match index descriptor with
  | none => s.fail Posix.Errno.badf
  | some i =>
    if !(s.table i).used then s.fail Posix.Errno.badf
    else
      let native := (s.table i).pipe
      let table := Function.update s.table i (s.table i).release
      if references table native = 0 then ({ s with table := table }, .inr (.delete native))
      else ({ s with table := table }, .inl .ok)

/-- A call of the running task. -/
def call (s : Descriptors) (t : TaskId) : DescriptorCall → Descriptors × (DescriptorResult ⊕ DescriptorStage)
  | .pipeOpen result memory => s.pipeOpen t result memory
  | .read descriptor count => s.read descriptor count
  | .write descriptor data => s.write descriptor data
  | .close descriptor => s.close descriptor

omit cfg pcfg in
/-- What `aixos_posix_read` makes of the result of `aixos_pipe_read`. -/
def readResult : Ret → DescriptorResult
  | .data bytes => .data bytes
  | .code r =>
    if r < 0 then .failed (if r = Code.again then Posix.Errno.again else Posix.Errno.inval) else .count r.toNat
  | _ => .failed Posix.Errno.inval

omit cfg pcfg in
/-- What `aixos_posix_write` makes of the result of `aixos_pipe_write`. -/
def writeResult : Ret → DescriptorResult
  | .code r =>
    if r < 0 then .failed (if r = Code.busy then Posix.Errno.again else Posix.Errno.inval) else .count r.toNat
  | _ => .failed Posix.Errno.inval

omit pcfg in
/-- The running task goes on in a call, when it is not in the kernel. -/
def goOn (s : Descriptors) (t : TaskId) : DescriptorStage → Option (Descriptors × (DescriptorResult ⊕ DescriptorStage))
  | .reading i count => some ((s.native t (.pipeRead (s.table i).pipe count forever)).1, .inr .inRead)
  | .writing i data => some ((s.native t (.pipeWrite (s.table i).pipe data forever)).1, .inr .inWrite)
  | .inRead => (s.sys.ret t).map fun r => (s, .inl (readResult r))
  | .inWrite => (s.sys.ret t).map fun r => (s, .inl (writeResult r))
  | .delete native =>
    let (s, r) := s.native t (.pipeDelete native)
    if r ≠ .ret (.code Code.ok) then some (s.fail Posix.Errno.busy) else some (s, .inl .ok)

omit cfg pcfg in
/-- A task returns, or will go on. -/
def settle (t : TaskId) : Descriptors × (DescriptorResult ⊕ DescriptorStage) → Descriptors
  | (s, .inl r) => { s with pending := Function.update s.pending t none, result := Function.update s.result t (some r) }
  | (s, .inr p) => { s with pending := Function.update s.pending t (some p), result := Function.update s.result t none }

/-- One step. A task makes no other call while it is in one of these. -/
def step (s : Descriptors) : DescriptorAct → Option Descriptors
  | .call c =>
    match s.sys.runningTask with
    | none => none
    | some t => if s.pending t = none ∧ s.sys.frame t = none then some (settle t (s.call t c)) else none
  | .goOn =>
    match s.sys.runningTask with
    | none => none
    | some t => if s.sys.frame t = none then ((s.pending t).bind (s.goOn t)).map (settle t) else none
  | .sys (.call c) =>
    if s.sys.runningTask.all (fun t => s.pending t = none) then (s.sys.step (.call c)).map fun y => { s with sys := y } else none
  | .sys a => (s.sys.step a).map fun y => { s with sys := y }

end Descriptors

end Aixos
