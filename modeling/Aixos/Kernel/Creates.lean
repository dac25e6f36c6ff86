import Aixos.Kernel.Heap
import Aixos.Kernel.Microkernel
import Aixos.Library.Transition

/-!
# System calls that create objects

`sc_sem_create`, `sc_mq_create`, `sc_channel_create` and `sc_connect` of `microkernel.c`, with the lists of connections
and with the heap that `aixos_mq_create` takes the buffers of a queue from.

* `ChannelTables` — the tables of `microkernel.c` with the lists of connections; `ChannelTables.dispatch` — the system
  calls on channels and connections.
* `Supply` — these and the heap; `Supply.create` — the system calls that create.

What a queue stores is in the kernel; its buffers are blocks of the heap, by their addresses.
-/

namespace Aixos

open Transition

/-- What `mq.c` knows of the buffers of a queue. -/
structure MqBuffers where
  /-- `buffer` -/
  buffer : ℕ := 0
  /-- `lengths` -/
  lengths : ℕ := 0
  /-- `priorities` -/
  priorities : ℕ := 0
  /-- `owns_buffers` -/
  ownsBuffers : Bool := false

/-- The tables of `microkernel.c`, with the lists of connections. -/
structure ChannelTables where
  /-- The kernel and its tables. -/
  micro : Micro
  /-- `channels[i].connections`: the connections, by their index. -/
  connectionLists : ℕ → List ℕ

/-- A step of the system, as far as the tables see it. -/
inductive TableStep where
  /-- A system call on capabilities, channels and connections, by a task. -/
  | syscall (t : TaskId) (x : Syscall)
  /-- Anything else: the kernel, the capabilities and the memory of tasks may change. -/
  | elsewhere (kernel : Kernel) (capabilities : TaskId → ℕ → Option Capability) (mpuRegions : TaskId → List MpuRegion)
      (memory : ℕ → UInt8)

namespace ChannelTables

variable [cfg : Config]

/-- Before anything is created. -/
def init : ChannelTables where
  micro := .init
  connectionLists := fun _ => []

/-- `sc_channel_create` -/
def scChannelCreate (s : ChannelTables) (t : TaskId) : ChannelTables × Code :=
  match s.micro.freeChannel with
  | none => (s, Code.nomem)
  | some i =>
    -- `channel_alloc` makes both lists empty
    let s : ChannelTables :=
      { micro := s.micro.setChannel i { used := true }
        connectionLists := Function.update s.connectionLists i [] }
    match s.micro.capGrant t (.channel i) (capRead ||| capWrite ||| capControl) with
    | none => ({ s with micro := s.micro.setChannel i { s.micro.channels i with used := false } }, Code.nomem)
    | some (m, c) => ({ s with micro := m }, c)

/-- `sc_connect` -/
def scConnect (s : ChannelTables) (t : TaskId) (cap : ℤ) : ChannelTables × Code :=
  match s.micro.capChannel t cap capRead with
  | none => (s, Code.perm)
  | some i =>
    if maxChannels ≤ i ∨ !(s.micro.channels i).used then (s, Code.inval)
    else match s.micro.freeConnection with
      | none => (s, Code.nomem)
      | some j =>
        let s : ChannelTables :=
          { micro := s.micro.setConnection j { used := true, chIdx := i }
            connectionLists := Function.update s.connectionLists i (s.connectionLists i ++ [j]) }
        match s.micro.capGrant t (.connection j) (capWrite ||| capSignal ||| capControl) with
        | none =>
          ({ micro := s.micro.setConnection j { s.micro.connections j with used := false }
             connectionLists := Function.update s.connectionLists i ((s.connectionLists i).erase j) }, Code.nomem)
        | some (m, c) => ({ s with micro := m }, c)

/-- `sc_disconnect` -/
def scDisconnect (s : ChannelTables) (t : TaskId) (cap : ℤ) : ChannelTables × Code :=
  match s.micro.capConnection t cap capControl with
  | none => (s, Code.perm)
  | some j =>
    if j < maxConnections ∧ (s.micro.connections j).used then
      let i := (s.micro.connections j).chIdx
      ({ micro := ((s.micro.setConnection j { s.micro.connections j with used := false }).capClose t cap).1
         connectionLists := Function.update s.connectionLists i ((s.connectionLists i).erase j) }, Code.ok)
    else (s, Code.inval)

/-- A system call on capabilities, channels and connections. -/
def dispatch (s : ChannelTables) (t : TaskId) : Syscall → ChannelTables × Code
  | .channelCreate => s.scChannelCreate t
  | .connect cap => s.scConnect t cap
  | .disconnect cap => s.scDisconnect t cap
  | x => ({ s with micro := (s.micro.dispatch t x).1 }, (s.micro.dispatch t x).2)

/-- One step. -/
def step (s : ChannelTables) : TableStep → Option ChannelTables
  | .syscall t x => some (s.dispatch t x).1
  | .elsewhere kernel capabilities mpuRegions memory =>
    some { s with micro := { s.micro with kernel, capabilities, mpuRegions, memory } }

end ChannelTables

/-- The tables and the heap. -/
structure Supply where
  /-- The tables. -/
  tables : ChannelTables
  /-- The heap. -/
  heap : Heap
  /-- The buffers of `mq_pool`. -/
  buffers : ℕ → MqBuffers

/-- The system calls that create. -/
inductive CreateSyscall where
  /-- `sc_sem_create` -/
  | sem (initialCount : ℤ)
  /-- `sc_mq_create` -/
  | mq (maxMsgs msgSize : ℕ)
  /-- `sc_channel_create` -/
  | channel
  /-- `sc_connect` -/
  | connect (cap : ℤ)

namespace Supply

variable [hcfg : HeapConfig] [cfg : Config]

/-- The kernel with its tables. -/
abbrev micro (s : Supply) : Micro := s.tables.micro

omit hcfg cfg in
/-- Store the kernel with its tables. -/
def setMicro (s : Supply) (m : Micro) : Supply := { s with tables := { s.tables with micro := m } }

omit hcfg cfg in
/-- Store the kernel. -/
def setKernel (s : Supply) (k : Kernel) : Supply := s.setMicro { s.micro with kernel := k }

/-- `sc_sem_create` -/
def scSemCreate (s : Supply) (t : TaskId) (initialCount : ℤ) : Supply × Code :=
  match s.micro.kernel.semCreate initialCount with
  | (k, .ret (.handle (some h))) =>
    let s := s.setKernel k
    match s.micro.capGrant t (.sem h) (capWait ||| capSignal ||| capControl) with
    | none => (s.setKernel (s.micro.kernel.semDelete h).1, Code.nomem)
    | some (m, c) => (s.setMicro m, c)
  | (k, _) => (s.setKernel k, Code.nomem)

/-- `aixos_free(buffer); aixos_free(lengths); aixos_free(priorities);` -/
def freeBuffers (h : Heap) (isr : Bool) (b : MqBuffers) : Heap :=
  ((h.free isr b.buffer).free isr b.lengths).free isr b.priorities

/-- `aixos_mq_create` -/
def mqCreate (s : Supply) (maxMsgs msgSize : ℕ) : Option (Supply × Option Handle) :=
  let isr := s.micro.core.inIsr
  let sizeMax := 256 ^ hcfg.pointerSize - 1
  if maxMsgs = 0 ∨ msgSize = 0 ∨ maxIpcCopyBytes < msgSize ∨ sizeMax / msgSize < maxMsgs ∨
      sizeMax / hcfg.pointerSize < maxMsgs then some (s, none)
  else
    (s.heap.malloc isr (maxMsgs * msgSize)).bind fun r₁ =>
    (r₁.1.calloc isr maxMsgs hcfg.pointerSize).bind fun r₂ =>
    (r₂.1.calloc isr maxMsgs 4).map fun r₃ =>
      let b : MqBuffers := { buffer := r₁.2, lengths := r₂.2, priorities := r₃.2, ownsBuffers := true }
      let s := { s with heap := r₃.1 }
      if b.buffer = 0 ∨ b.lengths = 0 ∨ b.priorities = 0 then ({ s with heap := freeBuffers s.heap isr b }, none)
      else match s.micro.kernel.mqCreate maxMsgs msgSize false true with
        | (k, .ret (.handle (some h))) =>
          ({ s.setKernel k with buffers := Function.update s.buffers h.index b }, some h)
        | (k, _) => ({ s.setKernel k with heap := freeBuffers s.heap isr b }, none)

/-- `aixos_mq_delete` -/
def mqDelete (s : Supply) (h : Handle) : Supply :=
  match s.micro.kernel.mqDelete h with
  | (k, .ret (.code r)) =>
    let s := s.setKernel k
    if r = Code.ok then
      let b := s.buffers h.index
      { s with
        heap := if b.ownsBuffers then freeBuffers s.heap s.micro.core.inIsr b else s.heap
        buffers := Function.update s.buffers h.index {} }
    else s
  | (k, _) => s.setKernel k

/-- `sc_mq_create` -/
def scMqCreate (s : Supply) (t : TaskId) (maxMsgs msgSize : ℕ) : Option (Supply × Code) :=
  (s.mqCreate maxMsgs msgSize).map fun r =>
    match r.2 with
    | none => (r.1, Code.nomem)
    | some h =>
      match r.1.micro.capGrant t (.mq h) (capRead ||| capWrite ||| capControl) with
      | none => (r.1.mqDelete h, Code.nomem)
      | some (m, c) => (r.1.setMicro m, c)

/-- A system call that creates, made by task `t`. -/
def create (s : Supply) (t : TaskId) : CreateSyscall → Option (Supply × Code)
  | .sem initialCount => some (s.scSemCreate t initialCount)
  | .mq maxMsgs msgSize => s.scMqCreate t maxMsgs msgSize
  | .channel => some ({ s with tables := (s.tables.scChannelCreate t).1 }, (s.tables.scChannelCreate t).2)
  | .connect cap => some ({ s with tables := (s.tables.scConnect t cap).1 }, (s.tables.scConnect t cap).2)

end Supply

end Aixos
