import Aixos.Kernel.System

/-!
# Capabilities and synchronous messages

The part of `microkernel.c` that user tasks reach by system calls: capabilities, access to user
memory from `mpu.c`, and channels, connections and pending messages.

## The model

* `Micro` — the kernel with the tables of `microkernel.c` and the memory of user tasks.
* `Syscall`, `Micro.dispatch` — the system calls on these tables, with all their arguments.
* `Machine.step` — one action of the system with user tasks.

A system call runs in the trap handler, so it is one step, and a task that blocks in it has its
result already. Native calls are made by kernel tasks. What `mpu.c` checks so that a sum does not
overflow needs no check here. The list of connections of a channel is linked and never walked, and
the owners of channels and connections are never read; they are left out.
-/

namespace Aixos

/-- `rights`, a `uint16_t` -/
abbrev Rights := BitVec 16

/-- `AIXOS_CAP_READ` -/
def capRead : Rights := 1

/-- `AIXOS_CAP_WRITE` -/
def capWrite : Rights := 2

/-- `AIXOS_CAP_WAIT` -/
def capWait : Rights := 4

/-- `AIXOS_CAP_SIGNAL` -/
def capSignal : Rights := 8

/-- `AIXOS_CAP_CONTROL` -/
def capControl : Rights := 16

/-- `AIXOS_MAX_CHANNELS` -/
def maxChannels : ℕ := 8

/-- `AIXOS_MAX_CONNECTIONS` -/
def maxConnections : ℕ := 16

/-- `AIXOS_MAX_PENDING_MSGS` -/
def maxPendingMsgs : ℕ := 12

/-- `AIXOS_SYNC_MSG_MAX_SIZE`, also `AIXOS_MAX_SERVER_REPLY` -/
def syncMsgMaxSize : ℕ := 256

/-- What a capability names: `type` and `object`. -/
inductive CapObject where
  /-- `AIXOS_OBJ_SEM` -/
  | sem (h : Handle)
  /-- `AIXOS_OBJ_MQ` -/
  | mq (h : Handle)
  /-- `AIXOS_OBJ_CHANNEL`: an index of `channels` -/
  | channel (i : ℕ)
  /-- `AIXOS_OBJ_CONNECTION`: an index of `connections` -/
  | connection (i : ℕ)
  deriving DecidableEq, Repr

/-- An entry of `capabilities` that is used. -/
structure Capability where
  /-- `object` and `type` -/
  object : CapObject
  /-- `rights` -/
  rights : Rights
  deriving DecidableEq, Repr

/-- `aixos_mpu_region_t` -/
structure MpuRegion where
  /-- `base` -/
  base : ℕ
  /-- `size` -/
  size : ℕ
  /-- `AIXOS_MPU_READ` -/
  read : Bool
  /-- `AIXOS_MPU_WRITE` -/
  write : Bool
  /-- `AIXOS_MPU_EXEC` -/
  exec : Bool := false
  /-- `AIXOS_MPU_DEVICE` -/
  device : Bool := false

/-- `channel_t` -/
structure Channel where
  /-- `used` -/
  used : Bool := false
  /-- `pending_msgs`: the messages queued, by their index -/
  pendingMsgs : List ℕ := []
  /-- `receiver` -/
  receiver : Option TaskId := none

/-- `connection_t` -/
structure Connection where
  /-- `used` -/
  used : Bool := false
  /-- `ch_idx` -/
  chIdx : ℕ := 0

/-- `pending_msg_t` -/
structure PendingMsg where
  /-- `used` -/
  used : Bool := false
  /-- `msg_buf` and `msg_size` -/
  msg : List UInt8 := []
  /-- `reply_capacity` -/
  replyCapacity : ℕ := 0
  /-- `sender_conn_idx` -/
  senderConnIdx : ℕ := 0
  /-- `sender` -/
  sender : Option TaskId := none
  /-- `reply_user_ptr` -/
  replyUserPtr : Option ℕ := none

/-- The kernel, the tables of `microkernel.c`, and what belongs to user tasks. -/
structure Micro where
  /-- The kernel. -/
  kernel : Kernel
  /-- `tcb->capabilities`; `none` where `used` is 0 -/
  capabilities : TaskId → ℕ → Option Capability
  /-- `tcb->mpu_regions` -/
  mpuRegions : TaskId → List MpuRegion
  /-- The memory that user tasks share with the kernel. -/
  memory : ℕ → UInt8
  /-- `channels` -/
  channels : ℕ → Channel
  /-- `connections` -/
  connections : ℕ → Connection
  /-- `pending_msgs` -/
  pendingMsgs : ℕ → PendingMsg

/-- The system calls on capabilities, channels and connections. -/
inductive Syscall where
  | capClose (cap : ℤ)
  | channelCreate
  | channelDestroy (cap : ℤ)
  | connect (cap : ℤ)
  | disconnect (cap : ℤ)
  | msgSend (cap : ℤ) (msg msgSize reply replyCapacity : ℕ)
  | msgReceive (cap : ℤ) (msg capacity : ℕ)
  | msgReply (cap : ℤ) (reply replySize : ℕ)

variable [cfg : Config]

/-- What `sc_msg_send` and `sc_msg_receive` do to block the caller. -/
def Core.msgBlock (c : Core) (t : TaskId) (w : Wait) : Core :=
  ((c.setTask t fun b => { b with state := .blocked, wait := some w, waitResult := Code.ok }).schedRemoveTask
    t).rescheduleRequest

/-- `aixos_mpu_region_valid` -/
def MpuRegion.valid (r : MpuRegion) : Bool :=
  (r.read || r.write || r.exec || r.device) && decide (cfg.mpuMinRegionSize ≤ r.size) && decide (r.size < 2 ^ 32) &&
    decide (r.size ≠ 0) && decide (r.size &&& (r.size - 1) = 0) && decide (r.base &&& (r.size - 1) = 0) &&
    (!r.write || r.read)

namespace Micro

/-- The core of the kernel. -/
abbrev core (m : Micro) : Core := m.kernel.core

omit cfg in
/-- Store the core. -/
def setCore (m : Micro) (c : Core) : Micro := { m with kernel := { m.kernel with core := c } }

omit cfg in
/-- Store into an entry of `channels`. -/
def setChannel (m : Micro) (i : ℕ) (ch : Channel) : Micro := { m with channels := Function.update m.channels i ch }

omit cfg in
/-- Store into an entry of `connections`. -/
def setConnection (m : Micro) (j : ℕ) (cn : Connection) : Micro :=
  { m with connections := Function.update m.connections j cn }

omit cfg in
/-- Store into an entry of `pending_msgs`. -/
def setPendingMsg (m : Micro) (p : ℕ) (pm : PendingMsg) : Micro :=
  { m with pendingMsgs := Function.update m.pendingMsgs p pm }

omit cfg in
/-- Store into an entry of `tcb->capabilities`. -/
def setCap (m : Micro) (t : TaskId) (c : ℕ) (x : Option Capability) : Micro :=
  { m with capabilities := Function.update m.capabilities t (Function.update (m.capabilities t) c x) }

/-- Before anything is created. -/
def init : Micro where
  kernel := .init
  capabilities := fun _ _ => none
  mpuRegions := fun _ => []
  memory := fun _ => 0
  channels := fun _ => {}
  connections := fun _ => {}
  pendingMsgs := fun _ => {}

/-! ### Capabilities -/

/-- `cap_grant`: the entry it uses, if one is free. -/
def capGrant (m : Micro) (t : TaskId) (object : CapObject) (rights : Rights) : Option (Micro × ℕ) :=
  match (List.range cfg.capsPerTask).find? fun c => (m.capabilities t c).isNone with
  | none => none
  | some c => some (m.setCap t c (some { object, rights }), c)

/-- `cap_resolve`, before it compares the type. -/
def capResolve (m : Micro) (t : TaskId) (cap : ℤ) (rights : Rights) : Option CapObject :=
  if cap < 0 ∨ cfg.capsPerTask ≤ cap then none
  else match m.capabilities t cap.toNat with
    | none => none
    | some x => if x.rights &&& rights = rights then some x.object else none

/-- `cap_resolve` with `AIXOS_OBJ_CHANNEL` -/
def capChannel (m : Micro) (t : TaskId) (cap : ℤ) (rights : Rights) : Option ℕ :=
  match m.capResolve t cap rights with
  | some (.channel i) => some i
  | _ => none

/-- `cap_resolve` with `AIXOS_OBJ_CONNECTION` -/
def capConnection (m : Micro) (t : TaskId) (cap : ℤ) (rights : Rights) : Option ℕ :=
  match m.capResolve t cap rights with
  | some (.connection j) => some j
  | _ => none

/-- `cap_close` -/
def capClose (m : Micro) (t : TaskId) (cap : ℤ) : Micro × Code :=
  if cap < 0 ∨ cfg.capsPerTask ≤ cap then (m, Code.perm)
  else match m.capabilities t cap.toNat with
    | none => (m, Code.perm)
    | some _ => (m.setCap t cap.toNat none, Code.ok)

/-! ### User memory -/

omit cfg in
/-- `aixos_mpu_task_allows`, for data: the first region around the bytes decides. -/
def mpuTaskAllows (m : Micro) (t : TaskId) (base size : ℕ) (write : Bool) : Bool :=
  match (m.mpuRegions t).find? fun r => decide (r.base ≤ base ∧ base + size ≤ r.base + r.size) with
  | none => false
  | some r => if write then r.write else r.read

omit cfg in
/-- `user_memory_check_for_task` is `AIXOS_OK`. -/
def userMemoryCheck (m : Micro) (t : TaskId) (address size : ℕ) (write : Bool) : Bool :=
  (m.core.tasks t).user && decide (address ≠ 0) && decide (size ≠ 0) && m.mpuTaskAllows t address size write

omit cfg in
/-- `aixos_copy_from_user`, called by task `t`: what it has copied. -/
def copyFromUser (m : Micro) (t : TaskId) (address size : ℕ) : Option (List UInt8) :=
  if size = 0 then some []
  else if m.userMemoryCheck t address size false then some (load m.memory address size)
  else none

omit cfg in
/-- `copy_to_user_task` -/
def copyToUserTask (m : Micro) (t : TaskId) (address : ℕ) (bytes : List UInt8) : Option Micro :=
  if bytes.length = 0 then some m
  else if m.userMemoryCheck t address bytes.length true then
    some { m with memory := store m.memory address bytes }
  else none

/-! ### Channels and connections -/

omit cfg in
/-- The entry that `channel_alloc` uses. -/
def freeChannel (m : Micro) : Option ℕ := (List.range maxChannels).find? fun i => !(m.channels i).used

omit cfg in
/-- The entry that `connection_alloc` uses. -/
def freeConnection (m : Micro) : Option ℕ := (List.range maxConnections).find? fun j => !(m.connections j).used

omit cfg in
/-- The entry that `pending_msg_alloc` uses. -/
def freePendingMsg (m : Micro) : Option ℕ := (List.range maxPendingMsgs).find? fun p => !(m.pendingMsgs p).used

/-- `sc_channel_create` -/
def scChannelCreate (m : Micro) (t : TaskId) : Micro × Code :=
  match m.freeChannel with
  | none => (m, Code.nomem)
  | some i =>
    let m := m.setChannel i { used := true }
    match m.capGrant t (.channel i) (capRead ||| capWrite ||| capControl) with
    | none => (m.setChannel i { m.channels i with used := false }, Code.nomem)
    | some (m, c) => (m, c)

/-- `sc_channel_destroy` -/
def scChannelDestroy (m : Micro) (t : TaskId) (cap : ℤ) : Micro × Code :=
  match m.capChannel t cap capControl with
  | none => (m, Code.perm)
  | some i =>
    if i < maxChannels ∧ (m.channels i).used then
      (((m.setChannel i { m.channels i with used := false }).capClose t cap).1, Code.ok)
    else (m, Code.inval)

/-- `sc_connect` -/
def scConnect (m : Micro) (t : TaskId) (cap : ℤ) : Micro × Code :=
  match m.capChannel t cap capRead with
  | none => (m, Code.perm)
  | some i =>
    if maxChannels ≤ i ∨ !(m.channels i).used then (m, Code.inval)
    else match m.freeConnection with
      | none => (m, Code.nomem)
      | some j =>
        let m := m.setConnection j { used := true, chIdx := i }
        match m.capGrant t (.connection j) (capWrite ||| capSignal ||| capControl) with
        | none => (m.setConnection j { m.connections j with used := false }, Code.nomem)
        | some (m, c) => (m, c)

/-- `sc_disconnect` -/
def scDisconnect (m : Micro) (t : TaskId) (cap : ℤ) : Micro × Code :=
  match m.capConnection t cap capControl with
  | none => (m, Code.perm)
  | some j =>
    if j < maxConnections ∧ (m.connections j).used then
      (((m.setConnection j { m.connections j with used := false }).capClose t cap).1, Code.ok)
    else (m, Code.inval)

/-! ### Messages -/

/-- `if (channels[ch_idx].receiver != NULL)` in `sc_msg_send` -/
def wakeReceiver (m : Micro) (i : ℕ) : Micro :=
  match (m.channels i).receiver with
  | none => m
  | some r => (m.setCore (m.core.taskWake r Code.ok)).setChannel i { m.channels i with receiver := none }

/-- The end of `sc_msg_send`, once the message has been copied: it is queued, the receiver is woken
and the caller blocks. -/
def msgQueue (m : Micro) (t : TaskId) (p i : ℕ) (pm : PendingMsg) : Micro :=
  let m := m.setPendingMsg p pm
  let m := m.setChannel i { m.channels i with pendingMsgs := (m.channels i).pendingMsgs ++ [p] }
  let m := m.wakeReceiver i
  m.setCore (m.core.msgBlock t (.msgSend p))

/-- `sc_msg_send`. When it fails the slot it has taken is free again, and what it has stored there
is never read. -/
def scMsgSend (m : Micro) (t : TaskId) (cap : ℤ) (msg msgSize reply replyCapacity : ℕ) : Micro × Code :=
  match m.capConnection t cap capWrite with
  | none => (m, Code.perm)
  | some j =>
    if maxConnections ≤ j ∨ !(m.connections j).used then (m, Code.inval)
    else if msgSize = 0 ∨ syncMsgMaxSize < msgSize then (m, Code.inval)
    else match m.freePendingMsg with
      | none => (m, Code.nomem)
      | some p =>
        match m.copyFromUser t msg msgSize with
        | none => (m, Code.fault)
        | some bytes =>
          if 0 < replyCapacity ∧ !m.userMemoryCheck t reply replyCapacity true then (m, Code.fault)
          else
            (m.msgQueue t p (m.connections j).chIdx
              { used := true
                msg := bytes
                replyCapacity := replyCapacity
                senderConnIdx := j
                sender := some t
                replyUserPtr := if 0 < replyCapacity then some reply else none }, Code.ok)

/-- The end of `sc_msg_receive` when a message is queued: the first is copied. -/
def msgDeliver (m : Micro) (t : TaskId) (i p : ℕ) (msg capacity : ℕ) : Micro × Code :=
  let m := m.setChannel i { m.channels i with pendingMsgs := (m.channels i).pendingMsgs.tail }
  let bytes := (m.pendingMsgs p).msg.take capacity
  match m.copyToUserTask t msg bytes with
  | none => (m, Code.fault)
  | some m => (m, bytes.length)

/-- The end of `sc_msg_receive` when no message is queued: the caller blocks. The source looks at
the queue once more before it returns; nothing has been queued in between. -/
def msgAwait (m : Micro) (t : TaskId) (i : ℕ) : Micro :=
  let m := m.setChannel i { m.channels i with receiver := some t }
  m.setCore (m.core.msgBlock t (.msgReceive i))

/-- `sc_msg_receive` -/
def scMsgReceive (m : Micro) (t : TaskId) (cap : ℤ) (msg capacity : ℕ) : Micro × Code :=
  match m.capChannel t cap capRead with
  | none => (m, Code.perm)
  | some i =>
    if maxChannels ≤ i ∨ !(m.channels i).used then (m, Code.inval)
    else if capacity = 0 then (m, Code.inval)
    else if !m.userMemoryCheck t msg capacity true then (m, Code.fault)
    else match (m.channels i).pendingMsgs with
      | p :: _ => m.msgDeliver t i p msg capacity
      | [] => (m.msgAwait t i, 0)

omit cfg in
/-- The copy of the reply to the sender, if it wants one; `none` if it fails. -/
def replyCopy (m : Micro) (pm : PendingMsg) (bytes : List UInt8) : Option Micro :=
  match pm.replyUserPtr with
  | none => some m
  | some a =>
    if 0 < pm.replyCapacity ∧ 0 < bytes.length then
      match pm.sender with
      | none => none
      | some u => m.copyToUserTask u a (bytes.take pm.replyCapacity)
    else some m

/-- The end of `sc_msg_reply`: the sender is woken and the slot is free. -/
def replyWake (m : Micro) (p : ℕ) : Micro :=
  let m' := match (m.pendingMsgs p).sender with
    | none => m
    | some u => m.setCore ((m.core.setTask u fun b => { b with waitResult := Code.ok }).taskWake u Code.ok)
  m'.setPendingMsg p { m.pendingMsgs p with used := false, sender := none }

/-- The part of `sc_msg_reply` after the message has been found. -/
def msgAnswer (m : Micro) (i p : ℕ) (bytes : List UInt8) : Micro × Code :=
  let m := m.setChannel i { m.channels i with pendingMsgs := (m.channels i).pendingMsgs.erase p }
  match m.replyCopy (m.pendingMsgs p) bytes with
  | none => (m, Code.fault)
  | some m => (m.replyWake p, Code.ok)

/-- `sc_msg_reply` -/
def scMsgReply (m : Micro) (t : TaskId) (cap : ℤ) (reply replySize : ℕ) : Micro × Code :=
  match m.capConnection t cap capSignal with
  | none => (m, Code.perm)
  | some j =>
    if maxConnections ≤ j ∨ !(m.connections j).used then (m, Code.inval)
    else if syncMsgMaxSize < replySize then (m, Code.inval)
    else match m.copyFromUser t reply replySize with
      | none => (m, Code.fault)
      | some bytes =>
        let i := (m.connections j).chIdx
        match (m.channels i).pendingMsgs.find? fun p => decide ((m.pendingMsgs p).senderConnIdx = j) with
        | none => (m, Code.notFound)
        | some p => m.msgAnswer i p bytes

/-- `aixos_syscall_dispatch`, called by user task `t` -/
def dispatch (m : Micro) (t : TaskId) : Syscall → Micro × Code
  | .capClose cap => m.capClose t cap
  | .channelCreate => m.scChannelCreate t
  | .channelDestroy cap => m.scChannelDestroy t cap
  | .connect cap => m.scConnect t cap
  | .disconnect cap => m.scDisconnect t cap
  | .msgSend cap msg msgSize reply replyCapacity => m.scMsgSend t cap msg msgSize reply replyCapacity
  | .msgReceive cap msg capacity => m.scMsgReceive t cap msg capacity
  | .msgReply cap reply replySize => m.scMsgReply t cap reply replySize

end Micro

/-- One action of the system with user tasks. -/
inductive Action where
  /-- An action of kernel tasks, of interrupts, or of the processor. -/
  | native (a : Act)
  /-- A system call of the current user task. -/
  | syscall (x : Syscall)
  /-- The current user task stores into its memory. -/
  | userStore (address : ℕ) (bytes : List UInt8)
  /-- `aixos_task_mpu_region_add`; also the stack region of a new task, from `aixos_mpu_task_init`.
  How many regions there may be is left open. -/
  | regionAdd (t : TaskId) (r : MpuRegion)
  /-- `cap_grant_direct` -/
  | capGrantDirect (t : TaskId) (object : CapObject) (rights : Rights)

/-- The kernel with its tables, and where its tasks are. -/
structure Machine where
  /-- The kernel with its tables. -/
  micro : Micro
  /-- `Sys.frame` -/
  frame : TaskId → Option Frame
  /-- `Sys.ret` -/
  ret : TaskId → Option Ret

namespace Machine

/-- The core of the kernel. -/
abbrev core (s : Machine) : Core := s.micro.kernel.core

omit cfg in
/-- The system of native tasks in it. -/
def sys (s : Machine) : Sys where
  kernel := s.micro.kernel
  frame := s.frame
  ret := s.ret

/-- Before anything is created. -/
def init : Machine where
  micro := .init
  frame := fun _ => none
  ret := fun _ => none

omit cfg in
/-- The user task that runs. -/
def userTask (s : Machine) : Option TaskId := s.sys.runningTask.filter fun t => (s.core.tasks t).user

omit cfg in
/-- The action is one of the running task. -/
def ByTask : Act → Bool
  | .call _ | .resume => true
  | _ => false

omit cfg in
/-- After a native action; the capabilities of a task go with its control block. -/
def put (s : Machine) (s' : Sys) : Machine where
  micro := { s.micro with
    kernel := s'.kernel
    capabilities := fun t => if s'.core.Live t then s.micro.capabilities t else fun _ => none }
  frame := s'.frame
  ret := s'.ret

/-- One step. -/
def step (s : Machine) : Action → Option Machine
  | .native a => if ByTask a ∧ s.userTask.isSome then none else (s.sys.step a).map s.put
  | .syscall x =>
    match s.userTask with
    | none => none
    | some t =>
      if (s.frame t).isSome then none
      else
        let (m, r) := s.micro.dispatch t x
        some { s with micro := m, ret := Function.update s.ret t (some (.code r)) }
  | .userStore address bytes =>
    match s.userTask with
    | none => none
    | some t => (s.micro.copyToUserTask t address bytes).map fun m => { s with micro := m }
  | .regionAdd t r =>
    if s.core.inIsr ∨ !r.valid ∨ ¬ s.core.Live t ∨ !(s.core.tasks t).user then none
    else some { s with micro := { s.micro with
      mpuRegions := Function.update s.micro.mpuRegions t (s.micro.mpuRegions t ++ [r]) } }
  | .capGrantDirect t object rights =>
    if s.core.Live t then (s.micro.capGrant t object rights).map fun x => { s with micro := x.1 } else none

end Machine

end Aixos
