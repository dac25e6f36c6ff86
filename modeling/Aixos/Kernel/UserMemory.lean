import Aixos.Kernel.Mpu

/-!
# Copies between the kernel and a user task

`user_memory_check_for_task`, the copying functions that use it, and the copy of a reply in `sc_msg_reply`, from
`microkernel.c`.

* `UserMemory` — the memory, and which of its bytes the kernel has read and written.
* `UserMemory.copyFromUser`, `UserMemory.copyToUserTask`, `UserMemory.zeroToUser` — the copies.
* `TaskBlocks`, `TaskBlocks.step` — what memory reads as where pointers to control blocks lead, and what changes it.
* `PendingReply`, `UserMemory.replyCopy` — what a message that waits for its reply says about the sender, and the copy.

A message keeps a pointer to the control block of its sender. `aixos_task_delete` leaves it as it is, so it may come to point
to memory that is used for something else, or to the control block of another task.
-/

namespace Aixos

open Mpu

/-- Memory, as user tasks see it. -/
structure UserMemory where
  /-- the bytes -/
  bytes : Word → UInt8
  /-- what the kernel has read and written of it, byte by byte -/
  touched : List (Word × Access)

/-- Memory, as pointers to control blocks see it. -/
structure TaskBlocks where
  /-- What is read as a control block at an address. -/
  block : ℕ → Task
  /-- A task has its control block there. -/
  live : ℕ → Bool

/-- What changes them. -/
inductive TaskBlockAct where
  /-- `task_create_common` makes a task whose control block is at this address. -/
  | create (p : ℕ) (tcb : Task)
  /-- `aixos_task_mpu_region_add`, for the task whose control block is there -/
  | regionAdd (p : ℕ) (inIsr : Bool) (base size attr : Word)
  /-- `aixos_task_delete`, for the task whose control block is there -/
  | delete (p : ℕ)
  /-- Memory where no task has its control block is used for something else. -/
  | reuse (p : ℕ) (tcb : Task)

namespace TaskBlocks

/-- What a pointer leads to, unless it is `NULL`, which is 0. -/
def deref (b : TaskBlocks) (p : ℕ) : Option Task := if p = 0 then none else some (b.block p)

/-- One step. -/
def step [MpuConfig] (b : TaskBlocks) : TaskBlockAct → Option TaskBlocks
  | .create p tcb =>
    if p = 0 ∨ b.live p then none
    else some { block := Function.update b.block p tcb.init, live := Function.update b.live p true }
  | .regionAdd p inIsr base size attr =>
    if !b.live p then none
    else match (b.block p).regionAdd inIsr base size attr with
      | .ok tcb => some { b with block := Function.update b.block p tcb }
      | .error _ => some b
  | .delete p => if b.live p then some { b with live := Function.update b.live p false } else none
  | .reuse p tcb => if b.live p then none else some { b with block := Function.update b.block p tcb }

end TaskBlocks

/-- The fields of `pending_msg_t` that the copy of the reply uses. -/
structure PendingReply where
  /-- `sender`, a pointer -/
  sender : ℕ
  /-- `reply_user_ptr` -/
  replyUserPtr : Word
  /-- `reply_capacity` -/
  replyCapacity : Word

/-- `user_memory_check_for_task` -/
def userMemoryCheckForTask (tcb : Option Task) (address size : Word) (writeAccess : Bool) : Code :=
  match tcb with
  | none => Code.fault
  | some tcb =>
    if !tcb.user ∨ address = 0 then Code.fault
    else if size = 0 ∨ 0xFFFFFFFF - address < size then Code.fault
    else if !tcb.allows address size writeAccess false then Code.fault
    else Code.ok

namespace UserMemory

/-- The bytes that `memcpy` and `memset` go through. -/
def span (a size : Word) : List Word := (List.range size.toNat).map fun i => a + .ofNat 32 i

/-- `memcpy` from the memory. -/
def fetch (m : UserMemory) (src size : Word) : UserMemory × List UInt8 :=
  ({ m with touched := m.touched ++ (span src size).map (·, .read) }, (span src size).map m.bytes)

/-- `memcpy` to the memory, or `memset`. -/
def fill (m : UserMemory) (dst size : Word) (src : ℕ → UInt8) : UserMemory where
  bytes a := if (a - dst).toNat < size.toNat then src (a - dst).toNat else m.bytes a
  touched := m.touched ++ (span dst size).map (·, .write)

/-- `aixos_copy_from_user`, where `cur` is `g_cur_task` and `kernelDst` says that the pointer is not null; with the bytes that
have been copied. -/
def copyFromUser (m : UserMemory) (cur : Option Task) (kernelDst : Bool) (userSrc size : Word) :
    UserMemory × Code × List UInt8 :=
  if size = 0 then (m, Code.ok, [])
  else if !kernelDst then (m, Code.fault, [])
  else
    let result := userMemoryCheckForTask cur userSrc size false
    if result ≠ Code.ok then (m, result, [])
    else
      let (m, bytes) := m.fetch userSrc size
      (m, Code.ok, bytes)

/-- `copy_to_user_task`, where `kernelSrc` is `none` for a null pointer -/
def copyToUserTask (m : UserMemory) (task : Option Task) (userDst : Word) (kernelSrc : Option (ℕ → UInt8)) (size : Word) :
    UserMemory × Code :=
  if size = 0 then (m, Code.ok)
  else match kernelSrc with
  | none => (m, Code.fault)
  | some src =>
    let result := userMemoryCheckForTask task userDst size true
    if result ≠ Code.ok then (m, result) else (m.fill userDst size src, Code.ok)

/-- `aixos_copy_to_user` -/
def copyToUser (m : UserMemory) (cur : Option Task) (userDst : Word) (kernelSrc : Option (ℕ → UInt8)) (size : Word) :
    UserMemory × Code := m.copyToUserTask cur userDst kernelSrc size

/-- `aixos_zero_to_user` -/
def zeroToUser (m : UserMemory) (cur : Option Task) (userDst size : Word) : UserMemory × Code :=
  if size = 0 then (m, Code.ok)
  else
    let result := userMemoryCheckForTask cur userDst size true
    if result ≠ Code.ok then (m, result) else (m.fill userDst size fun _ => 0, Code.ok)

/-- The copy in `sc_msg_reply` of the `rsz` bytes in `reply_buf` -/
def replyCopy (m : UserMemory) (b : TaskBlocks) (pm : PendingReply) (replyBuf : ℕ → UInt8) (rsz : Word) :
    UserMemory × Code :=
  if pm.replyUserPtr ≠ 0 ∧ 0 < pm.replyCapacity ∧ 0 < rsz then
    let copy := if rsz < pm.replyCapacity then rsz else pm.replyCapacity
    m.copyToUserTask (b.deref pm.sender) pm.replyUserPtr (some replyBuf) copy
  else (m, Code.ok)

end UserMemory

end Aixos
