import Aixos.System.Runs

/-!
# What the objects store, and who changes it

The counts of the semaphores, the message queues and the pipes are stores of their own. An
action changes at most one of them.

* `Kernel.Keeps kind k k'` — from `k` to `k'` what objects of this kind store has not changed.
* `Act.stores` — the kind of object whose store an action may change.
* `Sys.step_keeps` — it changes no other.
-/

namespace Aixos

open Transition Aixos.Core

variable [cfg : Config]

namespace Kernel

/-- What objects of one kind store has not changed. -/
def Keeps (kind : ObjKind) (k k' : Kernel) : Prop :=
  match kind with
  | .sem => k'.semCount = k.semCount
  | .mq => k'.mqs = k.mqs
  | .pipe => k'.pipes = k.pipes
  | .mutex | .event => True

variable {kind : ObjKind} {k k' : Kernel}

namespace Keeps

omit cfg in
theorem refl (kind : ObjKind) (k : Kernel) : Keeps kind k k := by
  cases kind <;> first | rfl | trivial

omit cfg in
/-- The core, the event flags and the fields of the control blocks are stores apart. -/
theorem core (h : Keeps kind k k') (c : Core) (e : ℕ → Word) (p : TaskId → Pend) :
    Keeps kind k { k' with core := c, eventFlags := e, pend := p } := by
  cases kind with
  | sem | mq | pipe => exact h
  | mutex | event => trivial

omit cfg in
theorem sem (h : Keeps kind k k') (hk : kind ≠ .sem) (f : ℕ → ℕ) : Keeps kind k { k' with semCount := f } := by
  cases kind with
  | sem => exact absurd rfl hk
  | mq | pipe => exact h
  | mutex | event => trivial

omit cfg in
theorem mq (h : Keeps kind k k') (hk : kind ≠ .mq) (f : ℕ → Mq) : Keeps kind k { k' with mqs := f } := by
  cases kind with
  | mq => exact absurd rfl hk
  | sem | pipe => exact h
  | mutex | event => trivial

omit cfg in
theorem pipe (h : Keeps kind k k') (hk : kind ≠ .pipe) (f : ℕ → Pipe) : Keeps kind k { k' with pipes := f } := by
  cases kind with
  | pipe => exact absurd rfl hk
  | sem | mq => exact h
  | mutex | event => trivial

theorem block (h : Keeps kind k k') (w : Wait) (ms : Word) (p : Pending) : Keeps kind k (k'.block w ms p).1 := by
  unfold Kernel.block
  split
  · exact h
  · exact h.core _ _ _

theorem wakeFirst (h : Keeps kind k k') (l : WaitList) : Keeps kind k (k'.wakeFirst l) := by
  unfold Kernel.wakeFirst
  split
  · exact h
  · exact h.core _ _ _

theorem createObject {ki : ObjKind} {fill : Kernel → ℕ → Kernel}
    (h : ∀ k' i, Keeps kind k k' → Keeps kind k (fill k' i)) : Keeps kind k (k.createObject ki fill).1 := by
  unfold Kernel.createObject
  split
  · exact .refl kind k
  · exact h _ _ ((refl kind k).core _ _ _)

theorem deleteObject (ki : ObjKind) (h : Handle) : Keeps kind k (k.deleteObject ki h).1 := by
  unfold Kernel.deleteObject
  split
  · exact .refl kind k
  · split
    · exact .refl kind k
    · split
      · exact (refl kind k).core _ _ _
      · exact .refl kind k

end Keeps

/-! ### Functions that store nothing -/

theorem taskCreate_keeps (a : CreateArgs) : Keeps kind k (k.taskCreate a).1 := by
  unfold taskCreate
  dsimp only
  split
  · exact (Keeps.refl kind k).core _ _ _
  · exact (Keeps.refl kind k).core _ _ _

theorem taskDelete_keeps (t : TaskId) : Keeps kind k (k.taskDelete t).1 := by
  unfold taskDelete
  split
  · exact .refl kind k
  · exact (Keeps.refl kind k).core _ _ _
  · exact (Keeps.refl kind k).core _ _ _

omit cfg in
theorem taskYield_keeps : Keeps kind k k.taskYield.1 := by
  unfold taskYield
  split
  · exact .refl kind k
  · exact (Keeps.refl kind k).core _ _ _

theorem taskSleep_keeps (ms : Word) : Keeps kind k (k.taskSleep ms).1 := by
  unfold taskSleep
  split
  · exact .refl kind k
  · split
    · exact taskYield_keeps
    · exact (Keeps.refl kind k).block ..

theorem mutexLock_keeps (h : Handle) (ms : Word) : Keeps kind k (k.mutexLock h ms).1 := by
  have hc : ∀ c, Keeps kind k { k with core := c } := fun c => (Keeps.refl kind k).core _ _ _
  unfold mutexLock
  split
  · exact .refl kind k
  · split
    · exact .refl kind k
    · split
      · exact .refl kind k
      · split
        · exact hc _
        · split
          · split
            · exact .refl kind k
            · exact hc _
          · split
            · exact .refl kind k
            · exact (Keeps.refl kind k).block ..

theorem mutexUnlock_keeps (h : Handle) : Keeps kind k (k.mutexUnlock h).1 := by
  have hc : ∀ c, Keeps kind k { k with core := c } := fun c => (Keeps.refl kind k).core _ _ _
  unfold mutexUnlock
  split
  · exact .refl kind k
  · split
    · exact .refl kind k
    · split
      · exact .refl kind k
      · split
        · exact .refl kind k
        · split
          · exact hc _
          · exact hc _

theorem mutexDelete_keeps (h : Handle) : Keeps kind k (k.mutexDelete h).1 := by
  unfold mutexDelete
  split
  · exact .refl kind k
  · split
    · exact .refl kind k
    · split
      · exact .refl kind k
      · exact (Keeps.refl kind k).core _ _ _

theorem eventWaitLoop_keeps (h : Handle) (mask : Word) (mode : BitVec 8) (start ms remaining : Word) :
    Keeps kind k (k.eventWaitLoop h mask mode start ms remaining).1 := by
  unfold eventWaitLoop
  split
  · exact .refl kind k
  · dsimp only
    split
    · split
      · exact (Keeps.refl kind k).core _ _ _
      · exact .refl kind k
    · split
      · exact .refl kind k
      · split
        · exact .refl kind k
        · exact ((Keeps.refl kind k).core _ _ _).block ..

theorem eventWait_keeps (h : Handle) (mask : Word) (mode : BitVec 8) (ms : Word) :
    Keeps kind k (k.eventWait h mask mode ms).1 := by
  unfold eventWait
  split
  · exact .refl kind k
  · split
    · exact .refl kind k
    · exact eventWaitLoop_keeps ..

theorem eventSetLoop_keeps (i : ℕ) (ts : List TaskId) (h : Keeps kind k k') :
    Keeps kind k (eventSetLoop i k' ts) := by
  induction ts generalizing k' with
  | nil => exact h
  | cons t ts ih =>
    rw [eventSetLoop]
    dsimp only
    split
    · refine ih (Keeps.core ?_ _ _ _)
      split
      · exact h.core _ _ _
      · exact h
    · exact ih h

theorem eventSet_keeps (h : Handle) (flags : Word) : Keeps kind k (k.eventSet h flags).1 := by
  unfold eventSet
  split
  · exact .refl kind k
  · split
    · exact .refl kind k
    · exact eventSetLoop_keeps _ _ ((Keeps.refl kind k).core _ _ _)

theorem eventClear_keeps (h : Handle) (flags : Word) : Keeps kind k (k.eventClear h flags).1 := by
  unfold eventClear
  split
  · exact .refl kind k
  · split
    · exact .refl kind k
    · exact (Keeps.refl kind k).core _ _ _

theorem notifyCommon_keeps (t : TaskId) (value : Word) (action : NotifyAction) :
    Keeps kind k (k.notifyCommon t value action).1 := by
  unfold notifyCommon
  split
  · exact .refl kind k
  · split
    · exact .refl kind k
    · dsimp only
      split
      · exact (Keeps.refl kind k).core _ _ _
      · exact (Keeps.refl kind k).core _ _ _

theorem notify_keeps (t : TaskId) (value : Word) (action : NotifyAction) :
    Keeps kind k (k.notify t value action).1 := by
  unfold notify
  split
  · exact .refl kind k
  · exact notifyCommon_keeps ..

theorem notifyWait_keeps (entry exit ms : Word) (take : Option Bool) :
    Keeps kind k (k.notifyWait entry exit ms take).1 := by
  unfold notifyWait
  split
  · exact .refl kind k
  · split
    · exact .refl kind k
    · dsimp only
      split
      · exact (Keeps.refl kind k).core _ _ _
      · split
        · exact (Keeps.refl kind k).core _ _ _
        · exact ((Keeps.refl kind k).core _ _ _).block ..

/-! ### Semaphores, message queues and pipes -/

theorem semCreate_keeps (hk : kind ≠ .sem) (n : ℤ) : Keeps kind k (k.semCreate n).1 := by
  unfold semCreate
  split
  · exact .refl kind k
  · exact .createObject fun _ _ h => h.sem hk _

theorem semWait_keeps (hk : kind ≠ .sem) (h : Handle) (ms : Word) : Keeps kind k (k.semWait h ms).1 := by
  unfold semWait
  split
  · exact .refl kind k
  · split
    · exact .refl kind k
    · split
      · exact (Keeps.refl kind k).sem hk _
      · split
        · exact .refl kind k
        · exact (Keeps.refl kind k).block ..

theorem semPostCommon_keeps (hk : kind ≠ .sem) (h : Handle) : Keeps kind k (k.semPostCommon h).1 := by
  unfold semPostCommon
  split
  · exact .refl kind k
  · split
    · exact (Keeps.refl kind k).wakeFirst _
    · split
      · exact .refl kind k
      · exact (Keeps.refl kind k).sem hk _

theorem mqCreate_keeps (hk : kind ≠ .mq) (n size : ℕ) (st mem : Bool) : Keeps kind k (k.mqCreate n size st mem).1 := by
  unfold mqCreate
  split
  · exact .refl kind k
  · exact .createObject fun _ _ h => h.mq hk _

theorem mqSendLoop_keeps (hk : kind ≠ .mq) (i : ℕ) (h : Handle) (message : List UInt8) (priority : ℕ)
    (start ms remaining : Word) (isr : Bool) :
    Keeps kind k (k.mqSendLoop i h message priority start ms remaining isr).1 := by
  unfold mqSendLoop
  split
  · split
    · exact .refl kind k
    · exact (Keeps.refl kind k).block ..
  · split
    · exact .refl kind k
    · exact ((Keeps.refl kind k).mq hk _).wakeFirst _

theorem mqSendCommon_keeps (hk : kind ≠ .mq) (h : Handle) (message : Option (List UInt8)) (priority : ℕ) (ms : Word)
    (isr : Bool) : Keeps kind k (k.mqSendCommon h message priority ms isr).1 := by
  unfold mqSendCommon
  split
  · exact .refl kind k
  · split
    · exact .refl kind k
    · split
      · exact .refl kind k
      · split
        · exact .refl kind k
        · split
          · exact .refl kind k
          · exact mqSendLoop_keeps hk ..

theorem mqRecvLoop_keeps (hk : kind ≠ .mq) (i : ℕ) (h : Handle) (capacity : ℕ) (start ms remaining : Word) :
    Keeps kind k (k.mqRecvLoop i h capacity start ms remaining).1 := by
  unfold mqRecvLoop
  dsimp only
  split
  · split
    · exact .refl kind k
    · exact (Keeps.refl kind k).block ..
  · split
    · exact .refl kind k
    · exact ((Keeps.refl kind k).mq hk _).wakeFirst _

theorem pipeCreate_keeps (hk : kind ≠ .pipe) (size : ℕ) (mem : Bool) : Keeps kind k (k.pipeCreate size mem).1 := by
  unfold pipeCreate
  split
  · exact .refl kind k
  · exact .createObject fun _ _ h => h.pipe hk _

theorem pipeWriteLoop_keeps (hk : kind ≠ .pipe) (i : ℕ) (h : Handle) (data : List UInt8)
    (start ms remaining : Word) (isr : Bool) :
    Keeps kind k (k.pipeWriteLoop i h data start ms remaining isr).1 := by
  unfold pipeWriteLoop
  split
  · split
    · exact .refl kind k
    · exact (Keeps.refl kind k).block ..
  · dsimp only
    split
    · exact ((Keeps.refl kind k).pipe hk _).wakeFirst _
    · exact (Keeps.refl kind k).pipe hk _

theorem pipeWriteCommon_keeps (hk : kind ≠ .pipe) (h : Handle) (data : Option (List UInt8)) (ms : Word)
    (isr : Bool) : Keeps kind k (k.pipeWriteCommon h data ms isr).1 := by
  unfold pipeWriteCommon
  split
  · exact .refl kind k
  · split
    · exact .refl kind k
    · split
      · exact .refl kind k
      · split
        · exact .refl kind k
        · split
          · exact .refl kind k
          · exact pipeWriteLoop_keeps hk ..

theorem pipeReadLoop_keeps (hk : kind ≠ .pipe) (i : ℕ) (h : Handle) (length : ℕ) (start ms remaining : Word) :
    Keeps kind k (k.pipeReadLoop i h length start ms remaining).1 := by
  unfold pipeReadLoop
  split
  · split
    · exact .refl kind k
    · exact (Keeps.refl kind k).block ..
  · dsimp only
    split
    · exact ((Keeps.refl kind k).pipe hk _).wakeFirst _
    · exact (Keeps.refl kind k).pipe hk _

theorem mqRecv_keeps (hk : kind ≠ .mq) (h : Handle) (capacity : ℕ) (ms : Word) :
    Keeps kind k (k.mqRecv h capacity ms).1 := by
  unfold mqRecv
  split
  · exact .refl kind k
  · split
    · exact .refl kind k
    · exact mqRecvLoop_keeps hk ..

theorem pipeRead_keeps (hk : kind ≠ .pipe) (h : Handle) (length : ℕ) (ms : Word) :
    Keeps kind k (k.pipeRead h length ms).1 := by
  unfold pipeRead
  split
  · exact .refl kind k
  · split
    · exact .refl kind k
    · split
      · exact .refl kind k
      · exact pipeReadLoop_keeps hk ..

end Kernel

/-- The kind of object whose store a call may change. -/
def Call.stores : Call → Option ObjKind
  | .semCreate _ | .semWait .. | .semPost _ => some .sem
  | .mqCreate .. | .mqSend .. | .mqRecv .. => some .mq
  | .pipeCreate .. | .pipeWrite .. | .pipeRead .. => some .pipe
  | _ => none

/-- The same for what is left of a call after a wait. -/
def Pending.stores : Pending → Option ObjKind
  | .mqSend .. | .mqRecv .. => some .mq
  | .pipeWrite .. | .pipeRead .. => some .pipe
  | _ => none

/-- The same for what an interrupt handler does. -/
def IsrCall.stores : IsrCall → Option ObjKind
  | .semPost _ => some .sem
  | .mqSend .. => some .mq
  | .pipeWrite .. => some .pipe
  | _ => none

namespace Kernel

variable {kind : ObjKind} {k : Kernel}

/-- A call keeps the stores it is not about. -/
theorem call_keeps (c : Call) (hc : c.stores ≠ some kind) : Keeps kind k (k.call c).1 := by
  have hne : ∀ {ki}, c.stores = some ki → kind ≠ ki := fun e => by
    rintro rfl
    exact hc e
  cases c with
  | taskCreate a => exact taskCreate_keeps a
  | taskDelete t => exact taskDelete_keeps t
  | taskSleep ms => exact taskSleep_keeps ms
  | taskYield => exact taskYield_keeps
  | taskSuspend t => exact (Keeps.refl kind k).core _ _ _
  | taskResume t => exact (Keeps.refl kind k).core _ _ _
  | taskSetPriority t p => exact (Keeps.refl kind k).core _ _ _
  | schedLock => exact (Keeps.refl kind k).core _ _ _
  | schedUnlock => exact (Keeps.refl kind k).core _ _ _
  | semCreate n => exact semCreate_keeps (hne rfl) n
  | semWait h ms => exact semWait_keeps (hne rfl) h ms
  | semPost h =>
    show Keeps kind k (k.semPost h).1
    unfold semPost
    split
    · exact .refl kind k
    · exact semPostCommon_keeps (hne rfl) h
  | semDelete h => exact .deleteObject _ h
  | mutexCreate =>
    show Keeps kind k k.mutexCreate.1
    unfold mutexCreate
    split
    · exact .refl kind k
    · exact .createObject fun _ _ h => h.core _ _ _
  | mutexLock h ms => exact mutexLock_keeps h ms
  | mutexUnlock h => exact mutexUnlock_keeps h
  | mutexDelete h => exact mutexDelete_keeps h
  | eventCreate =>
    show Keeps kind k k.eventCreate.1
    unfold eventCreate
    split
    · exact .refl kind k
    · exact .createObject fun _ _ h => h.core _ _ _
  | eventWait h mask mode ms => exact eventWait_keeps h mask mode ms
  | eventSet h flags => exact eventSet_keeps h flags
  | eventClear h flags => exact eventClear_keeps h flags
  | eventDelete h => exact .deleteObject _ h
  | mqCreate n size st mem => exact mqCreate_keeps (hne rfl) n size st mem
  | mqSend h message priority ms =>
    show Keeps kind k (k.mqSend h message priority ms).1
    unfold mqSend
    split
    · exact .refl kind k
    · exact mqSendCommon_keeps (hne rfl) ..
  | mqRecv h capacity ms => exact mqRecv_keeps (hne rfl) h capacity ms
  | mqDelete h => exact .deleteObject _ h
  | pipeCreate size mem => exact pipeCreate_keeps (hne rfl) size mem
  | pipeWrite h data ms =>
    show Keeps kind k (k.pipeWrite h data ms).1
    unfold pipeWrite
    split
    · exact .refl kind k
    · exact pipeWriteCommon_keeps (hne rfl) ..
  | pipeRead h length ms => exact pipeRead_keeps (hne rfl) h length ms
  | pipeDelete h => exact .deleteObject _ h
  | notify t value action => exact notify_keeps t value action
  | notifyWait entry exit ms => exact notifyWait_keeps ..
  | notifyTake clear ms => exact notifyWait_keeps ..
  | timerServiceWait => exact (Keeps.refl kind k).block ..

theorem resume_keeps (self : TaskId) (f : Frame) (hf : f.pending.stores ≠ some kind) :
    Keeps kind k (k.resume self f).1 := by
  obtain ⟨p, ms⟩ := f
  have hne : ∀ {ki}, p.stores = some ki → kind ≠ ki := fun e => by
    rintro rfl
    exact hf e
  unfold resume
  cases p with
  | result => exact .refl kind k
  | eventWait h mask mode start ms =>
    dsimp only
    split
    · exact .refl kind k
    · exact eventWaitLoop_keeps ..
  | mqSend h message priority start ms =>
    dsimp only
    split
    · exact .refl kind k
    · split
      · exact .refl kind k
      · exact mqSendLoop_keeps (hne rfl) ..
  | mqRecv h capacity start ms =>
    dsimp only
    split
    · exact .refl kind k
    · split
      · exact .refl kind k
      · exact mqRecvLoop_keeps (hne rfl) ..
  | pipeWrite h data start ms =>
    dsimp only
    split
    · exact .refl kind k
    · split
      · exact .refl kind k
      · exact pipeWriteLoop_keeps (hne rfl) ..
  | pipeRead h length start ms =>
    dsimp only
    split
    · exact .refl kind k
    · split
      · exact .refl kind k
      · exact pipeReadLoop_keeps (hne rfl) ..
  | notifyWait exit take =>
    dsimp only
    split
    · exact .refl kind k
    · exact (Keeps.refl kind k).core _ _ _
  | notifyTake clear value => exact (Keeps.refl kind k).core _ _ _
  | never => exact .refl kind k

theorem isrCall_keeps (c : IsrCall) (hc : c.stores ≠ some kind) : Keeps kind k (k.isrCall c) := by
  have hne : ∀ {ki}, c.stores = some ki → kind ≠ ki := fun e => by
    rintro rfl
    exact hc e
  cases c with
  | tick pending => exact (Keeps.refl kind k).core _ _ _
  | semPost h =>
    show Keeps kind k (k.semPostFromIsr h).1
    unfold semPostFromIsr
    split
    · exact .refl kind k
    · exact semPostCommon_keeps (hne rfl) h
  | mqSend h message =>
    show Keeps kind k (k.mqSendFromIsr h message).1
    unfold mqSendFromIsr
    split
    · exact .refl kind k
    · exact mqSendCommon_keeps (hne rfl) ..
  | pipeWrite h data =>
    show Keeps kind k (k.pipeWriteFromIsr h data).1
    unfold pipeWriteFromIsr
    split
    · exact .refl kind k
    · exact pipeWriteCommon_keeps (hne rfl) ..
  | notify t value action =>
    show Keeps kind k (k.notifyFromIsr t value action).1
    unfold notifyFromIsr
    split
    · exact .refl kind k
    · exact notifyCommon_keeps ..

end Kernel

/-- The kind of object whose store an action may change. -/
def Act.stores (s : Sys) : Act → Option ObjKind
  | .call c => c.stores
  | .resume => s.runningTask.bind fun t => (s.frame t).bind fun f => f.pending.stores
  | .isr c => c.stores
  | _ => none

namespace Sys

variable {kind : ObjKind} {s s' : Sys} {a : Act}

/-- **An action keeps the stores it is not about.** -/
theorem step_keeps (h : s.step a = some s') (ha : a.stores s ≠ some kind) :
    Kernel.Keeps kind s.kernel s'.kernel := by
  cases a with
  | call c =>
    rw [← step_call_kernel h]
    exact Kernel.call_keeps c ha
  | start memory =>
    obtain ⟨-, c, -, rfl⟩ := step_start h
    exact (Kernel.Keeps.refl kind _).core _ _ _
  | resume =>
    obtain ⟨t, f, ht, hf, rfl⟩ := step_resume h
    rw [finish_kernel]
    exact Kernel.resume_keeps t f fun e => ha (by simp [Act.stores, ht, hf, e])
  | switch | isrEnter | isrExit =>
    simp only [step] at h
    split at h
    · cases h
      exact (Kernel.Keeps.refl kind _).core _ _ _
    · cases h
  | isr c =>
    rw [← step_isr_kernel h]
    exact Kernel.isrCall_keeps c ha

end Sys

end Aixos
