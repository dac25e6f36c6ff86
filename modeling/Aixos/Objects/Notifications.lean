import Aixos.System.Sources

/-!
# Notifications that count

A task that is notified with `AIXOS_NOTIFY_INCREMENT` and takes the whole count with `aixos_task_notify_take`, with any tasks
and interrupt handlers around it. A take reads the count in one critical section and clears it in the next one.

* `Kernel.Spares` — a call leaves the notification of a task alone; so does everything that is not about it (`call_spares`,
  `resume_spares`, `isrCall_note`).
* `NotifyEvent`, `Sys.noted` — increments that succeed, and takes.
* `Sys.Conserved` — increments, takes and what is left add up.
* `Sys.counted_of_path` — they do in every run in which no increment comes between the two critical sections of a take.
-/

namespace Aixos

open Transition

variable [cfg : Config]

/-- What a frame is not: that of a wait for a notification. -/
def Pending.apart : Pending → Prop
  | .notifyWait .. | .notifyTake .. => False
  | _ => True

namespace Kernel

variable {r t : TaskId} {k k' : Kernel}

/-- `notify_value` and `notify_pending` of a task. -/
def note (k : Kernel) (r : TaskId) : Word × Bool := ((k.pend r).notifyValue, (k.pend r).notifyPending)

/-- The notification of task `r` is left alone, and nobody begins to wait for one. -/
structure Spares (r : TaskId) (k : Kernel) (x : Kernel × Outcome) : Prop where
  note : x.1.note r = k.note r
  apart : ∀ f, x.2 = .wait f → f.pending.apart

namespace Spares

omit cfg in
theorem ret (h : k'.note r = k.note r) (v : Ret) : Spares r k (k', .ret v) := ⟨h, fun f e => by cases e⟩

omit cfg in
theorem code (h : k'.note r = k.note r) (c : Code) : Spares r k (k'.code c) := ret h _

theorem block (h : k'.note r = k.note r) {p : Pending} (hp : p.apart) (w : Wait) (ms : Word) :
    Spares r k (k'.block w ms p) := by
  unfold Kernel.block
  split
  · exact code h _
  · refine ⟨h, fun f e => ?_⟩
    cases e
    exact hp

end Spares

theorem note_wakeFirst (k : Kernel) (l : WaitList) : (k.wakeFirst l).note r = k.note r := by
  unfold wakeFirst
  split <;> rfl

theorem createObject_spares {kind : ObjKind} {fill : Kernel → ℕ → Kernel} (h : ∀ k i, (fill k i).note r = k.note r) :
    Spares r k (k.createObject kind fill) := by
  unfold createObject
  split
  · exact .ret (by rfl) _
  · dsimp only
    exact .ret (by exact h ..) _

theorem deleteObject_spares (kind : ObjKind) (h : Handle) : Spares r k (k.deleteObject kind h) := by
  unfold deleteObject
  repeat' split
  all_goals exact .code (by rfl) _

theorem taskCreate_spares (a : Core.CreateArgs) (hr : (k.core.taskCreateCommon a).2 ≠ some r) : Spares r k (k.taskCreate a) := by
  unfold taskCreate
  generalize he : k.core.taskCreateCommon a = x at hr
  obtain ⟨c, t⟩ := x
  dsimp only
  cases t with
  | none => exact .ret (by rfl) _
  | some t =>
    have hne : r ≠ t := fun e => hr (by rw [e])
    refine .ret ?_ _
    simp [note, Function.update_of_ne hne]

theorem taskDelete_spares (t : TaskId) : Spares r k (k.taskDelete t) := by
  unfold taskDelete
  split
  · exact .code (by rfl) _
  · exact ⟨rfl, fun f e => by cases e⟩
  · exact .code (by rfl) _

omit cfg in
theorem taskYield_spares : Spares r k k.taskYield := by
  unfold taskYield
  split <;> exact .code (by rfl) _

theorem taskSleep_spares (ms : Word) : Spares r k (k.taskSleep ms) := by
  unfold taskSleep
  split
  · exact .code (by rfl) _
  · split
    · exact taskYield_spares
    · exact .block (by rfl) (by trivial) ..

theorem semCreate_spares (n : ℤ) : Spares r k (k.semCreate n) := by
  unfold semCreate
  split
  · exact .ret (by rfl) _
  · exact createObject_spares fun _ _ => rfl

theorem semWait_spares (h : Handle) (ms : Word) : Spares r k (k.semWait h ms) := by
  unfold semWait
  repeat' split
  all_goals first | exact .code (by rfl) _ | exact .block (by rfl) (by trivial) ..

theorem semPostCommon_spares (h : Handle) : Spares r k (k.semPostCommon h) := by
  unfold semPostCommon
  repeat' split
  all_goals first | exact .code (by rfl) _ | exact .code (by exact note_wakeFirst ..) _

theorem mutexCreate_spares : Spares r k k.mutexCreate := by
  unfold mutexCreate
  split
  · exact .ret (by rfl) _
  · exact createObject_spares fun _ _ => rfl

theorem mutexLock_spares (h : Handle) (ms : Word) : Spares r k (k.mutexLock h ms) := by
  unfold mutexLock
  repeat' split
  all_goals first | exact .code (by rfl) _ | exact .block (by rfl) (by trivial) ..

theorem mutexUnlock_spares (h : Handle) : Spares r k (k.mutexUnlock h) := by
  unfold mutexUnlock
  repeat' split
  all_goals exact .code (by rfl) _

theorem mutexDelete_spares (h : Handle) : Spares r k (k.mutexDelete h) := by
  unfold mutexDelete
  repeat' split
  all_goals exact .code (by rfl) _

theorem eventCreate_spares : Spares r k k.eventCreate := by
  unfold eventCreate
  split
  · exact .ret (by rfl) _
  · exact createObject_spares fun _ _ => rfl

omit cfg in
/-- The other fields that events use. -/
theorem note_setPend {p : Pend} (hv : p.notifyValue = (k.pend t).notifyValue) (hp : p.notifyPending = (k.pend t).notifyPending) :
    note { k with pend := Function.update k.pend t p } r = k.note r := by
  unfold note
  by_cases h : r = t
  · subst h
    simp [hv, hp]
  · simp [h]

theorem eventWaitLoop_spares (h : Handle) (mask : Word) (mode : BitVec 8) (start ms remaining : Word) :
    Spares r k (k.eventWaitLoop h mask mode start ms remaining) := by
  unfold eventWaitLoop
  split
  · exact .code (by rfl) _
  · dsimp only
    split
    · refine .ret ?_ _
      split <;> rfl
    · split
      · exact .code (by rfl) _
      · split
        · exact ⟨rfl, fun f e => by cases e⟩
        · exact .block (by exact note_setPend rfl rfl) (by trivial) ..

theorem eventWait_spares (h : Handle) (mask : Word) (mode : BitVec 8) (ms : Word) :
    Spares r k (k.eventWait h mask mode ms) := by
  unfold eventWait
  repeat' split
  all_goals first | exact .code (by rfl) _ | exact eventWaitLoop_spares ..

theorem note_eventSetLoop (i : ℕ) (k : Kernel) (ts : List TaskId) : (eventSetLoop i k ts).note r = k.note r := by
  induction ts generalizing k with
  | nil => rfl
  | cons t ts ih =>
    rw [eventSetLoop]
    dsimp only
    split
    · rw [ih]
      split
      · exact note_setPend (k := { k with eventFlags := _ }) rfl rfl
      · exact note_setPend (k := k) rfl rfl
    · exact ih k

theorem eventSet_spares (h : Handle) (flags : Word) : Spares r k (k.eventSet h flags) := by
  unfold eventSet
  repeat' split
  · exact .code (by rfl) _
  · exact .code (by rfl) _
  · exact .code (by exact note_eventSetLoop ..) _

theorem eventClear_spares (h : Handle) (flags : Word) : Spares r k (k.eventClear h flags) := by
  unfold eventClear
  repeat' split
  all_goals exact .code (by rfl) _

theorem mqCreate_spares (n size : ℕ) (st mem : Bool) : Spares r k (k.mqCreate n size st mem) := by
  unfold mqCreate
  split
  · exact .ret (by rfl) _
  · exact createObject_spares fun _ _ => rfl

theorem mqSendLoop_spares (i : ℕ) (h : Handle) (message : List UInt8) (priority : ℕ) (start ms remaining : Word) (isr : Bool) :
    Spares r k (k.mqSendLoop i h message priority start ms remaining isr) := by
  unfold mqSendLoop
  repeat' split
  · exact .code (by rfl) _
  · exact .block (by rfl) (by trivial) ..
  · exact .code (by rfl) _
  · exact .code (by exact note_wakeFirst ..) _

theorem mqSendCommon_spares (h : Handle) (message : Option (List UInt8)) (priority : ℕ) (ms : Word) (isr : Bool) :
    Spares r k (k.mqSendCommon h message priority ms isr) := by
  unfold mqSendCommon
  repeat' split
  all_goals first | exact .code (by rfl) _ | exact mqSendLoop_spares ..

theorem mqRecvLoop_spares (i : ℕ) (h : Handle) (capacity : ℕ) (start ms remaining : Word) :
    Spares r k (k.mqRecvLoop i h capacity start ms remaining) := by
  unfold mqRecvLoop
  dsimp only
  repeat' split
  · exact .code (by rfl) _
  · exact .block (by rfl) (by trivial) ..
  · exact .ret (by rfl) _
  · exact .ret (by exact note_wakeFirst ..) _

theorem mqRecv_spares (h : Handle) (capacity : ℕ) (ms : Word) : Spares r k (k.mqRecv h capacity ms) := by
  unfold mqRecv
  repeat' split
  all_goals first | exact .code (by rfl) _ | exact mqRecvLoop_spares ..

theorem pipeCreate_spares (size : ℕ) (mem : Bool) : Spares r k (k.pipeCreate size mem) := by
  unfold pipeCreate
  split
  · exact .ret (by rfl) _
  · exact createObject_spares fun _ _ => rfl

theorem pipeWriteLoop_spares (i : ℕ) (h : Handle) (data : List UInt8) (start ms remaining : Word) (isr : Bool) :
    Spares r k (k.pipeWriteLoop i h data start ms remaining isr) := by
  unfold pipeWriteLoop
  repeat' split
  · exact .code (by rfl) _
  · exact .block (by rfl) (by trivial) ..
  · exact .code (by exact note_wakeFirst ..) _
  · exact .code (by rfl) _

theorem pipeWriteCommon_spares (h : Handle) (data : Option (List UInt8)) (ms : Word) (isr : Bool) :
    Spares r k (k.pipeWriteCommon h data ms isr) := by
  unfold pipeWriteCommon
  repeat' split
  all_goals first | exact .code (by rfl) _ | exact pipeWriteLoop_spares ..

theorem pipeReadLoop_spares (i : ℕ) (h : Handle) (length : ℕ) (start ms remaining : Word) :
    Spares r k (k.pipeReadLoop i h length start ms remaining) := by
  unfold pipeReadLoop
  repeat' split
  · exact .code (by rfl) _
  · exact .block (by rfl) (by trivial) ..
  · exact .ret (by exact note_wakeFirst ..) _
  · exact .ret (by rfl) _

theorem pipeRead_spares (h : Handle) (length : ℕ) (ms : Word) : Spares r k (k.pipeRead h length ms) := by
  unfold pipeRead
  repeat' split
  all_goals first | exact .code (by rfl) _ | exact pipeReadLoop_spares ..

theorem notifyCommon_spares (hne : t ≠ r) (value : Word) (action : NotifyAction) :
    Spares r k (k.notifyCommon t value action) := by
  unfold notifyCommon
  split
  · exact .code (by rfl) _
  · split
    · exact .code (by rfl) _
    · rename_i b _
      have hb : note { k with pend := Function.update k.pend t b } r = k.note r := by
        simp [note, Function.update_of_ne hne.symm]
      dsimp only
      split <;> exact .code (by exact hb) _

/-- A wait of another task. -/
theorem notifyWait_note (hne : k.core.cur ≠ some r) (entry exit ms : Word) (take : Option Bool) :
    (k.notifyWait entry exit ms take).1.note r = k.note r := by
  unfold notifyWait
  split
  · rfl
  · rename_i self hcur
    have hself : r ≠ self := by
      rintro rfl
      exact hne hcur
    split
    · rfl
    · dsimp only
      split
      · simp [notifyFinish, note, Function.update_of_ne hself]
      · split
        · simp [code, note, Function.update_of_ne hself]
        · unfold block
          split <;> simp [code, note, Function.update_of_ne hself]

/-- A call that is not about the notification of task `r`, and no wait for one. -/
def Unrelated (k : Kernel) (r : TaskId) : Call → Prop
  | .notify t _ _ => t ≠ r
  | .notifyWait .. | .notifyTake .. => False
  | .taskCreate a => (k.core.taskCreateCommon a).2 ≠ some r
  | _ => True

/-- A call that is not about the notification of task `r` leaves it alone. -/
theorem call_spares (c : Call) (hc : k.Unrelated r c) : Spares r k (k.call c) := by
  cases c with
  | taskCreate a => exact taskCreate_spares a hc
  | taskDelete t => exact taskDelete_spares t
  | taskSleep ms => exact taskSleep_spares ms
  | taskYield => exact taskYield_spares
  | taskSuspend t | taskResume t | taskSetPriority t p | schedLock | schedUnlock => exact .ret (by rfl) _
  | semCreate n => exact semCreate_spares n
  | semWait h ms => exact semWait_spares h ms
  | semPost h =>
    show Spares r k (k.semPost h)
    unfold semPost
    split
    · exact .code (by rfl) _
    · exact semPostCommon_spares h
  | semDelete h => exact deleteObject_spares _ h
  | mutexCreate => exact mutexCreate_spares
  | mutexLock h ms => exact mutexLock_spares h ms
  | mutexUnlock h => exact mutexUnlock_spares h
  | mutexDelete h => exact mutexDelete_spares h
  | eventCreate => exact eventCreate_spares
  | eventWait h mask mode ms => exact eventWait_spares h mask mode ms
  | eventSet h flags => exact eventSet_spares h flags
  | eventClear h flags => exact eventClear_spares h flags
  | eventDelete h => exact deleteObject_spares _ h
  | mqCreate n size st mem => exact mqCreate_spares n size st mem
  | mqSend h message priority ms =>
    show Spares r k (k.mqSend h message priority ms)
    unfold mqSend
    split
    · exact .code (by rfl) _
    · exact mqSendCommon_spares ..
  | mqRecv h capacity ms => exact mqRecv_spares h capacity ms
  | mqDelete h => exact deleteObject_spares _ h
  | pipeCreate size mem => exact pipeCreate_spares size mem
  | pipeWrite h data ms =>
    show Spares r k (k.pipeWrite h data ms)
    unfold pipeWrite
    split
    · exact .code (by rfl) _
    · exact pipeWriteCommon_spares ..
  | pipeRead h length ms => exact pipeRead_spares h length ms
  | pipeDelete h => exact deleteObject_spares _ h
  | notify t value action =>
    show Spares r k (k.notify t value action)
    unfold notify
    split
    · exact .code (by rfl) _
    · exact notifyCommon_spares hc ..
  | notifyWait | notifyTake => exact hc.elim
  | timerServiceWait => exact .block (by rfl) (by trivial) ..

/-- A notification, as far as the task is concerned. -/
theorem notifyCommon_cases (k : Kernel) (r : TaskId) (value : Word) : Spares r k (k.notifyCommon r value .increment) ∧
      (k.notifyCommon r value .increment).2.isOk = false ∨
    (k.pend r).notifyValue ≠ .allOnes 32 ∧ (k.notifyCommon r value .increment).1.note r = ((k.pend r).notifyValue + 1, true) ∧
      (k.notifyCommon r value .increment).2 = .ret (.code Code.ok) := by
  unfold notifyCommon
  split
  · exact .inl ⟨.code (by rfl) _, rfl⟩
  · rw [notifyStore]
    by_cases h : (k.pend r).notifyValue = .allOnes 32
    · rw [if_pos h]
      exact .inl ⟨.code (by rfl) _, rfl⟩
    · rw [if_neg h]
      refine .inr ⟨h, ?_, ?_⟩
      all_goals dsimp only; split <;> simp [code, note]

omit cfg in
/-- Nothing is cleared of the value. -/
theorem and_not_zero (v : Word) : v &&& ~~~0 = v := by
  rw [show ~~~(0 : Word) = .allOnes 32 from rfl, BitVec.and_allOnes]

omit cfg in
/-- **The first critical section of a take** clears `notify_pending`, if it is set, and keeps the value. -/
theorem notifyFinish_take (k : Kernel) (r : TaskId) (clear : Bool) :
    (k.notifyFinish r 0 (some clear)).1.note r = ((k.pend r).notifyValue, false) ∧
      (k.notifyFinish r 0 (some clear)).2 = .wait { pending := .notifyTake clear (k.pend r).notifyValue, timeoutMs := 0 } := by
  simp only [notifyFinish, note, Function.update_self, and_not_zero, and_self]

theorem notifyTake_cases (k : Kernel) (ms : Word) (clear : Bool) (hr : k.core.cur = some r) :
    (k.notifyWait 0 0 ms (some clear)).1.note r = k.note r ∧ ((∃ c, (k.notifyWait 0 0 ms (some clear)).2 = .ret (.code c)) ∨
        ∃ f, (k.notifyWait 0 0 ms (some clear)).2 = .wait f ∧ f.pending = .notifyWait 0 (some clear)) ∨
      (k.notifyWait 0 0 ms (some clear)).1.note r = ((k.pend r).notifyValue, false) ∧
        ∃ f, (k.notifyWait 0 0 ms (some clear)).2 = .wait f ∧ f.pending = .notifyTake clear (k.pend r).notifyValue := by
  unfold notifyWait
  rw [hr]
  dsimp only
  split
  · exact .inl ⟨rfl, .inl ⟨_, rfl⟩⟩
  · have hself : Function.update k.pend r { k.pend r with notifyValue := (k.pend r).notifyValue &&& ~~~0 } = k.pend := by
      rw [and_not_zero]
      exact Function.update_eq_self r k.pend
    rw [hself]
    split
    · obtain ⟨hn, ho⟩ := notifyFinish_take k r clear
      exact .inr ⟨hn, _, ho, rfl⟩
    · split
      · exact .inl ⟨rfl, .inl ⟨_, rfl⟩⟩
      · refine .inl ?_
        unfold block
        split
        · exact ⟨rfl, .inl ⟨_, rfl⟩⟩
        · exact ⟨rfl, .inr ⟨_, rfl, rfl⟩⟩

/-- A task that goes on after a wait that is not one for a notification. -/
theorem resume_spares (self : TaskId) {f : Frame} (hf : f.pending.apart) : Spares r k (k.resume self f) := by
  obtain ⟨p, ms⟩ := f
  cases p with
  | result => exact .code (by rfl) _
  | eventWait h mask mode s t =>
    simp only [resume]
    split
    · exact .code (by rfl) _
    · exact eventWaitLoop_spares ..
  | mqSend h message priority s t =>
    simp only [resume]
    repeat' split
    all_goals first | exact .code (by rfl) _ | exact mqSendLoop_spares ..
  | mqRecv h capacity s t =>
    simp only [resume]
    repeat' split
    all_goals first | exact .code (by rfl) _ | exact mqRecvLoop_spares ..
  | pipeWrite h data s t =>
    simp only [resume]
    repeat' split
    all_goals first | exact .code (by rfl) _ | exact pipeWriteLoop_spares ..
  | pipeRead h length s t =>
    simp only [resume]
    repeat' split
    all_goals first | exact .code (by rfl) _ | exact pipeReadLoop_spares ..
  | notifyWait | notifyTake => exact hf.elim
  | never => exact ⟨rfl, fun f e => by cases e⟩

/-- Another task goes on. -/
theorem resume_note {self : TaskId} (hne : r ≠ self) (f : Frame) : (k.resume self f).1.note r = k.note r := by
  by_cases hf : f.pending.apart
  · exact (resume_spares self hf).note
  · obtain ⟨p, ms⟩ := f
    cases p with
    | notifyWait exit take =>
      simp only [resume]
      split
      · rfl
      · simp [notifyFinish, note, Function.update_of_ne hne]
    | notifyTake clear v => simp [resume, notifyTakeEnd, note, Function.update_of_ne hne]
    | _ => exact absurd trivial hf

/-- What an interrupt handler does, if it is not about the notification of the task. -/
theorem isrCall_note (c : IsrCall) (hc : ∀ value action, c ≠ .notify r value action) : (k.isrCall c).note r = k.note r := by
  cases c with
  | tick pending => rfl
  | semPost h =>
    simp only [isrCall, semPostFromIsr]
    split
    · rfl
    · exact (semPostCommon_spares h).note
  | mqSend h message =>
    simp only [isrCall, mqSendFromIsr]
    split
    · rfl
    · exact (mqSendCommon_spares ..).note
  | pipeWrite h data =>
    simp only [isrCall, pipeWriteFromIsr]
    split
    · rfl
    · exact (pipeWriteCommon_spares ..).note
  | notify t value action =>
    simp only [isrCall, notifyFromIsr]
    split
    · rfl
    · refine (notifyCommon_spares ?_ value action).note
      rintro rfl
      exact hc _ _ rfl

end Kernel

namespace Pending

/-- Where a task can be that takes the whole count, `value`. -/
def Takes (value : Word) : Pending → Prop
  | .notifyWait exit take => exit = 0 ∧ take = some true
  | .notifyTake clear v => clear = true ∧ v = value
  | _ => True

/-- Between the two critical sections of a take. -/
def clearing : Pending → Bool
  | .notifyTake .. => true
  | _ => false

variable {p : Pending} {value : Word}

omit cfg in
theorem apart.takes (h : p.apart) : p.Takes value := by
  cases p <;> trivial

omit cfg in
theorem apart.clearing (h : p.apart) : p.clearing = false := by
  cases p <;> first | rfl | exact h.elim

end Pending

/-- What is counted: an increment that succeeds, and a take with the value that it returns. -/
inductive NotifyEvent where
  | increment
  | take (value : Word)
  deriving DecidableEq

/-- The increments that have succeeded. -/
def increments (es : List NotifyEvent) : ℕ := (es.map fun | .increment => 1 | .take _ => 0).sum

/-- The sum of the values that takes have returned. -/
def taken (es : List NotifyEvent) : ℕ := (es.map fun | .increment => 0 | .take v => v.toNat).sum

omit cfg in
@[simp] theorem increments_append (es fs : List NotifyEvent) : increments (es ++ fs) = increments es + increments fs := by
  simp [increments]

omit cfg in
@[simp] theorem taken_append (es fs : List NotifyEvent) : taken (es ++ fs) = taken es + taken fs := by
  simp [taken]

namespace Sys

variable {r t : TaskId} {s s' : Sys} {a : Act} {es : List NotifyEvent}

/-- What an action does for the count of task `r`. -/
def noted (r : TaskId) (s : Sys) : Act → List NotifyEvent
  | .call (.notify t value .increment) =>
    if t = r ∧ (s.kernel.notify t value .increment).2.isOk then [.increment] else []
  | .isr (.notify t value .increment) =>
    if t = r ∧ (s.kernel.notifyFromIsr t value .increment).2.isOk then [.increment] else []
  | .resume =>
    if s.runningTask = some r then
      match s.frame r with
      | some f =>
        match f.pending, (s.kernel.resume r f).2 with
        | .notifyTake .., .ret (.value v) => [.take v]
        | _, _ => []
      | none => []
    else []
  | _ => []

/-- Task `r` is notified by increments, takes the whole count each time, and is not made anew. -/
def Counts (r : TaskId) (s : Sys) : Act → Prop
  | .call (.notify t _ action) | .isr (.notify t _ action) => t = r → action = .increment
  | .call (.notifyTake clearCount _) => s.core.cur = some r → clearCount = true
  | .call (.notifyWait ..) => s.core.cur ≠ some r
  | .call (.taskCreate a) => (s.core.taskCreateCommon a).2 ≠ some r
  | _ => True

omit cfg in
/-- Task `r` is between the two critical sections of a take. -/
def midTake (r : TaskId) (s : Sys) : Bool := (s.frame r).any fun f => f.pending.clearing

/-- No increment succeeds in the middle of a take. -/
def Spaced (r : TaskId) (s : Sys) (a : Act) : Prop := .increment ∈ noted r s a → midTake r s = false

instance : Decidable (Spaced r s a) := inferInstanceAs (Decidable (_ → _))

/-- The increments `es` have been taken or are left, and what is left will be taken. -/
structure Conserved (r : TaskId) (s : Sys) (es : List NotifyEvent) : Prop where
  total : taken es + (s.kernel.note r).1.toNat = increments es
  frame : ∀ f, s.frame r = some f → f.pending.Takes (s.kernel.note r).1
  pending : midTake r s = false → (s.kernel.note r).1 ≠ 0 → (s.kernel.note r).2 = true

namespace Conserved

omit cfg in
/-- Nothing happens to the count. -/
theorem keep (h : Conserved r s es) (hn : s'.kernel.note r = s.kernel.note r) (hf : s'.frame r = s.frame r ∨
    midTake r s = false ∧ ∀ f, s'.frame r = some f → f.pending.Takes (s.kernel.note r).1 ∧ f.pending.clearing = false) :
    Conserved r s' es := by
  refine ⟨by rw [hn]; exact h.total, fun f e => ?_, fun hm => ?_⟩
  · rw [hn]
    rcases hf with hf | ⟨-, hf⟩
    · exact h.frame f (hf ▸ e)
    · exact (hf f e).1
  · rw [hn]
    rcases hf with hf | ⟨hm', -⟩
    · exact h.pending (by rw [midTake, ← hf]; exact hm)
    · exact h.pending hm'

omit cfg in
/-- An increment that succeeds outside takes. -/
theorem incremented (h : Conserved r s es) (hmax : (s.kernel.pend r).notifyValue ≠ .allOnes 32)
    (hn : s'.kernel.note r = ((s.kernel.pend r).notifyValue + 1, true)) (hm : midTake r s = false)
    (hf : s'.frame r = s.frame r ∨ s'.frame r = none) : Conserved r s' (es ++ [.increment]) := by
  refine ⟨?_, fun f e => ?_, fun _ _ => by rw [hn]⟩
  · have := h.total
    rw [hn]
    have hlt : (s.kernel.pend r).notifyValue.toNat + 1 < 2 ^ 32 := by
      have hne : (s.kernel.pend r).notifyValue.toNat ≠ 2 ^ 32 - 1 := fun e => hmax (BitVec.eq_of_toNat_eq e)
      have := (s.kernel.pend r).notifyValue.isLt
      omega
    have hv : ((s.kernel.pend r).notifyValue + 1).toNat = (s.kernel.pend r).notifyValue.toNat + 1 := by
      rw [BitVec.toNat_add]
      exact Nat.mod_eq_of_lt hlt
    simp only [hv]
    simp only [Kernel.note] at this
    simp [taken, increments] at this ⊢
    omega
  · rcases hf with hf | hf
    · have ht := h.frame f (hf ▸ e)
      rw [midTake, ← hf, e] at hm
      obtain ⟨p, ms⟩ := f
      cases p <;> first | exact ht | cases hm
    · rw [hf] at e
      cases e

end Conserved

omit cfg in
/-- Where a task is after a critical section. -/
theorem finish_frame_self (s : Sys) (t : TaskId) {x : Kernel × Outcome} {f : Frame} (h : (s.finish t x).frame t = some f) :
    x.2 = .wait f ∨ f.pending = .never := by
  unfold finish at h
  split at h
  · simp only [Function.update_self] at h
    cases h
  · rename_i g hx
    simp only [Function.update_self] at h
    cases h
    exact .inl hx
  · simp only [Function.update_self] at h
    cases h
    exact .inr rfl

omit cfg in
theorem midTake_eq_false (h : s.frame r = none) : midTake r s = false := by
  rw [midTake, h]
  rfl

namespace Conserved

omit cfg in
/-- A critical section of any task that leaves the notification alone. -/
theorem spares (h : Conserved r s es) {x : Kernel × Outcome} (hx : Kernel.Spares r s.kernel x)
    (hm : t = r → midTake r s = false) : Conserved r (s.finish t x) es := by
  refine h.keep (by rw [finish_kernel]; exact hx.note) ?_
  by_cases htr : t = r
  · subst htr
    refine .inr ⟨hm rfl, fun f e => ?_⟩
    have hf : f.pending.apart := by
      rcases finish_frame_self s t e with e | e
      · exact hx.apart f e
      · rw [e]
        trivial
    exact ⟨hf.takes, hf.clearing⟩
  · exact .inl (finish_frame_ne s (Ne.symm htr) _)

omit cfg in
/-- The first critical section of a take. -/
theorem read (h : Conserved r s es) {x : Kernel × Outcome} {f : Frame} (hn : x.1.note r = ((s.kernel.pend r).notifyValue, false))
    (hx : x.2 = .wait f) (hf : f.pending = .notifyTake true (s.kernel.pend r).notifyValue) : Conserved r (s.finish r x) es := by
  have hfr := finish_wait s r hx
  refine ⟨?_, fun g e => ?_, fun hm => ?_⟩
  · rw [finish_kernel, hn]
    exact h.total
  · rw [hfr] at e
    cases e
    rw [finish_kernel, hn, hf]
    exact ⟨rfl, rfl⟩
  · rw [midTake, hfr, Option.any_some, hf] at hm
    cases hm

end Conserved

/-- The calls that count. -/
theorem counts_call {c : Call} (hc : Counts r s (.call c)) :
    Kernel.Spares r s.kernel (s.kernel.call c) ∧ noted r s (.call c) = [] ∨
      ((s.kernel.pend r).notifyValue ≠ .allOnes 32 ∧ (s.kernel.call c).1.note r = ((s.kernel.pend r).notifyValue + 1, true) ∧
        (s.kernel.call c).2 = .ret (.code Code.ok) ∧ noted r s (.call c) = [.increment]) ∨
      (s.core.cur ≠ some r ∧ (s.kernel.call c).1.note r = s.kernel.note r ∧ noted r s (.call c) = []) ∨
      s.core.cur = some r ∧ ∃ ms, c = .notifyTake true ms := by
  by_cases hu : s.kernel.Unrelated r c
  · refine .inl ⟨Kernel.call_spares c hu, ?_⟩
    cases c with
    | notify t value action =>
      have hne : t ≠ r := hu
      cases action <;> simp [noted, hne]
    | _ => rfl
  · cases c with
    | notify t value action =>
      obtain rfl : t = r := not_not.mp hu
      obtain rfl : action = .increment := hc rfl
      have hcall : s.kernel.call (.notify t value .increment) = s.kernel.notify t value .increment := rfl
      rw [hcall]
      by_cases hi : s.core.inIsr = true
      · have e : s.kernel.notify t value .increment = s.kernel.code Code.context := if_pos hi
        refine .inl ⟨e ▸ .code (by rfl) _, ?_⟩
        simp only [noted, e]
        exact if_neg fun h => Bool.false_ne_true h.2
      · have e : s.kernel.notify t value .increment = s.kernel.notifyCommon t value .increment := if_neg hi
        rcases Kernel.notifyCommon_cases s.kernel t value with ⟨hx, ho⟩ | ⟨hmax, hn, ho⟩
        · refine .inl ⟨e ▸ hx, ?_⟩
          simp [noted, e, ho]
        · refine .inr (.inl ⟨hmax, by rw [e]; exact hn, by rw [e]; exact ho, ?_⟩)
          simp [noted, e, ho, Outcome.isOk]
    | notifyWait entry exit ms =>
      exact .inr (.inr (.inl ⟨hc, Kernel.notifyWait_note hc entry exit ms none, rfl⟩))
    | notifyTake clear ms =>
      by_cases hcur : s.core.cur = some r
      · obtain rfl : clear = true := hc hcur
        exact .inr (.inr (.inr ⟨hcur, ms, rfl⟩))
      · exact .inr (.inr (.inl ⟨hcur, Kernel.notifyWait_note hcur 0 0 ms (some clear), rfl⟩))
    | taskCreate a => exact absurd hc hu
    | _ => exact absurd trivial hu

namespace Conserved

/-- **A call keeps the count.** -/
theorem call {c : Call} (h : Conserved r s es) (hc : Counts r s (.call c)) (hsp : Spaced r s (.call c))
    (hstep : s.step (.call c) = some s') : Conserved r s' (es ++ noted r s (.call c)) := by
  rcases step_call hstep with ⟨t, ht, hf, rfl⟩ | ⟨-, k, v, e, rfl⟩
  · have hm : t = r → midTake r s = false := by
      rintro rfl
      exact midTake_eq_false hf
    have hcur := (runningTask_eq_some ht).1
    rcases counts_call hc with ⟨hx, hn⟩ | ⟨hmax, hk, ho, hn⟩ | ⟨hne, hk, hn⟩ | ⟨hcur', ms, rfl⟩
    · rw [hn, List.append_nil]
      exact h.spares hx hm
    · rw [hn]
      refine h.incremented hmax (by rw [finish_kernel]; exact hk) (hsp (by rw [hn]; exact List.mem_singleton.mpr rfl)) ?_
      by_cases htr : t = r
      · subst htr
        exact .inr (finish_ret s t ho).1
      · exact .inl (finish_frame_ne s (Ne.symm htr) _)
    · rw [hn, List.append_nil]
      refine h.keep (by rw [finish_kernel]; exact hk) (.inl (finish_frame_ne s ?_ _))
      rintro rfl
      exact hne hcur
    · obtain rfl : t = r := Option.some.inj (hcur.symm.trans hcur')
      rw [show noted t s (.call (.notifyTake true ms)) = [] from rfl, List.append_nil]
      rcases Kernel.notifyTake_cases s.kernel ms true hcur with ⟨hn, ⟨c, ho⟩ | ⟨f, ho, hfp⟩⟩ | ⟨hn, f, ho, hfp⟩
      · refine h.keep (by rw [finish_kernel]; exact hn) (.inr ⟨hm rfl, fun f e => ?_⟩)
        have hfr : (s.finish t (s.kernel.call (.notifyTake true ms))).frame t = none := (finish_ret s t ho).1
        rw [hfr] at e
        cases e
      · refine h.keep (by rw [finish_kernel]; exact hn) (.inr ⟨hm rfl, fun g e => ?_⟩)
        have hfr : (s.finish t (s.kernel.call (.notifyTake true ms))).frame t = some f := finish_wait s t ho
        rw [hfr] at e
        cases e
        rw [hfp]
        exact ⟨⟨rfl, rfl⟩, rfl⟩
      · exact h.read hn ho hfp
  · rcases counts_call hc with ⟨hx, hn⟩ | ⟨hmax, hk, ho, hn⟩ | ⟨hne, hk, hn⟩ | ⟨hcur', ms, rfl⟩
    · rw [hn, List.append_nil]
      refine h.keep ?_ (.inl rfl)
      have := hx.note
      rwa [e] at this
    · rw [hn]
      rw [e] at hk
      exact h.incremented hmax hk (hsp (by rw [hn]; exact List.mem_singleton.mpr rfl)) (.inl rfl)
    · rw [hn, List.append_nil]
      rw [e] at hk
      exact h.keep hk (.inl rfl)
    · rw [show noted r s (.call (.notifyTake true ms)) = [] from rfl, List.append_nil]
      have e : s.kernel.notifyWait 0 0 ms (some true) = (k, .ret v) := e
      have hcases := Kernel.notifyTake_cases s.kernel ms true hcur'
      rw [e] at hcases
      rcases hcases with ⟨hn, -⟩ | ⟨-, f, ho, -⟩
      · exact h.keep hn (.inl rfl)
      · cases ho

/-- **A task that goes on keeps the count.** -/
theorem resume (h : Conserved r s es) (hstep : s.step .resume = some s') : Conserved r s' (es ++ noted r s .resume) := by
  obtain ⟨t, f, ht, hf, rfl⟩ := step_resume hstep
  by_cases htr : t = r
  · subst htr
    have hframe := h.frame f hf
    have hnote : noted t s .resume = match f.pending, (s.kernel.resume t f).2 with
        | .notifyTake .., .ret (.value v) => [.take v]
        | _, _ => [] := by simp [noted, ht, hf]
    obtain ⟨p, ms⟩ := f
    cases p with
    | notifyTake clear v =>
      obtain ⟨rfl, rfl⟩ := hframe
      rw [hnote]
      have hn : (s.finish t (s.kernel.resume t { pending := .notifyTake true (s.kernel.note t).1, timeoutMs := ms })).kernel.note t =
          (0, (s.kernel.note t).2) := by
        rw [finish_kernel]
        simp [Kernel.resume, Kernel.notifyTakeEnd, Kernel.note]
      refine ⟨?_, fun g e => ?_, fun _ hv => ?_⟩
      · have := h.total
        rw [hn]
        simp [taken, increments, Kernel.resume, Kernel.notifyTakeEnd] at this ⊢
        omega
      · rw [show (s.finish t _).frame t = none from (finish_ret s t (by rfl)).1] at e
        cases e
      · rw [hn] at hv
        exact absurd rfl hv
    | notifyWait exit take =>
      obtain ⟨rfl, rfl⟩ := hframe
      rw [hnote, List.append_nil]
      have hm : midTake t s = false := by simp [midTake, hf, Pending.clearing]
      by_cases hw : (s.core.tasks t).waitResult ≠ Code.ok ∨ (s.core.tasks t).state = .blocked
      · rw [show s.kernel.resume t { pending := .notifyWait 0 (some true), timeoutMs := ms } =
          s.kernel.code (s.core.tasks t).waitResult from if_pos hw]
        exact h.spares (.code (by rfl) _) fun _ => hm
      · rw [show s.kernel.resume t { pending := .notifyWait 0 (some true), timeoutMs := ms } =
          s.kernel.notifyFinish t 0 (some true) from if_neg hw]
        obtain ⟨hn, ho⟩ := Kernel.notifyFinish_take s.kernel t true
        exact h.read hn ho rfl
    | _ =>
      rw [hnote, List.append_nil]
      refine h.spares (Kernel.resume_spares t trivial) fun _ => ?_
      simp [midTake, hf, Pending.clearing]
  · have hne : noted r s .resume = [] := by
      rw [noted, if_neg]
      rw [ht]
      exact fun e => htr (Option.some.inj e)
    rw [hne, List.append_nil]
    refine h.keep ?_ (.inl (finish_frame_ne s (Ne.symm htr) _))
    rw [finish_kernel]
    exact Kernel.resume_note (Ne.symm htr) f

/-- **A step keeps the count.** -/
theorem step (h : Conserved r s es) (hc : Counts r s a) (hsp : Spaced r s a) (hstep : s.step a = some s') :
    Conserved r s' (es ++ noted r s a) := by
  cases a with
  | call c => exact h.call hc hsp hstep
  | resume => exact h.resume hstep
  | isr c =>
    have hk := step_isr_kernel hstep
    have hfr : s'.frame = s.frame := by
      simp only [Sys.step] at hstep
      split at hstep
      · cases hstep
        rfl
      · cases hstep
    by_cases hcn : ∃ value action, c = .notify r value action
    · obtain ⟨value, action, rfl⟩ := hcn
      obtain rfl : action = .increment := hc rfl
      by_cases hi : s.core.inIsr = true
      · have e : s.kernel.notifyFromIsr r value .increment = s.kernel.notifyCommon r value .increment := if_neg (by simpa using hi)
        rcases Kernel.notifyCommon_cases s.kernel r value with ⟨hx, ho⟩ | ⟨hmax, hn, ho⟩
        · rw [show noted r s (.isr (.notify r value .increment)) = [] by simp [noted, e, ho], List.append_nil]
          refine h.keep ?_ (.inl (by rw [hfr]))
          rw [← hk, ← hx.note, ← e]
          rfl
        · have hnote : noted r s (.isr (.notify r value .increment)) = [.increment] := by simp [noted, e, ho, Outcome.isOk]
          rw [hnote]
          refine h.incremented hmax ?_ (hsp (by rw [hnote]; exact List.mem_singleton.mpr rfl)) (.inl (by rw [hfr]))
          rw [← hk, ← hn, ← e]
          rfl
      · have e : s.kernel.notifyFromIsr r value .increment = s.kernel.code Code.context := if_pos (by simpa using hi)
        have hnote : noted r s (.isr (.notify r value .increment)) = [] := by
          simp only [noted, e]
          exact if_neg fun h => Bool.false_ne_true h.2
        rw [hnote, List.append_nil]
        refine h.keep ?_ (.inl (by rw [hfr]))
        rw [← hk]
        show (s.kernel.notifyFromIsr r value .increment).1.note r = _
        rw [e]
        rfl
    · have hne : noted r s (.isr c) = [] := by
        cases c with
        | notify t value action =>
          have htr : t ≠ r := by
            rintro rfl
            exact hcn ⟨_, _, rfl⟩
          cases action <;> simp [noted, htr]
        | _ => rfl
      rw [hne, List.append_nil]
      refine h.keep ?_ (.inl (by rw [hfr]))
      rw [← hk]
      exact Kernel.isrCall_note c fun value action e => hcn ⟨value, action, e⟩
  | start memory =>
    obtain ⟨-, c, -, rfl⟩ := step_start hstep
    rw [show noted r s (.start memory) = [] from rfl, List.append_nil]
    exact h.keep rfl (.inl rfl)
  | «switch» | isrEnter | isrExit =>
    simp only [Sys.step] at hstep
    split at hstep
    · cases hstep
      simp only [noted, List.append_nil]
      exact h.keep rfl (.inl rfl)
    · cases hstep

end Conserved

/-- **Increments are not lost** in a run in which none comes in the middle of a take. -/
theorem counted_of_path {s₀ : Sys} {as : List Act} (hv : (s₀.kernel.pend r).notifyValue = 0) (hf : s₀.frame r = none)
    (h : Path (Next Sys.step) (fun s a => Counts r s a ∧ Spaced r s a) s₀ as s) :
    taken (trace Sys.step (noted r) s₀ as) + (s.kernel.pend r).notifyValue.toNat =
        increments (trace Sys.step (noted r) s₀ as) ∧
      (s.frame r = none → (s.kernel.pend r).notifyValue ≠ 0 → (s.kernel.pend r).notifyPending = true) := by
  have h₀ : Conserved r s₀ [] := by
    refine ⟨?_, fun f e => ?_, fun _ hne => ?_⟩
    · simp [taken, increments, Kernel.note, hv]
    · rw [hf] at e
      cases e
    · exact absurd hv hne
  have hs := h.traced (I := Conserved r) (fun s a s' es hi hc hstep => hi.step hc.1 hc.2 hstep) h₀
  rw [List.nil_append] at hs
  exact ⟨hs.total, fun hn => hs.pending (midTake_eq_false hn)⟩

end Sys

end Aixos

namespace Aixos.Sys

open Transition

attribute [local instance] Config.default

/-- A task of the highest priority runs. -/
def counting : List Act := boot [{ stackSize := 512, priority := 2 }] true ++ [.call .timerServiceWait, .switch]

/-- An interrupt increments the count of task 0. -/
def incremented : List Act := [.isrEnter, .isr (.notify 0 0 .increment), .isrExit]

/-- Two increments are taken at once, and a third one wakes the task, which has waited for it. -/
def takenTwice : List Act := incremented ++ incremented ++ [.call (.notifyTake true 0), .resume,
  .call (.notifyTake true forever), .switch] ++ incremented ++ [.switch, .resume, .resume]

/-- An increment comes in the middle of a take. -/
def overtaken : List Act := incremented ++ [.call (.notifyTake true 0)] ++ incremented ++ [.resume]

theorem counted_of_path_takenTwice : ∃ s₀ s, run step init counting = some s₀ ∧ run step s₀ takenTwice = some s ∧
    increments (trace step (noted 0) s₀ takenTwice) = 3 ∧
    taken (trace step (noted 0) s₀ takenTwice) + (s.kernel.pend 0).notifyValue.toNat = 3 ∧
    (s.frame 0 = none → (s.kernel.pend 0).notifyValue ≠ 0 → (s.kernel.pend 0).notifyPending = true) := by
  obtain ⟨s₀, h₀, hp⟩ := exists_run step init counting (fun s => decide ((s.kernel.pend 0).notifyValue = 0 ∧ s.frame 0 = none ∧
    increments (trace step (noted 0) s takenTwice) = 3 ∧ (runIf step (Spaced 0) s takenTwice).isSome)) (by decide +kernel)
  obtain ⟨hv, hf, h₃, hr⟩ := of_decide_eq_true hp
  obtain ⟨s, hs⟩ := Option.isSome_iff_exists.mp hr
  have hp := path_of_runIf hs
  have hc := hp.both (P := fun a => ∀ s, Counts 0 s a) (by simp [takenTwice, incremented, Counts])
  obtain ⟨ht, hpend⟩ := counted_of_path hv hf (hc.mono fun s a h => ⟨h.2 s, h.1⟩)
  exact ⟨s₀, s, h₀, hp.run_eq, h₃, ht.trans h₃, hpend⟩

/-- **It is lost.** -/
theorem loses_increment : ∃ s₀ s, run step init counting = some s₀ ∧ (s₀.kernel.pend 0).notifyValue = 0 ∧ s₀.frame 0 = none ∧
    Path (Next step) (Counts 0) s₀ overtaken s ∧ increments (trace step (noted 0) s₀ overtaken) = 2 ∧
    taken (trace step (noted 0) s₀ overtaken) = 1 ∧ (s.kernel.pend 0).notifyValue = 0 := by
  obtain ⟨s₀, h₀, hp⟩ := exists_run step init counting (fun s => decide ((s.kernel.pend 0).notifyValue = 0 ∧ s.frame 0 = none ∧
    increments (trace step (noted 0) s overtaken) = 2 ∧ taken (trace step (noted 0) s overtaken) = 1 ∧
    (run step s overtaken).map (fun s => (s.kernel.pend 0).notifyValue) = some 0)) (by decide +kernel)
  obtain ⟨hv, hf, h₂, h₁, hr⟩ := of_decide_eq_true hp
  obtain ⟨s, hs, hz⟩ := Option.map_eq_some_iff.mp hr
  have hc := (path_iff_run.mpr hs).both (P := fun a => ∀ s, Counts 0 s a) (by simp [overtaken, incremented, Counts])
  exact ⟨s₀, s, h₀, hv, hf, hc.mono fun s a h => h.2 s, h₂, h₁, hz⟩

end Aixos.Sys
