import Aixos.Core.WellFormed

/-!
# Steps of the core

Every operation of the kernel is made of a few steps of the core. A step is what the
functions of `Core` do once their checks have passed; the checks are its guard.

* `Op`, `Enabled`, `exec` — the steps, their guards, their effect.
* `Sound` — the invariant that all of them keep: `Wf` and `ReadyOk`.
* `Sound.exec` — they do. `aixos_start` does only when no task it is going to queue is
  queued already.
-/

namespace Aixos

namespace Core

open OrderedQueue Sched

variable [cfg : Config]

/-- The steps of the core. -/
inductive Op where
  /-- An object, a notification or the timer service ends a wait. -/
  | wake (t : TaskId) (r : Code)
  /-- The tick ends a wait. -/
  | timeout (t : TaskId) (r : Code)
  /-- The current task blocks. -/
  | block (t : TaskId) (w : Wait) (timeoutMs : Word)
  /-- The current task goes behind its equals. -/
  | yield
  /-- The tick is counted. -/
  | countTick
  /-- The time slice of the current task ends. -/
  | sliceExpire
  /-- A task is suspended. -/
  | suspend (t : TaskId)
  /-- A task is resumed. -/
  | resume (t : TaskId)
  /-- A task is given another base priority. -/
  | setPriority (t : TaskId) (p : ℕ)
  /-- A task is created. -/
  | create (a : CreateArgs)
  /-- A task is deleted. -/
  | delete (t : TaskId)
  /-- The scheduler is started. -/
  | start (memory : Bool)
  /-- The processor switches. -/
  | switch
  /-- An interrupt begins. -/
  | isrEnter
  /-- An interrupt ends. -/
  | isrExit
  /-- The scheduler is locked. -/
  | lock
  /-- The scheduler is unlocked. -/
  | unlock
  /-- An object other than a mutex is made. -/
  | alloc (k : ObjKind) (i : ℕ)
  /-- A mutex is made. -/
  | allocMutex (i : ℕ)
  /-- An object other than a mutex is given back. -/
  | free (k : ObjKind) (i : ℕ)
  /-- A free mutex is locked. -/
  | acquire (m : ℕ) (t : TaskId)
  /-- The owner of a mutex changes its lock count. -/
  | relock (m : ℕ) (n : ℕ)
  /-- The owner of a mutex unlocks it for the last time. -/
  | release (m : ℕ) (t : TaskId)
  /-- A mutex is given back. -/
  | destroy (m : ℕ)

/-- Task `t` may block on `w`. -/
structure MayBlock (c : Core) (t : TaskId) (w : Wait) : Prop where
  cur : c.cur = some t
  state : (c.tasks t).state = .running
  isr : c.isrNesting = 0
  lock : c.schedLock = 0
  /-- The object is in use. -/
  used : ∀ l k i, w = .list l → l.object = some (k, i) → (c.slots k i).used = true
  /-- A mutex is owned by another task. -/
  owned : ∀ m, w = .list (.mutex m) → (c.mutexes m).owner ≠ none ∧ (c.mutexes m).owner ≠ some t

/-- The guard of a step. -/
def Enabled (c : Core) : Op → Prop
  | .wake t _ => (c.tasks t).waitMutex = none
  | .timeout _ _ => True
  | .block t w _ => c.MayBlock t w
  | .yield => True
  | .countTick => True
  | .sliceExpire => True
  | .suspend t => c.Live t ∧ ¬ (c.cur = some t ∧ c.schedIsLocked)
  | .resume t => (c.tasks t).state = .suspended
  | .setPriority t p => c.Live t ∧ p < cfg.maxPriority
  | .create _ => True
  | .delete t => c.Live t ∧ (c.tasks t).heldMutexes = [] ∧ ¬ (c.cur = some t ∧ c.schedIsLocked)
  | .start memory => c.running = false ∧ (c.start memory).isSome
  | .switch => c.running = true
  | .isrEnter => True
  | .isrExit => True
  | .lock => True
  | .unlock => True
  | .alloc k i => k ≠ .mutex ∧ c.freeSlot k = some i
  | .allocMutex i => c.freeSlot .mutex = some i
  | .free k i => k ≠ .mutex ∧ ∀ l ∈ objLists k i, c.waitLists l = []
  | .acquire m t => (c.slots .mutex m).used = true ∧ (c.mutexes m).owner = none ∧ c.Live t
  | .relock _ _ => True
  | .release m t => c.cur = some t ∧ (c.mutexes m).owner = some t
  | .destroy m => c.waitLists (.mutex m) = []

/-- The effect of a step. -/
def exec (c : Core) : Op → Core
  | .wake t r => c.taskWake t r
  | .timeout t r => c.taskWake t r
  | .block t w ms => c.blockTask t w ms
  | .yield => c.schedRotateCurrent.rescheduleRequest
  | .countTick => c.countTick
  | .sliceExpire => c.sliceExpire
  | .suspend t => c.suspendTask t
  | .resume t => c.resumeTask t
  | .setPriority t p => c.setPriorityTask t p
  | .create a => (c.taskCreateCommon a).1
  | .delete t => c.deleteTask t
  | .start memory => (c.start memory).getD c
  | .switch => c.contextSwitch
  | .isrEnter => c.isrEnter
  | .isrExit => c.isrExit
  | .lock => c.schedLockTask.1
  | .unlock => c.schedUnlockTask.1
  | .alloc k i => (c.slotAlloc k i).1
  | .allocMutex i => (c.slotAlloc .mutex i).1.setMutex i fun _ => {}
  | .free k i => c.slotFree k i
  | .acquire m t => c.mutexAcquire m t
  | .relock m n => c.setMutex m fun b => { b with lockCount := n }
  | .release m t => c.mutexRelease m t
  | .destroy m => c.mutexDestroy m

/-- The step relation. -/
def Step (c : Core) (o : Op) (c' : Core) : Prop := c.Enabled o ∧ c' = c.exec o

/-- The invariant. -/
structure Sound (c : Core) : Prop where
  wf : Wf c
  ready : ReadyOk c

theorem sound_init : Sound init := ⟨wf_init, readyOk_init⟩

variable {c c' : Core} {t : TaskId}

/-! ### Steps that only touch the scheduler -/

theorem ReadyOk.congr (h : ReadyOk c) (s : Similar c c') (hs : c'.sched = c.sched)
    (hp : c'.priority = c.priority) : ReadyOk c' := by
  obtain ⟨q, hq⟩ := h
  refine ⟨q, ?_⟩
  have hr : c'.running = c.running := by rw [s.rest]
  rw [hr]
  exact hq.congr hs hp (by rw [s.rest]) fun t => (s.task t).isReady

namespace Sound

theorem similar (h : Sound c) (s : Similar c c') (hs : c'.sched = c.sched)
    (hp : c'.priority = c.priority) (hb : ∀ t, (c'.tasks t).basePriority = (c.tasks t).basePriority)
    (hcur : CurOk c') : Sound c' where
  wf := h.wf.similar s (h.wf.bounded.congr (fun t => congrFun hp t) hb) hcur
  ready := h.ready.congr s hs hp

/-- Nothing but the flags, the counters and the time has changed. -/
theorem flags (h : Sound c) {n n' : ℕ} {a b : Bool} {x : BitVec 64} :
    Sound { c with
      isrNesting := n, schedLock := n', reschedulePending := a, switchRequested := b
      totalTicks := x } :=
  h.similar ⟨rfl, fun _ => Alike.refl _, fun _ => .refl _⟩ rfl rfl (fun _ => rfl)
    (h.wf.cur.congr rfl rfl rfl fun _ ht => ht)

theorem rescheduleRequest (h : Sound c) : Sound c.rescheduleRequest := by
  obtain ⟨a, b, e⟩ := rescheduleRequest_eq c
  rw [e]
  exact h.flags

theorem schedRequestPreemption (h : Sound c) : Sound c.schedRequestPreemption := by
  obtain ⟨a, b, e⟩ := schedRequestPreemption_eq c
  rw [e]
  exact h.flags

theorem isrExit (h : Sound c) : Sound c.isrExit := by
  unfold Core.isrExit
  dsimp only
  split
  · exact h
  · split <;> exact h.flags

theorem schedLockTask (h : Sound c) : Sound c.schedLockTask.1 := by
  unfold Core.schedLockTask
  split
  · exact h
  · exact h.flags

theorem schedUnlockTask (h : Sound c) : Sound c.schedUnlockTask.1 := by
  unfold Core.schedUnlockTask
  dsimp only
  split
  · exact h
  · split
    · exact h
    · split <;> exact h.flags

/-- A change to the control block of a task that the invariant does not see. -/
theorem setTask (h : Sound c) {f : Tcb → Tcb} (ha : Alike (c.tasks t) (f (c.tasks t)))
    (hp : (f (c.tasks t)).priority = (c.tasks t).priority)
    (hb : (f (c.tasks t)).basePriority = (c.tasks t).basePriority)
    (hr : (f (c.tasks t)).state = .running → c.cur = some t) : Sound (c.setTask t f) := by
  refine h.similar ⟨rfl, fun u => ?_, fun _ => .refl _⟩ rfl (setTask_priority c t f hp) (fun u => ?_)
    ⟨h.wf.cur.lt, h.wf.cur.none, fun u hu => ?_⟩
  · rw [setTask_apply]
    split
    · rename_i e
      rw [e]
      exact ha
    · exact Alike.refl _
  · rw [setTask_apply]
    split
    · rename_i e
      rw [e]
      exact hb
    · rfl
  · rw [setTask_apply] at hu
    split at hu
    · rename_i e
      rw [e]
      exact hr hu
    · exact h.wf.cur.run u hu

theorem rotate (h : Sound c) : Sound c.schedRotateCurrent := by
  cases hcur : c.cur with
  | none =>
    unfold Core.schedRotateCurrent
    rw [hcur]
    exact h
  | some t =>
  have hr : c.running = true := by
    by_contra hf
    rw [h.wf.cur.none (Bool.not_eq_true _ ▸ hf)] at hcur
    cases hcur
  obtain ⟨q, hq⟩ := h.ready
  obtain ⟨q', hq'⟩ := hq.rotate (fun u => h.wf.isReady_lt) h.wf.cur.lt hr
  have hs : ∃ s, c.schedRotateCurrent = { c with sched := s } := by
    unfold Core.schedRotateCurrent
    split
    · exact ⟨_, rfl⟩
    · exact ⟨_, rfl⟩
  obtain ⟨s, e⟩ := hs
  rw [e] at hq' ⊢
  exact ⟨h.wf.similar ⟨rfl, fun _ => Alike.refl _, fun _ => .refl _⟩ h.wf.bounded
    (h.wf.cur.congr rfl rfl rfl fun _ ht => ht), q', hq'⟩

theorem countTick (h : Sound c) : Sound c.countTick := by
  have h' : Sound { c with totalTicks := c.totalTicks + 1 } := h.flags
  unfold Core.countTick
  dsimp only
  split
  · exact h'
  · exact h'.setTask ⟨rfl, rfl, .inl rfl⟩ rfl rfl (h.wf.cur.run _)

theorem sliceExpire (h : Sound c) : Sound c.sliceExpire := by
  unfold Core.sliceExpire
  split
  · exact h
  · split
    · refine (rotate ?_).rescheduleRequest
      exact h.setTask ⟨rfl, rfl, .inl rfl⟩ rfl rfl (h.wf.cur.run _)
    · exact h

theorem preempt (h : Sound c) : Sound c.preempt := by
  unfold Core.preempt
  split
  · exact h
  · rename_i t ht
    refine h.setTask ?_ ?_ ?_ fun _ => ht
    · split
      · rename_i hs
        exact ⟨rfl, rfl, .inr ⟨.inr hs, .inl rfl⟩⟩
      · exact Alike.refl _
    · split <;> rfl
    · split <;> rfl

omit cfg in
theorem preempt_eq (c : Core) : ∃ f, c.preempt = { c with tasks := f } := by
  unfold Core.preempt
  split
  · exact ⟨_, rfl⟩
  · exact ⟨_, rfl⟩

/-- After the first half of `aixos_schedule` no task is RUNNING. -/
theorem preempt_state (h : Sound c) (t : TaskId) : (c.preempt.tasks t).state ≠ .running := by
  intro hs
  have hc := h.preempt.wf.cur.run t hs
  obtain ⟨f, e⟩ := preempt_eq c
  rw [e] at hc
  have hc : c.cur = some t := hc
  unfold Core.preempt at hs
  rw [hc] at hs
  dsimp only at hs
  rw [setTask_self] at hs
  split at hs
  · cases hs
  · contradiction

/-- `aixos_schedule` gives the processor to a task that is ready. -/
theorem schedule (h : Sound c) (hr : c.running = true) : Sound c.schedule := by
  have hp := h.preempt
  have hrun := preempt_state h
  obtain ⟨f, e⟩ := preempt_eq c
  unfold Core.schedule
  split
  · refine hp.similar ⟨rfl, fun _ => Alike.refl _, fun _ => .refl _⟩ rfl rfl (fun _ => rfl) ⟨?_, ?_, ?_⟩
    · intro t ht
      cases ht
    · exact fun _ => rfl
    · exact fun t ht => absurd ht (hrun t)
  · rename_i t ht
    obtain ⟨q, hq⟩ := hp.ready
    have hready : (c.preempt.tasks t).isReady := by
      have hs : c.preempt.sched.findHighest = some t := by rw [e]; exact ht
      obtain ⟨p, hts, -⟩ := hq.holds.findHighest_eq_some hs
      exact (hq.mem p t (List.mem_of_head? hts)).1
    have h' : Sound { c.preempt with cur := some t } := by
      refine hp.similar ⟨rfl, fun _ => Alike.refl _, fun _ => .refl _⟩ rfl rfl (fun _ => rfl) ⟨?_, ?_, ?_⟩
      · intro u hu
        cases hu
        exact hp.wf.isReady_lt hready
      · intro hf
        rw [e] at hf
        rw [show c.running = false from hf] at hr
        cases hr
      · exact fun u hu => absurd hu (hrun u)
    exact h'.setTask ⟨rfl, rfl, .inr ⟨hready, .inr rfl⟩⟩ rfl rfl fun _ => rfl

theorem contextSwitch (h : Sound c) (hr : c.running = true) : Sound c.contextSwitch :=
  schedule (h.flags) hr

end Sound

end Core

end Aixos
