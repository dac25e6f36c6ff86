import Aixos.Core.Waits

/-!
# The timeout list

Only blocking begins a timeout. Every other step that does not count the tick leaves the clock and the times alone,
and takes tasks off the list at most.

* `TimesKept c c'` — from `c` to `c'` tasks have been taken off the list at most.
* `exec_times` — every step is such, but `block` and `countTick`.
* `blockTask_times` — blocking puts one task in the list, for its time.
-/

namespace Aixos

namespace Core

open OrderedQueue

variable [cfg : Config]

variable {c c' c'' : Core} {t u : TaskId} {r : Code} {o : Op}

/-- The clock and the times at which tasks are to be woken are as before, and nobody is new in the timeout list. -/
def TimesKept (c c' : Core) : Prop :=
  c'.totalTicks = c.totalTicks ∧ c'.timeoutList.Sublist c.timeoutList ∧ c.nextTask ≤ c'.nextTask ∧
    ∀ t < c.nextTask, (c'.tasks t).wakeTick = (c.tasks t).wakeTick

namespace TimesKept

omit cfg in
theorem refl (c : Core) : TimesKept c c := ⟨rfl, .refl _, le_rfl, fun _ _ => rfl⟩

omit cfg in
theorem trans (h : TimesKept c c') (h' : TimesKept c' c'') : TimesKept c c'' := by
  obtain ⟨h₁, h₂, h₃, h₄⟩ := h
  obtain ⟨h₁', h₂', h₃', h₄'⟩ := h'
  exact ⟨h₁'.trans h₁, h₂'.trans h₂, h₃.trans h₃', fun t ht => (h₄' t (ht.trans_le h₃)).trans (h₄ t ht)⟩

omit cfg in
theorem of_eq (h₁ : c'.totalTicks = c.totalTicks) (h₂ : c'.timeoutList = c.timeoutList) (h₃ : c'.nextTask = c.nextTask)
    (h₄ : ∀ t, (c'.tasks t).wakeTick = (c.tasks t).wakeTick) : TimesKept c c' :=
  ⟨h₁, h₂ ▸ .refl _, h₃.ge, fun t _ => h₄ t⟩

omit cfg in
theorem reprio (r : Reprio c c') : TimesKept c c' :=
  .of_eq (by rw [r.rest]) r.timeoutList (by rw [r.rest]) r.wakeTick

omit cfg in
theorem setTask {f : Tcb → Tcb} (h : (f (c.tasks t)).wakeTick = (c.tasks t).wakeTick) : TimesKept c (c.setTask t f) := by
  refine .of_eq rfl rfl rfl fun u => ?_
  rw [setTask_apply]
  split
  · rename_i e
    rw [e, h]
  · rfl

omit cfg in
theorem detached (h : Detached c c' t r) : TimesKept c c' := by
  refine ⟨by rw [h.rest], ?_, by rw [h.rest], fun u _ => ?_⟩
  · rw [h.rest]
    exact List.erase_sublist
  · by_cases e : u = t
    · rw [e, h.self]
    · rw [h.other u e]

end TimesKept

omit cfg in
theorem rescheduleRequest_times (c : Core) : TimesKept c c.rescheduleRequest := by
  obtain ⟨a, b, e⟩ := rescheduleRequest_eq c
  rw [e]
  exact .of_eq rfl rfl rfl fun _ => rfl

theorem schedRequestPreemption_times (c : Core) : TimesKept c c.schedRequestPreemption := by
  obtain ⟨a, b, e⟩ := schedRequestPreemption_eq c
  rw [e]
  exact .of_eq rfl rfl rfl fun _ => rfl

omit cfg in
theorem schedRotateCurrent_times (c : Core) : TimesKept c c.schedRotateCurrent := by
  unfold schedRotateCurrent
  split
  · exact .refl c
  · exact .of_eq rfl rfl rfl fun _ => rfl

omit cfg in
theorem requestIfCur_times (c : Core) (t : TaskId) :
    TimesKept c (if c.cur = some t then c.rescheduleRequest else c) := by
  split
  · exact rescheduleRequest_times c
  · exact .refl c

theorem taskWake_times (hf : Filed c) (t : TaskId) (r : Code) : TimesKept c (c.taskWake t r) := by
  unfold taskWake
  split
  · apply TimesKept.trans ?_ (schedRequestPreemption_times _)
    apply TimesKept.trans (.detached (taskDetachWaitLocked_detached hf t r))
    exact .trans (.setTask (f := fun b => { b with state := .ready }) rfl) (.of_eq rfl rfl rfl fun _ => rfl)
  · exact .refl c

theorem suspendTask_times (hf : Filed c) (t : TaskId) : TimesKept c (c.suspendTask t) := by
  have hd := (taskDetachWaitLocked_detached (c := c.schedRemoveTask t) hf t Code.intr).of_schedRemoveTask
  unfold suspendTask
  dsimp only
  refine .trans (.trans ?_ (.setTask rfl)) (requestIfCur_times _ t)
  split
  · exact .detached hd
  · exact .of_eq rfl rfl rfl fun _ => rfl

theorem deleteTask_times (hf : Filed c) (t : TaskId) : TimesKept c (c.deleteTask t) := by
  have hd := (taskDetachWaitLocked_detached (c := c.schedRemoveTask t) hf t Code.intr).of_schedRemoveTask
  unfold deleteTask
  dsimp only
  set d := (c.schedRemoveTask t).taskDetachWaitLocked t Code.intr with he
  have h₁ : TimesKept c { d with allTasks := d.allTasks.erase t } :=
    (TimesKept.detached hd).trans (.of_eq rfl rfl rfl fun _ => rfl)
  have h₂ := h₁.trans (.setTask (t := t) (f := fun b => { b with state := .stop }) rfl)
  exact h₂.trans (requestIfCur_times _ t)

theorem setPriorityTask_times (c : Core) (t : TaskId) (p : ℕ) : TimesKept c (c.setPriorityTask t p) := by
  unfold setPriorityTask
  dsimp only
  refine .trans (.trans ?_ (.reprio (mutexTaskPriorityChanged_reprio _ t))) (schedRequestPreemption_times _)
  have h₁ : TimesKept c (c.setTask t fun b => { b with basePriority := p, priority := p }) := .setTask rfl
  exact h₁.trans (.of_eq rfl rfl rfl fun _ => rfl)

theorem taskCreateCommon_times (c : Core) (a : CreateArgs) : TimesKept c (c.taskCreateCommon a).1 := by
  have key : TimesKept c (c.newTask a) := by
    refine ⟨rfl, .refl _, Nat.le_succ _, fun u hu => ?_⟩
    rw [c.newTask_ne a hu.ne]
  rcases taskCreateCommon_eq c a with ⟨e, -⟩ | ⟨-, e, -⟩
  · rw [e]
    exact .refl c
  · rw [e]
    split
    · exact key
    · exact key

theorem schedule_times (c : Core) : TimesKept c c.schedule := by
  have hp : TimesKept c c.preempt := by
    unfold preempt
    split
    · exact .refl c
    · refine .setTask ?_
      split <;> rfl
  unfold schedule
  split
  · exact hp
  · exact hp.trans (.setTask (c := { c.preempt with cur := _ }) rfl)

theorem start_times (hr : c.running = false) {memory : Bool} (e : c.start memory = some c') : TimesKept c c' := by
  obtain ⟨c₂, e₂, rfl⟩ := start_eq_some hr e
  obtain ⟨s, e⟩ := addReadyTasks_rest c₂.allTasks c₂
  have h₂ : TimesKept c c₂ := by
    rw [e₂]
    exact (taskCreateCommon_times c _).trans (taskCreateCommon_times _ _)
  rw [e]
  exact h₂.trans (schedule_times { c₂ with sched := s, running := true })

theorem mutexRelease_times (hf : Filed c) (m : ℕ) (t : TaskId) : TimesKept c (c.mutexRelease m t) := by
  unfold mutexRelease
  dsimp only
  set d := c.setTask t fun b => { b with heldMutexes := b.heldMutexes.erase m } with hd
  have hfd : Filed d := setTask_filed hf rfl
  have h₁ : TimesKept c d := .setTask rfl
  refine .trans (.trans h₁ ?_) (.reprio (recompute_reprio _ _))
  split
  · rename_i next rest hw
    have h₂ : TimesKept d (d.mutexAcquire m next) :=
      .setTask (c := d.setMutex m fun _ => { owner := some next, lockCount := 1 }) rfl
    exact h₂.trans (taskWake_times (mutexAcquire_filed hfd m next) next Code.ok)
  · exact .refl d

theorem mutexDestroy_times (c : Core) (m : ℕ) : TimesKept c (c.mutexDestroy m) := by
  unfold mutexDestroy
  dsimp only
  split
  · exact .of_eq rfl rfl rfl fun _ => rfl
  · rename_i o _
    split
    · have h₁ : TimesKept c (c.setTask o fun b => { b with heldMutexes := b.heldMutexes.erase m }) := .setTask rfl
      exact (h₁.trans (.reprio (recompute_reprio _ (some o)))).trans (.of_eq rfl rfl rfl fun _ => rfl)
    · exact .of_eq rfl rfl rfl fun _ => rfl

theorem sliceExpire_times (c : Core) : TimesKept c c.sliceExpire := by
  unfold sliceExpire
  split
  · exact .refl c
  · rename_i t _
    split
    · have h₁ : TimesKept c (c.setTask t fun b => { b with timeSlice := cfg.timeSliceTicks }) := .setTask rfl
      exact (h₁.trans (schedRotateCurrent_times _)).trans (rescheduleRequest_times _)
    · exact .refl c

/-- **Only blocking begins a timeout**, and only the tick moves the clock. -/
theorem exec_times (hf : Filed c) (he : c.Enabled o) (hb : ∀ t w ms, o ≠ .block t w ms) (hc : o ≠ .countTick) :
    TimesKept c (c.exec o) := by
  cases o with
  | wake t r => exact taskWake_times hf t r
  | timeout t r => exact taskWake_times hf t r
  | block t w ms => exact absurd rfl (hb t w ms)
  | yield => exact (schedRotateCurrent_times c).trans (rescheduleRequest_times _)
  | countTick => exact absurd rfl hc
  | sliceExpire => exact sliceExpire_times c
  | suspend t => exact suspendTask_times hf t
  | resume t =>
    exact .trans (.setTask (f := fun b => { b with state := .ready }) rfl) (schedRequestPreemption_times _)
  | setPriority t p => exact setPriorityTask_times c t p
  | create a => exact taskCreateCommon_times c a
  | delete t => exact deleteTask_times hf t
  | start memory =>
    obtain ⟨hr, he⟩ := he
    obtain ⟨c', e⟩ := Option.isSome_iff_exists.mp he
    rw [Core.exec, e]
    exact start_times hr e
  | switch => exact schedule_times { c with switchRequested := false }
  | isrEnter => exact .refl c
  | isrExit =>
    show TimesKept c c.isrExit
    unfold Core.isrExit
    dsimp only
    split
    · exact .refl c
    · split <;> exact .refl c
  | lock =>
    show TimesKept c c.schedLockTask.1
    unfold schedLockTask
    split <;> exact .refl c
  | unlock =>
    show TimesKept c c.schedUnlockTask.1
    unfold schedUnlockTask
    dsimp only
    split
    · exact .refl c
    · split
      · exact .refl c
      · split <;> exact .refl c
  | alloc k i => exact .of_eq rfl rfl rfl fun _ => rfl
  | allocMutex i => exact .of_eq rfl rfl rfl fun _ => rfl
  | free k i => exact .refl c
  | acquire m t => exact .setTask (c := c.setMutex m fun _ => { owner := some t, lockCount := 1 }) rfl
  | relock m n => exact .refl c
  | release m t => exact mutexRelease_times hf m t
  | destroy m => exact mutexDestroy_times c m

/-- **Blocking** puts the task in the timeout list, for its time, unless it is to wait forever. -/
theorem blockTask_times (c : Core) (t : TaskId) (w : Wait) (ms : Word) :
    (c.blockTask t w ms).totalTicks = c.totalTicks ∧
    (∀ u ≠ t, ((c.blockTask t w ms).tasks u).wakeTick = (c.tasks u).wakeTick) ∧
    (msToTicks ms ≠ forever → ((c.blockTask t w ms).tasks t).wakeTick = c.getTick + msToTicks ms) ∧
    (c.blockTask t w ms).timeoutList =
      if msToTicks ms = forever then c.timeoutList
      else insertBefore (fun u => (c.getTick + msToTicks ms -
        ((c.blockTask t w ms).tasks u).wakeTick).msb) t c.timeoutList := by
  obtain ⟨wl, e, -⟩ := blockLink_eq c t w
  have r : Reprio (c.blockLink t w) ((c.blockLink t w).mutexWaiterChanged t) := mutexWaiterChanged_reprio ..
  rw [blockTask_eq]
  obtain ⟨a, b, e'⟩ := rescheduleRequest_eq (((c.blockLink t w).mutexWaiterChanged t).timeoutStart t ms)
  rw [e']
  dsimp only
  set d := (c.blockLink t w).mutexWaiterChanged t with hd
  have hticks : d.totalTicks = c.totalTicks := by
    rw [r.rest, e]
    rfl
  have hlist : d.timeoutList = c.timeoutList := by
    rw [r.timeoutList, e]
    rfl
  have hwake : ∀ u ≠ t, (d.tasks u).wakeTick = (c.tasks u).wakeTick := by
    intro u hu
    rw [r.wakeTick u, e, setTask_ne _ _ _ hu]
  have hnow : d.getTick = c.getTick := by rw [getTick, hticks, getTick]
  unfold timeoutStart
  split
  · rename_i hf
    exact ⟨hticks, hwake, fun hne => absurd hf hne, hlist⟩
  · rename_i hf
    refine ⟨hticks, fun u hu => ?_, fun _ => ?_, ?_⟩
    · simp [timeoutInsert, hu, hwake u hu]
    · simp [timeoutInsert, hnow]
    · simp [timeoutInsert, hlist, hnow]

end Core

end Aixos
