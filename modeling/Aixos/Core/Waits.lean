import Aixos.Core.Invariant

/-!
# Who waits, and until when

Only blocking begins a wait. Every other step either ends the wait of a task or leaves it
alone, with its result and its timeout.

* `Ended E c c'` — from `c` to `c'` waits have only ended, those of `E`, with the results `E` says.
* `exec_ended` — every step but `block` is such; `Op.Ends` says for each whose wait ends.
* `WaitsKept c c'` — the tasks that wait in `c'` waited in `c` already, for the same, and
  with a timeout if they had one.
-/

namespace Aixos

namespace Core

open OrderedQueue

variable [cfg : Config]

variable {c c' c'' : Core} {t u : TaskId} {E F : TaskId → Code → Prop}

/-- Nothing about waiting has changed, but for tasks whose wait has ended as `E` says. -/
def Ended (E : TaskId → Code → Prop) (c c' : Core) : Prop :=
  ∀ t, ((c'.tasks t).wait = (c.tasks t).wait ∧ (c'.tasks t).waitResult = (c.tasks t).waitResult ∧
      (t ∈ c'.timeoutList ↔ t ∈ c.timeoutList)) ∨
    (c'.tasks t).wait = none ∧ E t (c'.tasks t).waitResult

namespace Ended

omit cfg in
theorem refl (c : Core) : Ended E c c := fun _ => .inl ⟨rfl, rfl, Iff.rfl⟩

omit cfg in
theorem trans (h : Ended E c c') (h' : Ended E c' c'') : Ended E c c'' := by
  intro t
  rcases h' t with ⟨e₁, e₂, e₃⟩ | h'
  · rcases h t with ⟨e₁', e₂', e₃'⟩ | ⟨h₁, h₂⟩
    · exact .inl ⟨e₁.trans e₁', e₂.trans e₂', e₃.trans e₃'⟩
    · exact .inr ⟨e₁.trans h₁, e₂ ▸ h₂⟩
  · exact .inr h'

omit cfg in
theorem mono (h : Ended E c c') (hEF : ∀ t x, E t x → F t x) : Ended F c c' :=
  fun t => (h t).imp_right fun ⟨h₁, h₂⟩ => ⟨h₁, hEF _ _ h₂⟩

omit cfg in
/-- Nothing about waiting has changed. -/
theorem of_eq (hw : ∀ t, (c'.tasks t).wait = (c.tasks t).wait)
    (hr : ∀ t, (c'.tasks t).waitResult = (c.tasks t).waitResult)
    (ht : c'.timeoutList = c.timeoutList) : Ended E c c' :=
  fun t => .inl ⟨hw t, hr t, by rw [ht]⟩

omit cfg in
theorem reprio (r : Reprio c c') : Ended E c c' :=
  .of_eq r.wait (fun t => by rw [r.task t]) r.timeoutList

omit cfg in
theorem owned {m : ℕ} {o : Option TaskId} (h : Owned c c' m o) : Ended E c c' :=
  .of_eq (fun t => by rw [h.task t]) (fun t => by rw [h.task t]) (by rw [h.rest])

omit cfg in
theorem setTask {f : Tcb → Tcb} (h : (f (c.tasks t)).wait = (c.tasks t).wait)
    (hr : (f (c.tasks t)).waitResult = (c.tasks t).waitResult) : Ended E c (c.setTask t f) := by
  refine .of_eq (fun u => ?_) (fun u => ?_) rfl
  · rw [setTask_apply]
    split
    · rename_i e
      rw [e, h]
    · rfl
  · rw [setTask_apply]
    split
    · rename_i e
      rw [e, hr]
    · rfl

omit cfg in
/-- Detaching a task ends its wait only. -/
theorem detached {r : Code} (h : Detached c c' t r) (hE : E t r) : Ended E c c' := by
  intro u
  by_cases e : u = t
  · right
    rw [e, h.self]
    exact ⟨rfl, hE⟩
  · left
    rw [h.other u e]
    refine ⟨rfl, rfl, ?_⟩
    rw [h.rest]
    exact List.mem_erase_of_ne e

end Ended

omit cfg in
theorem rescheduleRequest_ended (c : Core) : Ended E c c.rescheduleRequest := by
  obtain ⟨a, b, e⟩ := rescheduleRequest_eq c
  rw [e]
  exact .refl c

theorem schedRequestPreemption_ended (c : Core) : Ended E c c.schedRequestPreemption := by
  obtain ⟨a, b, e⟩ := schedRequestPreemption_eq c
  rw [e]
  exact .refl c

omit cfg in
theorem schedRotateCurrent_ended (c : Core) : Ended E c c.schedRotateCurrent := by
  unfold schedRotateCurrent
  split
  · exact .refl c
  · exact .refl c

theorem taskWake_ended (hf : Filed c) {r : Code}
    (hE : (c.tasks t).state = .blocked ∨ (c.tasks t).state = .delayed → E t r) : Ended E c (c.taskWake t r) := by
  unfold taskWake
  split
  · rename_i hw
    refine .trans ?_ (schedRequestPreemption_ended _)
    refine .trans (.detached (taskDetachWaitLocked_detached hf t r) (hE hw)) ?_
    exact .setTask (f := fun b => { b with state := .ready }) rfl rfl
  · exact .refl c

/-- A task that is woken waits no longer, and has the result. -/
theorem taskWake_self (hf : Filed c) (hw : (c.tasks t).state = .blocked ∨ (c.tasks t).state = .delayed) (r : Code) :
    ((c.taskWake t r).tasks t).wait = none ∧ ((c.taskWake t r).tasks t).waitResult = r := by
  have hd := taskDetachWaitLocked_detached hf t r
  unfold taskWake
  rw [if_pos hw]
  obtain ⟨a, b, e⟩ := schedRequestPreemption_eq
      (((c.taskDetachWaitLocked t r).setTask t fun b => { b with state := .ready }).schedAddTask t)
  dsimp only
  rw [e]
  dsimp only
  rw [schedAddTask_tasks, setTask_self, hd.self]
  exact ⟨rfl, rfl⟩

omit cfg in
theorem requestIfCur_ended (c : Core) (t : TaskId) :
    Ended E c (if c.cur = some t then c.rescheduleRequest else c) := by
  split
  · exact rescheduleRequest_ended c
  · exact .refl c

theorem suspendTask_ended (hf : Filed c)
    (hE : (c.tasks t).state = .blocked ∨ (c.tasks t).state = .delayed → E t Code.intr) :
    Ended E c (c.suspendTask t) := by
  have hd := (taskDetachWaitLocked_detached (c := c.schedRemoveTask t) hf t Code.intr).of_schedRemoveTask
  unfold suspendTask
  dsimp only
  refine .trans (.trans ?_ (.setTask rfl rfl)) (requestIfCur_ended _ t)
  split
  · rename_i hw
    exact .detached hd (hE hw)
  · exact .refl c

theorem deleteTask_ended (hf : Filed c) (hE : E t Code.intr) : Ended E c (c.deleteTask t) := by
  have hd := (taskDetachWaitLocked_detached (c := c.schedRemoveTask t) hf t Code.intr).of_schedRemoveTask
  unfold deleteTask
  dsimp only
  set d := (c.schedRemoveTask t).taskDetachWaitLocked t Code.intr with he
  have h₁ : Ended E c { d with allTasks := d.allTasks.erase t } :=
    (Ended.detached hd hE).trans (.of_eq (fun _ => rfl) (fun _ => rfl) rfl)
  have h₂ := h₁.trans (.setTask (t := t) (f := fun b => { b with state := .stop }) rfl rfl)
  exact h₂.trans (requestIfCur_ended _ t)

theorem setPriorityTask_ended (c : Core) (t : TaskId) (p : ℕ) : Ended E c (c.setPriorityTask t p) := by
  unfold setPriorityTask
  dsimp only
  refine .trans (.trans ?_ (.reprio (mutexTaskPriorityChanged_reprio _ t))) (schedRequestPreemption_ended _)
  exact .setTask (f := fun b => { b with basePriority := p, priority := p }) rfl rfl

theorem taskCreateCommon_ended (a : CreateArgs) (hE : E c.nextTask Code.ok) :
    Ended E c (c.taskCreateCommon a).1 := by
  have key : Ended E c (c.newTask a) := by
    intro u
    by_cases e : u = c.nextTask
    · right
      rw [e, newTask_self]
      exact ⟨rfl, hE⟩
    · left
      rw [c.newTask_ne a e]
      exact ⟨rfl, rfl, Iff.rfl⟩
  rcases taskCreateCommon_eq c a with ⟨e, -⟩ | ⟨-, e, -⟩
  · rw [e]
    exact .refl c
  · rw [e]
    split
    · exact key
    · exact key

theorem taskCreateCommon_nextTask (c : Core) (a : CreateArgs) : c.nextTask ≤ (c.taskCreateCommon a).1.nextTask := by
  rcases taskCreateCommon_eq c a with ⟨e, -⟩ | ⟨-, e, -⟩
  · rw [e]
  · rw [e]
    split <;> exact Nat.le_succ _

theorem schedule_ended (c : Core) : Ended E c c.schedule := by
  have hp : Ended E c c.preempt := by
    unfold preempt
    split
    · exact .refl c
    · refine .setTask ?_ ?_ <;> split <;> rfl
  unfold schedule
  split
  · exact hp
  · exact hp.trans (.setTask (c := { c.preempt with cur := _ }) rfl rfl)

theorem start_ended (hr : c.running = false) {memory : Bool} (e : c.start memory = some c')
    (hE : ∀ t, c.nextTask ≤ t → E t Code.ok) : Ended E c c' := by
  obtain ⟨c₂, e₂, rfl⟩ := start_eq_some hr e
  obtain ⟨s, e⟩ := addReadyTasks_rest c₂.allTasks c₂
  have h₂ : Ended E c c₂ := by
    rw [e₂]
    refine (taskCreateCommon_ended _ (hE _ le_rfl)).trans (taskCreateCommon_ended _ (hE _ ?_))
    exact taskCreateCommon_nextTask ..
  rw [e]
  exact h₂.trans (schedule_ended { c₂ with sched := s, running := true })

omit cfg in
theorem setTask_filed (h : Filed c) {f : Tcb → Tcb} (hf : (f (c.tasks t)).wait = (c.tasks t).wait) :
    Filed (c.setTask t f) := by
  intro l u hu
  rw [setTask_apply]
  split
  · rename_i e
    rw [hf, ← e]
    exact h l u hu
  · exact h l u hu

omit cfg in
theorem mutexAcquire_filed (h : Filed c) (m : ℕ) (t : TaskId) : Filed (c.mutexAcquire m t) :=
  setTask_filed (c := c.setMutex m fun _ => { owner := some t, lockCount := 1 }) h rfl

theorem mutexRelease_ended (hf : Filed c) {m : ℕ}
    (hE : ∀ next rest, c.waitLists (.mutex m) = next :: rest → E next Code.ok) :
    Ended E c (c.mutexRelease m t) := by
  unfold mutexRelease
  dsimp only
  set d := c.setTask t fun b => { b with heldMutexes := b.heldMutexes.erase m } with hd
  have hfd : Filed d := setTask_filed hf rfl
  have h₁ : Ended E c d := .setTask rfl rfl
  refine .trans (.trans h₁ ?_) (.reprio (recompute_reprio _ _))
  split
  · rename_i next rest hw
    have h₂ : Ended E d (d.mutexAcquire m next) :=
      .setTask (c := d.setMutex m fun _ => { owner := some next, lockCount := 1 }) rfl rfl
    exact h₂.trans (taskWake_ended (mutexAcquire_filed hfd m next) fun _ => hE next rest hw)
  · exact .refl d

theorem mutexDestroy_ended (c : Core) (m : ℕ) : Ended E c (c.mutexDestroy m) := by
  unfold mutexDestroy
  dsimp only
  split
  · exact .of_eq (fun _ => rfl) (fun _ => rfl) rfl
  · rename_i o _
    split
    · have h₁ : Ended E c (c.setTask o fun b => { b with heldMutexes := b.heldMutexes.erase m }) :=
        .setTask rfl rfl
      exact (h₁.trans (.reprio (recompute_reprio _ (some o)))).trans (.of_eq (fun _ => rfl) (fun _ => rfl) rfl)
    · exact .of_eq (fun _ => rfl) (fun _ => rfl) rfl

/-- Whose wait a step ends, and with which result. New control blocks count, too. -/
def Op.Ends (c : Core) : Op → TaskId → Code → Prop
  | .wake t r, u, x | .timeout t r, u, x => u = t ∧ x = r ∧ (c.tasks t).wait ≠ none
  | .suspend t, u, x => u = t ∧ x = Code.intr ∧ (c.tasks t).wait ≠ none
  | .delete t, u, x => u = t ∧ x = Code.intr
  | .release m _, u, x => (∃ rest, c.waitLists (.mutex m) = u :: rest) ∧ x = Code.ok
  | .create _, u, x | .start _, u, x => c.nextTask ≤ u ∧ x = Code.ok
  | _, _, _ => False

/-- **Only blocking begins a wait**, and every other step ends only the waits it says. -/
theorem exec_ended (h : Sound c) {o : Op} (he : c.Enabled o) (hb : ∀ t w ms, o ≠ .block t w ms) :
    Ended (o.Ends c) c (c.exec o) := by
  have hf := h.wf.isFiled
  cases o with
  | wake t r => exact taskWake_ended hf fun hw => ⟨rfl, rfl, (h.wf.waiting t).mpr hw⟩
  | timeout t r => exact taskWake_ended hf fun hw => ⟨rfl, rfl, (h.wf.waiting t).mpr hw⟩
  | block t w ms => exact absurd rfl (hb t w ms)
  | yield => exact (schedRotateCurrent_ended c).trans (rescheduleRequest_ended _)
  | countTick =>
    show Ended _ c c.countTick
    unfold countTick
    dsimp only
    split
    · exact .refl c
    · exact .setTask (c := { c with totalTicks := _ }) rfl rfl
  | sliceExpire =>
    show Ended _ c c.sliceExpire
    unfold sliceExpire
    split
    · exact .refl c
    · rename_i t _
      split
      · have h₁ : Ended (Op.sliceExpire.Ends c) c (c.setTask t fun b => { b with timeSlice := cfg.timeSliceTicks }) :=
          .setTask rfl rfl
        exact (h₁.trans (schedRotateCurrent_ended _)).trans (rescheduleRequest_ended _)
      · exact .refl c
  | suspend t => exact suspendTask_ended hf fun hw => ⟨rfl, rfl, (h.wf.waiting t).mpr hw⟩
  | resume t =>
    exact .trans (.setTask (f := fun b => { b with state := .ready }) rfl rfl) (schedRequestPreemption_ended _)
  | setPriority t p => exact setPriorityTask_ended c t p
  | create a => exact taskCreateCommon_ended a ⟨le_rfl, rfl⟩
  | delete t => exact deleteTask_ended hf ⟨rfl, rfl⟩
  | start memory =>
    obtain ⟨hr, he⟩ := he
    obtain ⟨c', e⟩ := Option.isSome_iff_exists.mp he
    rw [Core.exec, e]
    exact start_ended hr e fun t ht => ⟨ht, rfl⟩
  | switch => exact schedule_ended { c with switchRequested := false }
  | isrEnter => exact .refl c
  | isrExit =>
    show Ended _ c c.isrExit
    unfold Core.isrExit
    dsimp only
    split
    · exact .refl c
    · split <;> exact .refl c
  | lock =>
    show Ended _ c c.schedLockTask.1
    unfold schedLockTask
    split <;> exact .refl c
  | unlock =>
    show Ended _ c c.schedUnlockTask.1
    unfold schedUnlockTask
    dsimp only
    split
    · exact .refl c
    · split
      · exact .refl c
      · split <;> exact .refl c
  | alloc k i => exact .of_eq (fun _ => rfl) (fun _ => rfl) rfl
  | allocMutex i => exact .of_eq (fun _ => rfl) (fun _ => rfl) rfl
  | free k i => exact .refl c
  | acquire m t => exact .owned (h.wf.toLists.mutexAcquire he.2.1 t)
  | relock m n => exact .refl c
  | release m t => exact mutexRelease_ended hf fun next rest e => ⟨⟨rest, e⟩, rfl⟩
  | destroy m => exact mutexDestroy_ended c m

/-- Whoever waits in `c'` did so in `c`. -/
def WaitsKept (c c' : Core) : Prop :=
  ∀ t, (c'.tasks t).wait ≠ none →
    (c'.tasks t).wait = (c.tasks t).wait ∧ (t ∈ c'.timeoutList ↔ t ∈ c.timeoutList)

omit cfg in
theorem WaitsKept.trans (h : WaitsKept c c') (h' : WaitsKept c' c'') : WaitsKept c c'' := by
  intro t ht
  obtain ⟨e, i⟩ := h' t ht
  rw [e] at ht
  obtain ⟨e', i'⟩ := h t ht
  exact ⟨e.trans e', i.trans i'⟩

omit cfg in
theorem Ended.waitsKept (h : Ended E c c') : WaitsKept c c' := by
  intro t ht
  rcases h t with ⟨e, -, i⟩ | ⟨e, -⟩
  · exact ⟨e, i⟩
  · exact absurd e ht

theorem exec_waits (h : Sound c) {o : Op} (he : c.Enabled o) (hb : ∀ t w ms, o ≠ .block t w ms) :
    WaitsKept c (c.exec o) := (exec_ended h he hb).waitsKept

/-- A task that blocks waits. -/
theorem blockTask_self (c : Core) (t : TaskId) (w : Wait) (ms : Word) :
    ((c.blockTask t w ms).tasks t).wait = some w ∧ ((c.blockTask t w ms).tasks t).waitResult = Code.ok := by
  obtain ⟨wl, e, -⟩ := blockLink_eq c t w
  have r : Reprio (c.blockLink t w) ((c.blockLink t w).mutexWaiterChanged t) := mutexWaiterChanged_reprio ..
  rw [blockTask_eq]
  obtain ⟨a, b, e'⟩ := rescheduleRequest_eq (((c.blockLink t w).mutexWaiterChanged t).timeoutStart t ms)
  rw [e']
  dsimp only
  set d := (c.blockLink t w).mutexWaiterChanged t with hd
  have hself : (d.tasks t).wait = some w ∧ (d.tasks t).waitResult = Code.ok := by
    rw [r.task t, e, setTask_self]
    exact ⟨rfl, rfl⟩
  unfold timeoutStart
  split
  · exact hself
  · simpa [timeoutInsert] using hself

/-- **Blocking begins one wait**, with a timeout unless it is to last forever. -/
theorem blockTask_waits (h : Sound c) {w : Wait} (hb : MayBlock c t w) (ms : Word) :
    ((c.blockTask t w ms).tasks t).wait = some w ∧
    (t ∈ (c.blockTask t w ms).timeoutList ↔ msToTicks ms ≠ forever) ∧
    ∀ u, u ≠ t → ((c.blockTask t w ms).tasks u).wait = (c.tasks u).wait ∧
      ((c.blockTask t w ms).tasks u).waitResult = (c.tasks u).waitResult ∧
      (u ∈ (c.blockTask t w ms).timeoutList ↔ u ∈ c.timeoutList) := by
  have hw : (c.tasks t).wait = none := h.wf.wait_eq_none_of_isReady (.inr hb.state)
  have hm : t ∉ c.timeoutList := h.wf.not_mem_timeoutList hw
  refine ⟨(blockTask_self c t w ms).1, ?_⟩
  obtain ⟨wl, e, -⟩ := blockLink_eq c t w
  have r : Reprio (c.blockLink t w) ((c.blockLink t w).mutexWaiterChanged t) := mutexWaiterChanged_reprio ..
  rw [blockTask_eq]
  obtain ⟨a, b, e'⟩ := rescheduleRequest_eq (((c.blockLink t w).mutexWaiterChanged t).timeoutStart t ms)
  rw [e']
  dsimp only
  set d := (c.blockLink t w).mutexWaiterChanged t with hd
  have hother : ∀ u, u ≠ t → (d.tasks u).wait = (c.tasks u).wait ∧
      (d.tasks u).waitResult = (c.tasks u).waitResult := by
    intro u hu
    rw [r.task u, e, setTask_ne _ _ _ hu]
    exact ⟨rfl, rfl⟩
  have hlist : d.timeoutList = c.timeoutList := by
    rw [r.timeoutList, e]
    rfl
  unfold timeoutStart
  split
  · rename_i hf
    rw [hlist]
    exact ⟨by simp [hm, hf], fun u hu => ⟨(hother u hu).1, (hother u hu).2, Iff.rfl⟩⟩
  · rename_i hf
    refine ⟨?_, fun u hu => ⟨?_, ?_, ?_⟩⟩
    · simp [timeoutInsert, hf]
    · simp [timeoutInsert, hu, (hother u hu).1]
    · simp [timeoutInsert, hu, (hother u hu).2]
    · simp [timeoutInsert, hu, hlist]

/-! ### Waking, whatever lists the task is in -/

/-- The removal from the wait list, whatever it is followed by, changes nothing but priorities. -/
theorem detachWaitNode_eq (c : Core) (t : TaskId) : ∃ wl, Reprio { c with waitLists := wl } (c.detachWaitNode t) := by
  unfold detachWaitNode
  split
  · exact ⟨_, .refl c⟩
  · split
    · exact ⟨_, mutexWaiterChanged_reprio _ _⟩
    · exact ⟨_, .refl c⟩

/-- What detaching a task leaves alone, whatever lists it is in. -/
theorem taskDetachWaitLocked_keeps (c : Core) (t : TaskId) (r : Code) :
    (c.taskDetachWaitLocked t r).totalTicks = c.totalTicks ∧
    (∀ u, ((c.taskDetachWaitLocked t r).tasks u).wakeTick = (c.tasks u).wakeTick) ∧
    (∀ u, ((c.taskDetachWaitLocked t r).tasks u).state = (c.tasks u).state) ∧
    (∀ u ≠ t, ((c.taskDetachWaitLocked t r).tasks u).waitResult = (c.tasks u).waitResult) ∧
    ((c.taskDetachWaitLocked t r).tasks t).waitResult = r := by
  obtain ⟨wl, hr⟩ := c.detachWaitNode_eq t
  unfold taskDetachWaitLocked
  generalize c.detachWaitNode t = d at hr
  refine ⟨?_, fun u => ?_, fun u => ?_, fun u hu => ?_, ?_⟩
  · show d.totalTicks = c.totalTicks
    rw [hr.rest]
  · rw [setTask_apply]
    split
    · rename_i e
      rw [e]
      exact hr.wakeTick t
    · exact hr.wakeTick u
  · rw [setTask_apply]
    split
    · rename_i e
      rw [e]
      exact hr.state t
    · exact hr.state u
  · rw [setTask_ne _ _ _ hu]
    show (d.tasks u).waitResult = (c.tasks u).waitResult
    rw [hr.task u]
  · rw [setTask_self]

/-- What waking a task does to the times, the states and the clock. -/
structure WokenUp (c c' : Core) (t : TaskId) (r : Code) : Prop where
  totalTicks : c'.totalTicks = c.totalTicks
  wakeTick : ∀ u, (c'.tasks u).wakeTick = (c.tasks u).wakeTick
  other : ∀ u ≠ t, (c'.tasks u).state = (c.tasks u).state ∧ (c'.tasks u).waitResult = (c.tasks u).waitResult
  self : (c'.tasks t).state = .ready ∧ (c'.tasks t).waitResult = r

theorem taskWake_wokenUp (hw : (c.tasks t).state = .blocked ∨ (c.tasks t).state = .delayed) (r : Code) :
    WokenUp c (c.taskWake t r) t r := by
  obtain ⟨htotal, hwake, hstate, hother, hresult⟩ := c.taskDetachWaitLocked_keeps t r
  unfold taskWake
  rw [if_pos hw]
  generalize c.taskDetachWaitLocked t r = d at *
  obtain ⟨a, b, e⟩ := schedRequestPreemption_eq ((d.setTask t fun b => { b with state := .ready }).schedAddTask t)
  dsimp only
  rw [e]
  refine ⟨htotal, fun u => ?_, fun u hu => ?_, ?_⟩
  · rw [schedAddTask_tasks, setTask_apply]
    split
    · rename_i e
      rw [e]
      exact hwake t
    · exact hwake u
  · rw [schedAddTask_tasks, setTask_ne _ _ _ hu]
    exact ⟨hstate u, hother u hu⟩
  · rw [schedAddTask_tasks, setTask_self]
    exact ⟨rfl, hresult⟩

/-! ### The scheduler stays started -/

omit cfg in
theorem rescheduleRequest_running (c : Core) : c.rescheduleRequest.running = c.running := by
  obtain ⟨a, b, e⟩ := rescheduleRequest_eq c
  rw [e]

theorem schedRequestPreemption_running (c : Core) : c.schedRequestPreemption.running = c.running := by
  obtain ⟨a, b, e⟩ := schedRequestPreemption_eq c
  rw [e]

omit cfg in
theorem schedRotateCurrent_running (c : Core) : c.schedRotateCurrent.running = c.running := by
  unfold schedRotateCurrent
  split <;> rfl

omit cfg in
theorem Reprio.running (r : Reprio c c') : c'.running = c.running := by rw [r.rest]

theorem taskWake_running (hf : Filed c) (t : TaskId) (r : Code) :
    (c.taskWake t r).running = c.running := by
  obtain ⟨_, _, _, _, _, _, e⟩ := taskWake_rest hf t r
  rw [e]

theorem taskDetachWaitLocked_running (hf : Filed c) (t : TaskId) (r : Code) :
    (c.taskDetachWaitLocked t r).running = c.running := by
  rw [(taskDetachWaitLocked_detached hf t r).rest]

omit cfg in
theorem requestIfCur_running (c : Core) (t : TaskId) :
    (if c.cur = some t then c.rescheduleRequest else c).running = c.running := by
  split
  · exact rescheduleRequest_running c
  · rfl

theorem blockTask_running (c : Core) (t : TaskId) (w : Wait) (ms : Word) :
    (c.blockTask t w ms).running = c.running := by
  obtain ⟨wl, e, -⟩ := blockLink_eq c t w
  rw [blockTask_eq, rescheduleRequest_running]
  have h₁ : ((c.blockLink t w).mutexWaiterChanged t).running = c.running := by
    rw [(mutexWaiterChanged_reprio _ t).running, e]
    rfl
  unfold timeoutStart
  split
  · exact h₁
  · exact h₁

theorem taskCreateCommon_running (c : Core) (a : CreateArgs) :
    (c.taskCreateCommon a).1.running = c.running := by
  rcases taskCreateCommon_eq c a with ⟨e, -⟩ | ⟨-, e, -⟩
  · rw [e]
  · rw [e]
    split <;> rfl

omit cfg in
theorem preempt_running (c : Core) : c.preempt.running = c.running := by
  unfold preempt
  split <;> rfl

theorem schedule_running (c : Core) : c.schedule.running = c.running := by
  unfold schedule
  split <;> exact preempt_running c

/-- **Nothing stops the scheduler.** -/
theorem exec_running (hf : Filed c) (hr : c.running = true) (o : Op) (he : c.Enabled o) :
    (c.exec o).running = true := by
  cases o with
  | wake t r => exact (taskWake_running hf t r).trans hr
  | timeout t r => exact (taskWake_running hf t r).trans hr
  | block t w ms => exact (blockTask_running c t w ms).trans hr
  | yield => exact (rescheduleRequest_running _).trans ((schedRotateCurrent_running c).trans hr)
  | countTick =>
    show c.countTick.running = true
    unfold countTick
    dsimp only
    split <;> exact hr
  | sliceExpire =>
    show c.sliceExpire.running = true
    unfold sliceExpire
    split
    · exact hr
    · split
      · exact (rescheduleRequest_running _).trans ((schedRotateCurrent_running _).trans hr)
      · exact hr
  | suspend t =>
    refine (requestIfCur_running _ t).trans ?_
    rw [setTask_running]
    split
    · exact (taskDetachWaitLocked_running (c := c.schedRemoveTask t) hf t Code.intr).trans hr
    · exact hr
  | resume t => exact (schedRequestPreemption_running _).trans hr
  | setPriority t p =>
    exact (schedRequestPreemption_running _).trans ((mutexTaskPriorityChanged_reprio _ t).running.trans hr)
  | create a => exact (taskCreateCommon_running c a).trans hr
  | delete t =>
    exact (requestIfCur_running _ t).trans
      ((taskDetachWaitLocked_running (c := c.schedRemoveTask t) hf t Code.intr).trans hr)
  | start memory =>
    rw [he.1] at hr
    cases hr
  | switch => exact (schedule_running _).trans hr
  | isrEnter => exact hr
  | isrExit =>
    show c.isrExit.running = true
    unfold Core.isrExit
    dsimp only
    split
    · exact hr
    · split <;> exact hr
  | lock =>
    show c.schedLockTask.1.running = true
    unfold schedLockTask
    split <;> exact hr
  | unlock =>
    show c.schedUnlockTask.1.running = true
    unfold schedUnlockTask
    dsimp only
    split
    · exact hr
    · split
      · exact hr
      · split <;> exact hr
  | alloc k i => exact hr
  | allocMutex i => exact hr
  | free k i => exact hr
  | acquire m t => exact hr
  | relock m n => exact hr
  | release m t =>
    refine (recompute_reprio _ _).running.trans ?_
    have hfd : Filed (c.setTask t fun b => { b with heldMutexes := b.heldMutexes.erase m }) :=
      setTask_filed hf rfl
    split
    · exact (taskWake_running (mutexAcquire_filed hfd m _) _ _).trans hr
    · exact hr
  | destroy m =>
    show (c.mutexDestroy m).running = true
    unfold mutexDestroy
    dsimp only
    split
    · exact hr
    · split
      · exact (recompute_reprio _ _).running.trans hr
      · exact hr

end Core

end Aixos
