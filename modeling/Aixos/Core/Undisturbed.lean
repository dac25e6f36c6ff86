import Aixos.Core.Waits

/-!
# Steps that the scheduler does not notice

A step that leaves the set of ready tasks and their priorities as they were, and that is not about taking turns itself,
leaves the ready structure, the current task, the time slices and a pending switch as they were.

* `ReadyKept c c'` — the ready tasks and their priorities are the same.
* `Undisturbed c c'` — what the scheduler goes by is the same.
* `recompute_undisturbed` — the walk changes the priority of a ready task, or does not matter.
* `still_path`, `single_undisturbed` — what the calls are made of.
-/

namespace Aixos

open Transition

namespace Core

open Sched

variable [cfg : Config]

variable {c c' c'' : Core} {t u : TaskId} {r : Code} {o : Op}

/-- A switch has been requested and not been taken. -/
def SwitchPending (c : Core) : Prop := c.switchRequested = true ∨ c.reschedulePending = true

instance (c : Core) : Decidable c.SwitchPending := inferInstanceAs (Decidable (_ ∨ _))

/-- The ready tasks and their priorities are the same. -/
def ReadyKept (c c' : Core) : Prop :=
  ∀ t, ((c'.tasks t).isReady ↔ (c.tasks t).isReady) ∧ ((c.tasks t).isReady → c'.priority t = c.priority t)

/-- What the scheduler goes by is the same. -/
def Undisturbed (c c' : Core) : Prop :=
  c'.sched = c.sched ∧ c'.cur = c.cur ∧ (c'.SwitchPending ↔ c.SwitchPending) ∧ c.nextTask ≤ c'.nextTask ∧
    ∀ t < c.nextTask, (c'.tasks t).timeSlice = (c.tasks t).timeSlice

namespace Undisturbed

omit cfg in
theorem refl (c : Core) : Undisturbed c c := ⟨rfl, rfl, Iff.rfl, le_rfl, fun _ _ => rfl⟩

omit cfg in
theorem trans (h : Undisturbed c c') (h' : Undisturbed c' c'') : Undisturbed c c'' := by
  obtain ⟨h₁, h₂, h₃, h₄, h₅⟩ := h
  obtain ⟨h₁', h₂', h₃', h₄', h₅'⟩ := h'
  exact ⟨h₁'.trans h₁, h₂'.trans h₂, h₃'.trans h₃, h₄.trans h₄',
    fun t ht => (h₅' t (ht.trans_le h₄)).trans (h₅ t ht)⟩

omit cfg in
theorem of_eq (h₁ : c'.sched = c.sched) (h₂ : c'.cur = c.cur) (h₃ : c'.SwitchPending ↔ c.SwitchPending)
    (h₄ : c'.nextTask = c.nextTask) (h₅ : ∀ t, (c'.tasks t).timeSlice = (c.tasks t).timeSlice) : Undisturbed c c' :=
  ⟨h₁, h₂, h₃, h₄.ge, fun t _ => h₅ t⟩

omit cfg in
theorem setTask {f : Tcb → Tcb} (h : (f (c.tasks t)).timeSlice = (c.tasks t).timeSlice) :
    Undisturbed c (c.setTask t f) := by
  refine .of_eq rfl rfl Iff.rfl rfl fun u => ?_
  rw [setTask_apply]
  split
  · rename_i e
    rw [e, h]
  · rfl

omit cfg in
theorem reprio (h : Reprio c c') (hs : c'.sched = c.sched) : Undisturbed c c' := by
  refine .of_eq hs h.cur ?_ h.nextTask fun t => by rw [h.task t]
  rw [h.rest]
  exact Iff.rfl

end Undisturbed

/-! ### The walk -/

/-- Tasks that are not ready are not linked, and ready tasks do not wait. -/
structure Unqueued (c : Core) : Prop where
  unlinked : ∀ t < c.nextTask, ¬ (c.tasks t).isReady → Unlinked c.sched t
  wait : ∀ t, (c.tasks t).isReady → (c.tasks t).wait = none
  fresh : ∀ t, c.Live t → t < c.nextTask

/-- Once the scheduler runs, it is so. -/
theorem Sound.unqueued (h : Sound c) : Unqueued c := by
  obtain ⟨q, hq⟩ := h.ready
  exact ⟨fun t ht hr => hq.null t ht hr, fun t hr => h.wf.wait_eq_none_of_isReady hr, h.wf.fresh⟩

omit cfg in
theorem Unqueued.congr (h : Unqueued c) (hs : c'.sched = c.sched) (hn : c'.nextTask = c.nextTask)
    (ht : ∀ t, (c'.tasks t).state = (c.tasks t).state ∧ (c'.tasks t).wait = (c.tasks t).wait) : Unqueued c' where
  unlinked t hlt hr := by
    rw [hs]
    refine h.unlinked t (hn ▸ hlt) ?_
    unfold Tcb.isReady at hr ⊢
    rwa [← (ht t).1]
  wait t hr := by
    rw [(ht t).2]
    refine h.wait t ?_
    unfold Tcb.isReady at hr ⊢
    rwa [← (ht t).1]
  fresh t hl := by
    rw [hn]
    refine h.fresh t ?_
    unfold Live at hl ⊢
    rwa [← (ht t).1]

omit cfg in
theorem Unqueued.reprio (h : Unqueued c) (r : Reprio c c') (hs : c'.sched = c.sched) : Unqueued c' :=
  h.congr hs r.nextTask fun t => ⟨r.state t, r.wait t⟩

omit cfg in
/-- A task that is not ready is not taken out of a queue. -/
theorem Unqueued.schedRemoveTask_eq (h : Unqueued c) (ht : t < c.nextTask) (hr : ¬ (c.tasks t).isReady) :
    c.schedRemoveTask t = c := by
  unfold schedRemoveTask
  rw [Holds.removeTask_of_unlinked (h.unlinked t ht hr)]

/-- The priority of a ready task has changed. -/
def Disturbed (c c' : Core) : Prop := ∃ t, (c.tasks t).isReady ∧ c'.priority t ≠ c.priority t

/-- **The walk** ends at a ready task, and either gives it another priority or does not touch the ready structure. -/
theorem recomputeChain_undisturbed (n : ℕ) (h : Unqueued c) (x : Option TaskId) (hx : ∀ t, x = some t → t < c.nextTask) :
    Undisturbed c (recomputeChain n c x) ∨ Disturbed c (recomputeChain n c x) := by
  induction n generalizing c x with
  | zero => exact .inl (.refl c)
  | succ n ih =>
    cases x with
    | none => exact .inl (.refl c)
    | some t =>
    rw [recomputeChain]
    have hnext : ∀ u, c.chainNext t = some u → u < c.nextTask := fun u hu => h.fresh u (chainNext_live hu)
    by_cases heff : c.taskEffectivePriority t = c.priority t
    · have e : c.recomputeOne t = c := by simp [recomputeOne, heff]
      rw [e]
      exact ih h _ hnext
    · have hr := c.recomputeOne_reprio t
      have hp := c.recomputeOne_priority t
      by_cases hready : (c.tasks t).isReady
      · -- a ready task waits for no mutex, so the walk ends here
        have hend : c.chainNext t = none := by
          unfold chainNext Tcb.waitMutex
          rw [h.wait t hready]
        have estop : recomputeChain n (c.recomputeOne t) (c.chainNext t) = c.recomputeOne t := by
          rw [hend]
          cases n <;> rfl
        rw [estop]
        refine .inr ⟨t, hready, ?_⟩
        rw [hp, Function.update_self]
        exact heff
      · have hs : (c.recomputeOne t).sched = c.sched := by
          rcases c.recomputeOne_eq t with ⟨e, -⟩ | ⟨w, e, -⟩
          · rw [e]
          · rw [e]
            exact Holds.requeueTask_of_unlinked (h.unlinked t (hx t rfl) hready)
        have h₁ := Undisturbed.reprio hr hs
        rcases ih (h.reprio hr hs) (c.chainNext t) (fun u hu => hr.nextTask ▸ hnext u hu) with h₂ | ⟨u, hu, hpu⟩
        · exact .inl (h₁.trans h₂)
        · have hur := (hr.isReady u).mp hu
          refine .inr ⟨u, hur, ?_⟩
          have hut : u ≠ t := by
            rintro rfl
            exact hready hur
          rwa [hp, Function.update_of_ne hut] at hpu

theorem recompute_undisturbed (h : Unqueued c) (x : Option TaskId) (hx : ∀ t, x = some t → t < c.nextTask) :
    Undisturbed c (c.recompute x) ∨ Disturbed c (c.recompute x) := recomputeChain_undisturbed _ h x hx

omit cfg in
theorem Unqueued.owner_lt (h : Unqueued c) {o : Option TaskId} : ∀ t, c.tcbFromHandle o = some t → t < c.nextTask :=
  fun t ht => h.fresh t (tcbFromHandle_eq_some.mp ht).2

/-- Taking a task off its wait list. -/
theorem detachWaitNode_undisturbed (h : Unqueued c) (t : TaskId) :
    Undisturbed c (c.detachWaitNode t) ∨ Disturbed c (c.detachWaitNode t) := by
  unfold detachWaitNode
  split
  · exact .inl (.refl c)
  · rename_i l _
    split
    · unfold mutexWaiterChanged
      split
      · exact .inl (.refl c)
      · have h₁ : Unqueued (c.waitUnlink l t) := ⟨h.unlinked, h.wait, h.fresh⟩
        exact recompute_undisturbed h₁ _ h₁.owner_lt
    · exact .inl (.refl c)

theorem taskDetachWaitLocked_undisturbed (h : Unqueued c) (t : TaskId) (r : Code) :
    Undisturbed c (c.taskDetachWaitLocked t r) ∨ Disturbed c (c.taskDetachWaitLocked t r) := by
  rcases detachWaitNode_undisturbed h t with h₁ | ⟨u, hu, hp⟩
  · left
    exact h₁.trans (.setTask (c := { c.detachWaitNode t with timeoutList := _ }) rfl)
  · right
    refine ⟨u, hu, ?_⟩
    unfold taskDetachWaitLocked
    rwa [setTask_priority (c := { c.detachWaitNode t with timeoutList := (c.detachWaitNode t).timeoutList.erase t }) (t := t) _ rfl]

/-! ### Steps -/

/-- The steps that make tasks ready, or do not touch them. -/
def Op.Still : Op → Prop
  | .wake .. | .timeout .. | .resume _ | .lock | .unlock => True
  | .alloc .. | .allocMutex _ | .free .. | .acquire .. | .relock .. => True
  | _ => False

/-- No task that is ready ceases to be, and if none has become ready the scheduler does not notice. -/
def Stirs (c c' : Core) : Prop :=
  (∀ t, (c.tasks t).isReady → (c'.tasks t).isReady) ∧
    ((∀ t, (c'.tasks t).isReady → (c.tasks t).isReady) → Undisturbed c c')

omit cfg in
theorem Stirs.of_undisturbed (h : Undisturbed c c') (hr : ∀ t, (c'.tasks t).state = (c.tasks t).state) : Stirs c c' := by
  refine ⟨fun t ht => ?_, fun _ => h⟩
  unfold Tcb.isReady
  rw [hr t]
  exact ht

omit cfg in
/-- A task that was not ready has become ready. -/
theorem Stirs.of_ready (ht : ¬ (c.tasks t).isReady) (ht' : (c'.tasks t).isReady)
    (ho : ∀ u ≠ t, (c'.tasks u).state = (c.tasks u).state) : Stirs c c' := by
  refine ⟨fun u hu => ?_, fun h => absurd (h t ht') ht⟩
  have hut : u ≠ t := by
    rintro rfl
    exact ht hu
  unfold Tcb.isReady
  rw [ho u hut]
  exact hu

theorem taskWake_stirs (c : Core) (t : TaskId) (r : Code) : Stirs c (c.taskWake t r) := by
  by_cases hw : (c.tasks t).state = .blocked ∨ (c.tasks t).state = .delayed
  · have h := taskWake_wokenUp hw r
    refine .of_ready (t := t) ?_ (.inl h.self.1) fun u hu => (h.other u hu).1
    rcases hw with hw | hw <;> simp [Tcb.isReady, hw]
  · have e : c.taskWake t r = c := if_neg hw
    rw [e]
    exact .of_undisturbed (.refl c) fun _ => rfl

theorem resumeTask_stirs (ht : (c.tasks t).state = .suspended) : Stirs c (c.resumeTask t) := by
  unfold resumeTask
  obtain ⟨a, b, e⟩ := schedRequestPreemption_eq ((c.setTask t fun b => { b with state := .ready }).schedAddTask t)
  rw [e]
  refine .of_ready (t := t) (by simp [Tcb.isReady, ht]) ?_ fun u hu => ?_
  · simp [Tcb.isReady]
  · simp [hu]

theorem still_exec (he : c.Enabled o) (hs : o.Still) : Stirs c (c.exec o) := by
  cases o with
  | wake t r => exact taskWake_stirs c t r
  | timeout t r => exact taskWake_stirs c t r
  | resume t => exact resumeTask_stirs he
  | lock =>
    show Stirs c c.schedLockTask.1
    unfold schedLockTask
    split
    · exact .of_undisturbed (.refl c) fun _ => rfl
    · exact .of_undisturbed (.of_eq rfl rfl Iff.rfl rfl fun _ => rfl) fun _ => rfl
  | unlock =>
    show Stirs c c.schedUnlockTask.1
    unfold schedUnlockTask
    dsimp only
    split
    · exact .of_undisturbed (.refl c) fun _ => rfl
    · split
      · exact .of_undisturbed (.refl c) fun _ => rfl
      · split
        · rename_i hp
          refine .of_undisturbed (.of_eq rfl rfl ?_ rfl fun _ => rfl) fun _ => rfl
          exact iff_of_true (.inl rfl) (.inr hp.2)
        · exact .of_undisturbed (.of_eq rfl rfl Iff.rfl rfl fun _ => rfl) fun _ => rfl
  | acquire m t =>
    refine .of_undisturbed (.setTask (c := c.setMutex m fun _ => { owner := some t, lockCount := 1 }) rfl) fun u => ?_
    show ((((c.setMutex m fun _ => { owner := some t, lockCount := 1 }).setTask t fun b =>
      { b with heldMutexes := b.heldMutexes ++ [m] }).tasks u).state) = _
    rw [setTask_apply]
    split
    · rename_i e
      rw [e]
      rfl
    · rfl
  | alloc | allocMutex | free | relock =>
    exact .of_undisturbed (.of_eq rfl rfl Iff.rfl rfl fun _ => rfl) fun _ => rfl
  | _ => exact absurd hs (by simp [Op.Still])

theorem still_path {ops : List Op} (hp : Path Step (fun _ o => o.Still) c ops c') : Stirs c c' := by
  induction hp with
  | nil c => exact .of_undisturbed (.refl c) fun _ => rfl
  | @cons c d c' o ops hs hr _ ih =>
    obtain ⟨he, rfl⟩ := hr
    obtain ⟨h₁, h₂⟩ := still_exec he hs
    obtain ⟨h₃, h₄⟩ := ih
    refine ⟨fun t ht => h₃ t (h₁ t ht), fun h => ?_⟩
    exact (h₂ fun t ht => h t (h₃ t ht)).trans (h₄ fun t ht => h₁ t (h t ht))

/-! A step on one task. The current task is ready. -/

omit cfg in
/-- What is done after a walk does not change priorities any more. -/
theorem ReadyKept.undisturbed {d : Core} (hk : ReadyKept c c') (h : Undisturbed c d ∨ Disturbed c d)
    (hp : c'.priority = d.priority) : Undisturbed c d := by
  refine h.resolve_right ?_
  rintro ⟨t, ht, hne⟩
  exact hne (by rw [← hp, (hk t).2 ht])

omit cfg in
theorem requestIfCur_of_ne {d : Core} (h : d.cur ≠ some t) : (if d.cur = some t then d.rescheduleRequest else d) = d :=
  if_neg h

omit cfg in
theorem rescheduleRequest_tasks (c : Core) : c.rescheduleRequest.tasks = c.tasks := by
  obtain ⟨a, b, e⟩ := rescheduleRequest_eq c
  rw [e]

omit cfg in
theorem requestIfCur_tasks (d : Core) (t : TaskId) :
    (if d.cur = some t then d.rescheduleRequest else d).tasks = d.tasks := by
  split
  · exact rescheduleRequest_tasks d
  · rfl

theorem suspendTask_undisturbed (h : Unqueued c) (hl : c.Live t) (hcur : ∀ u, c.cur = some u → (c.tasks u).isReady)
    (hk : ReadyKept c (c.suspendTask t)) : Undisturbed c (c.suspendTask t) := by
  have hstate : ((c.suspendTask t).tasks t).state = .suspended := by
    unfold suspendTask
    dsimp only
    rw [requestIfCur_tasks, setTask_self]
  have hready : ¬ (c.tasks t).isReady := by
    rw [← (hk t).1]
    simp [Tcb.isReady, hstate]
  have hne : c.cur ≠ some t := fun e => hready (hcur t e)
  unfold suspendTask at hk ⊢
  dsimp only at hk ⊢
  rw [h.schedRemoveTask_eq (h.fresh t hl) hready] at hk ⊢
  set d := if (c.tasks t).state = .blocked ∨ (c.tasks t).state = .delayed then c.taskDetachWaitLocked t Code.intr else c
    with hd
  have hdis : Undisturbed c d ∨ Disturbed c d := by
    rw [hd]
    split
    · exact taskDetachWaitLocked_undisturbed h t Code.intr
    · exact .inl (.refl c)
  have hund : Undisturbed c d := by
    refine hk.undisturbed hdis (funext fun u => ?_)
    unfold priority
    rw [requestIfCur_tasks]
    exact congrFun (setTask_priority d t _ rfl) u
  have hcurd : (d.setTask t fun b => { b with state := .suspended }).cur ≠ some t := by
    rw [setTask_cur, hund.2.1]
    exact hne
  rw [requestIfCur_of_ne hcurd]
  exact hund.trans (.setTask rfl)

theorem deleteTask_undisturbed (h : Unqueued c) (hl : c.Live t) (hcur : ∀ u, c.cur = some u → (c.tasks u).isReady)
    (hk : ReadyKept c (c.deleteTask t)) : Undisturbed c (c.deleteTask t) := by
  have hstate : ((c.deleteTask t).tasks t).state = .stop := by
    unfold deleteTask
    dsimp only
    rw [requestIfCur_tasks, setTask_self]
  have hready : ¬ (c.tasks t).isReady := by
    rw [← (hk t).1]
    simp [Tcb.isReady, hstate]
  have hne : c.cur ≠ some t := fun e => hready (hcur t e)
  unfold deleteTask at hk ⊢
  dsimp only at hk ⊢
  rw [h.schedRemoveTask_eq (h.fresh t hl) hready] at hk ⊢
  set d := c.taskDetachWaitLocked t Code.intr with hd
  have hund : Undisturbed c d := by
    refine hk.undisturbed (taskDetachWaitLocked_undisturbed h t Code.intr) (funext fun u => ?_)
    unfold priority
    rw [requestIfCur_tasks]
    exact congrFun (setTask_priority { d with allTasks := d.allTasks.erase t } t _ rfl) u
  have hcurd : ({ d with allTasks := d.allTasks.erase t }.setTask t fun b => { b with state := .stop }).cur ≠ some t := by
    rw [setTask_cur]
    show d.cur ≠ some t
    rw [hund.2.1]
    exact hne
  rw [requestIfCur_of_ne hcurd]
  exact hund.trans (.setTask (c := { d with allTasks := _ }) rfl)

/-- A new task would be ready. -/
theorem taskCreateCommon_undisturbed (h : Sound c) (hr : c.running = true) (a : CreateArgs)
    (hk : ReadyKept c (c.taskCreateCommon a).1) : Undisturbed c (c.taskCreateCommon a).1 := by
  rcases taskCreateCommon_eq c a with ⟨e, -⟩ | ⟨-, e, -⟩
  · rw [e]
    exact .refl c
  · rw [e, if_pos hr] at hk
    have hready : (((c.newTask a).schedAddTask c.nextTask).tasks c.nextTask).isReady := by
      rw [schedAddTask_tasks, newTask_self]
      exact .inl rfl
    exact absurd (Tcb.isReady_live ((hk c.nextTask).1.mp hready)) h.wf.not_live_nextTask

/-- The next owner would be ready. -/
theorem mutexRelease_undisturbed (h : Sound c) (ht : t < c.nextTask) (m : ℕ) (hk : ReadyKept c (c.mutexRelease m t)) :
    Undisturbed c (c.mutexRelease m t) := by
  unfold mutexRelease at hk ⊢
  dsimp only at hk ⊢
  set d := c.setTask t fun b => { b with heldMutexes := b.heldMutexes.erase m } with hd
  have hsame : ∀ u, (d.tasks u).state = (c.tasks u).state ∧ (d.tasks u).wait = (c.tasks u).wait := by
    intro u
    rw [hd, setTask_apply]
    split
    · rename_i e
      rw [e]
      exact ⟨rfl, rfl⟩
    · exact ⟨rfl, rfl⟩
  have hund : Undisturbed c d := .setTask rfl
  cases hw : c.waitLists (.mutex m) with
  | cons next rest =>
    have hwait : (c.tasks next).state = .blocked ∨ (c.tasks next).state = .delayed := by
      rw [← h.wf.waiting, h.wf.isFiled _ next (hw ▸ List.mem_cons_self ..)]
      exact Option.some_ne_none _
    rw [show d.waitLists (.mutex m) = next :: rest from hw] at hk
    dsimp only at hk
    have hacq : ((d.mutexAcquire m next).tasks next).state = (c.tasks next).state := by
      rw [← (hsame next).1]
      unfold mutexAcquire
      rw [setTask_self]
      rfl
    have hwoken := taskWake_wokenUp (c := d.mutexAcquire m next) (t := next) (by rwa [hacq]) Code.ok
    have hready : ¬ (c.tasks next).isReady := by rcases hwait with hw | hw <;> simp [Tcb.isReady, hw]
    refine absurd ((hk next).1.mp ?_) hready
    rw [(recompute_reprio _ _).isReady]
    exact .inl hwoken.self.1
  | nil =>
    rw [show d.waitLists (.mutex m) = [] from hw] at hk ⊢
    dsimp only at hk ⊢
    have hunq : Unqueued (d.setMutex m fun b => { b with owner := none, lockCount := 0 }) :=
      h.unqueued.congr rfl rfl hsame
    have hdis := recompute_undisturbed hunq (some t) fun u e => by
      cases e
      exact ht
    have hset : Undisturbed c (d.setMutex m fun b => { b with owner := none, lockCount := 0 }) :=
      hund.trans (.of_eq rfl rfl Iff.rfl rfl fun _ => rfl)
    refine hset.trans (hdis.resolve_right ?_)
    rintro ⟨u, hu, hne⟩
    have hu' : (c.tasks u).isReady := by
      unfold Tcb.isReady at hu ⊢
      rwa [← (hsame u).1]
    have hpd : d.priority = c.priority := by
      rw [hd]
      exact setTask_priority c t _ rfl
    have hp : (d.setMutex m fun b => { b with owner := none, lockCount := 0 }).priority u = c.priority u := congrFun hpd u
    exact hne (by rw [hp, (hk u).2 hu'])

theorem mutexDestroy_undisturbed (h : Sound c) (m : ℕ) (hk : ReadyKept c (c.mutexDestroy m)) :
    Undisturbed c (c.mutexDestroy m) := by
  unfold mutexDestroy at hk ⊢
  dsimp only at hk ⊢
  cases ho : c.tcbFromHandle (c.mutexes m).owner with
  | none =>
    dsimp only
    exact .of_eq rfl rfl Iff.rfl rfl fun _ => rfl
  | some o =>
    rw [ho] at hk
    dsimp only at hk ⊢
    by_cases hm : m ∈ (c.tasks o).heldMutexes
    · rw [if_pos hm] at hk ⊢
      set d := c.setTask o fun b => { b with heldMutexes := b.heldMutexes.erase m } with hd
      have hsame : ∀ u, (d.tasks u).state = (c.tasks u).state ∧ (d.tasks u).wait = (c.tasks u).wait := by
        intro u
        rw [hd, setTask_apply]
        split
        · rename_i e
          rw [e]
          exact ⟨rfl, rfl⟩
        · exact ⟨rfl, rfl⟩
      have hunq : Unqueued d := h.unqueued.congr rfl rfl hsame
      have hdis := recompute_undisturbed hunq (some o) fun u e => by
        cases e
        exact h.unqueued.owner_lt _ ho
      have hund : Undisturbed d (d.recompute (some o)) := by
        refine hdis.resolve_right ?_
        rintro ⟨u, hu, hne⟩
        have hu' : (c.tasks u).isReady := by
          unfold Tcb.isReady at hu ⊢
          rwa [← (hsame u).1]
        have hpd : d.priority = c.priority := by
          rw [hd]
          exact setTask_priority c o _ rfl
        have hp : d.priority u = c.priority u := congrFun hpd u
        refine hne ?_
        rw [hp, ← (hk u).2 hu']
        rfl
      exact ((Undisturbed.setTask rfl).trans hund).trans (.of_eq rfl rfl Iff.rfl rfl fun _ => rfl)
    · rw [if_neg hm]
      exact .of_eq rfl rfl Iff.rfl rfl fun _ => rfl

/-- The current task is ready. -/
def CurReady (c : Core) : Prop := ∀ t, c.cur = some t → (c.tasks t).isReady

/-- Who blocks is no longer ready. -/
theorem not_readyKept_of_block (h : Sound c) {w : Wait} {ms : Word} (hb : c.MayBlock t w) :
    ¬ ReadyKept c (c.blockTask t w ms) := by
  intro hk
  have h' : Sound (c.blockTask t w ms) := h.exec (o := .block t w ms) hb trivial
  have hw := h'.wf.wait_eq_none_of_isReady ((hk t).1.mpr (.inr hb.state))
  rw [(blockTask_self c t w ms).1] at hw
  cases hw

/-! ### The tick -/

omit cfg in
theorem ReadyKept.of_state (h : ∀ t, (c'.tasks t).state = (c.tasks t).state ∧ (c'.tasks t).priority = (c.tasks t).priority) :
    ReadyKept c c' := by
  intro t
  unfold Tcb.isReady priority
  rw [(h t).1]
  exact ⟨Iff.rfl, fun _ => (h t).2⟩

omit cfg in
theorem countTick_kept (c : Core) : ReadyKept c c.countTick ∧ c.countTick.sched = c.sched ∧ c.countTick.cur = c.cur ∧
    (c.countTick.SwitchPending ↔ c.SwitchPending) ∧ c.countTick.nextTask = c.nextTask := by
  unfold countTick
  dsimp only
  split
  · exact ⟨.of_state fun _ => ⟨rfl, rfl⟩, rfl, rfl, Iff.rfl, rfl⟩
  · refine ⟨.of_state fun u => ?_, rfl, rfl, Iff.rfl, rfl⟩
    rw [setTask_apply]
    split
    · rename_i e
      rw [e]
      exact ⟨rfl, rfl⟩
    · exact ⟨rfl, rfl⟩

omit cfg in
theorem countTick_slice_self (h : c.cur = some t) : (c.countTick.tasks t).timeSlice = (c.tasks t).timeSlice - 1 := by
  unfold countTick
  dsimp only
  rw [h]
  dsimp only
  rw [setTask_self]

omit cfg in
theorem countTick_slice_other (h : c.cur ≠ some t) : (c.countTick.tasks t).timeSlice = (c.tasks t).timeSlice := by
  unfold countTick
  dsimp only
  split
  · rfl
  · rename_i u hu
    rw [setTask_ne]
    rintro rfl
    exact h hu

theorem sliceExpire_of_none (h : c.cur = none) : c.sliceExpire = c := by
  unfold sliceExpire
  rw [h]

theorem sliceExpire_of_ne (h : c.cur = some t) (hs : (c.tasks t).timeSlice ≠ 0) : c.sliceExpire = c := by
  unfold sliceExpire
  rw [h]
  exact if_neg hs

/-- The slice is used up: a new one, and to the end of the queue. -/
theorem sliceExpire_of_eq (h : c.cur = some t) (hs : (c.tasks t).timeSlice = 0) :
    c.sliceExpire.sched = c.sched.rotate t (c.priority t) ∧ c.sliceExpire.SwitchPending ∧ c.sliceExpire.cur = c.cur ∧
      c.sliceExpire.tasks = (c.setTask t fun b => { b with timeSlice := cfg.timeSliceTicks }).tasks := by
  set d := c.setTask t fun b => { b with timeSlice := cfg.timeSliceTicks } with hd
  have e : c.sliceExpire = d.schedRotateCurrent.rescheduleRequest := by
    unfold sliceExpire
    rw [h]
    exact if_pos hs
  have hcur : d.cur = some t := h
  have hp : d.priority = c.priority := setTask_priority c t _ rfl
  have hrot : d.schedRotateCurrent = { d with sched := d.sched.rotate t (d.priority t) } := by
    unfold schedRotateCurrent
    rw [hcur]
  rw [e, hrot, hp]
  unfold rescheduleRequest
  split
  · exact ⟨rfl, .inr rfl, rfl, rfl⟩
  · exact ⟨rfl, .inl rfl, rfl, rfl⟩

theorem sliceExpire_kept (c : Core) : ReadyKept c c.sliceExpire := by
  cases hc : c.cur with
  | none =>
    rw [sliceExpire_of_none hc]
    exact .of_state fun _ => ⟨rfl, rfl⟩
  | some t =>
    by_cases hs : (c.tasks t).timeSlice = 0
    · obtain ⟨-, -, -, e⟩ := sliceExpire_of_eq hc hs
      refine .of_state fun u => ?_
      rw [e, setTask_apply]
      split
      · rename_i e
        rw [e]
        exact ⟨rfl, rfl⟩
      · exact ⟨rfl, rfl⟩
    · rw [sliceExpire_of_ne hc hs]
      exact .of_state fun _ => ⟨rfl, rfl⟩

/-! ### The switch -/

theorem schedule_slice (c : Core) (t : TaskId) : (c.schedule.tasks t).timeSlice = (c.tasks t).timeSlice := by
  have hpre : (c.preempt.tasks t).timeSlice = (c.tasks t).timeSlice := by
    unfold preempt
    split
    · rfl
    · rw [setTask_apply]
      split
      · rename_i e
        rw [e]
        split <;> rfl
      · rfl
  unfold schedule
  split
  · exact hpre
  · rw [setTask_apply]
    split
    · rename_i e
      rw [← e]
      exact hpre
    · exact hpre

theorem schedule_sched (c : Core) : c.schedule.sched = c.sched := by
  have hpre : c.preempt.sched = c.sched := by
    unfold preempt
    split <;> rfl
  unfold schedule
  split <;> exact hpre

end Core

end Aixos
