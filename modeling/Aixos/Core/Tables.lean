import Aixos.Core.Waits

/-!
# Objects and tasks, step by step

Which steps change the mutexes, the slots of the pools and the set of live tasks, and how.

* `SameTables c c'` — none of them has changed.
* `exec_mutexes`, `exec_slots` — the mutexes and the slots after any step.
* `exec_live` — only a deletion ends the life of a task, and no task lives twice.
* `exec_cur` — only a switch changes the current task.
-/

namespace Aixos

namespace Core

variable [cfg : Config]

variable {c c' c'' : Core} {t u : TaskId}

/-- The mutexes, the slots and the set of tasks have not changed. -/
structure SameTables (c c' : Core) : Prop where
  mutexes : c'.mutexes = c.mutexes
  slots : c'.slots = c.slots
  allTasks : c'.allTasks = c.allTasks
  nextTask : c'.nextTask = c.nextTask

namespace SameTables

omit cfg in
theorem refl (c : Core) : SameTables c c := ⟨rfl, rfl, rfl, rfl⟩

omit cfg in
theorem trans (h : SameTables c c') (h' : SameTables c' c'') : SameTables c c'' where
  mutexes := h'.mutexes.trans h.mutexes
  slots := h'.slots.trans h.slots
  allTasks := h'.allTasks.trans h.allTasks
  nextTask := h'.nextTask.trans h.nextTask

omit cfg in
theorem reprio (r : Reprio c c') : SameTables c c' where
  mutexes := r.mutexes
  slots := r.slots
  allTasks := by rw [r.rest]
  nextTask := r.nextTask

omit cfg in
theorem detached {r : Code} (h : Detached c c' t r) : SameTables c c' := by
  rw [h.rest]
  exact ⟨rfl, rfl, rfl, rfl⟩

omit cfg in
theorem rescheduleRequest (c : Core) : SameTables c c.rescheduleRequest := by
  obtain ⟨a, b, e⟩ := rescheduleRequest_eq c
  rw [e]
  exact ⟨rfl, rfl, rfl, rfl⟩

theorem schedRequestPreemption (c : Core) : SameTables c c.schedRequestPreemption := by
  obtain ⟨a, b, e⟩ := schedRequestPreemption_eq c
  rw [e]
  exact ⟨rfl, rfl, rfl, rfl⟩

omit cfg in
theorem requestIfCur (c : Core) (t : TaskId) :
    SameTables c (if c.cur = some t then c.rescheduleRequest else c) := by
  split
  · exact rescheduleRequest c
  · exact refl c

omit cfg in
theorem schedRotateCurrent (c : Core) : SameTables c c.schedRotateCurrent := by
  unfold Core.schedRotateCurrent
  split
  · exact refl c
  · exact ⟨rfl, rfl, rfl, rfl⟩

omit cfg in
theorem setTask (c : Core) (t : TaskId) (f : Tcb → Tcb) : SameTables c (c.setTask t f) :=
  ⟨rfl, rfl, rfl, rfl⟩

theorem taskWake (hf : Filed c) (t : TaskId) (r : Code) : SameTables c (c.taskWake t r) := by
  obtain ⟨_, _, _, _, _, _, e⟩ := taskWake_rest hf t r
  rw [e]
  exact ⟨rfl, rfl, rfl, rfl⟩

theorem blockTask (c : Core) (t : TaskId) (w : Wait) (ms : Word) : SameTables c (c.blockTask t w ms) := by
  obtain ⟨wl, e, -⟩ := blockLink_eq c t w
  have h₁ : SameTables c (c.blockLink t w) := by
    rw [e]
    exact ⟨rfl, rfl, rfl, rfl⟩
  have h₂ := h₁.trans (reprio (mutexWaiterChanged_reprio _ t))
  rw [blockTask_eq]
  refine (h₂.trans ?_).trans (rescheduleRequest _)
  unfold timeoutStart
  split
  · exact refl _
  · exact ⟨rfl, rfl, rfl, rfl⟩

theorem suspendTask (hf : Filed c) (t : TaskId) : SameTables c (c.suspendTask t) := by
  have hd := (taskDetachWaitLocked_detached (c := c.schedRemoveTask t) hf t Code.intr).of_schedRemoveTask
  unfold Core.suspendTask
  dsimp only
  refine trans (trans ?_ (setTask _ t _)) (requestIfCur _ t)
  split
  · exact detached hd
  · exact ⟨rfl, rfl, rfl, rfl⟩

theorem setPriorityTask (c : Core) (t : TaskId) (p : ℕ) : SameTables c (c.setPriorityTask t p) := by
  unfold Core.setPriorityTask
  dsimp only
  refine trans (trans ?_ (reprio (mutexTaskPriorityChanged_reprio _ t))) (schedRequestPreemption _)
  exact ⟨rfl, rfl, rfl, rfl⟩

theorem schedule (c : Core) : SameTables c c.schedule := by
  have hp : SameTables c c.preempt := by
    unfold preempt
    split
    · exact refl c
    · exact setTask c _ _
  unfold Core.schedule
  split
  · exact ⟨hp.mutexes, hp.slots, hp.allTasks, hp.nextTask⟩
  · exact ⟨hp.mutexes, hp.slots, hp.allTasks, hp.nextTask⟩

end SameTables

/-- The steps that make or change no object and no task. -/
def Op.Plain : Op → Prop
  | .create _ | .delete _ | .start _ => False
  | .alloc .. | .allocMutex _ | .free .. | .acquire .. | .relock .. | .release .. | .destroy _ => False
  | _ => True

theorem exec_same (hf : Filed c) {o : Op} (ho : o.Plain) : SameTables c (c.exec o) := by
  cases o with
  | wake t r => exact .taskWake hf t r
  | timeout t r => exact .taskWake hf t r
  | block t w ms => exact .blockTask c t w ms
  | yield => exact (SameTables.schedRotateCurrent c).trans (.rescheduleRequest _)
  | countTick =>
    show SameTables c c.countTick
    unfold countTick
    dsimp only
    split
    · exact ⟨rfl, rfl, rfl, rfl⟩
    · exact ⟨rfl, rfl, rfl, rfl⟩
  | sliceExpire =>
    show SameTables c c.sliceExpire
    unfold sliceExpire
    split
    · exact .refl c
    · split
      · exact ((SameTables.setTask c _ _).trans (.schedRotateCurrent _)).trans (.rescheduleRequest _)
      · exact .refl c
  | suspend t => exact .suspendTask hf t
  | resume t =>
    have h₁ : SameTables c ((c.setTask t fun b => { b with state := .ready }).schedAddTask t) := ⟨rfl, rfl, rfl, rfl⟩
    exact h₁.trans (.schedRequestPreemption _)
  | setPriority t p => exact .setPriorityTask c t p
  | switch =>
    have h := SameTables.schedule { c with switchRequested := false }
    exact ⟨h.mutexes, h.slots, h.allTasks, h.nextTask⟩
  | isrEnter => exact ⟨rfl, rfl, rfl, rfl⟩
  | isrExit =>
    show SameTables c c.isrExit
    unfold Core.isrExit
    dsimp only
    split
    · exact .refl c
    · split <;> exact ⟨rfl, rfl, rfl, rfl⟩
  | lock =>
    show SameTables c c.schedLockTask.1
    unfold schedLockTask
    split <;> exact ⟨rfl, rfl, rfl, rfl⟩
  | unlock =>
    show SameTables c c.schedUnlockTask.1
    unfold schedUnlockTask
    dsimp only
    split
    · exact .refl c
    · split
      · exact .refl c
      · split <;> exact ⟨rfl, rfl, rfl, rfl⟩
  | _ => exact absurd ho (by simp [Op.Plain])

/-! ### Creating and deleting tasks -/

theorem deleteTask_tables (hf : Filed c) (t : TaskId) : (c.deleteTask t).mutexes = c.mutexes ∧
    (c.deleteTask t).slots = c.slots ∧ (c.deleteTask t).allTasks = c.allTasks.erase t ∧
    (c.deleteTask t).nextTask = c.nextTask := by
  have hd := (taskDetachWaitLocked_detached (c := c.schedRemoveTask t) hf t Code.intr).of_schedRemoveTask
  have h₁ := SameTables.detached hd
  unfold deleteTask
  dsimp only
  set d := (c.schedRemoveTask t).taskDetachWaitLocked t Code.intr
  have h₂ := SameTables.requestIfCur ({ d with allTasks := d.allTasks.erase t }.setTask t fun b =>
    { b with state := .stop }) t
  refine ⟨h₂.mutexes.trans h₁.mutexes, h₂.slots.trans h₁.slots, ?_, h₂.nextTask.trans h₁.nextTask⟩
  rw [h₂.allTasks, setTask_allTasks, ← h₁.allTasks]

theorem taskCreateCommon_tables (c : Core) (a : CreateArgs) :
    (c.taskCreateCommon a).1.mutexes = c.mutexes ∧ (c.taskCreateCommon a).1.slots = c.slots ∧
      ((c.taskCreateCommon a).1.allTasks = c.allTasks ∧ (c.taskCreateCommon a).1.nextTask = c.nextTask ∨
        (c.taskCreateCommon a).1.allTasks = c.allTasks ++ [c.nextTask] ∧
          (c.taskCreateCommon a).1.nextTask = c.nextTask + 1) := by
  rcases taskCreateCommon_eq c a with ⟨e, -⟩ | ⟨-, e, -⟩
  · rw [e]
    exact ⟨rfl, rfl, .inl ⟨rfl, rfl⟩⟩
  · rw [e]
    split
    · exact ⟨rfl, rfl, .inr ⟨rfl, rfl⟩⟩
    · exact ⟨rfl, rfl, .inr ⟨rfl, rfl⟩⟩

theorem start_objects (hr : c.running = false) {memory : Bool} (e : c.start memory = some c') :
    c'.mutexes = c.mutexes ∧ c'.slots = c.slots := by
  obtain ⟨c₂, e₂, rfl⟩ := start_eq_some hr e
  obtain ⟨s, e⟩ := addReadyTasks_rest c₂.allTasks c₂
  obtain ⟨m₁, s₁, -⟩ := taskCreateCommon_tables c (idleArgs memory)
  obtain ⟨m₂, s₂, -⟩ := taskCreateCommon_tables (c.taskCreateCommon (idleArgs memory)).1 (timerArgs memory)
  rw [e]
  have h := SameTables.schedule { c₂ with sched := s, running := true }
  constructor
  · rw [h.mutexes, e₂, ← m₁, ← m₂]
  · rw [h.slots, e₂, ← s₁, ← s₂]

/-! ### Mutexes -/

theorem mutexRelease_tables (hf : Filed c) (m : ℕ) (t : TaskId) : (c.mutexRelease m t).mutexes =
      Function.update c.mutexes m (match c.waitLists (.mutex m) with
        | next :: _ => { owner := some next, lockCount := 1 }
        | [] => { owner := none, lockCount := 0 }) ∧
    (c.mutexRelease m t).slots = c.slots ∧ (c.mutexRelease m t).allTasks = c.allTasks ∧
    (c.mutexRelease m t).nextTask = c.nextTask := by
  rw [mutexRelease_eq]
  cases hw : c.waitLists (.mutex m) with
  | nil =>
    have r := recompute_reprio ((c.setTask t fun b => { b with heldMutexes := b.heldMutexes.erase m }).setMutex m
        fun b => { b with owner := none, lockCount := 0 }) (some t)
    have h := SameTables.reprio r
    exact ⟨h.mutexes, h.slots, h.allTasks, h.nextTask⟩
  | cons next rest =>
    have hfo : Filed (c.handOver m t next) := mutexAcquire_filed (setTask_filed hf rfl) m next
    have h := (SameTables.taskWake hfo next Code.ok).trans (.reprio (recompute_reprio _ (some t)))
    exact ⟨h.mutexes, h.slots, h.allTasks, h.nextTask⟩

theorem mutexDestroy_tables (c : Core) (m : ℕ) : (c.mutexDestroy m).mutexes = Function.update c.mutexes m {} ∧
    (c.mutexDestroy m).slots = Function.update c.slots .mutex
      (Function.update (c.slots .mutex) m { c.slots .mutex m with used := false }) ∧
    (c.mutexDestroy m).allTasks = c.allTasks ∧ (c.mutexDestroy m).nextTask = c.nextTask := by
  have key : ∀ d : Core, SameTables c d → ((d.slotFree .mutex m).setMutex m fun _ => {}).mutexes =
        Function.update c.mutexes m {} ∧
      ((d.slotFree .mutex m).setMutex m fun _ => {}).slots = Function.update c.slots .mutex
        (Function.update (c.slots .mutex) m { c.slots .mutex m with used := false }) ∧
      ((d.slotFree .mutex m).setMutex m fun _ => {}).allTasks = c.allTasks ∧
      ((d.slotFree .mutex m).setMutex m fun _ => {}).nextTask = c.nextTask := by
    intro d h
    refine ⟨?_, ?_, h.allTasks, h.nextTask⟩
    · show Function.update d.mutexes m {} = _
      rw [h.mutexes]
    · show Function.update d.slots .mutex (Function.update (d.slots .mutex) m { d.slots .mutex m with used := false }) = _
      rw [h.slots]
  unfold mutexDestroy
  dsimp only
  split
  · exact key c (.refl c)
  · split
    · exact key _ ((SameTables.setTask c _ _).trans (.reprio (recompute_reprio _ _)))
    · exact key c (.refl c)

/-- The mutexes after a step. -/
def Op.mutexes (c : Core) : Op → ℕ → Mutex
  | .allocMutex i => Function.update c.mutexes i {}
  | .acquire m t => Function.update c.mutexes m { owner := some t, lockCount := 1 }
  | .relock m n => Function.update c.mutexes m { c.mutexes m with lockCount := n }
  | .release m _ => Function.update c.mutexes m (match c.waitLists (.mutex m) with
      | next :: _ => { owner := some next, lockCount := 1 }
      | [] => { owner := none, lockCount := 0 })
  | .destroy m => Function.update c.mutexes m {}
  | _ => c.mutexes

theorem exec_mutexes (hf : Filed c) {o : Op} (he : c.Enabled o) : (c.exec o).mutexes = o.mutexes c := by
  cases o with
  | create a => exact (taskCreateCommon_tables c a).1
  | delete t => exact (deleteTask_tables hf t).1
  | start memory =>
    obtain ⟨hr, he⟩ := he
    obtain ⟨c', e⟩ := Option.isSome_iff_exists.mp he
    rw [Core.exec, e]
    exact (start_objects hr e).1
  | release m t => exact (mutexRelease_tables hf m t).1
  | destroy m => exact (mutexDestroy_tables c m).1
  | alloc | allocMutex | free | acquire | relock => rfl
  | _ => exact (exec_same hf (by exact trivial)).mutexes

/-- The slots after a step. -/
def Op.slots (c : Core) : Op → ObjKind → ℕ → Slot
  | .alloc k i => Function.update c.slots k (Function.update (c.slots k) i
      { used := true, generation := nextGeneration (c.slots k i).generation })
  | .allocMutex i => Function.update c.slots .mutex (Function.update (c.slots .mutex) i
      { used := true, generation := nextGeneration (c.slots .mutex i).generation })
  | .free k i => Function.update c.slots k (Function.update (c.slots k) i { c.slots k i with used := false })
  | .destroy m => Function.update c.slots .mutex
      (Function.update (c.slots .mutex) m { c.slots .mutex m with used := false })
  | _ => c.slots

theorem exec_slots (hf : Filed c) {o : Op} (he : c.Enabled o) : (c.exec o).slots = o.slots c := by
  cases o with
  | create a => exact (taskCreateCommon_tables c a).2.1
  | delete t => exact (deleteTask_tables hf t).2.1
  | start memory =>
    obtain ⟨hr, he⟩ := he
    obtain ⟨c', e⟩ := Option.isSome_iff_exists.mp he
    rw [Core.exec, e]
    exact (start_objects hr e).2
  | release m t => exact (mutexRelease_tables hf m t).2.1
  | destroy m => exact (mutexDestroy_tables c m).2.1
  | alloc | allocMutex | free | acquire | relock => rfl
  | _ => exact (exec_same hf (by exact trivial)).slots

/-- A handle names the object in its slot as long as the slot stays as it is. -/
theorem handle_kept {k : ObjKind} {x : Handle} {i : ℕ} (e : c'.slots k i = c.slots k i)
    (hx : c.objFromHandle k x = some i) : c'.objFromHandle k x = some i := by
  unfold objFromHandle at hx ⊢
  split at hx
  · rename_i hc
    cases hx
    rw [e]
    exact if_pos hc
  · cases hx

/-! ### Live tasks -/

theorem exec_allTasks (hf : Filed c) {o : Op} (hd : ∀ t, o ≠ .delete t) (hc : ∀ a, o ≠ .create a)
    (hs : ∀ memory, o ≠ .start memory) : (c.exec o).allTasks = c.allTasks ∧ (c.exec o).nextTask = c.nextTask := by
  cases o with
  | create a => exact absurd rfl (hc a)
  | delete t => exact absurd rfl (hd t)
  | start memory => exact absurd rfl (hs memory)
  | release m t => exact (mutexRelease_tables hf m t).2.2
  | destroy m => exact (mutexDestroy_tables c m).2.2
  | alloc | allocMutex | free | acquire | relock => exact ⟨rfl, rfl⟩
  | _ => exact ⟨(exec_same hf (by exact trivial)).allTasks, (exec_same hf (by exact trivial)).nextTask⟩

/-- **Lives**: after a step those tasks live that did before, but for one that has been deleted and one
that has been created. -/
theorem exec_live (h : Sound c) {o : Op} (he : c.Enabled o) (hs : ∀ memory, o ≠ .start memory)
    (ht : t < c.nextTask) : (c.exec o).Live t ↔ c.Live t ∧ o ≠ .delete t := by
  have hf := h.wf.isFiled
  have h' : Sound (c.exec o) := h.exec he (by
    cases o with
    | start memory => exact absurd rfl (hs memory)
    | _ => trivial)
  rw [← h'.wf.all, ← h.wf.all]
  cases o with
  | delete u =>
    rw [show (c.exec (.delete u)).allTasks = _ from (deleteTask_tables hf u).2.2.1, h.wf.allNodup.mem_erase_iff]
    simp only [ne_eq, Op.delete.injEq]
    constructor
    · rintro ⟨h₁, h₂⟩
      exact ⟨h₂, fun e => h₁ e.symm⟩
    · rintro ⟨h₁, h₂⟩
      exact ⟨fun e => h₂ e.symm, h₁⟩
  | create a =>
    obtain ⟨-, -, ⟨e, -⟩ | ⟨e, -⟩⟩ := taskCreateCommon_tables c a
    · rw [show (c.exec (.create a)).allTasks = _ from e]
      simp
    · rw [show (c.exec (.create a)).allTasks = _ from e]
      simp [ht.ne]
  | start memory => exact absurd rfl (hs memory)
  | _ =>
    rw [(exec_allTasks hf (by simp) (by simp) (by simp)).1]
    simp

theorem exec_nextTask (hf : Filed c) {o : Op} (hs : ∀ memory, o ≠ .start memory) :
    c.nextTask ≤ (c.exec o).nextTask := by
  cases o with
  | delete u => exact (deleteTask_tables hf u).2.2.2.ge
  | create a => exact taskCreateCommon_nextTask c a
  | start memory => exact absurd rfl (hs memory)
  | _ => exact (exec_allTasks hf (by simp) (by simp) (by simp)).2.ge

/-! ### The current task -/

omit cfg in
theorem rescheduleRequest_cur (c : Core) : c.rescheduleRequest.cur = c.cur := by
  obtain ⟨a, b, e⟩ := rescheduleRequest_eq c
  rw [e]

theorem schedRequestPreemption_cur (c : Core) : c.schedRequestPreemption.cur = c.cur := by
  obtain ⟨a, b, e⟩ := schedRequestPreemption_eq c
  rw [e]

omit cfg in
theorem schedRotateCurrent_cur (c : Core) : c.schedRotateCurrent.cur = c.cur := by
  unfold schedRotateCurrent
  split <;> rfl

theorem taskWake_cur (hf : Filed c) (t : TaskId) (r : Code) : (c.taskWake t r).cur = c.cur := by
  obtain ⟨_, _, _, _, _, _, e⟩ := taskWake_rest hf t r
  rw [e]

omit cfg in
theorem requestIfCur_cur (c : Core) (t : TaskId) :
    (if c.cur = some t then c.rescheduleRequest else c).cur = c.cur := by
  split
  · exact rescheduleRequest_cur c
  · rfl

theorem blockTask_cur (c : Core) (t : TaskId) (w : Wait) (ms : Word) : (c.blockTask t w ms).cur = c.cur := by
  obtain ⟨wl, e, -⟩ := blockLink_eq c t w
  rw [blockTask_eq, rescheduleRequest_cur]
  have h₁ : ((c.blockLink t w).mutexWaiterChanged t).cur = c.cur := by
    rw [(mutexWaiterChanged_reprio _ t).cur, e]
    rfl
  unfold timeoutStart
  split
  · exact h₁
  · exact h₁

/-- Only a switch changes the current task. -/
theorem exec_cur (hf : Filed c) {o : Op} (hw : o ≠ .switch) (hs : ∀ memory, o ≠ .start memory) :
    (c.exec o).cur = c.cur := by
  cases o with
  | switch => exact absurd rfl hw
  | start memory => exact absurd rfl (hs memory)
  | wake t r => exact taskWake_cur hf t r
  | timeout t r => exact taskWake_cur hf t r
  | block t w ms => exact blockTask_cur c t w ms
  | yield => exact (rescheduleRequest_cur _).trans (schedRotateCurrent_cur c)
  | countTick =>
    show c.countTick.cur = c.cur
    unfold countTick
    dsimp only
    split <;> rfl
  | sliceExpire =>
    show c.sliceExpire.cur = c.cur
    unfold sliceExpire
    split
    · rfl
    · split
      · exact (rescheduleRequest_cur _).trans (schedRotateCurrent_cur _)
      · rfl
  | suspend t =>
    refine (requestIfCur_cur _ t).trans ?_
    rw [setTask_cur]
    split
    · rw [(taskDetachWaitLocked_detached (c := c.schedRemoveTask t) hf t Code.intr).rest]
      rfl
    · rfl
  | resume t => exact schedRequestPreemption_cur _
  | setPriority t p => exact (schedRequestPreemption_cur _).trans (mutexTaskPriorityChanged_reprio _ t).cur
  | create a =>
    show (c.taskCreateCommon a).1.cur = c.cur
    rcases taskCreateCommon_eq c a with ⟨e, -⟩ | ⟨-, e, -⟩
    · rw [e]
    · rw [e]
      split <;> rfl
  | delete t =>
    refine (requestIfCur_cur _ t).trans ?_
    show ((c.schedRemoveTask t).taskDetachWaitLocked t Code.intr).cur = c.cur
    rw [(taskDetachWaitLocked_detached (c := c.schedRemoveTask t) hf t Code.intr).rest]
    rfl
  | isrEnter => rfl
  | isrExit =>
    show c.isrExit.cur = c.cur
    unfold Core.isrExit
    dsimp only
    split
    · rfl
    · split <;> rfl
  | lock =>
    show c.schedLockTask.1.cur = c.cur
    unfold schedLockTask
    split <;> rfl
  | unlock =>
    show c.schedUnlockTask.1.cur = c.cur
    unfold schedUnlockTask
    dsimp only
    split
    · rfl
    · split
      · rfl
      · split <;> rfl
  | alloc | allocMutex | free | acquire | relock => rfl
  | release m t =>
    show (c.mutexRelease m t).cur = c.cur
    rw [mutexRelease_eq]
    split
    · rename_i next rest _
      have hfo : Filed (c.handOver m t next) := mutexAcquire_filed (setTask_filed hf rfl) m next
      exact (recompute_reprio _ _).cur.trans (taskWake_cur hfo next Code.ok)
    · exact (recompute_reprio _ _).cur
  | destroy m =>
    show (c.mutexDestroy m).cur = c.cur
    unfold mutexDestroy
    dsimp only
    split
    · rfl
    · split
      · exact (recompute_reprio _ _).cur
      · rfl

end Core

end Aixos
