import Aixos.Kernel.Core

/-!
# Ready queues of the core

What the ready structure of a core state should hold, and how the operations on it
keep that.

* `Queues c S F q` — the queues `q` are well formed, each task in them belongs to `S`
  and is in the queue of its current priority. A task of `S` that is in no queue has
  never been added: its node is still linked to itself. When `F` holds there is no
  such task. The node of any other task is null.

`S` will be the tasks that are READY or RUNNING, except in the middle of an operation,
and `F` that the scheduler has been started.
-/

namespace Aixos

namespace Core

open Sched

section Fields

/-! ### Record updates -/

variable (c : Core) (t : TaskId) (f : Tcb → Tcb)

@[simp] theorem setTask_self : (c.setTask t f).tasks t = f (c.tasks t) := Function.update_self ..

@[simp] theorem setTask_ne {u : TaskId} (h : u ≠ t) : (c.setTask t f).tasks u = c.tasks u :=
  Function.update_of_ne h ..

theorem setTask_apply (u : TaskId) :
    (c.setTask t f).tasks u = if u = t then f (c.tasks t) else c.tasks u := Function.update_apply ..

@[simp] theorem setTask_waitLists : (c.setTask t f).waitLists = c.waitLists := rfl
@[simp] theorem setTask_timeoutList : (c.setTask t f).timeoutList = c.timeoutList := rfl
@[simp] theorem setTask_sched : (c.setTask t f).sched = c.sched := rfl
@[simp] theorem setTask_nextTask : (c.setTask t f).nextTask = c.nextTask := rfl
@[simp] theorem setTask_allTasks : (c.setTask t f).allTasks = c.allTasks := rfl
@[simp] theorem setTask_cur : (c.setTask t f).cur = c.cur := rfl
@[simp] theorem setTask_running : (c.setTask t f).running = c.running := rfl
@[simp] theorem setTask_slots : (c.setTask t f).slots = c.slots := rfl
@[simp] theorem setTask_mutexes : (c.setTask t f).mutexes = c.mutexes := rfl

theorem setTask_priority (h : (f (c.tasks t)).priority = (c.tasks t).priority) :
    (c.setTask t f).priority = c.priority := by
  funext u
  unfold priority
  rw [setTask_apply]
  split
  · rename_i e; rw [e, h]
  · rfl

/-- A request only sets one of the two flags. -/
theorem rescheduleRequest_eq : ∃ a b,
    c.rescheduleRequest = { c with reschedulePending := a, switchRequested := b } := by
  unfold rescheduleRequest
  split
  · exact ⟨true, c.switchRequested, rfl⟩
  · exact ⟨c.reschedulePending, true, rfl⟩

variable [cfg : Config]

@[simp] theorem schedRequeueTask_tasks (p : ℕ) : (c.schedRequeueTask t p).tasks = c.tasks := rfl
@[simp] theorem schedAddTask_tasks : (c.schedAddTask t).tasks = c.tasks := rfl
omit cfg in
@[simp] theorem schedRemoveTask_tasks : (c.schedRemoveTask t).tasks = c.tasks := rfl

theorem schedRequestPreemption_eq : ∃ a b,
    c.schedRequestPreemption = { c with reschedulePending := a, switchRequested := b } := by
  unfold schedRequestPreemption
  split
  · exact ⟨_, _, rfl⟩
  · split
    · exact ⟨_, _, rfl⟩
    · split
      · exact rescheduleRequest_eq c
      · split
        · exact rescheduleRequest_eq c
        · exact ⟨_, _, rfl⟩

end Fields

variable [cfg : Config]

/-- The ready structure holds the queues `q`, of tasks of `S` only. -/
structure Queues (c : Core) (S : TaskId → Prop) (F : Prop) (q : ℕ → List TaskId) : Prop where
  /-- The ready structure is well formed. -/
  holds : c.sched.Holds q
  /-- A queued task belongs to `S` and is in the queue of its priority. -/
  mem : ∀ p t, t ∈ q p → S t ∧ c.priority t = p
  /-- A task of `S` that is not queued has never been added. -/
  self : ∀ t, t < c.nextTask → S t → t ∉ q (c.priority t) → ¬ F ∧ SelfLinked c.sched t
  /-- The node of a task outside `S` is null. -/
  null : ∀ t, t < c.nextTask → ¬ S t → Unlinked c.sched t

variable {c : Core} {S : TaskId → Prop} {F : Prop} {q : ℕ → List TaskId} {t : TaskId}

namespace Queues

theorem not_mem_of_not (h : Queues c S F q) (ht : ¬ S t) (p : ℕ) : t ∉ q p :=
  fun hm => ht (h.mem p t hm).1

/-- A task is queued in the queue of its priority or nowhere. -/
theorem not_mem_of_not_mem (h : Queues c S F q) (ht : t ∉ q (c.priority t)) (p : ℕ) : t ∉ q p := by
  intro hm
  rw [(h.mem p t hm).2] at ht
  exact ht hm

/-- Once the scheduler runs, the tasks of a queue are those of `S` with its priority. -/
theorem mem_iff (h : Queues c S F q) (hF : F) (hlt : ∀ t, S t → t < c.nextTask) (p : ℕ) :
    t ∈ q p ↔ S t ∧ c.priority t = p := by
  refine ⟨h.mem p t, ?_⟩
  rintro ⟨ht, rfl⟩
  by_contra hm
  exact (h.self t (hlt t ht) ht hm).1 hF

/-- The queues depend on the ready structure and the priorities only. -/
theorem congr {c' : Core} {S' : TaskId → Prop} (h : Queues c S F q) (hs : c'.sched = c.sched)
    (hp : c'.priority = c.priority) (hn : c'.nextTask = c.nextTask) (hS : ∀ t, S' t ↔ S t) :
    Queues c' S' F q where
  holds := hs ▸ h.holds
  mem p t ht := by rw [hS, hp]; exact h.mem p t ht
  self t ht hS' := by rw [hp, hs]; exact h.self t (hn ▸ ht) ((hS t).mp hS')
  null t ht hS' := by rw [hs]; exact h.null t (hn ▸ ht) (mt (hS t).mpr hS')

/-- Taking a task out of the ready structure. -/
theorem remove (h : Queues c S F q) (ht : t < c.nextTask) :
    ∃ q', Queues (c.schedRemoveTask t) (fun u => S u ∧ u ≠ t) F q' := by
  have hun : Unlinked (c.schedRemoveTask t).sched t := Holds.removeTask_unlinked ..
  by_cases hm : t ∈ q (c.priority t)
  · refine ⟨Function.update q (c.priority t) ((q (c.priority t)).erase t), h.holds.removeTask hm,
      ?_, ?_, ?_⟩
    · intro p u hu
      obtain ⟨hu, hut⟩ := (h.holds.mem_erase hm).mp hu
      exact ⟨⟨(h.mem p u hu).1, hut⟩, (h.mem p u hu).2⟩
    · rintro u hu ⟨hSu, hut⟩ hmu
      have hmu : u ∉ q (c.priority u) := fun hmem => hmu ((h.holds.mem_erase hm).mpr ⟨hmem, hut⟩)
      obtain ⟨hF, hself⟩ := h.self u hu hSu hmu
      exact ⟨hF, hself.congr (h.holds.removeTask_sameNode hm (h.not_mem_of_not_mem hmu))⟩
    · intro u hu hSu
      by_cases hut : u = t
      · exact hut ▸ hun
      · have hSu : ¬ S u := fun hS => hSu ⟨hS, hut⟩
        exact (h.null u hu hSu).congr (h.holds.removeTask_sameNode hm (h.not_mem_of_not hSu))
  · have hmem : ∀ p u, u ∈ q p → (S u ∧ u ≠ t) ∧ (c.schedRemoveTask t).priority u = p := by
      intro p u hu
      refine ⟨⟨(h.mem p u hu).1, ?_⟩, (h.mem p u hu).2⟩
      rintro rfl
      exact h.not_mem_of_not_mem hm p hu
    by_cases hS : S t
    · obtain ⟨-, hself⟩ := h.self t ht hS hm
      refine ⟨q, h.holds.removeTask_of_selfLinked hself, hmem, ?_, ?_⟩
      · rintro u hu ⟨hSu, hut⟩ hmu
        obtain ⟨hF, hu'⟩ := h.self u hu hSu hmu
        exact ⟨hF, hu'.congr (Holds.removeTask_sameNode_of_selfLinked hself hut)⟩
      · intro u hu hSu
        by_cases hut : u = t
        · exact hut ▸ hun
        · exact (h.null u hu fun hS => hSu ⟨hS, hut⟩).congr
            (Holds.removeTask_sameNode_of_selfLinked hself hut)
    · have e : (c.schedRemoveTask t).sched = c.sched :=
        Holds.removeTask_of_unlinked (h.null t ht hS)
      refine ⟨q, e ▸ h.holds, hmem, ?_, ?_⟩
      · rintro u hu ⟨hSu, hut⟩ hmu
        rw [e]
        exact h.self u hu hSu hmu
      · intro u hu hSu
        rw [e]
        by_cases hut : u = t
        · exact hut ▸ h.null t ht hS
        · exact h.null u hu fun hS => hSu ⟨hS, hut⟩

/-- Adding a task that is not queued. -/
theorem add (h : Queues c S F q) (hm : t ∉ q (c.priority t)) (hp : c.priority t < cfg.maxPriority) :
    Queues (c.schedAddTask t) (fun u => S u ∨ u = t) F
      (Function.update q (c.priority t) (q (c.priority t) ++ [t])) := by
  have hq := h.not_mem_of_not_mem hm
  refine ⟨h.holds.addTask hq hp, ?_, ?_, ?_⟩
  · intro p u hu
    rcases Holds.mem_append.mp hu with hu | ⟨rfl, rfl⟩
    · exact ⟨.inl (h.mem p u hu).1, (h.mem p u hu).2⟩
    · exact ⟨.inr rfl, rfl⟩
  · intro u hu hSu hmu
    have hmu := mt Holds.mem_append.mpr hmu
    rw [not_or] at hmu
    have hut : u ≠ t := by rintro rfl; exact hmu.2 ⟨rfl, rfl⟩
    obtain ⟨hF, hself⟩ := h.self u hu (hSu.resolve_right hut) hmu.1
    exact ⟨hF, hself.congr (h.holds.addTask_sameNode hut (h.not_mem_of_not_mem hmu.1))⟩
  · intro u hu hSu
    rw [not_or] at hSu
    exact (h.null u hu hSu.1).congr (h.holds.addTask_sameNode hSu.2 (h.not_mem_of_not hSu.1))

section Requeue

variable {f : Tcb → Tcb} {p' : ℕ} (hf : (f (c.tasks t)).priority = p')

include hf in
omit cfg in
theorem priority_requeued_self : (c.setTask t f).priority t = p' := by
  show ((c.setTask t f).tasks t).priority = p'
  rw [setTask_self, hf]

omit cfg in
theorem priority_requeued_ne {u : TaskId} (hu : u ≠ t) :
    (c.setTask t f).priority u = c.priority u := by
  show ((c.setTask t f).tasks u).priority = _
  rw [setTask_ne _ _ _ hu]
  rfl

include hf in
/-- Giving a task another priority and requeueing it. A task that was never queued is queued
by it. -/
theorem requeue (h : Queues c S F q) (ht : t < c.nextTask) (hp : c.priority t < cfg.maxPriority)
    (hp' : p' < cfg.maxPriority) :
    ∃ q', Queues ((c.setTask t f).schedRequeueTask t (c.priority t)) S F q' := by
  have hpt : ((c.setTask t f).schedRequeueTask t (c.priority t)).priority t = p' :=
    priority_requeued_self hf
  have hpu : ∀ u, u ≠ t →
      ((c.setTask t f).schedRequeueTask t (c.priority t)).priority u = c.priority u :=
    fun u hu => priority_requeued_ne hu
  have hs : ((c.setTask t f).schedRequeueTask t (c.priority t)).sched =
      c.sched.requeueTask t (c.priority t) p' := by
    show c.sched.requeueTask t (c.priority t) ((c.setTask t f).priority t) = _
    rw [priority_requeued_self hf]
  by_cases hm : t ∈ q (c.priority t)
  · have hrem := fun {u a} => h.holds.mem_erase (u := u) (a := a) hm
    refine ⟨_, hs ▸ h.holds.requeueTask hm hp', ?_, ?_, ?_⟩
    · intro a u hu
      rcases Holds.mem_append.mp hu with hu | ⟨rfl, rfl⟩
      · obtain ⟨h₁, h₂⟩ := hrem.mp hu
        exact ⟨(h.mem _ u h₁).1, (hpu u h₂).trans (h.mem _ u h₁).2⟩
      · exact ⟨(h.mem _ u hm).1, hpt⟩
    · intro u hu hSu hmu
      have hmu := mt Holds.mem_append.mpr hmu
      rw [not_or] at hmu
      have hut : u ≠ t := by rintro rfl; exact hmu.2 ⟨rfl, hpt⟩
      rw [hpu u hut] at hmu
      have hmu : u ∉ q (c.priority u) := fun hmem => hmu.1 (hrem.mpr ⟨hmem, hut⟩)
      obtain ⟨hF, hself⟩ := h.self u hu hSu hmu
      rw [hs]
      exact ⟨hF, hself.congr (h.holds.requeueTask_sameNode hm (h.not_mem_of_not_mem hmu))⟩
    · intro u hu hSu
      rw [hs]
      exact (h.null u hu hSu).congr (h.holds.requeueTask_sameNode hm (h.not_mem_of_not hSu))
  · have hq := h.not_mem_of_not_mem hm
    have hmem : ∀ a u, u ∈ q a → S u ∧
        ((c.setTask t f).schedRequeueTask t (c.priority t)).priority u = a := by
      intro a u hu
      have hut : u ≠ t := by rintro rfl; exact hq a hu
      exact ⟨(h.mem a u hu).1, (hpu u hut).trans (h.mem a u hu).2⟩
    by_cases hS : S t
    · obtain ⟨-, hself⟩ := h.self t ht hS hm
      refine ⟨_, hs ▸ h.holds.requeueTask_of_selfLinked hself hp hp', ?_, ?_, ?_⟩
      · intro a u hu
        rcases Holds.mem_append.mp hu with hu | ⟨rfl, rfl⟩
        · exact hmem a u hu
        · exact ⟨hS, hpt⟩
      · intro u hu hSu hmu
        have hmu := mt Holds.mem_append.mpr hmu
        rw [not_or] at hmu
        have hut : u ≠ t := by rintro rfl; exact hmu.2 ⟨rfl, hpt⟩
        rw [hpu u hut] at hmu
        obtain ⟨hF, hu'⟩ := h.self u hu hSu hmu.1
        rw [hs]
        exact ⟨hF, hu'.congr
          (h.holds.requeueTask_sameNode_of_selfLinked hself hut (h.not_mem_of_not_mem hmu.1))⟩
      · intro u hu hSu
        have hut : u ≠ t := by rintro rfl; exact hSu hS
        rw [hs]
        exact (h.null u hu hSu).congr
          (h.holds.requeueTask_sameNode_of_selfLinked hself hut (h.not_mem_of_not hSu))
    · have e : c.sched.requeueTask t (c.priority t) p' = c.sched :=
        Holds.requeueTask_of_unlinked (h.null t ht hS)
      rw [e] at hs
      refine ⟨q, hs ▸ h.holds, hmem, ?_, ?_⟩
      · intro u hu hSu hmu
        have hut : u ≠ t := by rintro rfl; exact hS hSu
        rw [hpu u hut] at hmu
        rw [hs]
        exact h.self u hu hSu hmu
      · intro u hu hSu
        rw [hs]
        exact h.null u hu hSu

end Requeue

/-- Rotating the queue of the current task. -/
theorem rotate (h : Queues c S F q) (hlt : ∀ u, S u → u < c.nextTask)
    (hcur : ∀ u, c.cur = some u → u < c.nextTask) (hF : F) :
    ∃ q', Queues c.schedRotateCurrent S F q' := by
  unfold schedRotateCurrent
  split
  · exact ⟨q, h⟩
  · rename_i t ht
    by_cases hm : t ∈ q (c.priority t)
    · have hmem : ∀ p u, u ∈ Holds.rotated q t (c.priority t) p ↔ u ∈ q p := by
        intro p u
        unfold Holds.rotated
        split
        · exact Iff.rfl
        · rw [Function.update_apply]
          split
          · rename_i e
            subst e
            by_cases hut : u = t
            · simp [hut, hm]
            · simp [List.mem_erase_of_ne hut, hut]
          · exact Iff.rfl
      refine ⟨Holds.rotated q t (c.priority t), h.holds.rotate hm, ?_, ?_, ?_⟩
      · intro p u hu
        exact h.mem p u ((hmem p u).mp hu)
      · intro u hu hSu hmu
        exact absurd hF (h.self u hu hSu (mt (hmem _ u).mpr hmu)).1
      · intro u hu hSu
        exact (h.null u hu hSu).congr (h.holds.rotate_sameNode hm (h.not_mem_of_not hSu))
    · have hS : ¬ S t := fun hS => (h.self t (hlt t hS) hS hm).1 hF
      have e : c.sched.rotate t (c.priority t) = c.sched :=
        Holds.rotate_of_unlinked (h.null t (hcur t ht) hS)
      rw [e]
      exact ⟨q, h⟩

end Queues

end Core

end Aixos
