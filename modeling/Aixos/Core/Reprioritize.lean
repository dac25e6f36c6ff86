import Aixos.Core.Queues

/-!
# Changing priorities

The inheritance walk changes the current priority of some tasks, moves them in the
ready structure and in the wait lists of mutexes, and nothing else.

* `Reprio c c'` — `c'` is `c` with other current priorities.
* `recompute_reprio` and its kin: the walk and everything built from it are such steps.
* `Queues.recompute` — the walk keeps the ready queues.
-/

namespace Aixos

namespace Core

open OrderedQueue

/-- `c'` is `c` with other current priorities: the ready structure and the order inside the
wait lists may differ as well, everything else is the same. -/
structure Reprio (c c' : Core) : Prop where
  /-- Only these fields differ. -/
  rest : c' = { c with tasks := c'.tasks, waitLists := c'.waitLists, sched := c'.sched }
  /-- Of a control block only the current priority differs. -/
  task : ∀ t, c'.tasks t = { c.tasks t with priority := (c'.tasks t).priority }
  /-- The wait lists hold the same tasks. -/
  perm : ∀ l, (c'.waitLists l).Perm (c.waitLists l)

namespace Reprio

variable {c c' c'' : Core} {t : TaskId} {l : WaitList}

theorem refl (c : Core) : Reprio c c := ⟨rfl, fun _ => rfl, fun _ => .refl _⟩

theorem trans (h : Reprio c c') (h' : Reprio c' c'') : Reprio c c'' where
  rest := by
    rw [h'.rest, h.rest]
  task t := by
    rw [h'.task t, h.task t]
  perm l := (h'.perm l).trans (h.perm l)

theorem wait (h : Reprio c c') (t : TaskId) : (c'.tasks t).wait = (c.tasks t).wait := by
  rw [h.task t]

theorem state (h : Reprio c c') (t : TaskId) : (c'.tasks t).state = (c.tasks t).state := by
  rw [h.task t]

theorem basePriority (h : Reprio c c') (t : TaskId) :
    (c'.tasks t).basePriority = (c.tasks t).basePriority := by
  rw [h.task t]

theorem heldMutexes (h : Reprio c c') (t : TaskId) :
    (c'.tasks t).heldMutexes = (c.tasks t).heldMutexes := by
  rw [h.task t]

theorem wakeTick (h : Reprio c c') (t : TaskId) : (c'.tasks t).wakeTick = (c.tasks t).wakeTick := by
  rw [h.task t]

theorem waitMutex (h : Reprio c c') (t : TaskId) : (c'.tasks t).waitMutex = (c.tasks t).waitMutex := by
  rw [h.task t]; rfl

theorem isReady (h : Reprio c c') (t : TaskId) : (c'.tasks t).isReady ↔ (c.tasks t).isReady := by
  rw [h.task t]; rfl

theorem live (h : Reprio c c') (t : TaskId) : c'.Live t ↔ c.Live t := by
  unfold Live
  rw [h.state]

theorem mem (h : Reprio c c') : t ∈ c'.waitLists l ↔ t ∈ c.waitLists l := (h.perm l).mem_iff

theorem mutexes (h : Reprio c c') : c'.mutexes = c.mutexes := by rw [h.rest]

theorem slots (h : Reprio c c') : c'.slots = c.slots := by rw [h.rest]

theorem cur (h : Reprio c c') : c'.cur = c.cur := by rw [h.rest]

theorem nextTask (h : Reprio c c') : c'.nextTask = c.nextTask := by rw [h.rest]

theorem timeoutList (h : Reprio c c') : c'.timeoutList = c.timeoutList := by rw [h.rest]

theorem tcbFromHandle (h : Reprio c c') (o : Option TaskId) : c'.tcbFromHandle o = c.tcbFromHandle o := by
  unfold Core.tcbFromHandle
  congr 1
  funext u
  rw [decide_eq_decide]
  exact h.live u

theorem chainNext (h : Reprio c c') (t : TaskId) : c'.chainNext t = c.chainNext t := by
  unfold Core.chainNext
  rw [h.waitMutex, h.mutexes]
  simp only [h.tcbFromHandle]

end Reprio

section Waiter

variable (c : Core) (t : TaskId)

/-- The wait lists after `aixos_task_waiter_priority_changed`. -/
theorem taskWaiterPriorityChanged_eq : ∃ w, c.taskWaiterPriorityChanged t = { c with waitLists := w } ∧
    (∀ l, (w l).Perm (c.waitLists l)) ∧
    (∀ l, ((c.tasks t).waitList = some l → t ∉ c.waitLists l) → w l = c.waitLists l) ∧
    ∀ l, (c.tasks t).waitList = some l → t ∈ c.waitLists l →
      w l = insertByKey c.priority t ((c.waitLists l).erase t) := by
  unfold taskWaiterPriorityChanged
  cases hw : (c.tasks t).waitList with
  | none => exact ⟨c.waitLists, rfl, fun _ => .refl _, fun _ _ => rfl, by simp⟩
  | some l =>
    dsimp only
    split
    · rename_i hm
      refine ⟨_, rfl, fun l' => ?_, fun l' hl => ?_, fun l' hl _ => ?_⟩
      · simp only [Function.update_apply, Core.waitUnlink, if_true]
        split
        · rename_i e
          subst e
          exact (insertBefore_perm _ _ _).trans (List.perm_cons_erase hm).symm
        · exact .refl _
      · have : l' ≠ l := by
          rintro rfl
          exact hl rfl hm
        simp [this, Core.waitUnlink]
      · obtain rfl : l = l' := by simpa using hl
        simp [Core.waitUnlink]
        rfl
    · rename_i hm
      refine ⟨c.waitLists, rfl, fun _ => .refl _, fun _ _ => rfl, fun l' hl hm' => ?_⟩
      obtain rfl : l = l' := by simpa using hl
      exact absurd hm' hm

theorem taskWaiterPriorityChanged_reprio : Reprio c (c.taskWaiterPriorityChanged t) := by
  obtain ⟨w, e, hw, -⟩ := c.taskWaiterPriorityChanged_eq t
  rw [e]
  exact ⟨rfl, fun _ => rfl, hw⟩

end Waiter

variable [cfg : Config]

section One

variable (c : Core) (t : TaskId)

/-- One round of the walk, when the priority of the task changes. -/
theorem recomputeOne_eq : (c.recomputeOne t = c ∧ c.taskEffectivePriority t = c.priority t) ∨
    ∃ w, c.recomputeOne t = { (c.setTask t fun b =>
        { b with priority := c.taskEffectivePriority t }).schedRequeueTask t (c.priority t) with
          waitLists := w } ∧
      (∀ l, (w l).Perm (c.waitLists l)) ∧
      (∀ l, (∀ m, l = .mutex m → (c.tasks t).waitMutex = some m → t ∉ c.waitLists l) →
        w l = c.waitLists l) ∧
      ∀ m, (c.tasks t).waitMutex = some m → t ∈ c.waitLists (.mutex m) →
        w (.mutex m) = insertByKey (Function.update c.priority t (c.taskEffectivePriority t)) t
          ((c.waitLists (.mutex m)).erase t) := by
  unfold recomputeOne
  by_cases heff : c.taskEffectivePriority t = c.priority t
  · exact .inl ⟨by simp [heff], heff⟩
  · right
    simp only [heff, if_false]
    set c₁ := (c.setTask t fun b =>
      { b with priority := c.taskEffectivePriority t }).schedRequeueTask t (c.priority t) with hc₁
    have hw₁ : (c₁.tasks t).waitMutex = (c.tasks t).waitMutex := by
      rw [hc₁, schedRequeueTask_tasks, setTask_self]
      rfl
    have hp₁ : c₁.priority = Function.update c.priority t (c.taskEffectivePriority t) := by
      funext u
      rw [priority, hc₁, schedRequeueTask_tasks, setTask_apply, Function.update_apply]
      split <;> rfl
    rw [hw₁]
    split
    · rename_i hs
      obtain ⟨w, e, h₁, h₂, h₃⟩ := c₁.taskWaiterPriorityChanged_eq t
      have hlist : ∀ m, (c.tasks t).waitMutex = some m → (c₁.tasks t).waitList = some (.mutex m) := by
        intro m hm
        rw [← hw₁] at hm
        unfold Tcb.waitMutex at hm
        split at hm
        · rename_i m' e'
          obtain rfl : m' = m := by simpa using hm
          simp [Tcb.waitList, e', Wait.waitList]
        · simp at hm
      refine ⟨w, e, h₁, fun l hl => h₂ l fun hw => ?_, fun m hm hmem => ?_⟩
      · obtain ⟨m, hm⟩ := Option.isSome_iff_exists.mp hs
        have hlm := hlist m hm
        rw [hw, Option.some.injEq] at hlm
        exact hl m hlm hm
      · rw [← hp₁]
        exact h₃ _ (hlist m hm) hmem
    · rename_i hs
      refine ⟨c.waitLists, rfl, fun _ => .refl _, fun _ _ => rfl, fun m hm => ?_⟩
      simp [hm] at hs

theorem recomputeOne_reprio : Reprio c (c.recomputeOne t) := by
  rcases c.recomputeOne_eq t with ⟨e, -⟩ | ⟨w, e, hw, -⟩
  · rw [e]
    exact .refl c
  · rw [e]
    refine ⟨rfl, fun u => ?_, hw⟩
    dsimp only [schedRequeueTask_tasks]
    rw [setTask_apply]
    split
    · rename_i e'
      rw [e']
    · rfl

/-- **One round of the walk** gives the task its effective priority, and no other task another. -/
theorem recomputeOne_priority :
    (c.recomputeOne t).priority = Function.update c.priority t (c.taskEffectivePriority t) := by
  rcases c.recomputeOne_eq t with ⟨e, h⟩ | ⟨w, e, -⟩
  · rw [e, h, Function.update_eq_self]
  · rw [e]
    funext u
    dsimp only [priority, schedRequeueTask_tasks]
    rw [setTask_apply, Function.update_apply]
    split <;> rfl

end One

/-- The walk changes priorities only. -/
theorem recomputeChain_reprio (n : ℕ) (c : Core) (x : Option TaskId) :
    Reprio c (recomputeChain n c x) := by
  induction n generalizing c x with
  | zero => exact .refl c
  | succ n ih =>
    cases x with
    | none => exact .refl c
    | some t => exact (c.recomputeOne_reprio t).trans (ih _ _)

theorem recompute_reprio (c : Core) (x : Option TaskId) : Reprio c (c.recompute x) :=
  recomputeChain_reprio ..

theorem mutexWaiterChanged_reprio (c : Core) (t : TaskId) : Reprio c (c.mutexWaiterChanged t) := by
  unfold mutexWaiterChanged
  split
  · exact .refl c
  · exact recompute_reprio ..

theorem mutexTaskPriorityChanged_reprio (c : Core) (t : TaskId) :
    Reprio c (c.mutexTaskPriorityChanged t) := by
  unfold mutexTaskPriorityChanged
  refine (c.taskWaiterPriorityChanged_reprio t).trans (Reprio.trans ?_ (recompute_reprio _ _))
  split
  · exact .refl _
  · split
    · exact recompute_reprio ..
    · exact .refl _

/-! ### The ready queues -/

/-- The current and base priorities of all tasks are in the configured range. -/
def Bounded (c : Core) : Prop :=
  ∀ t, c.priority t < cfg.maxPriority ∧ (c.tasks t).basePriority < cfg.maxPriority

theorem taskEffectivePriority_lt {c : Core} (h : Bounded c) (t : TaskId) :
    c.taskEffectivePriority t < cfg.maxPriority := by
  unfold taskEffectivePriority
  refine List.foldlRecOn (motive := fun p => p < cfg.maxPriority) _ _ (h t).2 fun p hp m _ => ?_
  split
  · exact hp
  · rename_i w ws e
    split
    · exact (h w).1
    · exact hp

theorem recomputeOne_bounded {c : Core} (h : Bounded c) (t : TaskId) : Bounded (c.recomputeOne t) := by
  intro u
  rw [recomputeOne_priority, (c.recomputeOne_reprio t).basePriority, Function.update_apply]
  refine ⟨?_, (h u).2⟩
  split
  · exact taskEffectivePriority_lt h t
  · exact (h u).1

/-- A property that each round of the walk keeps is kept by the walk. -/
theorem recomputeChain_induction {I : Core → Prop} {V : TaskId → Prop}
    (hI : ∀ c t, I c → V t → I (c.recomputeOne t)) (hV : ∀ c t u, I c → V t → c.chainNext t = some u → V u)
    (n : ℕ) (c : Core) (x : Option TaskId) (hc : I c) (hx : ∀ t, x = some t → V t) :
    I (recomputeChain n c x) := by
  induction n generalizing c x with
  | zero => exact hc
  | succ n ih =>
    cases x with
    | none => exact hc
    | some t =>
      exact ih _ _ (hI c t hc (hx t rfl)) fun u hu => hV c t u hc (hx t rfl) hu

variable {c : Core} {S : TaskId → Prop} {F : Prop} {t : TaskId}

omit cfg in
theorem tcbFromHandle_eq_some {o : Option TaskId} :
    c.tcbFromHandle o = some t ↔ o = some t ∧ c.Live t := by
  simp [tcbFromHandle, Option.filter_eq_some_iff]

omit cfg in
theorem chainNext_live {u : TaskId} (h : c.chainNext t = some u) : c.Live u := by
  unfold chainNext at h
  split at h
  · simp at h
  · rw [Option.filter_eq_some_iff] at h
    exact (tcbFromHandle_eq_some.mp h.1).2

/-- One round of the walk keeps the queues. -/
theorem queues_recomputeOne (h : ∃ q, Queues c S F q) (hb : Bounded c) (ht : t < c.nextTask) :
    ∃ q, Queues (c.recomputeOne t) S F q := by
  rcases c.recomputeOne_eq t with ⟨e, -⟩ | ⟨w, e, -⟩
  · rw [e]
    exact h
  · obtain ⟨q, h⟩ := h
    obtain ⟨q', h'⟩ := h.requeue (f := fun b => { b with priority := c.taskEffectivePriority t })
      rfl ht (hb t).1 (taskEffectivePriority_lt hb t)
    rw [e]
    exact ⟨q', h'.congr rfl rfl rfl fun _ => Iff.rfl⟩

/-- **The walk keeps the ready queues**, if the tasks it can reach have been created. -/
theorem queues_recompute (h : ∃ q, Queues c S F q) (hb : Bounded c)
    (hlive : ∀ u, c.Live u → u < c.nextTask) {x : Option TaskId} (hx : ∀ u, x = some u → u < c.nextTask) :
    ∃ q, Queues (c.recompute x) S F q := by
  refine (recomputeChain_induction
    (I := fun d => (∃ q, Queues d S F q) ∧ Bounded d ∧ Reprio c d) (V := (· < c.nextTask)) ?_ ?_ _ c x
    ⟨h, hb, .refl c⟩ hx).1
  · rintro d u ⟨hq, hb, hr⟩ hu
    exact ⟨queues_recomputeOne hq hb (by rw [hr.nextTask]; exact hu), recomputeOne_bounded hb u,
      hr.trans (d.recomputeOne_reprio u)⟩
  · rintro d u v ⟨-, -, hr⟩ - hv
    rw [hr.chainNext] at hv
    exact hlive v (chainNext_live hv)

theorem bounded_recompute (hb : Bounded c) (x : Option TaskId) : Bounded (c.recompute x) :=
  recomputeChain_induction (I := Bounded) (V := fun _ => True) (fun _ t h _ => recomputeOne_bounded h t)
    (fun _ _ _ _ _ _ => trivial) _ c x hb fun _ _ => trivial

end Core

end Aixos
