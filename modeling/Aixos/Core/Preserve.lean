import Aixos.Core.Steps

/-!
# The invariant of the core

Each step of the core keeps `Sound`. The steps that end a wait come first, then those
that begin one, then tasks, mutexes and the start of the scheduler.
-/

namespace Aixos

namespace Core

open OrderedQueue Sched

variable [cfg : Config]

variable {c c' f : Core} {t : TaskId} {r : Code} {S : TaskId → Prop} {F : Prop}

/-! ### Ending a wait -/

theorem mutexWaiterChanged_bounded (h : Bounded c) (t : TaskId) : Bounded (c.mutexWaiterChanged t) := by
  unfold mutexWaiterChanged
  split
  · exact h
  · exact bounded_recompute h _

theorem queues_mutexWaiterChanged (h : ∃ q, Queues c S F q) (hb : Bounded c)
    (hlive : ∀ u, c.Live u → u < c.nextTask) (t : TaskId) :
    ∃ q, Queues (c.mutexWaiterChanged t) S F q := by
  unfold mutexWaiterChanged
  split
  · exact h
  · exact queues_recompute h hb hlive fun u hu => hlive u (tcbFromHandle_eq_some.mp hu).2

theorem taskDetachWaitLocked_priority (c : Core) (t : TaskId) (r : Code) :
    (c.taskDetachWaitLocked t r).priority = (c.detachWaitNode t).priority := by
  unfold taskDetachWaitLocked
  exact setTask_priority _ t _ rfl

theorem taskDetachWaitLocked_bounded (h : Bounded c) (t : TaskId) (r : Code) :
    Bounded (c.taskDetachWaitLocked t r) := by
  have hd : Bounded (c.detachWaitNode t) := by
    unfold detachWaitNode
    split
    · exact h
    · split
      · exact mutexWaiterChanged_bounded (c := c.waitUnlink _ t) h t
      · exact h
  refine hd.congr (fun u => ?_) fun u => ?_
  · rw [taskDetachWaitLocked_priority]
  · unfold taskDetachWaitLocked
    dsimp only
    rw [setTask_apply]
    split
    · rename_i e; rw [e]
    · rfl

theorem queues_taskDetachWaitLocked (h : ∃ q, Queues c S F q) (hb : Bounded c)
    (hlive : ∀ u, c.Live u → u < c.nextTask) (t : TaskId) (r : Code) :
    ∃ q, Queues (c.taskDetachWaitLocked t r) S F q := by
  have hd : ∃ q, Queues (c.detachWaitNode t) S F q := by
    unfold detachWaitNode
    split
    · exact h
    · split
      · obtain ⟨q, hq⟩ := h
        exact queues_mutexWaiterChanged (c := c.waitUnlink _ t)
          ⟨q, hq.congr rfl rfl rfl fun _ => Iff.rfl⟩ hb hlive t
      · exact h
  obtain ⟨q, hq⟩ := hd
  exact ⟨q, hq.congr rfl (taskDetachWaitLocked_priority c t r) rfl fun _ => Iff.rfl⟩

theorem Lists.isFiled (h : Lists c) : Filed c := fun l t hm => (h.filed l t).mp hm

/-- After a task has been detached it can be in any state in which tasks do not wait. -/
theorem Lists.detach (h : Lists c) (hd : Detached c f t r) (hb : Bounded f) {x : TaskState}
    (hx : x = .ready ∨ x = .suspended) (hl : c.Live t) :
    Lists (f.setTask t fun b => { b with state := x }) := by
  set e := f.setTask t fun b => { b with state := x } with he
  have hself : e.tasks t = { c.tasks t with
      priority := (f.tasks t).priority, wait := none, waitResult := r, state := x } := by
    rw [he, setTask_self, hd.self]
  have hother : ∀ u, u ≠ t → e.tasks u = { c.tasks u with priority := (f.tasks u).priority } := by
    intro u hu
    rw [he, setTask_ne _ _ _ hu]
    exact hd.other u hu
  have hmem : ∀ {l u}, u ∈ e.waitLists l ↔ u ≠ t ∧ u ∈ c.waitLists l := by
    intro l u
    rw [he, setTask_waitLists, (hd.perm l).mem_iff]
    exact (h.nodup l).mem_erase_iff
  have hlive : ∀ u, e.Live u ↔ c.Live u := by
    intro u
    by_cases hu : u = t
    · rw [hu]
      refine iff_of_true ?_ hl
      rw [Live, hself]
      rcases hx with rfl | rfl <;> simp
    · rw [Live, hother u hu]
      rfl
  have hheld : ∀ u, (e.tasks u).heldMutexes = (c.tasks u).heldMutexes := by
    intro u
    by_cases hu : u = t
    · rw [hu, hself]
    · rw [hother u hu]
  have hto : e.timeoutList = c.timeoutList.erase t := by rw [he, setTask_timeoutList, hd.rest]
  have hall : e.allTasks = c.allTasks := by rw [he, setTask_allTasks, hd.rest]
  have hnext : e.nextTask = c.nextTask := by rw [he, setTask_nextTask, hd.rest]
  have hmut : e.mutexes = c.mutexes := by rw [he, setTask_mutexes, hd.rest]
  have hslots : e.slots = c.slots := by rw [he, setTask_slots, hd.rest]
  have hcur : e.cur = c.cur := by rw [he, setTask_cur, hd.rest]
  have hrun : e.running = c.running := by rw [he, setTask_running, hd.rest]
  constructor
  · intro l u
    rw [hmem]
    by_cases hu : u = t
    · rw [hu, hself]
      simp
    · rw [hother u hu]
      simp only [hu, ne_eq, not_false_eq_true, true_and]
      exact h.filed l u
  · exact fun l => (hd.perm l).nodup_iff.mpr ((h.nodup l).erase t)
  · intro u
    by_cases hu : u = t
    · rw [hu, hself]
      rcases hx with rfl | rfl <;> simp
    · rw [hother u hu]
      exact h.waiting u
  · intro u
    by_cases hu : u = t
    · rw [hu, hself]
      rcases hx with rfl | rfl <;> simp
    · rw [hother u hu]
      exact h.delayed u
  · intro u hu
    rw [hto, h.timedNodup.mem_erase_iff] at hu
    rw [hother u hu.1]
    exact h.timed u hu.2
  · rw [hto]
    exact h.timedNodup.erase t
  · intro u
    rw [hall, hlive]
    exact h.all u
  · rw [hall]; exact h.allNodup
  · intro u
    rw [hlive, hnext]
    exact h.fresh u
  · refine hb.congr (fun u => congrFun (setTask_priority f t _ rfl) u) fun u => ?_
    by_cases hu : u = t
    · rw [hu, hself, hd.self]
    · rw [hother u hu, hd.other u hu]
  · intro u m
    rw [hheld, hmut]
    exact h.held u m
  · intro u
    rw [hheld]
    exact h.heldNodup u
  · intro m u
    rw [hmut, hlive]
    exact h.owner_live m u
  · rw [hmut, hslots]; exact h.owner_used
  · rw [hslots]; exact h.slot_lt
  · intro l u k i hu
    rw [hslots]
    exact h.listed l u k i (hmem.mp hu).2
  · refine h.cur.congr hnext hrun hcur fun u hu' => ?_
    by_cases hu : u = t
    · rw [hu, hself] at hu'
      rcases hx with rfl | rfl <;> cases hu'
    · rwa [hother u hu] at hu'

/-- The same, for a state in which all mutexes but those `t` waits for are contested properly. -/
theorem Wf.detach (h : Lists c)
    (hc : ∀ m u, u ≠ t → u ∈ c.waitLists (.mutex m) →
      (c.mutexes m).owner ≠ none ∧ (c.mutexes m).owner ≠ some u)
    (r : Code) {x : TaskState} (hx : x = .ready ∨ x = .suspended) (hl : c.Live t) :
    Wf ((c.taskDetachWaitLocked t r).setTask t fun b => { b with state := x }) := by
  have hd := taskDetachWaitLocked_detached h.isFiled t r
  refine ⟨h.detach hd (taskDetachWaitLocked_bounded h.bounded t r) hx hl, fun m u hu => ?_⟩
  rw [setTask_waitLists, (hd.perm _).mem_iff, (h.nodup _).mem_erase_iff] at hu
  rw [setTask_mutexes, show (c.taskDetachWaitLocked t r).mutexes = c.mutexes by rw [hd.rest]]
  exact hc m u hu.1 hu.2

/-- Waking leaves everything else alone. -/
theorem taskWake_rest (h : Filed c) (t : TaskId) (r : Code) : ∃ f wl s tl a b,
    c.taskWake t r = { c with
      tasks := f, waitLists := wl, sched := s, timeoutList := tl, reschedulePending := a
      switchRequested := b } := by
  unfold taskWake
  split
  · obtain ⟨a, b, e⟩ := schedRequestPreemption_eq
      (((c.taskDetachWaitLocked t r).setTask t fun b => { b with state := .ready }).schedAddTask t)
    dsimp only
    rw [e, (taskDetachWaitLocked_detached h t r).rest]
    exact ⟨_, _, _, _, _, _, rfl⟩
  · exact ⟨_, _, _, _, _, _, rfl⟩

/-- **Waking** a task, also one that has just been made the owner of what it waits for. -/
theorem Sound.wakeOwner (h : Lists c)
    (hc : ∀ m u, u ≠ t → u ∈ c.waitLists (.mutex m) →
      (c.mutexes m).owner ≠ none ∧ (c.mutexes m).owner ≠ some u)
    (hw : (c.tasks t).state = .blocked ∨ (c.tasks t).state = .delayed) (hq : ReadyOk c) (r : Code) :
    Sound (c.taskWake t r) := by
  have hl : c.Live t := by rcases hw with e | e <;> simp [Live, e]
  have hnr : ¬ (c.tasks t).isReady := by
    unfold Tcb.isReady
    rcases hw with e | e <;> simp [e]
  have hd := taskDetachWaitLocked_detached h.isFiled t r
  unfold taskWake
  rw [if_pos hw]
  apply Sound.schedRequestPreemption
  obtain ⟨q, hq⟩ := queues_taskDetachWaitLocked hq h.bounded h.fresh t r
  set d := c.taskDetachWaitLocked t r with hdef
  have hwf : Wf (d.setTask t fun b => { b with state := .ready }) := Wf.detach h hc r (.inl rfl) hl
  have hq₁ : Queues (d.setTask t fun b => { b with state := .ready }) (fun u => (c.tasks u).isReady)
      (c.running = true) q :=
    hq.congr rfl (setTask_priority d t _ rfl) rfl fun _ => Iff.rfl
  obtain ⟨q', hq'⟩ := Exists.intro _ (hq₁.add (t := t) (hq₁.not_mem_of_not hnr _) (hwf.bounded t).1)
  have hrun : (d.setTask t fun b => { b with state := .ready }).running = c.running := by
    rw [setTask_running, hd.rest]
  refine ⟨hwf.similar ⟨rfl, fun _ => Alike.refl _, fun _ => .refl _⟩ hwf.bounded
    (hwf.cur.congr rfl rfl rfl fun _ hu => hu), q', ?_⟩
  rw [show ((d.setTask t fun b => { b with state := .ready }).schedAddTask t).running = c.running from hrun]
  refine hq'.congr rfl rfl rfl fun u => ?_
  rw [schedAddTask_tasks, setTask_apply]
  split
  · rename_i e
    simp [e, Tcb.isReady]
  · rename_i hu
    rw [hd.other u hu]
    simp [hu, Tcb.isReady]

theorem Sound.taskWake (h : Sound c) (t : TaskId) (r : Code) : Sound (c.taskWake t r) := by
  by_cases hw : (c.tasks t).state = .blocked ∨ (c.tasks t).state = .delayed
  · exact Sound.wakeOwner h.wf.toLists (fun m u _ => h.wf.contested m u) hw h.ready r
  · unfold Core.taskWake
    rw [if_neg hw]
    exact h

/-! ### Suspending, resuming and deleting -/

omit cfg in
theorem setTask_setTask (c : Core) (t : TaskId) (g g' : Tcb → Tcb) :
    (c.setTask t g).setTask t g' = c.setTask t fun b => g' (g b) := by
  simp [setTask]

/-- Taking a task off all its lists, wherever it is, and suspending it. -/
theorem Sound.park (h : Sound c) (hl : c.Live t) (r : Code) :
    Sound (((c.schedRemoveTask t).taskDetachWaitLocked t r).setTask t fun b =>
      { b with state := .suspended }) := by
  have h₁ : Wf (c.schedRemoveTask t) :=
    h.wf.similar ⟨rfl, fun _ => Alike.refl _, fun _ => .refl _⟩ h.wf.bounded
      (h.wf.cur.congr rfl rfl rfl fun _ hu => hu)
  obtain ⟨q, hq⟩ := h.ready
  obtain ⟨q', hq'⟩ := hq.remove (h.wf.fresh t hl)
  obtain ⟨q'', hq''⟩ := queues_taskDetachWaitLocked ⟨q', hq'⟩ h₁.bounded h₁.fresh t r
  have hd := taskDetachWaitLocked_detached h₁.isFiled t r
  refine ⟨Wf.detach h₁.toLists (fun m u _ => h₁.contested m u) r (.inr rfl) hl, q'', ?_⟩
  set d := (c.schedRemoveTask t).taskDetachWaitLocked t r with hdef
  rw [setTask_running, show d.running = c.running by rw [hd.rest]; rfl]
  refine hq''.congr rfl (setTask_priority d t _ rfl) rfl fun u => ?_
  rw [setTask_apply]
  split
  · rename_i e
    simp [e, Tcb.isReady]
  · rename_i hu
    rw [hd.other u hu]
    simp [hu, Tcb.isReady]

omit cfg in
theorem setTask_congr {g g' : Tcb → Tcb} (h : g (c.tasks t) = g' (c.tasks t)) :
    c.setTask t g = c.setTask t g' := by
  unfold setTask
  rw [h]

omit cfg in
/-- Suspending a task that does not wait detaches nothing. -/
theorem taskDetachWaitLocked_of_wait_none (hw : (c.tasks t).wait = none) (hm : t ∉ c.timeoutList)
    (r : Code) [Config] : c.taskDetachWaitLocked t r = c.setTask t fun b => { b with waitResult := r } := by
  have h₁ : c.detachWaitNode t = c := by
    unfold detachWaitNode Tcb.waitList
    rw [hw]
    rfl
  unfold taskDetachWaitLocked
  dsimp only
  rw [h₁, List.erase_of_not_mem hm]
  refine setTask_congr (c := c) ?_
  rw [← hw]

theorem Sound.requestIfCur (h : Sound c) (t : TaskId) :
    Sound (if c.cur = some t then c.rescheduleRequest else c) := by
  split
  · exact h.rescheduleRequest
  · exact h

theorem Sound.suspendTask (h : Sound c) (hl : c.Live t) : Sound (c.suspendTask t) := by
  have hp := h.park (r := Code.intr) hl
  unfold Core.suspendTask
  dsimp only
  have key : Sound ((if (c.tasks t).state = .blocked ∨ (c.tasks t).state = .delayed then
      (c.schedRemoveTask t).taskDetachWaitLocked t Code.intr else c.schedRemoveTask t).setTask t
        fun b => { b with state := .suspended }) := by
    split
    · exact hp
    · rename_i hw
      have hw := h.wf.wait_eq_none hw
      rw [taskDetachWaitLocked_of_wait_none (c := c.schedRemoveTask t) hw (h.wf.not_mem_timeoutList hw),
        setTask_setTask] at hp
      have e := hp.setTask (t := t) (f := fun b => { b with waitResult := (c.tasks t).waitResult })
        ⟨rfl, rfl, .inl rfl⟩ rfl rfl (hp.wf.cur.run t)
      rw [setTask_setTask] at e
      exact e
  exact key.requestIfCur t

theorem Sound.resumeTask (h : Sound c) (hs : (c.tasks t).state = .suspended) : Sound (c.resumeTask t) := by
  unfold Core.resumeTask
  apply Sound.schedRequestPreemption
  have hl : c.Live t := by simp [Live, hs]
  have hw : (c.tasks t).wait = none := h.wf.wait_eq_none (by simp [hs])
  have hnr : ¬ (c.tasks t).isReady := by simp [Tcb.isReady, hs]
  -- a task that does not wait is as good as detached
  have hwf : Wf (c.setTask t fun b => { b with state := .ready }) := by
    have := Wf.detach h.wf.toLists (fun m u _ => h.wf.contested m u) (c.tasks t).waitResult (.inl rfl) hl
    rwa [taskDetachWaitLocked_of_wait_none hw (h.wf.not_mem_timeoutList hw), setTask_setTask] at this
  obtain ⟨q, hq⟩ := h.ready
  have hq₁ : Queues (c.setTask t fun b => { b with state := .ready }) (fun u => (c.tasks u).isReady)
      (c.running = true) q :=
    hq.congr rfl (setTask_priority c t _ rfl) rfl fun _ => Iff.rfl
  obtain ⟨q', hq'⟩ := Exists.intro _ (hq₁.add (t := t) (hq₁.not_mem_of_not hnr _) (hwf.bounded t).1)
  refine ⟨hwf.similar ⟨rfl, fun _ => Alike.refl _, fun _ => .refl _⟩ hwf.bounded
    (hwf.cur.congr rfl rfl rfl fun _ hu => hu), q', ?_⟩
  refine hq'.congr rfl rfl rfl fun u => ?_
  rw [schedAddTask_tasks, setTask_apply]
  split
  · rename_i e
    simp [e, Tcb.isReady]
  · rename_i hu
    simp [hu]

/-- A suspended task that holds no mutex can be taken out of the system. -/
theorem Sound.stop (h : Sound c) (hs : (c.tasks t).state = .suspended)
    (hh : (c.tasks t).heldMutexes = []) :
    Sound ({ c with allTasks := c.allTasks.erase t }.setTask t fun b => { b with state := .stop }) := by
  have hw : (c.tasks t).wait = none := h.wf.wait_eq_none (by simp [hs])
  have hne : ∀ {u}, u ≠ t →
      ({ c with allTasks := c.allTasks.erase t }.setTask t fun b => { b with state := .stop }).tasks u =
        c.tasks u := fun hu => setTask_ne _ _ _ hu
  have hlive : ∀ u, ({ c with allTasks := c.allTasks.erase t }.setTask t fun b =>
      { b with state := .stop }).Live u ↔ u ≠ t ∧ c.Live u := by
    intro u
    by_cases hu : u = t
    · simp [Live, hu]
    · rw [Live, hne hu]
      simp [Live, hu]
  have hown : ∀ m u, (c.mutexes m).owner = some u → u ≠ t := by
    rintro m u ho rfl
    have := (h.wf.held u m).mpr ho
    simp [hh] at this
  refine ⟨⟨{ h.wf with
    filed := ?_, waiting := ?_, delayed := ?_, timed := ?_, all := ?_, allNodup := ?_, fresh := ?_
    bounded := ?_, held := ?_, heldNodup := ?_, owner_live := ?_, cur := ?_ }, h.wf.contested⟩, ?_⟩
  · intro l u
    by_cases hu : u = t
    · rw [hu]
      simp only [setTask_waitLists, setTask_self, hw, reduceCtorEq, iff_false]
      exact h.wf.not_mem_waitLists hw l
    · rw [hne hu]
      exact h.wf.filed l u
  · intro u
    by_cases hu : u = t
    · simp [hu, hw]
    · rw [hne hu]
      exact h.wf.waiting u
  · intro u
    by_cases hu : u = t
    · simp [hu, hw]
    · rw [hne hu]
      exact h.wf.delayed u
  · intro u hm
    have hu : u ≠ t := by rintro rfl; exact h.wf.timed u hm hw
    rw [hne hu]
    exact h.wf.timed u hm
  · intro u
    rw [hlive, setTask_allTasks, h.wf.allNodup.mem_erase_iff, h.wf.all]
  · exact h.wf.allNodup.erase t
  · intro u hu
    exact h.wf.fresh u ((hlive u).mp hu).2
  · refine h.wf.bounded.congr
      (fun u => congrFun (setTask_priority { c with allTasks := c.allTasks.erase t } t _ rfl) u) fun u => ?_
    by_cases hu : u = t
    · simp [hu]
    · rw [hne hu]
  · intro u m
    by_cases hu : u = t
    · rw [hu, setTask_self]
      exact h.wf.held t m
    · rw [hne hu]
      exact h.wf.held u m
  · intro u
    by_cases hu : u = t
    · rw [hu, setTask_self]
      exact h.wf.heldNodup t
    · rw [hne hu]
      exact h.wf.heldNodup u
  · intro m u ho
    exact (hlive u).mpr ⟨hown m u ho, h.wf.owner_live m u ho⟩
  · refine h.wf.cur.congr rfl rfl rfl fun u hu' => ?_
    by_cases hu : u = t
    · simp [hu] at hu'
    · rwa [hne hu] at hu'
  · obtain ⟨q, hq⟩ := h.ready
    refine ⟨q, hq.congr rfl (setTask_priority { c with allTasks := c.allTasks.erase t } t _ rfl) rfl
      fun u => ?_⟩
    by_cases hu : u = t
    · simp [hu, Tcb.isReady, hs]
    · rw [hne hu]

theorem Sound.deleteTask (h : Sound c) (hl : c.Live t) (hh : (c.tasks t).heldMutexes = []) :
    Sound (c.deleteTask t) := by
  have hp := h.park (r := Code.intr) hl
  have h₁ : Filed (c.schedRemoveTask t) := h.wf.isFiled
  have hd := taskDetachWaitLocked_detached h₁ t Code.intr
  have hs := hp.stop (by rw [setTask_self]) (by
    rw [setTask_self, hd.self]
    exact hh)
  unfold Core.deleteTask
  dsimp only
  rw [show ∀ d : Core, ({ d.setTask t (fun b => { b with state := .suspended }) with
      allTasks := (d.setTask t fun b => { b with state := .suspended }).allTasks.erase t } : Core) =
      ({ d with allTasks := d.allTasks.erase t } : Core).setTask t fun b => { b with state := .suspended }
    from fun _ => rfl, setTask_setTask] at hs
  exact hs.requestIfCur t

/-! ### Changing priorities -/

/-- A change of priorities that keeps the ready queues. -/
theorem Sound.reprio (h : Sound c) (r : Reprio c c') (hb : Bounded c')
    (hq : ∃ q, Queues c' (fun u => (c.tasks u).isReady) (c.running = true) q) : Sound c' := by
  refine ⟨h.wf.reprio r hb, ?_⟩
  obtain ⟨q, hq⟩ := hq
  refine ⟨q, ?_⟩
  rw [show c'.running = c.running by rw [r.rest]]
  exact hq.congr rfl rfl rfl r.isReady

theorem Sound.recompute (h : Sound c) {x : Option TaskId} (hx : ∀ u, x = some u → u < c.nextTask) :
    Sound (c.recompute x) :=
  h.reprio (recompute_reprio c x) (bounded_recompute h.wf.bounded x)
    (queues_recompute h.ready h.wf.bounded h.wf.fresh hx)

theorem Sound.recomputeOwner (h : Sound c) (o : Option TaskId) : Sound (c.recompute (c.tcbFromHandle o)) :=
  h.recompute fun u hu => h.wf.fresh u (tcbFromHandle_eq_some.mp hu).2

theorem Sound.mutexWaiterChanged (h : Sound c) (t : TaskId) : Sound (c.mutexWaiterChanged t) := by
  unfold Core.mutexWaiterChanged
  split
  · exact h
  · exact h.recomputeOwner _

theorem Sound.taskWaiterPriorityChanged (h : Sound c) (t : TaskId) : Sound (c.taskWaiterPriorityChanged t) := by
  obtain ⟨w, e, hw, -⟩ := c.taskWaiterPriorityChanged_eq t
  rw [e]
  exact h.similar ⟨rfl, fun _ => Alike.refl _, hw⟩ rfl rfl (fun _ => rfl)
    (h.wf.cur.congr rfl rfl rfl fun _ hu => hu)

theorem Sound.mutexTaskPriorityChanged (h : Sound c) (ht : t < c.nextTask) :
    Sound (c.mutexTaskPriorityChanged t) := by
  have r := c.taskWaiterPriorityChanged_reprio t
  have h₁ := h.taskWaiterPriorityChanged t
  unfold Core.mutexTaskPriorityChanged
  dsimp only
  set d := c.taskWaiterPriorityChanged t with hd
  have hnext : t < d.nextTask := by rw [r.nextTask]; exact ht
  split
  · exact h₁.recompute fun u hu => by cases hu; exact hnext
  · split
    · refine (h₁.recomputeOwner _).recompute fun u hu => ?_
      cases hu
      rw [(recompute_reprio d _).nextTask]
      exact hnext
    · exact h₁.recompute fun u hu => by cases hu; exact hnext

theorem Sound.setPriorityTask (h : Sound c) (hl : c.Live t) {p : ℕ} (hp : p < cfg.maxPriority) :
    Sound (c.setPriorityTask t p) := by
  have ht := h.wf.fresh t hl
  unfold Core.setPriorityTask
  dsimp only
  refine Sound.schedRequestPreemption (Sound.mutexTaskPriorityChanged ⟨?_, ?_⟩ ht)
  · refine h.wf.similar ⟨rfl, fun u => ?_, fun _ => .refl _⟩ (fun u => ?_)
      (h.wf.cur.congr rfl rfl rfl fun u hu => ?_)
    · rw [schedRequeueTask_tasks, setTask_apply]
      split
      · rename_i e
        rw [e]
        exact ⟨rfl, rfl, .inl rfl⟩
      · exact Alike.refl _
    · rw [priority, schedRequeueTask_tasks, setTask_apply]
      split
      · exact ⟨hp, hp⟩
      · exact h.wf.bounded u
    · rw [schedRequeueTask_tasks, setTask_apply] at hu
      split at hu
      · rename_i e
        rw [e]
        exact hu
      · exact hu
  · obtain ⟨q, hq⟩ := h.ready
    obtain ⟨q', hq'⟩ := hq.requeue (f := fun b => { b with basePriority := p, priority := p }) rfl ht
      (h.wf.bounded t).1 hp
    refine ⟨q', hq'.congr rfl rfl rfl fun u => ?_⟩
    rw [schedRequeueTask_tasks, setTask_apply]
    split
    · rename_i e
      rw [e]
      rfl
    · exact Iff.rfl

/-! ### Blocking -/

/-- The first half of `aixos_task_block_current`: the task is off the ready structure and on the
list it waits in. -/
def blockLink (c : Core) (t : TaskId) (w : Wait) : Core :=
  let c := c.setTask t fun b =>
    { b with
      state := if w = .delay then .delayed else .blocked, wait := some w, waitResult := Code.ok }
  let c := c.schedRemoveTask t
  match w.waitList with
  | none => c
  | some l => c.taskWaitInsertPriority l t

/-- Its end: the timeout. -/
def timeoutStart (c : Core) (t : TaskId) (ms : Word) : Core :=
  if msToTicks ms = forever then c
  else (c.setTask t fun b => { b with wakeTick := c.getTick + msToTicks ms }).timeoutInsert t

theorem blockTask_eq (c : Core) (t : TaskId) (w : Wait) (ms : Word) : c.blockTask t w ms =
    (((c.blockLink t w).mutexWaiterChanged t).timeoutStart t ms).rescheduleRequest := rfl

omit cfg in
/-- What `blockLink` does. -/
theorem blockLink_eq (c : Core) (t : TaskId) (w : Wait) : ∃ wl,
    c.blockLink t w = { (c.setTask t fun b =>
      { b with
        state := if w = .delay then .delayed else .blocked, wait := some w, waitResult := Code.ok }) with
          sched := c.sched.removeTask t (c.priority t), waitLists := wl } ∧
    (∀ l, w = .list l → wl l = insertByKey c.priority t (c.waitLists l)) ∧
    ∀ l, w ≠ .list l → wl l = c.waitLists l := by
  have hp : ∀ s, (c.setTask t fun b =>
      { b with state := s, wait := some w, waitResult := Code.ok }).priority = c.priority :=
    fun s => setTask_priority c t _ rfl
  unfold blockLink
  cases w with
  | list l =>
    refine ⟨Function.update c.waitLists l (insertByKey c.priority t (c.waitLists l)), ?_, ?_, ?_⟩
    · dsimp only [Wait.waitList, schedRemoveTask, taskWaitInsertPriority]
      rw [show ∀ s w', ({ c.setTask t fun b => { b with state := s, wait := some (.list l), waitResult := Code.ok }
        with sched := w' } : Core).priority = c.priority from fun s _ => hp s, hp]
      rfl
    · rintro l' ⟨⟩
      rw [Function.update_self]
    · intro l' hl
      rw [Function.update_of_ne]
      rintro rfl
      exact hl rfl
  | delay | notify | msgSend | msgReceive =>
    refine ⟨c.waitLists, ?_, fun l hl => (by cases hl), fun _ _ => rfl⟩
    dsimp only [Wait.waitList, schedRemoveTask]
    rw [hp]
    rfl

theorem Sound.blockLink (h : Sound c) {w : Wait} (hb : MayBlock c t w) : Sound (c.blockLink t w) := by
  have hr : (c.tasks t).isReady := .inr hb.state
  have hw : (c.tasks t).wait = none := h.wf.wait_eq_none_of_isReady hr
  have hl : c.Live t := Tcb.isReady_live hr
  obtain ⟨wl, e, hin, hout⟩ := blockLink_eq c t w
  have hself : ((c.blockLink t w).tasks t) = { c.tasks t with
      state := if w = .delay then .delayed else .blocked, wait := some w, waitResult := Code.ok } := by
    rw [e]
    exact Function.update_self ..
  have hother : ∀ u, u ≠ t → (c.blockLink t w).tasks u = c.tasks u := by
    intro u hu
    rw [e]
    exact Function.update_of_ne hu ..
  have hlists : (c.blockLink t w).waitLists = wl := by rw [e]
  have hmem : ∀ {l u}, u ∈ wl l ↔ u ∈ c.waitLists l ∨ u = t ∧ w = .list l := by
    intro l u
    by_cases hwl : w = .list l
    · rw [hin l hwl]
      simp [insertByKey, hwl, or_comm]
    · simp [hout l hwl, hwl]
  have hlive : ∀ u, (c.blockLink t w).Live u ↔ c.Live u := by
    intro u
    by_cases hu : u = t
    · rw [hu]
      refine iff_of_true ?_ hl
      rw [Live, hself]
      split <;> simp
    · rw [Live, hother u hu]
      rfl
  have hprio : ∀ u, (c.blockLink t w).priority u = c.priority u := by
    intro u
    by_cases hu : u = t
    · rw [hu, priority, hself]
      rfl
    · rw [priority, hother u hu]
      rfl
  have hheld : ∀ u, ((c.blockLink t w).tasks u).heldMutexes = (c.tasks u).heldMutexes := by
    intro u
    by_cases hu : u = t
    · rw [hu, hself]
    · rw [hother u hu]
  have hmut : (c.blockLink t w).mutexes = c.mutexes := by rw [e]; rfl
  have hslots : (c.blockLink t w).slots = c.slots := by rw [e]; rfl
  have hstate : ((c.blockLink t w).tasks t).state ≠ .running := by
    rw [hself]
    dsimp only
    split <;> simp
  refine ⟨⟨?_, ?_⟩, ?_⟩
  · constructor
    · intro l u
      rw [hlists, hmem]
      by_cases hu : u = t
      · rw [hu, hself]
        simp [h.wf.not_mem_waitLists hw l]
      · rw [hother u hu]
        simp only [hu, false_and, or_false]
        exact h.wf.filed l u
    · intro l
      rw [hlists]
      by_cases hwl : w = .list l
      · rw [hin l hwl]
        exact nodup_insertBefore.mpr ⟨h.wf.not_mem_waitLists hw l, h.wf.nodup l⟩
      · rw [hout l hwl]
        exact h.wf.nodup l
    · intro u
      by_cases hu : u = t
      · rw [hu, hself]
        dsimp only
        split <;> simp
      · rw [hother u hu]
        exact h.wf.waiting u
    · intro u
      by_cases hu : u = t
      · rw [hu, hself]
        dsimp only
        split <;> simp [*]
      · rw [hother u hu]
        exact h.wf.delayed u
    · intro u hu
      rw [show (c.blockLink t w).timeoutList = c.timeoutList by rw [e]; rfl] at hu
      have hut : u ≠ t := by rintro rfl; exact h.wf.timed u hu hw
      rw [hother u hut]
      exact h.wf.timed u hu
    · rw [show (c.blockLink t w).timeoutList = c.timeoutList by rw [e]; rfl]
      exact h.wf.timedNodup
    · intro u
      rw [show (c.blockLink t w).allTasks = c.allTasks by rw [e]; rfl, hlive]
      exact h.wf.all u
    · rw [show (c.blockLink t w).allTasks = c.allTasks by rw [e]; rfl]
      exact h.wf.allNodup
    · intro u
      rw [hlive, show (c.blockLink t w).nextTask = c.nextTask by rw [e]; rfl]
      exact h.wf.fresh u
    · refine h.wf.bounded.congr hprio fun u => ?_
      by_cases hu : u = t
      · rw [hu, hself]
      · rw [hother u hu]
    · intro u m
      rw [hheld, hmut]
      exact h.wf.held u m
    · intro u
      rw [hheld]
      exact h.wf.heldNodup u
    · intro m u
      rw [hmut, hlive]
      exact h.wf.owner_live m u
    · rw [hmut, hslots]; exact h.wf.owner_used
    · rw [hslots]; exact h.wf.slot_lt
    · intro l u k i hu
      rw [hlists, hmem] at hu
      rw [hslots]
      rcases hu with hu | ⟨-, hu⟩
      · exact h.wf.listed l u k i hu
      · exact hb.used l k i hu
    · refine h.wf.cur.congr (by rw [e]; rfl) (by rw [e]; rfl) (by rw [e]; rfl) fun u hu' => ?_
      by_cases hu : u = t
      · rw [hu] at hu'
        exact absurd hu' hstate
      · rwa [hother u hu] at hu'
  · intro m u hu
    rw [hlists, hmem] at hu
    rw [hmut]
    rcases hu with hu | ⟨rfl, hu⟩
    · exact h.wf.contested m u hu
    · exact hb.owned m hu
  · obtain ⟨q, hq⟩ := h.ready
    obtain ⟨q', hq'⟩ := hq.remove (h.wf.fresh t hl)
    refine ⟨q', ?_⟩
    rw [show (c.blockLink t w).running = c.running by rw [e]; rfl]
    refine hq'.congr (by rw [e]; rfl) (funext hprio) (by rw [e]; rfl) fun u => ?_
    by_cases hu : u = t
    · rw [hu, hself, Tcb.isReady]
      dsimp only
      split <;> simp
    · rw [hother u hu]
      simp [hu]

theorem Sound.timeoutStart (h : Sound c) (hw : (c.tasks t).wait ≠ none) (hm : t ∉ c.timeoutList)
    (ms : Word) : Sound (c.timeoutStart t ms) := by
  unfold Core.timeoutStart
  split
  · exact h
  · have h₁ := h.setTask (t := t) (f := fun b => { b with wakeTick := c.getTick + msToTicks ms })
      ⟨rfl, rfl, .inl rfl⟩ rfl rfl (h.wf.cur.run t)
    refine ⟨⟨{ h₁.wf with timed := ?_, timedNodup := ?_, cur := ?_ }, h₁.wf.contested⟩, ?_⟩
    · intro u hu
      rcases mem_insertBefore.mp hu with rfl | hu
      · have e := setTask_self c u fun b => { b with wakeTick := c.getTick + msToTicks ms }
        exact fun hn => hw ((congrArg Tcb.wait e).symm.trans hn)
      · exact h₁.wf.timed u hu
    · exact nodup_insertBefore.mpr ⟨hm, h.wf.timedNodup⟩
    · exact h₁.wf.cur.congr rfl rfl rfl fun _ hu => hu
    · obtain ⟨q, hq⟩ := h₁.ready
      exact ⟨q, hq.congr rfl rfl rfl fun _ => Iff.rfl⟩

theorem Sound.blockTask (h : Sound c) {w : Wait} (hb : MayBlock c t w) (ms : Word) :
    Sound (c.blockTask t w ms) := by
  have hw : (c.tasks t).wait = none := h.wf.wait_eq_none_of_isReady (.inr hb.state)
  obtain ⟨wl, e, -⟩ := blockLink_eq c t w
  have r : Reprio (c.blockLink t w) ((c.blockLink t w).mutexWaiterChanged t) :=
    mutexWaiterChanged_reprio ..
  rw [blockTask_eq]
  refine (Sound.timeoutStart ((h.blockLink hb).mutexWaiterChanged t) ?_ ?_ ms).rescheduleRequest
  · rw [r.wait, e, setTask_self]
    exact Option.some_ne_none w
  · rw [r.timeoutList, e]
    exact h.wf.not_mem_timeoutList hw

end Core

end Aixos
