import Aixos.Core.Reprioritize
import Aixos.Library.Transition

/-!
# Well-formed core states

The invariant of the core: every task is linked where its control block says it is,
and mutexes and their owners agree.

* `Wf c` — states, wait lists, the timeout list, mutexes and slots agree.
* `ReadyOk c` — the ready structure is well formed and holds the tasks that are READY
  or RUNNING; before `aixos_start` it may hold only some of them.
* `Detached` — what `task_detach_wait_locked` does, up to the priorities it changes.
-/

namespace Aixos

theorem Tcb.isReady_live {b : Tcb} (h : b.isReady) : b.state ≠ .stop := by
  rcases h with h | h <;> simp [h]

theorem Tcb.waitList_eq_some {b : Tcb} {l : WaitList} : b.waitList = some l ↔ b.wait = some (.list l) := by
  unfold Tcb.waitList
  cases hb : b.wait with
  | none => simp
  | some w => cases w <;> simp [Wait.waitList]

theorem Tcb.waitMutex_eq_some {b : Tcb} {m : ℕ} :
    b.waitMutex = some m ↔ b.wait = some (.list (.mutex m)) := by
  unfold Tcb.waitMutex
  split
  · simp_all
  · rename_i h
    simp only [reduceCtorEq, false_iff]
    exact h m

namespace Core

open OrderedQueue

variable [cfg : Config]

/-- The current task. -/
structure CurOk (c : Core) : Prop where
  /-- It has been created. -/
  lt : ∀ t, c.cur = some t → t < c.nextTask
  /-- There is none before the scheduler is started. -/
  none : c.running = false → c.cur = none
  /-- No other task is RUNNING. -/
  run : ∀ t, (c.tasks t).state = .running → c.cur = some t

/-- The lists, the control blocks and the mutexes agree. -/
structure Lists (c : Core) : Prop where
  /-- A task is in the wait list it records, and in no other. -/
  filed : ∀ l t, t ∈ c.waitLists l ↔ (c.tasks t).wait = some (.list l)
  /-- It is there once. -/
  nodup : ∀ l, (c.waitLists l).Nodup
  /-- The tasks that wait are those BLOCKED or DELAYED. -/
  waiting : ∀ t, (c.tasks t).wait ≠ none ↔ (c.tasks t).state = .blocked ∨ (c.tasks t).state = .delayed
  /-- A sleeping task is DELAYED. -/
  delayed : ∀ t, (c.tasks t).state = .delayed ↔ (c.tasks t).wait = some .delay
  /-- Only waiting tasks have a timeout. -/
  timed : ∀ t ∈ c.timeoutList, (c.tasks t).wait ≠ none
  /-- Each has one timeout. -/
  timedNodup : c.timeoutList.Nodup
  /-- `all_task_list` holds the live tasks. -/
  all : ∀ t, t ∈ c.allTasks ↔ c.Live t
  /-- Each once. -/
  allNodup : c.allTasks.Nodup
  /-- A live task has been created. -/
  fresh : ∀ t, c.Live t → t < c.nextTask
  /-- Priorities are in range. -/
  bounded : Bounded c
  /-- A task holds the mutexes it owns. -/
  held : ∀ t m, m ∈ (c.tasks t).heldMutexes ↔ (c.mutexes m).owner = some t
  /-- Each once. -/
  heldNodup : ∀ t, (c.tasks t).heldMutexes.Nodup
  /-- Owners are live. -/
  owner_live : ∀ m t, (c.mutexes m).owner = some t → c.Live t
  /-- Only a mutex in use has an owner. -/
  owner_used : ∀ m, (c.mutexes m).owner ≠ none → (c.slots .mutex m).used = true
  /-- Slots in use are in the pool. -/
  slot_lt : ∀ k i, (c.slots k i).used = true → i < cfg.maxCount k
  /-- An object that is waited for is in use. -/
  listed : ∀ l t k i, t ∈ c.waitLists l → l.object = some (k, i) → (c.slots k i).used = true
  /-- The current task is the one that runs. -/
  cur : CurOk c

/-- The invariant of the core. -/
structure Wf (c : Core) : Prop extends Lists c where
  /-- A mutex that is waited for is owned, by another task. -/
  contested : ∀ m t, t ∈ c.waitLists (.mutex m) →
    (c.mutexes m).owner ≠ none ∧ (c.mutexes m).owner ≠ some t

/-- The ready structure holds the tasks that are ready; all of them, once the scheduler runs. -/
def ReadyOk (c : Core) : Prop :=
  ∃ q, Queues c (fun t => (c.tasks t).isReady) (c.running = true) q

theorem lists_init : Lists init where
  filed l t := by simp [init]
  nodup l := List.nodup_nil
  waiting t := by simp [init]
  delayed t := by simp [init]
  timed t ht := by simp [init] at ht
  timedNodup := List.nodup_nil
  all t := by simp [init, Live]
  allNodup := List.nodup_nil
  fresh t ht := by simp [init, Live] at ht
  bounded t := by
    have := cfg.maxPriority_ge
    exact ⟨by simp [init, priority]; omega, by simp [init]; omega⟩
  held t m := by simp [init]
  heldNodup t := List.nodup_nil
  owner_live m t h := by simp [init] at h
  owner_used m h := by simp [init] at h
  slot_lt k i h := by simp [init] at h
  listed l t k i h := by simp [init] at h
  cur := ⟨fun t h => by simp [init] at h, fun _ => rfl, fun t h => by simp [init] at h⟩

theorem wf_init : Wf init := ⟨lists_init, fun m t h => by simp [init] at h⟩

theorem readyOk_init : ReadyOk init :=
  ⟨fun _ => [], Sched.holds_init, by simp, fun t ht => by simp [init] at ht, fun t ht => by
    simp [init] at ht⟩

variable {c c' : Core} {t : TaskId}

/-- Two control blocks that differ only in what the invariant does not look at, their
priorities aside. -/
structure Alike (b b' : Tcb) : Prop where
  wait : b'.wait = b.wait
  heldMutexes : b'.heldMutexes = b.heldMutexes
  state : b'.state = b.state ∨ b.isReady ∧ b'.isReady

omit cfg in
theorem Alike.refl (b : Tcb) : Alike b b := ⟨rfl, rfl, .inl rfl⟩

omit cfg in
theorem Alike.isReady {b b' : Tcb} (h : Alike b b') : b'.isReady ↔ b.isReady := by
  rcases h.state with e | ⟨h₁, h₂⟩
  · unfold Tcb.isReady
    rw [e]
  · simp [h₁, h₂]

omit cfg in
theorem Alike.state_iff {b b' : Tcb} (h : Alike b b') {x : TaskState} (h₁ : x ≠ .ready)
    (h₂ : x ≠ .running) : b'.state = x ↔ b.state = x := by
  rcases h.state with e | ⟨h | h, h' | h'⟩
  · rw [e]
  all_goals simp [h, h', h₁.symm, h₂.symm]

/-- The parts of the state the invariant is about are the same, priorities and the order
inside the wait lists aside. -/
structure Similar (c c' : Core) : Prop where
  rest : c' = { c with
    tasks := c'.tasks, waitLists := c'.waitLists, sched := c'.sched, cur := c'.cur
    isrNesting := c'.isrNesting, schedLock := c'.schedLock
    reschedulePending := c'.reschedulePending, switchRequested := c'.switchRequested
    totalTicks := c'.totalTicks }
  task : ∀ t, Alike (c.tasks t) (c'.tasks t)
  perm : ∀ l, (c'.waitLists l).Perm (c.waitLists l)

omit cfg in
theorem Similar.live (s : Similar c c') (t : TaskId) : c'.Live t ↔ c.Live t := by
  unfold Live
  rw [ne_eq, ne_eq, (s.task t).state_iff (by simp) (by simp)]

omit cfg in
theorem Reprio.similar (r : Reprio c c') : Similar c c' where
  rest := by rw [r.rest]
  task t := by
    rw [r.task t]
    exact ⟨rfl, rfl, .inl rfl⟩
  perm := r.perm

omit cfg in
/-- Nothing the statement about the current task looks at has changed, except that a task may
not be RUNNING any more. -/
theorem CurOk.congr (h : CurOk c) (hn : c'.nextTask = c.nextTask) (hr : c'.running = c.running)
    (hc : c'.cur = c.cur) (hs : ∀ t, (c'.tasks t).state = .running → (c.tasks t).state = .running) :
    CurOk c' where
  lt := by rw [hc, hn]; exact h.lt
  none := by rw [hr, hc]; exact h.none
  run t ht := by rw [hc]; exact h.run t (hs t ht)

omit cfg in
theorem CurOk.reprio (h : CurOk c) (r : Reprio c c') : CurOk c' :=
  h.congr r.nextTask (by rw [r.rest]) r.cur fun t ht => by rwa [r.state] at ht

theorem Bounded.congr (h : Bounded c) (hp : ∀ t, c'.priority t = c.priority t)
    (hb : ∀ t, (c'.tasks t).basePriority = (c.tasks t).basePriority) : Bounded c' := by
  intro t
  rw [hp, hb]
  exact h t

namespace Lists

theorem wait_eq_none (h : Lists c) (hs : ¬ ((c.tasks t).state = .blocked ∨ (c.tasks t).state = .delayed)) :
    (c.tasks t).wait = none := by
  by_contra hne
  exact hs ((h.waiting t).mp hne)

theorem wait_eq_none_of_isReady (h : Lists c) (hr : (c.tasks t).isReady) : (c.tasks t).wait = none :=
  h.wait_eq_none (by rcases hr with hr | hr <;> simp [hr])

theorem not_mem_timeoutList (h : Lists c) (hw : (c.tasks t).wait = none) : t ∉ c.timeoutList :=
  fun hm => h.timed t hm hw

theorem not_mem_waitLists (h : Lists c) (hw : (c.tasks t).wait = none) (l : WaitList) :
    t ∉ c.waitLists l := fun hm => by simp [(h.filed l t).mp hm] at hw

theorem isReady_lt (h : Lists c) (hr : (c.tasks t).isReady) : t < c.nextTask :=
  h.fresh t (Tcb.isReady_live hr)

theorem similar (h : Lists c) (s : Similar c c') (hb : Bounded c') (hcur : CurOk c') :
    Lists c' := by
  have e := s.rest
  have hw : ∀ {l t}, t ∈ c'.waitLists l ↔ t ∈ c.waitLists l := (s.perm _).mem_iff
  have hto : c'.timeoutList = c.timeoutList := by rw [e]
  have ha : c'.allTasks = c.allTasks := by rw [e]
  have hn : c'.nextTask = c.nextTask := by rw [e]
  have hm : c'.mutexes = c.mutexes := by rw [e]
  have hs : c'.slots = c.slots := by rw [e]
  constructor
  · intro l t
    rw [hw, (s.task t).wait]
    exact h.filed l t
  · exact fun l => (s.perm l).nodup_iff.mpr (h.nodup l)
  · intro t
    rw [(s.task t).wait, (s.task t).state_iff (by simp) (by simp),
      (s.task t).state_iff (by simp) (by simp)]
    exact h.waiting t
  · intro t
    rw [(s.task t).wait, (s.task t).state_iff (by simp) (by simp)]
    exact h.delayed t
  · intro t
    rw [hto, (s.task t).wait]
    exact h.timed t
  · rw [hto]; exact h.timedNodup
  · intro t
    rw [ha, s.live]
    exact h.all t
  · rw [ha]; exact h.allNodup
  · intro t
    rw [hn, s.live]
    exact h.fresh t
  · exact hb
  · intro t m
    rw [hm, (s.task t).heldMutexes]
    exact h.held t m
  · intro t
    rw [(s.task t).heldMutexes]
    exact h.heldNodup t
  · intro m t
    rw [hm, s.live]
    exact h.owner_live m t
  · rw [hm, hs]; exact h.owner_used
  · rw [hs]; exact h.slot_lt
  · intro l t k i
    rw [hs, hw]
    exact h.listed l t k i
  · exact hcur

end Lists

namespace Wf

theorem similar (h : Wf c) (s : Similar c c') (hb : Bounded c') (hcur : CurOk c') :
    Wf c' where
  toLists := h.toLists.similar s hb hcur
  contested m t := by
    rw [show c'.mutexes = c.mutexes by rw [s.rest], (s.perm _).mem_iff]
    exact h.contested m t

theorem reprio (h : Wf c) (r : Reprio c c') (hb : Bounded c') : Wf c' :=
  h.similar r.similar hb (h.cur.reprio r)

end Wf

/-! ### Detaching a task -/

/-- `f` is `c` with task `t` taken off its wait list and the timeout list, up to priorities. -/
structure Detached (c f : Core) (t : TaskId) (r : Code) : Prop where
  /-- Only these fields differ. -/
  rest : f = { c with
    tasks := f.tasks, waitLists := f.waitLists, sched := f.sched
    timeoutList := c.timeoutList.erase t }
  /-- The task waits no longer. -/
  self : f.tasks t = { c.tasks t with
    priority := (f.tasks t).priority, wait := none, waitResult := r }
  /-- Of the other tasks only the current priority differs. -/
  other : ∀ u, u ≠ t → f.tasks u = { c.tasks u with priority := (f.tasks u).priority }
  /-- The wait lists hold the same other tasks. -/
  perm : ∀ l, (f.waitLists l).Perm ((c.waitLists l).erase t)

/-- Every task in a wait list records it. -/
def Filed (c : Core) : Prop := ∀ l t, t ∈ c.waitLists l → (c.tasks t).wait = some (.list l)

omit cfg in
theorem waitUnlink_filed (h : Filed c) {l : WaitList} (hl : (c.tasks t).wait = some (.list l)) :
    c.waitUnlink l t = { c with waitLists := fun l => (c.waitLists l).erase t } := by
  unfold waitUnlink
  congr 1
  funext l'
  rw [Function.update_apply]
  split
  · rename_i e; rw [e]
  · rename_i hne
    rw [List.erase_of_not_mem]
    intro hm
    have := (h l' t hm).symm.trans hl
    exact hne (by simpa using this)

/-- The first half of `task_detach_wait_locked` is the removal from the wait list followed by a
change of priorities. -/
theorem detachWaitNode_reprio (h : Filed c) (t : TaskId) :
    Reprio { c with waitLists := fun l => (c.waitLists l).erase t } (c.detachWaitNode t) := by
  unfold detachWaitNode
  have hout : (∀ l, t ∉ c.waitLists l) →
      ({ c with waitLists := fun l => (c.waitLists l).erase t } : Core) = c := by
    intro hm
    have : (fun l => (c.waitLists l).erase t) = c.waitLists :=
      funext fun l => List.erase_of_not_mem (hm l)
    rw [this]
  cases hw : (c.tasks t).waitList with
  | none =>
    rw [hout fun l hm => by
      rw [Tcb.waitList_eq_some.mpr (h l t hm)] at hw
      simp at hw]
    exact .refl c
  | some l =>
    dsimp only
    split
    · rw [← waitUnlink_filed h (Tcb.waitList_eq_some.mp hw)]
      exact mutexWaiterChanged_reprio _ _
    · rename_i hm
      rw [hout fun l' hm' => by
        have := (Tcb.waitList_eq_some.mpr (h l' t hm')).symm.trans hw
        rw [Option.some.inj this] at hm'
        exact hm hm']
      exact .refl c

/-- **Detaching** takes the task off its lists and changes priorities, nothing else. -/
theorem taskDetachWaitLocked_detached (h : Filed c) (t : TaskId) (r : Code) :
    Detached c (c.taskDetachWaitLocked t r) t r := by
  have hr := detachWaitNode_reprio h t
  unfold taskDetachWaitLocked
  dsimp only
  generalize c.detachWaitNode t = d at hr
  constructor
  · dsimp only [setTask]
    rw [hr.rest]
  · rw [setTask_self]
    dsimp only
    rw [hr.task t]
  · intro u hu
    rw [setTask_ne _ _ _ hu]
    exact hr.task u
  · exact hr.perm

omit cfg in
/-- The ready structure does not matter. -/
theorem Detached.of_schedRemoveTask {f : Core} {u : TaskId} {r : Code}
    (h : Detached (c.schedRemoveTask u) f t r) : Detached c f t r :=
  ⟨h.rest, h.self, h.other, h.perm⟩

end Core

end Aixos
