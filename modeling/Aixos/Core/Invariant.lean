import Aixos.Core.Preserve

/-!
# The invariant holds in every run

The remaining steps: creating tasks and objects, the owners of mutexes, and the start of
the scheduler.

* `Owned` — what changes when a mutex gets another owner.
* `Sound.exec` — **every step keeps the invariant**; of `aixos_start` this needs that the
  tasks it is about to queue are not queued yet.
-/

namespace Aixos

namespace Core

open OrderedQueue Sched

variable [cfg : Config]

variable {c c' : Core} {t : TaskId} {S : TaskId → Prop} {F : Prop} {q : ℕ → List TaskId}

/-! ### Creating a task -/

/-- The state in which a new task has been entered everywhere but in the ready structure. -/
def newTask (c : Core) (a : CreateArgs) : Core :=
  { c with
    tasks := Function.update c.tasks c.nextTask (newTcb a)
    sched := c.sched.initNode c.nextTask
    allTasks := c.allTasks ++ [c.nextTask]
    nextTask := c.nextTask + 1 }

@[simp] theorem newTask_self (c : Core) (a : CreateArgs) : (c.newTask a).tasks c.nextTask = newTcb a :=
  Function.update_self ..

@[simp] theorem newTask_ne (c : Core) (a : CreateArgs) {u : TaskId} (hu : u ≠ c.nextTask) :
    (c.newTask a).tasks u = c.tasks u := Function.update_of_ne hu ..

theorem newTask_priority_ne (c : Core) (a : CreateArgs) {u : TaskId} (hu : u ≠ c.nextTask) :
    (c.newTask a).priority u = c.priority u := congrArg Tcb.priority (c.newTask_ne a hu)

theorem taskCreateCommon_eq (c : Core) (a : CreateArgs) : (c.taskCreateCommon a).1 = c ∧
      (c.taskCreateCommon a).2 = none ∨
    a.valid ∧ (c.taskCreateCommon a).1 = (if c.running then (c.newTask a).schedAddTask c.nextTask
      else c.newTask a) ∧ (c.taskCreateCommon a).2 = some c.nextTask := by
  unfold taskCreateCommon
  split
  · exact .inl ⟨rfl, rfl⟩
  · rename_i h
    simp only [Bool.or_eq_true, Bool.not_eq_true', not_or, Bool.not_eq_false] at h
    exact .inr ⟨h.1.1.1.2, rfl, rfl⟩

theorem CreateArgs.valid_priority {a : CreateArgs} (h : a.valid) : a.priority.toNat < cfg.maxPriority := by
  unfold CreateArgs.valid at h
  simp only [Bool.and_eq_true, decide_eq_true_eq] at h
  omega

theorem Lists.not_live_nextTask (h : Lists c) : ¬ c.Live c.nextTask :=
  fun hl => (h.fresh _ hl).false

theorem Lists.newTask (h : Lists c) {a : CreateArgs} (ha : a.valid) : Lists (c.newTask a) := by
  have hdead := h.not_live_nextTask
  have hstop : (c.tasks c.nextTask).state = .stop := not_not.mp hdead
  have hw : (c.tasks c.nextTask).wait = none := h.wait_eq_none (by simp [hstop])
  have hself := c.newTask_self a
  have hother := fun u => c.newTask_ne (u := u) a
  have hlive : ∀ u, (c.newTask a).Live u ↔ c.Live u ∨ u = c.nextTask := by
    intro u
    by_cases hu : u = c.nextTask
    · simp [hu, Live, hself, newTcb]
    · rw [Live, hother u hu]
      simp [Live, hu]
  have hheld : ∀ m, (c.mutexes m).owner ≠ some c.nextTask := fun m ho => hdead (h.owner_live m _ ho)
  exact { h with
    filed := by
      intro l u
      by_cases hu : u = c.nextTask
      · rw [hu, hself]
        exact iff_of_false (h.not_mem_waitLists hw l) (by simp [newTcb])
      · rw [hother u hu]
        exact h.filed l u
    waiting := by
      intro u
      by_cases hu : u = c.nextTask
      · rw [hu, hself]
        simp [newTcb]
      · rw [hother u hu]
        exact h.waiting u
    delayed := by
      intro u
      by_cases hu : u = c.nextTask
      · rw [hu, hself]
        simp [newTcb]
      · rw [hother u hu]
        exact h.delayed u
    timed := by
      intro u hm
      have hu : u ≠ c.nextTask := by rintro rfl; exact h.timed _ hm hw
      rw [hother u hu]
      exact h.timed u hm
    all := by
      intro u
      rw [hlive, ← h.all u]
      simp [Core.newTask]
    allNodup := by
      refine h.allNodup.append (List.nodup_singleton _) ?_
      rw [List.disjoint_singleton]
      exact fun hm => hdead ((h.all _).mp hm)
    fresh := by
      intro u hu
      rcases (hlive u).mp hu with hu | rfl
      · exact Nat.lt_succ_of_lt (h.fresh u hu)
      · exact Nat.lt_succ_self _
    bounded := by
      intro u
      rw [priority]
      by_cases hu : u = c.nextTask
      · rw [hu, hself]
        exact ⟨CreateArgs.valid_priority ha, CreateArgs.valid_priority ha⟩
      · rw [hother u hu]
        exact h.bounded u
    held := by
      intro u m
      by_cases hu : u = c.nextTask
      · rw [hu, hself]
        exact iff_of_false List.not_mem_nil (hheld m)
      · rw [hother u hu]
        exact h.held u m
    heldNodup := by
      intro u
      by_cases hu : u = c.nextTask
      · rw [hu, hself]
        exact List.nodup_nil
      · rw [hother u hu]
        exact h.heldNodup u
    owner_live := fun m u ho => (hlive u).mpr (.inl (h.owner_live m u ho))
    cur := by
      refine ⟨fun u hu => Nat.lt_succ_of_lt (h.cur.lt u hu), h.cur.none, fun u hu' => ?_⟩
      by_cases hu : u = c.nextTask
      · rw [hu, hself] at hu'
        cases hu'
      · rw [hother u hu] at hu'
        exact h.cur.run u hu' }

/-- A new task whose node is linked to itself. -/
theorem Queues.newTask (h : Queues c S F q) (hn : ¬ S c.nextTask) (hF : ¬ F) (a : CreateArgs) :
    Queues (c.newTask a) (fun u => S u ∨ u = c.nextTask) F q := by
  have hq := h.not_mem_of_not hn
  have hprio := fun u => c.newTask_priority_ne (u := u) a
  refine ⟨h.holds.initNode hq, ?_, ?_, ?_⟩
  · intro p u hu
    have hne : u ≠ c.nextTask := by rintro rfl; exact hq p hu
    rw [hprio u hne]
    exact ⟨.inl (h.mem p u hu).1, (h.mem p u hu).2⟩
  · intro u hu hSu hmu
    refine ⟨hF, ?_⟩
    by_cases hne : u = c.nextTask
    · rw [hne]
      exact Holds.initNode_selfLinked ..
    · rw [hprio u hne] at hmu
      have hlt : u < c.nextTask := lt_of_le_of_ne (Nat.lt_succ_iff.mp hu) hne
      exact (h.self u hlt (hSu.resolve_right hne) hmu).2.congr (Holds.initNode_sameNode _ hne)
  · intro u hu hSu
    rw [not_or] at hSu
    have hlt : u < c.nextTask := lt_of_le_of_ne (Nat.lt_succ_iff.mp hu) hSu.2
    exact (h.null u hlt hSu.1).congr (Holds.initNode_sameNode _ hSu.2)

/-- A new task that is queued at once. -/
theorem Queues.newTask_add (h : Queues c S F q) (hn : ¬ S c.nextTask) {a : CreateArgs} (ha : a.valid) :
    ∃ q', Queues ((c.newTask a).schedAddTask c.nextTask) (fun u => S u ∨ u = c.nextTask) F q' := by
  have hq := h.not_mem_of_not hn
  have hself : (c.newTask a).priority c.nextTask = a.priority.toNat := by
    rw [priority, newTask_self]
    rfl
  have hprio := fun u => c.newTask_priority_ne (u := u) a
  have hs : ((c.newTask a).schedAddTask c.nextTask).sched =
      (c.sched.initNode c.nextTask).addTask c.nextTask a.priority.toNat := by rw [← hself]; rfl
  have hi := h.holds.initNode hq
  refine ⟨_, hs ▸ hi.addTask hq (CreateArgs.valid_priority ha), ?_, ?_, ?_⟩
  · intro p u hu
    rcases Holds.mem_append.mp hu with hu | ⟨rfl, rfl⟩
    · have hne : u ≠ c.nextTask := by rintro rfl; exact hq p hu
      exact ⟨.inl (h.mem p u hu).1, (hprio u hne).trans (h.mem p u hu).2⟩
    · exact ⟨.inr rfl, hself⟩
  · intro u hu hSu hmu
    have hmu := mt Holds.mem_append.mpr hmu
    rw [not_or] at hmu
    have hne : u ≠ c.nextTask := by rintro rfl; exact hmu.2 ⟨rfl, hself⟩
    have hlt : u < c.nextTask := lt_of_le_of_ne (Nat.lt_succ_iff.mp hu) hne
    have hmu : u ∉ q (c.priority u) := hprio u hne ▸ hmu.1
    obtain ⟨hF, hu'⟩ := h.self u hlt (hSu.resolve_right hne) hmu
    rw [hs]
    exact ⟨hF, (hu'.congr (Holds.initNode_sameNode _ hne)).congr
      (hi.addTask_sameNode hne (h.not_mem_of_not_mem hmu))⟩
  · intro u hu hSu
    rw [not_or] at hSu
    have hlt : u < c.nextTask := lt_of_le_of_ne (Nat.lt_succ_iff.mp hu) hSu.2
    rw [hs]
    exact ((h.null u hlt hSu.1).congr (Holds.initNode_sameNode _ hSu.2)).congr
      (hi.addTask_sameNode hSu.2 (h.not_mem_of_not hSu.1))

theorem Sound.taskCreateCommon (h : Sound c) (a : CreateArgs) : Sound (c.taskCreateCommon a).1 := by
  rcases taskCreateCommon_eq c a with ⟨e, -⟩ | ⟨ha, e, -⟩
  · rw [e]
    exact h
  have hl := h.wf.toLists.newTask ha
  have hwf : Wf (c.newTask a) := ⟨hl, h.wf.contested⟩
  have hn : ¬ (c.tasks c.nextTask).isReady := fun hr => h.wf.not_live_nextTask (Tcb.isReady_live hr)
  have hready : ∀ u, ((c.newTask a).tasks u).isReady ↔ (c.tasks u).isReady ∨ u = c.nextTask := by
    intro u
    by_cases hu : u = c.nextTask
    · rw [hu, newTask_self]
      simp [newTcb, Tcb.isReady]
    · rw [c.newTask_ne a hu]
      simp [hu]
  obtain ⟨q, hq⟩ := h.ready
  rw [e]
  split
  · obtain ⟨q', hq'⟩ := hq.newTask_add hn ha
    refine ⟨hwf.similar ⟨rfl, fun _ => Alike.refl _, fun _ => .refl _⟩ hwf.bounded
      (hwf.cur.congr rfl rfl rfl fun _ hu => hu), q', ?_⟩
    exact hq'.congr rfl rfl rfl hready
  · rename_i hF
    exact ⟨hwf, q, (hq.newTask hn hF a).congr rfl rfl rfl hready⟩

/-! ### Objects -/

omit cfg in
theorem mem_objLists {l : WaitList} {k : ObjKind} {i : ℕ} : l ∈ objLists k i ↔ l.object = some (k, i) := by
  cases k <;> cases l <;> simp [objLists, WaitList.object]

theorem freeSlot_eq_some {k : ObjKind} {i : ℕ} (h : c.freeSlot k = some i) :
    (c.slots k i).used = false ∧ i < cfg.maxCount k := by
  unfold freeSlot at h
  have h₁ := List.find?_some h
  have h₂ := List.mem_of_find?_eq_some h
  exact ⟨by simpa using h₁, List.mem_range.mp h₂⟩

/-- Other slots, which are in use wherever that matters. -/
theorem Sound.slots (h : Sound c) {s : ObjKind → ℕ → Slot}
    (hown : ∀ m, (c.mutexes m).owner ≠ none → (s .mutex m).used = true)
    (hlt : ∀ k i, (s k i).used = true → i < cfg.maxCount k)
    (hlist : ∀ l t k i, t ∈ c.waitLists l → l.object = some (k, i) → (s k i).used = true) :
    Sound { c with slots := s } := by
  refine ⟨⟨{ h.wf with owner_used := hown, slot_lt := hlt, listed := hlist, cur := ?_ }, h.wf.contested⟩, ?_⟩
  · exact h.wf.cur.congr rfl rfl rfl fun _ hu => hu
  · obtain ⟨q, hq⟩ := h.ready
    exact ⟨q, hq.congr rfl rfl rfl fun _ => Iff.rfl⟩

/-- Other mutexes with the same owners. -/
theorem Sound.mutexes (h : Sound c) {μ : ℕ → Mutex} (ho : ∀ m, (μ m).owner = (c.mutexes m).owner) :
    Sound { c with mutexes := μ } := by
  refine ⟨⟨{ h.wf with held := ?_, owner_live := ?_, owner_used := ?_, cur := ?_ }, ?_⟩, ?_⟩
  · intro t m
    rw [ho]
    exact h.wf.held t m
  · intro m t hm
    rw [ho] at hm
    exact h.wf.owner_live m t hm
  · intro m
    rw [ho]
    exact h.wf.owner_used m
  · exact h.wf.cur.congr rfl rfl rfl fun _ hu => hu
  · intro m t
    rw [ho]
    exact h.wf.contested m t
  · obtain ⟨q, hq⟩ := h.ready
    exact ⟨q, hq.congr rfl rfl rfl fun _ => Iff.rfl⟩

theorem Lists.waitLists_of_unused (h : Lists c) {k : ObjKind} {i : ℕ} (hu : (c.slots k i).used = false)
    {l : WaitList} (hl : l ∈ objLists k i) : c.waitLists l = [] := by
  rw [List.eq_nil_iff_forall_not_mem]
  intro t ht
  rw [h.listed l t k i ht (mem_objLists.mp hl)] at hu
  cases hu

/-- The slot that is given out; the lists of the object are already empty. -/
theorem slotAlloc_eq (h : Lists c) {k : ObjKind} {i : ℕ} (hu : (c.slots k i).used = false) :
    (c.slotAlloc k i).1 = { c with
      slots := Function.update c.slots k (Function.update (c.slots k) i
        { used := true, generation := nextGeneration (c.slots k i).generation }) } := by
  have e : (fun l => if l ∈ objLists k i then [] else c.waitLists l) = c.waitLists := by
    funext l
    split
    · rename_i hl
      exact (h.waitLists_of_unused hu hl).symm
    · rfl
  unfold slotAlloc
  dsimp only
  rw [e]

theorem Sound.slotAlloc (h : Sound c) {k : ObjKind} {i : ℕ} (hs : c.freeSlot k = some i) :
    Sound (c.slotAlloc k i).1 := by
  obtain ⟨hu, hi⟩ := freeSlot_eq_some hs
  rw [slotAlloc_eq h.wf.toLists hu]
  -- a slot that was in use still is
  have mono : ∀ k' i', (c.slots k' i').used = true →
      (Function.update c.slots k (Function.update (c.slots k) i
        { used := true, generation := nextGeneration (c.slots k i).generation }) k' i').used = true := by
    intro k' i' hu'
    simp only [Function.update_apply]
    split
    · rename_i e
      subst e
      simp only [Function.update_apply]
      split
      · rfl
      · exact hu'
    · exact hu'
  apply h.slots
  · exact fun m hm => mono _ _ (h.wf.owner_used m hm)
  · intro k' i' hu'
    simp only [Function.update_apply] at hu'
    split at hu'
    · rename_i e
      subst e
      simp only [Function.update_apply] at hu'
      split at hu'
      · rename_i e
        rw [e]
        exact hi
      · exact h.wf.slot_lt _ _ hu'
    · exact h.wf.slot_lt _ _ hu'
  · exact fun l t k' i' ht hl => mono _ _ (h.wf.listed l t k' i' ht hl)

theorem Sound.allocMutex (h : Sound c) {i : ℕ} (hs : c.freeSlot .mutex = some i) :
    Sound ((c.slotAlloc .mutex i).1.setMutex i fun _ => {}) := by
  have hu := (freeSlot_eq_some hs).1
  have ho : (c.mutexes i).owner = none := by
    by_contra hne
    rw [h.wf.owner_used i hne] at hu
    cases hu
  refine (h.slotAlloc hs).mutexes fun m => ?_
  rw [Function.update_apply]
  split
  · rename_i e
    rw [e]
    exact ho.symm
  · rfl

/-- A slot that is given back is not waited for and, if it is a mutex, has no owner. -/
theorem Sound.slotFree (h : Sound c) {k : ObjKind} {i : ℕ} (hl : ∀ l ∈ objLists k i, c.waitLists l = [])
    (ho : k = .mutex → (c.mutexes i).owner = none) : Sound (c.slotFree k i) := by
  have key : ∀ k' i', ¬ (k' = k ∧ i' = i) → Function.update c.slots k (Function.update (c.slots k) i
      { c.slots k i with used := false }) k' i' = c.slots k' i' := by
    intro k' i' hne
    rw [Function.update_apply]
    split
    · rename_i e
      subst e
      rw [Function.update_of_ne]
      exact fun e => hne ⟨rfl, e⟩
    · rfl
  apply h.slots
  · intro m hm
    rw [key]
    · exact h.wf.owner_used m hm
    · rintro ⟨rfl, rfl⟩
      exact hm (ho rfl)
  · intro k' i' hu
    by_cases he : k' = k ∧ i' = i
    · obtain ⟨rfl, rfl⟩ := he
      simp at hu
    · rw [key k' i' he] at hu
      exact h.wf.slot_lt k' i' hu
  · intro l t k' i' ht hobj
    rw [key]
    · exact h.wf.listed l t k' i' ht hobj
    · rintro ⟨rfl, rfl⟩
      rw [hl l (mem_objLists.mpr hobj)] at ht
      cases ht

/-! ### Owners -/

/-- `c'` is `c` after mutex `m` has been given the owner `o`. -/
structure Owned (c c' : Core) (m : ℕ) (o : Option TaskId) : Prop where
  /-- Only these fields differ. -/
  rest : c' = { c with tasks := c'.tasks, mutexes := c'.mutexes }
  /-- Of a control block only the list of held mutexes differs. -/
  task : ∀ u, c'.tasks u = { c.tasks u with heldMutexes := (c'.tasks u).heldMutexes }
  /-- That list holds `m` for the new owner only. -/
  held : ∀ u m', m' ∈ (c'.tasks u).heldMutexes ↔
    if m' = m then o = some u else m' ∈ (c.tasks u).heldMutexes
  /-- It holds nothing twice. -/
  nodup : ∀ u, (c'.tasks u).heldMutexes.Nodup
  /-- Only this owner differs. -/
  owner : ∀ m', (c'.mutexes m').owner = if m' = m then o else (c.mutexes m').owner

theorem Lists.owned (h : Lists c) {m : ℕ} {o : Option TaskId} (ho : Owned c c' m o)
    (hl : ∀ t, o = some t → c.Live t) (hu : o ≠ none → (c.slots .mutex m).used = true) : Lists c' := by
  have hlive : ∀ u, c'.Live u ↔ c.Live u := by
    intro u
    rw [Live, ho.task u]
    rfl
  have hw : c'.waitLists = c.waitLists := by rw [ho.rest]
  have hto : c'.timeoutList = c.timeoutList := by rw [ho.rest]
  have ha : c'.allTasks = c.allTasks := by rw [ho.rest]
  have hs : c'.slots = c.slots := by rw [ho.rest]
  constructor
  · intro l u
    rw [hw, ho.task u]
    exact h.filed l u
  · rw [hw]; exact h.nodup
  · intro u
    rw [ho.task u]
    exact h.waiting u
  · intro u
    rw [ho.task u]
    exact h.delayed u
  · intro u
    rw [hto, ho.task u]
    exact h.timed u
  · rw [hto]; exact h.timedNodup
  · intro u
    rw [ha, hlive]
    exact h.all u
  · rw [ha]; exact h.allNodup
  · intro u
    rw [hlive, show c'.nextTask = c.nextTask by rw [ho.rest]]
    exact h.fresh u
  · intro u
    rw [priority, ho.task u]
    exact h.bounded u
  · intro u m'
    rw [ho.held, ho.owner]
    split
    · exact Iff.rfl
    · exact h.held u m'
  · exact ho.nodup
  · intro m' u hm'
    rw [hlive]
    rw [ho.owner] at hm'
    split at hm'
    · exact hl u hm'
    · exact h.owner_live m' u hm'
  · intro m' hm'
    rw [hs]
    rw [ho.owner] at hm'
    split at hm'
    · rename_i e
      rw [e]
      exact hu hm'
    · exact h.owner_used m' hm'
  · rw [hs]; exact h.slot_lt
  · rw [hw, hs]; exact h.listed
  · refine h.cur.congr (by rw [ho.rest]) (by rw [ho.rest]) (by rw [ho.rest]) fun u hu => ?_
    rwa [ho.task u] at hu

theorem ReadyOk.owned (h : ReadyOk c) {m : ℕ} {o : Option TaskId} (ho : Owned c c' m o) : ReadyOk c' := by
  obtain ⟨q, hq⟩ := h
  refine ⟨q, ?_⟩
  rw [show c'.running = c.running by rw [ho.rest]]
  refine hq.congr (by rw [ho.rest]) (funext fun u => ?_) (by rw [ho.rest]) fun u => ?_
  · rw [priority, ho.task u]
    rfl
  · rw [ho.task u]
    rfl

/-- Giving a free mutex to a task. -/
theorem Lists.mutexAcquire (h : Lists c) {m : ℕ} (hm : (c.mutexes m).owner = none) (t : TaskId) :
    Owned c (c.mutexAcquire m t) m (some t) := by
  have hnot : ∀ u, m ∉ (c.tasks u).heldMutexes := by
    intro u hu
    rw [(h.held u m).mp hu] at hm
    cases hm
  have htask : ∀ u, (c.mutexAcquire m t).tasks u =
      if u = t then { c.tasks t with heldMutexes := (c.tasks t).heldMutexes ++ [m] } else c.tasks u :=
    fun u => setTask_apply _ t _ u
  constructor
  · rfl
  · intro u
    rw [htask]
    split
    · rename_i e
      rw [e]
    · rfl
  · intro u m'
    rw [htask]
    by_cases hu : u = t
    · subst hu
      by_cases hm' : m' = m
      · simp [hm']
      · simp [hm']
    · by_cases hm' : m' = m
      · subst hm'
        simp [hu, hnot u, Ne.symm hu]
      · simp [hu, hm']
  · intro u
    rw [htask]
    split
    · exact (h.heldNodup t).append (List.nodup_singleton m) (List.disjoint_singleton.mpr (hnot t))
    · exact h.heldNodup u
  · intro m'
    show (Function.update c.mutexes m { owner := some t, lockCount := 1 } m').owner = _
    rw [Function.update_apply]
    split <;> rfl

/-- A task gives up a mutex, to nobody. -/
theorem Lists.dropOwner (h : Lists c) {m : ℕ} (hm : (c.mutexes m).owner = some t) (b : Mutex)
    (hb : b.owner = none) :
    Owned c ((c.setTask t fun b => { b with heldMutexes := b.heldMutexes.erase m }).setMutex m fun _ => b)
      m none := by
  have htask : ∀ u, ((c.setTask t fun b => { b with heldMutexes := b.heldMutexes.erase m }).setMutex m
      fun _ => b).tasks u = if u = t then
        { c.tasks t with heldMutexes := (c.tasks t).heldMutexes.erase m } else c.tasks u :=
    fun u => setTask_apply c t (fun b => { b with heldMutexes := b.heldMutexes.erase m }) u
  constructor
  · rfl
  · intro u
    rw [htask]
    split
    · rename_i e
      rw [e]
    · rfl
  · intro u m'
    rw [htask]
    by_cases hu : u = t
    · subst hu
      simp only [if_true, (h.heldNodup u).mem_erase_iff]
      by_cases hm' : m' = m
      · simp [hm']
      · simp [hm']
    · simp only [hu, if_false]
      by_cases hm' : m' = m
      · subst hm'
        simp [h.held u m', hm, Ne.symm hu]
      · simp [hm']
  · intro u
    rw [htask]
    split
    · exact (h.heldNodup t).erase m
    · exact h.heldNodup u
  · intro m'
    show (Function.update c.mutexes m b m').owner = _
    rw [Function.update_apply]
    split
    · exact hb
    · rfl

theorem Wf.dropOwner (h : Wf c) {m : ℕ} (hm : (c.mutexes m).owner = some t) {b : Mutex}
    (hb : b.owner = none) (hw : c.waitLists (.mutex m) = []) :
    Wf ((c.setTask t fun b => { b with heldMutexes := b.heldMutexes.erase m }).setMutex m fun _ => b) := by
  have ho := h.toLists.dropOwner hm b hb
  refine ⟨h.toLists.owned ho (fun _ e => by cases e) (fun e => absurd rfl e), fun m' u hu => ?_⟩
  rw [ho.owner]
  split
  · rename_i e
    have hu : u ∈ c.waitLists (.mutex m) := e ▸ hu
    rw [hw] at hu
    cases hu
  · exact h.contested m' u hu

/-- The state of `aixos_mutex_unlock` before the new owner is woken: the mutex has been handed over. -/
def handOver (c : Core) (m : ℕ) (t next : TaskId) : Core :=
  (c.setTask t fun b => { b with heldMutexes := b.heldMutexes.erase m }).mutexAcquire m next

omit cfg in
/-- Handing over is giving the mutex to nobody, then to the new owner. -/
theorem handOver_eq (c : Core) (m : ℕ) (t next : TaskId) : c.handOver m t next =
    ((c.setTask t fun b => { b with heldMutexes := b.heldMutexes.erase m }).setMutex m
      fun _ => {}).mutexAcquire m next := by
  simp [handOver, mutexAcquire, setMutex]

theorem mutexRelease_eq (c : Core) (m : ℕ) (t : TaskId) : c.mutexRelease m t =
    match c.waitLists (.mutex m) with
    | next :: _ => ((c.handOver m t next).taskWake next Code.ok).recompute (some t)
    | [] => ((c.setTask t fun b => { b with heldMutexes := b.heldMutexes.erase m }).setMutex m
        fun b => { b with owner := none, lockCount := 0 }).recompute (some t) := by
  unfold mutexRelease
  dsimp only
  rw [setTask_waitLists]
  cases c.waitLists (.mutex m) <;> rfl

/-- What holds after the mutex has been handed over; its new owner still waits for it. -/
theorem Sound.handOver (h : Sound c) {m : ℕ} (hm : (c.mutexes m).owner = some t) {next : TaskId}
    (hin : next ∈ c.waitLists (.mutex m)) :
    Lists (c.handOver m t next) ∧ ReadyOk (c.handOver m t next) ∧
    (((c.handOver m t next).tasks next).state = .blocked ∨
      ((c.handOver m t next).tasks next).state = .delayed) ∧
    ∀ m' u, u ≠ next → u ∈ (c.handOver m t next).waitLists (.mutex m') →
      ((c.handOver m t next).mutexes m').owner ≠ none ∧ ((c.handOver m t next).mutexes m').owner ≠ some u := by
  rw [handOver_eq]
  have ho := h.wf.toLists.dropOwner hm {} rfl
  have hd := h.wf.toLists.owned ho (fun _ e => by cases e) (fun e => absurd rfl e)
  have hready := h.ready.owned ho
  set d := (c.setTask t fun b => { b with heldMutexes := b.heldMutexes.erase m }).setMutex m fun _ => {}
    with hdef
  have hwait : (d.tasks next).wait = some (.list (.mutex m)) := (hd.filed _ next).mp hin
  have hstate := (hd.waiting next).mp (by rw [hwait]; exact Option.some_ne_none _)
  have ho' := hd.mutexAcquire (m := m) (by rw [ho.owner, if_pos rfl]) next
  have hlive : d.Live next := by rcases hstate with e | e <;> simp [Live, e]
  refine ⟨hd.owned ho' (fun u e => by cases e; exact hlive) fun _ => h.wf.listed _ next _ _ hin rfl,
    hready.owned ho', ?_, fun m' u hu hmem => ?_⟩
  · rw [ho'.task next]
    exact hstate
  · rw [ho'.owner]
    split
    · exact ⟨Option.some_ne_none _, fun e => hu (Option.some.inj e).symm⟩
    · rename_i hne
      rw [ho.owner, if_neg hne]
      exact h.wf.contested m' u hmem

/-- The new owner is woken. -/
theorem Sound.handOver_wake (h : Sound c) {m : ℕ} (hm : (c.mutexes m).owner = some t) {next : TaskId}
    (hin : next ∈ c.waitLists (.mutex m)) : Sound ((c.handOver m t next).taskWake next Code.ok) ∧
      ((c.handOver m t next).taskWake next Code.ok).nextTask = c.nextTask := by
  obtain ⟨hl, hr, hs, hc⟩ := h.handOver hm hin
  refine ⟨Sound.wakeOwner hl hc hs hr Code.ok, ?_⟩
  obtain ⟨_, _, _, _, _, _, e⟩ := taskWake_rest hl.isFiled next Code.ok
  rw [e]
  rfl

theorem Sound.mutexRelease (h : Sound c) {m : ℕ} (hm : (c.mutexes m).owner = some t) :
    Sound (c.mutexRelease m t) := by
  have hlt : t < c.nextTask := h.wf.fresh t (h.wf.owner_live m t hm)
  rw [mutexRelease_eq]
  cases hw : c.waitLists (.mutex m) with
  | nil =>
    have hwf := h.wf.dropOwner (b := { c.mutexes m with owner := none, lockCount := 0 }) hm rfl hw
    have hd : Sound _ := ⟨hwf, h.ready.owned (h.wf.toLists.dropOwner hm _ rfl)⟩
    exact hd.recompute fun u hu => by cases hu; exact hlt
  | cons next rest =>
    obtain ⟨hs, hn⟩ := h.handOver_wake hm (hw ▸ List.mem_cons_self ..)
    refine hs.recompute fun u hu => ?_
    cases hu
    rw [hn]
    exact hlt

omit cfg in
theorem Reprio.setMutex (r : Reprio c c') (m : ℕ) (b : Mutex) :
    Reprio (c.setMutex m fun _ => b) (c'.setMutex m fun _ => b) where
  rest := by
    have e := r.rest
    rw [e]
    rfl
  task := r.task
  perm := r.perm

theorem Sound.mutexDestroy (h : Sound c) {m : ℕ} (hw : c.waitLists (.mutex m) = []) :
    Sound (c.mutexDestroy m) := by
  have hlists : ∀ l ∈ objLists .mutex m, c.waitLists l = [] := by
    intro l hl
    rw [List.mem_singleton.mp hl]
    exact hw
  unfold Core.mutexDestroy
  cases ho : c.tcbFromHandle (c.mutexes m).owner with
  | none =>
    have hnone : (c.mutexes m).owner = none := by
      by_contra hne
      obtain ⟨o, e⟩ := Option.ne_none_iff_exists'.mp hne
      rw [tcbFromHandle_eq_some.mpr ⟨e, h.wf.owner_live m o e⟩] at ho
      cases ho
    refine (h.slotFree (k := .mutex) hlists fun _ => hnone).mutexes fun m' => ?_
    rw [Function.update_apply]
    split
    · rename_i e
      rw [e]
      exact hnone.symm
    · rfl
  | some o =>
    obtain ⟨hm, hl⟩ := tcbFromHandle_eq_some.mp ho
    dsimp only
    rw [if_pos ((h.wf.held o m).mpr hm)]
    have hwf := h.wf.dropOwner (b := {}) hm rfl hw
    have hd : Sound _ := ⟨hwf, h.ready.owned (h.wf.toLists.dropOwner hm {} rfl)⟩
    -- the walk sees the mutex still owned, but nobody waits for it
    set c₁ := c.setTask o fun b => { b with heldMutexes := b.heldMutexes.erase m } with hc₁
    have r := recompute_reprio c₁ (some o)
    have hb : Bounded c₁ := hwf.bounded
    have hfresh : ∀ u, c₁.Live u → u < c₁.nextTask := hwf.fresh
    have hq : ∃ q, Queues c₁ (fun u => (c₁.tasks u).isReady) (c₁.running = true) q := by
      obtain ⟨q, hq⟩ := hd.ready
      exact ⟨q, hq.congr rfl rfl rfl fun _ => Iff.rfl⟩
    have hs := hd.reprio (r.setMutex m {}) (bounded_recompute hb (some o)) (by
      obtain ⟨q, hq⟩ := queues_recompute hq hb hfresh (x := some o) (fun u hu => by
        cases hu
        exact h.wf.fresh o hl)
      exact ⟨q, hq.congr rfl rfl rfl fun _ => Iff.rfl⟩)
    refine hs.slotFree (k := .mutex) (fun l hl => ?_) fun _ => ?_
    · have := r.perm l
      rw [show c₁.waitLists l = [] from hlists l hl] at this
      exact this.eq_nil
    · show (((c₁.recompute (some o)).setMutex m fun _ => {}).mutexes m).owner = none
      simp [setMutex]

/-! ### The start of the scheduler -/

/-- No task that `aixos_start` will queue is queued already. -/
def StartOk (c : Core) : Prop := ∀ t, (c.tasks t).state = .ready → SelfLinked c.sched t

theorem StartOk.taskCreateCommon (h : StartOk c) (hr : c.running = false) (a : CreateArgs) :
    StartOk (c.taskCreateCommon a).1 ∧ (c.taskCreateCommon a).1.running = false := by
  rcases taskCreateCommon_eq c a with ⟨e, -⟩ | ⟨-, e, -⟩
  · rw [e]
    exact ⟨h, hr⟩
  · rw [e, hr]
    refine ⟨fun t ht => ?_, hr⟩
    by_cases hne : t = c.nextTask
    · rw [hne]
      exact Holds.initNode_selfLinked ..
    · refine (h t ?_).congr (Holds.initNode_sameNode _ hne)
      have ht : ((c.newTask a).tasks t).state = .ready := ht
      rwa [c.newTask_ne a hne] at ht

theorem addReadyTasks_rest (ts : List TaskId) (c : Core) : ∃ s, c.addReadyTasks ts = { c with sched := s } := by
  induction ts generalizing c with
  | nil => exact ⟨_, rfl⟩
  | cons t ts ih =>
    obtain ⟨s, e⟩ := ih (if (c.tasks t).state = .ready then c.schedAddTask t else c)
    refine ⟨s, ?_⟩
    rw [addReadyTasks, e]
    split <;> rfl

/-- Queueing tasks that are not queued yet, each once. -/
theorem Queues.addReadyTasks {ts : List TaskId} (h : Queues c S F q) (hb : Bounded c) (hnd : ts.Nodup)
    (hS : ∀ t, (c.tasks t).state = .ready → S t)
    (hout : ∀ t ∈ ts, (c.tasks t).state = .ready → ∀ p, t ∉ q p) :
    ∃ q', Queues (c.addReadyTasks ts) S F q' ∧ (∀ p t, t ∈ q p → t ∈ q' p) ∧
      ∀ t ∈ ts, (c.tasks t).state = .ready → t ∈ q' (c.priority t) := by
  induction ts generalizing c q with
  | nil => exact ⟨q, h, fun _ _ ht => ht, by simp⟩
  | cons t ts ih =>
    rw [List.nodup_cons] at hnd
    rw [Core.addReadyTasks]
    by_cases ht : (c.tasks t).state = .ready
    · rw [if_pos ht]
      have hadd := h.add (hout t (List.mem_cons_self ..) ht _) (hb t).1
      have hadd : Queues (c.schedAddTask t) S F _ := hadd.congr rfl rfl rfl fun u => by
        refine ⟨fun hu => .inl hu, ?_⟩
        rintro (hu | rfl)
        · exact hu
        · exact hS _ ht
      obtain ⟨q', hq', hsub, hin⟩ := ih hadd hb hnd.2 hS fun u hu hur p hm => by
        rcases Holds.mem_append.mp hm with hm | ⟨rfl, -⟩
        · exact hout u (List.mem_cons_of_mem _ hu) hur p hm
        · exact hnd.1 hu
      refine ⟨q', hq', fun p u hu => hsub p u (Holds.mem_append.mpr (.inl hu)), fun u hu hur => ?_⟩
      rcases List.mem_cons.mp hu with rfl | hu
      · exact hsub _ _ (Holds.mem_append.mpr (.inr ⟨rfl, rfl⟩))
      · exact hin u hu hur
    · rw [if_neg ht]
      obtain ⟨q', hq', hsub, hin⟩ := ih h hb hnd.2 hS fun u hu => hout u (List.mem_cons_of_mem _ hu)
      refine ⟨q', hq', hsub, fun u hu hur => ?_⟩
      rcases List.mem_cons.mp hu with rfl | hu
      · exact absurd hur ht
      · exact hin u hu hur

/-- The state after `aixos_start`: two tasks are created, then the ready ones are queued. -/
theorem start_eq_some (hr : c.running = false) {memory : Bool} (e : c.start memory = some c') :
    ∃ c₂, c₂ = ((c.taskCreateCommon (idleArgs memory)).1.taskCreateCommon (timerArgs memory)).1 ∧
      c' = { c₂.addReadyTasks c₂.allTasks with running := true }.schedule := by
  have hc : { c with running := false } = c := by rw [← hr]
  unfold Core.start at e
  dsimp only at e
  rw [hc] at e
  rcases e₁ : c.taskCreateCommon (idleArgs memory) with ⟨c₁, - | i⟩
  · rw [e₁] at e
    cases e
  rw [e₁] at e
  dsimp only at e
  rcases e₂ : c₁.taskCreateCommon (timerArgs memory) with ⟨c₂, - | j⟩
  · rw [e₂] at e
    cases e
  rw [e₂] at e
  exact ⟨c₂, rfl, (Option.some.inj e).symm⟩

/-- **`aixos_start` queues every ready task** if none is queued before. -/
theorem Sound.start (h : Sound c) (hs : StartOk c) (hr : c.running = false) {memory : Bool}
    (e : c.start memory = some c') : Sound c' := by
  obtain ⟨c₂, e₂, rfl⟩ := start_eq_some hr e
  obtain ⟨hs₁, hr₁⟩ := hs.taskCreateCommon hr (idleArgs memory)
  have h₂ := (h.taskCreateCommon (idleArgs memory)).taskCreateCommon (timerArgs memory)
  obtain ⟨hs₂, hr₂⟩ := hs₁.taskCreateCommon hr₁ (timerArgs memory)
  rw [← e₂] at h₂ hs₂ hr₂
  obtain ⟨q, hq⟩ := h₂.ready
  obtain ⟨q', hq', hsub, hin⟩ := hq.addReadyTasks h₂.wf.bounded h₂.wf.allNodup (fun t ht => .inl ht)
    fun t _ ht p => hq.holds.not_mem_of_selfLinked (hs₂ t ht)
  obtain ⟨s, e⟩ := addReadyTasks_rest c₂.allTasks c₂
  have hcur : c₂.cur = none := h₂.wf.cur.none hr₂
  rw [e] at hq' ⊢
  refine Sound.schedule ⟨⟨{ h₂.wf with cur := ?_ }, h₂.wf.contested⟩, q', ?_⟩ rfl
  · exact ⟨h₂.wf.cur.lt, fun _ => hcur, h₂.wf.cur.run⟩
  · refine ⟨hq'.holds, hq'.mem, fun t _ hS hm => absurd ?_ hm, hq'.null⟩
    have ht : (c₂.tasks t).state = .ready := hS.resolve_right fun hrun => by
      rw [h₂.wf.cur.run t hrun] at hcur
      cases hcur
    exact hin t ((h₂.wf.all t).mpr (Tcb.isReady_live hS)) ht

/-- The condition under which a step keeps the invariant: it matters for the start only. -/
def StartGuard (c : Core) : Op → Prop
  | .start _ => StartOk c
  | _ => True

/-- **Every step of the core keeps the invariant.** -/
theorem Sound.exec (h : Sound c) {o : Op} (he : c.Enabled o) (hs : c.StartGuard o) : Sound (c.exec o) := by
  cases o with
  | wake t r => exact h.taskWake t r
  | timeout t r => exact h.taskWake t r
  | block t w ms => exact h.blockTask he ms
  | yield => exact h.rotate.rescheduleRequest
  | countTick => exact h.countTick
  | sliceExpire => exact h.sliceExpire
  | suspend t => exact h.suspendTask he.1
  | resume t => exact h.resumeTask he
  | setPriority t p => exact h.setPriorityTask he.1 he.2
  | create a => exact h.taskCreateCommon a
  | delete t => exact h.deleteTask he.1 he.2.1
  | start memory =>
    obtain ⟨hr, he⟩ := he
    obtain ⟨c', e⟩ := Option.isSome_iff_exists.mp he
    rw [Core.exec, e]
    exact h.start hs hr e
  | switch => exact h.contextSwitch he
  | isrEnter => exact h.flags
  | isrExit => exact h.isrExit
  | lock => exact h.schedLockTask
  | unlock => exact h.schedUnlockTask
  | alloc k i => exact h.slotAlloc he.2
  | allocMutex i => exact h.allocMutex he
  | free k i => exact h.slotFree he.2 fun e => absurd e he.1
  | acquire m t =>
    have ho := h.wf.toLists.mutexAcquire he.2.1 t
    refine ⟨⟨h.wf.toLists.owned ho (fun u e => by cases e; exact he.2.2) fun _ => he.1, fun m' u hu => ?_⟩,
      h.ready.owned ho⟩
    rw [Core.exec, ho.owner]
    split
    · rename_i e
      subst e
      exact absurd he.2.1 (h.wf.contested m' u hu).1
    · exact h.wf.contested m' u hu
  | relock m n =>
    refine h.mutexes fun m' => ?_
    rw [Function.update_apply]
    split
    · rename_i e
      rw [e]
    · rfl
  | release m t => exact h.mutexRelease he.2
  | destroy m => exact h.mutexDestroy he

end Core

end Aixos
