import Aixos.Core.Waits
import Aixos.Library.Propagation

/-!
# Priority inheritance

The current priority of a task is the greatest of its base priority and of the current
priorities of those waiting for the mutexes it holds; the wait lists of mutexes are in
the order of these priorities.

* `Waits c w t` — `w` waits for a mutex that `t` holds.
* `Inherited c` — priorities are exact and the lists of mutexes ordered.
* `recompute_settles` — the walk along the owners makes priorities exact again after a
  change at its first task. It is a `Propagation.Walk`; its edges go through mutexes, of
  which there are at most 32, so the limit on its length is never in the way.
-/

namespace Aixos

namespace Core

open OrderedQueue Propagation

/-- Task `w` waits for a mutex that `t` holds. -/
def Waits (c : Core) (w t : TaskId) : Prop :=
  ∃ m ∈ (c.tasks t).heldMutexes, w ∈ c.waitLists (.mutex m)

/-- `tcb->base_priority` -/
def base (c : Core) (t : TaskId) : ℕ := (c.tasks t).basePriority

/-- The wait lists of mutexes are ordered by current priority. -/
def MutexOrdered (c : Core) : Prop := ∀ m, Ordered c.priority (c.waitLists (.mutex m))

/-- Inheritance is exact. -/
structure Inherited (c : Core) : Prop where
  /-- Every priority is the one to inherit. -/
  exact : ∀ t, Settled c.base c.Waits c.priority t
  /-- The lists are ordered. -/
  ordered : MutexOrdered c

variable {c c' : Core} {t u w : TaskId}

/-- The two states agree in all that inheritance depends on. -/
structure Twin (c c' : Core) : Prop where
  priority : ∀ t, (c'.tasks t).priority = (c.tasks t).priority
  base : ∀ t, (c'.tasks t).basePriority = (c.tasks t).basePriority
  held : ∀ t, (c'.tasks t).heldMutexes = (c.tasks t).heldMutexes
  lists : ∀ m, c'.waitLists (.mutex m) = c.waitLists (.mutex m)

theorem Twin.refl (c : Core) : Twin c c := ⟨fun _ => rfl, fun _ => rfl, fun _ => rfl, fun _ => rfl⟩

theorem Twin.trans {c'' : Core} (h : Twin c c') (h' : Twin c' c'') : Twin c c'' where
  priority t := (h'.priority t).trans (h.priority t)
  base t := (h'.base t).trans (h.base t)
  held t := (h'.held t).trans (h.held t)
  lists m := (h'.lists m).trans (h.lists m)

/-- The control blocks and the lists are the same. -/
theorem Twin.of_eq (ht : c'.tasks = c.tasks) (hl : c'.waitLists = c.waitLists) : Twin c c' :=
  ⟨fun t => by rw [ht], fun t => by rw [ht], fun t => by rw [ht], fun m => by rw [hl]⟩

theorem Twin.setTask {f : Tcb → Tcb} (hp : (f (c.tasks t)).priority = (c.tasks t).priority)
    (hb : (f (c.tasks t)).basePriority = (c.tasks t).basePriority)
    (hh : (f (c.tasks t)).heldMutexes = (c.tasks t).heldMutexes) : Twin c (c.setTask t f) where
  priority u := by rw [setTask_apply]; split <;> simp [*]
  base u := by rw [setTask_apply]; split <;> simp [*]
  held u := by rw [setTask_apply]; split <;> simp [*]
  lists _ := rfl

/-- One control block has changed in other fields; so may have the rest of the state. -/
theorem Twin.of_setTask {f : Tcb → Tcb} (ht : c'.tasks = (c.setTask t f).tasks)
    (hl : c'.waitLists = c.waitLists) (hp : (f (c.tasks t)).priority = (c.tasks t).priority)
    (hb : (f (c.tasks t)).basePriority = (c.tasks t).basePriority)
    (hh : (f (c.tasks t)).heldMutexes = (c.tasks t).heldMutexes) : Twin c c' :=
  .trans (.setTask (f := f) hp hb hh) (.of_eq ht hl)

theorem Twin.waits (h : Twin c c') (w t : TaskId) : c'.Waits w t ↔ c.Waits w t := by
  unfold Waits
  simp only [h.held, h.lists]

theorem Twin.settled (h : Twin c c') (hs : Settled c.base c.Waits c.priority t) :
    Settled c'.base c'.Waits c'.priority t :=
  hs.congr (h.base t) (fun w => h.waits w t) (h.priority t) fun w _ => h.priority w

theorem Twin.ordered (h : Twin c c') (ho : MutexOrdered c) : MutexOrdered c' := by
  intro m
  rw [h.lists]
  exact (ho m).congr fun t _ => h.priority t

/-- Nothing that inheritance depends on has changed. -/
theorem Inherited.same (hi : Inherited c) (h : Twin c c') : Inherited c' :=
  ⟨fun t => h.settled (hi.exact t), h.ordered hi.ordered⟩

/-! ### The effective priority -/

/-- The loop over the mutexes finds the greatest of the first waiters. -/
theorem foldl_first_waiter (f : TaskId → ℕ) (l : ℕ → List TaskId) (hord : ∀ m, Ordered f (l m))
    (ms : List ℕ) (p : ℕ) :
    p ≤ ms.foldl (fun p m => match l m with
      | [] => p
      | w :: _ => if p < f w then f w else p) p ∧
    (∀ m ∈ ms, ∀ w ∈ l m, f w ≤ ms.foldl (fun p m => match l m with
      | [] => p
      | w :: _ => if p < f w then f w else p) p) ∧
    (ms.foldl (fun p m => match l m with
      | [] => p
      | w :: _ => if p < f w then f w else p) p = p ∨
      ∃ m ∈ ms, ∃ w ∈ l m, ms.foldl (fun p m => match l m with
        | [] => p
        | w :: _ => if p < f w then f w else p) p = f w) := by
  induction ms generalizing p with
  | nil => exact ⟨le_rfl, by simp, .inl rfl⟩
  | cons m ms ih =>
    rw [List.foldl_cons]
    cases hm : l m with
    | nil =>
      obtain ⟨h₁, h₂, h₃⟩ := ih p
      refine ⟨h₁, ?_, h₃.imp_right fun ⟨m', hm', w⟩ => ⟨m', List.mem_cons_of_mem _ hm', w⟩⟩
      intro m' hm' w hw
      rcases List.mem_cons.mp hm' with rfl | hm'
      · simp [hm] at hw
      · exact h₂ m' hm' w hw
    | cons v vs =>
      dsimp only
      obtain ⟨h₁, h₂, h₃⟩ := ih (if p < f v then f v else p)
      have hp : p ≤ if p < f v then f v else p := by split <;> omega
      have hv : f v ≤ if p < f v then f v else p := by split <;> omega
      refine ⟨hp.trans h₁, ?_, ?_⟩
      · intro m' hm' w hw
        rcases List.mem_cons.mp hm' with rfl | hm'
        · have hle : f w ≤ f v := by
            have ho := hord m'
            rw [hm] at ho hw
            exact ho.le_head hw
          exact (hle.trans hv).trans h₁
        · exact h₂ m' hm' w hw
      · rcases h₃ with h₃ | ⟨m', hm', w⟩
        · rw [h₃]
          split
          · exact .inr ⟨m, List.mem_cons_self .., v, hm ▸ List.mem_cons_self .., rfl⟩
          · exact .inl rfl
        · exact .inr ⟨m', List.mem_cons_of_mem _ hm', w⟩

/-- **`task_effective_priority` is the level**, if the lists are ordered. -/
theorem taskEffectivePriority_isLevel (h : MutexOrdered c) (t : TaskId) :
    IsLevel c.base c.Waits c.priority t (c.taskEffectivePriority t) := by
  obtain ⟨h₁, h₂, h₃⟩ := foldl_first_waiter c.priority (fun m => c.waitLists (.mutex m)) h
    (c.tasks t).heldMutexes (c.tasks t).basePriority
  refine .mk' h₁ ?_ ?_
  · rintro w ⟨m, hm, hw⟩
    exact h₂ m hm w hw
  · rcases h₃ with h₃ | ⟨m, hm, w, hw, h₃⟩
    · exact .inl h₃
    · exact .inr ⟨w, ⟨m, hm, hw⟩, h₃⟩

/-! ### The walk -/

/-- The waiters are where the control blocks say, and edges lead to owners. -/
structure Chained (c : Core) : Prop where
  /-- A task in the list of a mutex records that. -/
  filed : ∀ m t, t ∈ c.waitLists (.mutex m) → (c.tasks t).waitMutex = some m
  /-- It is there once. -/
  nodup : ∀ m, (c.waitLists (.mutex m)).Nodup
  /-- The walk goes on from a waiter to the task it waits for. -/
  edge : ∀ w t, c.Waits w t → c.chainNext w = some t

theorem Chained.reprio (h : Chained c) (r : Reprio c c') : Chained c' where
  filed m t hm := by
    rw [r.waitMutex]
    exact h.filed m t (r.mem.mp hm)
  nodup m := (r.perm _).nodup_iff.mpr (h.nodup m)
  edge w t hw := by
    rw [r.chainNext]
    obtain ⟨m, hm, hw⟩ := hw
    rw [r.heldMutexes] at hm
    exact h.edge w t ⟨m, hm, r.mem.mp hw⟩

theorem Reprio.waits (r : Reprio c c') (w t : TaskId) : c'.Waits w t ↔ c.Waits w t := by
  unfold Waits
  simp only [r.heldMutexes, r.mem]

theorem Reprio.base (r : Reprio c c') (t : TaskId) : c'.base t = c.base t := r.basePriority t

/-- When a state is chained. -/
theorem chained_of
    (hf : ∀ m t, t ∈ c.waitLists (.mutex m) → (c.tasks t).wait = some (.list (.mutex m)))
    (hn : ∀ m, (c.waitLists (.mutex m)).Nodup)
    (hh : ∀ t m, m ∈ (c.tasks t).heldMutexes → (c.mutexes m).owner = some t)
    (hl : ∀ m t, (c.mutexes m).owner = some t → c.Live t)
    (hc : ∀ m t, t ∈ c.waitLists (.mutex m) → (c.mutexes m).owner ≠ some t) : Chained c where
  filed m t hm := Tcb.waitMutex_eq_some.mpr (hf m t hm)
  nodup := hn
  edge := by
    rintro w t ⟨m, hm, hw⟩
    have ho := hh t m hm
    have hne : t ≠ w := by
      rintro rfl
      exact hc m t hw ho
    unfold chainNext
    rw [Tcb.waitMutex_eq_some.mpr (hf m w hw)]
    dsimp only
    rw [ho, tcbFromHandle_eq_some.mpr ⟨rfl, hl m t ho⟩]
    simp [Option.filter, hne]

variable [cfg : Config]

theorem Wf.chained (h : Wf c) : Chained c :=
  chained_of (fun _ t hm => (h.filed _ t).mp hm) (fun _ => h.nodup _) (fun t m => (h.held t m).mp)
    h.owner_live fun m t hm => (h.contested m t hm).2

/-- One round keeps the lists ordered: the task is put where its new priority belongs. -/
theorem recomputeOne_ordered (hc : Chained c) (h : MutexOrdered c) (t : TaskId) :
    MutexOrdered (c.recomputeOne t) := by
  rcases c.recomputeOne_eq t with ⟨e, -⟩ | ⟨wl, e, hperm, hout, hin⟩
  · rw [e]
    exact h
  intro m
  rw [recomputeOne_priority, e]
  show Ordered _ (wl (.mutex m))
  by_cases hm : t ∈ c.waitLists (.mutex m)
  · rw [hin m (hc.filed m t hm) hm]
    refine Ordered.insertByKey (Ordered.congr ((h m).erase t) fun u hu => ?_)
    have hu : u ≠ t := ((hc.nodup m).mem_erase_iff.mp hu).1
    rw [Function.update_of_ne hu]
  · have hmem : t ∉ wl (.mutex m) := fun hm' => hm ((hperm _).mem_iff.mp hm')
    rw [hout _ fun m' e _ => by cases e; exact hm] at hmem ⊢
    refine (h m).congr fun u hu => Function.update_of_ne ?_ ..
    rintro rfl
    exact hmem hu

/-- One round of the walk, with where it goes on. -/
def walkStep (p : Core × Option TaskId) : Core × Option TaskId :=
  match p.2 with
  | none => p
  | some t => (p.1.recomputeOne t, p.1.chainNext t)

omit cfg in
/-- The tasks the walk visits. -/
def chain (c : Core) (x : Option TaskId) : ℕ → Option TaskId
  | 0 => x
  | i + 1 => (chain c x i).bind c.chainNext

omit cfg in
theorem chain_succ' (c : Core) (x : Option TaskId) (i : ℕ) :
    c.chain x (i + 1) = c.chain (x.bind c.chainNext) i := by
  induction i with
  | zero => rfl
  | succ i ih => rw [chain, ih]; rfl

theorem recomputeChain_eq (n : ℕ) (c : Core) (x : Option TaskId) :
    recomputeChain n c x = (walkStep^[n] (c, x)).1 := by
  induction n generalizing c x with
  | zero => rfl
  | succ n ih =>
    rw [Function.iterate_succ_apply]
    cases x with
    | none =>
      have hfix : walkStep (c, none) = (c, none) := rfl
      rw [hfix, Function.iterate_fixed hfix]
      rfl
    | some t => exact ih _ _

theorem walk_reprio (c : Core) (x : Option TaskId) (i : ℕ) : Reprio c (walkStep^[i] (c, x)).1 := by
  rw [← recomputeChain_eq]
  exact recomputeChain_reprio i c x

/-- Edges do not change during the walk. -/
theorem walk_snd (c : Core) (x : Option TaskId) (i : ℕ) : (walkStep^[i] (c, x)).2 = c.chain x i := by
  induction i with
  | zero => rfl
  | succ i ih =>
    rw [Function.iterate_succ_apply', walkStep, chain, ← ih]
    split
    · rename_i h
      rw [h]
      rfl
    · rename_i t h
      rw [h]
      exact (walk_reprio c x i).chainNext t

theorem walk_ordered (hc : Chained c) (h : MutexOrdered c) (x : Option TaskId) (i : ℕ) :
    MutexOrdered (walkStep^[i] (c, x)).1 := by
  induction i with
  | zero => exact h
  | succ i ih =>
    rw [Function.iterate_succ_apply', walkStep]
    split
    · exact ih
    · exact recomputeOne_ordered (hc.reprio (walk_reprio c x i)) ih _

/-- The walk along the owners is a walk of the library. -/
theorem walk_isWalk (hc : Chained c) (h : MutexOrdered c) (x : Option TaskId) :
    Walk c.base c.Waits c.chainNext (fun i => (walkStep^[i] (c, x)).1.priority) (c.chain x) where
  stop i hi := by
    refine ⟨by rw [chain, hi]; rfl, ?_⟩
    rw [Function.iterate_succ_apply', walkStep, walk_snd, hi]
  step i t hi := by
    have r := walk_reprio c x i
    have hw : (walkStep^[i] (c, x)).1.Waits = c.Waits :=
      funext fun w => funext fun u => propext (r.waits w u)
    have hb : (walkStep^[i] (c, x)).1.base = c.base := funext r.base
    have hlevel := taskEffectivePriority_isLevel (walk_ordered hc h x i) t
    rw [hw, hb] at hlevel
    refine ⟨by rw [chain, hi]; rfl, ?_⟩
    rw [Function.iterate_succ_apply', walkStep, walk_snd, hi]
    dsimp only
    rw [recomputeOne_priority]
    refine ⟨?_, fun y hy => Function.update_of_ne hy ..⟩
    rw [Function.update_self]
    exact hlevel
  edge := hc.edge
  irrefl t ht := by
    unfold chainNext at ht
    split at ht
    · cases ht
    · simp [Option.filter_eq_some_iff] at ht

/-- Mutexes that are owned are in the pool. -/
def Pooled (c : Core) : Prop := ∀ m, (c.mutexes m).owner ≠ none → m < cfg.maxCount .mutex

theorem Lists.pooled (h : Lists c) : Pooled c := fun m hm => h.slot_lt .mutex m (h.owner_used m hm)

omit cfg in
theorem chainNext_eq_some (h : c.chainNext t = some u) :
    ∃ m, (c.tasks t).waitMutex = some m ∧ (c.mutexes m).owner = some u ∧ c.Live u ∧ u ≠ t := by
  unfold chainNext at h
  split at h
  · cases h
  · rename_i m hm
    rw [Option.filter_eq_some_iff] at h
    obtain ⟨ho, hl⟩ := tcbFromHandle_eq_some.mp h.1
    exact ⟨m, hm, ho, hl, by simpa using h.2⟩

/-- **The walk makes inheritance exact**, if only tasks it visits were off. -/
theorem recompute_settles (hc : Chained c) (hp : Pooled c) (h : MutexOrdered c) {x : Option TaskId}
    (h₀ : ∀ y, (∀ i, c.chain x i ≠ some y) → Settled c.base c.Waits c.priority y) :
    Inherited (c.recompute x) := by
  have r := recompute_reprio c x
  have e : c.recompute x = (walkStep^[taskHandleLimit] (c, x)).1 := recomputeChain_eq ..
  have hw : (c.recompute x).Waits = c.Waits := funext fun w => funext fun u => propext (r.waits w u)
  have hb : (c.recompute x).base = c.base := funext r.base
  refine ⟨fun y => ?_, ?_⟩
  · rw [hw, hb, e]
    refine (walk_isWalk hc h x).settled h₀ (L := Fin (cfg.maxCount .mutex))
      (fun t => (c.tasks t).waitMutex.bind fun m =>
        if hm : m < cfg.maxCount .mutex then some ⟨m, hm⟩ else none)
      (fun m => (c.mutexes m).owner) ?_ ?_ y
    · intro t u htu
      obtain ⟨m, hm, ho, -⟩ := chainNext_eq_some htu
      have hlt : m < cfg.maxCount .mutex := hp m (by rw [ho]; exact Option.some_ne_none u)
      exact ⟨⟨m, hlt⟩, by simp [hm, hlt], ho⟩
    · have := cfg.maxCount_le .mutex
      rw [Fintype.card_fin]
      unfold taskHandleLimit
      omega
  · rw [e]
    exact walk_ordered hc h x _

/-- Tasks the walk does not visit keep their priority. -/
theorem recompute_frame (hc : Chained c) (h : MutexOrdered c) {x : Option TaskId}
    (hy : ∀ i, c.chain x i ≠ some t) : (c.recompute x).priority t = c.priority t := by
  rw [show c.recompute x = (walkStep^[taskHandleLimit] (c, x)).1 from recomputeChain_eq ..]
  exact (walk_isWalk hc h x).frame (Nat.zero_le taskHandleLimit) fun i _ _ => hy i

/-- The walk leaves alone what is exact already. -/
theorem recomputeOne_of_settled (h : MutexOrdered c) (ht : Settled c.base c.Waits c.priority t) :
    c.recomputeOne t = c := by
  have e : c.taskEffectivePriority t = c.priority t := (taskEffectivePriority_isLevel h t).unique ht
  unfold recomputeOne
  simp [e]

theorem recompute_of_inherited (h : Inherited c) (x : Option TaskId) : c.recompute x = c := by
  have key : ∀ n x, recomputeChain n c x = c := by
    intro n
    induction n with
    | zero => exact fun x => rfl
    | succ n ih =>
      intro x
      cases x with
      | none => rfl
      | some t =>
        rw [recomputeChain, recomputeOne_of_settled h.ordered (h.exact t)]
        exact ih _
  exact key _ x

end Core

end Aixos
