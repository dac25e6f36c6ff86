import Aixos.Kernel.Backends
import Aixos.Library.Transition

/-!
# The two back ends agree

The queues of the bitmap are the parts of the single list: the tasks of one priority, in the
order of the list. Every operation keeps that, so the same task is selected.

* `Agrees` — the relation between the two ready structures.
* `Agrees.addTask`, `Agrees.delete`, `Agrees.rotate` — one lemma for each function.
* `Scheduler.agree_of_path` — the two configurations agree after every well-formed sequence.
-/

namespace Aixos

open OrderedQueue Transition Sched

variable [cfg : Config] {priority priority' : TaskId → ℤ} {b : Sched} {q : ℕ → List TaskId} {s : SchedSimple}
  {t u : TaskId} {l : List TaskId} {p : ℤ}

/-- The queues `q` of the array of queues `b` are the parts of the single list `s`. -/
structure Agrees (priority : TaskId → ℤ) (b : Sched) (q : ℕ → List TaskId) (s : SchedSimple) : Prop where
  /-- The array of queues is well formed. -/
  holds : b.Holds q
  /-- A queue has the tasks of its priority, in the order of the list. -/
  queue : ∀ p : ℕ, q p = s.readyList.filter fun t => decide (priority t = p)
  /-- The list is in the order of priorities. -/
  ordered : Ordered priority s.readyList
  /-- No task is twice in the list. -/
  nodup : s.readyList.Nodup
  /-- The tasks in the list have a priority in range. -/
  range : ∀ t ∈ s.readyList, ¬ OutOfRange (priority t)
  /-- The nodes that are linked to themselves are the same. -/
  self : ∀ t, s.selfLinked t = true → t ∉ s.readyList ∧ b.SelfLinked t
  /-- The nodes that are null are the same. -/
  unlinked : ∀ t, s.linked t = false → b.Unlinked t

omit cfg in
theorem SchedSimple.linked_eq_false : s.linked t = false ↔ t ∉ s.readyList ∧ s.selfLinked t = false := by
  simp [SchedSimple.linked]

omit cfg in
theorem SchedSimple.linked_of_mem (h : t ∈ s.readyList) : s.linked t = true := by simp [SchedSimple.linked, h]

omit cfg in
/-- In a list in order, the search for the last task of equal priority finds the place of insertion,
if there is such a task. -/
theorem afterSame_eq (h : Ordered priority l) :
    SchedSimple.afterSame priority t l =
      if ∃ u ∈ l, priority u = priority t then some (insertByKey priority t l) else none := by
  induction l with
  | nil => simp [SchedSimple.afterSame]
  | cons u l ih =>
    unfold Ordered at h ih
    rw [List.pairwise_cons] at h
    rw [SchedSimple.afterSame, ih h.2, insertByKey_cons]
    by_cases hu : priority u = priority t
    · have hlt : ¬ priority u < priority t := by omega
      have hex : ∃ v ∈ u :: l, priority v = priority t := ⟨u, List.mem_cons_self .., hu⟩
      rw [if_pos hu, if_pos hex, if_neg hlt]
      by_cases hl : ∃ u ∈ l, priority u = priority t
      · rw [if_pos hl]
      · -- all that follow are lower
        rw [if_neg hl]
        have hall : ∀ v ∈ l, priority v < priority t := by
          intro v hv
          have h₁ := h.1 v hv
          have h₂ : priority v ≠ priority t := fun e => hl ⟨v, hv, e⟩
          omega
        cases l with
        | nil => rfl
        | cons v l => rw [insertByKey_cons, if_pos (hall v (List.mem_cons_self ..))]
    · rw [if_neg hu]
      by_cases hlt : priority u < priority t
      · rw [if_pos hlt, if_neg]
        rintro ⟨v, hv, e⟩
        rcases List.mem_cons.mp hv with rfl | hv
        · exact hu e
        · have := h.1 v hv
          omega
      · rw [if_neg hlt, if_neg hlt]
        by_cases hl : ∃ u ∈ l, priority u = priority t
        · obtain ⟨v, hv, e⟩ := hl
          have hex : ∃ v ∈ u :: l, priority v = priority t := ⟨v, List.mem_cons_of_mem _ hv, e⟩
          rw [if_pos ⟨v, hv, e⟩, if_pos hex]
          rfl
        · rw [if_neg hl, if_neg]
          · rfl
          · rintro ⟨v, hv, e⟩
            rcases List.mem_cons.mp hv with rfl | hv
            · exact hu e
            · exact hl ⟨v, hv, e⟩

namespace Agrees

theorem mem_iff (h : Agrees priority b q s) {p : ℕ} : t ∈ q p ↔ t ∈ s.readyList ∧ priority t = p := by
  rw [h.queue, List.mem_filter, decide_eq_true_iff]

theorem not_mem (h : Agrees priority b q s) (ht : t ∉ s.readyList) (p : ℕ) : t ∉ q p :=
  fun hm => ht (h.mem_iff.mp hm).1

theorem toNat_priority (hp : ¬ OutOfRange p) : ((p.toNat : ℕ) : ℤ) = p := by
  unfold OutOfRange at hp
  omega

theorem toNat_lt (hp : ¬ OutOfRange p) : p.toNat < cfg.maxPriority := by
  unfold OutOfRange at hp
  omega

theorem mem_own (h : Agrees priority b q s) (ht : t ∈ s.readyList) : t ∈ q (priority t).toNat :=
  h.mem_iff.mpr ⟨ht, (toNat_priority (h.range t ht)).symm⟩

/-- Taking a task out of the list takes it out of its queue. -/
theorem filter_erase (h : Agrees priority b q s) (t : TaskId) (p : ℕ) :
    ((s.readyList.erase t).filter fun u => decide (priority u = p)) = (q p).erase t := by
  rw [h.queue, (h.nodup.filter _).erase_eq_filter, List.filter_filter, h.nodup.erase_eq_filter, List.filter_filter]
  exact List.filter_congr fun u _ => Bool.and_comm ..

/-- A task whose node is not the one that changes keeps what it is. -/
theorem other (h : Agrees priority b q s) {c : Sched} {r : SchedSimple}
    (hn : ∀ u ≠ t, u ∉ s.readyList → SameNode b c u) (hl : ∀ u ≠ t, u ∈ r.readyList ↔ u ∈ s.readyList)
    (hs : ∀ u ≠ t, r.selfLinked u = s.selfLinked u) (ht : r.selfLinked t = false)
    (hu : t ∉ r.readyList → c.Unlinked t) :
    (∀ u, r.selfLinked u = true → u ∉ r.readyList ∧ c.SelfLinked u) ∧
      ∀ u, r.linked u = false → c.Unlinked u := by
  constructor
  · intro u hsu
    have hut : u ≠ t := by
      rintro rfl
      rw [ht] at hsu
      cases hsu
    rw [hs u hut] at hsu
    obtain ⟨h₁, h₂⟩ := h.self u hsu
    exact ⟨fun hm => h₁ ((hl u hut).mp hm), h₂.congr (hn u hut h₁)⟩
  · intro u hlu
    obtain ⟨h₁, h₂⟩ := SchedSimple.linked_eq_false.mp hlu
    by_cases hut : u = t
    · subst hut
      exact hu h₁
    · rw [hl u hut] at h₁
      rw [hs u hut] at h₂
      exact (h.unlinked u (SchedSimple.linked_eq_false.mpr ⟨h₁, h₂⟩)).congr (hn u hut h₁)

/-- `aixos_list_init` of a node that is in no list. -/
theorem initNode (h : Agrees priority b q s) (ht : t ∉ s.readyList) (hp : ∀ u ≠ t, priority' u = priority u) :
    Agrees priority' (b.initNode t) q (s.initNode t) where
  holds := h.holds.initNode (h.not_mem ht)
  queue p := by
    rw [h.queue]
    refine List.filter_congr fun u hu => ?_
    rw [hp u (by rintro rfl; exact ht hu)]
  ordered := h.ordered.congr fun u hu => hp u (by rintro rfl; exact ht hu)
  nodup := h.nodup
  range u hu := by
    rw [hp u (by rintro rfl; exact ht hu)]
    exact h.range u hu
  self u hu := by
    by_cases hut : u = t
    · subst hut
      exact ⟨ht, Holds.initNode_selfLinked b u⟩
    · have hu : s.selfLinked u = true := by simpa [SchedSimple.initNode, hut] using hu
      exact ⟨(h.self u hu).1, (h.self u hu).2.congr (Holds.initNode_sameNode b hut)⟩
  unlinked u hu := by
    by_cases hut : u = t
    · subst hut
      simp [SchedSimple.linked, SchedSimple.initNode] at hu
    · have hlu : s.linked u = false := by
        rw [SchedSimple.linked_eq_false] at hu ⊢
        simpa [SchedSimple.initNode, hut] using hu
      exact (h.unlinked u hlu).congr (Holds.initNode_sameNode b hut)

/-- `aixos_sched_add_task` of a task that is not queued. -/
theorem addTask (h : Agrees priority b q s) (ht : t ∉ s.readyList) :
    ∃ q', Agrees priority (Backend.bitmap.addTask priority b t) q' (s.addTask priority t) := by
  by_cases hr : OutOfRange (priority t)
  · refine ⟨q, ?_⟩
    simpa [Backend.bitmap, SchedSimple.addTask, hr] using h
  · have hb : Backend.bitmap.addTask priority b t = b.addTask t (priority t).toNat := by
      simp [Backend.bitmap, hr]
    have hs : s.addTask priority t = s.put t (insertByKey priority t) := by
      simp [SchedSimple.addTask, hr, SchedSimple.insert]
    have hq := h.not_mem ht
    have hoth := h.other (t := t) (c := b.addTask t (priority t).toNat) (r := s.put t (insertByKey priority t))
      (fun u hu hm => h.holds.addTask_sameNode hu (h.not_mem hm))
      (fun u hu => by simp [SchedSimple.put, insertByKey, hu])
      (fun u hu => by simp [SchedSimple.put, hu])
      (by simp [SchedSimple.put])
      (fun hm => absurd (by simp [SchedSimple.put, insertByKey]) hm)
    rw [hb, hs]
    refine ⟨_, h.holds.addTask hq (toNat_lt hr), ?_, ?_, ?_, ?_, hoth.1, hoth.2⟩
    · intro p
      rw [SchedSimple.put, h.ordered.filter_insertByKey, ← h.queue, Function.update_apply]
      by_cases hp : p = (priority t).toNat
      · rw [if_pos hp, if_pos (by rw [hp, toNat_priority hr]), hp]
      · rw [if_neg hp, if_neg (by rintro e; exact hp (by omega)), List.append_nil]
    · exact h.ordered.insertByKey
    · exact nodup_insertBefore.mpr ⟨ht, h.nodup⟩
    · intro u hu
      rcases mem_insertBefore.mp hu with rfl | hu
      · exact hr
      · exact h.range u hu

/-- `aixos_list_del` of a linked node, whatever the priority of its task becomes. -/
theorem delete (h : Agrees priority b q s) (ht : s.linked t = true) (hp : ∀ u ≠ t, priority' u = priority u) :
    ∃ q', Agrees priority' ({ b with links := b.links.delete (.task t) }.unmarkIfEmpty (priority t).toNat) q'
      (s.delete t) := by
  have hmem : ∀ u, u ∈ (s.delete t).readyList ↔ u ≠ t ∧ u ∈ s.readyList := fun u => h.nodup.mem_erase_iff
  have hsame : ∀ u ∈ (s.delete t).readyList, priority' u = priority u := fun u hu => hp u ((hmem u).mp hu).1
  have hnode : ∀ u ≠ t, u ∉ s.readyList → SameNode b
      ({ b with links := b.links.delete (.task t) }.unmarkIfEmpty (priority t).toNat) u := by
    intro u hu hm
    by_cases htl : t ∈ s.readyList
    · exact h.holds.deleteTask_sameNode (h.mem_own htl) (h.not_mem hm)
    · have hself : s.selfLinked t = true := by simpa [SchedSimple.linked, htl] using ht
      exact Holds.deleteSelf_sameNode (h.self t hself).2 hu _
  have hoth := h.other (t := t) (r := s.delete t) hnode
    (fun u hu => by rw [hmem]; exact and_iff_right hu)
    (fun u hu => by simp [SchedSimple.delete, hu])
    (by simp [SchedSimple.delete])
    (fun _ => by simp [Unlinked])
  have hord : Ordered priority' (s.delete t).readyList := (h.ordered.erase t).congr hsame
  have hrange : ∀ u ∈ (s.delete t).readyList, ¬ OutOfRange (priority' u) := by
    intro u hu
    rw [hsame u hu]
    exact h.range u ((hmem u).mp hu).2
  have hfilter : ∀ p : ℕ, ((s.delete t).readyList.filter fun u => decide (priority' u = p)) =
      (q p).erase t := by
    intro p
    rw [← h.filter_erase]
    exact List.filter_congr fun u hu => by rw [hsame u hu]
  by_cases htl : t ∈ s.readyList
  · refine ⟨_, h.holds.deleteTask (h.mem_own htl), fun p => ?_, hord, h.nodup.erase t, hrange, hoth.1, hoth.2⟩
    rw [hfilter, Function.update_apply]
    split
    · rename_i hpp
      rw [hpp]
    · rename_i hpp
      rw [List.erase_of_not_mem]
      intro hm
      have := (h.mem_iff.mp hm).2
      omega
  · have hself : s.selfLinked t = true := by simpa [SchedSimple.linked, htl] using ht
    refine ⟨q, h.holds.deleteSelf (h.self t hself).2 _, fun p => ?_, hord, h.nodup.erase t, hrange, hoth.1, hoth.2⟩
    rw [hfilter, List.erase_of_not_mem (h.not_mem htl p)]

/-- The queues may be kept in another memory that has the same nodes besides. -/
theorem same (h : Agrees priority b q s) {b' : Sched} (hb : b'.Holds q)
    (hn : ∀ u, u ∉ s.readyList → SameNode b b' u) : Agrees priority b' q s where
  holds := hb
  queue := h.queue
  ordered := h.ordered
  nodup := h.nodup
  range := h.range
  self t ht := ⟨(h.self t ht).1, (h.self t ht).2.congr (hn t (h.self t ht).1)⟩
  unlinked t ht := (h.unlinked t ht).congr (hn t (SchedSimple.linked_eq_false.mp ht).1)

/-- The node of a linked task is not null. -/
theorem next_ne_none (h : Agrees priority b q s) (ht : s.linked t = true) : b.links.next (.task t) ≠ none := by
  by_cases htl : t ∈ s.readyList
  · exact h.holds.linked (h.mem_own htl)
  · have hself : s.selfLinked t = true := by simpa [SchedSimple.linked, htl] using ht
    rw [(h.self t hself).2.1]
    simp

/-- The priority of a task that is not in the list does not matter. -/
theorem congr (h : Agrees priority b q s) (ht : t ∉ s.readyList) (hp : ∀ u ≠ t, priority' u = priority u) :
    Agrees priority' b q s := by
  have hsame : ∀ u ∈ s.readyList, priority' u = priority u := fun u hu => hp u (by rintro rfl; exact ht hu)
  refine ⟨h.holds, fun p => ?_, h.ordered.congr hsame, h.nodup, fun u hu => ?_, h.self, h.unlinked⟩
  · rw [h.queue]
    exact List.filter_congr fun u hu => by rw [hsame u hu]
  · rw [hsame u hu]
    exact h.range u hu

/-- `aixos_sched_remove_task` -/
theorem removeTask (h : Agrees priority b q s) (t : TaskId) :
    ∃ q', Agrees priority (Backend.bitmap.removeTask priority b t) q' (s.removeTask t) := by
  cases ht : s.linked t with
  | false =>
    refine ⟨q, ?_⟩
    have hb : Backend.bitmap.removeTask priority b t = b := Holds.removeTask_of_unlinked (h.unlinked t ht)
    simpa [hb, SchedSimple.removeTask, ht] using h
  | true =>
    have hp : ∀ u ≠ t, priority u = priority u := fun _ _ => rfl
    obtain ⟨q', h'⟩ := h.delete ht hp
    refine ⟨q', ?_⟩
    simpa [Backend.bitmap, Sched.removeTask, h.next_ne_none ht, SchedSimple.removeTask, ht] using h'

/-- `aixos_sched_requeue_task` after the priority of the task has been changed. -/
theorem requeueTask (h : Agrees priority b q s) (t : TaskId) (p : ℤ) :
    ∃ q', Agrees (Function.update priority t p)
      (Backend.bitmap.requeueTask (Function.update priority t p) b t (priority t)) q'
      (s.requeueTask (Function.update priority t p) t (priority t)) := by
  have hp : ∀ u ≠ t, Function.update priority t p u = priority u := fun u hu => Function.update_of_ne hu ..
  cases ht : s.linked t with
  | false =>
    -- a node that is null stays so, whatever the old priority was
    refine ⟨q, ?_⟩
    have hb : Backend.bitmap.requeueTask (Function.update priority t p) b t (priority t) = b := by
      have hn : b.links.next (.task t) = none := h.unlinked t ht
      simp [Backend.bitmap, hn]
    have hs : s.requeueTask (Function.update priority t p) t (priority t) = s := by
      simp [SchedSimple.requeueTask, ht]
    rw [hb, hs]
    exact h.congr (SchedSimple.linked_eq_false.mp ht).1 hp
  | true =>
    by_cases hr : OutOfRange (priority t)
    · -- such a task is not in the list
      have htl : t ∉ s.readyList := fun hm => h.range t hm hr
      refine ⟨q, ?_⟩
      simpa [Backend.bitmap, SchedSimple.requeueTask, hr] using h.congr htl hp
    · obtain ⟨q₁, h₁⟩ := h.delete ht hp
      have htl : t ∉ (s.delete t).readyList := h.nodup.not_mem_erase
      obtain ⟨q₂, h₂⟩ := h₁.addTask htl
      refine ⟨q₂, ?_⟩
      simpa [Backend.bitmap, h.next_ne_none ht, SchedSimple.requeueTask, ht, hr] using h₂

/-- A task that is alone in its queue, or behind its equals, stays where it is. -/
theorem rotate_last (h : Agrees priority b q s) (ht : t ∈ s.readyList) {ys zs : List TaskId}
    (e : s.readyList = ys ++ t :: zs) (hz : ∀ u ∈ zs, priority u ≠ priority t) :
    Holds.rotated q t (priority t).toNat = q := by
  have hy : t ∉ ys := by
    have hnd := h.nodup
    rw [e] at hnd
    exact fun hm => (List.nodup_append.mp hnd).2.2 t hm t (List.mem_cons_self ..) rfl
  have hq : q (priority t).toNat = ys.filter (fun u => decide (priority u = priority t)) ++ [t] := by
    rw [h.queue, toNat_priority (h.range t ht), e, List.filter_append, List.filter_cons_of_pos (by simp)]
    congr 2
    exact List.filter_eq_nil_iff.mpr fun u hu => by simpa using hz u hu
  unfold Holds.rotated
  split
  · rfl
  · rw [hq, List.erase_append_right _ fun hm => hy (List.mem_filter.mp hm).1, List.erase_cons_head,
      List.append_nil, ← hq, Function.update_eq_self]

/-- A task that is followed by an equal goes behind its equals. -/
theorem rotate_equal (h : Agrees priority b q s) (ht : t ∈ s.readyList) (hu : u ∈ s.readyList) (hut : u ≠ t)
    (hp : priority u = priority t) :
    ∃ q', Agrees priority (b.rotate t (priority t).toNat) q' ((s.delete t).put t (insertByKey priority t)) := by
  have hrot := h.holds.rotate (h.mem_own ht)
  have hlen : ¬ (q (priority t).toNat).length ≤ 1 := by
    have hm := h.mem_own ht
    have hm' : u ∈ q (priority t).toNat := h.mem_iff.mpr ⟨hu, by rw [hp, toNat_priority (h.range t ht)]⟩
    intro hle
    obtain ⟨x, hx⟩ := List.length_eq_one_iff.mp (Nat.le_antisymm hle (List.length_pos_of_mem hm))
    rw [hx, List.mem_singleton] at hm hm'
    exact hut (hm'.trans hm.symm)
  rw [Holds.rotated, if_neg hlen] at hrot
  have hmem : ∀ v, v ∈ ((s.delete t).put t (insertByKey priority t)).readyList ↔ v ∈ s.readyList := by
    intro v
    rw [SchedSimple.put, insertByKey, mem_insertBefore, SchedSimple.delete, h.nodup.mem_erase_iff]
    by_cases hvt : v = t
    · simp [hvt, ht]
    · simp [hvt]
  have hoth := h.other (t := t) (r := (s.delete t).put t (insertByKey priority t))
    (fun v _ hv => h.holds.rotate_sameNode (h.mem_own ht) (h.not_mem hv))
    (fun v _ => hmem v)
    (fun v hv => by simp [SchedSimple.put, SchedSimple.delete, hv])
    (by simp [SchedSimple.put])
    (fun hm => absurd ((hmem t).mpr ht) hm)
  refine ⟨_, hrot, fun p => ?_, (h.ordered.erase t).insertByKey,
    nodup_insertBefore.mpr ⟨h.nodup.not_mem_erase, h.nodup.erase t⟩, fun v hv => h.range v ((hmem v).mp hv),
    hoth.1, hoth.2⟩
  rw [SchedSimple.put, SchedSimple.delete, (h.ordered.erase t).filter_insertByKey, h.filter_erase,
    Function.update_apply]
  by_cases hpt : p = (priority t).toNat
  · rw [if_pos hpt, if_pos (by rw [hpt, toNat_priority (h.range t ht)]), hpt]
  · have hne : priority t ≠ p := by
      intro e
      omega
    rw [if_neg hpt, if_neg hne, List.append_nil, List.erase_of_not_mem fun hm => hne (h.mem_iff.mp hm).2]

/-- `aixos_sched_rotate_current`, for a current task whose node is not linked to itself. -/
theorem rotate (h : Agrees priority b q s) (ht : s.selfLinked t = false) :
    ∃ q', Agrees priority (Backend.bitmap.rotate priority b t) q' (s.rotate priority t) := by
  by_cases htl : t ∈ s.readyList
  · obtain ⟨ys, zs, e⟩ := List.append_of_mem htl
    have hnd := h.nodup
    have hord := h.ordered
    unfold Ordered at hord
    rw [e] at hnd hord
    have hnd := List.nodup_append.mp hnd
    have hord := List.pairwise_cons.mp (List.pairwise_append.mp hord).2.1
    have hnext : s.next t = zs.head? := by
      have hdrop : s.readyList.dropWhile (fun u => decide (u ≠ t)) = t :: zs := by
        rw [e, List.dropWhile_append_of_pos, List.dropWhile_cons_of_neg (by simp)]
        intro u hu
        simpa using hnd.2.2 u hu t (List.mem_cons_self ..)
      rw [SchedSimple.next, ht, if_neg (by simp), hdrop]
      cases zs <;> rfl
    have hlast : (∀ u ∈ zs, priority u ≠ priority t) → s.rotate priority t = s →
        ∃ q', Agrees priority (b.rotate t (priority t).toNat) q' (s.rotate priority t) := by
      intro hz hs
      have hrot := h.holds.rotate (h.mem_own htl)
      rw [h.rotate_last htl e hz] at hrot
      rw [hs]
      exact ⟨q, h.same hrot fun u hu => h.holds.rotate_sameNode (h.mem_own htl) (h.not_mem hu)⟩
    show ∃ q', Agrees priority (b.rotate t (priority t).toNat) q' (s.rotate priority t)
    cases zs with
    | nil => exact hlast (by simp) (by simp [SchedSimple.rotate, hnext])
    | cons v zs =>
      by_cases hv : priority v = priority t
      · have hvt : v ≠ t := by
          rintro rfl
          exact (List.nodup_cons.mp hnd.2.1).1 (List.mem_cons_self ..)
        have hvl : v ∈ s.readyList := by
          rw [e]
          simp
        have hs : s.rotate priority t = (s.delete t).put t (insertByKey priority t) := by
          have hex : ∃ u ∈ s.readyList.erase t, priority u = priority t :=
            ⟨v, h.nodup.mem_erase_iff.mpr ⟨hvt, hvl⟩, hv⟩
          have ha := afterSame_eq (h.ordered.erase t) (t := t)
          rw [if_pos hex] at ha
          simp [SchedSimple.rotate, SchedSimple.linked_of_mem htl, hnext, hv, SchedSimple.insertAfterSamePriority, ha,
            SchedSimple.put, SchedSimple.delete]
        rw [hs]
        exact h.rotate_equal htl hvl hvt hv
      · refine hlast ?_ (by simp [SchedSimple.rotate, hnext, hv])
        intro u hu
        rcases List.mem_cons.mp hu with rfl | hu
        · exact hv
        · have h₁ := hord.1 v (List.mem_cons_self ..)
          have h₂ := (List.pairwise_cons.mp hord.2).1 u hu
          omega
  · have hl : s.linked t = false := SchedSimple.linked_eq_false.mpr ⟨htl, ht⟩
    refine ⟨q, ?_⟩
    have hb : Backend.bitmap.rotate priority b t = b := Holds.rotate_of_unlinked (h.unlinked t hl)
    simpa [hb, SchedSimple.rotate, hl] using h

/-- The first task of the single list is the one the bitmap finds. -/
theorem findHighest (h : Agrees priority b q s) : b.findHighest = s.readyList.head? := by
  cases hb : b.findHighest with
  | none =>
    have hnil : s.readyList = [] := by
      refine List.eq_nil_iff_forall_not_mem.mpr fun t ht => ?_
      have hm := h.mem_own ht
      rw [h.holds.findHighest_eq_none hb] at hm
      cases hm
    rw [hnil]
    rfl
  | some t =>
    obtain ⟨p, hp, hmax⟩ := h.holds.findHighest_eq_some hb
    obtain ⟨ht, htp⟩ := h.mem_iff.mp (List.mem_of_mem_head? hp)
    cases hl : s.readyList with
    | nil =>
      rw [hl] at ht
      cases ht
    | cons u l =>
      -- both are the first of the highest priority
      have hu : u ∈ s.readyList := by
        rw [hl]
        exact List.mem_cons_self ..
      have hle : (priority u).toNat ≤ p := hmax _ (List.ne_nil_of_mem (h.mem_own hu))
      have hge : priority t ≤ priority u := by
        have hord := h.ordered
        rw [hl] at hord ht
        exact hord.le_head ht
      have hup : priority u = p := by
        have := toNat_priority (h.range u hu)
        omega
      rw [h.queue, hl, List.filter_cons_of_pos (by simpa using hup)] at hp
      simpa using hp.symm

end Agrees

/-! ### Every sequence of operations -/

namespace Scheduler

variable {a a' : Scheduler Sched} {c c' : Scheduler SchedSimple} {o : SchedOp} {ops : List SchedOp}

/-- The operation is one that the kernel performs: a new control block is not in use and has a
priority in range, and a task is added only while it is not in the list. -/
def WellFormed (c : Scheduler SchedSimple) : SchedOp → Prop
  | .create t p => t ∉ c.ready.readyList ∧ c.cur ≠ some t ∧ ¬ OutOfRange p
  | .addTask t => t ∉ c.ready.readyList
  | _ => True

instance (c : Scheduler SchedSimple) (o : SchedOp) : Decidable (WellFormed c o) := by
  cases o <;> unfold WellFormed <;> infer_instance

/-- The schedulers of the two configurations agree. -/
structure Agree (a : Scheduler Sched) (c : Scheduler SchedSimple) : Prop where
  priority : a.priority = c.priority
  state : a.state = c.state
  cur : a.cur = c.cur
  ready : ∃ q, Agrees c.priority a.ready q c.ready
  /-- The current task has been queued before. -/
  queued : ∀ t, c.cur = some t → c.ready.selfLinked t = false

theorem agree_init : Agree (init Backend.bitmap) (init Backend.simple) where
  priority := rfl
  state := rfl
  cur := rfl
  ready := ⟨_, holds_init, fun _ => rfl, List.Pairwise.nil, List.nodup_nil, by simp [init, Backend.simple],
    by simp [init, Backend.simple], fun _ _ => rfl⟩
  queued := by simp [init]

omit cfg in
/-- What was linked to itself is no longer so, or is still so. -/
theorem selfLinked_update {f : TaskId → Bool} {t u : TaskId} (h : f u = false) :
    Function.update f t false u = false := by
  by_cases hut : u = t
  · simp [hut]
  · simpa [hut] using h

/-- No operation on the list links a node to itself. -/
theorem selfLinked_exec (ho : ∀ t p, o ≠ .create t p) {u : TaskId} (hu : c.ready.selfLinked u = false) :
    (c.exec Backend.simple o).ready.selfLinked u = false := by
  have hadd : ∀ (priority : TaskId → ℤ) (s : SchedSimple) (t : TaskId), s.selfLinked u = false →
      (s.addTask priority t).selfLinked u = false := by
    intro priority s t hs
    rw [SchedSimple.addTask]
    split
    · exact hs
    · exact selfLinked_update hs
  cases o with
  | create t p => exact absurd rfl (ho t p)
  | addTask t => exact hadd _ _ _ hu
  | removeTask t =>
    show (c.ready.removeTask t).selfLinked u = false
    rw [SchedSimple.removeTask]
    split
    · exact selfLinked_update hu
    · exact hu
  | setPriority t p =>
    show (c.ready.requeueTask _ t _).selfLinked u = false
    rw [SchedSimple.requeueTask]
    split
    · exact hu
    · split
      · exact hadd _ _ _ (selfLinked_update hu)
      · exact hu
  | rotateCurrent =>
    rw [exec]
    split
    · exact hu
    · rename_i t _
      show (c.ready.rotate c.priority t).selfLinked u = false
      rw [SchedSimple.rotate]
      split
      · split
        · exact hu
        · split
          · rw [SchedSimple.insertAfterSamePriority]
            split
            · exact selfLinked_update (selfLinked_update hu)
            · exact selfLinked_update (selfLinked_update hu)
          · exact hu
      · exact hu
  | schedule =>
    rw [exec, schedule]
    split
    · exact hu
    · exact hu

/-- **Every operation keeps the two schedulers in agreement.** -/
theorem Agree.exec (h : Agree a c) (ho : WellFormed c o) :
    Agree (a.exec Backend.bitmap o) (c.exec Backend.simple o) := by
  obtain ⟨q, hq⟩ := h.ready
  cases o with
  | create t p =>
    obtain ⟨ht, hc, -⟩ := ho
    refine ⟨?_, ?_, h.cur, ⟨q, hq.initNode ht fun u hu => Function.update_of_ne hu ..⟩, fun u hu => ?_⟩
    · show Function.update a.priority t p = Function.update c.priority t p
      rw [h.priority]
    · show Function.update a.state t .ready = Function.update c.state t .ready
      rw [h.state]
    · have hut : u ≠ t := by
        rintro rfl
        exact hc hu
      have := h.queued u hu
      simpa [Scheduler.exec, Backend.simple, SchedSimple.initNode, hut] using this
  | addTask t =>
    obtain ⟨q', h'⟩ := hq.addTask ho
    refine ⟨h.priority, h.state, h.cur, ⟨q', ?_⟩, fun u hu => selfLinked_exec (by simp) (h.queued u hu)⟩
    show Agrees c.priority (Backend.bitmap.addTask a.priority a.ready t) q' (c.ready.addTask c.priority t)
    rw [h.priority]
    exact h'
  | removeTask t =>
    obtain ⟨q', h'⟩ := hq.removeTask t
    refine ⟨h.priority, h.state, h.cur, ⟨q', ?_⟩, fun u hu => selfLinked_exec (by simp) (h.queued u hu)⟩
    show Agrees c.priority (Backend.bitmap.removeTask a.priority a.ready t) q' (c.ready.removeTask t)
    rw [h.priority]
    exact h'
  | setPriority t p =>
    obtain ⟨q', h'⟩ := hq.requeueTask t p
    refine ⟨?_, h.state, h.cur, ⟨q', ?_⟩, fun u hu => selfLinked_exec (by simp) (h.queued u hu)⟩
    · show Function.update a.priority t p = Function.update c.priority t p
      rw [h.priority]
    · show Agrees (Function.update c.priority t p)
        (Backend.bitmap.requeueTask (Function.update a.priority t p) a.ready t (a.priority t)) q'
        (c.ready.requeueTask (Function.update c.priority t p) t (c.priority t))
      rw [h.priority]
      exact h'
  | rotateCurrent =>
    cases hc : c.cur with
    | none =>
      have ha : a.cur = none := h.cur.trans hc
      have e₁ : a.exec Backend.bitmap .rotateCurrent = a := by simp [Scheduler.exec, ha]
      have e₂ : c.exec Backend.simple .rotateCurrent = c := by simp [Scheduler.exec, hc]
      rw [e₁, e₂]
      exact h
    | some t =>
      have ha : a.cur = some t := h.cur.trans hc
      obtain ⟨q', h'⟩ := hq.rotate (h.queued t hc)
      have e₁ : a.exec Backend.bitmap .rotateCurrent =
          { a with ready := Backend.bitmap.rotate a.priority a.ready t } := by simp [Scheduler.exec, ha]
      have e₂ : c.exec Backend.simple .rotateCurrent =
          { c with ready := c.ready.rotate c.priority t } := by simp [Scheduler.exec, hc, Backend.simple]
      have hself := fun u (hu : c.cur = some u) => selfLinked_exec (o := .rotateCurrent) (by simp) (h.queued u hu)
      rw [e₂] at hself
      rw [e₁, e₂]
      refine ⟨h.priority, h.state, h.cur, ⟨q', ?_⟩, hself⟩
      rw [h.priority]
      exact h'
  | schedule =>
    have hpre : a.preempt = c.preempt := by
      rw [preempt, preempt, h.cur, h.state]
    have hf : Backend.bitmap.findHighest a.ready = Backend.simple.findHighest c.ready := hq.findHighest
    show Agree (a.schedule Backend.bitmap) (c.schedule Backend.simple)
    rw [Scheduler.schedule, Scheduler.schedule, hf, hpre]
    split
    · exact ⟨h.priority, rfl, rfl, ⟨q, hq⟩, fun u hu => by cases hu⟩
    · rename_i t ht
      refine ⟨h.priority, rfl, rfl, ⟨q, hq⟩, fun u hu => ?_⟩
      cases hu
      have hm : t ∈ c.ready.readyList := List.mem_of_mem_head? ht
      by_contra hself
      exact (hq.self t (by simpa using hself)).1 hm

/-- A run of one configuration is one of the other. -/
theorem Agree.path (h : Agree a c) (hp : Path (Next (step Backend.simple)) WellFormed c ops c') :
    ∃ a', run (step Backend.bitmap) a ops = some a' ∧ Agree a' c' := by
  induction hp generalizing a with
  | nil => exact ⟨a, rfl, h⟩
  | @cons c m c' o ops ho hs _ ih =>
    cases (show some (c.exec Backend.simple o) = some m from hs)
    exact ih (h.exec ho)

/-- **The two configurations agree**: after every well-formed sequence of operations the queue of
every priority holds the tasks of that priority in the order of the single list, no other task
is queued, and the same task is current. -/
theorem agree_of_path (hp : Path (Next (step Backend.simple)) WellFormed (init Backend.simple) ops c) :
    ∃ a q, run (step Backend.bitmap) (init Backend.bitmap) ops = some a ∧ a.cur = c.cur ∧ a.state = c.state ∧
      a.priority = c.priority ∧ a.ready.Holds q ∧
      (∀ p : ℕ, q p = c.ready.readyList.filter fun t => decide (c.priority t = p)) ∧
      ∀ t, t ∈ c.ready.readyList ↔ ∃ p, t ∈ q p := by
  obtain ⟨a, hrun, h⟩ := agree_init.path hp
  obtain ⟨q, hq⟩ := h.ready
  refine ⟨a, q, hrun, h.cur, h.state, h.priority, hq.holds, hq.queue, fun t => ⟨fun ht => ⟨_, hq.mem_own ht⟩, ?_⟩⟩
  rintro ⟨p, ht⟩
  exact (hq.mem_iff.mp ht).1

end Scheduler

end Aixos

namespace Aixos.Scheduler

open Transition

attribute [local instance] Config.default

/-- Task 1 is the current one of three equal tasks and not their last, when it is rotated; then task 2
gets a lower priority. -/
def rotatedRun : List SchedOp :=
  [.create 1 5, .create 2 5, .create 3 5, .addTask 1, .addTask 2, .addTask 3, .schedule, .rotateCurrent,
    .schedule, .setPriority 2 4, .schedule]

theorem rotatedRun_agrees : ∃ c a q, run (step Backend.simple) (init Backend.simple) rotatedRun = some c ∧
    c.cur = some 3 ∧ c.ready.readyList = [3, 1, 2] ∧
    run (step Backend.bitmap) (init Backend.bitmap) rotatedRun = some a ∧ a.cur = c.cur ∧ a.ready.Holds q ∧
    q 5 = [3, 1] ∧ q 4 = [2] := by
  obtain ⟨c, hp, h⟩ := exists_path (step Backend.simple) WellFormed (init Backend.simple) rotatedRun
    (fun c => decide (c.cur = some 3 ∧ c.ready.readyList = [3, 1, 2] ∧ c.priority 1 = 5 ∧ c.priority 2 = 4 ∧
      c.priority 3 = 5)) (by decide +kernel)
  obtain ⟨hc, hl, h₁, h₂, h₃⟩ := of_decide_eq_true h
  obtain ⟨a, q, hr, hcur, -, -, hh, hq, -⟩ := agree_of_path hp
  refine ⟨c, a, q, hp.run_eq, hc, hl, hr, hcur, hh, ?_, ?_⟩
  · rw [hq, hl]
    simp [h₁, h₂, h₃]
  · rw [hq, hl]
    simp [h₁, h₂, h₃]

end Aixos.Scheduler
