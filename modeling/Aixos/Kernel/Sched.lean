import Aixos.Kernel.Types
import Aixos.Library.IntrusiveList

/-!
# The ready structure

The part of `sched.c` that keeps the ready tasks: one circular intrusive list for
each priority, and a bitmap of the priorities whose list is not empty. Nothing but
discipline keeps a node from being linked twice, so the lists are modelled with
their pointers.

* `Sched` — the pointers and the bitmap; `addTask`, `removeTask`, `requeueTask`,
  `rotate` and `findHighest` as in the source.
* `Sched.Holds s q` — the memory is well formed and holds the queues `q`.

The operations are specified by what they do to `q` and to the nodes that are in no
queue. A client needs nothing else about pointers.
-/

namespace Aixos

open IntrusiveList

/-- A node of the ready structure: the head of a queue, or the `ready_node` of a task. -/
inductive RNode where
  /-- `ready_queues[p]` -/
  | queue (p : ℕ)
  /-- `tcb->ready_node` -/
  | task (t : TaskId)
  deriving DecidableEq, Repr

/-- `ready_queues` and `ready_bitmap`. -/
structure Sched where
  /-- The pointers of the nodes. -/
  links : Links RNode
  /-- The words of `ready_bitmap`. -/
  bitmap : ℕ → BitVec 64

namespace Sched

variable [cfg : Config]

/-- `UINT64_C(1) << (priority % 64)` -/
def bit (p : ℕ) : BitVec 64 := 1#64 <<< (p % 64)

/-- Whether the bit of priority `p` is set. -/
def marked (s : Sched) (p : ℕ) : Bool := (s.bitmap (p / 64)).getLsbD (p % 64)

/-- `ready_bitmap[priority / 64] |= …` -/
def mark (s : Sched) (p : ℕ) : Sched :=
  { s with bitmap := Function.update s.bitmap (p / 64) (s.bitmap (p / 64) ||| bit p) }

/-- `if (aixos_list_is_empty(&ready_queues[priority])) ready_bitmap[priority / 64] &= ~…` -/
def unmarkIfEmpty (s : Sched) (p : ℕ) : Sched :=
  if s.links.isEmpty (.queue p) then
    { s with bitmap := Function.update s.bitmap (p / 64) (s.bitmap (p / 64) &&& ~~~bit p) }
  else s

/-- `aixos_sched_init` -/
def init : Sched where
  links :=
    { next := fun n => match n with
        | .queue p => some (.queue p)
        | .task _ => none
      prev := fun n => match n with
        | .queue p => some (.queue p)
        | .task _ => none }
  bitmap := fun _ => 0

/-- `aixos_list_init(&tcb->ready_node)` -/
def initNode (s : Sched) (t : TaskId) : Sched := { s with links := s.links.init (.task t) }

/-- `aixos_sched_add_task` of a task of priority `p`. -/
def addTask (s : Sched) (t : TaskId) (p : ℕ) : Sched :=
  if cfg.maxPriority ≤ p then s
  else { s with links := s.links.addTail (.task t) (.queue p) }.mark p

/-- `aixos_sched_remove_task` of a task of priority `p`. -/
def removeTask (s : Sched) (t : TaskId) (p : ℕ) : Sched :=
  if s.links.next (.task t) = none then s
  else { s with links := s.links.delete (.task t) }.unmarkIfEmpty p

/-- `aixos_sched_requeue_task` of a task whose priority was `old` and is now `p`. -/
def requeueTask (s : Sched) (t : TaskId) (old p : ℕ) : Sched :=
  if cfg.maxPriority ≤ old then s
  else if s.links.next (.task t) = none then s
  else ({ s with links := s.links.delete (.task t) }.unmarkIfEmpty old).addTask t p

/-- `aixos_sched_rotate_current`, for a current task of priority `p`. -/
def rotate (s : Sched) (t : TaskId) (p : ℕ) : Sched :=
  if s.links.next (.task t) = none then s
  else if s.links.next (.queue p) = s.links.prev (.queue p) then s
  else { s with links := (s.links.delete (.task t)).addTail (.task t) (.queue p) }

/-- The scan of `sched_find_highest` over the words below `w`: the highest priority whose bit
is set. -/
def highestBelow (s : Sched) : ℕ → Option ℕ
  | 0 => none
  | w + 1 =>
    if s.bitmap w = 0 then s.highestBelow w
    else some (min (w * 64 + (s.bitmap w).toNat.log2) (cfg.maxPriority - 1))

/-- `sched_find_highest`. A bit set over an empty queue would make the source read the
list head as a task; the model returns nothing then. -/
def findHighest (s : Sched) : Option TaskId :=
  match s.highestBelow ((cfg.maxPriority + 63) / 64) with
  | none => none
  | some p =>
    match s.links.next (.queue p) with
    | some (.task t) => some t
    | _ => none

/-! ### The bitmap -/

omit cfg in
@[simp] theorem getLsbD_bit {p i : ℕ} (hi : i < 64) : (bit p).getLsbD i = decide (i = p % 64) := by
  have hp : p % 64 < 64 := Nat.mod_lt _ (by decide)
  simp only [bit, BitVec.getLsbD_shiftLeft, BitVec.getLsbD_one, decide_eq_true hi, Bool.true_and]
  by_cases h : i < p % 64
  · simp [h]; omega
  · simp only [h]
    rw [Bool.eq_iff_iff]
    simp
    omega

omit cfg in
@[simp] theorem getElem_bit {p i : ℕ} (hi : i < 64) : (bit p)[i] = decide (i = p % 64) := by
  rw [← getLsbD_bit hi, BitVec.getLsbD_eq_getElem hi]

omit cfg in
@[simp] theorem marked_mark (s : Sched) (p p' : ℕ) :
    (s.mark p).marked p' = (decide (p' = p) || s.marked p') := by
  have hp : p' % 64 < 64 := Nat.mod_lt _ (by decide)
  unfold marked mark
  by_cases h : p' / 64 = p / 64
  · have : p' % 64 = p % 64 ↔ p' = p := by omega
    simp [h, Function.update_self, getLsbD_bit hp, this, Bool.or_comm]
  · have : p' ≠ p := by rintro rfl; exact h rfl
    simp [Function.update_of_ne h, this]

omit cfg in
@[simp] theorem links_mark (s : Sched) (p : ℕ) : (s.mark p).links = s.links := rfl

omit cfg in
@[simp] theorem links_unmarkIfEmpty (s : Sched) (p : ℕ) : (s.unmarkIfEmpty p).links = s.links := by
  unfold unmarkIfEmpty
  split <;> rfl

omit cfg in
theorem marked_unmarkIfEmpty (s : Sched) (p p' : ℕ) :
    (s.unmarkIfEmpty p).marked p' =
      (s.marked p' && !(decide (p' = p) && s.links.isEmpty (.queue p))) := by
  have hp : p' % 64 < 64 := Nat.mod_lt _ (by decide)
  unfold marked unmarkIfEmpty
  split
  · rename_i he
    by_cases h : p' / 64 = p / 64
    · have : p' % 64 = p % 64 ↔ p' = p := by omega
      simp [h, he, Function.update_self, hp, this]
    · have : p' ≠ p := by rintro rfl; exact h rfl
      simp [Function.update_of_ne h, this]
  · rename_i he
    simp [he]

/-! ### Well-formed ready structures -/

/-- The ready structure is well formed and holds the queues `q`. -/
structure Holds (s : Sched) (q : ℕ → List TaskId) : Prop where
  /-- The queue of every priority is a ring of exactly the tasks it should hold. -/
  circle : ∀ p, Circle s.links (.queue p) ((q p).map .task)
  /-- No task is in the queues of two priorities. -/
  disjoint : ∀ p p' t, t ∈ q p → t ∈ q p' → p = p'
  /-- The bit of a priority is set exactly when its queue is not empty. -/
  marked_iff : ∀ p, s.marked p = true ↔ q p ≠ []
  /-- There are queues for the configured priorities only. -/
  bound : ∀ p, cfg.maxPriority ≤ p → q p = []

/-- The `ready_node` of a task is linked to itself, as `aixos_list_init` leaves it. -/
def SelfLinked (s : Sched) (t : TaskId) : Prop :=
  s.links.next (.task t) = some (.task t) ∧ s.links.prev (.task t) = some (.task t)

/-- The `ready_node` of a task is null, as `aixos_list_del` leaves it. -/
def Unlinked (s : Sched) (t : TaskId) : Prop := s.links.next (.task t) = none

/-- The `ready_node` of a task is the same in both memories. -/
def SameNode (s s' : Sched) (t : TaskId) : Prop :=
  s'.links.next (.task t) = s.links.next (.task t) ∧ s'.links.prev (.task t) = s.links.prev (.task t)

omit cfg in
theorem SelfLinked.congr {s s' : Sched} {t : TaskId} (h : SelfLinked s t) (hs : SameNode s s' t) :
    SelfLinked s' t := ⟨hs.1.trans h.1, hs.2.trans h.2⟩

omit cfg in
theorem Unlinked.congr {s s' : Sched} {t : TaskId} (h : Unlinked s t) (hs : SameNode s s' t) :
    Unlinked s' t := hs.1.trans h

theorem holds_init : Holds init fun _ => [] where
  circle p := ⟨⟨rfl, rfl⟩, by simp⟩
  disjoint := by simp
  marked_iff p := by simp [marked, init]
  bound := by simp

namespace Holds

variable {s : Sched} {q : ℕ → List TaskId} {t t' : TaskId} {p p' : ℕ}

theorem nodup (h : Holds s q) (p : ℕ) : (q p).Nodup := by
  have := (List.nodup_cons.mp (h.circle p).nodup).2
  exact List.Nodup.of_map _ this

theorem lt (h : Holds s q) (ht : t ∈ q p) : p < cfg.maxPriority := by
  by_contra hp
  rw [h.bound p (Nat.not_lt.mp hp)] at ht
  simp at ht

omit cfg in
theorem not_mem_ring (ht : t ∉ q p) : RNode.task t ∉ RNode.queue p :: (q p).map .task := by
  simpa using ht

theorem ring_disjoint (h : Holds s q) (hp : p ≠ p') :
    ∀ x ∈ RNode.queue p' :: (q p').map RNode.task, x ∉ RNode.queue p :: (q p).map .task := by
  intro x hx hx'
  rcases List.mem_cons.mp hx with rfl | hx
  · simp [hp.symm] at hx'
  · obtain ⟨t, ht, rfl⟩ := List.mem_map.mp hx
    have : t ∈ q p := by simpa using hx'
    exact hp (h.disjoint _ _ _ this ht)

/-- A task in a queue is linked. -/
theorem linked (h : Holds s q) (ht : t ∈ q p) : s.links.next (.task t) ≠ none := by
  obtain ⟨ys, zs, e⟩ := List.append_of_mem ht
  have c := h.circle p
  rw [e, List.map_append, List.map_cons] at c
  rw [c.neighbours.2]
  simp

/-- A task linked to itself is in no queue. -/
theorem not_mem_of_selfLinked (h : Holds s q) (ht : SelfLinked s t) : t ∉ q p := by
  intro hm
  obtain ⟨ys, zs, e⟩ := List.append_of_mem hm
  have c := h.circle p
  rw [e, List.map_append, List.map_cons] at c
  have hn := c.neighbours.2.symm.trans ht.1
  have hnd := h.nodup p
  cases zs with
  | nil => simp at hn
  | cons z zs =>
    obtain rfl : z = t := by simpa using hn
    rw [e, List.nodup_append] at hnd
    simp at hnd

omit cfg in
/-- The members of the queues with a task added to one. -/
theorem mem_append {u : TaskId} {a : ℕ} :
    u ∈ Function.update q p (q p ++ [t]) a ↔ u ∈ q a ∨ u = t ∧ a = p := by
  rw [Function.update_apply]
  split
  · rename_i e
    simp [e]
  · rename_i e
    simp [e]

/-- The members of the queues with a task taken out. -/
theorem mem_erase (h : Holds s q) (ht : t ∈ q p) {u : TaskId} {a : ℕ} :
    u ∈ Function.update q p ((q p).erase t) a ↔ u ∈ q a ∧ u ≠ t := by
  rw [Function.update_apply]
  split
  · rename_i e
    rw [(h.nodup p).mem_erase_iff, e]
    exact and_comm
  · rename_i e
    refine ⟨fun hu => ⟨hu, ?_⟩, And.left⟩
    rintro rfl
    exact e (h.disjoint _ _ _ hu ht)

/-- `aixos_list_init` of a node that is in no queue. -/
theorem initNode (h : Holds s q) (ht : ∀ p, t ∉ q p) : Holds (s.initNode t) q where
  circle p := (h.circle p).init_frame (not_mem_ring (ht p))
  disjoint := h.disjoint
  marked_iff := h.marked_iff
  bound := h.bound

omit cfg in
theorem initNode_selfLinked (s : Sched) (t : TaskId) : SelfLinked (s.initNode t) t := by
  simp [SelfLinked, Sched.initNode, Links.init]

omit cfg in
theorem initNode_sameNode (s : Sched) (ht : t' ≠ t) : SameNode s (s.initNode t) t' := by
  simp [SameNode, Sched.initNode, Links.init, ht]

/-- Adding a task that is in no queue puts it at the tail of the queue of its priority. -/
theorem addTask (h : Holds s q) (ht : ∀ p, t ∉ q p) (hp : p < cfg.maxPriority) :
    Holds (s.addTask t p) (Function.update q p (q p ++ [t])) := by
  have e : s.addTask t p = { s with links := s.links.addTail (.task t) (.queue p) }.mark p := by
    rw [Sched.addTask, if_neg (Nat.not_le.mpr hp)]
  rw [e]
  constructor
  · intro p'
    by_cases hpp : p' = p
    · subst hpp
      rw [Function.update_self, List.map_append]
      exact (h.circle p').addTail (not_mem_ring (ht p'))
    · rw [Function.update_of_ne hpp]
      exact (h.circle p').addTail_frame (h.circle p) (not_mem_ring (ht p')) (h.ring_disjoint hpp)
  · intro a b u
    rw [mem_append, mem_append]
    rintro (h₁ | ⟨rfl, rfl⟩) (h₂ | ⟨h₂, rfl⟩)
    · exact h.disjoint a b u h₁ h₂
    · exact absurd (h₂ ▸ h₁) (ht a)
    · exact absurd h₂ (ht b)
    · rfl
  · intro p'
    rw [marked_mark, Function.update_apply]
    have hm : Sched.marked { s with links := s.links.addTail (.task t) (.queue p) } p' =
      s.marked p' := rfl
    by_cases hpp : p' = p
    · simp [hpp]
    · simpa [hpp, hm] using h.marked_iff p'
  · intro p' hp'
    rw [Function.update_of_ne (by omega)]
    exact h.bound p' hp'

/-- Adding a task leaves the nodes of the tasks in no queue alone. -/
theorem addTask_sameNode (h : Holds s q) (ht : t' ≠ t) (hq : ∀ p, t' ∉ q p) :
    SameNode s (s.addTask t p) t' := by
  unfold Sched.addTask
  split
  · exact ⟨rfl, rfl⟩
  · have hl := (h.circle p).prev_head
    have hm := lastNode_mem (RNode.queue p) ((q p).map .task)
    have hne : RNode.task t' ≠ lastNode (.queue p) ((q p).map .task) := by
      intro e
      rw [← e] at hm
      exact not_mem_ring (hq p) hm
    simp only [SameNode, links_mark, Links.addTail, hl, Links.insert_next, Links.insert_prev]
    simp [hne, ht]

section Delete

/-- The effect of taking a task out of its queue. -/
theorem deleteTask (h : Holds s q) (ht : t ∈ q p) :
    Holds ({ s with links := s.links.delete (.task t) }.unmarkIfEmpty p)
      (Function.update q p ((q p).erase t)) := by
  obtain ⟨ys, zs, e⟩ := List.append_of_mem ht
  have hnd := h.nodup p
  have hy : t ∉ ys := by
    rw [e] at hnd
    intro hm
    exact (List.nodup_append.mp hnd).2.2 t hm t (by simp) rfl
  have he : (q p).erase t = ys ++ zs := by
    rw [e, List.erase_append_right _ hy, List.erase_cons_head]
  have hc := h.circle p
  rw [e, List.map_append, List.map_cons] at hc
  have hnew : Circle (s.links.delete (.task t)) (.queue p) ((ys ++ zs).map .task) := by
    rw [List.map_append]
    exact hc.delete
  rw [he]
  constructor
  · intro p'
    rw [links_unmarkIfEmpty]
    by_cases hpp : p' = p
    · subst hpp
      rw [Function.update_self]
      exact hnew
    · rw [Function.update_of_ne hpp]
      have := h.ring_disjoint hpp
      rw [e, List.map_append, List.map_cons] at this
      exact (h.circle p').delete_frame hc this
  · intro a b u h₁ h₂
    rw [← he] at h₁ h₂
    exact h.disjoint a b u ((h.mem_erase ht).mp h₁).1 ((h.mem_erase ht).mp h₂).1
  · intro p'
    rw [marked_unmarkIfEmpty, Function.update_apply]
    have hm := h.marked_iff p'
    by_cases hpp : p' = p
    · subst hpp
      have hne : q p' ≠ [] := by rw [e]; simp
      have hmk : Sched.marked { s with links := s.links.delete (.task t) } p' = true := hm.mpr hne
      have hie := hnew.isEmpty_iff
      rw [List.map_eq_nil_iff] at hie
      simp only [hmk, Bool.true_and, decide_true, Bool.not_eq_true', if_true, ne_eq, ← hie,
        Bool.not_eq_true]
    · have hmk : Sched.marked { s with links := s.links.delete (.task t) } p' = s.marked p' := rfl
      simpa [hpp, hmk] using hm
  · intro p' hp'
    rw [Function.update_of_ne (by rintro rfl; exact absurd (h.lt ht) (by omega))]
    exact h.bound p' hp'

/-- The node of the task taken out is null, and those in no queue are left alone. -/
theorem deleteTask_sameNode (h : Holds s q) (ht : t ∈ q p) (hq : ∀ p, t' ∉ q p) :
    SameNode s ({ s with links := s.links.delete (.task t) }.unmarkIfEmpty p) t' := by
  obtain ⟨ys, zs, e⟩ := List.append_of_mem ht
  have hc := h.circle p
  rw [e, List.map_append, List.map_cons] at hc
  obtain ⟨h₁, h₂⟩ := hc.neighbours
  have ht' : t' ∉ ys ++ t :: zs := e ▸ hq p
  have htt : t' ≠ t := by rintro rfl; exact ht' (by simp)
  have hl : RNode.task t' ≠ lastNode (.queue p) (ys.map .task) := by
    intro e'
    have := lastNode_mem (RNode.queue p) (ys.map .task)
    rw [← e'] at this
    simp at this
    exact ht' (by simp [this])
  have hf : RNode.task t' ≠ (zs.map RNode.task).headD (.queue p) := by
    cases zs with
    | nil => simp
    | cons z zs => simpa using fun e' => ht' (by simp [e'])
  simp only [SameNode, links_unmarkIfEmpty]
  rw [Links.delete_next _ h₁ h₂, Links.delete_prev _ h₁ h₂]
  simp only [RNode.task.injEq, htt, hl, hf, if_false, and_self]

/-- Deleting a node that is linked to itself changes no queue. -/
theorem deleteSelf (h : Holds s q) (ht : SelfLinked s t) (p : ℕ) :
    Holds ({ s with links := s.links.delete (.task t) }.unmarkIfEmpty p) q := by
  have hc : ∀ p', Circle (s.links.delete (.task t)) (.queue p') ((q p').map .task) := fun p' =>
    (h.circle p').delete_self ht.1 ht.2 (not_mem_ring (h.not_mem_of_selfLinked ht))
  refine ⟨fun p' => ?_, h.disjoint, fun p' => ?_, h.bound⟩
  · rw [links_unmarkIfEmpty]
    exact hc p'
  · rw [marked_unmarkIfEmpty, ← h.marked_iff p']
    have hm : Sched.marked { s with links := s.links.delete (.task t) } p' = s.marked p' := rfl
    have hie := (hc p).isEmpty_iff
    rw [List.map_eq_nil_iff] at hie
    by_cases hpp : p' = p
    · subst hpp
      rw [hm]
      simp only [Bool.and_eq_true, decide_true, Bool.true_and, Bool.not_eq_true', and_iff_left_iff_imp]
      intro hmk
      have := (h.marked_iff p').mp hmk
      rwa [ne_eq, ← hie, Bool.not_eq_true] at this
    · simp [hpp, hm]

omit cfg in
theorem deleteSelf_sameNode (ht : SelfLinked s t) (hne : t' ≠ t) (p : ℕ) :
    SameNode s ({ s with links := s.links.delete (.task t) }.unmarkIfEmpty p) t' := by
  simp only [SameNode, links_unmarkIfEmpty]
  rw [Links.delete_next _ ht.2 ht.1, Links.delete_prev _ ht.2 ht.1]
  simp [hne]

end Delete

/-- The relation depends on the pointers and on the marks only. -/
theorem congr {s' : Sched} (h : Holds s q) (hl : s'.links = s.links)
    (hm : ∀ p, s'.marked p = s.marked p) : Holds s' q :=
  ⟨fun p => hl ▸ h.circle p, h.disjoint, fun p => hm p ▸ h.marked_iff p, h.bound⟩

/-! ### Removing, requeueing and rotating -/

/-- A task that is in a queue leaves it. -/
theorem removeTask (h : Holds s q) (ht : t ∈ q p) :
    Holds (s.removeTask t p) (Function.update q p ((q p).erase t)) := by
  rw [Sched.removeTask, if_neg (h.linked ht)]
  exact h.deleteTask ht

omit cfg in
theorem removeTask_of_unlinked (ht : Unlinked s t) : s.removeTask t p = s := by
  rw [Sched.removeTask, if_pos (show s.links.next (.task t) = none from ht)]

theorem removeTask_of_selfLinked (h : Holds s q) (ht : SelfLinked s t) :
    Holds (s.removeTask t p) q := by
  rw [Sched.removeTask, if_neg (by rw [ht.1]; simp)]
  exact h.deleteSelf ht p

omit cfg in
/-- A removed task is unlinked, wherever it was. -/
theorem removeTask_unlinked (s : Sched) (t : TaskId) (p : ℕ) : Unlinked (s.removeTask t p) t := by
  unfold Sched.removeTask
  split
  · assumption
  · simp [Unlinked]

theorem removeTask_sameNode (h : Holds s q) (ht : t ∈ q p) (hq : ∀ p, t' ∉ q p) :
    SameNode s (s.removeTask t p) t' := by
  rw [Sched.removeTask, if_neg (h.linked ht)]
  exact h.deleteTask_sameNode ht hq

omit cfg in
theorem removeTask_sameNode_of_selfLinked (ht : SelfLinked s t) (hne : t' ≠ t) :
    SameNode s (s.removeTask t p) t' := by
  rw [Sched.removeTask, if_neg (by rw [ht.1]; simp)]
  exact deleteSelf_sameNode ht hne p

/-- A requeued task moves to the tail of the queue of its new priority. -/
theorem requeueTask (h : Holds s q) (ht : t ∈ q p) (hp' : p' < cfg.maxPriority) :
    Holds (s.requeueTask t p p')
      (Function.update (Function.update q p ((q p).erase t)) p'
        (Function.update q p ((q p).erase t) p' ++ [t])) := by
  rw [Sched.requeueTask, if_neg (Nat.not_le.mpr (h.lt ht)), if_neg (h.linked ht)]
  exact (h.deleteTask ht).addTask (fun a ha => ((h.mem_erase ht).mp ha).2 rfl) hp'

theorem requeueTask_of_unlinked (ht : Unlinked s t) : s.requeueTask t p p' = s := by
  unfold Sched.requeueTask
  split
  · rfl
  · rw [if_pos (show s.links.next (.task t) = none from ht)]

/-- Requeueing a task that was never queued queues it. -/
theorem requeueTask_of_selfLinked (h : Holds s q) (ht : SelfLinked s t) (hp : p < cfg.maxPriority)
    (hp' : p' < cfg.maxPriority) :
    Holds (s.requeueTask t p p') (Function.update q p' (q p' ++ [t])) := by
  rw [Sched.requeueTask, if_neg (Nat.not_le.mpr hp), if_neg (by rw [ht.1]; simp)]
  exact (h.deleteSelf ht p).addTask (fun _ => h.not_mem_of_selfLinked ht) hp'

theorem requeueTask_sameNode (h : Holds s q) (ht : t ∈ q p) (hq : ∀ p, t' ∉ q p) :
    SameNode s (s.requeueTask t p p') t' := by
  have htt : t' ≠ t := by rintro rfl; exact hq p ht
  rw [Sched.requeueTask, if_neg (Nat.not_le.mpr (h.lt ht)), if_neg (h.linked ht)]
  have h₁ := h.deleteTask_sameNode ht hq
  have h₂ := (h.deleteTask ht).addTask_sameNode (p := p') htt fun a ha =>
    hq a ((h.mem_erase ht).mp ha).1
  exact ⟨h₂.1.trans h₁.1, h₂.2.trans h₁.2⟩

theorem requeueTask_sameNode_of_selfLinked (h : Holds s q) (ht : SelfLinked s t) (hne : t' ≠ t)
    (hq : ∀ p, t' ∉ q p) : SameNode s (s.requeueTask t p p') t' := by
  unfold Sched.requeueTask
  split
  · exact ⟨rfl, rfl⟩
  · rw [if_neg (by rw [ht.1]; simp)]
    have h₁ := deleteSelf_sameNode ht hne p
    have h₂ := (h.deleteSelf ht p).addTask_sameNode (p := p') hne hq
    exact ⟨h₂.1.trans h₁.1, h₂.2.trans h₁.2⟩

/-- The queues after a rotation: a task that is not alone in its queue goes to the tail. -/
def rotated (q : ℕ → List TaskId) (t : TaskId) (p : ℕ) : ℕ → List TaskId :=
  if (q p).length ≤ 1 then q else Function.update q p ((q p).erase t ++ [t])

/-- A queue with one element is the one whose two ends meet. -/
theorem ends_eq_iff (h : Holds s q) (p : ℕ) :
    s.links.next (.queue p) = s.links.prev (.queue p) ↔ (q p).length ≤ 1 := by
  rw [(h.circle p).next_head, (h.circle p).prev_head]
  have hnd := h.nodup p
  cases hq : q p with
  | nil => simp
  | cons a l =>
    cases l with
    | nil => simp
    | cons b l =>
      rw [hq] at hnd
      have hm := lastNode_mem (RNode.task b) (l.map .task)
      simp only [List.map_cons, List.headD_cons, lastNode_cons, Option.some.injEq, List.length_cons,
        Nat.reduceLeDiff, iff_false]
      intro e
      rw [← e] at hm
      simp only [List.mem_cons, RNode.task.injEq, List.mem_map, exists_eq_right] at hm
      have := (List.nodup_cons.mp hnd).1
      simp_all

theorem rotate (h : Holds s q) (ht : t ∈ q p) : Holds (s.rotate t p) (rotated q t p) := by
  rw [Sched.rotate, if_neg (h.linked ht), rotated]
  by_cases hlen : (q p).length ≤ 1
  · rw [if_pos ((h.ends_eq_iff p).mpr hlen), if_pos hlen]
    exact h
  · rw [if_neg (mt (h.ends_eq_iff p).mp hlen), if_neg hlen]
    have h₁ := h.deleteTask ht
    have hne : ∀ a, t ∉ Function.update q p ((q p).erase t) a := fun a ha =>
      ((h.mem_erase ht).mp ha).2 rfl
    have h₂ := h₁.addTask hne (h.lt ht)
    rw [Function.update_idem, Function.update_self] at h₂
    refine h₂.congr ?_ fun a => ?_
    · rw [Sched.addTask, if_neg (Nat.not_le.mpr (h.lt ht)), links_mark, links_unmarkIfEmpty]
    · -- the queue is not empty in between, so its bit stays
      rw [Sched.addTask, if_neg (Nat.not_le.mpr (h.lt ht)), marked_mark]
      have e₁ : Sched.marked { s with links := (s.links.delete (.task t)).addTail (.task t) (.queue p) } a
        = s.marked a := rfl
      have e₂ : Sched.marked { ({ s with links := s.links.delete (.task t) }.unmarkIfEmpty p) with
          links := ({ s with links := s.links.delete (.task t) }.unmarkIfEmpty p).links.addTail
            (.task t) (.queue p) } a
        = ({ s with links := s.links.delete (.task t) }.unmarkIfEmpty p).marked a := rfl
      have hm : s.marked p = true := (h.marked_iff p).mpr (List.ne_nil_of_mem ht)
      rw [e₁, e₂, marked_unmarkIfEmpty]
      by_cases hap : a = p
      · simp [hap, hm]
      · simp only [hap, decide_false, Bool.false_or, Bool.false_and, Bool.not_false, Bool.and_true]
        rfl

omit cfg in
theorem rotate_of_unlinked (ht : Unlinked s t) : s.rotate t p = s := by
  rw [Sched.rotate, if_pos (show s.links.next (.task t) = none from ht)]

theorem rotate_sameNode (h : Holds s q) (ht : t ∈ q p) (hq : ∀ p, t' ∉ q p) :
    SameNode s (s.rotate t p) t' := by
  have htt : t' ≠ t := by rintro rfl; exact hq p ht
  rw [Sched.rotate, if_neg (h.linked ht)]
  split
  · exact ⟨rfl, rfl⟩
  · have h₁ := h.deleteTask_sameNode ht hq
    have h₂ := (h.deleteTask ht).addTask_sameNode (p := p) htt fun a ha =>
      hq a ((h.mem_erase ht).mp ha).1
    rw [Sched.addTask, if_neg (Nat.not_le.mpr (h.lt ht))] at h₂
    simp only [SameNode, links_mark, links_unmarkIfEmpty] at h₁ h₂ ⊢
    exact ⟨h₂.1.trans h₁.1, h₂.2.trans h₁.2⟩

/-! ### The highest priority -/

omit cfg in
theorem testBit_log2 {w : BitVec 64} (hw : w ≠ 0) :
    w.toNat.log2 < 64 ∧ w.getLsbD w.toNat.log2 = true ∧
      ∀ i, w.getLsbD i = true → i ≤ w.toNat.log2 := by
  have hne : w.toNat ≠ 0 := fun e => hw (BitVec.eq_of_toNat_eq (by simpa using e))
  refine ⟨(Nat.log2_lt hne).mpr w.isLt, ?_, fun i hi => ?_⟩
  · exact Nat.testBit_log2 hne
  · exact (Nat.le_log2 hne).mpr (Nat.ge_two_pow_of_testBit hi)

theorem highestBelow_eq_none (h : Holds s q) {w : ℕ} (hw : s.highestBelow w = none) :
    ∀ p, p < w * 64 → q p = [] := by
  induction w with
  | zero => intro p hp; omega
  | succ w ih =>
    intro p hp
    rw [highestBelow] at hw
    split at hw
    · rename_i h0
      by_cases hpw : p < w * 64
      · exact ih hw p hpw
      · by_contra hne
        have := (h.marked_iff p).mpr hne
        rw [marked, show p / 64 = w by omega, h0] at this
        simp at this
    · simp at hw

theorem highestBelow_eq_some (h : Holds s q) {w : ℕ} (hw : s.highestBelow w = some p) :
    q p ≠ [] ∧ ∀ a, a < w * 64 → q a ≠ [] → a ≤ p := by
  induction w with
  | zero => simp [highestBelow] at hw
  | succ w ih =>
    rw [highestBelow] at hw
    split at hw
    · rename_i h0
      obtain ⟨h₁, h₂⟩ := ih hw
      refine ⟨h₁, fun a ha hne => ?_⟩
      by_cases haw : a < w * 64
      · exact h₂ a haw hne
      · have := (h.marked_iff a).mpr hne
        rw [marked, show a / 64 = w by omega, h0] at this
        simp at this
    · rename_i h0
      obtain ⟨h₁, h₂, h₃⟩ := testBit_log2 h0
      -- the highest bit set belongs to a queue, so the clamp to the configured range is idle
      have hne : q (w * 64 + (s.bitmap w).toNat.log2) ≠ [] := by
        rw [← h.marked_iff, marked, show (w * 64 + (s.bitmap w).toNat.log2) / 64 = w by omega,
          show (w * 64 + (s.bitmap w).toNat.log2) % 64 = (s.bitmap w).toNat.log2 by omega]
        exact h₂
      have hlt : w * 64 + (s.bitmap w).toNat.log2 < cfg.maxPriority := by
        by_contra hge
        exact hne (h.bound _ (Nat.not_lt.mp hge))
      obtain rfl : w * 64 + (s.bitmap w).toNat.log2 = p := by
        have := Option.some.inj hw
        omega
      refine ⟨hne, fun a ha hna => ?_⟩
      by_cases haw : a < w * 64
      · omega
      · have := (h.marked_iff a).mpr hna
        rw [marked, show a / 64 = w by omega] at this
        have := h₃ _ this
        omega

/-- **The scan finds the first task of the highest queue** that is not empty. -/
theorem findHighest_eq_some (h : Holds s q) (ht : s.findHighest = some t) :
    ∃ p, (q p).head? = some t ∧ ∀ a, q a ≠ [] → a ≤ p := by
  unfold findHighest at ht
  split at ht
  · simp at ht
  · rename_i p hp
    obtain ⟨h₁, h₂⟩ := h.highestBelow_eq_some hp
    refine ⟨p, ?_, fun a ha => h₂ a ?_ ha⟩
    · rw [(h.circle p).next_head] at ht
      cases hq : q p with
      | nil => exact absurd hq h₁
      | cons u l =>
        rw [hq] at ht
        simpa using ht
    · by_contra hlt
      exact ha (h.bound a (by omega))

theorem findHighest_eq_none (h : Holds s q) (hn : s.findHighest = none) (p : ℕ) : q p = [] := by
  unfold findHighest at hn
  split at hn
  · rename_i hp
    by_cases hlt : p < (cfg.maxPriority + 63) / 64 * 64
    · exact h.highestBelow_eq_none hp p hlt
    · exact h.bound p (by omega)
  · rename_i p' hp'
    have h₁ := (h.highestBelow_eq_some hp').1
    rw [(h.circle p').next_head] at hn
    cases hq : q p' with
    | nil => exact absurd hq h₁
    | cons u l => rw [hq] at hn; simp at hn

end Holds

end Sched

end Aixos
