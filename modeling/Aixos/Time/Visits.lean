import Aixos.Time.Wheel
import Aixos.Library.Requeue

/-!
# Which ticks of the timing wheel come to an end

When the first level turns, the tasks of a slot of the second level are taken out one by one. A task that is still more
than one turn away may be linked in that very slot again, at its end (`Stays`): then the loop goes on as in
`Library.Requeue`.

* `Timed.Placed` — every task is linked once at most.
* `Timed.cascadeVisits_eq` — the tasks that are visited are those of `Requeue.visits`.
* `Timed.finishes_iff` — a tick comes to an end, and visits no task twice, exactly if no task but the last one of the
  slot that is emptied stays there.
-/

namespace Aixos

open Transition

variable [cfg : Config]

namespace Timed

variable {s s' : Timed} {t u : TaskId} {ts us : List TaskId} {now slot high : Word} {c : Core} {n : ℕ}
  {w w' : TimeWheel} {W : TaskId → Bool × Word}

/-- The cascade links a task in the slot again from which it takes it. -/
def Stays (c : Core) (now : Word) (t : TaskId) : Bool :=
  let remaining := (c.tasks t).wakeTick - now
  !tickReached now (c.tasks t).wakeTick && decide (twSize1 ≤ remaining) &&
    decide (((remaining - twSize1) >>> twBits1) % twSize2 = 0)

/-- Waking a task does not change for when the tasks wait. -/
theorem wakeTick_taskWake (c : Core) (t u : TaskId) (r : Code) :
    ((c.taskWake t r).tasks u).wakeTick = (c.tasks u).wakeTick := by
  by_cases hw : (c.tasks t).state = .blocked ∨ (c.tasks t).state = .delayed
  · exact (Core.taskWake_wokenUp hw r).wakeTick u
  · rw [Core.taskWake, if_neg hw]

omit cfg in
theorem stays_congr {c' : Core} (h : ∀ u, (c'.tasks u).wakeTick = (c.tasks u).wakeTick) (now : Word) :
    Stays c' now = Stays c now := by
  funext t
  rw [Stays, Stays, h]

omit cfg in
theorem stays_iff : Stays c now t = true ↔ tickReached now (c.tasks t).wakeTick ≠ true ∧
    ¬ (c.tasks t).wakeTick - now < twSize1 ∧
      (((c.tasks t).wakeTick - now - twSize1) >>> twBits1) % twSize2 = 0 := by
  unfold Stays
  rw [Bool.and_eq_true, Bool.and_eq_true, decide_eq_true_iff, decide_eq_true_iff, Bool.not_eq_true', and_assoc,
    BitVec.not_lt, ne_eq, Bool.not_eq_true]

omit cfg in
theorem add_mod_eq_iff (h : high.toNat < 64) : (high + slot % twSize2) % twSize2 = high ↔ slot % twSize2 = 0 := by
  rw [← BitVec.toNat_inj, ← BitVec.toNat_inj, BitVec.toNat_umod, BitVec.toNat_add, BitVec.toNat_umod]
  rw [show twSize2.toNat = 64 from rfl, show (0 : Word).toNat = 0 from rfl]
  omega

/-- What the body of the second loop does to the slot that is being emptied. -/
theorem level2_cascadeTask (now : Word) (hh : s.wheel.currentTickHigh = high) (hlt : high.toNat < 64)
    (hl : s.wheel.level2 high = t :: ts) : (cascadeTask now high s t).wheel.level2 high =
      if Stays s.core now t then ts ++ [t] else ts := by
  have hdel : (s.wheel.del2 high t).level2 high = ts := by simp [TimeWheel.del2, hl]
  unfold cascadeTask
  dsimp only
  by_cases hd : tickReached now (s.core.tasks t).wakeTick = true
  · rw [if_pos hd, if_neg fun h => (stays_iff.mp h).1 hd]
    exact hdel
  · rw [if_neg hd]
    by_cases hr : (s.core.tasks t).wakeTick - now < twSize1
    · rw [if_pos hr, if_neg fun h => (stays_iff.mp h).2.1 hr]
      exact hdel
    · rw [if_neg hr]
      show Function.update _ _ _ high = _
      have hcur : (s.wheel.del2 high t).currentTickHigh = high := hh
      rw [Function.update_apply, hcur, hdel]
      by_cases hs : (((s.core.tasks t).wakeTick - now - twSize1) >>> twBits1) % twSize2 = 0
      · have e := (add_mod_eq_iff hlt).mpr hs
        rw [if_pos e.symm, e, hdel, if_pos (stays_iff.mpr ⟨hd, hr, hs⟩)]
      · rw [if_neg fun e => hs ((add_mod_eq_iff hlt).mp e.symm), if_neg fun h => hs (stays_iff.mp h).2.2]

theorem cursors_cascadeTask (now high : Word) (s : Timed) (t : TaskId) :
    (cascadeTask now high s t).wheel.currentTickLow = s.wheel.currentTickLow ∧
    (cascadeTask now high s t).wheel.currentTickHigh = s.wheel.currentTickHigh := by
  unfold cascadeTask
  dsimp only
  split
  · exact ⟨rfl, rfl⟩
  · split <;> exact ⟨rfl, rfl⟩

theorem wakeTick_cascadeTask (u : TaskId) :
    ((cascadeTask now high s t).core.tasks u).wakeTick = (s.core.tasks u).wakeTick := by
  unfold cascadeTask
  dsimp only
  split
  · exact wakeTick_taskWake ..
  · split <;> rfl

/-- **The tasks that are visited** are those that a loop visits that puts nodes back. -/
theorem cascadeVisits_eq (now : Word) (hh : s.wheel.currentTickHigh = high) (hlt : high.toNat < 64) (hl : s.wheel.level2 high = ts)
    (n : ℕ) : cascadeVisits now high n s ts.head? = Requeue.visits (Stays s.core now) n ts ∧
      (cascadeLoop now high n s ts.head?).isSome = (Requeue.visits (Stays s.core now) n ts).isSome := by
  induction n generalizing s ts with
  | zero => cases ts <;> exact ⟨rfl, rfl⟩
  | succ n ih =>
    cases ts with
    | nil => exact ⟨rfl, rfl⟩
    | cons t ts =>
      rw [List.head?_cons, cascadeVisits, cascadeLoop, hl, nodeAfter_head]
      by_cases hts : ts = []
      · subst hts
        rw [Requeue.visits_single]
        cases n <;> exact ⟨rfl, rfl⟩
      · have hlevel := level2_cascadeTask now hh hlt hl
        obtain ⟨h₁, h₂⟩ := ih ((cursors_cascadeTask ..).2.trans hh) hlevel
        have hhead : (if Stays s.core now t = true then ts ++ [t] else ts).head? = ts.head? := by
          split
          · rw [List.head?_append_of_ne_nil _ hts]
          · rfl
        rw [hhead, stays_congr wakeTick_cascadeTask] at h₁ h₂
        rw [Requeue.visits_cons hts, h₁, h₂, Option.isSome_map]
        exact ⟨rfl, rfl⟩

/-! ### Every task is linked once -/

omit cfg in
theorem addTail1_level1 (w : TimeWheel) (slot : Word) (t : TaskId) (i : Word) :
    (w.addTail1 slot t).level1 i = if i = slot then w.level1 slot ++ [t] else w.level1 i := Function.update_apply ..

omit cfg in
theorem addTail2_level2 (w : TimeWheel) (slot : Word) (t : TaskId) (i : Word) :
    (w.addTail2 slot t).level2 i = if i = slot then w.level2 slot ++ [t] else w.level2 i := Function.update_apply ..

/-- A task is linked in one slot at most, the one that `W` gives. -/
structure Placed (w : TimeWheel) (W : TaskId → Bool × Word) : Prop where
  nodup1 : ∀ i, (w.level1 i).Nodup
  nodup2 : ∀ i, (w.level2 i).Nodup
  mem1 : ∀ i, ∀ t ∈ w.level1 i, W t = (false, i) ∧ i.toNat < 64
  mem2 : ∀ i, ∀ t ∈ w.level2 i, W t = (true, i) ∧ i.toNat < 64

namespace Placed

omit cfg

/-- Unlinking tasks. -/
theorem mono (h : Placed w W) (h₁ : ∀ i, (w'.level1 i).Sublist (w.level1 i))
    (h₂ : ∀ i, (w'.level2 i).Sublist (w.level2 i)) : Placed w' W where
  nodup1 i := (h.nodup1 i).sublist (h₁ i)
  nodup2 i := (h.nodup2 i).sublist (h₂ i)
  mem1 i t ht := h.mem1 i t ((h₁ i).subset ht)
  mem2 i t ht := h.mem2 i t ((h₂ i).subset ht)

/-- Linking a task that is not linked, in the first level. -/
theorem addTail1 (h : Placed w W) (hn : ∀ i, t ∉ w.level1 i ∧ t ∉ w.level2 i) (hs : slot.toNat < 64) :
    Placed (w.addTail1 slot t) (Function.update W t (false, slot)) where
  nodup1 i := by
    rw [addTail1_level1]
    split
    · exact List.nodup_append.mpr ⟨h.nodup1 slot, List.nodup_singleton t, fun u hu v hv e =>
        (hn slot).1 (List.mem_singleton.mp hv ▸ e ▸ hu)⟩
    · exact h.nodup1 i
  nodup2 := h.nodup2
  mem1 i u hu := by
    rw [addTail1_level1] at hu
    by_cases hut : u = t
    · subst hut
      rw [Function.update_self]
      split at hu
      · rename_i e
        exact ⟨by rw [e], e ▸ hs⟩
      · exact absurd hu (hn i).1
    · rw [Function.update_of_ne hut]
      split at hu
      · rename_i e
        rcases List.mem_append.mp hu with hu | hu
        · exact e ▸ h.mem1 slot u hu
        · exact absurd (List.mem_singleton.mp hu) hut
      · exact h.mem1 i u hu
  mem2 i u hu := by
    have hut : u ≠ t := fun e => (hn i).2 (e ▸ hu)
    rw [Function.update_of_ne hut]
    exact h.mem2 i u hu

/-- Linking a task that is not linked, in the second level. -/
theorem addTail2 (h : Placed w W) (hn : ∀ i, t ∉ w.level1 i ∧ t ∉ w.level2 i) (hs : slot.toNat < 64) :
    Placed (w.addTail2 slot t) (Function.update W t (true, slot)) where
  nodup1 := h.nodup1
  nodup2 i := by
    rw [addTail2_level2]
    split
    · exact List.nodup_append.mpr ⟨h.nodup2 slot, List.nodup_singleton t, fun u hu v hv e =>
        (hn slot).2 (List.mem_singleton.mp hv ▸ e ▸ hu)⟩
    · exact h.nodup2 i
  mem1 i u hu := by
    have hut : u ≠ t := fun e => (hn i).1 (e ▸ hu)
    rw [Function.update_of_ne hut]
    exact h.mem1 i u hu
  mem2 i u hu := by
    rw [addTail2_level2] at hu
    by_cases hut : u = t
    · subst hut
      rw [Function.update_self]
      split at hu
      · rename_i e
        exact ⟨by rw [e], e ▸ hs⟩
      · exact absurd hu (hn i).2
    · rw [Function.update_of_ne hut]
      split at hu
      · rename_i e
        rcases List.mem_append.mp hu with hu | hu
        · exact e ▸ h.mem2 slot u hu
        · exact absurd (List.mem_singleton.mp hu) hut
      · exact h.mem2 i u hu

/-- A task that is not among those in the wheel is not linked. -/
theorem not_linked (h : Placed w W) (ht : t ∉ w.members) (i : Word) : t ∉ w.level1 i ∧ t ∉ w.level2 i := by
  have hmem : ∀ {i : Word}, i.toNat < 64 → t ∉ w.level1 i ++ w.level2 i := fun {i} hi hm => by
    refine ht (List.mem_flatMap.mpr ⟨i.toNat, List.mem_range.mpr hi, ?_⟩)
    rwa [BitVec.ofNat_toNat, BitVec.setWidth_eq]
  exact ⟨fun hm => hmem (h.mem1 i t hm).2 (List.mem_append_left _ hm),
    fun hm => hmem (h.mem2 i t hm).2 (List.mem_append_right _ hm)⟩

theorem del2 (h : Placed w W) (slot : Word) (t : TaskId) : Placed (w.del2 slot t) W := by
  refine h.mono (fun i => List.Sublist.refl _) fun i => ?_
  show List.Sublist (Function.update w.level2 slot _ i) _
  rw [Function.update_apply]
  split
  · rename_i e
    rw [e]
    exact List.erase_sublist
  · exact List.Sublist.refl _

/-- A task that is taken out of its slot is not linked any more. -/
theorem not_linked_del2 (h : Placed w W) (ht : t ∈ w.level2 slot) (i : Word) :
    t ∉ (w.del2 slot t).level1 i ∧ t ∉ (w.del2 slot t).level2 i := by
  have hW := (h.mem2 slot t ht).1
  constructor
  · intro hm
    cases hW.symm.trans (h.mem1 i t hm).1
  · intro hm
    have hi := ((h.del2 slot t).mem2 i t hm).1
    rw [hW, Prod.mk.injEq] at hi
    obtain ⟨-, rfl⟩ := hi
    have hdel : (w.del2 slot t).level2 slot = (w.level2 slot).erase t := Function.update_self ..
    rw [hdel] at hm
    exact (h.nodup2 slot).not_mem_erase hm

end Placed

/-- Every task is linked once at most, and the cursors are in their levels. -/
structure Sound (s : Timed) : Prop where
  low : s.wheel.currentTickLow.toNat < 64
  high : s.wheel.currentTickHigh.toNat < 64
  placed : ∃ W, Placed s.wheel W

omit cfg in
theorem toNat_mod_lt (x : Word) : (x % twSize2).toNat < 64 := by
  rw [BitVec.toNat_umod]
  exact Nat.mod_lt _ (by decide)

omit cfg in
theorem cursors_insert (w : TimeWheel) (now : Word) (t : TaskId) (wakeTick : Word) :
    (w.insert now t wakeTick).currentTickLow = w.currentTickLow ∧
      (w.insert now t wakeTick).currentTickHigh = w.currentTickHigh := by
  unfold TimeWheel.insert
  dsimp only
  split
  · exact ⟨rfl, rfl⟩
  · split <;> exact ⟨rfl, rfl⟩

omit cfg in
theorem sound_insert (h : Sound s) (ht : t ∉ s.wheel.members) (now wakeTick : Word) :
    Sound { s with wheel := s.wheel.insert now t wakeTick } := by
  obtain ⟨W, hW⟩ := h.placed
  have hn := hW.not_linked ht
  obtain ⟨hlow, hhigh⟩ := cursors_insert s.wheel now t wakeTick
  refine ⟨?_, ?_, ?_⟩
  · show (s.wheel.insert now t wakeTick).currentTickLow.toNat < 64
    rw [hlow]
    exact h.low
  · show (s.wheel.insert now t wakeTick).currentTickHigh.toNat < 64
    rw [hhigh]
    exact h.high
  · show ∃ W, Placed (s.wheel.insert now t wakeTick) W
    unfold TimeWheel.insert
    dsimp only
    split
    · exact ⟨_, hW.addTail1 hn (toNat_mod_lt _)⟩
    · split <;> exact ⟨_, hW.addTail2 hn (toNat_mod_lt _)⟩

theorem sound_cascadeTask (h : Sound s) (ht : t ∈ s.wheel.level2 high) : Sound (cascadeTask now high s t) := by
  obtain ⟨W, hW⟩ := h.placed
  have hn := hW.not_linked_del2 ht
  obtain ⟨hlow, hhigh⟩ := cursors_cascadeTask now high s t
  refine ⟨hlow ▸ h.low, hhigh ▸ h.high, ?_⟩
  unfold cascadeTask
  dsimp only
  split
  · exact ⟨W, hW.del2 high t⟩
  · split
    · exact ⟨_, (hW.del2 high t).addTail1 hn (toNat_mod_lt _)⟩
    · exact ⟨_, (hW.del2 high t).addTail2 hn (toNat_mod_lt _)⟩

theorem sound_cascadeLoop (h : Sound s) (hh : s.wheel.currentTickHigh = high) (hl : s.wheel.level2 high = ts)
    (hr : cascadeLoop now high n s ts.head? = some s') : Sound s' := by
  induction n generalizing s ts with
  | zero =>
    cases ts with
    | nil =>
      cases hr
      exact h
    | cons t ts => cases hr
  | succ n ih =>
    cases ts with
    | nil =>
      cases hr
      exact h
    | cons t ts =>
      rw [List.head?_cons, cascadeLoop, hl, nodeAfter_head] at hr
      have h₁ : Sound (cascadeTask now high s t) := sound_cascadeTask h (by rw [hl]; exact List.mem_cons_self ..)
      have hlevel := level2_cascadeTask now hh (hh ▸ h.high) hl
      by_cases hts : ts = []
      · subst hts
        have e : some (cascadeTask now high s t) = some s' := by
          rw [← hr]
          cases n <;> rfl
        cases e
        exact h₁
      · refine ih h₁ ((cursors_cascadeTask ..).2.trans hh) hlevel ?_
        rw [← hr]
        split
        · rw [List.head?_append_of_ne_nil _ hts]
        · rfl

/-- The first loop takes tasks out of the first level. -/
theorem expireLoop_keeps (now slot : Word) (s : Timed) (ts : List TaskId) :
    (expireLoop now slot s ts).wheel.level2 = s.wheel.level2 ∧
    (expireLoop now slot s ts).wheel.currentTickHigh = s.wheel.currentTickHigh ∧
    (∀ i, ((expireLoop now slot s ts).wheel.level1 i).Sublist (s.wheel.level1 i)) ∧
    ∀ u, ((expireLoop now slot s ts).core.tasks u).wakeTick = (s.core.tasks u).wakeTick := by
  induction ts generalizing s with
  | nil => exact ⟨rfl, rfl, fun _ => List.Sublist.refl _, fun _ => rfl⟩
  | cons t ts ih =>
    rw [expireLoop]
    split
    · obtain ⟨h₁, h₂, h₃, h₄⟩ := ih ({ s with wheel := s.wheel.del1 slot t }.wakeDue t)
      refine ⟨h₁, h₂, fun i => (h₃ i).trans ?_, fun u => (h₄ u).trans (wakeTick_taskWake ..)⟩
      show List.Sublist (Function.update s.wheel.level1 slot _ i) _
      rw [Function.update_apply]
      split
      · rename_i e
        rw [e]
        exact List.erase_sublist
      · exact List.Sublist.refl _
    · exact ih s

/-- The wheel when the first loop is done and the first level has turned on. -/
def expired (s : Timed) (now : Word) : Timed :=
  let slot := s.wheel.currentTickLow
  let s := expireLoop now slot s (s.wheel.level1 slot)
  { s with wheel := { s.wheel with currentTickLow := (slot + 1) % twSize1 } }

theorem sound_expired (h : Sound s) (now : Word) : Sound (expired s now) := by
  obtain ⟨W, hW⟩ := h.placed
  obtain ⟨h₁, h₂, h₃, -⟩ := expireLoop_keeps now s.wheel.currentTickLow s (s.wheel.level1 s.wheel.currentTickLow)
  refine ⟨toNat_mod_lt _, ?_, W, hW.mono h₃ fun i => ?_⟩
  · show (expireLoop _ _ _ _).wheel.currentTickHigh.toNat < 64
    rw [h₂]
    exact h.high
  · show List.Sublist ((expireLoop _ _ _ _).wheel.level2 i) _
    rw [h₁]

theorem wheelTick_eq (s : Timed) (now : Word) : s.wheelTick now =
    if (expired s now).wheel.currentTickLow = 0 then (expired s now).cascade now else some (expired s now) := rfl

theorem sound_wheelTick (h : Sound s) (hs : s.wheelTick now = some s') : Sound s' := by
  rw [wheelTick_eq] at hs
  have h₁ := sound_expired h now
  generalize expired s now = m at hs h₁
  split at hs
  · obtain ⟨r, hr, rfl⟩ := Option.map_eq_some_iff.mp hs
    obtain ⟨hlow, -, W, hW⟩ := sound_cascadeLoop h₁ rfl rfl hr
    exact ⟨hlow, toNat_mod_lt _, W, hW.mono (fun _ => List.Sublist.refl _) fun _ => List.Sublist.refl _⟩
  · cases hs
    exact h₁

omit cfg in
theorem sound_init : Sound init where
  low := by decide
  high := by decide
  placed := ⟨fun _ => (false, 0), fun _ => .nil, fun _ => .nil, fun _ _ h => (nomatch h), fun _ _ h => nomatch h⟩

theorem sound_step {a : Act} (h : Sound s) (hs : s.step a = some s') : Sound s' := by
  cases a with
  | kernel c detached =>
    rw [step] at hs
    split at hs
    · cases hs
      obtain ⟨W, hW⟩ := h.placed
      exact ⟨h.low, h.high, W, hW.mono (fun _ => List.filter_sublist) fun _ => List.filter_sublist⟩
    · cases hs
  | insert t =>
    rw [step] at hs
    split at hs
    · rename_i hc
      cases hs
      exact sound_insert h hc.2 ..
    · cases hs
  | tick =>
    have h₁ : Sound { s with core := { s.core with totalTicks := s.core.totalTicks + 1 } } :=
      ⟨h.low, h.high, h.placed⟩
    exact sound_wheelTick h₁ hs

theorem sound_of_run {as : List Act} (hr : run step init as = some s) : Sound s := by
  have hp := path_iff_run.mpr hr
  exact hp.invariant (fun _ _ _ h _ hs => sound_step h hs) sound_init

/-! ### The tick -/

theorem tickVisits_eq (n : ℕ) (s : Timed) (now : Word) : tickVisits n s now =
    if (expired s now).wheel.currentTickLow = 0 then
      (cascadeVisits now (expired s now).wheel.currentTickHigh n (expired s now)
        ((expired s now).wheel.level2 (expired s now).wheel.currentTickHigh).head?).map
          (s.wheel.level1 s.wheel.currentTickLow ++ ·)
    else some (s.wheel.level1 s.wheel.currentTickLow) := rfl

/-- The state in which the next tick calls `aixos_timing_wheel_tick`. -/
def atTick (s : Timed) : Timed := { s with core := { s.core with totalTicks := s.core.totalTicks + 1 } }

/-- The next tick comes to an end, and visits no task twice. -/
def Finishes (s : Timed) : Prop :=
  (s.step .tick).isSome ∧ ∃ n vs, tickVisits n (atTick s) (atTick s).core.getTick = some vs ∧ vs.Nodup

/-- If the next tick turns the first level, no task of the slot of the second level that is emptied stays there,
except perhaps the last one. -/
def LeavesSlot (s : Timed) : Prop := s.wheel.currentTickLow = 63 →
  ∀ t ∈ (s.wheel.level2 s.wheel.currentTickHigh).dropLast, Stays s.core (atTick s).core.getTick t = false

instance (s : Timed) : Decidable (LeavesSlot s) :=
  inferInstanceAs (Decidable (_ → ∀ t ∈ (s.wheel.level2 s.wheel.currentTickHigh).dropLast, _))

omit cfg in
theorem add_one_mod_eq_zero {x : Word} (h : x.toNat < 64) : (x + 1) % twSize1 = 0 ↔ x = 63 := by
  rw [← BitVec.toNat_inj, ← BitVec.toNat_inj, BitVec.toNat_umod, BitVec.toNat_add]
  rw [show twSize1.toNat = 64 from rfl, show (0 : Word).toNat = 0 from rfl, show (1 : Word).toNat = 1 from rfl,
    show (63 : Word).toNat = 63 from rfl]
  omega

/-- The tasks that a tick visits which turns the first level. -/
theorem tickVisits_turn (h : Sound s) (hlow : s.wheel.currentTickLow = 63) (now : Word) (n : ℕ) :
    tickVisits n s now = (Requeue.visits (Stays s.core now) n (s.wheel.level2 s.wheel.currentTickHigh)).map
        (s.wheel.level1 s.wheel.currentTickLow ++ ·) ∧
      (s.wheelTick now).isSome = (Requeue.visits (Stays s.core now)
        ((s.wheel.level2 s.wheel.currentTickHigh).length + 1) (s.wheel.level2 s.wheel.currentTickHigh)).isSome := by
  obtain ⟨h₁, h₂, -, h₄⟩ := expireLoop_keeps now s.wheel.currentTickLow s (s.wheel.level1 s.wheel.currentTickLow)
  have hzero : (expired s now).wheel.currentTickLow = 0 := (add_one_mod_eq_zero h.low).mpr hlow
  have hcur : (expired s now).wheel.currentTickHigh = s.wheel.currentTickHigh := h₂
  have hlevel : (expired s now).wheel.level2 = s.wheel.level2 := h₁
  have hstays : Stays (expired s now).core now = Stays s.core now := stays_congr h₄ now
  have hv := fun n => cascadeVisits_eq now (s := expired s now) rfl (hcur ▸ h.high) rfl n
  rw [hcur, hlevel, hstays] at hv
  rw [tickVisits_eq, if_pos hzero, hcur, hlevel, (hv n).1, wheelTick_eq, if_pos hzero, cascade]
  dsimp only
  rw [Option.isSome_map, hcur, hlevel, (hv _).2]
  exact ⟨rfl, rfl⟩

theorem finishes_iff_of_sound (h : Sound s) : Finishes s ↔ LeavesSlot s := by
  obtain ⟨W, hW⟩ := h.placed
  have ht : Sound (atTick s) := ⟨h.low, h.high, h.placed⟩
  have hfirst := hW.nodup1 s.wheel.currentTickLow
  have hslot := hW.nodup2 s.wheel.currentTickHigh
  by_cases hlow : s.wheel.currentTickLow = 63
  · have hv := fun n => (tickVisits_turn ht hlow (atTick s).core.getTick n).1
    have hs : (s.step .tick).isSome = _ := (tickVisits_turn ht hlow (atTick s).core.getTick 0).2
    constructor
    · rintro ⟨-, n, vs, hvs, hn⟩ -
      rw [hv n] at hvs
      obtain ⟨ws, hws, rfl⟩ := Option.map_eq_some_iff.mp hvs
      exact (Requeue.visits_nodup_iff hslot).mp ⟨n, ws, hws, (List.nodup_append.mp hn).2.1⟩
    · intro hl
      have hvisits : ∀ n, (s.wheel.level2 s.wheel.currentTickHigh).length ≤ n →
          Requeue.visits (Stays s.core (atTick s).core.getTick) n (s.wheel.level2 s.wheel.currentTickHigh) =
            some (s.wheel.level2 s.wheel.currentTickHigh) :=
        fun _ hn => Requeue.visits_of_dropLast (hl hlow) hn
      refine ⟨?_, (s.wheel.level2 s.wheel.currentTickHigh).length, _, ?_, List.nodup_append.mpr ⟨hfirst, hslot, ?_⟩⟩
      · rw [hs]
        exact Option.isSome_iff_exists.mpr ⟨_, hvisits _ (Nat.le_succ _)⟩
      · rw [hv]
        exact congrArg _ (hvisits _ le_rfl)
      · rintro t ht u hu rfl
        cases (hW.mem1 _ t ht).1.symm.trans (hW.mem2 _ t hu).1
  · have hne : (expired (atTick s) (atTick s).core.getTick).wheel.currentTickLow ≠ 0 :=
      fun e => hlow ((add_one_mod_eq_zero h.low).mp e)
    refine iff_of_true ⟨?_, 0, s.wheel.level1 s.wheel.currentTickLow, ?_, hfirst⟩ fun e => absurd e hlow
    · show ((atTick s).wheelTick (atTick s).core.getTick).isSome = true
      rw [wheelTick_eq, if_neg hne]
      rfl
    · rw [tickVisits_eq, if_neg hne]
      rfl

/-- **Which ticks come to an end**: in every state that is reached, the next tick does, and visits no task twice,
exactly if it leaves no task in the slot that it empties, except perhaps the last one. -/
theorem finishes_iff {as : List Act} (hr : run step init as = some s) : Finishes s ↔ LeavesSlot s :=
  finishes_iff_of_sound (sound_of_run hr)

end Timed

end Aixos

namespace Aixos.Timed

open Transition

attribute [local instance] Config.default

/-- The first two tasks sleep until tick 128. -/
def twoAsleep : Core :=
  (Core.init.setTask 0 fun b => { b with state := .delayed, wakeTick := 128 }).setTask 1 fun b =>
    { b with state := .delayed, wakeTick := 128 }

/-- At tick 1 both are put in the wheel, and 62 more ticks go by. -/
def twoLate : List Act := .tick :: .kernel { twoAsleep with totalTicks := 1 } [] :: .insert 0 :: .insert 1 ::
  List.replicate 62 .tick

/-- The tick 64 does not come to an end. -/
theorem twoLate_not_finishes : ∃ s, run step init twoLate = some s ∧ s.core.getTick = 63 ∧ ¬ Finishes s ∧
    ∀ n, tickVisits n (atTick s) (atTick s).core.getTick = none := by
  obtain ⟨s, hr, h⟩ := exists_run step init twoLate
    (fun s => decide (s.core.getTick = 63 ∧ (atTick s).core.getTick = 64 ∧ s.wheel.currentTickLow = 63 ∧
      s.wheel.level2 s.wheel.currentTickHigh = [0, 1] ∧ Stays s.core 64 0 = true ∧ Stays s.core 64 1 = true))
    (by decide +kernel)
  obtain ⟨hnow, htick, hlow, hlevel, h₀, h₁⟩ := of_decide_eq_true h
  have hs := sound_of_run hr
  have hnone : ∀ n, tickVisits n (atTick s) (atTick s).core.getTick = none := by
    intro n
    have ht : Sound (atTick s) := ⟨hs.low, hs.high, hs.placed⟩
    have hv : Requeue.visits (Stays s.core 64) n (s.wheel.level2 s.wheel.currentTickHigh) = none :=
      Requeue.visits_eq_none (t := 0) (u := 1) (by simp [hlevel]) (by simp [hlevel]) (by decide) h₀ h₁ n
    rw [(tickVisits_turn ht hlow (atTick s).core.getTick n).1, htick]
    exact congrArg (Option.map _) hv
  refine ⟨s, hr, hnow, ?_, hnone⟩
  rintro ⟨-, n, vs, hvs, -⟩
  rw [hnone n] at hvs
  cases hvs

/-- With one of them the tick comes to an end. -/
theorem oneLate_finishes : ∃ s, run step init (.tick :: .kernel { twoAsleep with totalTicks := 1 } [] :: .insert 0 ::
    List.replicate 62 .tick) = some s ∧ s.wheel.currentTickLow = 63 ∧
      s.wheel.level2 s.wheel.currentTickHigh = [0] ∧ Finishes s := by
  obtain ⟨s, hr, h⟩ := exists_run step init (.tick :: .kernel { twoAsleep with totalTicks := 1 } [] :: .insert 0 ::
    List.replicate 62 .tick) (fun s => decide (s.wheel.currentTickLow = 63 ∧
      s.wheel.level2 s.wheel.currentTickHigh = [0] ∧ LeavesSlot s)) (by decide +kernel)
  obtain ⟨hlow, hlevel, hl⟩ := of_decide_eq_true h
  exact ⟨s, hr, hlow, hlevel, (finishes_iff hr).mpr hl⟩

end Aixos.Timed
