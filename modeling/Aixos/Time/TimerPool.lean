import Aixos.Kernel.Timer

/-!
# What the functions of `timer.c` keep

The two lists of the pool have the timers whose flags are set, each once, and a timer with a flag set is in use.

* `TimerPool.Good` — the invariant; `Good.timerCreate`, `Good.timerStart`, `Good.timerStop`, `Good.timerDelete`,
  `Good.timerTick`, `Good.dispatchTake`.
* `TimerPool.timerStart_eq`, `timerStop_eq`, `timerDelete_eq`, `timerCreate_eq` — what the functions do to the timers.
* `TimerPool.ticked_timerTick` — a tick changes the timers whose deadline has been reached, and makes them pending.
-/

namespace Aixos

namespace TimerPool

open OrderedQueue

variable {α : Type} {p q : TimerPool α} {i j : ℕ}

/-- The lists and the flags agree, and only timers in use have flags. -/
structure Good (p : TimerPool α) : Prop where
  activeNodup : p.activeTimers.Nodup
  pendingNodup : p.pendingTimers.Nodup
  active : ∀ j, j ∈ p.activeTimers ↔ (p.timers j).active = true
  pending : ∀ j, j ∈ p.pendingTimers ↔ (p.timers j).pending = true
  activeUsed : ∀ j, (p.timers j).active = true → (p.slots j).used = true
  pendingUsed : ∀ j, (p.timers j).pending = true → (p.slots j).used = true

theorem good_init : Good (init : TimerPool α) where
  activeNodup := List.nodup_nil
  pendingNodup := List.nodup_nil
  active := by simp [init]
  pending := by simp [init]
  activeUsed := by simp [init]
  pendingUsed := by simp [init]

/-! ### The pieces of the functions -/

@[simp] theorem setTimer_self (p : TimerPool α) (i : ℕ) (f : Timer α → Timer α) :
    (p.setTimer i f).timers i = f (p.timers i) := Function.update_self ..

theorem setTimer_ne (p : TimerPool α) (f : Timer α → Timer α) (h : j ≠ i) : (p.setTimer i f).timers j = p.timers j :=
  Function.update_of_ne h ..

@[simp] theorem setTimer_slots (p : TimerPool α) (i : ℕ) (f : Timer α → Timer α) : (p.setTimer i f).slots = p.slots := rfl

@[simp] theorem setTimer_activeTimers (p : TimerPool α) (i : ℕ) (f : Timer α → Timer α) :
    (p.setTimer i f).activeTimers = p.activeTimers := rfl

@[simp] theorem setTimer_pendingTimers (p : TimerPool α) (i : ℕ) (f : Timer α → Timer α) :
    (p.setTimer i f).pendingTimers = p.pendingTimers := rfl

@[simp] theorem activeRemove_timers (p : TimerPool α) (i : ℕ) : (p.activeRemove i).timers = p.timers := by
  unfold activeRemove
  split <;> rfl

@[simp] theorem activeRemove_slots (p : TimerPool α) (i : ℕ) : (p.activeRemove i).slots = p.slots := by
  unfold activeRemove
  split <;> rfl

@[simp] theorem activeRemove_pendingTimers (p : TimerPool α) (i : ℕ) :
    (p.activeRemove i).pendingTimers = p.pendingTimers := by
  unfold activeRemove
  split <;> rfl

@[simp] theorem pendingRemove_timers (p : TimerPool α) (i : ℕ) : (p.pendingRemove i).timers = p.timers := by
  unfold pendingRemove
  split <;> rfl

@[simp] theorem pendingRemove_slots (p : TimerPool α) (i : ℕ) : (p.pendingRemove i).slots = p.slots := by
  unfold pendingRemove
  split <;> rfl

@[simp] theorem pendingRemove_activeTimers (p : TimerPool α) (i : ℕ) :
    (p.pendingRemove i).activeTimers = p.activeTimers := by
  unfold pendingRemove
  split <;> rfl

@[simp] theorem activeInsert_timers (p : TimerPool α) (i : ℕ) : (p.activeInsert i).timers = p.timers := rfl

@[simp] theorem activeInsert_slots (p : TimerPool α) (i : ℕ) : (p.activeInsert i).slots = p.slots := rfl

@[simp] theorem activeInsert_pendingTimers (p : TimerPool α) (i : ℕ) :
    (p.activeInsert i).pendingTimers = p.pendingTimers := rfl

@[simp] theorem mem_activeInsert : j ∈ (p.activeInsert i).activeTimers ↔ j = i ∨ j ∈ p.activeTimers := mem_insertBefore

namespace Good

/-- A timer that is not active is not in the list. -/
theorem activeRemove_eq (h : Good p) (i : ℕ) : (p.activeRemove i).activeTimers = p.activeTimers.erase i := by
  unfold activeRemove
  split
  · rfl
  · rename_i ha
    exact (List.erase_of_not_mem fun hm => ha ((h.active i).mp hm)).symm

theorem pendingRemove_eq (h : Good p) (i : ℕ) : (p.pendingRemove i).pendingTimers = p.pendingTimers.erase i := by
  unfold pendingRemove
  split
  · rfl
  · rename_i ha
    exact (List.erase_of_not_mem fun hm => ha ((h.pending i).mp hm)).symm

/-- One timer changes, and leaves or joins the lists as its flags say. -/
theorem change (h : Good p) (i : ℕ) (hother : ∀ j, j ≠ i → q.timers j = p.timers j ∧ (q.slots j).used = (p.slots j).used)
    (hactive : ∀ j, j ∈ q.activeTimers ↔ j ∈ p.activeTimers ∧ j ≠ i ∨ j = i ∧ (q.timers i).active = true)
    (hpending : ∀ j, j ∈ q.pendingTimers ↔ j ∈ p.pendingTimers ∧ j ≠ i ∨ j = i ∧ (q.timers i).pending = true)
    (hnodup : q.activeTimers.Nodup) (hnodup' : q.pendingTimers.Nodup)
    (hused : (q.slots i).used = false → (q.timers i).active = false ∧ (q.timers i).pending = false) : Good q where
  activeNodup := hnodup
  pendingNodup := hnodup'
  active j := by
    rw [hactive]
    by_cases hj : j = i
    · subst hj
      simp
    · simp [hj, (hother j hj).1, h.active j]
  pending j := by
    rw [hpending]
    by_cases hj : j = i
    · subst hj
      simp
    · simp [hj, (hother j hj).1, h.pending j]
  activeUsed j hj := by
    by_cases hji : j = i
    · subst hji
      by_contra hu
      rw [(hused (Bool.not_eq_true _ ▸ hu)).1] at hj
      cases hj
    · rw [(hother j hji).1] at hj
      rw [(hother j hji).2]
      exact h.activeUsed j hj
  pendingUsed j hj := by
    by_cases hji : j = i
    · subst hji
      by_contra hu
      rw [(hused (Bool.not_eq_true _ ▸ hu)).2] at hj
      cases hj
    · rw [(hother j hji).1] at hj
      rw [(hother j hji).2]
      exact h.pendingUsed j hj

end Good

section

variable [ocfg : ObjectConfig] {h : Option Handle} {x : Handle}

theorem timerFromHandle_eq_some : p.timerFromHandle h = some i ↔ ∃ x, h = some x ∧ x.index = i ∧ i < ocfg.maxTimer ∧
    (p.slots i).used = true ∧ (p.slots i).generation = x.generation := by
  cases h with
  | none => simp [timerFromHandle]
  | some x =>
    simp only [timerFromHandle, Option.ite_none_right_eq_some, Option.some.injEq, exists_eq_left']
    constructor
    · rintro ⟨h, rfl⟩
      exact ⟨rfl, h⟩
    · rintro ⟨rfl, h⟩
      exact ⟨h, rfl⟩

theorem used_of_handle (hi : p.timerFromHandle h = some i) : (p.slots i).used = true := by
  obtain ⟨x, -, -, -, hu, -⟩ := timerFromHandle_eq_some.mp hi
  exact hu

/-! ### Creation -/

/-- A timer that is created was not in use. -/
theorem timerCreate_eq {type : TimerType} {callback : Option α} (hq : p.timerCreate false type callback = (q, some x)) :
    (p.slots x.index).used = false ∧ q.timerFromHandle (some x) = some x.index ∧
      q.timers = Function.update p.timers x.index { type := type, callback := callback } ∧
      q.activeTimers = p.activeTimers ∧ q.pendingTimers = p.pendingTimers ∧ ∀ j, j ≠ x.index → q.slots j = p.slots j := by
  simp only [timerCreate, Bool.false_eq_true, false_or] at hq
  split at hq
  · cases hq
  · split at hq
    · cases hq
    · rename_i i hfind
      cases hq
      have hi := List.find?_some hfind
      have hlt := List.mem_range.mp (List.mem_of_find?_eq_some hfind)
      exact ⟨by simpa using hi, timerFromHandle_eq_some.mpr ⟨_, rfl, rfl, hlt, by simp, by simp⟩, rfl, rfl, rfl,
        fun j hj => Function.update_of_ne hj ..⟩

/-- A creation that fails changes nothing. -/
theorem timerCreate_none {type : TimerType} {callback : Option α} (hq : p.timerCreate false type callback = (q, none)) :
    q = p := by
  simp only [timerCreate, Bool.false_eq_true, false_or] at hq
  split at hq
  · exact (congrArg Prod.fst hq).symm
  · split at hq
    · exact (congrArg Prod.fst hq).symm
    · cases hq

theorem Good.timerCreate (hg : Good p) (type : TimerType) (callback : Option α) :
    Good (p.timerCreate false type callback).1 := by
  rcases hq : p.timerCreate false type callback with ⟨q, _ | x⟩
  · rw [timerCreate_none hq]
    exact hg
  · obtain ⟨hu, hr, ht, ha, hp, hs⟩ := timerCreate_eq hq
    have hna : x.index ∉ p.activeTimers := fun hm => by
      have := hg.activeUsed _ ((hg.active _).mp hm)
      rw [hu] at this
      cases this
    have hnp : x.index ∉ p.pendingTimers := fun hm => by
      have := hg.pendingUsed _ ((hg.pending _).mp hm)
      rw [hu] at this
      cases this
    refine hg.change x.index (fun j hj => ⟨by rw [ht, Function.update_of_ne hj], by rw [hs j hj]⟩) (fun j => ?_) (fun j => ?_)
      (by rw [ha]; exact hg.activeNodup) (by rw [hp]; exact hg.pendingNodup) fun hu' => ?_
    · rw [ha, ht, Function.update_self]
      by_cases hj : j = x.index
      · simp [hj, hna]
      · simp [hj]
    · rw [hp, ht, Function.update_self]
      by_cases hj : j = x.index
      · simp [hj, hnp]
      · simp [hj]
    · rw [used_of_handle hr] at hu'
      cases hu'

/-! ### Stop, delete and start -/

/-- A stop that names no timer changes nothing. -/
theorem timerStop_none (hi : p.timerFromHandle h = none) : p.timerStop false h = (p, Code.inval) := by
  simp [timerStop, hi]

theorem Good.timerStop_eq (hg : Good p) (hi : p.timerFromHandle h = some i) : ∃ q, p.timerStop false h = (q, Code.ok) ∧
    q.slots = p.slots ∧ q.timers = Function.update p.timers i { p.timers i with active := false, pending := false } ∧
    q.activeTimers = p.activeTimers.erase i ∧ q.pendingTimers = p.pendingTimers.erase i := by
  refine ⟨((p.activeRemove i).pendingRemove i).setTimer i fun t => { t with active := false, pending := false }, ?_⟩
  refine ⟨by simp [timerStop, hi], by simp, by simp [setTimer], ?_, ?_⟩
  · simp [hg.activeRemove_eq]
  · have : ((p.activeRemove i).pendingRemove i).pendingTimers = (p.pendingRemove i).pendingTimers := by
      unfold pendingRemove
      rw [activeRemove_timers]
      split <;> simp
    simp [this, hg.pendingRemove_eq]

theorem Good.timerStop (hg : Good p) (h : Option Handle) : Good (p.timerStop false h).1 := by
  cases hi : p.timerFromHandle h with
  | none =>
    rw [timerStop_none hi]
    exact hg
  | some i =>
    obtain ⟨q, e, hs, ht, ha, hp⟩ := hg.timerStop_eq hi
    rw [e]
    refine hg.change i (fun j hj => ⟨by rw [ht, Function.update_of_ne hj], by rw [hs]⟩) (fun j => ?_) (fun j => ?_)
      (by rw [ha]; exact hg.activeNodup.erase i) (by rw [hp]; exact hg.pendingNodup.erase i) fun _ => by simp [ht]
    · simp [ha, ht, hg.activeNodup.mem_erase_iff, and_comm]
    · simp [hp, ht, hg.pendingNodup.mem_erase_iff, and_comm]

theorem timerDelete_none (hi : p.timerFromHandle h = none) : p.timerDelete false h = (p, Code.inval) := by
  simp [timerDelete, hi]

theorem Good.timerDelete_eq (hg : Good p) (hi : p.timerFromHandle h = some i) : ∃ q, p.timerDelete false h = (q, Code.ok) ∧
    q.slots = Function.update p.slots i { p.slots i with used := false } ∧
    q.timers = Function.update p.timers i {} ∧
    q.activeTimers = p.activeTimers.erase i ∧ q.pendingTimers = p.pendingTimers.erase i := by
  refine ⟨{ (p.activeRemove i).pendingRemove i with
    slots := Function.update p.slots i { p.slots i with used := false } }.setTimer i fun _ => {}, ?_⟩
  refine ⟨by simp [timerDelete, hi], by simp, by simp [setTimer], ?_, ?_⟩
  · simp [hg.activeRemove_eq]
  · have : ((p.activeRemove i).pendingRemove i).pendingTimers = (p.pendingRemove i).pendingTimers := by
      unfold pendingRemove
      rw [activeRemove_timers]
      split <;> simp
    simp [this, hg.pendingRemove_eq]

theorem Good.timerDelete (hg : Good p) (h : Option Handle) : Good (p.timerDelete false h).1 := by
  cases hi : p.timerFromHandle h with
  | none =>
    rw [timerDelete_none hi]
    exact hg
  | some i =>
    obtain ⟨q, e, hs, ht, ha, hp⟩ := hg.timerDelete_eq hi
    rw [e]
    refine hg.change i (fun j hj => ⟨by rw [ht, Function.update_of_ne hj], by rw [hs, Function.update_of_ne hj]⟩)
      (fun j => ?_) (fun j => ?_) (by rw [ha]; exact hg.activeNodup.erase i)
      (by rw [hp]; exact hg.pendingNodup.erase i) fun _ => by simp [ht]
    · simp [ha, ht, hg.activeNodup.mem_erase_iff, and_comm]
    · simp [hp, ht, hg.pendingNodup.mem_erase_iff, and_comm]

variable [cfg : Config] {now ms : Word}

/-- A start that fails changes nothing. -/
theorem timerStart_none (hi : p.timerFromHandle h = none) : p.timerStart false now h ms = (p, Code.inval) := by
  simp [timerStart, hi]

theorem timerStart_inval (hms : ms = 0 ∨ ms = forever) : p.timerStart false now h ms = (p, Code.inval) := by
  rw [← msToTicks_eq_forever] at hms
  simp only [timerStart, Bool.false_eq_true, if_false]
  exact if_pos hms

/-- A start that succeeds. -/
theorem Good.timerStart_eq (hg : Good p) (now : Word) (hi : p.timerFromHandle h = some i) (h₀ : ms ≠ 0) (hf : ms ≠ forever) :
    ∃ q, p.timerStart false now h ms = (q, Code.ok) ∧ q.slots = p.slots ∧
      q.timers = Function.update p.timers i
        { p.timers i with interval := msToTicks ms, deadline := now + msToTicks ms, active := true } ∧
      (∃ l, q.activeTimers = insertBefore l i (p.activeTimers.erase i)) ∧ q.pendingTimers = p.pendingTimers := by
  refine ⟨((p.activeRemove i).setTimer i fun t =>
    { t with interval := msToTicks ms, deadline := now + msToTicks ms, active := true }).activeInsert i, ?_⟩
  have hne : ¬ (ms = 0 ∨ msToTicks ms = forever) := by
    rw [msToTicks_eq_forever]
    exact not_or.mpr ⟨h₀, hf⟩
  refine ⟨?_, by simp, by simp [setTimer], ?_, by simp⟩
  · simp only [timerStart, Bool.false_eq_true, if_false, hi]
    exact if_neg hne
  unfold activeInsert
  dsimp only
  rw [setTimer_activeTimers, hg.activeRemove_eq]
  exact ⟨_, rfl⟩

theorem Good.timerStart (hg : Good p) (now : Word) (h : Option Handle) (ms : Word) :
    Good (p.timerStart false now h ms).1 := by
  by_cases hms : ms = 0 ∨ ms = forever
  · rw [timerStart_inval hms]
    exact hg
  obtain ⟨h₀, hf⟩ := not_or.mp hms
  cases hi : p.timerFromHandle h with
  | none =>
    rw [timerStart_none hi]
    exact hg
  | some i =>
    obtain ⟨q, e, hs, ht, ⟨l, ha⟩, hp⟩ := hg.timerStart_eq now hi h₀ hf
    rw [e]
    have hni : i ∉ p.activeTimers.erase i := hg.activeNodup.not_mem_erase
    refine hg.change i (fun j hj => ⟨by rw [ht, Function.update_of_ne hj], by rw [hs]⟩) (fun j => ?_) (fun j => ?_)
      (by rw [ha]; exact nodup_insertBefore.mpr ⟨hni, hg.activeNodup.erase i⟩) (by rw [hp]; exact hg.pendingNodup) ?_
    · simp only [ha, mem_insertBefore, hg.activeNodup.mem_erase_iff, ht, Function.update_self, and_true]
      rw [or_comm, and_comm]
    · rw [hp, ht, Function.update_self]
      by_cases hj : j = i
      · subst hj
        simp [hg.pending]
      · simp [hj]
    · intro hu
      show _ ∧ _
      rw [show q.slots = p.slots from hs, used_of_handle hi] at hu
      cases hu

end

/-! ### The tick -/

/-- What a tick does to the timers: a timer whose deadline has been reached is pending, the others are as they were. -/
structure Ticked (now : Word) (p q : TimerPool α) : Prop where
  slots : q.slots = p.slots
  data : ∀ j, (q.timers j).type = (p.timers j).type ∧ (q.timers j).callback = (p.timers j).callback ∧
    (q.timers j).interval = (p.timers j).interval
  pending : ∀ j, (p.timers j).pending = true → (q.timers j).pending = true
  other : ∀ j, q.timers j = p.timers j ∨
    (p.timers j).active = true ∧ tickReached now (p.timers j).deadline = true ∧ (q.timers j).pending = true

theorem Ticked.refl (now : Word) (p : TimerPool α) : Ticked now p p :=
  ⟨rfl, fun _ => ⟨rfl, rfl, rfl⟩, fun _ h => h, fun _ => .inl rfl⟩

theorem Ticked.trans {now : Word} {r : TimerPool α} (h : Ticked now p q) (h' : Ticked now q r) : Ticked now p r where
  slots := h'.slots.trans h.slots
  data j := ⟨(h'.data j).1.trans (h.data j).1, (h'.data j).2.1.trans (h.data j).2.1, (h'.data j).2.2.trans (h.data j).2.2⟩
  pending j hj := h'.pending j (h.pending j hj)
  other j := by
    rcases h.other j with e | ⟨ha, hr, hp⟩
    · rw [← e]
      exact h'.other j
    · exact .inr ⟨ha, hr, h'.pending j hp⟩

/-- What `expire` makes of the timer. -/
def expired (now : Word) (t : Timer α) : Timer α :=
  match t.type with
  | .periodic => { t with deadline := t.deadline + ((now - t.deadline) / t.interval + 1) * t.interval, pending := true }
  | .oneshot => { t with active := false, pending := true }

theorem expire_timers (p : TimerPool α) (now : Word) (i : ℕ) :
    (p.expire now i).timers = Function.update p.timers i (expired now (p.timers i)) := by
  unfold expire expired
  rcases hp : (p.timers i).pending <;> cases ht : (p.timers i).type <;> simp [setTimer, activeInsert, hp, ht]

theorem expire_slots (p : TimerPool α) (now : Word) (i : ℕ) : (p.expire now i).slots = p.slots := by
  unfold expire
  rcases hp : (p.timers i).pending <;> cases ht : (p.timers i).type <;> simp [hp, ht]

theorem expire_pendingTimers (p : TimerPool α) (now : Word) (i : ℕ) : (p.expire now i).pendingTimers =
    if (p.timers i).pending then p.pendingTimers else p.pendingTimers ++ [i] := by
  unfold expire
  rcases hp : (p.timers i).pending <;> cases ht : (p.timers i).type <;> simp [hp, ht]

/-- A periodic timer goes back into the list of those that are active. -/
theorem expire_activeTimers_periodic (now : Word) (h : (p.timers i).type = .periodic) :
    ∃ l, (p.expire now i).activeTimers = insertBefore l i (p.activeTimers.erase i) := by
  unfold expire
  rcases hp : (p.timers i).pending <;> simp only [h, hp] <;> exact ⟨_, rfl⟩

theorem expire_activeTimers_oneshot (now : Word) (h : (p.timers i).type = .oneshot) :
    (p.expire now i).activeTimers = p.activeTimers.erase i := by
  unfold expire
  rcases hp : (p.timers i).pending <;> simp [h, hp]

theorem ticked_expire {now : Word} (ha : (p.timers i).active = true) (hr : tickReached now (p.timers i).deadline = true) :
    Ticked now p (p.expire now i) := by
  have hexp : ∀ t : Timer α, (expired now t).type = t.type ∧ (expired now t).callback = t.callback ∧
      (expired now t).interval = t.interval ∧ (expired now t).pending = true := by
    intro t
    unfold expired
    split <;> simp_all
  refine ⟨expire_slots p now i, fun j => ?_, fun j hj => ?_, fun j => ?_⟩ <;> rw [expire_timers] <;> by_cases hji : j = i
  · subst hji
    simp [hexp]
  · simp [hji]
  · subst hji
    simp [hexp]
  · simpa [hji] using hj
  · subst hji
    exact .inr ⟨ha, hr, by simp [hexp]⟩
  · exact .inl (by simp [hji])

theorem Good.expire (hg : Good p) (now : Word) (ha : (p.timers i).active = true) : Good (p.expire now i) := by
  have hmem := (hg.active i).mpr ha
  have hpend := expire_pendingTimers p now i
  have hni : i ∉ p.activeTimers.erase i := hg.activeNodup.not_mem_erase
  have hself : (p.expire now i).timers i = expired now (p.timers i) := by rw [expire_timers, Function.update_self]
  have hp' : ((p.expire now i).timers i).pending = true := by
    rw [hself]
    unfold expired
    split <;> rfl
  refine hg.change i (fun j hj => ⟨by rw [expire_timers, Function.update_of_ne hj], by rw [expire_slots]⟩)
    (fun j => ?_) (fun j => ?_) ?_ ?_ fun hu => ?_
  · rw [hself]
    unfold expired
    cases ht : (p.timers i).type with
    | periodic =>
      obtain ⟨l, e⟩ := expire_activeTimers_periodic now ht
      simp only [e, mem_insertBefore, hg.activeNodup.mem_erase_iff, ha, and_true]
      rw [or_comm, and_comm]
    | oneshot => simp [expire_activeTimers_oneshot now ht, hg.activeNodup.mem_erase_iff, and_comm]
  · rw [hpend, hp']
    by_cases hj : j = i
    · subst hj
      split
      · rename_i hpj
        simp [(hg.pending j).mpr hpj]
      · simp
    · split <;> simp [hj]
  · cases ht : (p.timers i).type with
    | periodic =>
      obtain ⟨l, e⟩ := expire_activeTimers_periodic now ht
      rw [e]
      exact nodup_insertBefore.mpr ⟨hni, hg.activeNodup.erase i⟩
    | oneshot =>
      rw [expire_activeTimers_oneshot now ht]
      exact hg.activeNodup.erase i
  · rw [hpend]
    split
    · exact hg.pendingNodup
    · rename_i hnp
      refine List.nodup_append.mpr ⟨hg.pendingNodup, List.nodup_singleton i, fun a haa b hb => ?_⟩
      rw [List.mem_singleton] at hb
      rintro rfl
      exact hnp ((hg.pending _).mp (hb ▸ haa))
  · rw [expire_slots, hg.activeUsed i ha] at hu
    cases hu

theorem ticked_tickLoop (hg : Good p) (now : Word) (n : ℕ) : Good (tickLoop now n p) ∧ Ticked now p (tickLoop now n p) := by
  induction n generalizing p with
  | zero => exact ⟨hg, .refl now p⟩
  | succ n ih =>
    rw [tickLoop]
    split
    · exact ⟨hg, .refl now p⟩
    · rename_i i rest hl
      split
      · rename_i hr
        have ha : (p.timers i).active = true := (hg.active i).mp (hl ▸ List.mem_cons_self ..)
        obtain ⟨hg', ht⟩ := ih (hg.expire now ha)
        exact ⟨hg', (ticked_expire ha hr).trans ht⟩
      · exact ⟨hg, .refl now p⟩

theorem Good.timerTick (hg : Good p) (now : Word) : Good (p.timerTick now) := (ticked_tickLoop hg now _).1

theorem Good.ticked (hg : Good p) (now : Word) : Ticked now p (p.timerTick now) := (ticked_tickLoop hg now _).2

/-! ### The dispatcher -/

theorem Good.dispatchTake_eq (hg : Good p) {f : Option α} (h : p.dispatchTake = some (q, f)) : ∃ i rest,
    p.pendingTimers = i :: rest ∧ (p.timers i).pending = true ∧ f = (p.timers i).callback ∧ q.slots = p.slots ∧
      q.timers = Function.update p.timers i { p.timers i with pending := false } ∧
      q.activeTimers = p.activeTimers ∧ q.pendingTimers = rest := by
  unfold dispatchTake at h
  split at h
  · cases h
  · rename_i i rest hl
    cases h
    exact ⟨i, rest, hl, (hg.pending i).mp (hl ▸ List.mem_cons_self ..), rfl, rfl, rfl, rfl, rfl⟩

theorem Good.dispatchTake (hg : Good p) {f : Option α} (h : p.dispatchTake = some (q, f)) : Good q := by
  obtain ⟨i, rest, hl, hp, -, hs, ht, ha, hr⟩ := hg.dispatchTake_eq h
  have hn := hg.pendingNodup
  rw [hl, List.nodup_cons] at hn
  refine hg.change i (fun j hj => ⟨by rw [ht, Function.update_of_ne hj], by rw [hs]⟩) (fun j => ?_) (fun j => ?_)
    (by rw [ha]; exact hg.activeNodup) (by rw [hr]; exact hn.2) fun hu => ?_
  · rw [ha, ht, Function.update_self]
    by_cases hj : j = i
    · subst hj
      simp [hg.active]
    · simp [hj]
  · rw [hr, ht, Function.update_self, hl]
    by_cases hj : j = i
    · subst hj
      simp [hn.1]
    · simp [hj]
  · rw [hs, hg.pendingUsed i hp] at hu
    cases hu

end TimerPool

end Aixos
