import Aixos.Core.Waits
import Aixos.Kernel.TimeWheel
import Aixos.Library.Alarms
import Aixos.Library.Transition

/-!
# When the timing wheel is on time

A task that is put in the first level of the wheel is woken one tick late; one that is put in the second level is
on time if the cascade moves it to the first. The wheel is compared with the alarms of `Library.Alarms`, which ring at
the tick they are set for.

* `home` — the slot in which a task belongs.
* `OnTime` — a task is inserted so far ahead that it is put where it belongs.
* `Timed.Keeps` — every slot has the tasks that belong there, in the order in which they were inserted.
* `Timed.onTime_of_path` — in runs that insert so, the wheel rings the alarms.
-/

namespace Aixos

open Transition

variable [cfg : Config]

namespace Timed

variable {s s' : Timed} {t : TaskId} {ts : List TaskId} {now slot highSlot : Word} {c c' : Core} {W : TaskId → Word} {n : ℕ}

/-! ### The loops -/

/-- What a loop over some tasks does to the core: it wakes those whose time has come. -/
structure Rung (now : Word) (ts : List TaskId) (c c' : Core) : Prop where
  totalTicks : c'.totalTicks = c.totalTicks
  wakeTick : ∀ u, (c'.tasks u).wakeTick = (c.tasks u).wakeTick
  other : ∀ u, u ∉ ts ∨ tickReached now (c.tasks u).wakeTick = false →
    (c'.tasks u).state = (c.tasks u).state ∧ (c'.tasks u).waitResult = (c.tasks u).waitResult
  ready : ∀ u ∈ ts, tickReached now (c.tasks u).wakeTick = true →
    (c'.tasks u).state = .ready ∧
      (c'.tasks u).waitResult = if (c.tasks u).state = .delayed then Code.ok else Code.timeout

namespace Rung

omit cfg in
theorem nil (now : Word) (c : Core) : Rung now [] c c :=
  ⟨rfl, fun _ => rfl, fun _ _ => ⟨rfl, rfl⟩, fun _ h => nomatch h⟩

/-- The first task is woken. -/
theorem cons_due (hn : t ∉ ts) (hw : Waiting c t) (hd : tickReached now (c.tasks t).wakeTick = true)
    (h : Rung now ts (c.taskWake t (if (c.tasks t).state = .delayed then Code.ok else Code.timeout)) c') :
    Rung now (t :: ts) c c' := by
  have hwoken := Core.taskWake_wokenUp hw (if (c.tasks t).state = .delayed then Code.ok else Code.timeout)
  refine ⟨h.totalTicks.trans hwoken.totalTicks, fun u => (h.wakeTick u).trans (hwoken.wakeTick u), fun u hu => ?_,
    fun u hu hdu => ?_⟩
  · have hut : u ≠ t := by
      rintro rfl
      rcases hu with hu | hu
      · exact hu (List.mem_cons_self ..)
      · rw [hd] at hu
        cases hu
    obtain ⟨h₁, h₂⟩ := hwoken.other u hut
    obtain ⟨h₃, h₄⟩ := h.other u (hu.imp (fun hu hm => hu (List.mem_cons_of_mem _ hm)) fun hu => by rwa [hwoken.wakeTick])
    exact ⟨h₃.trans h₁, h₄.trans h₂⟩
  · by_cases hut : u = t
    · subst hut
      obtain ⟨h₁, h₂⟩ := h.other u (.inl hn)
      exact ⟨h₁.trans hwoken.self.1, h₂.trans hwoken.self.2⟩
    · have hm : u ∈ ts := (List.mem_cons.mp hu).resolve_left hut
      rw [← (hwoken.other u hut).1]
      exact h.ready u hm (by rwa [hwoken.wakeTick])

omit cfg in
/-- The first task is left. -/
theorem cons_not (hd : tickReached now (c.tasks t).wakeTick = false) (h : Rung now ts c c') : Rung now (t :: ts) c c' := by
  refine ⟨h.totalTicks, h.wakeTick, fun u hu => h.other u ?_, fun u hu hdu => h.ready u ?_ hdu⟩
  · exact hu.imp_left fun hu hm => hu (List.mem_cons_of_mem _ hm)
  · refine (List.mem_cons.mp hu).resolve_left ?_
    rintro rfl
    rw [hd] at hdu
    cases hdu

end Rung

/-- The slot of the first level is emptied, if all its tasks are due. -/
theorem expireLoop_eq (now slot : Word) (hn : ts.Nodup) (hw : ∀ t ∈ ts, Waiting s.core t)
    (hd : ∀ t ∈ ts, tickReached now (s.core.tasks t).wakeTick = true) (hl : s.wheel.level1 slot = ts) :
    ∃ c, expireLoop now slot s ts =
        { core := c, wheel := { s.wheel with level1 := Function.update s.wheel.level1 slot [] } } ∧
      Rung now ts s.core c := by
  induction ts generalizing s with
  | nil =>
    refine ⟨s.core, ?_, .nil now s.core⟩
    rw [Function.update_eq_self_iff.mpr hl.symm]
    rfl
  | cons t ts ih =>
    rw [List.nodup_cons] at hn
    have hwt := hw t (List.mem_cons_self ..)
    have hdt := hd t (List.mem_cons_self ..)
    have hwoken := Core.taskWake_wokenUp hwt (if (s.core.tasks t).state = .delayed then Code.ok else Code.timeout)
    set s₁ : Timed := { s with wheel := s.wheel.del1 slot t }.wakeDue t with hs₁
    have hw₁ : ∀ u ∈ ts, Waiting s₁.core u := by
      intro u hu
      have hut : u ≠ t := fun e => hn.1 (e ▸ hu)
      unfold Waiting
      rw [hs₁, wakeDue, (hwoken.other u hut).1]
      exact hw u (List.mem_cons_of_mem _ hu)
    have hd₁ : ∀ u ∈ ts, tickReached now (s₁.core.tasks u).wakeTick = true := by
      intro u hu
      rw [hs₁, wakeDue, hwoken.wakeTick u]
      exact hd u (List.mem_cons_of_mem _ hu)
    obtain ⟨c, hc, hr⟩ := ih hn.2 hw₁ hd₁ (by simp [hs₁, wakeDue, TimeWheel.del1, hl])
    refine ⟨c, ?_, .cons_due hn.1 hwt hdt hr⟩
    rw [expireLoop, if_pos hdt, hc]
    simp [hs₁, wakeDue, TimeWheel.del1]

omit cfg in
theorem nodeAfter_head (t : TaskId) (ts : List TaskId) : nodeAfter (t :: ts) t = ts.head? := by
  simp [nodeAfter]

/-- The slot of the second level is emptied into the first, if all its tasks are due or near. -/
theorem cascadeLoop_eq (now highSlot : Word) (hlen : ts.length ≤ n) (hn : ts.Nodup) (hW : ∀ t, (s.core.tasks t).wakeTick = W t)
    (hw : ∀ t ∈ ts, Waiting s.core t) (hd : ∀ t ∈ ts, tickReached now (W t) = true ∨ W t - now < twSize1)
    (hl : s.wheel.level2 highSlot = ts) :
    ∃ c, cascadeLoop now highSlot n s ts.head? = some
        { core := c
          wheel := { s.wheel with
            level1 := fun i => s.wheel.level1 i ++ ts.filter fun t =>
              tickReached now (W t) = false ∧ (s.wheel.currentTickLow + (W t - now) - 1) % twSize1 = i
            level2 := Function.update s.wheel.level2 highSlot [] } } ∧
      Rung now ts s.core c := by
  induction ts generalizing s n with
  | nil =>
    refine ⟨s.core, ?_, .nil now s.core⟩
    rw [Function.update_eq_self_iff.mpr hl.symm]
    cases n <;> simp [cascadeLoop]
  | cons t ts ih =>
    obtain ⟨n, rfl⟩ := Nat.exists_eq_add_one_of_ne_zero (Nat.ne_of_gt (Nat.lt_of_lt_of_le (Nat.succ_pos _) hlen))
    rw [List.nodup_cons] at hn
    rw [List.length_cons, Nat.add_le_add_iff_right] at hlen
    rw [List.head?_cons, cascadeLoop, hl, nodeAfter_head]
    unfold cascadeTask
    dsimp only
    rw [hW]
    by_cases hdt : tickReached now (W t) = true
    · have hwt := hw t (List.mem_cons_self ..)
      have hwoken := Core.taskWake_wokenUp hwt (if (s.core.tasks t).state = .delayed then Code.ok else Code.timeout)
      set s₁ : Timed := { s with wheel := s.wheel.del2 highSlot t }.wakeDue t with hs₁
      have hw₁ : ∀ u ∈ ts, Waiting s₁.core u := by
        intro u hu
        have hut : u ≠ t := fun e => hn.1 (e ▸ hu)
        unfold Waiting
        rw [hs₁, wakeDue, (hwoken.other u hut).1]
        exact hw u (List.mem_cons_of_mem _ hu)
      obtain ⟨c, hc, hr⟩ := ih hlen hn.2 (fun u => (hwoken.wakeTick u).trans (hW u)) hw₁
        (fun u hu => hd u (List.mem_cons_of_mem _ hu)) (by simp [hs₁, wakeDue, TimeWheel.del2, hl])
      refine ⟨c, ?_, .cons_due hn.1 hwt (by rwa [hW]) hr⟩
      rw [if_pos hdt, hc]
      simp only [hs₁, wakeDue, TimeWheel.del2, Function.update_idem]
      congr 3
      funext i
      rw [List.filter_cons_of_neg (by simp [hdt])]
    · have hdt' : tickReached now (W t) = false := by simpa using hdt
      have hnear := (hd t (List.mem_cons_self ..)).resolve_left hdt
      rw [if_neg hdt, if_pos hnear]
      set newSlot := (s.wheel.currentTickLow + (W t - now) - 1) % twSize1 with hnew
      obtain ⟨c, hc, hr⟩ := ih (s := { s with wheel := (s.wheel.del2 highSlot t).addTail1 newSlot t }) hlen hn.2 hW
        (fun u hu => hw u (List.mem_cons_of_mem _ hu)) (fun u hu => hd u (List.mem_cons_of_mem _ hu))
        (by simp [TimeWheel.addTail1, TimeWheel.del2, hl])
      refine ⟨c, ?_, .cons_not (by rwa [hW]) hr⟩
      refine hc.trans (congrArg some ?_)
      simp only [TimeWheel.addTail1, TimeWheel.del2, Function.update_idem]
      congr 2
      funext i
      rw [Function.update_apply]
      by_cases hi : i = newSlot
      · have hkeep : tickReached now (W t) = false ∧ (s.wheel.currentTickLow + (W t - now) - 1) % twSize1 = i :=
          ⟨hdt', hnew.symm.trans hi.symm⟩
        rw [if_pos hi, List.filter_cons_of_pos (by rwa [decide_eq_true_iff]), List.append_assoc, hi]
        rfl
      · have hskip : ¬ (tickReached now (W t) = false ∧ (s.wheel.currentTickLow + (W t - now) - 1) % twSize1 = i) :=
          fun h => hi (h.2.symm.trans hnew.symm)
        rw [if_neg hi, List.filter_cons_of_neg (by rwa [decide_eq_true_iff])]
        rfl

/-! ### Where a task belongs -/

end Timed

/-- The tick at which a task is to be woken, from the last turn of the first level on. -/
def fromTurn (now wakeTick : Word) : ℕ := now.toNat % 64 + (wakeTick - now).toNat

/-- The slot in which a task belongs: of the first level if it is to be woken before that turns again, else of the
second. -/
def home (now wakeTick : Word) : Bool × Word :=
  if fromTurn now wakeTick < 64 then (false, .ofNat 32 (fromTurn now wakeTick - 1))
  else (true, .ofNat 32 ((now.toNat / 64 + fromTurn now wakeTick / 64 - 1) % 64))

section Home

variable {now w : Word}

omit cfg in
theorem ofNat_inj {a b : ℕ} (ha : a < 2 ^ 32) (hb : b < 2 ^ 32) : BitVec.ofNat 32 a = BitVec.ofNat 32 b ↔ a = b := by
  rw [← BitVec.toNat_inj, BitVec.toNat_ofNat, BitVec.toNat_ofNat, Nat.mod_eq_of_lt ha, Nat.mod_eq_of_lt hb]

omit cfg in
theorem toNat_sub_eq_one : (w - now).toNat = 1 ↔ w = now + 1 := by
  constructor
  · intro h
    bv_omega
  · rintro rfl
    bv_omega

omit cfg in
theorem toNat_add_one (now : Word) : (now + 1).toNat = (now.toNat + 1) % 2 ^ 32 := by
  rw [BitVec.toNat_add]
  rfl

omit cfg in
theorem toNat_sub_add_one (hw : w ≠ now) : (w - (now + 1)).toNat = (w - now).toNat - 1 := by
  have : w.toNat ≠ now.toNat := fun e => hw (BitVec.eq_of_toNat_eq e)
  bv_omega

omit cfg in
/-- The slot of the first level that is looked at when the clock ticks. -/
theorem home_eq_low_iff (h : w ≠ now) :
    home now w = (false, .ofNat 32 (now.toNat % 64)) ↔ w = now + 1 ∧ now.toNat % 64 < 63 := by
  have h₀ : (w - now).toNat ≠ 0 := by
    intro e
    have : w.toNat ≠ now.toNat := fun e => h (BitVec.eq_of_toNat_eq e)
    bv_omega
  rw [← toNat_sub_eq_one, home]
  split
  · rename_i hs
    rw [Prod.mk.injEq, ofNat_inj (by omega) (by omega), eq_self, true_and]
    unfold fromTurn at hs ⊢
    omega
  · rename_i hs
    unfold fromTurn at hs
    simp only [Prod.mk.injEq, Bool.true_eq_false, false_and, false_iff]
    omega

omit cfg in
/-- The slot of the second level that is looked at when the first turns. -/
theorem home_eq_high_iff (hs : fromTurn now w < 4160) :
    home now w = (true, .ofNat 32 (now.toNat / 64 % 64)) ↔ 64 ≤ fromTurn now w ∧ fromTurn now w < 128 := by
  rw [home]
  split
  · rename_i hs
    simp only [Prod.mk.injEq, Bool.false_eq_true, false_and, false_iff]
    omega
  · rw [Prod.mk.injEq, ofNat_inj (by omega) (by omega), eq_self, true_and]
    omega

omit cfg in
theorem home_fst (now w : Word) : (home now w).1 = true ↔ 64 ≤ fromTurn now w := by
  rw [home]
  split <;> simp <;> omega

omit cfg in
theorem le_fromTurn (h : w ≠ now) (hlow : now.toNat % 64 = 63) : 64 ≤ fromTurn now w := by
  have : w.toNat ≠ now.toNat := fun e => h (BitVec.eq_of_toNat_eq e)
  unfold fromTurn
  bv_omega

omit cfg in
/-- As long as the first level does not turn, a task stays where it belongs. -/
theorem home_tick (h : w ≠ now) (hlow : now.toNat % 64 < 63) :
    home (now + 1) w = home now w ∧ fromTurn (now + 1) w = fromTurn now w := by
  have h₀ : (w - now).toNat ≠ 0 := by
    intro e
    have : w.toNat ≠ now.toNat := fun e => h (BitVec.eq_of_toNat_eq e)
    bv_omega
  have hfrom : fromTurn (now + 1) w = fromTurn now w := by
    rw [fromTurn, toNat_sub_add_one h, toNat_add_one, fromTurn]
    omega
  refine ⟨?_, hfrom⟩
  have hdiv : (now.toNat + 1) % 2 ^ 32 / 64 = now.toNat / 64 := by omega
  rw [home, hfrom, toNat_add_one, hdiv, home]

omit cfg in
/-- When the first level turns, a task of the second stays where it belongs, if that is not the slot that is
emptied. -/
theorem home_turn (h : w ≠ now) (hlow : now.toNat % 64 = 63) (hs : 128 ≤ fromTurn now w) :
    home (now + 1) w = home now w ∧ fromTurn (now + 1) w = fromTurn now w - 64 := by
  have h₀ : (w - now).toNat ≠ 0 := by
    intro e
    have : w.toNat ≠ now.toNat := fun e => h (BitVec.eq_of_toNat_eq e)
    bv_omega
  have hfrom : fromTurn (now + 1) w = fromTurn now w - 64 := by
    unfold fromTurn
    rw [toNat_sub_add_one h, toNat_add_one]
    omega
  refine ⟨?_, hfrom⟩
  rw [home, hfrom, toNat_add_one, home, if_neg (by omega), if_neg (by omega)]
  congr 2
  omega

omit cfg in
theorem fromTurn_tick_le (h : w ≠ now) : fromTurn (now + 1) w ≤ fromTurn now w := by
  have hne : w.toNat ≠ now.toNat := fun e => h (BitVec.eq_of_toNat_eq e)
  unfold fromTurn
  rw [toNat_sub_add_one h, toNat_add_one]
  bv_omega

omit cfg in
/-- A task that is not far ahead is due exactly at its tick. -/
theorem tickReached_succ_iff (h : w ≠ now) (hs : fromTurn now w < 4160) : tickReached (now + 1) w = true ↔ w = now + 1 := by
  have hne : w.toNat ≠ now.toNat := fun e => h (BitVec.eq_of_toNat_eq e)
  unfold fromTurn at hs
  unfold tickReached
  rw [BitVec.msb_eq_decide, Bool.not_eq_true', decide_eq_false_iff_not]
  constructor
  · intro hlt
    bv_omega
  · rintro rfl
    simp

omit cfg in
/-- Where the cascade puts a task. -/
theorem home_cascade (h : w ≠ now) (hw : w ≠ now + 1) (hlow : now.toNat % 64 = 63) (hs : fromTurn now w < 128) :
    home (now + 1) w = (false, (0 + (w - (now + 1)) - 1) % twSize1) ∧ w - (now + 1) < twSize1 ∧
      fromTurn (now + 1) w < 64 := by
  have h₀ : (w - now).toNat ≠ 0 := by
    intro e
    have : w.toNat ≠ now.toNat := fun e => h (BitVec.eq_of_toNat_eq e)
    bv_omega
  have h₁ : (w - now).toNat ≠ 1 := fun e => hw (toNat_sub_eq_one.mp e)
  have hsub := toNat_sub_add_one h
  have hmod : (now + 1).toNat % 64 = 0 := by
    rw [toNat_add_one]
    omega
  have hfrom : fromTurn (now + 1) w = (w - now).toNat - 1 := by
    rw [fromTurn, hsub, hmod, Nat.zero_add]
  unfold fromTurn at hs
  have hlt : fromTurn (now + 1) w < 64 := by omega
  refine ⟨?_, ?_, hlt⟩
  · rw [home, if_pos hlt, hfrom]
    congr 1
    have hr : 1 ≤ (w - (now + 1)).toNat ∧ (w - (now + 1)).toNat < 64 := by omega
    rw [← hsub]
    generalize w - (now + 1) = r at hr
    apply BitVec.eq_of_toNat_eq
    rw [BitVec.toNat_umod, BitVec.toNat_sub, BitVec.toNat_add, BitVec.toNat_ofNat]
    show (r.toNat - 1) % 2 ^ 32 = (2 ^ 32 - 1 + (0 + r.toNat) % 2 ^ 32) % 2 ^ 32 % 64
    omega
  · rw [BitVec.lt_def, hsub]
    show _ < 64
    omega

end Home

namespace Timed

/-- A task is inserted so far ahead that it is put in the second level, and before that level has come round. The
last condition says that the ticks by which the two exceed a turn of the first level do not make up a turn
together. -/
def OnTime (s : Timed) : Act → Prop
  | .insert t =>
    let now := s.core.getTick
    let ahead := (s.core.tasks t).wakeTick - now
    64 ≤ ahead.toNat ∧ ahead.toNat < 4160 ∧ now.toNat % 64 + ahead.toNat % 64 < 64
  | _ => True

instance (s : Timed) : (a : Act) → Decidable (OnTime s a)
  | .insert _ => inferInstanceAs (Decidable (_ ∧ _ ∧ _))
  | .kernel .. => isTrue trivial
  | .tick => isTrue trivial

omit cfg in
/-- A task that is inserted in time is put where it belongs. -/
theorem insert_home {wheel : TimeWheel} {w : Word} (hhigh : wheel.currentTickHigh = .ofNat 32 (now.toNat / 64 % 64))
    (h₁ : 64 ≤ (w - now).toNat) (h₂ : (w - now).toNat < 4160) (h₃ : now.toNat % 64 + (w - now).toNat % 64 < 64) :
    wheel.insert now t w = wheel.addTail2 (home now w).2 t ∧ (home now w).1 = true ∧ fromTurn now w < 4160 := by
  have hfrom : 64 ≤ fromTurn now w ∧ fromTurn now w / 64 = (w - now).toNat / 64 ∧ fromTurn now w < 4160 := by
    unfold fromTurn
    omega
  have hh : wheel.currentTickHigh.toNat = now.toNat / 64 % 64 := by
    rw [hhigh, BitVec.toNat_ofNat]
    omega
  have hhome : home now w = (true, .ofNat 32 ((now.toNat / 64 + fromTurn now w / 64 - 1) % 64)) := by
    rw [home, if_neg (by omega)]
  refine ⟨?_, by rw [hhome], hfrom.2.2⟩
  rw [hhome, hfrom.2.1, TimeWheel.insert]
  dsimp only
  generalize w - now = d at *
  have hsize : (twSize1 * twSize2).toNat = 4096 := by decide
  rw [if_neg (by rw [BitVec.lt_def]; show ¬ _ < 64; omega)]
  split
  · rename_i hlt
    rw [BitVec.lt_def, hsize] at hlt
    congr 1
    apply BitVec.eq_of_toNat_eq
    rw [BitVec.toNat_umod, BitVec.toNat_add, BitVec.toNat_umod, BitVec.toNat_ushiftRight, BitVec.toNat_sub, hh,
      BitVec.toNat_ofNat, Nat.shiftRight_eq_div_pow]
    show (now.toNat / 64 % 64 + (2 ^ 32 - 64 + d.toNat) % 2 ^ 32 / 2 ^ 6 % 64) % 2 ^ 32 % 64 = _
    omega
  · rename_i hlt
    rw [BitVec.lt_def, hsize] at hlt
    congr 1
    apply BitVec.eq_of_toNat_eq
    rw [BitVec.toNat_umod, BitVec.toNat_sub, BitVec.toNat_add, hh, BitVec.toNat_ofNat]
    show (2 ^ 32 - 1 + (now.toNat / 64 % 64 + 64) % 2 ^ 32) % 2 ^ 32 % 64 = _
    omega

/-! ### The wheel and the alarms -/

/-- What is seen of the wheel: tasks begin to wait, their waits end otherwise, and the tasks of the wheel that are
ready after a tick have been woken by it. -/
def obs (s : Timed) : Act → List (Alarms.Event TaskId Word)
  | .kernel _ detached => detached.map .clear
  | .insert t => [.set t (s.core.tasks t).wakeTick]
  | .tick =>
    match s.step .tick with
    | none => []
    | some s' => [.tick (s.wheel.members.filter fun t => (s'.core.tasks t).state = .ready)]

/-- Every slot of the wheel has the tasks of a list that belong there, in the order of the list. -/
structure Sorted (wheel : TimeWheel) (now : Word) (P : List (TaskId × Word)) : Prop where
  level1 : ∀ i, wheel.level1 i = (P.filter fun p => home now p.2 = (false, i)).map Prod.fst
  level2 : ∀ i, wheel.level2 i = (P.filter fun p => home now p.2 = (true, i)).map Prod.fst

/-- The wheel has the tasks with an alarm where they belong. -/
structure Keeps (s : Timed) (A : Alarms TaskId Word) : Prop where
  now : s.core.getTick = A.now
  low : s.wheel.currentTickLow = .ofNat 32 (A.now.toNat % 64)
  high : s.wheel.currentTickHigh = .ofNat 32 (A.now.toNat / 64 % 64)
  nodup : A.armed.Nodup
  task : ∀ p ∈ A.pending, (s.core.tasks p.1).wakeTick = p.2 ∧ Waiting s.core p.1
  near : ∀ p ∈ A.pending, p.2 ≠ A.now ∧ fromTurn A.now p.2 < 4160
  sorted : Sorted s.wheel A.now A.pending

omit cfg in
theorem keeps_init : Keeps init (.idle 0) where
  now := rfl
  low := rfl
  high := rfl
  nodup := List.nodup_nil
  task _ hp := nomatch hp
  near _ hp := nomatch hp
  sorted := ⟨fun _ => rfl, fun _ => rfl⟩

omit cfg in
theorem home_lt (now w : Word) (hs : fromTurn now w < 4160) : ∃ k < 64, (home now w).2 = .ofNat 32 k := by
  unfold home
  split
  · exact ⟨_, by omega, rfl⟩
  · exact ⟨_, Nat.mod_lt _ (by decide), rfl⟩

variable {A A' : Alarms TaskId Word}

omit cfg in
/-- The tasks in the slots are those of the list. -/
theorem Sorted.mem_members {wheel : TimeWheel} {P : List (TaskId × Word)} (h : Sorted wheel now P)
    (hs : ∀ p ∈ P, fromTurn now p.2 < 4160) : t ∈ wheel.members ↔ ∃ p ∈ P, p.1 = t := by
  unfold TimeWheel.members
  simp only [List.mem_flatMap, List.mem_range, List.mem_append, h.level1, h.level2, List.mem_map, List.mem_filter,
    decide_eq_true_eq]
  constructor
  · rintro ⟨i, -, ⟨p, hp, rfl⟩ | ⟨p, hp, rfl⟩⟩
    · exact ⟨p, hp.1, rfl⟩
    · exact ⟨p, hp.1, rfl⟩
  · rintro ⟨p, hp, rfl⟩
    obtain ⟨k, hk, hhome⟩ := home_lt now p.2 (hs p hp)
    cases hb : (home now p.2).1 with
    | false => exact ⟨k, hk, .inl ⟨p, ⟨hp, Prod.ext hb hhome⟩, rfl⟩⟩
    | true => exact ⟨k, hk, .inr ⟨p, ⟨hp, Prod.ext hb hhome⟩, rfl⟩⟩

omit cfg in
theorem Keeps.mem_members (h : Keeps s A) : t ∈ s.wheel.members ↔ t ∈ A.armed := by
  rw [h.sorted.mem_members fun p hp => (h.near p hp).2, Alarms.armed, List.mem_map]

omit cfg in
/-- Clearing some alarms. -/
theorem run_clear (A : Alarms TaskId Word) (ts : List TaskId) :
    run Alarms.next A (ts.map .clear) = some { A with pending := A.pending.filter fun p => p.1 ∉ ts } := by
  induction ts generalizing A with
  | nil => simp [run]
  | cons t ts ih =>
    rw [List.map_cons, run, Alarms.next, Option.bind_some, ih, List.filter_filter]
    simp [List.mem_cons, Bool.and_comm]

omit cfg in
theorem filter_map_fst (P : List (TaskId × Word)) (q : TaskId × Word → Bool) (r : TaskId → Bool) :
    ((P.filter q).map Prod.fst).filter r = ((P.filter fun p => r p.1).filter q).map Prod.fst := by
  rw [List.filter_map, List.filter_filter, List.filter_filter]
  simp [Bool.and_comm]

omit cfg in
theorem Sorted.remove {wheel : TimeWheel} {P : List (TaskId × Word)} (h : Sorted wheel now P) (ts : List TaskId) :
    Sorted (wheel.remove ts) now (P.filter fun p => p.1 ∉ ts) where
  level1 i := by
    show (wheel.level1 i).filter _ = _
    rw [h.level1]
    exact filter_map_fst P _ _
  level2 i := by
    show (wheel.level2 i).filter _ = _
    rw [h.level2]
    exact filter_map_fst P _ _

omit cfg in
/-- What the kernel does besides keeps the slots. -/
theorem Keeps.kernel (h : Keeps s A) {detached : List TaskId} (hc : c.totalTicks = s.core.totalTicks)
    (ht : ∀ t ∈ (s.wheel.remove detached).members,
      (c.tasks t).state = (s.core.tasks t).state ∧ (c.tasks t).wakeTick = (s.core.tasks t).wakeTick) :
    Keeps { core := c, wheel := s.wheel.remove detached }
      { A with pending := A.pending.filter fun p => p.1 ∉ detached } where
  now := by
    rw [← h.now, Core.getTick, Core.getTick, hc]
  low := h.low
  high := h.high
  nodup := h.nodup.sublist (List.filter_sublist.map _)
  task p hp := by
    have hmem := (h.sorted.remove detached).mem_members (t := p.1) fun p hp => (h.near p (List.mem_of_mem_filter hp)).2
    obtain ⟨h₁, h₂⟩ := ht p.1 (hmem.mpr ⟨p, hp, rfl⟩)
    obtain ⟨h₃, h₄⟩ := h.task p (List.mem_of_mem_filter hp)
    unfold Waiting at h₄ ⊢
    rw [h₁, h₂]
    exact ⟨h₃, h₄⟩
  near p hp := h.near p (List.mem_of_mem_filter hp)
  sorted := h.sorted.remove detached

omit cfg in
/-- A task that is inserted in time is put behind the others that belong in its slot. -/
theorem Keeps.insert (h : Keeps s A) (hw : Waiting s.core t) (hm : t ∉ s.wheel.members) (hc : OnTime s (.insert t)) :
    Keeps { s with wheel := s.wheel.insert s.core.getTick t (s.core.tasks t).wakeTick }
      { A with pending := A.pending ++ [(t, (s.core.tasks t).wakeTick)] } := by
  obtain ⟨h₁, h₂, h₃⟩ := hc
  rw [h.now] at h₁ h₂ h₃ ⊢
  obtain ⟨he, hb, hs⟩ := insert_home (t := t) h.high h₁ h₂ h₃
  rw [he]
  have hne : (s.core.tasks t).wakeTick ≠ A.now := by
    intro e
    rw [e] at h₁
    simp at h₁
  have harmed : t ∉ A.armed := by rwa [← h.mem_members]
  refine ⟨h.now, h.low, h.high, ?_, fun p hp => ?_, fun p hp => ?_, fun i => ?_, fun i => ?_⟩
  · rw [Alarms.armed, List.map_append, List.nodup_append]
    refine ⟨h.nodup, List.nodup_singleton _, ?_⟩
    rintro u hu v hv rfl
    rw [List.map_singleton, List.mem_singleton] at hv
    exact harmed ((show u = t from hv) ▸ hu)
  · rcases List.mem_append.mp hp with hp | hp
    · exact h.task p hp
    · rw [List.mem_singleton.mp hp]
      exact ⟨rfl, hw⟩
  · rcases List.mem_append.mp hp with hp | hp
    · exact h.near p hp
    · rw [List.mem_singleton.mp hp]
      exact ⟨hne, hs⟩
  · have hno : ¬ home A.now (s.core.tasks t).wakeTick = (false, i) := by
      intro e
      rw [e] at hb
      cases hb
    rw [List.filter_append, List.map_append, List.filter_cons_of_neg (by simpa using hno)]
    rw [List.filter_nil, List.map_nil, List.append_nil]
    exact h.sorted.level1 i
  · rw [List.filter_append, List.map_append, ← h.sorted.level2 i]
    show Function.update _ _ _ i = _
    rw [Function.update_apply]
    split
    · rename_i e
      have hin : home A.now (s.core.tasks t).wakeTick = (true, i) := Prod.ext hb e.symm
      rw [List.filter_cons_of_pos (by simpa using hin), e]
      rfl
    · rename_i e
      have hno : ¬ home A.now (s.core.tasks t).wakeTick = (true, i) := fun h => e (by rw [h])
      rw [List.filter_cons_of_neg (by simpa using hno)]
      simp

/-! ### The tick -/

/-- What a tick leaves: the alarms that have not rung. -/
def later (P : List (TaskId × Word)) (time : Word) : List (TaskId × Word) := P.filter fun p => p.2 ≠ time

section Filters

variable {P : List (TaskId × Word)} {Q R : TaskId × Word → Prop} [DecidablePred Q] [DecidablePred R]

omit cfg in
theorem map_filter_congr (h : ∀ p ∈ P, Q p ↔ R p) :
    (P.filter fun p => Q p).map Prod.fst = (P.filter fun p => R p).map Prod.fst :=
  congrArg _ (List.filter_congr fun p hp => decide_eq_decide.mpr (h p hp))

omit cfg in
theorem map_filter_nil (h : ∀ p ∈ P, ¬ Q p) : (P.filter fun p => Q p).map Prod.fst = [] :=
  List.map_eq_nil_iff.mpr (List.filter_eq_nil_iff.mpr fun p hp => by simpa using h p hp)

omit cfg in
theorem later_filter (P : List (TaskId × Word)) (time : Word) (Q : TaskId × Word → Prop) [DecidablePred Q] :
    ((later P time).filter fun p => Q p) = P.filter fun p => p.2 ≠ time ∧ Q p := by
  rw [later, List.filter_filter]
  refine List.filter_congr fun p _ => ?_
  rw [Bool.decide_and, Bool.and_comm]

end Filters

omit cfg in
/-- The tick does not turn the first level: its slot is emptied. -/
theorem Sorted.tick_low {wheel : TimeWheel} {P : List (TaskId × Word)} (h : Sorted wheel now P)
    (hn : ∀ p ∈ P, p.2 ≠ now) (hlow : now.toNat % 64 < 63) (k : Word) :
    Sorted { wheel with
        level1 := Function.update wheel.level1 (.ofNat 32 (now.toNat % 64)) [], currentTickLow := k }
      (now + 1) (later P (now + 1)) where
  level1 i := by
    dsimp only
    rw [later_filter, Function.update_apply]
    split
    · rename_i hi
      refine (map_filter_nil fun p hp hq => hq.1 ?_).symm
      rw [(home_tick (hn p hp) hlow).1, hi, home_eq_low_iff (hn p hp)] at hq
      exact hq.2.1
    · rename_i hi
      rw [h.level1]
      refine map_filter_congr fun p hp => ?_
      rw [(home_tick (hn p hp) hlow).1]
      refine (and_iff_right_of_imp fun hq hw => hi ?_).symm
      rw [(home_eq_low_iff (hn p hp)).mpr ⟨hw, hlow⟩] at hq
      exact (congrArg Prod.snd hq).symm
  level2 i := by
    dsimp only
    rw [later_filter, h.level2]
    refine map_filter_congr fun p hp => ?_
    rw [(home_tick (hn p hp) hlow).1]
    refine (and_iff_right_of_imp fun hq hw => ?_).symm
    rw [(home_eq_low_iff (hn p hp)).mpr ⟨hw, hlow⟩] at hq
    cases congrArg Prod.fst hq

omit cfg in
/-- The tick turns the first level: the slot of the second level is emptied into the first. -/
theorem Sorted.tick_turn {wheel : TimeWheel} {P : List (TaskId × Word)} (h : Sorted wheel now P)
    (hn : ∀ p ∈ P, p.2 ≠ now ∧ fromTurn now p.2 < 4160) (hlow : now.toNat % 64 = 63) {W : TaskId → Word}
    (hW : ∀ p ∈ P, W p.1 = p.2) (k : Word) :
    Sorted { wheel with
        level1 := fun i => wheel.level1 i ++ (wheel.level2 (.ofNat 32 (now.toNat / 64 % 64))).filter fun t =>
          tickReached (now + 1) (W t) = false ∧ (0 + (W t - (now + 1)) - 1) % twSize1 = i
        level2 := Function.update wheel.level2 (.ofNat 32 (now.toNat / 64 % 64)) [], currentTickLow := 0
        currentTickHigh := k }
      (now + 1) (later P (now + 1)) where
  level1 i := by
    have hempty : wheel.level1 i = [] := by
      rw [h.level1]
      refine map_filter_nil fun p hp hq => ?_
      have := (home_fst now p.2).mpr (le_fromTurn (hn p hp).1 hlow)
      rw [hq] at this
      cases this
    dsimp only
    rw [hempty, List.nil_append, later_filter, h.level2, List.filter_map, List.filter_filter]
    refine congrArg _ (List.filter_congr fun p hp => ?_)
    obtain ⟨hne, hfar⟩ := hn p hp
    rw [Function.comp_apply, hW p hp, ← Bool.decide_and, decide_eq_decide, home_eq_high_iff hfar]
    have h64 := le_fromTurn hne hlow
    by_cases h128 : fromTurn now p.2 < 128
    · rw [and_iff_left ⟨h64, h128⟩, ← Bool.not_eq_true, tickReached_succ_iff hne hfar]
      refine and_congr_right fun hw => ?_
      rw [(home_cascade hne hw hlow h128).1, Prod.mk.injEq, eq_self, true_and]
    · refine iff_of_false (fun hq => h128 hq.2.2) fun hq => ?_
      have := (home_fst now p.2).mpr h64
      rw [← (home_turn hne hlow (by omega)).1, hq.2] at this
      cases this
  level2 i := by
    dsimp only
    rw [later_filter, Function.update_apply]
    have hturn : ∀ p ∈ P, p.2 ≠ now + 1 ∧ home (now + 1) p.2 = (true, i) →
        128 ≤ fromTurn now p.2 ∧ home now p.2 = (true, i) := by
      rintro p hp ⟨hw, hq⟩
      by_cases h128 : fromTurn now p.2 < 128
      · rw [(home_cascade (hn p hp).1 hw hlow h128).1] at hq
        cases congrArg Prod.fst hq
      · exact ⟨by omega, by rw [← (home_turn (hn p hp).1 hlow (by omega)).1, hq]⟩
    split
    · rename_i hi
      refine (map_filter_nil fun p hp hq => ?_).symm
      obtain ⟨h₁, h₂⟩ := hturn p hp hq
      rw [hi, home_eq_high_iff (hn p hp).2] at h₂
      omega
    · rename_i hi
      rw [h.level2]
      refine map_filter_congr fun p hp => ⟨fun hq => ?_, fun hq => (hturn p hp hq).2⟩
      obtain ⟨hne, hfar⟩ := hn p hp
      have h64 := le_fromTurn hne hlow
      have h128 : 128 ≤ fromTurn now p.2 := by
        by_contra hlt
        rw [(home_eq_high_iff hfar).mpr ⟨h64, by omega⟩] at hq
        exact hi (congrArg Prod.snd hq).symm
      refine ⟨?_, by rw [(home_turn hne hlow h128).1, hq]⟩
      intro hw
      have := toNat_sub_eq_one.mpr hw
      unfold fromTurn at h128
      omega

omit cfg in
/-- A loop over the tasks that are due is as good as one over more tasks. -/
theorem Rung.mono {us : List TaskId} (h : Rung now ts c c') (hsub : ∀ u ∈ ts, u ∈ us)
    (hdue : ∀ u ∈ us, tickReached now (c.tasks u).wakeTick = true → u ∈ ts) : Rung now us c c' where
  totalTicks := h.totalTicks
  wakeTick := h.wakeTick
  other u hu := h.other u (hu.imp_left fun hu hm => hu (hsub u hm))
  ready u hu hd := h.ready u (hdue u hu hd) hd

omit cfg in
theorem Rung.of_nil {d : Core} (h₀ : Rung now [] c d) (h : Rung now ts d c') : Rung now ts c c' where
  totalTicks := h.totalTicks.trans h₀.totalTicks
  wakeTick u := (h.wakeTick u).trans (h₀.wakeTick u)
  other u hu := by
    obtain ⟨h₁, h₂⟩ := h₀.other u (.inl List.not_mem_nil)
    obtain ⟨h₃, h₄⟩ := h.other u (by rwa [h₀.wakeTick])
    exact ⟨h₃.trans h₁, h₄.trans h₂⟩
  ready u hu hd := by
    rw [← (h₀.other u (.inl List.not_mem_nil)).1]
    exact h.ready u hu (by rwa [h₀.wakeTick])

/-- The core when the clock has ticked. -/
def ticked (c : Core) : Core := { c with totalTicks := c.totalTicks + 1 }

omit cfg in
theorem getTick_ticked (c : Core) : (ticked c).getTick = c.getTick + 1 := by
  unfold ticked Core.getTick
  rw [BitVec.setWidth_add _ _ (by decide)]
  rfl

omit cfg in
theorem Keeps.due_iff (h : Keeps s A) {p : TaskId × Word} (hp : p ∈ A.pending) :
    tickReached (A.now + 1) ((ticked s.core).tasks p.1).wakeTick = true ↔ p.2 = A.now + 1 := by
  rw [show ((ticked s.core).tasks p.1).wakeTick = p.2 from (h.task p hp).1]
  exact tickReached_succ_iff (h.near p hp).1 (h.near p hp).2

omit cfg in
/-- What is left to show of a tick that has woken those who are due. -/
theorem Keeps.rung (h : Keeps s A) (hr : Rung (A.now + 1) A.armed (ticked s.core) s'.core)
    (hlow : s'.wheel.currentTickLow = .ofNat 32 ((A.now + 1).toNat % 64))
    (hhigh : s'.wheel.currentTickHigh = .ofNat 32 ((A.now + 1).toNat / 64 % 64))
    (hs : Sorted s'.wheel (A.now + 1) (later A.pending (A.now + 1))) :
    Keeps s' { now := A.now + 1, pending := later A.pending (A.now + 1) } where
  now := by
    rw [Core.getTick, hr.totalTicks, ← h.now]
    exact getTick_ticked s.core
  low := hlow
  high := hhigh
  nodup := h.nodup.sublist (List.filter_sublist.map _)
  task p hp := by
    obtain ⟨hp, hne⟩ := List.mem_filter.mp hp
    have hnot : tickReached (A.now + 1) ((ticked s.core).tasks p.1).wakeTick = false := by
      rw [← Bool.not_eq_true, h.due_iff hp]
      simpa using hne
    obtain ⟨h₁, h₂⟩ := h.task p hp
    refine ⟨(hr.wakeTick p.1).trans h₁, ?_⟩
    unfold Waiting at h₂ ⊢
    rw [(hr.other p.1 (.inr hnot)).1]
    exact h₂
  near p hp := by
    obtain ⟨hp, hne⟩ := List.mem_filter.mp hp
    exact ⟨by simpa using hne, (fromTurn_tick_le (h.near p hp).1).trans_lt (h.near p hp).2⟩
  sorted := hs

/-- **The tick** wakes those whose time it is, and keeps the others where they belong. -/
theorem Keeps.tick (h : Keeps s A) : ∃ s', s.step .tick = some s' ∧
    Keeps s' { now := A.now + 1, pending := later A.pending (A.now + 1) } ∧
    Rung (A.now + 1) A.armed (ticked s.core) s'.core := by
  have hnow : (ticked s.core).getTick = A.now + 1 := by rw [getTick_ticked, h.now]
  have hsub : ∀ {Q : TaskId × Word → Bool}, ∀ t ∈ (A.pending.filter Q).map Prod.fst, t ∈ A.armed :=
    fun {_} t ht => (List.filter_sublist.map _).subset ht
  have hnodup : ∀ {Q : TaskId × Word → Bool}, ((A.pending.filter Q).map Prod.fst).Nodup :=
    h.nodup.sublist (List.filter_sublist.map _)
  have hwaiting : ∀ t ∈ A.armed, Waiting (ticked s.core) t := by
    rintro _ ht
    obtain ⟨p, hp, rfl⟩ := List.mem_map.mp ht
    exact (h.task p hp).2
  -- the slot of the first level
  have hslot := h.sorted.level1 (.ofNat 32 (A.now.toNat % 64))
  rw [← h.low] at hslot
  obtain ⟨c, hc, hr⟩ := expireLoop_eq (s := { s with core := ticked s.core }) (A.now + 1) s.wheel.currentTickLow (hslot ▸ hnodup)
    (fun t ht => hwaiting t (hsub t (hslot ▸ ht)))
    (fun t ht => by
      rw [hslot] at ht
      obtain ⟨p, hp, rfl⟩ := List.mem_map.mp ht
      obtain ⟨hp, hq⟩ := List.mem_filter.mp hp
      rw [decide_eq_true_eq, h.low, home_eq_low_iff (h.near p hp).1] at hq
      exact (h.due_iff hp).mpr hq.1)
    rfl
  have hstep : s.step .tick = ({ s with core := ticked s.core } : Timed).wheelTick (A.now + 1) := by
    rw [← hnow]
    rfl
  have hlow : (s.wheel.currentTickLow + 1) % twSize1 = .ofNat 32 ((A.now + 1).toNat % 64) := by
    rw [h.low, toNat_add_one]
    apply BitVec.eq_of_toNat_eq
    rw [BitVec.toNat_umod, BitVec.toNat_add, BitVec.toNat_ofNat, BitVec.toNat_ofNat]
    show (A.now.toNat % 64 % 2 ^ 32 + 1) % 2 ^ 32 % 64 = _
    omega
  rw [hstep, wheelTick]
  dsimp only
  rw [hc]
  dsimp only
  rw [hlow]
  by_cases hturn : A.now.toNat % 64 = 63
  · have hzero : BitVec.ofNat 32 ((A.now + 1).toNat % 64) = 0 := by
      rw [toNat_add_one, show (A.now.toNat + 1) % 2 ^ 32 % 64 = 0 by omega]
      rfl
    have hnil : s.wheel.level1 s.wheel.currentTickLow = [] := by
      rw [hslot, h.low]
      refine map_filter_nil fun p hp hq => ?_
      rw [home_eq_low_iff (h.near p hp).1] at hq
      omega
    have hslot₂ := h.sorted.level2 s.wheel.currentTickHigh
    rw [hnil] at hr
    rw [if_pos hzero, hzero, Function.update_eq_self_iff.mpr hnil.symm]
    set s₁ : Timed := { core := c, wheel := { s.wheel with currentTickLow := 0 } } with hs₁
    have hW : ∀ t, (s₁.core.tasks t).wakeTick = ((ticked s.core).tasks t).wakeTick := hr.wakeTick
    have hwaiting₁ : ∀ t ∈ A.armed, Waiting s₁.core t := by
      intro t ht
      unfold Waiting
      rw [show (s₁.core.tasks t).state = _ from (hr.other t (.inl List.not_mem_nil)).1]
      exact hwaiting t ht
    obtain ⟨d, hd, hr₁⟩ := cascadeLoop_eq (s := s₁) (A.now + 1) s.wheel.currentTickHigh
      (n := (s.wheel.level2 s.wheel.currentTickHigh).length + 1) (Nat.le_succ _) (hslot₂ ▸ hnodup) hW
      (fun t ht => hwaiting₁ t (hsub t (hslot₂ ▸ ht)))
      (fun t ht => by
        rw [hslot₂] at ht
        obtain ⟨p, hp, rfl⟩ := List.mem_map.mp ht
        obtain ⟨hp, hq⟩ := List.mem_filter.mp hp
        obtain ⟨hne, hfar⟩ := h.near p hp
        rw [decide_eq_true_eq, h.high, home_eq_high_iff hfar] at hq
        rw [h.due_iff hp]
        by_cases hw : p.2 = A.now + 1
        · exact .inl hw
        · right
          rw [show ((ticked s.core).tasks p.1).wakeTick = p.2 from (h.task p hp).1]
          exact (home_cascade hne hw hturn hq.2).2.1)
      rfl
    have hall : Rung (A.now + 1) A.armed (ticked s.core) d := by
      refine (hr.of_nil hr₁).mono (fun t ht => hsub t (hslot₂ ▸ ht)) fun t ht hdt => ?_
      obtain ⟨p, hp, rfl⟩ := List.mem_map.mp ht
      obtain ⟨hne, hfar⟩ := h.near p hp
      rw [h.due_iff hp] at hdt
      rw [hslot₂]
      refine List.mem_map.mpr ⟨p, List.mem_filter.mpr ⟨hp, ?_⟩, rfl⟩
      rw [decide_eq_true_eq, h.high, home_eq_high_iff hfar]
      have := toNat_sub_eq_one.mpr hdt
      unfold fromTurn
      omega
    unfold cascade
    dsimp only
    rw [show s₁.wheel.level2 s₁.wheel.currentTickHigh = s.wheel.level2 s.wheel.currentTickHigh from rfl,
      show s₁.wheel.currentTickHigh = s.wheel.currentTickHigh from rfl, hd, Option.map_some]
    refine ⟨_, rfl, h.rung hall hzero.symm ?_ ?_, hall⟩
    · show (s.wheel.currentTickHigh + 1) % twSize2 = _
      rw [h.high, toNat_add_one]
      apply BitVec.eq_of_toNat_eq
      rw [BitVec.toNat_umod, BitVec.toNat_add, BitVec.toNat_ofNat, BitVec.toNat_ofNat]
      show (A.now.toNat / 64 % 64 % 2 ^ 32 + 1) % 2 ^ 32 % 64 = _
      omega
    · have hs := h.sorted.tick_turn h.near hturn (W := fun t => ((ticked s.core).tasks t).wakeTick)
        (fun p hp => (h.task p hp).1) ((s.wheel.currentTickHigh + 1) % twSize2)
      rw [← h.high] at hs
      exact hs
  · have hnz : ¬ BitVec.ofNat 32 ((A.now + 1).toNat % 64) = 0 := by
      rw [toNat_add_one, ← BitVec.toNat_inj, BitVec.toNat_ofNat]
      show ¬ _ = 0
      omega
    have hall : Rung (A.now + 1) A.armed (ticked s.core) c := by
      refine hr.mono (fun t ht => hsub t (hslot ▸ ht)) fun t ht hdt => ?_
      obtain ⟨p, hp, rfl⟩ := List.mem_map.mp ht
      rw [h.due_iff hp] at hdt
      rw [hslot]
      refine List.mem_map.mpr ⟨p, List.mem_filter.mpr ⟨hp, ?_⟩, rfl⟩
      rw [decide_eq_true_eq, h.low, home_eq_low_iff (h.near p hp).1]
      exact ⟨hdt, by omega⟩
    rw [if_neg hnz]
    refine ⟨_, rfl, h.rung hall rfl ?_ ?_, hall⟩
    · show s.wheel.currentTickHigh = _
      rw [h.high, toNat_add_one]
      congr 1
      omega
    · have hs := h.sorted.tick_low (fun p hp => (h.near p hp).1) (by omega) (.ofNat 32 ((A.now + 1).toNat % 64))
      rwa [← h.low] at hs

omit cfg in
theorem flatMap_range_ite {k m : ℕ} (hk : k < m) (D : List TaskId) :
    ((List.range m).flatMap fun i => if i = k then D else []) = D := by
  induction m with
  | zero => cases hk
  | succ m ih =>
    rw [List.range_succ, List.flatMap_append, List.flatMap_singleton]
    by_cases e : m = k
    · subst e
      have hnil : ((List.range m).flatMap fun i => if i = m then D else []) = [] := by
        refine List.flatMap_eq_nil_iff.mpr fun i hi => if_neg ?_
        rintro rfl
        exact absurd (List.mem_range.mp hi) (Nat.lt_irrefl _)
      rw [hnil, if_pos rfl, List.nil_append]
    · rw [ih (by omega), if_neg e, List.append_nil]

omit cfg in
/-- The tasks of the wheel that are ready after the tick are those whose alarm is due. -/
theorem Keeps.members_filter (h : Keeps s A) (hr : Rung (A.now + 1) A.armed (ticked s.core) c) :
    (s.wheel.members.filter fun t => (c.tasks t).state = .ready) = A.due (A.now + 1) := by
  have hready : ∀ p ∈ A.pending, (c.tasks p.1).state = .ready ↔ p.2 = A.now + 1 := by
    intro p hp
    constructor
    · intro hs
      by_contra hne
      rw [← h.due_iff hp, Bool.not_eq_true] at hne
      rw [(hr.other p.1 (.inr hne)).1] at hs
      rcases (h.task p hp).2 with hw | hw
      · cases hs.symm.trans hw
      · cases hs.symm.trans hw
    · intro hd
      exact (hr.ready p.1 (List.mem_map_of_mem hp) ((h.due_iff hp).mpr hd)).1
  have hslot : ∀ b i, (((A.pending.filter fun p => home A.now p.2 = (b, i)).map Prod.fst).filter fun t =>
      (c.tasks t).state = .ready) = if home A.now (A.now + 1) = (b, i) then A.due (A.now + 1) else [] := by
    intro b i
    rw [List.filter_map, List.filter_filter]
    split
    · rename_i hb
      refine congrArg _ (List.filter_congr fun p hp => ?_)
      rw [Function.comp_apply, ← Bool.decide_and, decide_eq_decide, hready p hp]
      exact and_iff_left_of_imp fun hw => by rw [hw, hb]
    · rename_i hb
      refine List.map_eq_nil_iff.mpr (List.filter_eq_nil_iff.mpr fun p hp hq => hb ?_)
      rw [Function.comp_apply, ← Bool.decide_and, decide_eq_true_eq, hready p hp] at hq
      rw [← hq.1, hq.2]
  have hfrom : fromTurn A.now (A.now + 1) < 4160 := by
    have := toNat_sub_eq_one.mpr (rfl : A.now + 1 = A.now + 1)
    unfold fromTurn
    omega
  obtain ⟨k, hk, hhome⟩ := home_lt A.now (A.now + 1) hfrom
  unfold TimeWheel.members
  rw [List.filter_flatMap]
  refine Eq.trans ?_ (flatMap_range_ite hk (A.due (A.now + 1)))
  refine List.flatMap_congr fun i hi => ?_
  have hi := List.mem_range.mp hi
  have heq : ∀ b, home A.now (A.now + 1) = (b, BitVec.ofNat 32 i) ↔ (home A.now (A.now + 1)).1 = b ∧ i = k := by
    intro b
    rw [Prod.ext_iff, hhome, ofNat_inj (by omega) (by omega)]
    exact and_congr_right fun _ => eq_comm
  rw [List.filter_append, h.sorted.level1, h.sorted.level2, hslot, hslot]
  simp only [heq]
  by_cases e : i = k
  · cases (home A.now (A.now + 1)).1 <;> simp [e]
  · simp [e]

/-! ### The law -/

theorem keeps_step {a : Act} (h : Keeps s A) (hc : OnTime s a) (hs : s.step a = some s') :
    ∃ A', run Alarms.next A (obs s a) = some A' ∧ Keeps s' A' := by
  cases a with
  | kernel c detached =>
    rw [step] at hs
    split at hs
    · rename_i hk
      cases hs
      exact ⟨_, run_clear A detached, h.kernel hk.1 hk.2⟩
    · cases hs
  | insert t =>
    rw [step] at hs
    split at hs
    · rename_i hk
      cases hs
      refine ⟨_, ?_, h.insert hk.1 hk.2 hc⟩
      rw [obs, run, Alarms.next, if_neg (by rw [← h.mem_members]; exact hk.2)]
      rfl
    · cases hs
  | tick =>
    obtain ⟨s₁, hs₁, hk, hr⟩ := h.tick
    rw [hs] at hs₁
    cases hs₁
    refine ⟨_, ?_, hk⟩
    rw [obs, hs]
    dsimp only
    rw [h.members_filter hr, run, Alarms.next, if_pos rfl]
    rfl

/-- **The wheel is on time**, if tasks are inserted so: it does with the tasks what alarms do, each tick comes to an end,
and a task that it wakes finds the right result. -/
theorem onTime_of_path {as : List Act} (hp : Path (Next step) OnTime init as s) :
    ∃ A, run Alarms.next (.idle 0) (trace step obs init as) = some A ∧ A.now = s.core.getTick ∧
      (∀ t, t ∈ s.wheel.members ↔ t ∈ A.armed) ∧ (∀ p ∈ A.pending, (s.core.tasks p.1).wakeTick = p.2) ∧
      ∃ s', s.step .tick = some s' ∧ ∀ p ∈ A.pending, p.2 = A.now + 1 → (s'.core.tasks p.1).state = .ready ∧
        (s'.core.tasks p.1).waitResult = if (s.core.tasks p.1).state = .delayed then Code.ok else Code.timeout := by
  obtain ⟨A, hA, h⟩ := hp.simulates (R := Keeps) (fun _ _ _ _ hk hc hs => keeps_step hk hc hs) keeps_init
  obtain ⟨s', hs', -, hr⟩ := h.tick
  refine ⟨A, hA, h.now.symm, fun t => h.mem_members, fun p hp => (h.task p hp).1, s', hs', fun p hp hd => ?_⟩
  exact hr.ready p.1 (List.mem_map_of_mem hp) ((h.due_iff hp).mpr hd)

end Timed

end Aixos

namespace Aixos.Timed

open Transition

attribute [local instance] Config.default

/-- The first task sleeps until a tick. -/
def asleep (wakeTick : Word) : Core := Core.init.setTask 0 fun b => { b with state := .delayed, wakeTick := wakeTick }

/-- A sleep of one turn of the first level. -/
theorem sleepTurn_onTime : ∃ s, Path (Next step) OnTime init
      (.kernel (asleep 64) [] :: .insert 0 :: List.replicate 63 .tick) s ∧ (s.core.tasks 0).state = .delayed ∧
    ∃ s', s.step .tick = some s' ∧ (s'.core.tasks 0).state = .ready ∧ (s'.core.tasks 0).waitResult = Code.ok := by
  obtain ⟨s, hp, h⟩ := exists_path step OnTime init (.kernel (asleep 64) [] :: .insert 0 :: List.replicate 63 .tick)
    (fun s => decide ((s.core.tasks 0).state = .delayed ∧ (s.core.tasks 0).wakeTick = s.core.getTick + 1 ∧
      0 ∈ s.wheel.members)) (by decide +kernel)
  obtain ⟨hstate, hwake, hmem⟩ := of_decide_eq_true h
  obtain ⟨A, -, hnow, harmed, htask, s', hs', hrung⟩ := onTime_of_path hp
  obtain ⟨p, hp', hp0⟩ := List.mem_map.mp ((harmed 0).mp hmem)
  have hdue : p.2 = A.now + 1 := by rw [← htask p hp', hp0, hwake, hnow]
  have hr := hrung p hp' hdue
  rw [hp0, hstate] at hr
  exact ⟨s, hp, hstate, s', hs', hr⟩

/-- A sleep of three ticks: at its tick the task is still asleep. -/
theorem shortSleep_late : ∃ s, run step init [.kernel (asleep 3) [], .insert 0, .tick, .tick, .tick] = some s ∧
    s.core.getTick = 3 ∧ (s.core.tasks 0).wakeTick = 3 ∧ (s.core.tasks 0).state = .delayed ∧
    run Alarms.next (.idle 0) (trace step obs init [.kernel (asleep 3) [], .insert 0, .tick, .tick, .tick]) = none ∧
    ∃ s', s.step .tick = some s' ∧ (s'.core.tasks 0).state = .ready := by
  obtain ⟨s, s', hr, hs, h⟩ := exists_run_step step init [.kernel (asleep 3) [], .insert 0, .tick, .tick, .tick] .tick
    (fun s s' => decide (s.core.getTick = 3 ∧ (s.core.tasks 0).wakeTick = 3 ∧ (s.core.tasks 0).state = .delayed ∧
      (s'.core.tasks 0).state = .ready)) (by decide +kernel)
  obtain ⟨h₁, h₂, h₃, h₄⟩ := of_decide_eq_true h
  refine ⟨s, hr, h₁, h₂, h₃, ?_, s', hs, h₄⟩
  have hnone : (run Alarms.next (.idle 0) (trace step obs init
      [.kernel (asleep 3) [], .insert 0, .tick, .tick, .tick])).isNone = true := by decide +kernel
  exact Option.isNone_iff_eq_none.mp hnone

end Aixos.Timed
