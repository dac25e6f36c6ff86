import Aixos.Time.TimerService
import Aixos.Time.Timeouts

/-!
# Reloads

A periodic timer that has expired gets a new deadline, a whole number of its periods after the old one and not more
than one period ahead. With one call for each tick that number is one, and the active list stays in order: all
deadlines are less than half the range ahead, so that the signed difference compares them.

* `TimerPool.Reloaded` — what becomes of the deadline.
* `TimerPool.Scheduled` — the active list is in the order of the ticks that are left.
* `Scheduled.timerTick_timers` — a tick handles all timers whose deadline has come, and no other.
* `TimerSys.reloads_in_order` — both, for every run.
-/

namespace Aixos

open Transition OrderedQueue Aixos.Core

namespace TimerPool

variable {α : Type} {p q : TimerPool α} {now : Word} {i j n : ℕ}

/-! ### The new deadline -/

/-- The deadline of `t'` comes a whole number of intervals after that of `t`, one interval after `now` at most. Neither
the number nor its product with the interval has overflowed. -/
def Reloaded (now : Word) (t t' : Timer α) : Prop :=
  ∃ m : ℕ, 1 ≤ m ∧ ((now - t.deadline) / t.interval + 1).toNat = m ∧
    m = (now - t.deadline).toNat / t.interval.toNat + 1 ∧
    (((now - t.deadline) / t.interval + 1) * t.interval).toNat = m * t.interval.toNat ∧
    t'.deadline = t.deadline + .ofNat 32 m * t.interval ∧
    0 < (t'.deadline - now).toNat ∧ (t'.deadline - now).toNat ≤ t.interval.toNat

/-- The next multiple of `d` past `late`. -/
theorem next_multiple (late d : ℕ) : (late / d + 1) * d + late % d = late + d := by
  rw [Nat.add_mul, Nat.one_mul, Nat.add_right_comm, Nat.div_add_mod']

theorem reloaded_expired {t : Timer α} (hp : t.type = .periodic) (h₀ : 0 < t.interval.toNat)
    (hi : t.interval.toNat ≤ timeoutMaxTicks) (hl : (now - t.deadline).toNat ≤ timeoutMaxTicks) :
    Reloaded now t (expired now t) := by
  unfold timeoutMaxTicks at hi hl
  have hdeadline : (expired now t).deadline =
      t.deadline + ((now - t.deadline) / t.interval + 1) * t.interval := by
    unfold expired
    simp [hp]
  have hdiv : (now - t.deadline).toNat / t.interval.toNat ≤ (now - t.deadline).toNat := Nat.div_le_self ..
  have hmod : (now - t.deadline).toNat % t.interval.toNat < t.interval.toNat := Nat.mod_lt _ h₀
  have hnext := next_multiple (now - t.deadline).toNat t.interval.toNat
  have hm : ((now - t.deadline) / t.interval + 1).toNat = (now - t.deadline).toNat / t.interval.toNat + 1 := by
    rw [BitVec.toNat_add, BitVec.toNat_udiv]
    show (_ + 1) % 2 ^ 32 = _
    exact Nat.mod_eq_of_lt (by omega)
  -- the product is at most the lateness and one interval
  have hprod : (((now - t.deadline) / t.interval + 1) * t.interval).toNat =
      ((now - t.deadline).toNat / t.interval.toNat + 1) * t.interval.toNat := by
    rw [BitVec.toNat_mul, hm]
    exact Nat.mod_eq_of_lt (by omega)
  have hnew : ((expired now t).deadline - now).toNat =
      t.interval.toNat - (now - t.deadline).toNat % t.interval.toNat := by
    have e : (expired now t).deadline - now =
        ((now - t.deadline) / t.interval + 1) * t.interval - (now - t.deadline) := by
      rw [hdeadline]
      generalize ((now - t.deadline) / t.interval + 1) * t.interval = w
      bv_omega
    rw [e, BitVec.toNat_sub, hprod]
    omega
  refine ⟨_, Nat.le_add_left .., hm, rfl, hprod, ?_, ?_, ?_⟩
  · rw [hdeadline, ← hm, BitVec.ofNat_toNat, BitVec.setWidth_eq]
  · rw [hnew]
    omega
  · rw [hnew]
    omega

/-- A timer that goes on past `now` is left alone by the rest of the tick. -/
theorem tickLoop_of_not_reached (h : tickReached now (p.timers j).deadline = false) :
    (tickLoop now n p).timers j = p.timers j := by
  induction n generalizing p with
  | zero => rfl
  | succ n ih =>
    rw [tickLoop]
    split
    · rfl
    · rename_i i rest hl
      split
      · rename_i hr
        have hne : j ≠ i := by
          rintro rfl
          rw [h] at hr
          cases hr
        have hself : (p.expire now i).timers j = p.timers j := by rw [expire_timers, Function.update_of_ne hne]
        rw [ih (by rw [hself]; exact h), hself]
      · rfl

/-- A deadline that is ahead, by less than half the range, has not been reached. -/
theorem not_reached_of_ahead {w : Word} (h₀ : 0 < (w - now).toNat) (h : (w - now).toNat ≤ timeoutMaxTicks) :
    tickReached now w = false := by
  unfold timeoutMaxTicks at h
  have e : now - w = 0 - (w - now) := by bv_omega
  rw [tickReached, e, BitVec.msb_eq_decide, Bool.not_eq_false', decide_eq_true_eq]
  generalize w - now = a at *
  rw [BitVec.toNat_sub]
  show _ ≤ (2 ^ 32 - a.toNat + 0) % 2 ^ 32
  omega

/-- **The tick reloads the timer at the head of the active list.** -/
theorem reloaded_timerTick {rest : List ℕ} (hl : p.activeTimers = i :: rest) (hp : (p.timers i).type = .periodic)
    (h₀ : 0 < (p.timers i).interval.toNat) (hi : (p.timers i).interval.toNat ≤ timeoutMaxTicks)
    (hr : (now - (p.timers i).deadline).toNat ≤ timeoutMaxTicks) :
    Reloaded now (p.timers i) ((p.timerTick now).timers i) := by
  have hself : (p.expire now i).timers i = expired now (p.timers i) := by rw [expire_timers, Function.update_self]
  have hnew := reloaded_expired hp h₀ hi hr
  obtain ⟨m, -, -, -, -, -, hpos, hle⟩ := hnew
  have hreached : tickReached now (p.timers i).deadline = true := by
    rw [tickReached, BitVec.msb_eq_decide, Bool.not_eq_true', decide_eq_false_iff_not]
    unfold timeoutMaxTicks at hr
    generalize now - (p.timers i).deadline = a at *
    omega
  unfold timerTick
  rw [hl, List.length_cons, tickLoop, hl]
  dsimp only
  rw [if_pos hreached, tickLoop_of_not_reached, hself]
  · exact reloaded_expired hp h₀ hi hr
  · rw [hself]
    exact not_reached_of_ahead hpos (hle.trans hi)

/-! ### The active list -/

/-- The ticks that are left to the deadline of timer `i`. -/
def remaining (p : TimerPool α) (now : Word) (i : ℕ) : ℕ := ((p.timers i).deadline - now).toNat

/-- The active timers come in the order of the ticks that are left, less than half the range, and their intervals are
less than half the range. -/
structure Scheduled (p : TimerPool α) (now : Word) : Prop where
  good : Good p
  near : ∀ j, (p.timers j).active = true → p.remaining now j ≤ timeoutMaxTicks
  interval : ∀ j, (p.timers j).active = true →
    0 < (p.timers j).interval.toNat ∧ (p.timers j).interval.toNat ≤ timeoutMaxTicks
  ordered : p.activeTimers.Pairwise fun i j => p.remaining now i ≤ p.remaining now j

/-- No deadline has come. -/
def Ahead (p : TimerPool α) (now : Word) : Prop := ∀ j, (p.timers j).active = true → 0 < p.remaining now j

theorem remaining_eq_zero : p.remaining now j = 0 ↔ (p.timers j).deadline = now := by
  unfold remaining
  constructor
  · intro h
    bv_omega
  · intro e
    rw [e, BitVec.sub_self]
    rfl

namespace Scheduled

/-- A deadline has been reached when it is the present tick. -/
theorem reached_iff (h : Scheduled p now) (ha : (p.timers j).active = true) :
    tickReached now (p.timers j).deadline = true ↔ (p.timers j).deadline = now := by
  constructor
  · intro hr
    by_contra hne
    have hpos : 0 < p.remaining now j := Nat.pos_of_ne_zero fun e => hne (remaining_eq_zero.mp e)
    rw [not_reached_of_ahead hpos (h.near j ha)] at hr
    cases hr
  · rintro e
    rw [e, tickReached, BitVec.sub_self]
    rfl

/-- A timer joins the list where its deadline says. -/
theorem join (h : Scheduled p now) (hg : Good q) (hother : ∀ j, j ≠ i → q.timers j = p.timers j)
    (hlist : q.activeTimers =
      insertBefore (fun j => ((q.timers i).deadline - (q.timers j).deadline).msb) i (p.activeTimers.erase i))
    (hnear : q.remaining now i ≤ timeoutMaxTicks)
    (hinterval : 0 < (q.timers i).interval.toNat ∧ (q.timers i).interval.toNat ≤ timeoutMaxTicks) : Scheduled q now := by
  have hkept : ∀ j, j ≠ i → q.remaining now j = p.remaining now j := fun j hj => by rw [remaining, hother j hj, remaining]
  have hne : ∀ j ∈ p.activeTimers.erase i, j ≠ i ∧ j ∈ p.activeTimers := fun j hj =>
    h.good.activeNodup.mem_erase_iff.mp hj
  -- the signed difference compares what is left
  have hsame : q.activeTimers = insertByKey (fun j => OrderDual.toDual (q.remaining now j)) i (p.activeTimers.erase i) := by
    rw [hlist, insertByKey]
    refine insertBefore_congr fun j hj => ?_
    obtain ⟨hji, hm⟩ := hne j hj
    have hj' : q.remaining now j ≤ timeoutMaxTicks := by
      rw [hkept j hji]
      exact h.near j ((h.good.active j).mp hm)
    rw [Bool.eq_iff_iff, decide_eq_true_eq, msb_sub_iff hnear hj']
    exact Iff.rfl
  have hold : Ordered (fun j => OrderDual.toDual (q.remaining now j)) (p.activeTimers.erase i) := by
    refine List.Pairwise.imp_of_mem (fun ha hb hab => ?_) (h.ordered.sublist List.erase_sublist)
    show q.remaining now _ ≤ q.remaining now _
    rwa [hkept _ (hne _ ha).1, hkept _ (hne _ hb).1]
  refine ⟨hg, fun j hj => ?_, fun j hj => ?_, ?_⟩
  · by_cases e : j = i
    · rw [e]
      exact hnear
    · rw [hkept j e]
      exact h.near j (by rwa [← hother j e])
  · by_cases e : j = i
    · rw [e]
      exact hinterval
    · rw [hother j e] at hj ⊢
      exact h.interval j hj
  · rw [hsame]
    exact hold.insertByKey

/-- A timer leaves the list, or is not in it. -/
theorem leave (h : Scheduled p now) (hg : Good q) (hother : ∀ j, j ≠ i → q.timers j = p.timers j)
    (hlist : q.activeTimers = p.activeTimers.erase i) (hoff : (q.timers i).active = false) : Scheduled q now := by
  have hne : ∀ j, (q.timers j).active = true → j ≠ i := by
    rintro j hj rfl
    rw [hoff] at hj
    cases hj
  refine ⟨hg, fun j hj => ?_, fun j hj => ?_, ?_⟩
  · rw [remaining, hother j (hne j hj)]
    exact h.near j (by rwa [← hother j (hne j hj)])
  · have e := hother j (hne j hj)
    rw [e] at hj ⊢
    exact h.interval j hj
  · rw [hlist]
    refine List.Pairwise.imp_of_mem (fun {a b} ha hb hab => ?_) (h.ordered.sublist List.erase_sublist)
    rw [← hlist] at ha hb
    rw [remaining, remaining, hother a (hne a ((hg.active a).mp ha)), hother b (hne b ((hg.active b).mp hb))]
    exact hab

/-- Flags of the callbacks do not matter. -/
theorem same (h : Scheduled p now) (hg : Good q) (hlist : q.activeTimers = p.activeTimers)
    (htimers : ∀ j, (q.timers j).deadline = (p.timers j).deadline ∧ (q.timers j).interval = (p.timers j).interval ∧
      (q.timers j).active = (p.timers j).active) : Scheduled q now := by
  have hrem : ∀ j, q.remaining now j = p.remaining now j := fun j => by rw [remaining, (htimers j).1, remaining]
  refine ⟨hg, fun j hj => ?_, fun j hj => ?_, ?_⟩
  · rw [hrem]
    exact h.near j ((htimers j).2.2 ▸ hj)
  · rw [(htimers j).2.1]
    exact h.interval j ((htimers j).2.2 ▸ hj)
  · rw [hlist]
    simpa only [hrem] using h.ordered

/-- The next tick. -/
theorem tick (h : Scheduled p now) (ha : Ahead p now) : Scheduled p (now + 1) := by
  have hone : ∀ j, (p.timers j).active = true → p.remaining (now + 1) j = p.remaining now j - 1 := fun j hj =>
    toNat_sub_add_one fun e => absurd (remaining_eq_zero.mpr e) (ha j hj).ne'
  refine ⟨h.good, fun j hj => ?_, h.interval, ?_⟩
  · rw [hone j hj]
    exact (Nat.sub_le _ _).trans (h.near j hj)
  · refine List.Pairwise.imp_of_mem (fun {a b} ha' hb' hab => ?_) h.ordered
    rw [hone a ((h.good.active a).mp ha'), hone b ((h.good.active b).mp hb')]
    exact Nat.sub_le_sub_right hab 1

end Scheduled

/-! ### The loop of the tick -/

/-- How many timers of the active list the tick is to handle. -/
def due (p : TimerPool α) (now : Word) : ℕ := p.activeTimers.countP fun j => (p.timers j).deadline = now

theorem due_le (p : TimerPool α) (now : Word) : p.due now ≤ p.activeTimers.length := List.countP_le_length

/-- What the tick makes of a timer. -/
def Handled (now : Word) (p q : TimerPool α) : Prop := ∀ j, q.timers j =
  if (p.timers j).active = true ∧ (p.timers j).deadline = now then expired now (p.timers j) else p.timers j

theorem expired_periodic {t : Timer α} (hp : t.type = .periodic) (hd : t.deadline = now) :
    expired now t = { t with deadline := now + t.interval, pending := true } := by
  have hz : (now - now) / t.interval + 1 = 1#32 := by
    rw [BitVec.sub_self, BitVec.zero_udiv]
    rfl
  unfold expired
  rw [hp, hd]
  dsimp only
  rw [hz, BitVec.one_mul]

theorem expired_oneshot {t : Timer α} (ho : t.type = .oneshot) :
    expired now t = { t with active := false, pending := true } := by
  unfold expired
  rw [ho]

/-- A periodic timer goes back to where its new deadline belongs. -/
theorem expire_activeTimers_join (now : Word) (h : (p.timers i).type = .periodic) :
    (p.expire now i).activeTimers = insertBefore (fun j =>
      (((p.expire now i).timers i).deadline - ((p.expire now i).timers j).deadline).msb) i (p.activeTimers.erase i) := by
  set f : Timer α → Timer α := fun t =>
    { t with deadline := t.deadline + ((now - (p.timers i).deadline) / (p.timers i).interval + 1) * t.interval } with hf
  have hdeadline : ∀ j, ((p.expire now i).timers j).deadline = ((p.setTimer i f).timers j).deadline := by
    intro j
    rw [expire_timers]
    by_cases hj : j = i
    · subst hj
      simp [expired, h, hf]
    · rw [Function.update_of_ne hj, setTimer_ne p f hj]
  simp only [hdeadline]
  unfold expire
  dsimp only
  rw [h]
  cases (p.timers i).pending with
  | false => rfl
  | true => rfl

namespace Scheduled

variable {rest : List ℕ}

/-- The timer at the head, which is due, has been handled. -/
theorem expire (h : Scheduled p now) (hl : p.activeTimers = i :: rest) (hd : (p.timers i).deadline = now) :
    Scheduled (p.expire now i) now ∧ p.due now = (p.expire now i).due now + 1 ∧
      ¬ (((p.expire now i).timers i).active = true ∧ ((p.expire now i).timers i).deadline = now) := by
  have ha : (p.timers i).active = true := (h.good.active i).mp (hl ▸ List.mem_cons_self ..)
  obtain ⟨hpos, hle⟩ := h.interval i ha
  have hg := h.good.expire now ha
  have hother : ∀ j, j ≠ i → (p.expire now i).timers j = p.timers j := fun j hj => by
    rw [expire_timers, Function.update_of_ne hj]
  have hself : (p.expire now i).timers i = expired now (p.timers i) := by rw [expire_timers, Function.update_self]
  have herase : p.activeTimers.erase i = rest := by rw [hl, List.erase_cons_head]
  have hni : i ∉ rest := (List.nodup_cons.mp (hl ▸ h.good.activeNodup)).1
  have hrest : rest.countP (fun j => ((p.expire now i).timers j).deadline = now) =
      rest.countP fun j => (p.timers j).deadline = now :=
    List.countP_congr fun j hj => by rw [hother j fun e => hni (e ▸ hj)]
  have hold : p.due now = rest.countP (fun j => (p.timers j).deadline = now) + 1 := by
    unfold due
    rw [hl, List.countP_cons_of_pos (by simpa using hd)]
  cases ht : (p.timers i).type with
  | periodic =>
    rw [expired_periodic ht hd] at hself
    have hrem : (p.expire now i).remaining now i = (p.timers i).interval.toNat := by
      rw [remaining, hself]
      show (now + (p.timers i).interval - now).toNat = _
      rw [BitVec.add_comm, BitVec.add_sub_cancel]
    have hnot : ((p.expire now i).timers i).deadline ≠ now := by
      intro e
      rw [remaining_eq_zero.mpr e] at hrem
      omega
    have hlist : (p.expire now i).activeTimers = insertBefore (fun j =>
        (((p.expire now i).timers i).deadline - ((p.expire now i).timers j).deadline).msb) i (p.activeTimers.erase i) :=
      expire_activeTimers_join now ht
    refine ⟨h.join hg hother hlist (hrem ▸ hle) (by rw [hself]; exact ⟨hpos, hle⟩), ?_, fun e => hnot e.2⟩
    rw [hold, ← hrest]
    unfold due
    rw [hlist, (insertBefore_perm ..).countP_eq, List.countP_cons_of_neg (by simpa using hnot), herase]
  | oneshot =>
    rw [expired_oneshot ht] at hself
    have hlist := expire_activeTimers_oneshot now ht
    refine ⟨h.leave hg hother hlist (by rw [hself]), ?_, fun e => by rw [hself] at e; cases e.1⟩
    rw [hold, ← hrest]
    unfold due
    rw [hlist, herase]

/-- With nothing due at the head, nothing is. -/
theorem due_eq_zero (h : Scheduled p now) : p.due now = 0 ↔ Ahead p now := by
  unfold due
  rw [List.countP_eq_zero]
  constructor
  · intro hd j hj
    refine Nat.pos_of_ne_zero fun e => ?_
    exact hd j ((h.good.active j).mpr hj) (by simpa using remaining_eq_zero.mp e)
  · intro ha j hj
    have := (ha j ((h.good.active j).mp hj)).ne'
    simpa [remaining_eq_zero] using this

/-- What is due comes first. -/
theorem head_due (h : Scheduled p now) (hd : p.due now ≠ 0) : ∃ i rest, p.activeTimers = i :: rest ∧
    (p.timers i).deadline = now := by
  unfold due at hd
  obtain ⟨j, hj, hdj⟩ : ∃ j ∈ p.activeTimers, (p.timers j).deadline = now := by
    by_contra hno
    exact hd (List.countP_eq_zero.mpr fun j hj e => hno ⟨j, hj, of_decide_eq_true e⟩)
  have ho := h.ordered
  cases hl : p.activeTimers with
  | nil =>
    rw [hl] at hj
    cases hj
  | cons i rest =>
    rw [hl] at hj ho
    refine ⟨i, rest, rfl, ?_⟩
    rcases List.mem_cons.mp hj with rfl | hj
    · exact hdj
    · have := (List.pairwise_cons.mp ho).1 j hj
      rw [remaining_eq_zero.mpr hdj, Nat.le_zero] at this
      exact remaining_eq_zero.mp this

/-- **The loop** handles what is due, once each, if it has as many rounds, and stops by itself. -/
theorem tickLoop (h : Scheduled p now) (hn : p.due now ≤ n) : Scheduled (tickLoop now n p) now ∧
    Ahead (TimerPool.tickLoop now n p) now ∧ Handled now p (TimerPool.tickLoop now n p) ∧
    TimerPool.tickLoop now n p = TimerPool.tickLoop now (p.due now) p := by
  generalize hd : p.due now = d at hn
  induction d generalizing p n with
  | zero =>
    have ha := h.due_eq_zero.mp hd
    have hstop : ∀ n, TimerPool.tickLoop now n p = p := by
      intro n
      cases n with
      | zero => rfl
      | succ n =>
        rw [TimerPool.tickLoop]
        split
        · rfl
        · rename_i i rest hl
          have hai : (p.timers i).active = true := (h.good.active i).mp (hl ▸ List.mem_cons_self ..)
          rw [not_reached_of_ahead (ha i hai) (h.near i hai)]
          rfl
    rw [hstop, hstop]
    refine ⟨h, ha, fun j => (if_neg ?_).symm, rfl⟩
    rintro ⟨hj, e⟩
    exact (ha j hj).ne' (remaining_eq_zero.mpr e)
  | succ d ih =>
    obtain ⟨i, rest, hl, hi⟩ := h.head_due (by omega)
    have hai : (p.timers i).active = true := (h.good.active i).mp (hl ▸ List.mem_cons_self ..)
    obtain ⟨hs, hcount, hdone⟩ := h.expire hl hi
    obtain ⟨n, rfl⟩ : ∃ k, n = k + 1 := ⟨n - 1, by omega⟩
    have hround : ∀ k, TimerPool.tickLoop now (k + 1) p = TimerPool.tickLoop now k (p.expire now i) := by
      intro k
      rw [TimerPool.tickLoop, hl]
      dsimp only
      rw [if_pos ((h.reached_iff hai).mpr hi)]
    obtain ⟨h₁, h₂, h₃, h₄⟩ := ih hs (by omega) (Nat.le_of_succ_le_succ hn)
    rw [hround, hround]
    refine ⟨h₁, h₂, fun j => ?_, h₄⟩
    rw [h₃ j]
    by_cases hj : j = i
    · subst hj
      rw [if_neg hdone, if_pos ⟨hai, hi⟩, expire_timers, Function.update_self]
    · rw [expire_timers, Function.update_of_ne hj]

/-- **A tick**, which comes when no deadline is behind. -/
theorem timerTick (h : Scheduled p now) : Scheduled (p.timerTick now) now ∧ Ahead (p.timerTick now) now ∧
    Handled now p (p.timerTick now) := by
  obtain ⟨h₁, h₂, h₃, -⟩ := h.tickLoop (p.due_le now)
  exact ⟨h₁, h₂, h₃⟩

/-- More rounds than there are timers make no difference. -/
theorem tickLoop_eq (h : Scheduled p now) (hn : p.activeTimers.length ≤ n) :
    TimerPool.tickLoop now n p = p.timerTick now := by
  rw [(h.tickLoop ((p.due_le now).trans hn)).2.2.2]
  exact (h.tickLoop (p.due_le now)).2.2.2.symm

end Scheduled

/-! ### The calls -/

theorem Ahead.change (ha : Ahead p now) (hother : ∀ j, j ≠ i → q.timers j = p.timers j)
    (hi : (q.timers i).active = true → 0 < q.remaining now i) : Ahead q now := by
  intro j hj
  by_cases e : j = i
  · rw [e] at hj ⊢
    exact hi hj
  · rw [hother j e] at hj
    rw [remaining, hother j e]
    exact ha j hj

section

variable [cfg : Config] [ocfg : ObjectConfig]

/-- A timer that is started goes to where its deadline belongs. -/
theorem Good.timerStart_join (hg : Good p) (now : Word) {h : Option Handle} {ms : Word}
    (hi : p.timerFromHandle h = some i) (h₀ : ms ≠ 0) (hf : ms ≠ forever) :
    (p.timerStart false now h ms).1.activeTimers = insertBefore (fun j =>
      (((p.timerStart false now h ms).1.timers i).deadline -
        ((p.timerStart false now h ms).1.timers j).deadline).msb) i (p.activeTimers.erase i) := by
  have hne : ¬ (ms = 0 ∨ msToTicks ms = forever) := by
    rw [msToTicks_eq_forever]
    exact not_or.mpr ⟨h₀, hf⟩
  have e : (p.timerStart false now h ms).1 = ((p.activeRemove i).setTimer i fun t =>
      { t with interval := msToTicks ms, deadline := now + msToTicks ms, active := true }).activeInsert i := by
    rw [TimerPool.timerStart, if_neg Bool.false_ne_true]
    dsimp only
    rw [if_neg hne, hi]
  rw [e, ← hg.activeRemove_eq]
  rfl

/-- **A call** keeps the list in order, and all deadlines ahead. -/
theorem Scheduled.call (h : Scheduled p now) (ha : Ahead p now) (c : TimerCall α) :
    Scheduled (p.call now c) now ∧ Ahead (p.call now c) now := by
  cases c with
  | create type callback =>
    have hg := h.good.timerCreate type callback
    rcases hq : p.timerCreate false type callback with ⟨q, _ | x⟩
    · rw [TimerPool.call, hq, timerCreate_none hq]
      exact ⟨h, ha⟩
    · rw [hq] at hg
      obtain ⟨hu, -, ht, hl, -, -⟩ := timerCreate_eq hq
      have hother : ∀ j, j ≠ x.index → q.timers j = p.timers j := fun j hj => by rw [ht, Function.update_of_ne hj]
      have hoff : (q.timers x.index).active = false := by rw [ht, Function.update_self]
      have hnot : x.index ∉ p.activeTimers := fun hm => by
        have := h.good.activeUsed _ ((h.good.active _).mp hm)
        rw [hu] at this
        cases this
      rw [TimerPool.call, hq]
      refine ⟨h.leave hg hother (by rw [hl, List.erase_of_not_mem hnot]) hoff, ha.change hother fun hon => ?_⟩
      rw [hoff] at hon
      cases hon
  | start hd ms =>
    have hg := h.good.timerStart now hd ms
    rw [TimerPool.call]
    by_cases hms : ms = 0 ∨ ms = forever
    · rw [timerStart_inval hms]
      exact ⟨h, ha⟩
    obtain ⟨h₀, hf⟩ := not_or.mp hms
    cases hi : p.timerFromHandle hd with
    | none =>
      rw [timerStart_none hi]
      exact ⟨h, ha⟩
    | some i =>
      have hlist := h.good.timerStart_join now hi h₀ hf
      obtain ⟨q, e, -, ht, -, -⟩ := h.good.timerStart_eq now hi h₀ hf
      rw [e] at hg hlist ⊢
      have hother : ∀ j, j ≠ i → q.timers j = p.timers j := fun j hj => by rw [ht, Function.update_of_ne hj]
      have hself : (q.timers i).interval = msToTicks ms ∧ (q.timers i).deadline = now + msToTicks ms := by
        rw [ht, Function.update_self]
        exact ⟨rfl, rfl⟩
      have hrem : q.remaining now i = (msToTicks ms).toNat := by
        rw [remaining, hself.2, BitVec.add_comm, BitVec.add_sub_cancel]
      obtain ⟨hpos, hle⟩ := msToTicks_near h₀ hf
      exact ⟨h.join hg hother hlist (hrem ▸ hle) (by rw [hself.1]; exact ⟨hpos, hle⟩),
        ha.change hother fun _ => hrem ▸ hpos⟩
  | stop hd =>
    have hg := h.good.timerStop hd
    rw [TimerPool.call]
    cases hi : p.timerFromHandle hd with
    | none =>
      rw [timerStop_none hi]
      exact ⟨h, ha⟩
    | some i =>
      obtain ⟨q, e, -, ht, hl, -⟩ := h.good.timerStop_eq hi
      rw [e] at hg ⊢
      have hother : ∀ j, j ≠ i → q.timers j = p.timers j := fun j hj => by rw [ht, Function.update_of_ne hj]
      have hoff : (q.timers i).active = false := by rw [ht, Function.update_self]
      refine ⟨h.leave hg hother hl hoff, ha.change hother fun hon => ?_⟩
      rw [hoff] at hon
      cases hon
  | delete hd =>
    have hg := h.good.timerDelete hd
    rw [TimerPool.call]
    cases hi : p.timerFromHandle hd with
    | none =>
      rw [timerDelete_none hi]
      exact ⟨h, ha⟩
    | some i =>
      obtain ⟨q, e, -, ht, hl, -⟩ := h.good.timerDelete_eq hi
      rw [e] at hg ⊢
      have hother : ∀ j, j ≠ i → q.timers j = p.timers j := fun j hj => by rw [ht, Function.update_of_ne hj]
      have hoff : (q.timers i).active = false := by rw [ht, Function.update_self]
      refine ⟨h.leave hg hother hl hoff, ha.change hother fun hon => ?_⟩
      rw [hoff] at hon
      cases hon

end

/-- The service takes a pending timer. -/
theorem Scheduled.dispatchTake (h : Scheduled p now) (ha : Ahead p now) {f : Option α}
    (hq : p.dispatchTake = some (q, f)) : Scheduled q now ∧ Ahead q now := by
  obtain ⟨i, rest, -, -, -, -, ht, hl, -⟩ := h.good.dispatchTake_eq hq
  have hsame : ∀ j, (q.timers j).deadline = (p.timers j).deadline ∧ (q.timers j).interval = (p.timers j).interval ∧
      (q.timers j).active = (p.timers j).active := by
    intro j
    rw [ht]
    by_cases hj : j = i
    · subst hj
      rw [Function.update_self]
      exact ⟨rfl, rfl, rfl⟩
    · rw [Function.update_of_ne hj]
      exact ⟨rfl, rfl, rfl⟩
  refine ⟨h.same (h.good.dispatchTake hq) hl hsame, fun j hj => ?_⟩
  rw [remaining, (hsame j).1]
  exact ha j ((hsame j).2.2 ▸ hj)

end TimerPool

/-! ### Every run -/

namespace Sys

variable [cfg : Config] {s s' : Sys} {a : Act}

/-- Only the tick moves the clock. -/
theorem totalTicks_step (hs : Sound s.core) (ha : ∀ pending, a ≠ .isr (.tick pending)) (h : s.step a = some s') :
    s'.core.totalTicks = s.core.totalTicks := by
  rcases step_times hs ha h with ⟨hk, -⟩ | ⟨t, w, f, -, e, -⟩
  · exact hk.1
  · rw [e]
    exact (Core.blockTask_times s.core t w f.timeoutMs).1

theorem getTick_step (hs : Sound s.core) (ha : ∀ pending, a ≠ .isr (.tick pending)) (h : s.step a = some s') :
    s'.core.getTick = s.core.getTick := by
  rw [Core.getTick, totalTicks_step hs ha h, Core.getTick]

/-- The tick moves it by one. -/
theorem getTick_tick (hs : Sound s.core) {pending : Bool} (h : s.step (.isr (.tick pending)) = some s') :
    s'.core.getTick = (s.core.totalTicks + 1).setWidth 32 ∧ s'.core.getTick = s.core.getTick + 1 := by
  obtain ⟨-, -, hk⟩ := tick_times hs h
  have hticks : s.core.countTick.totalTicks = s.core.totalTicks + 1 := by
    unfold Core.countTick
    dsimp only
    split <;> rfl
  have e : s'.core.getTick = (s.core.totalTicks + 1).setWidth 32 := by rw [Core.getTick, hk.1, hticks]
  refine ⟨e, ?_⟩
  rw [e, Core.getTick, BitVec.setWidth_add _ _ (by decide)]
  rfl

/-- When the scheduler has been started no tick has come. -/
theorem getTick_of_boot {tasks : List CreateArgs} {memory : Bool} (h : run step init (boot tasks memory) = some s) :
    s.core.getTick = 0 := by
  rw [← List.append_nil (boot tasks memory)] at h
  obtain ⟨hp, -⟩ := path_of_boot h
  rw [List.append_nil] at hp
  have hp := hp.both (P := fun a => ∀ pending, a ≠ .isr (.tick pending)) fun a ha => by
    rcases List.mem_append.mp ha with ha | ha
    · obtain ⟨x, -, rfl⟩ := List.mem_map.mp ha
      exact fun _ e => by cases e
    · rw [List.mem_singleton.mp ha]
      exact fun _ e => by cases e
  have := hp.invariant (I := fun s => Sound s.core ∧ s.core.totalTicks = 0)
    (fun s a s' hi hc hstep => ⟨sound_step hi.1 hc.1 hstep, (totalTicks_step hi.1 hc.2 hstep).trans hi.2⟩)
    ⟨sound_init, rfl⟩
  rw [Core.getTick, this.2]
  rfl

end Sys

namespace TimerSys

variable {α : Type} [cfg : Config] [ocfg : ObjectConfig] {s s' : TimerSys α} {a : TimerAct α}

/-- The active list is in order at the present tick, and no deadline has come. -/
structure InOrder (s : TimerSys α) : Prop where
  attended : Attended s
  scheduled : s.timers.Scheduled s.sys.core.getTick
  ahead : s.timers.Ahead s.sys.core.getTick

theorem inOrder_booted {tasks : List CreateArgs} {memory : Bool} {k : Sys}
    (h : run Sys.step Sys.init (Sys.boot tasks memory) = some k) (calls : List (TimerCall α)) :
    InOrder (booted k calls) := by
  have hcalls : ∀ {p : TimerPool α}, p.Scheduled 0 → p.Ahead 0 →
      (calls.foldl (fun p c => p.call 0 c) p).Scheduled 0 ∧ (calls.foldl (fun p c => p.call 0 c) p).Ahead 0 := by
    induction calls with
    | nil => exact fun hs ha => ⟨hs, ha⟩
    | cons c cs ih =>
      intro p hs ha
      obtain ⟨hs', ha'⟩ := hs.call ha c
      exact ih hs' ha'
  have hoff : ∀ j, ((TimerPool.init : TimerPool α).timers j).active ≠ true := fun _ => Bool.false_ne_true
  have h₀ : (TimerPool.init : TimerPool α).Scheduled 0 :=
    ⟨TimerPool.good_init, fun j hj => absurd hj (hoff j), fun j hj => absurd hj (hoff j), List.Pairwise.nil⟩
  obtain ⟨hs, ha⟩ := hcalls h₀ fun j hj => absurd hj (hoff j)
  have hnow : (booted k calls).sys.core.getTick = 0 := Sys.getTick_of_boot h
  exact ⟨attended_booted h calls, hnow ▸ hs, hnow ▸ ha⟩

namespace InOrder

omit ocfg in
/-- The tick has stayed. -/
theorem of_now {now : Word} (ha : Attended s) (hnow : s.sys.core.getTick = now)
    (hp : s.timers.Scheduled now ∧ s.timers.Ahead now) : InOrder s := ⟨ha, hnow ▸ hp.1, hnow ▸ hp.2⟩

/-- A tick. -/
theorem ticks (h : InOrder s) (hstep : s.step .tick = some s') :
    s'.timers = s.timers.timerTick s'.sys.core.getTick ∧ s.timers.Scheduled s'.sys.core.getTick ∧
      s'.sys.core.getTick = s.sys.core.getTick + 1 := by
  obtain ⟨k, hk, rfl⟩ := Option.map_eq_some_iff.mp hstep
  obtain ⟨e, e'⟩ := Sys.getTick_tick h.attended.sound hk
  refine ⟨by rw [e], ?_, e'⟩
  rw [e']
  exact h.scheduled.tick h.ahead

end InOrder

theorem inOrder_step (h : InOrder s) (hstep : s.step a = some s') : InOrder s' := by
  have ha := attended_step h.attended hstep
  have same : ∀ {b k}, s.sys.step b = some k → (∀ pending, b ≠ .isr (.tick pending)) →
      k.core.getTick = s.sys.core.getTick := fun hk hb => Sys.getTick_step h.attended.sound hb hk
  cases a with
  | native b =>
    have hmap : (∀ pending, b ≠ .isr (.tick pending)) ∧ ∃ k, s.sys.step b = some k ∧ s' = { s with sys := k } := by
      cases b with
      | call c =>
        refine ⟨by rintro _ ⟨⟩, ?_⟩
        cases c with
        | timerServiceWait => cases hstep
        | _ =>
          obtain ⟨-, hstep⟩ := Option.ite_none_right_eq_some.mp hstep
          obtain ⟨k, hk, rfl⟩ := Option.map_eq_some_iff.mp hstep
          exact ⟨k, hk, rfl⟩
      | isr c =>
        cases c with
        | tick p => cases hstep
        | _ =>
          obtain ⟨k, hk, rfl⟩ := Option.map_eq_some_iff.mp hstep
          exact ⟨by rintro _ ⟨⟩, k, hk, rfl⟩
      | _ =>
        obtain ⟨k, hk, rfl⟩ := Option.map_eq_some_iff.mp hstep
        exact ⟨by rintro _ ⟨⟩, k, hk, rfl⟩
    obtain ⟨hb, k, hk, rfl⟩ := hmap
    exact InOrder.of_now ha (same hk hb) ⟨h.scheduled, h.ahead⟩
  | call c =>
    simp only [step] at hstep
    split at hstep
    · cases hstep
    · obtain ⟨-, hstep⟩ := Option.ite_none_right_eq_some.mp hstep
      cases hstep
      exact InOrder.of_now ha rfl (h.scheduled.call h.ahead c)
  | tick =>
    obtain ⟨e, hs, -⟩ := h.ticks hstep
    obtain ⟨h₁, h₂, -⟩ := hs.timerTick
    exact ⟨ha, e ▸ h₁, e ▸ h₂⟩
  | serve =>
    simp only [step] at hstep
    obtain ⟨-, hstep⟩ := Option.ite_none_right_eq_some.mp hstep
    split at hstep
    · split at hstep
      · cases hstep
        exact InOrder.of_now ha rfl ⟨h.scheduled, h.ahead⟩
      · rename_i hq
        cases hstep
        exact InOrder.of_now ha rfl (h.scheduled.dispatchTake h.ahead hq)
    · cases hstep
      exact InOrder.of_now ha rfl ⟨h.scheduled, h.ahead⟩
    · split at hstep
      · cases hstep
        exact InOrder.of_now ha rfl ⟨h.scheduled, h.ahead⟩
      · obtain ⟨k, hk, rfl⟩ := Option.map_eq_some_iff.mp hstep
        exact InOrder.of_now ha (same hk (by rintro _ ⟨⟩)) ⟨h.scheduled, h.ahead⟩
    · cases hstep
      exact InOrder.of_now ha rfl ⟨h.scheduled, h.ahead⟩

theorem inOrder_path {as : List (TimerAct α)} (h : InOrder s) (hr : run step s as = some s') : InOrder s' :=
  (path_iff_run.mpr hr).invariant (fun _ _ _ hs _ hstep => inOrder_step hs hstep) h

/-- **Reloads keep the phase and the order**: a timer that a tick finds at the head of the active list, late by less than
half the range, gets a deadline a whole number of periods after the old one, and at most one period ahead. In every state
of a run in which each tick is looked at, the active list has the timers that are active in the order of the ticks that
are left, at least one. The next tick handles every timer whose deadline has come, the periodic ones going on a period
later, and no other; and its loop stops by itself. -/
theorem reloads_in_order {tasks : List CreateArgs} {memory : Bool} {k : Sys} {calls : List (TimerCall α)}
    {as : List (TimerAct α)} (h₀ : run Sys.step Sys.init (Sys.boot tasks memory) = some k)
    (h : run step (booted k calls) as = some s) :
    (∀ (p : TimerPool α) (now : Word) (i : ℕ) (rest : List ℕ), p.activeTimers = i :: rest →
      (p.timers i).type = .periodic → 1 ≤ (p.timers i).interval.toNat → (p.timers i).interval.toNat ≤ 2 ^ 31 - 1 →
      (now - (p.timers i).deadline).toNat < 2 ^ 31 →
      TimerPool.Reloaded now (p.timers i) ((p.timerTick now).timers i)) ∧
    (∀ i, i ∈ s.timers.activeTimers ↔ (s.timers.timers i).active = true) ∧
    (∀ i ∈ s.timers.activeTimers, 1 ≤ s.timers.remaining s.sys.core.getTick i ∧
      s.timers.remaining s.sys.core.getTick i ≤ 2 ^ 31 - 1) ∧
    (s.timers.activeTimers.Pairwise fun i j =>
      s.timers.remaining s.sys.core.getTick i ≤ s.timers.remaining s.sys.core.getTick j) ∧
    ∀ s', s.step .tick = some s' →
      (∀ i ∈ s.timers.activeTimers, tickReached s'.sys.core.getTick (s.timers.timers i).deadline = true →
        i ∈ s'.timers.pendingTimers ∧
        ((s.timers.timers i).type = .periodic → i ∈ s'.timers.activeTimers ∧
          (s'.timers.timers i).deadline = (s.timers.timers i).deadline + (s.timers.timers i).interval) ∧
        ((s.timers.timers i).type = .oneshot → i ∉ s'.timers.activeTimers)) ∧
      (∀ i, (i ∈ s.timers.activeTimers → tickReached s'.sys.core.getTick (s.timers.timers i).deadline = false) →
        s'.timers.timers i = s.timers.timers i) ∧
      (∀ i ∈ s'.timers.activeTimers, tickReached s'.sys.core.getTick (s'.timers.timers i).deadline = false) ∧
      ∀ n, s.timers.activeTimers.length ≤ n → s.timers.tickLoop s'.sys.core.getTick n = s'.timers := by
  have hi := inOrder_path (inOrder_booted h₀ calls) h
  have hgood := hi.scheduled.good
  refine ⟨fun p now i rest hl hp h₁ h₂ h₃ => TimerPool.reloaded_timerTick hl hp h₁ h₂ (Nat.le_of_lt_succ h₃),
    hgood.active, fun i hm => ?_, hi.scheduled.ordered, fun s' hstep => ?_⟩
  · have ha := (hgood.active i).mp hm
    exact ⟨hi.ahead i ha, hi.scheduled.near i ha⟩
  obtain ⟨e, hs, -⟩ := hi.ticks hstep
  have hi' := inOrder_step hi hstep
  have hgood' := hi'.scheduled.good
  obtain ⟨-, -, hhandled⟩ := hs.timerTick
  rw [← e] at hhandled
  refine ⟨fun i hm hr => ?_, fun i hnot => ?_, fun i hm => ?_, fun n hn => ?_⟩
  · have ha := (hgood.active i).mp hm
    have hd := (hs.reached_iff ha).mp hr
    have hself := hhandled i
    rw [if_pos ⟨ha, hd⟩] at hself
    refine ⟨?_, fun ht => ?_, fun ht hm' => ?_⟩
    · rw [hgood'.pending, hself]
      cases ht : (s.timers.timers i).type with
      | periodic => rw [TimerPool.expired_periodic ht hd]
      | oneshot => rw [TimerPool.expired_oneshot ht]
    · rw [TimerPool.expired_periodic ht hd] at hself
      rw [hgood'.active, hself, hd]
      exact ⟨ha, rfl⟩
    · rw [TimerPool.expired_oneshot ht] at hself
      rw [hgood'.active, hself] at hm'
      cases hm'
  · rw [hhandled i, if_neg]
    rintro ⟨ha, hd⟩
    have := hnot ((hgood.active i).mpr ha)
    rw [(hs.reached_iff ha).mpr hd] at this
    cases this
  · have ha := (hgood'.active i).mp hm
    exact TimerPool.not_reached_of_ahead (hi'.ahead i ha) (hi'.scheduled.near i ha)
  · rw [hs.tickLoop_eq hn, ← e]

end TimerSys

end Aixos

namespace Aixos.TimerSys

open Transition Aixos.Core

attribute [local instance] Config.default ObjectConfig.default

/-- A periodic timer is created and started, then the scheduler. -/
def periodicTimer : List (TimerCall ℕ) := [.create .periodic (some 7), .start (some ⟨0, 1⟩) 2]

/-- The service sleeps, and the first tick has come. -/
def firstTick : List (TimerAct ℕ) := [.serve, .serve, .native .switch, .native .isrEnter, .tick]

theorem reloads_in_order_once : ∃ k s s',
    run Sys.step Sys.init (Sys.boot [{ stackSize := 512, priority := 5 }] true) = some k ∧
    run step (booted k periodicTimer) firstTick = some s ∧ s.step .tick = some s' ∧
    tickReached s'.sys.core.getTick (s.timers.timers 0).deadline = true ∧ 0 ∈ s'.timers.pendingTimers ∧
    0 ∈ s'.timers.activeTimers ∧
    (s'.timers.timers 0).deadline = (s.timers.timers 0).deadline + (s.timers.timers 0).interval := by
  obtain ⟨k, hk, hp⟩ := exists_run Sys.step Sys.init (Sys.boot [{ stackSize := 512, priority := 5 }] true) (fun k =>
    ((run step (booted k periodicTimer) firstTick).bind fun s => (s.step .tick).map fun s' =>
      decide (0 ∈ s.timers.activeTimers ∧ (s.timers.timers 0).type = .periodic ∧
        tickReached s'.sys.core.getTick (s.timers.timers 0).deadline = true)) = some true) (by decide +kernel)
  obtain ⟨s, s', hr, hstep, h⟩ := exists_run_step step _ _ _ (fun s s' =>
    decide (0 ∈ s.timers.activeTimers ∧ (s.timers.timers 0).type = .periodic ∧
      tickReached s'.sys.core.getTick (s.timers.timers 0).deadline = true)) (of_decide_eq_true hp)
  obtain ⟨hm, ht, hreached⟩ := of_decide_eq_true h
  obtain ⟨-, -, -, -, hnext⟩ := reloads_in_order hk hr
  obtain ⟨hpend, hper, -⟩ := (hnext s' hstep).1 0 hm hreached
  exact ⟨k, s, s', hk, hr, hstep, hreached, hpend, (hper ht).1, (hper ht).2⟩

end Aixos.TimerSys
