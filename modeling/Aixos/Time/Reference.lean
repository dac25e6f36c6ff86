import Aixos.Kernel.TimerRuns
import Aixos.Time.Reloads

/-!
# Timers against their reference model

* `TimerRef` — one timer as its users see it: how long the current arming is ago, and how many of its expiries have been
  answered by a callback.
* `TimerPool.Follows` — the pool agrees with it.
* `TimerRun.follows_reference` — `aixos_timer_dispatch` calls the callbacks that are due, if no timer is started while an
  expiry of it is pending; `TimerRun.stale_expiry` — what happens otherwise.
-/

namespace Aixos

open Transition

variable {α : Type}

/-! ### The reference model -/

/-- A timer. -/
structure TimerRef (α : Type) where
  /-- Whether it is periodic. -/
  type : TimerType := .oneshot
  /-- What it calls. -/
  callback : Option α := none
  /-- The interval of the current arming. -/
  arming : Option ℕ := none
  /-- How many ticks ago that was. -/
  elapsed : ℕ := 0
  /-- How many of its expiries came before the last callback. -/
  answered : ℕ := 0

namespace TimerRef

/-- How often the current arming has expired: a periodic timer at every multiple of its interval, a one-shot timer once. -/
def expiries (r : TimerRef α) : ℕ :=
  match r.arming with
  | none => 0
  | some n =>
    match r.type with
    | .periodic => r.elapsed / n
    | .oneshot => min 1 (r.elapsed / n)

/-- An expiry of the current arming has not been answered. -/
def Due (r : TimerRef α) : Prop := r.answered < r.expiries

/-- What an event does to timer `i`. -/
def see (i : ℕ) (r : TimerRef α) : TimerEvent α → TimerRef α
  | .created j type callback => if j = i then { type, callback } else r
  | .started j n => if j = i then { r with arming := some n, elapsed := 0, answered := 0 } else r
  | .stopped j => if j = i then { r with arming := none, answered := 0 } else r
  | .deleted j => if j = i then {} else r
  | .ticked => { r with elapsed := r.elapsed + 1 }
  | .called j _ => if j = i then { r with answered := r.expiries } else r

/-- Timer `i` after some events. -/
def after (es : List (TimerEvent α)) (i : ℕ) : TimerRef α := es.foldl (see i) {}

variable {r : TimerRef α} {i n : ℕ}

theorem expiries_none (h : r.arming = none) : r.expiries = 0 := by
  unfold expiries
  rw [h]

theorem expiries_periodic (h : r.arming = some n) (ht : r.type = .periodic) : r.expiries = r.elapsed / n := by
  unfold expiries
  rw [h, ht]

theorem expiries_oneshot (h : r.arming = some n) (ht : r.type = .oneshot) : r.expiries = min 1 (r.elapsed / n) := by
  unfold expiries
  rw [h, ht]

end TimerRef

namespace TimerEvent

/-- A timer is created, started, stopped or deleted. -/
def rearms (i : ℕ) : TimerEvent α → Bool
  | .created j .. | .started j _ | .stopped j | .deleted j => j = i
  | .ticked | .called .. => false

/-- A tick. -/
def isTick : TimerEvent α → Bool
  | .ticked => true
  | .created .. | .started .. | .stopped _ | .deleted _ | .called .. => false

end TimerEvent

namespace TimerRef

variable {es : List (TimerEvent α)} {e : TimerEvent α} {r : TimerRef α} {i n : ℕ}

theorem after_concat (es : List (TimerEvent α)) (e : TimerEvent α) (i : ℕ) : after (es ++ [e]) i = (after es i).see i e := by
  rw [after, List.foldl_append]
  rfl

/-- What has not been rearmed goes on. -/
theorem see_arming (he : e.rearms i = false) : (r.see i e).arming = r.arming ∧
    (r.see i e).elapsed = r.elapsed + if e.isTick then 1 else 0 := by
  cases e with
  | created j | started j | stopped j | deleted j =>
    have hj : j ≠ i := of_decide_eq_false he
    simp [see, hj, TimerEvent.isTick]
  | ticked => exact ⟨rfl, rfl⟩
  | called j f =>
    unfold see
    dsimp only
    split <;> exact ⟨rfl, rfl⟩

/-- **The current arming**: since the timer has been started it has not been stopped, deleted or started again, and as many
ticks have come as have elapsed. -/
theorem started_of_arming (h : (after es i).arming = some n) : ∃ pre post, es = pre ++ .started i n :: post ∧
    (∀ e ∈ post, e.rearms i = false) ∧ (after es i).elapsed = post.countP TimerEvent.isTick := by
  induction es using List.reverseRecOn with
  | nil => cases h
  | append_singleton es e ih =>
    rw [after_concat] at h ⊢
    cases he : e.rearms i with
    | false =>
      obtain ⟨harm, hel⟩ := see_arming (r := after es i) he
      rw [harm] at h
      obtain ⟨pre, post, heq, hpost, hcount⟩ := ih h
      refine ⟨pre, post ++ [e], by rw [heq]; simp, fun x hx => ?_, ?_⟩
      · rcases List.mem_append.mp hx with hx | hx
        · exact hpost x hx
        · cases List.mem_singleton.mp hx
          exact he
      · rw [hel, hcount, List.countP_append, List.countP_singleton]
    | true =>
      cases e with
      | created j | stopped j | deleted j =>
        have hj : j = i := of_decide_eq_true he
        subst hj
        simp [see] at h
      | started j m =>
        have hj : j = i := of_decide_eq_true he
        subst hj
        have e : (after es j).see j (.started j m) = { after es j with arming := some m, elapsed := 0, answered := 0 } :=
          if_pos rfl
        rw [e] at h ⊢
        cases h
        exact ⟨es, [], rfl, by simp, rfl⟩
      | ticked | called => cases he

/-- What is due has been armed at least one interval ago. -/
theorem Due.started (h : (after es i).Due) : ∃ n pre post, es = pre ++ .started i n :: post ∧
    (∀ e ∈ post, e.rearms i = false) ∧ n ≤ post.countP TimerEvent.isTick := by
  have hpos : 0 < (after es i).expiries := Nat.zero_lt_of_lt h
  cases hn : (after es i).arming with
  | none =>
    rw [expiries_none hn] at hpos
    exact absurd hpos (lt_irrefl 0)
  | some n =>
    obtain ⟨pre, post, heq, hpost, hcount⟩ := started_of_arming hn
    refine ⟨n, pre, post, heq, hpost, ?_⟩
    rw [← hcount]
    have hdiv : 0 < (after es i).elapsed / n := by
      cases ht : (after es i).type with
      | periodic => rwa [expiries_periodic hn ht] at hpos
      | oneshot =>
        rw [expiries_oneshot hn ht] at hpos
        exact (Nat.lt_min.mp hpos).2
    exact Nat.le_of_not_lt fun hlt => hdiv.ne' (Nat.div_eq_of_lt hlt)

end TimerRef

/-! ### The pool -/

namespace TimerPool

variable {p q : TimerPool α} {now : Word} {i j : ℕ} {r : TimerRef α}

/-- **What `aixos_timer_dispatch` does**: it calls the callbacks of the timers that are pending, in their order. -/
theorem Good.dispatch_eq (h : Good p) : p.dispatch.2 = p.pendingTimers.map (fun i => (i, (p.timers i).callback)) ∧
    p.dispatch.1.pendingTimers = [] ∧ p.dispatch.1.activeTimers = p.activeTimers ∧ Good p.dispatch.1 ∧
    ∀ j, p.dispatch.1.timers j = { p.timers j with pending := false } := by
  unfold dispatch
  generalize hn : p.pendingTimers.length = n
  induction n generalizing p with
  | zero =>
    have hnil := List.length_eq_zero_iff.mp hn
    refine ⟨by rw [hnil]; rfl, hnil, rfl, h, fun j => ?_⟩
    have hp : (p.timers j).pending = false := by
      rw [← Bool.not_eq_true, ← h.pending, hnil]
      exact List.not_mem_nil
    rw [← hp]
    rfl
  | succ n ih =>
    obtain ⟨i, rest, hl⟩ := List.exists_cons_of_length_eq_add_one hn
    have htake : p.dispatchTake = some ({ p with pendingTimers := rest }.setTimer i fun t => { t with pending := false },
        (p.timers i).callback) := by
      unfold TimerPool.dispatchTake
      rw [hl]
    obtain ⟨i', rest', hl', -, -, -, ht, hactive, hrest⟩ := h.dispatchTake_eq htake
    obtain ⟨rfl, rfl⟩ := List.cons.inj (hl.symm.trans hl')
    have hni : i ∉ rest := (List.nodup_cons.mp (hl ▸ h.pendingNodup)).1
    obtain ⟨h₁, h₂, h₃, h₄, h₅⟩ := ih (h.dispatchTake htake) (by rw [hrest]; rw [hl] at hn; exact Nat.succ.inj hn)
    rw [dispatchLoop, hl, htake]
    refine ⟨?_, h₂, h₃.trans hactive, h₄, fun j => ?_⟩
    · rw [List.map_cons]
      dsimp only
      rw [h₁, hrest]
      refine congrArg _ (List.map_congr_left fun j hj => ?_)
      have hne : j ≠ i := fun e => hni (e ▸ hj)
      rw [ht, Function.update_of_ne hne]
    · dsimp only
      rw [h₅ j, ht]
      by_cases hj : j = i
      · subst hj
        rw [Function.update_self]
      · rw [Function.update_of_ne hj]

/-- Timer `i` of the pool agrees with the reference model at tick `now`. -/
structure Follows (p : TimerPool α) (now : Word) (i : ℕ) (r : TimerRef α) : Prop where
  type : (p.timers i).type = r.type
  callback : (p.timers i).callback = r.callback
  pos : ∀ n, r.arming = some n → 0 < n
  active : (p.timers i).active = true ↔ ∃ n, r.arming = some n ∧ (r.type = .oneshot → r.elapsed < n)
  next : ∀ n, r.arming = some n → (p.timers i).active = true →
    (p.timers i).interval.toNat = n ∧ p.remaining now i = n - r.elapsed % n
  pending : (p.timers i).pending = true ↔ r.Due
  answered : r.answered ≤ r.expiries

theorem follows_init : Follows (init : TimerPool α) now i {} where
  type := rfl
  callback := rfl
  pos n h := by cases h
  active := by simp [init]
  next n h := by cases h
  pending := by simp [init, TimerRef.Due, TimerRef.expiries]
  answered := le_rfl

namespace Follows

/-- A timer whose fields stay. -/
theorem of_eq (h : Follows p now i r) (e : q.timers i = p.timers i) : Follows q now i r where
  type := by rw [e, h.type]
  callback := by rw [e, h.callback]
  pos := h.pos
  active := by rw [e, h.active]
  next n hn ha := by
    rw [e] at ha
    rw [remaining, e]
    exact h.next n hn ha
  pending := by rw [e, h.pending]
  answered := h.answered

theorem due_false (h : Follows p now i r) (hp : (p.timers i).pending = false) : r.expiries = r.answered := by
  by_contra hne
  have hd : r.Due := lt_of_le_of_ne h.answered (Ne.symm hne)
  rw [h.pending.mpr hd] at hp
  cases hp

/-! ### Ticks -/

section

variable {n e : ℕ}

/-- The number of ticks that is left after `e` of them. -/
theorem succ_div_mod (hn : 0 < n) : (n - e % n = 1 ∧ (e + 1) / n = e / n + 1 ∧ (e + 1) % n = 0) ∨
    (n - e % n ≠ 1 ∧ (e + 1) / n = e / n ∧ (e + 1) % n = e % n + 1 ∧ e % n + 1 < n) := by
  have hlt := Nat.mod_lt e hn
  have hsplit : e + 1 = n * (e / n) + (e % n + 1) := by
    rw [← Nat.add_assoc, Nat.div_add_mod]
  by_cases hlast : e % n + 1 = n
  · rw [hlast, ← Nat.mul_succ] at hsplit
    exact .inl ⟨by omega, by rw [hsplit, Nat.mul_div_cancel_left _ hn], by rw [hsplit, Nat.mul_mod_right]⟩
  · have hless : e % n + 1 < n := by omega
    refine .inr ⟨by omega, ?_, ?_, hless⟩
    · rw [hsplit, Nat.mul_add_div hn, Nat.div_eq_of_lt hless, Nat.add_zero]
    · rw [hsplit, Nat.mul_add_mod, Nat.mod_eq_of_lt hless]

end

/-- What is left to the deadline is 1 if the next tick is the deadline. -/
theorem remaining_eq_one : p.remaining now i = 1 ↔ (p.timers i).deadline = now + 1 := by
  unfold remaining
  constructor
  · intro h
    bv_omega
  · intro e
    rw [e, BitVec.add_comm, BitVec.add_sub_cancel]
    rfl

/-- A tick finds a timer that is not active. -/
theorem tick_off (h : Follows p now i r) (hoff : (p.timers i).active = false) (hq : q.timers i = p.timers i) :
    Follows q (now + 1) i (r.see i .ticked) := by
  have hnot : ∀ n, r.arming = some n → r.type = .oneshot ∧ n ≤ r.elapsed := by
    intro n hn
    by_contra hc
    rw [h.active.mpr ⟨n, hn, fun ht => not_le.mp fun hle => hc ⟨ht, hle⟩⟩] at hoff
    cases hoff
  have hsame : (r.see i .ticked).expiries = r.expiries := by
    cases hn : r.arming with
    | none =>
      have hn' : (r.see i .ticked).arming = none := hn
      rw [TimerRef.expiries_none hn, TimerRef.expiries_none hn']
    | some n =>
      obtain ⟨ht, hle⟩ := hnot n hn
      have hpos := h.pos n hn
      have hn' : (r.see i .ticked).arming = some n := hn
      have ht' : (r.see i .ticked).type = .oneshot := ht
      have hle' : n ≤ (r.see i .ticked).elapsed := hle.trans (Nat.le_succ _)
      rw [TimerRef.expiries_oneshot hn ht, TimerRef.expiries_oneshot hn' ht', min_eq_left (Nat.div_pos hle' hpos),
        min_eq_left (Nat.div_pos hle hpos)]
  refine ⟨by rw [hq]; exact h.type, by rw [hq]; exact h.callback, h.pos, ?_, fun n _ ha => ?_, ?_, ?_⟩
  · rw [hq, hoff]
    refine iff_of_false Bool.false_ne_true ?_
    rintro ⟨n, hn, hlt⟩
    obtain ⟨ht, hle⟩ := hnot n hn
    have hlt : r.elapsed + 1 < n := hlt ht
    omega
  · rw [hq, hoff] at ha
    cases ha
  · rw [hq, h.pending, TimerRef.Due, TimerRef.Due, hsame]
    rfl
  · rw [hsame]
    exact h.answered

/-- A tick finds an active timer whose deadline it is not. -/
theorem tick_on (h : Follows p now i r) (hon : (p.timers i).active = true) (hq : q.timers i = p.timers i)
    (hpos : 0 < p.remaining now i) (hne : p.remaining now i ≠ 1) : Follows q (now + 1) i (r.see i .ticked) := by
  obtain ⟨n, hn, hlt⟩ := h.active.mp hon
  obtain ⟨hint, hrem⟩ := h.next n hn hon
  rcases succ_div_mod (h.pos n hn) with ⟨h₁, -⟩ | ⟨-, hdiv, hmod, hless⟩
  · exact absurd (hrem.trans h₁) hne
  have hn' : (r.see i .ticked).arming = some n := hn
  have hsame : (r.see i .ticked).expiries = r.expiries := by
    cases ht : r.type with
    | periodic =>
      have ht' : (r.see i .ticked).type = .periodic := ht
      rw [TimerRef.expiries_periodic hn ht, TimerRef.expiries_periodic hn' ht']
      exact hdiv
    | oneshot =>
      have ht' : (r.see i .ticked).type = .oneshot := ht
      rw [TimerRef.expiries_oneshot hn ht, TimerRef.expiries_oneshot hn' ht']
      exact congrArg _ hdiv
  refine ⟨by rw [hq]; exact h.type, by rw [hq]; exact h.callback, h.pos, ?_, fun m hm _ => ?_, ?_, ?_⟩
  · rw [hq, hon]
    refine iff_of_true rfl ⟨n, hn, fun ht => ?_⟩
    have hlt := hlt ht
    rw [Nat.mod_eq_of_lt hlt] at hless
    exact hless
  · cases hn.symm.trans hm
    refine ⟨by rw [hq]; exact hint, ?_⟩
    have hone : q.remaining (now + 1) i = p.remaining now i - 1 := by
      rw [remaining, hq]
      exact toNat_sub_add_one fun e => hpos.ne' (remaining_eq_zero.mpr e)
    rw [hone, hrem]
    show n - r.elapsed % n - 1 = n - (r.elapsed + 1) % n
    rw [hmod, Nat.sub_sub]
  · rw [hq, h.pending, TimerRef.Due, TimerRef.Due, hsame]
    rfl
  · rw [hsame]
    exact h.answered

/-- The deadline has come. -/
theorem tick_due (h : Follows p now i r) (hon : (p.timers i).active = true)
    (hq : q.timers i = expired (now + 1) (p.timers i)) (hone : p.remaining now i = 1) :
    Follows q (now + 1) i (r.see i .ticked) := by
  have hd := remaining_eq_one.mp hone
  obtain ⟨n, hn, hlt⟩ := h.active.mp hon
  obtain ⟨hint, hrem⟩ := h.next n hn hon
  have hpos := h.pos n hn
  rcases succ_div_mod hpos with ⟨-, hdiv, hmod⟩ | ⟨hne, -⟩
  swap
  · exact absurd (hrem.symm.trans hone) hne
  have hn' : (r.see i .ticked).arming = some n := hn
  cases ht : r.type with
  | periodic =>
    have ht' : (r.see i .ticked).type = .periodic := ht
    rw [expired_periodic (h.type.trans ht) hd] at hq
    have hexp : (r.see i .ticked).expiries = r.expiries + 1 := by
      rw [TimerRef.expiries_periodic hn' ht', TimerRef.expiries_periodic hn ht]
      exact hdiv
    refine ⟨by rw [hq]; exact h.type, by rw [hq]; exact h.callback, h.pos, ?_, fun m hm _ => ?_, ?_, ?_⟩
    · rw [hq]
      exact iff_of_true hon ⟨n, hn, fun hc => absurd (ht'.symm.trans hc) (by decide)⟩
    · cases hn.symm.trans hm
      rw [remaining, hq]
      refine ⟨hint, ?_⟩
      show (now + 1 + (p.timers i).interval - (now + 1)).toNat = n - (r.elapsed + 1) % n
      rw [hmod, BitVec.add_comm, BitVec.add_sub_cancel]
      exact hint
    · rw [hq, TimerRef.Due, hexp]
      exact iff_of_true rfl (Nat.lt_succ_of_le h.answered)
    · rw [hexp]
      exact h.answered.trans (Nat.le_succ _)
  | oneshot =>
    have ht' : (r.see i .ticked).type = .oneshot := ht
    rw [expired_oneshot (h.type.trans ht)] at hq
    have hlt := hlt ht
    have hzero : r.expiries = 0 := by
      rw [TimerRef.expiries_oneshot hn ht, Nat.div_eq_of_lt hlt]
      rfl
    have hexp : (r.see i .ticked).expiries = 1 := by
      rw [TimerRef.expiries_oneshot hn' ht']
      show min 1 ((r.elapsed + 1) / n) = 1
      rw [hdiv, Nat.div_eq_of_lt hlt]
      rfl
    have hans : r.answered = 0 := Nat.le_zero.mp (hzero ▸ h.answered)
    have hlast : n ≤ r.elapsed + 1 := Nat.le_of_dvd (Nat.succ_pos _) (Nat.dvd_of_mod_eq_zero hmod)
    refine ⟨by rw [hq]; exact h.type, by rw [hq]; exact h.callback, h.pos, ?_, fun m _ ha => ?_, ?_, ?_⟩
    · rw [hq]
      refine iff_of_false Bool.false_ne_true ?_
      rintro ⟨m, hm, hlt'⟩
      cases hn.symm.trans hm
      exact absurd (hlt' ht') (not_lt.mpr hlast)
    · rw [hq] at ha
      cases ha
    · rw [hq, TimerRef.Due, hexp]
      exact iff_of_true rfl (Nat.lt_succ_of_le hans.le)
    · rw [hexp]
      exact hans.le.trans (Nat.zero_le _)

/-- A tick. -/
theorem tick (h : Follows p now i r) (ha : Ahead p now) (hh : Handled (now + 1) p q) :
    Follows q (now + 1) i (r.see i .ticked) := by
  have hi := hh i
  cases hon : (p.timers i).active with
  | false =>
    rw [if_neg fun hc => by rw [hon] at hc; cases hc.1] at hi
    exact h.tick_off hon hi
  | true =>
    by_cases hone : p.remaining now i = 1
    · rw [if_pos ⟨hon, remaining_eq_one.mp hone⟩] at hi
      exact h.tick_due hon hi hone
    · rw [if_neg fun hc => hone (remaining_eq_one.mpr hc.2)] at hi
      exact h.tick_on hon hi (ha i hon) hone

end Follows

/-! ### Calls and callbacks -/

section

variable [cfg : Config] [ocfg : ObjectConfig]

/-- No timer is started while an expiry of it is pending. -/
def Fresh (p : TimerPool α) (now : Word) : TimerCall α → Prop
  | .start h intervalMs =>
    (p.timerStart false now h intervalMs).2 = Code.ok → ∀ j ∈ p.timerFromHandle h, (p.timers j).pending = false
  | .create .. | .stop _ | .delete _ => True

instance (p : TimerPool α) (now : Word) : (c : TimerCall α) → Decidable (p.Fresh now c)
  | .start h intervalMs => inferInstanceAs (Decidable ((p.timerStart false now h intervalMs).2 = Code.ok →
      ∀ j ∈ p.timerFromHandle h, (p.timers j).pending = false))
  | .create .. | .stop _ | .delete _ => isTrue trivial

namespace Follows

omit cfg ocfg in
/-- A timer that is not armed. -/
theorem unarmed (ht : (p.timers i).type = r.type) (hc : (p.timers i).callback = r.callback)
    (ha : (p.timers i).active = false) (hp : (p.timers i).pending = false) (hr : r.arming = none) (h₀ : r.answered = 0) :
    Follows p now i r := by
  have hnone : ∀ n, r.arming ≠ some n := fun n hn => by
    rw [hr] at hn
    cases hn
  refine ⟨ht, hc, fun n hn => absurd hn (hnone n), ?_, fun n hn => absurd hn (hnone n), ?_, ?_⟩
  · rw [ha]
    exact iff_of_false Bool.false_ne_true fun ⟨n, hn, _⟩ => hnone n hn
  · rw [hp, TimerRef.Due, TimerRef.expiries_none hr]
    exact iff_of_false Bool.false_ne_true (Nat.not_lt_zero _)
  · rw [h₀]
    exact Nat.zero_le _

/-- **A call** does to the pool what it does to the reference model. -/
theorem call (hg : Good p) (h : Follows p now i r) (c : TimerCall α) (hf : p.Fresh now c) :
    Follows (p.call now c) now i ((p.seen now c).foldl (TimerRef.see i) r) := by
  cases c with
  | create type callback =>
    rw [TimerPool.call, seen]
    rcases hq : p.timerCreate false type callback with ⟨q, _ | x⟩
    · rw [timerCreate_none hq]
      exact h
    · obtain ⟨-, -, ht, -⟩ := timerCreate_eq hq
      show Follows q now i (r.see i (.created x.index type callback))
      by_cases hi : x.index = i
      · subst hi
        have e : r.see x.index (.created x.index type callback) = { type, callback } := if_pos rfl
        have hq : q.timers x.index = { type := type, callback := callback } := by rw [ht, Function.update_self]
        rw [e]
        exact unarmed (by rw [hq]) (by rw [hq]) (by rw [hq]) (by rw [hq]) rfl rfl
      · have e : r.see i (.created x.index type callback) = r := if_neg hi
        rw [e]
        exact h.of_eq (by rw [ht, Function.update_of_ne (Ne.symm hi)])
  | start hd ms =>
    rw [TimerPool.call, seen]
    by_cases hms : ms = 0 ∨ ms = forever
    · rw [timerStart_inval hms]
      cases hj : p.timerFromHandle hd with
      | none => exact h
      | some j => exact h
    obtain ⟨h₀, hfv⟩ := not_or.mp hms
    cases hj : p.timerFromHandle hd with
    | none =>
      rw [timerStart_none hj]
      exact h
    | some j =>
      obtain ⟨q, e, -, ht, -, -⟩ := hg.timerStart_eq now hj h₀ hfv
      have hok : (p.timerStart false now hd ms).2 = Code.ok := by rw [e]
      dsimp only
      rw [if_pos hok, e]
      show Follows q now i (r.see i (.started j (msToTicks ms).toNat))
      by_cases hi : j = i
      · subst hi
        have hp : (p.timers j).pending = false := hf hok j hj
        have hsee : r.see j (.started j (msToTicks ms).toNat) =
            { r with arming := some (msToTicks ms).toNat, elapsed := 0, answered := 0 } := if_pos rfl
        have hq : q.timers j = { p.timers j with
            interval := msToTicks ms, deadline := now + msToTicks ms, active := true } := by rw [ht, Function.update_self]
        obtain ⟨hpos, -⟩ := msToTicks_near h₀ hfv
        have hexp : (r.see j (.started j (msToTicks ms).toNat)).expiries = 0 := by
          rw [hsee]
          unfold TimerRef.expiries
          dsimp only
          rw [Nat.zero_div]
          split <;> rfl
        refine ⟨?_, ?_, ?_, ?_, ?_, ?_, ?_⟩
        · rw [hq, hsee]
          exact h.type
        · rw [hq, hsee]
          exact h.callback
        · intro n hn
          rw [hsee] at hn
          cases hn
          exact hpos
        · rw [hq, hsee]
          exact iff_of_true rfl ⟨_, rfl, fun _ => hpos⟩
        · intro n hn _
          rw [hsee] at hn ⊢
          cases hn
          rw [remaining, hq]
          refine ⟨rfl, ?_⟩
          show (now + msToTicks ms - now).toNat = (msToTicks ms).toNat - 0 % _
          rw [BitVec.add_comm, BitVec.add_sub_cancel, Nat.zero_mod, Nat.sub_zero]
        · rw [TimerRef.Due, hexp, hq]
          exact iff_of_false (by simp [hp]) (Nat.not_lt_zero _)
        · rw [hexp, hsee]
      · have hsee : r.see i (.started j (msToTicks ms).toNat) = r := if_neg hi
        rw [hsee]
        exact h.of_eq (by rw [ht, Function.update_of_ne (Ne.symm hi)])
  | stop hd =>
    rw [TimerPool.call, seen]
    cases hj : p.timerFromHandle hd with
    | none =>
      rw [timerStop_none hj]
      exact h
    | some j =>
      obtain ⟨q, e, -, ht, -, -⟩ := hg.timerStop_eq hj
      rw [e]
      show Follows q now i (r.see i (.stopped j))
      by_cases hi : j = i
      · subst hi
        have hsee : r.see j (.stopped j) = { r with arming := none, answered := 0 } := if_pos rfl
        have hq : q.timers j = { p.timers j with active := false, pending := false } := by rw [ht, Function.update_self]
        rw [hsee]
        exact unarmed (by rw [hq]; exact h.type) (by rw [hq]; exact h.callback) (by rw [hq]) (by rw [hq]) rfl rfl
      · have hsee : r.see i (.stopped j) = r := if_neg hi
        rw [hsee]
        exact h.of_eq (by rw [ht, Function.update_of_ne (Ne.symm hi)])
  | delete hd =>
    rw [TimerPool.call, seen]
    cases hj : p.timerFromHandle hd with
    | none =>
      rw [timerDelete_none hj]
      exact h
    | some j =>
      obtain ⟨q, e, -, ht, -, -⟩ := hg.timerDelete_eq hj
      rw [e]
      show Follows q now i (r.see i (.deleted j))
      by_cases hi : j = i
      · subst hi
        have hsee : r.see j (.deleted j) = {} := if_pos rfl
        have hq : q.timers j = {} := by rw [ht, Function.update_self]
        rw [hsee]
        exact unarmed (by rw [hq]) (by rw [hq]) (by rw [hq]) (by rw [hq]) rfl rfl
      · have hsee : r.see i (.deleted j) = r := if_neg hi
        rw [hsee]
        exact h.of_eq (by rw [ht, Function.update_of_ne (Ne.symm hi)])

omit cfg ocfg in
/-- The callbacks that are called answer the expiries of their timers, and of no other. -/
theorem answered_calls (i : ℕ) (r : TimerRef α) (is : List (ℕ × Option α)) :
    (is.map fun x => TimerEvent.called x.1 x.2).foldl (TimerRef.see i) r =
      if i ∈ is.map Prod.fst then { r with answered := r.expiries } else r := by
  induction is generalizing r with
  | nil => rfl
  | cons x xs ih =>
    rw [List.map_cons, List.foldl_cons, ih, List.map_cons, TimerRef.see]
    by_cases hx : x.1 = i
    · rw [if_pos hx, if_pos (List.mem_cons.mpr (.inl hx.symm))]
      split <;> rfl
    · rw [if_neg hx]
      simp only [List.mem_cons, Ne.symm hx, false_or]

omit cfg ocfg in
/-- **`aixos_timer_dispatch`** leaves nothing unanswered. -/
theorem dispatch (hg : Good p) (h : Follows p now i r) :
    Follows p.dispatch.1 now i ((p.dispatch.2.map fun x => TimerEvent.called x.1 x.2).foldl (TimerRef.see i) r) := by
  obtain ⟨hcalls, -, -, -, ht⟩ := hg.dispatch_eq
  have hfst : p.dispatch.2.map Prod.fst = p.pendingTimers := by
    rw [hcalls, List.map_map]
    exact List.map_id _
  rw [answered_calls, hfst]
  have hkeep : Follows p.dispatch.1 now i { r with answered := r.expiries } := by
    refine ⟨by rw [ht]; exact h.type, by rw [ht]; exact h.callback, h.pos, by rw [ht]; exact h.active, fun n hn ha => ?_, ?_, ?_⟩
    · rw [ht] at ha
      rw [remaining, ht]
      exact h.next n hn ha
    · rw [ht]
      exact iff_of_false Bool.false_ne_true (lt_irrefl _)
    · exact le_rfl
  split
  · exact hkeep
  · rename_i hni
    have hp : (p.timers i).pending = false := by
      rw [← Bool.not_eq_true, ← hg.pending]
      exact hni
    rwa [h.due_false hp] at hkeep

end Follows

end

end TimerPool

/-! ### Every run -/

namespace TimerRun

open TimerPool

variable [cfg : Config] [ocfg : ObjectConfig] {s s' : TimerRun α} {a : TimerOp α} {as : List (TimerOp α)}
  {es : List (TimerEvent α)} {i : ℕ}

/-- No timer is started while an expiry of it is pending. -/
def Fresh (s : TimerRun α) : TimerOp α → Prop
  | .call c => s.pool.Fresh s.now c
  | .tick | .dispatch => True

instance (s : TimerRun α) : (a : TimerOp α) → Decidable (s.Fresh a)
  | .call c => inferInstanceAs (Decidable (s.pool.Fresh s.now c))
  | .tick | .dispatch => isTrue trivial

omit cfg ocfg in
theorem now_succ (s : TimerRun α) : (.ofNat 32 (s.ticks + 1) : Word) = s.now + 1 := BitVec.ofNat_add s.ticks 1

/-- The pool is in order, and all its timers agree with the reference model. -/
structure Agrees (s : TimerRun α) (es : List (TimerEvent α)) : Prop where
  scheduled : s.pool.Scheduled s.now
  ahead : s.pool.Ahead s.now
  follows : ∀ i, s.pool.Follows s.now i (TimerRef.after es i)

omit cfg ocfg in
theorem agrees_init : Agrees (init : TimerRun α) [] where
  scheduled := ⟨good_init, fun _ hj => absurd hj Bool.false_ne_true, fun _ hj => absurd hj Bool.false_ne_true,
    List.Pairwise.nil⟩
  ahead _ hj := absurd hj Bool.false_ne_true
  follows _ := follows_init

omit cfg ocfg in
theorem after_append (es es' : List (TimerEvent α)) (i : ℕ) :
    TimerRef.after (es ++ es') i = es'.foldl (TimerRef.see i) (TimerRef.after es i) := List.foldl_append

/-- **Every step** keeps the agreement. -/
theorem agrees_step (h : Agrees s es) (hf : s.Fresh a) (hstep : s.step a = some s') : Agrees s' (es ++ s.observe a) := by
  cases a with
  | call c =>
    cases hstep
    obtain ⟨hs, ha⟩ := h.scheduled.call h.ahead c
    refine ⟨hs, ha, fun i => ?_⟩
    rw [after_append]
    exact (h.follows i).call h.scheduled.good c hf
  | tick =>
    cases hstep
    obtain ⟨hs, ha, hh⟩ := (h.scheduled.tick h.ahead).timerTick
    rw [← now_succ] at hs ha hh
    refine ⟨hs, ha, fun i => ?_⟩
    rw [after_append]
    have htick := (h.follows i).tick h.ahead (by rw [← now_succ]; exact hh)
    rw [← now_succ] at htick
    exact htick
  | dispatch =>
    cases hstep
    obtain ⟨-, -, hl, hg, ht⟩ := h.scheduled.good.dispatch_eq
    refine ⟨h.scheduled.same hg hl fun j => by rw [ht]; exact ⟨rfl, rfl, rfl⟩, fun j hj => ?_, fun i => ?_⟩
    · rw [ht] at hj
      show 0 < ((s.pool.dispatch.1.timers j).deadline - s.now).toNat
      rw [ht]
      exact h.ahead j hj
    · rw [after_append]
      exact (h.follows i).dispatch h.scheduled.good

theorem agrees_path (h : Path (Next step) Fresh init as s) : Agrees s (trace step observe init as) := by
  have hi := h.traced (fun s a s' es hi hf hstep => agrees_step hi hf hstep) agrees_init
  rwa [List.nil_append] at hi

/-- **Timers follow their reference model**, if no timer is started while an expiry of it is pending. At any time
`aixos_timer_dispatch` calls the callbacks of the timers that are due, each once, and no others: those whose current
arming has expired since the last callback. A one-shot timer expires once for each arming, a periodic one at every
multiple of its interval. The current arming is at least one interval ago, and the timer has not been stopped, deleted
or started since. -/
theorem follows_reference (h : Path (Next step) Fresh init as s) :
    (s.pool.dispatch.2.map Prod.fst).Nodup ∧
    (∀ i f, (i, f) ∈ s.pool.dispatch.2 ↔ (TimerRef.after (trace step observe init as) i).Due ∧
      f = (TimerRef.after (trace step observe init as) i).callback) ∧
    ∀ i f, (i, f) ∈ s.pool.dispatch.2 → ∃ n pre post, trace step observe init as = pre ++ .started i n :: post ∧
      (∀ e ∈ post, e.rearms i = false) ∧ n ≤ post.countP TimerEvent.isTick := by
  have hag := agrees_path h
  have hgood := hag.scheduled.good
  obtain ⟨hcalls, -⟩ := hgood.dispatch_eq
  have hiff : ∀ i f, (i, f) ∈ s.pool.dispatch.2 ↔ (TimerRef.after (trace step observe init as) i).Due ∧
      f = (TimerRef.after (trace step observe init as) i).callback := by
    intro i f
    have hf := hag.follows i
    rw [hcalls, List.mem_map, ← hf.pending, ← hf.callback, ← hgood.pending]
    constructor
    · rintro ⟨j, hj, e⟩
      cases e
      exact ⟨hj, rfl⟩
    · rintro ⟨hi, rfl⟩
      exact ⟨i, hi, rfl⟩
  refine ⟨?_, hiff, fun i f hm => ((hiff i f).mp hm).1.started⟩
  rw [hcalls, List.map_map]
  exact (List.map_id s.pool.pendingTimers).symm ▸ hgood.pendingNodup

end TimerRun

end Aixos

namespace Aixos.TimerRun

open Transition

attribute [local instance] Config.default ObjectConfig.default

/-- A one-shot timer is created and started, and expires. -/
def expiredTimer : List (TimerOp ℕ) := [.call (.create .oneshot (some 7)), .call (.start (some ⟨0, 1⟩) 1), .tick]

theorem follows_reference_once : ∃ s : TimerRun ℕ, Path (Next step) Fresh init expiredTimer s ∧
    (0, some 7) ∈ s.pool.dispatch.2 ∧ (TimerRef.after (trace step observe init expiredTimer) 0).Due := by
  obtain ⟨s, hp, h⟩ := exists_path step Fresh (init : TimerRun ℕ) expiredTimer
    (fun s => decide ((0, some 7) ∈ s.pool.dispatch.2)) (by decide +kernel)
  have hm := of_decide_eq_true h
  exact ⟨s, hp, hm, ((follows_reference hp).2.1 0 (some 7)).mp hm |>.1⟩

/-- It is started again, for 100 ms, before the service has seen that it has expired. -/
def restarted : List (TimerOp ℕ) := expiredTimer ++ [.call (.start (some ⟨0, 1⟩) 100)]

/-- Its callback is called at once: the new arming has not expired. -/
theorem stale_expiry : ∃ s : TimerRun ℕ, run step init restarted = some s ∧ (0, some 7) ∈ s.pool.dispatch.2 ∧
    trace step observe init restarted = [.created 0 .oneshot (some 7), .started 0 1, .ticked, .started 0 100] ∧
    ¬ (TimerRef.after (trace step observe init restarted) 0).Due := by
  obtain ⟨s, hr, h⟩ := exists_run step (init : TimerRun ℕ) restarted
    (fun s => decide ((0, some 7) ∈ s.pool.dispatch.2)) (by decide +kernel)
  have ht : trace step observe (init : TimerRun ℕ) restarted =
      [.created 0 .oneshot (some 7), .started 0 1, .ticked, .started 0 100] := by decide +kernel
  refine ⟨s, hr, of_decide_eq_true h, ht, ?_⟩
  rw [ht]
  exact Nat.not_lt_zero _

end Aixos.TimerRun
