import Aixos.Kernel.TimerRuns
import Aixos.Time.TimerPool

/-!
# Callbacks after a timer has been cancelled

`aixos_timer_dispatch` takes a timer out of the list in a critical section, and calls its callback behind it. A task that
stops or deletes the timer in between is told that it has been stopped, and the callback is called all the same.

* `TimerGap.Clear` — nobody does so.
* `TimerGap.Cancelled` — a timer that has been stopped or deleted, and not started since, is in no list and has not been
  taken.
* `TimerGap.no_callback_after` — then no callback is called after its timer has been cancelled; `TimerGap.late_callback` —
  what happens otherwise.
-/

namespace Aixos

open Transition

variable {α : Type} {es : List (TimerEvent α)} {e : TimerEvent α} {i j : ℕ}

/-! ### What has been seen -/

/-- A timer has been stopped or deleted. -/
def TimerEvent.cancels (i : ℕ) : TimerEvent α → Bool
  | .stopped j | .deleted j => j = i
  | .created .. | .started .. | .ticked | .called .. => false

/-- A timer has been started. -/
def TimerEvent.starts (i : ℕ) : TimerEvent α → Bool
  | .started j _ => j = i
  | .created .. | .stopped _ | .deleted _ | .ticked | .called .. => false

/-- Timer `i` has been cancelled, and not started since. -/
def Cancelled (es : List (TimerEvent α)) (i : ℕ) : Prop :=
  ∃ pre c mid, es = pre ++ c :: mid ∧ c.cancels i = true ∧ ∀ e ∈ mid, e.starts i = false

/-- No callback is called after its timer has been cancelled, until it is started again. -/
def NoneLate (es : List (TimerEvent α)) : Prop :=
  ∀ pre c mid i f post, es = pre ++ c :: (mid ++ .called i f :: post) → c.cancels i = true → ∃ e ∈ mid, e.starts i = true

theorem cancelled_append : Cancelled (es ++ [e]) i ↔ e.cancels i = true ∨ Cancelled es i ∧ e.starts i = false := by
  constructor
  · rintro ⟨pre, c, mid, heq, hc, hmid⟩
    rcases List.eq_nil_or_concat mid with rfl | ⟨mid', x, rfl⟩
    · obtain ⟨-, e'⟩ := List.append_inj' heq rfl
      cases List.singleton_inj.mp e'
      exact .inl hc
    · rw [List.concat_eq_append] at heq hmid
      rw [← List.cons_append, ← List.append_assoc] at heq
      obtain ⟨hpre, e'⟩ := List.append_inj' heq rfl
      cases List.singleton_inj.mp e'
      exact .inr ⟨⟨pre, c, mid', hpre, hc, fun x hx => hmid x (List.mem_append_left _ hx)⟩,
        hmid e (List.mem_append_right _ (List.mem_singleton.mpr rfl))⟩
  · rintro (hc | ⟨⟨pre, c, mid, rfl, hc, hmid⟩, he⟩)
    · exact ⟨es, e, [], rfl, hc, fun e he => absurd he List.not_mem_nil⟩
    · refine ⟨pre, c, mid ++ [e], by simp, hc, fun x hx => ?_⟩
      rcases List.mem_append.mp hx with hx | hx
      · exact hmid x hx
      · cases List.mem_singleton.mp hx
        exact he

theorem NoneLate.append (h : NoneLate es) (he : ∀ i f, e = .called i f → ¬ Cancelled es i) : NoneLate (es ++ [e]) := by
  intro pre c mid i f post heq hc
  rcases List.eq_nil_or_concat post with rfl | ⟨post', x, rfl⟩
  · rw [← List.cons_append, ← List.append_assoc] at heq
    obtain ⟨hpre, e'⟩ := List.append_inj' heq rfl
    by_contra hno
    refine he i f (List.singleton_inj.mp e') ⟨pre, c, mid, hpre, hc, fun x hx => ?_⟩
    by_contra hx'
    exact hno ⟨x, hx, Bool.not_eq_false _ ▸ hx'⟩
  · rw [List.concat_eq_append, ← List.cons_append, ← List.append_assoc, ← List.cons_append, ← List.append_assoc] at heq
    obtain ⟨hpre, -⟩ := List.append_inj' heq rfl
    exact h pre c mid i f post' (by simpa using hpre) hc

namespace TimerGap

open TimerPool

variable [cfg : Config] [ocfg : ObjectConfig] {s s' : TimerGap α} {a : GapAct α} {as : List (GapAct α)}

/-! ### The condition -/

omit cfg ocfg in
/-- The timer that the service has taken, before it calls its callback. -/
def held (s : TimerGap α) : Option ℕ :=
  match s.place with
  | .taken i _ => some i
  | .idle | .running => none

/-- Nobody stops or deletes a timer that the service has taken, and whose callback it has not called yet. -/
def Clear (s : TimerGap α) : GapAct α → Prop
  | .call (.stop h) | .call (.delete h) => ∀ i ∈ s.pool.timerFromHandle h, s.held ≠ some i
  | .call (.create ..) | .call (.start ..) | .tick | .take | .begins | .returns => True

instance (s : TimerGap α) : (a : GapAct α) → Decidable (s.Clear a)
  | .call (.stop h) | .call (.delete h) => inferInstanceAs (Decidable (∀ i ∈ s.pool.timerFromHandle h, s.held ≠ some i))
  | .call (.create ..) | .call (.start ..) | .tick | .take | .begins | .returns => isTrue trivial

/-! ### Every step -/

omit cfg ocfg in
/-- Timer `i` is in no list, and has not been taken. -/
structure Still (s : TimerGap α) (i : ℕ) : Prop where
  active : (s.pool.timers i).active = false
  pending : (s.pool.timers i).pending = false
  held : s.held ≠ some i

/-- Timers that are cancelled are still, and no callback has been late. -/
structure Safe (s : TimerGap α) (es : List (TimerEvent α)) : Prop where
  good : s.pool.Good
  still : ∀ i, Cancelled es i → s.Still i
  late : NoneLate es

omit cfg ocfg in
theorem safe_init : Safe (init : TimerGap α) [] where
  good := good_init
  still := by
    rintro i ⟨pre, c, mid, heq, -⟩
    exact absurd heq.symm (by simp)
  late pre c mid i f post heq := absurd heq.symm (by simp)

namespace Safe

omit cfg ocfg in
/-- Nothing is seen. -/
theorem silent (h : Safe s es) (hg : s'.pool.Good) (hs : ∀ i, s.Still i → s'.Still i) : Safe s' (es ++ []) := by
  rw [List.append_nil]
  exact ⟨hg, fun i hi => hs i (h.still i hi), h.late⟩

omit cfg ocfg in
/-- One event is seen, and it calls no callback. -/
theorem event (h : Safe s es) (hg : s'.pool.Good) (he : ∀ i f, e ≠ .called i f) (hc : ∀ i, e.cancels i = true → s'.Still i)
    (hs : ∀ i, e.starts i = false → s.Still i → s'.Still i) : Safe s' (es ++ [e]) := by
  refine ⟨hg, fun i hi => ?_, h.late.append fun i f e' => absurd e' (he i f)⟩
  rcases cancelled_append.mp hi with hi | ⟨hi, hne⟩
  · exact hc i hi
  · exact hs i hne (h.still i hi)

end Safe

omit cfg ocfg in
/-- The pool changes, and a timer is as it was. -/
theorem Still.of_eq {pool : TimerPool α} (h : s.Still i) (e : pool.timers i = s.pool.timers i) :
    ({ s with pool := pool } : TimerGap α).Still i := ⟨by rw [e]; exact h.active, by rw [e]; exact h.pending, h.held⟩

/-- **A call** that meets the condition. -/
theorem safe_call (h : Safe s es) {c : TimerCall α} (hc : s.Clear (.call c)) :
    Safe { s with pool := s.pool.call s.now c } (es ++ s.pool.seen s.now c) := by
  cases c with
  | create type callback =>
    have hg := h.good.timerCreate type callback
    rw [TimerPool.call, seen]
    rcases hq : s.pool.timerCreate false type callback with ⟨q, _ | x⟩
    · rw [timerCreate_none hq]
      exact h.silent h.good fun i hi => hi
    · rw [hq] at hg
      obtain ⟨-, -, ht, -⟩ := timerCreate_eq hq
      refine h.event hg (by simp) (fun i hi => by cases hi) fun i _ hi => ?_
      by_cases hx : i = x.index
      · subst hx
        exact ⟨by simp [ht], by simp [ht], hi.held⟩
      · exact hi.of_eq (by rw [ht, Function.update_of_ne hx])
  | start hd ms =>
    have hg := h.good.timerStart s.now hd ms
    rw [TimerPool.call, seen]
    by_cases hms : ms = 0 ∨ ms = forever
    · rw [timerStart_inval hms]
      cases hj : s.pool.timerFromHandle hd with
      | none => exact h.silent h.good fun i hi => hi
      | some j => exact h.silent h.good fun i hi => hi
    obtain ⟨h₀, hfv⟩ := not_or.mp hms
    cases hj : s.pool.timerFromHandle hd with
    | none =>
      rw [timerStart_none hj]
      exact h.silent h.good fun i hi => hi
    | some j =>
      obtain ⟨q, e, -, ht, -, -⟩ := h.good.timerStart_eq s.now hj h₀ hfv
      have hok : (s.pool.timerStart false s.now hd ms).2 = Code.ok := by rw [e]
      dsimp only
      rw [if_pos hok]
      rw [e] at hg ⊢
      refine h.event hg (by simp) (fun i hi => by cases hi) fun i hi hs => ?_
      have hne : i ≠ j := fun e => absurd e.symm (of_decide_eq_false hi)
      exact hs.of_eq (by rw [ht, Function.update_of_ne hne])
  | stop hd =>
    have hg := h.good.timerStop hd
    rw [TimerPool.call, seen]
    cases hj : s.pool.timerFromHandle hd with
    | none =>
      rw [timerStop_none hj]
      exact h.silent h.good fun i hi => hi
    | some j =>
      obtain ⟨q, e, -, ht, -, -⟩ := h.good.timerStop_eq hj
      rw [e] at hg ⊢
      refine h.event hg (by simp) (fun i hi => ?_) fun i _ hs => ?_
      · have hi : j = i := of_decide_eq_true hi
        subst hi
        exact ⟨by simp [ht], by simp [ht], hc j hj⟩
      · by_cases hi : i = j
        · subst hi
          exact ⟨by simp [ht], by simp [ht], hs.held⟩
        · exact hs.of_eq (by rw [ht, Function.update_of_ne hi])
  | delete hd =>
    have hg := h.good.timerDelete hd
    rw [TimerPool.call, seen]
    cases hj : s.pool.timerFromHandle hd with
    | none =>
      rw [timerDelete_none hj]
      exact h.silent h.good fun i hi => hi
    | some j =>
      obtain ⟨q, e, -, ht, -, -⟩ := h.good.timerDelete_eq hj
      rw [e] at hg ⊢
      refine h.event hg (by simp) (fun i hi => ?_) fun i _ hs => ?_
      · have hi : j = i := of_decide_eq_true hi
        subst hi
        exact ⟨by simp [ht], by simp [ht], hc j hj⟩
      · by_cases hi : i = j
        · subst hi
          exact ⟨by simp [ht], by simp [ht], hs.held⟩
        · exact hs.of_eq (by rw [ht, Function.update_of_ne hi])

/-- **Every step** that meets the condition. -/
theorem safe_step (h : Safe s es) (hc : s.Clear a) (hstep : s.step a = some s') : Safe s' (es ++ s.observe a) := by
  cases a with
  | call c =>
    cases hstep
    exact safe_call h hc
  | tick =>
    cases hstep
    refine h.event (h.good.timerTick _) (by simp) (fun i hi => by cases hi) fun i _ hi => ?_
    rcases (h.good.ticked (.ofNat 32 (s.ticks + 1))).other i with e | ⟨ha, -⟩
    · exact ⟨by rw [e]; exact hi.active, by rw [e]; exact hi.pending, hi.held⟩
    · rw [hi.active] at ha
      cases ha
  | take =>
    rw [step] at hstep
    split at hstep
    next i rest pool callback hplace hl htake =>
      cases hstep
      obtain ⟨i', rest', hl', hp, -, -, ht, -, -⟩ := h.good.dispatchTake_eq htake
      obtain ⟨rfl, -⟩ := List.cons.inj (hl.symm.trans hl')
      refine h.silent (h.good.dispatchTake htake) fun j hj => ?_
      have hne : j ≠ i := by
        rintro rfl
        rw [hj.pending] at hp
        cases hp
      have e : pool.timers j = s.pool.timers j := by rw [ht, Function.update_of_ne hne]
      exact ⟨by rw [e]; exact hj.active, by rw [e]; exact hj.pending, fun e' => hne (Option.some.inj e').symm⟩
    · cases hstep
  | begins =>
    rw [step] at hstep
    rw [observe]
    split at hstep
    next i callback hplace =>
      cases hstep
      have hheld : s.held = some i := by
        rw [held, hplace]
      have hnot : ¬ Cancelled es i := fun hi => (h.still i hi).held hheld
      refine ⟨h.good, fun j hj => ?_, h.late.append fun j f e => ?_⟩
      · rcases cancelled_append.mp hj with hj | ⟨hj, -⟩
        · cases hj
        · exact ⟨(h.still j hj).active, (h.still j hj).pending, by simp [held]⟩
      · cases e
        exact hnot
    · cases hstep
  | returns =>
    obtain ⟨-, hstep⟩ := Option.ite_none_right_eq_some.mp hstep
    cases hstep
    exact h.silent h.good fun i hi => ⟨hi.active, hi.pending, by simp [held]⟩

theorem safe_path (h : Path (Next step) Clear init as s) : Safe s (trace step observe init as) := by
  have hi := h.traced (fun s a s' es hi hc hstep => safe_step hi hc hstep) safe_init
  rwa [List.nil_append] at hi

/-- **No callback is called after its timer has been stopped or deleted**, until it is started again, if nobody stops or
deletes a timer while the service has taken it and has not called its callback yet. -/
theorem no_callback_after (h : Path (Next step) Clear init as s) :
    ∀ pre c mid i f post, trace step observe init as = pre ++ c :: (mid ++ .called i f :: post) → c.cancels i = true →
      ∃ e ∈ mid, e.starts i = true := (safe_path h).late

end TimerGap

end Aixos

namespace Aixos.TimerGap

open Transition

attribute [local instance] Config.default ObjectConfig.default

/-- A timer expires, its callback is called, and it is stopped; then it is started again, and expires. -/
def stoppedBetween : List (GapAct ℕ) :=
  [.call (.create .oneshot (some 7)), .call (.start (some ⟨0, 1⟩) 1), .tick, .take, .begins, .call (.stop (some ⟨0, 1⟩)),
    .returns, .call (.start (some ⟨0, 1⟩) 1), .tick, .take, .begins]

theorem no_callback_after_stop : (∃ s : TimerGap ℕ, Path (Next step) Clear init stoppedBetween s) ∧
    ∃ e ∈ [TimerEvent.started 0 1, .ticked], e.starts (α := ℕ) 0 = true := by
  obtain ⟨s, hp, -⟩ := exists_path step Clear (init : TimerGap ℕ) stoppedBetween (fun _ => true) (by decide +kernel)
  refine ⟨⟨s, hp⟩, ?_⟩
  exact no_callback_after hp [.created 0 .oneshot (some 7), .started 0 1, .ticked, .called 0 (some 7)] (.stopped 0)
    [.started 0 1, .ticked] 0 (some 7) [] (by decide +kernel) rfl

/-- A task that the tick has made ready stops the timer when the service has just taken it. -/
def stoppedLate : List (GapAct ℕ) :=
  [.call (.create .oneshot (some 7)), .call (.start (some ⟨0, 1⟩) 1), .tick, .take, .call (.stop (some ⟨0, 1⟩)), .begins]

/-- The callback is called after `aixos_timer_stop` has returned `AIXOS_OK`. -/
theorem late_callback : (∃ s : TimerGap ℕ, run step init stoppedLate = some s) ∧
    trace step observe (init : TimerGap ℕ) stoppedLate =
      [.created 0 .oneshot (some 7), .started 0 1, .ticked, .stopped 0, .called 0 (some 7)] := by
  obtain ⟨s, hr, -⟩ := exists_run step (init : TimerGap ℕ) stoppedLate (fun _ => true) (by decide +kernel)
  exact ⟨⟨s, hr⟩, by decide +kernel⟩

end Aixos.TimerGap
