import Aixos.Kernel.Once
import Aixos.Library.Transition

/-!
# `aixos_pthread_once` runs the routine once

* `Once.Stage` — how far the control object is, and what has been seen so far.
* `Once.runs_once` — the routine is started at most once, and who gets 0 gets it after the routine has returned.
-/

namespace Aixos.Posix

open Transition

namespace OnceEvent

variable {τ : Type}

/-- `init_routine` has been started. -/
def isStart : OnceEvent τ → Bool
  | .started _ => true
  | .finished _ | .returned .. => false

/-- Whenever a call returns 0, a run of `init_routine` has been started and has returned. -/
def Prompt (es : List (OnceEvent τ)) : Prop :=
  ∀ pre t post, es = pre ++ .returned t 0 :: post → ∃ u, .started u ∈ pre ∧ .finished u ∈ pre

theorem prompt_nil : Prompt ([] : List (OnceEvent τ)) := by
  intro pre t post h
  exact absurd h.symm (by simp)

theorem Prompt.append {es : List (OnceEvent τ)} {e : OnceEvent τ} (h : Prompt es)
    (he : ∀ t, e = .returned t 0 → ∃ u, .started u ∈ es ∧ .finished u ∈ es) : Prompt (es ++ [e]) := by
  intro pre t post heq
  rcases List.eq_nil_or_concat post with rfl | ⟨post', x, rfl⟩
  · obtain ⟨rfl, e'⟩ := List.append_inj' heq rfl
    exact he t (List.singleton_inj.mp e')
  · rw [List.concat_eq_append, ← List.cons_append, ← List.append_assoc] at heq
    obtain ⟨rfl, -⟩ := List.append_inj' heq rfl
    exact h pre t post' rfl

end OnceEvent

namespace Once

open OnceEvent

variable {τ : Type} [DecidableEq τ] {s s' : Once τ} {t u : τ} {p q : OncePlace} {ps : List OncePlace}
  {es : List (OnceEvent τ)} {a : OnceAct τ}

@[simp] theorem setCalls_self (s : Once τ) (t : τ) (ps : List OncePlace) : (s.setCalls t ps).calls t = ps :=
  Function.update_self ..

theorem setCalls_ne (s : Once τ) (ps : List OncePlace) (h : u ≠ t) : (s.setCalls t ps).calls u = s.calls u :=
  Function.update_of_ne h ..

/-- Nobody is past the critical section of the loop. -/
def Calm (s : Once τ) : Prop := ∀ t, ∀ p ∈ s.calls t, p = .poll

/-- One call is past it, a call of thread `u`, at `p`. -/
structure Engaged (s : Once τ) (u : τ) (p : OncePlace) : Prop where
  past : p ≠ .poll
  others : ∀ t, t ≠ u → ∀ q ∈ s.calls t, q = .poll
  self : ∃ pre post, s.calls u = pre ++ p :: post ∧ ∀ q ∈ pre ++ post, q = .poll

theorem Calm.set (h : Calm s) (hps : ∀ q ∈ ps, q = .poll) : Calm (s.setCalls t ps) := by
  intro v q hq
  by_cases hv : v = t
  · subst hv
    rw [setCalls_self] at hq
    exact hps q hq
  · rw [setCalls_ne _ _ hv] at hq
    exact h v q hq

/-- A call goes past the critical section. -/
theorem Calm.engage (h : Calm s) (hp : p ≠ .poll) (hps : ∀ q ∈ ps, q = .poll) : Engaged (s.setCalls t (p :: ps)) t p :=
  ⟨hp, fun v hv q hq => h v q (by rwa [setCalls_ne _ _ hv] at hq), [], ps, setCalls_self .., hps⟩

namespace Engaged

/-- Who is past it is that call. -/
theorem top (h : Engaged s u p) (ht : s.calls t = q :: ps) (hq : q ≠ .poll) :
    t = u ∧ q = p ∧ ∀ r ∈ ps, r = .poll := by
  have htu : t = u := by
    by_contra hne
    exact hq (h.others t hne q (ht ▸ List.mem_cons_self ..))
  subst htu
  obtain ⟨pre, post, e, hpoll⟩ := h.self
  rw [ht] at e
  cases pre with
  | nil =>
    cases e
    exact ⟨rfl, rfl, hpoll⟩
  | cons r pre =>
    cases e
    exact absurd (hpoll q (List.mem_cons_self ..)) hq

/-- It goes on. -/
theorem move (h : Engaged s u p) (hq : q ≠ .poll) (hps : ∀ r ∈ ps, r = .poll) : Engaged (s.setCalls u (q :: ps)) u q :=
  ⟨hq, fun v hv r hr => h.others v hv r (by rwa [setCalls_ne _ _ hv] at hr), [], ps, setCalls_self .., hps⟩

/-- It returns. -/
theorem leave (h : Engaged s u p) (hps : ∀ r ∈ ps, r = .poll) : Calm (s.setCalls u ps) := by
  intro v r hr
  by_cases hv : v = u
  · subst hv
    rw [setCalls_self] at hr
    exact hps r hr
  · rw [setCalls_ne _ _ hv] at hr
    exact h.others v hv r hr

/-- Another call begins. -/
theorem call (h : Engaged s u p) (t : τ) : Engaged (s.setCalls t (.poll :: s.calls t)) u p := by
  obtain ⟨pre, post, e, hpoll⟩ := h.self
  by_cases ht : u = t
  · subst ht
    refine ⟨h.past, fun v hv r hr => h.others v hv r (by rwa [setCalls_ne _ _ hv] at hr), .poll :: pre, post, ?_,
      fun r hr => ?_⟩
    · rw [setCalls_self, e]
      rfl
    · rcases List.mem_cons.mp hr with rfl | hr
      · rfl
      · exact hpoll r hr
  · refine ⟨h.past, fun v hv r hr => ?_, pre, post, by rw [setCalls_ne _ _ ht, e], hpoll⟩
    by_cases hvt : v = t
    · subst hvt
      rw [setCalls_self] at hr
      rcases List.mem_cons.mp hr with rfl | hr
      · rfl
      · exact h.others v hv r hr
    · rw [setCalls_ne _ _ hvt] at hr
      exact h.others v hv r hr

end Engaged

/-- How far the control object is, and what has been seen so far. -/
inductive Stage (s : Once τ) (es : List (OnceEvent τ)) : Prop where
  /-- Nobody has got to the routine. -/
  | fresh (state : s.state = 0) (calm : Calm s) (starts : es.countP isStart = 0)
  /-- A thread is about to start it. -/
  | starting (u : τ) (state : s.state = 1) (engaged : Engaged s u .start) (starts : es.countP isStart = 0)
  /-- It runs. -/
  | running (u : τ) (state : s.state = 1) (engaged : Engaged s u .routine) (starts : es.countP isStart = 1)
    (started : .started u ∈ es)
  /-- It has returned. -/
  | finishing (u : τ) (state : s.state = 1) (engaged : Engaged s u .finish) (starts : es.countP isStart = 1)
    (started : .started u ∈ es) (finished : .finished u ∈ es)
  /-- All can see that. -/
  | ended (u : τ) (state : s.state = 2) (calm : Calm s) (starts : es.countP isStart = 1) (started : .started u ∈ es)
    (finished : .finished u ∈ es)

/-- A call begins, or is refused. -/
theorem Stage.call (h : Stage s es) (t : τ) {fs : List (OnceEvent τ)} (hfs : fs.countP isStart = 0) :
    Stage (s.setCalls t (.poll :: s.calls t)) (es ++ fs) := by
  have hcount : (es ++ fs).countP isStart = es.countP isStart := by rw [List.countP_append, hfs, Nat.add_zero]
  have hpoll : Calm s → ∀ q ∈ .poll :: s.calls t, q = .poll := by
    intro hc q hq
    rcases List.mem_cons.mp hq with rfl | hq
    · rfl
    · exact hc t q hq
  cases h with
  | fresh hs hc h0 => exact .fresh hs (hc.set (hpoll hc)) (hcount.trans h0)
  | starting u hs he h0 => exact .starting u hs (he.call t) (hcount.trans h0)
  | running u hs he h1 hst => exact .running u hs (he.call t) (hcount.trans h1) (List.mem_append_left _ hst)
  | finishing u hs he h1 hst hf =>
    exact .finishing u hs (he.call t) (hcount.trans h1) (List.mem_append_left _ hst) (List.mem_append_left _ hf)
  | ended u hs hc h1 hst hf =>
    exact .ended u hs (hc.set (hpoll hc)) (hcount.trans h1) (List.mem_append_left _ hst) (List.mem_append_left _ hf)

omit [DecidableEq τ] in
theorem Stage.idle (h : Stage s es) {fs : List (OnceEvent τ)} (hfs : fs.countP isStart = 0) : Stage s (es ++ fs) := by
  have hcount : (es ++ fs).countP isStart = es.countP isStart := by rw [List.countP_append, hfs, Nat.add_zero]
  cases h with
  | fresh hs hc h0 => exact .fresh hs hc (hcount.trans h0)
  | starting u hs he h0 => exact .starting u hs he (hcount.trans h0)
  | running u hs he h1 hst => exact .running u hs he (hcount.trans h1) (List.mem_append_left _ hst)
  | finishing u hs he h1 hst hf =>
    exact .finishing u hs he (hcount.trans h1) (List.mem_append_left _ hst) (List.mem_append_left _ hf)
  | ended u hs hc h1 hst hf =>
    exact .ended u hs hc (hcount.trans h1) (List.mem_append_left _ hst) (List.mem_append_left _ hf)

/-- Who is past the critical section says at which stage the control object is. -/
theorem Stage.engaged (h : Stage s es) (ht : s.calls t = q :: ps) (hq : q ≠ .poll) :
    Engaged s t q ∧ (∀ r ∈ ps, r = .poll) ∧ s.state = 1 ∧ (q = .start ∧ es.countP isStart = 0 ∨
      q = .routine ∧ es.countP isStart = 1 ∧ .started t ∈ es ∨
      q = .finish ∧ es.countP isStart = 1 ∧ .started t ∈ es ∧ .finished t ∈ es) := by
  have calm : Calm s → False := fun hc => hq (hc t q (ht ▸ List.mem_cons_self ..))
  cases h with
  | fresh _ hc | ended _ _ hc => exact (calm hc).elim
  | starting u hs he h0 =>
    obtain ⟨rfl, rfl, hps⟩ := he.top ht hq
    exact ⟨he, hps, hs, .inl ⟨rfl, h0⟩⟩
  | running u hs he h1 hst =>
    obtain ⟨rfl, rfl, hps⟩ := he.top ht hq
    exact ⟨he, hps, hs, .inr (.inl ⟨rfl, h1, hst⟩)⟩
  | finishing u hs he h1 hst hf =>
    obtain ⟨rfl, rfl, hps⟩ := he.top ht hq
    exact ⟨he, hps, hs, .inr (.inr ⟨rfl, h1, hst, hf⟩)⟩

/-- **Every step** moves the control object on, if at all, and nobody returns 0 too early. -/
theorem stage_step (hp : Prompt es) (h : Stage s es) (hstep : s.step a = some s') :
    Prompt (es ++ s.observe a) ∧ Stage s' (es ++ s.observe a) := by
  cases a with
  | call t nullControl nullRoutine =>
    simp only [step] at hstep
    split at hstep
    · by_cases hn : nullControl = true ∨ nullRoutine = true
      · rw [if_pos hn] at hstep
        cases hstep
        rw [observe, if_pos hn]
        refine ⟨hp.append ?_, h.idle rfl⟩
        rintro u ⟨⟩
      · rw [if_neg hn] at hstep
        cases hstep
        rw [observe, if_neg hn, List.append_nil]
        refine ⟨hp, ?_⟩
        have h' : Stage (s.setCalls t (.poll :: s.calls t)) (es ++ []) := h.call t rfl
        rwa [List.append_nil] at h'
    · cases hstep
  | poll t =>
    simp only [step] at hstep
    split at hstep
    · rename_i ps ht
      by_cases h2 : s.state = 2
      · rw [if_pos h2] at hstep
        cases hstep
        rw [observe, if_pos h2]
        cases h with
        | ended u _ hc h1 hst hf =>
          have hps : ∀ q ∈ ps, q = .poll := fun q hq => hc t q (ht ▸ List.mem_cons_of_mem _ hq)
          refine ⟨hp.append fun _ _ => ⟨u, hst, hf⟩, .ended u h2 (hc.set hps) ?_ (List.mem_append_left _ hst)
            (List.mem_append_left _ hf)⟩
          rw [List.countP_append, h1]
          rfl
        | fresh h0 | starting _ h0 | running _ h0 | finishing _ h0 =>
          rw [h0] at h2
          cases h2
      · rw [if_neg h2] at hstep
        rw [observe, if_neg h2, List.append_nil]
        refine ⟨hp, ?_⟩
        by_cases h0 : s.state = 0
        · rw [if_pos h0] at hstep
          cases hstep
          cases h with
          | fresh _ hc hn =>
            have hps : ∀ q ∈ ps, q = .poll := fun q hq => hc t q (ht ▸ List.mem_cons_of_mem _ hq)
            exact .starting t rfl (Calm.engage (s := { s with state := 1 }) hc (by decide) hps) hn
          | ended _ h1 | starting _ h1 | running _ h1 | finishing _ h1 =>
            rw [h1] at h0
            cases h0
        · rw [if_neg h0] at hstep
          cases hstep
          exact h
    · cases hstep
  | start t =>
    simp only [step] at hstep
    split at hstep
    · rename_i ps ht
      cases hstep
      obtain ⟨he, hps, hs, ⟨-, h0⟩ | ⟨⟨⟩, -⟩ | ⟨⟨⟩, -⟩⟩ := h.engaged ht (by decide)
      refine ⟨hp.append (by rintro u ⟨⟩), .running t hs (he.move (by decide) hps) ?_
        (List.mem_append_right _ (List.mem_cons_self ..))⟩
      rw [List.countP_append, h0]
      rfl
    · cases hstep
  | returns t =>
    simp only [step] at hstep
    split at hstep
    · rename_i ps ht
      cases hstep
      obtain ⟨he, hps, hs, ⟨⟨⟩, -⟩ | ⟨-, h1, hst⟩ | ⟨⟨⟩, -⟩⟩ := h.engaged ht (by decide)
      refine ⟨hp.append (by rintro u ⟨⟩), .finishing t hs (he.move (by decide) hps) ?_ (List.mem_append_left _ hst)
        (List.mem_append_right _ (List.mem_cons_self ..))⟩
      rw [List.countP_append, h1]
      rfl
    · cases hstep
  | finish t =>
    simp only [step] at hstep
    split at hstep
    · rename_i ps ht
      cases hstep
      obtain ⟨he, hps, -, ⟨⟨⟩, -⟩ | ⟨⟨⟩, -⟩ | ⟨-, h1, hst, hf⟩⟩ := h.engaged ht (by decide)
      have hc : Calm ({ s with state := 2 }.setCalls t ps) := he.leave hps
      refine ⟨hp.append fun _ _ => ⟨t, hst, hf⟩, .ended t rfl hc ?_ (List.mem_append_left _ hst)
        (List.mem_append_left _ hf)⟩
      rw [List.countP_append, h1]
      rfl
    · cases hstep

omit [DecidableEq τ] in
theorem stage_init : Stage (init : Once τ) [] :=
  .fresh rfl (fun _ _ h => absurd h List.not_mem_nil) rfl

/-- **The routine runs once**: whatever threads call the function on one control object, in whatever interleaving,
`init_routine` is started at most once, and whenever a call returns 0 that run has returned. -/
theorem runs_once {as : List (OnceAct τ)} (h : run step init as = some s) :
    (trace step observe init as).countP isStart ≤ 1 ∧
    ∀ pre t post, trace step observe init as = pre ++ .returned t 0 :: post →
      ∃ u, .started u ∈ pre ∧ .finished u ∈ pre := by
  have hp := path_iff_run.mpr h
  have hi : Prompt ([] ++ trace step observe init as) ∧ Stage s ([] ++ trace step observe init as) :=
    hp.traced (I := fun s es => Prompt es ∧ Stage s es) (fun s a s' es hi _ hstep => stage_step hi.1 hi.2 hstep)
      ⟨prompt_nil, stage_init⟩
  rw [List.nil_append] at hi
  obtain ⟨hprompt, hstage⟩ := hi
  refine ⟨?_, hprompt⟩
  cases hstage with
  | fresh _ _ h0 | starting _ _ _ h0 => exact h0.le.trans (Nat.zero_le 1)
  | running _ _ _ h1 | finishing _ _ _ h1 | ended _ _ _ h1 => exact h1.le

/-- Two threads call; the second polls while the first runs the routine. -/
def twoCallers : List (OnceAct ℕ) :=
  [.call 0 false false, .poll 0, .call 1 false false, .start 0, .poll 1, .returns 0, .poll 1, .finish 0, .poll 1]

theorem runs_once_two : ∃ s, run step (init : Once ℕ) twoCallers = some s ∧
    trace step observe init twoCallers = [.started 0, .finished 0, .returned 0 0, .returned 1 0] ∧
    (trace step observe (init : Once ℕ) twoCallers).countP isStart ≤ 1 := by
  obtain ⟨s, hr, -⟩ := exists_run step (init : Once ℕ) twoCallers (fun s => decide (s.state = 2)) (by decide)
  exact ⟨s, hr, by decide, (runs_once hr).1⟩

end Once

end Aixos.Posix
