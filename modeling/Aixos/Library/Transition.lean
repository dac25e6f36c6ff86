import Mathlib.Data.Option.Basic

/-!
# Runs of a machine

A machine is a relation between a state, an action and the next state. `Path C` is a
run every step of which meets a condition `C` on the state before the step and the
action; what every such step keeps holds at the end of the run.

A deterministic machine is a partial function: in a state, an action either is possible
and gives the next state, or is not. `run` executes a list of actions, and its runs are
the paths of the relation `Next` it induces. What is observed of its steps makes up the
`trace` of a run; a machine that accepts the trace of every run is refined (`Path.simulates`).
-/

namespace Transition

variable {σ α : Type*}

/-- A run from `s` to `s'` whose steps all meet `C`. -/
inductive Path (R : σ → α → σ → Prop) (C : σ → α → Prop) : σ → List α → σ → Prop where
  /-- The run without steps. -/
  | nil (s : σ) : Path R C s [] s
  /-- One step, and the rest of the run. -/
  | cons {s m s' : σ} {a : α} {as : List α} :
      C s a → R s a m → Path R C m as s' → Path R C s (a :: as) s'

namespace Path

variable {R : σ → α → σ → Prop} {C C' : σ → α → Prop} {s m s' : σ} {a : α} {as bs : List α}

theorem single (hc : C s a) (h : R s a s') : Path R C s [a] s' := .cons hc h (.nil s')

theorem append (h : Path R C s as m) (h' : Path R C m bs s') : Path R C s (as ++ bs) s' := by
  induction h with
  | nil => exact h'
  | cons hc hr _ ih => exact .cons hc hr (ih h')

/-- A run of two parts goes through a state in between. -/
theorem split (h : Path R C s (as ++ bs) s') : ∃ m, Path R C s as m ∧ Path R C m bs s' := by
  induction as generalizing s with
  | nil => exact ⟨s, .nil s, h⟩
  | cons a as ih =>
    cases h with
    | cons hc hr hp =>
      obtain ⟨m, h₁, h₂⟩ := ih hp
      exact ⟨m, .cons hc hr h₁, h₂⟩

theorem mono (hC : ∀ s a, C s a → C' s a) (h : Path R C s as s') : Path R C' s as s' := by
  induction h with
  | nil => exact .nil _
  | cons hc hr _ ih => exact .cons (hC _ _ hc) hr ih

/-- What is known of every action of the run can be used at every step. -/
theorem both {P : α → Prop} (h : Path R C s as s') (hP : ∀ a ∈ as, P a) :
    Path R (fun s a => C s a ∧ P a) s as s' := by
  induction h with
  | nil => exact .nil _
  | cons hc hr _ ih =>
    exact .cons ⟨hc, hP _ (List.mem_cons_self ..)⟩ hr (ih fun a ha => hP a (List.mem_cons_of_mem _ ha))

theorem restrict {P : α → Prop} (h : Path R C s as s') (hP : ∀ a ∈ as, P a) :
    Path R (fun _ a => P a) s as s' := (h.both hP).mono fun _ _ h => h.2

/-- **Invariants of runs**: what every step that meets `C` keeps holds at the end of every
run whose steps all meet `C`. -/
theorem invariant {I : σ → Prop} (hI : ∀ s a s', I s → C s a → R s a s' → I s')
    (h : Path R C s as s') (hs : I s) : I s' := by
  induction h with
  | nil => exact hs
  | cons hc hr _ ih => exact ih (hI _ _ _ hs hc hr)

/-- An invariant holds at every step of the run. -/
theorem withInvariant {I : σ → Prop} (hI : ∀ s a s', I s → C s a → R s a s' → I s')
    (h : Path R C s as s') (hs : I s) : Path R (fun s a => I s ∧ C s a) s as s' := by
  induction h with
  | nil => exact .nil _
  | cons hc hr _ ih => exact .cons ⟨hs, hc⟩ hr (ih (hI _ _ _ hs hc hr))

/-- Every step of the run is possible. -/
theorem guarded (h : Path R C s as s') : Path R (fun s a => C s a ∧ ∃ s', R s a s') s as s' := by
  induction h with
  | nil => exact .nil _
  | cons hc hr _ ih => exact .cons ⟨hc, _, hr⟩ hr ih

end Path

section Deterministic

variable (step : σ → α → Option σ)

/-- The relation of a deterministic machine. -/
def Next (s : σ) (a : α) (s' : σ) : Prop := step s a = some s'

/-- The state after a list of actions, if all are possible in turn. -/
def run : σ → List α → Option σ
  | s, [] => some s
  | s, a :: as => (step s a).bind (run · as)

variable {step}

theorem run_one {s : σ} {a : α} : run step s [a] = step s a := Option.bind_fun_some _

/-- The runs are the paths without a condition. -/
theorem path_iff_run {s s' : σ} {as : List α} :
    Path (Next step) (fun _ _ => True) s as s' ↔ run step s as = some s' := by
  induction as generalizing s with
  | nil =>
    constructor
    · rintro ⟨⟩; rfl
    · intro h
      cases h
      exact .nil _
  | cons a as ih =>
    constructor
    · intro h
      cases h with
      | cons _ hs hp =>
        rw [run, show step s a = _ from hs]
        exact ih.mp hp
    · intro h
      rw [run] at h
      cases hs : step s a with
      | none => rw [hs] at h; cases h
      | some m => rw [hs] at h; exact .cons trivial hs (ih.mpr h)

/-- A run whose last state passes a test. -/
theorem exists_run (step : σ → α → Option σ) (s : σ) (as : List α) (p : σ → Bool)
    (h : (run step s as).map p = some true) : ∃ s', run step s as = some s' ∧ p s' = true :=
  Option.map_eq_some_iff.mp h

/-- A run and one step more, whose states pass a test. -/
theorem exists_run_step (step : σ → α → Option σ) (s : σ) (as : List α) (a : α) (p : σ → σ → Bool)
    (h : ((run step s as).bind fun m => (step m a).map (p m)) = some true) :
    ∃ m s', run step s as = some m ∧ step m a = some s' ∧ p m s' = true := by
  obtain ⟨m, hm, h⟩ := Option.bind_eq_some_iff.mp h
  obtain ⟨s', hs, hp⟩ := Option.map_eq_some_iff.mp h
  exact ⟨m, s', hm, hs, hp⟩

/-- `run`, as long as the actions meet a condition that can be tested. -/
def runIf (step : σ → α → Option σ) (C : σ → α → Prop) [∀ s a, Decidable (C s a)] : σ → List α → Option σ
  | s, [] => some s
  | s, a :: as => if C s a then (step s a).bind (runIf step C · as) else none

theorem path_of_runIf {C : σ → α → Prop} [∀ s a, Decidable (C s a)] {s s' : σ} {as : List α}
    (h : runIf step C s as = some s') : Path (Next step) C s as s' := by
  induction as generalizing s with
  | nil =>
    cases h
    exact .nil _
  | cons a as ih =>
    rw [runIf] at h
    split at h
    · rename_i hc
      obtain ⟨m, hm, h⟩ := Option.bind_eq_some_iff.mp h
      exact .cons hc hm (ih h)
    · cases h

/-- A run whose steps all meet a condition and whose last state passes a test. -/
theorem exists_path (step : σ → α → Option σ) (C : σ → α → Prop) [∀ s a, Decidable (C s a)] (s : σ) (as : List α)
    (p : σ → Bool) (h : (runIf step C s as).map p = some true) :
    ∃ s', Path (Next step) C s as s' ∧ p s' = true := by
  obtain ⟨s', hs, hp⟩ := Option.map_eq_some_iff.mp h
  exact ⟨s', path_of_runIf hs, hp⟩

/-- A path is a run. -/
theorem Path.run_eq {C : σ → α → Prop} {s s' : σ} {as : List α} (h : Path (Next step) C s as s') :
    run step s as = some s' := path_iff_run.mp (h.mono fun _ _ _ => trivial)

theorem run_append {s : σ} {as bs : List α} :
    run step s (as ++ bs) = (run step s as).bind (run step · bs) := by
  induction as generalizing s with
  | nil => rfl
  | cons a as ih =>
    simp only [List.cons_append, run]
    cases step s a with
    | none => rfl
    | some m => exact ih

/-- A run goes through a state with a property; its first and its last state count. -/
def Visits (step : σ → α → Option σ) (P : σ → Prop) : σ → List α → Prop
  | s, [] => P s
  | s, a :: as => P s ∨ ∃ m, step s a = some m ∧ Visits step P m as

theorem visits_cons {P : σ → Prop} {s m : σ} {a : α} {as : List α} (h : step s a = some m) :
    Visits step P s (a :: as) ↔ P s ∨ Visits step P m as := by
  simp [Visits, h]

section Trace

variable {β ε : Type*} (step) (obs : σ → α → List ε)

/-- What is observed of the steps of a run. -/
def trace : σ → List α → List ε
  | _, [] => []
  | s, a :: as =>
    match step s a with
    | none => []
    | some s' => obs s a ++ trace s' as

variable {step obs}

/-- Nothing is observed of a run of unobserved actions. -/
theorem trace_eq_nil {s : σ} {as : List α} (h : ∀ a ∈ as, ∀ s, obs s a = []) : trace step obs s as = [] := by
  induction as generalizing s with
  | nil => rfl
  | cons a as ih =>
    rw [trace]
    split
    · rfl
    · rw [h a (List.mem_cons_self ..), ih fun a ha => h a (List.mem_cons_of_mem _ ha)]
      rfl

/-- The trace of a run of two parts. -/
theorem trace_append {s m : σ} {as bs : List α} (h : run step s as = some m) :
    trace step obs s (as ++ bs) = trace step obs s as ++ trace step obs m bs := by
  induction as generalizing s with
  | nil =>
    cases h
    rfl
  | cons a as ih =>
    obtain ⟨s', hs, h⟩ := Option.bind_eq_some_iff.mp h
    simp only [List.cons_append, trace, hs]
    rw [ih h, List.append_assoc]

/-- **Refinement**: if the steps of a run keep a relation to the states of another machine that
accepts what is observed of them, that machine accepts the trace of the run. -/
theorem Path.simulates {next : β → ε → Option β} {C : σ → α → Prop} {R : σ → β → Prop}
    (hR : ∀ s a s' A, R s A → C s a → step s a = some s' → ∃ A', run next A (obs s a) = some A' ∧ R s' A')
    {s s' : σ} {as : List α} (h : Path (Next step) C s as s') {A : β} (hA : R s A) :
    ∃ A', run next A (trace step obs s as) = some A' ∧ R s' A' := by
  induction h generalizing A with
  | nil => exact ⟨A, rfl, hA⟩
  | @cons s m s' a as hc hs _ ih =>
    have hs : step s a = some m := hs
    obtain ⟨A₁, h₁, hA₁⟩ := hR s a m A hA hc hs
    obtain ⟨A₂, h₂, hA₂⟩ := ih hA₁
    refine ⟨A₂, ?_, hA₂⟩
    simp only [trace, hs]
    rw [run_append, h₁]
    exact h₂

/-- What is observed of a run is as it should be if and only if every step meets the condition for it. -/
theorem forall_trace_iff {C : σ → α → Prop} {P : ε → Prop}
    (hC : ∀ s a s', step s a = some s' → ((∀ e ∈ obs s a, P e) ↔ C s a)) {s s' : σ} {as : List α}
    (h : run step s as = some s') : (∀ e ∈ trace step obs s as, P e) ↔ Path (Next step) C s as s' := by
  induction as generalizing s with
  | nil =>
    cases h
    exact iff_of_true (by simp [trace]) (.nil _)
  | cons a as ih =>
    obtain ⟨m, hm, h⟩ := Option.bind_eq_some_iff.mp h
    simp only [trace, hm, List.forall_mem_append]
    rw [hC s a m hm, ih h]
    constructor
    · rintro ⟨hc, hp⟩
      exact .cons hc hm hp
    · intro hp
      cases hp with
      | cons hc hm' hp =>
        obtain rfl : m = _ := Option.some.inj (hm.symm.trans hm')
        exact ⟨hc, hp⟩

/-- What is observed of every step of a run. -/
theorem forall_trace {P : ε → Prop} (hP : ∀ s a s', step s a = some s' → ∀ e ∈ obs s a, P e) {s s' : σ} {as : List α}
    (h : run step s as = some s') : ∀ e ∈ trace step obs s as, P e :=
  (forall_trace_iff (C := fun _ _ => True) (fun s a s' hs => iff_of_true (hP s a s' hs) trivial) h).mpr
    (path_iff_run.mpr h)

/-- What the steps of a run keep, for the state and for what has been observed so far. -/
theorem Path.traced {C : σ → α → Prop} {I : σ → List ε → Prop}
    (hI : ∀ s a s' es, I s es → C s a → step s a = some s' → I s' (es ++ obs s a))
    {s s' : σ} {as : List α} (h : Path (Next step) C s as s') {es : List ε} (hs : I s es) :
    I s' (es ++ trace step obs s as) := by
  induction h generalizing es with
  | nil => simpa [trace] using hs
  | @cons s m s' a as hc hm _ ih =>
    have hm : step s a = some m := hm
    have h' := ih (hI s a m es hs hc hm)
    simp only [trace, hm]
    rwa [← List.append_assoc]

end Trace

end Deterministic

end Transition
