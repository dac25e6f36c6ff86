import Aixos.System.Loops
import Aixos.System.Membership

/-!
# Calls that run out of time

A loop with a finite timeout may give up for lack of time at two places: its wait times out, or it has been woken, finds
that another task was faster, and has no time left to wait again.

* `Sys.gaveUp` — what such calls return.
* `Sys.InTime` — a task that has been woken has time left, or finds what it waited for.
* `Sys.timeouts_of_run` — timeouts are reported as such exactly in the runs in which this is so.
-/

namespace Aixos

open Transition Aixos.Core

variable [cfg : Config]

omit cfg in
/-- The call has a timeout that is finite and not zero. -/
def Pending.timed (p : Pending) : Bool :=
  match p.clock with
  | some (_, timeoutMs) => timeoutMs ≠ 0 ∧ timeoutMs ≠ forever
  | none => false

/-- The milliseconds that are left to a loop. -/
def Pending.left (now : Word) (p : Pending) : Word :=
  match p.clock with
  | some (startTick, timeoutMs) => timeoutRemainingMs now startTick timeoutMs
  | none => 0

namespace Pending

omit cfg in
theorem refusal_cases (p : Pending) : p.refusal = Code.again ∨ p.refusal = Code.busy ∨ p.refusal = 0 := by
  cases p <;> simp [refusal]

omit cfg in
theorem refusal_ne (p : Pending) {e : Code} (he : e = Code.context ∨ e = Code.inval ∨ e = Code.locked) :
    e ≠ p.refusal := by
  rcases p.refusal_cases with h | h | h <;> rw [h] <;> rcases he with rfl | rfl | rfl <;> decide

omit cfg in
theorem timeout_ne_refusal (p : Pending) : Code.timeout ≠ p.refusal := by
  rcases p.refusal_cases with h | h | h <;> rw [h] <;> decide

end Pending

namespace Sys

variable {s s' : Sys} {a : Act} {t : TaskId} {p : Pending} {as : List Act}

omit cfg in
/-- The call has returned what it returns when it is not to wait. -/
def refused (s : Sys) (t : TaskId) (p : Pending) : Bool :=
  (s.frame t).isNone && s.ret t == some (.code p.refusal)

/-- What a call returns that gives up because its time has elapsed: its wait has timed out, or it leaves although its
condition does not hold, as if it had not been to wait. -/
def gaveUp (s : Sys) (a : Act) : List (Option Ret) :=
  match s.runningTask, s.step a with
  | some t, some s' =>
    match a with
    | .call x =>
      match x.loop s.core.getTick with
      | some p => if p.timed && p.unmet s.kernel && s'.refused t p then [s'.ret t] else []
      | none => []
    | .resume =>
      match s.frame t with
      | some f =>
        if f.pending.timed && ((s.core.tasks t).waitResult == Code.timeout ||
            (s.core.tasks t).waitResult == Code.ok && f.pending.unmet s.kernel && s'.refused t f.pending) then
          [s'.ret t]
        else []
      | none => []
    | _ => []
  | _, _ => []

/-- Whoever goes on after having been woken finds that its condition holds, or has time left. -/
def InTime (s : Sys) (a : Act) : Prop :=
  ∀ t f, a = .resume → s.runningTask = some t → s.frame t = some f → f.pending.timed = true →
    (s.core.tasks t).waitResult = Code.ok → f.pending.unmet s.kernel = true → f.pending.left s.core.getTick ≠ 0

omit cfg in
theorem clock_of_timed (h : p.timed = true) : ∃ start ms, p.clock = some (start, ms) ∧ ms ≠ 0 := by
  unfold Pending.timed at h
  split at h
  · rename_i start ms hc
    exact ⟨start, ms, hc, (of_decide_eq_true h).1⟩
  · cases h

omit cfg in
/-- A critical section that fails in another way is no refusal. -/
theorem not_refused_of_code {r : Kernel × Outcome} {e : Code} (hr : r.2 = .ret (.code e)) (he : e ≠ p.refusal) :
    (s.finish t r).refused t p = false := by
  obtain ⟨-, hret⟩ := finish_ret s t hr
  unfold refused
  rw [hret, Bool.and_eq_false_iff]
  right
  simpa using he

omit cfg in
theorem not_refused_of_wait {r : Kernel × Outcome} {g : Frame} (hr : r.2 = .wait g) :
    (s.finish t r).refused t p = false := by
  unfold refused
  rw [finish_wait s t hr]
  rfl

/-- With time left, a round does not refuse. -/
theorem not_refused_of_left {k : Kernel} {start ms remaining : Word} (hc : p.clock = some (start, ms))
    (hu : p.unmet k = true) (hcur : k.core.cur ≠ none) (h₀ : remaining ≠ 0) :
    (s.finish t (k.round remaining p)).refused t p = false := by
  rcases Kernel.round_unmet remaining hc hu hcur with ⟨hz, -⟩ | ⟨-, ⟨e, he, hr⟩ | hw⟩
  · exact absurd hz h₀
  · refine not_refused_of_code hr (p.refusal_ne ?_)
    rcases he with rfl | rfl
    · exact .inl rfl
    · exact .inr (.inr rfl)
  · exact not_refused_of_wait hw

/-- Whether a task goes on in time can be computed. -/
instance (s : Sys) : (a : Act) → Decidable (InTime s a)
  | .resume => decidable_of_iff (∀ t ∈ s.runningTask.toList, ∀ f ∈ (s.frame t).toList, f.pending.timed = true →
      (s.core.tasks t).waitResult = Code.ok → f.pending.unmet s.kernel = true → f.pending.left s.core.getTick ≠ 0) <| by
    simp only [Option.mem_toList]
    exact ⟨fun h t f _ ht hf => h t ht f hf, fun h t ht f hf => h t f rfl ht hf⟩
  | .call _ | .start _ | .switch | .isrEnter | .isrExit | .isr _ => isTrue fun _ _ h => nomatch h

/-- A call does not give up at once. -/
theorem gaveUp_call {x : Call} (h : s.step (.call x) = some s') : gaveUp s (.call x) = [] := by
  unfold gaveUp
  cases ht : s.runningTask with
  | none => rfl
  | some t =>
    rw [h]
    dsimp only
    cases hx : x.loop s.core.getTick with
    | none => rfl
    | some p =>
      dsimp only
      refine if_neg ?_
      rw [Bool.and_eq_true, Bool.and_eq_true]
      rintro ⟨⟨htimed, hunmet⟩, href⟩
      obtain ⟨hcur, hrun, -, -⟩ := runningTask_eq_some ht
      obtain ⟨start, ms, hc, hms⟩ := clock_of_timed htimed
      obtain ⟨ms', hc', hcall⟩ := Kernel.call_round (k := s.kernel) hx rfl
      obtain rfl : ms' = ms := by
        rw [hc] at hc'
        cases hc'
        rfl
      rcases step_call h with ⟨u, hu, hf, rfl⟩ | ⟨hr, -⟩
      · obtain rfl : t = u := Option.some.inj (ht.symm.trans hu)
        refine Bool.false_ne_true (Eq.trans ?_ href)
        rcases hcall with ⟨e, he, hcode⟩ | hround
        · rw [hcode]
          refine (not_refused_of_code rfl (p.refusal_ne ?_)).symm
          rcases he with rfl | rfl
          · exact .inl rfl
          · exact .inr (.inl rfl)
        · rw [hround]
          exact (not_refused_of_left hc hunmet (by rw [hcur]; simp) hms).symm
      · rw [hrun] at hr
        cases hr

/-- **After a wait**, a call that gives up says that its time has elapsed, unless it has been woken too late. -/
theorem gaveUp_resume (h : s.step .resume = some s') :
    (∀ r ∈ gaveUp s .resume, r = some (.code Code.timeout)) ↔ InTime s .resume := by
  obtain ⟨t, f, ht, hf, rfl⟩ := step_resume h
  obtain ⟨hcur, -, -, -⟩ := runningTask_eq_some ht
  have hin : InTime s .resume ↔ (f.pending.timed = true → (s.core.tasks t).waitResult = Code.ok →
      f.pending.unmet s.kernel = true → f.pending.left s.core.getTick ≠ 0) := by
    unfold InTime
    constructor
    · exact fun hi => hi t f rfl ht hf
    · intro hi u g _ hu hg
      rw [ht] at hu
      cases hu
      rw [hf] at hg
      cases hg
      exact hi
  have hgave : gaveUp s .resume = if f.pending.timed && ((s.core.tasks t).waitResult == Code.timeout ||
      (s.core.tasks t).waitResult == Code.ok && f.pending.unmet s.kernel &&
        (s.finish t (s.kernel.resume t f)).refused t f.pending) then
      [(s.finish t (s.kernel.resume t f)).ret t] else [] := by
    rw [gaveUp, ht, h]
    dsimp only
    rw [hf]
  rw [hin, hgave]
  by_cases htimed : f.pending.timed = true
  · obtain ⟨start, ms, hc, -⟩ := clock_of_timed htimed
    have hres := Kernel.resume_round (k := s.kernel) t hc
    have hleft : f.pending.left s.core.getTick = timeoutRemainingMs s.core.getTick start ms := by
      rw [Pending.left, hc]
    by_cases hto : (s.core.tasks t).waitResult = Code.timeout
    · -- the wait has timed out
      have hne : (s.core.tasks t).waitResult ≠ Code.ok := by
        rw [hto]
        decide
      rw [if_pos hne] at hres
      refine iff_of_true (fun r hr => ?_) fun _ hok => absurd hok hne
      split at hr
      · obtain rfl := List.mem_singleton.mp hr
        rw [hres, (finish_ret s t rfl).2, hto]
      · cases hr
    · by_cases hok : (s.core.tasks t).waitResult = Code.ok
      · rw [if_neg (not_not.mpr hok), ← hleft] at hres
        rw [hres]
        cases hu : f.pending.unmet s.kernel with
        | false => simp [hto]
        | true =>
          by_cases h₀ : f.pending.left s.core.getTick = 0
          · -- another task was faster, and there is no time left
            have hcode : s.kernel.round (f.pending.left s.core.getTick) f.pending = s.kernel.code f.pending.refusal := by
              rcases Kernel.round_unmet (f.pending.left s.core.getTick) hc hu (by rw [hcur]; simp) with ⟨-, e⟩ | ⟨hz, -⟩
              · exact e
              · exact absurd h₀ hz
            obtain ⟨hframe, hret⟩ := finish_ret s t (r := s.kernel.code f.pending.refusal) rfl
            refine iff_of_false (fun hall => ?_) fun hi => hi htimed hok rfl h₀
            rw [hcode] at hall
            rw [if_pos (by simp [htimed, hok, refused, hframe, hret])] at hall
            have := hall _ (List.mem_singleton_self _)
            rw [hret] at this
            exact f.pending.timeout_ne_refusal (by simpa using this.symm)
          · refine iff_of_true ?_ fun _ _ _ => h₀
            rw [not_refused_of_left hc hu (by rw [hcur]; simp) h₀]
            simp [hto]
      · refine iff_of_true ?_ fun _ h => absurd h hok
        simp [hto, hok]
  · simp [htimed]

/-- **Timeouts are reported as timeouts**, in every run, exactly if whoever has been woken has time left or finds what
it waited for. -/
theorem timeouts_of_run (hr : run step init as = some s) :
    (∀ r ∈ trace step gaveUp init as, r = some (.code Code.timeout)) ↔ Path (Next step) InTime init as s := by
  refine forall_trace_iff (fun s a s' h => ?_) hr
  cases a with
  | call x =>
    rw [gaveUp_call h]
    refine iff_of_true (fun r hr => nomatch hr) ?_
    rintro t f ⟨⟩
  | resume => exact gaveUp_resume h
  | _ =>
    have hnone : ∀ a, (a ≠ .resume ∧ ∀ x, a ≠ .call x) → gaveUp s a = [] := by
      rintro a ⟨h₁, h₂⟩
      unfold gaveUp
      split
      · split
        · exact absurd rfl (h₂ _)
        · exact absurd rfl h₁
        · rfl
      · rfl
    rw [hnone _ (by simp)]
    refine iff_of_true (fun r hr => nomatch hr) ?_
    rintro t f ⟨⟩

/-! ### A task that is overtaken -/

/-- Task 0 waits for a message, and task 1 for a semaphore. -/
def receiving (timeoutMs : Word) : List Act :=
  boot [{ stackSize := 512, priority := 5 }, { stackSize := 512, priority := 7 }] true ++
  [.call .timerServiceWait, .switch, .call (.mqCreate 1 4 false true), .call (.semCreate 0),
    .call (.semWait ⟨0, 1⟩ forever), .switch, .call (.mqRecv ⟨0, 1⟩ 4 timeoutMs), .switch, .isrEnter]

/-- A message has woken task 0, and a post task 1, which takes the message. -/
def overtaking : List Act := [.isrExit, .switch, .resume, .call (.mqRecv ⟨0, 1⟩ 4 0),
  .call (.semWait ⟨0, 1⟩ forever), .switch, .resume]

end Sys

end Aixos

namespace Aixos.Sys

open Transition Aixos.Core

attribute [local instance] Config.default

theorem receiving_timeouts : ∃ s, run step init (receiving 1 ++ [.isr (.tick false), .isrExit, .switch, .resume]) = some s ∧
    s.ret 0 = some (.code Code.timeout) ∧
    ∀ r ∈ trace step gaveUp init (receiving 1 ++ [.isr (.tick false), .isrExit, .switch, .resume]),
      r = some (.code Code.timeout) := by
  obtain ⟨s, hp, hret⟩ := exists_path step InTime init (receiving 1 ++ [.isr (.tick false), .isrExit, .switch, .resume])
    (fun s => decide (s.ret 0 = some (.code Code.timeout))) (by decide +kernel)
  exact ⟨s, hp.run_eq, of_decide_eq_true hret, (timeouts_of_run hp.run_eq).mpr hp⟩

/-- A message wakes task 0 just before the tick, and task 1 takes it. Task 0 has no time left and returns what a call
returns that is not to wait. -/
theorem overtaken_again : ∃ s, run step init (receiving 1 ++ [.isr (.mqSend ⟨0, 1⟩ (some [1])), .isr (.semPost ⟨0, 1⟩),
      .isr (.tick false)] ++ overtaking) = some s ∧ s.ret 0 = some (.code Code.again) ∧
    ¬ ∀ r ∈ trace step gaveUp init (receiving 1 ++ [.isr (.mqSend ⟨0, 1⟩ (some [1])), .isr (.semPost ⟨0, 1⟩),
      .isr (.tick false)] ++ overtaking), r = some (.code Code.timeout) := by
  obtain ⟨s, h, hret⟩ := exists_run step init (receiving 1 ++ [.isr (.mqSend ⟨0, 1⟩ (some [1])), .isr (.semPost ⟨0, 1⟩),
    .isr (.tick false)] ++ overtaking) (fun s => decide (s.ret 0 = some (.code Code.again))) (by decide +kernel)
  exact ⟨s, h, of_decide_eq_true hret, by decide +kernel⟩

end Aixos.Sys
