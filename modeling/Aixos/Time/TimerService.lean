import Aixos.Kernel.TimerService
import Aixos.System.Waiters
import Aixos.Time.TimerPool

/-!
# The timer service misses no expiry

The service empties the list of pending timers, looks at it once more, and blocks; the tick fills the list, and wakes the
service if it waits. While a task waits for the service, no timer is pending.

* `Sys.not_waiting_tick` — a tick that has found pending timers leaves nobody waiting.
* `TimerSys.Attended`, `attended_step` — what every step keeps.
* `TimerSys.misses_nothing` — who waits in `service_waiters` waits for an expiry, and a timer that is pending is taken by
  the service's own next steps.
-/

namespace Aixos

open Transition Aixos.Core

variable [cfg : Config]

namespace Sys

variable {s s' : Sys} {a : Act} {t : TaskId}

/-- Who begins to wait blocks. -/
theorem waits_step (hs : Sound s.core) (h : s.step a = some s') (hw : (s'.core.tasks t).wait ≠ none) :
    (s'.core.tasks t).wait = (s.core.tasks t).wait ∨
      ∃ w ms, s.core.MayBlock t w ∧ a.Performs s s.core (.block t w ms) ∧ (s'.core.tasks t).wait = some w := by
  rcases step_core hs h with ⟨ops, hp⟩ | ⟨o, ho, he, e⟩
  · exact .inl (path_mild_waits hs hp t hw).1
  · rw [e] at hw ⊢
    by_cases hb : ∃ u w ms, o = .block u w ms
    · obtain ⟨u, w, ms, rfl⟩ := hb
      by_cases hu : t = u
      · subst hu
        exact .inr ⟨w, ms, he, ho, (blockTask_waits hs he ms).1⟩
      · exact .inl ((blockTask_waits hs he ms).2.2 t hu).1
    · exact .inl (exec_waits hs he (fun u w ms e => hb ⟨u, w, ms, e⟩) t hw).1

/-- Only a call, or its return, moves a task, and only the task that runs. -/
theorem frame_step (h : s.step a = some s') :
    s'.frame t = s.frame t ∨ s.runningTask = some t ∧ ((∃ c, a = .call c) ∨ a = .resume) := by
  cases a with
  | call c =>
    rcases step_call h with ⟨u, hu, -, rfl⟩ | ⟨-, k, r, -, rfl⟩
    · by_cases ht : t = u
      · exact .inr ⟨ht ▸ hu, .inl ⟨c, rfl⟩⟩
      · exact .inl (finish_frame_ne s ht _)
    · exact .inl rfl
  | resume =>
    obtain ⟨u, f, hu, -, rfl⟩ := step_resume h
    by_cases ht : t = u
    · exact .inr ⟨ht ▸ hu, .inr rfl⟩
    · exact .inl (finish_frame_ne s ht _)
  | start memory =>
    obtain ⟨-, c, -, rfl⟩ := step_start h
    exact .inl rfl
  | switch | isrEnter | isrExit | isr =>
    simp only [step] at h
    split at h
    · cases h
      exact .inl rfl
    · cases h

omit cfg in
theorem runningTask_of_mayBlock {w : Wait} (hr : s.core.running = true) (hb : s.core.MayBlock t w) :
    s.runningTask = some t := by
  unfold runningTask
  rw [hb.cur]
  exact if_pos ⟨hr, hb.isr, hb.state⟩

/-- Who runs does not wait. -/
theorem wait_of_runningTask (hs : Sound s.core) (h : s.runningTask = some t) : (s.core.tasks t).wait = none :=
  hs.wf.wait_eq_none_of_isReady (.inr (runningTask_eq_some h).2.2.2)

/-- When the scheduler has been started nobody is inside a call, and nobody waits. -/
theorem quiet_of_boot {tasks : List CreateArgs} {memory : Bool} (h : run step init (boot tasks memory) = some s) :
    (∀ t, s.frame t = none) ∧ ∀ t, (s.core.tasks t).wait = none := by
  rw [← List.append_nil (boot tasks memory)] at h
  obtain ⟨hp, -⟩ := path_of_boot h
  have hs := steady_path hp steady_init
  rw [List.append_nil, boot] at hp
  obtain ⟨s₁, h₁, hstart⟩ := hp.split
  cases hstart with
  | cons hc hstart hnil =>
    cases hnil
    obtain ⟨hr, c, -, rfl⟩ := step_start hstart
    have hf := ((steady_path h₁ steady_init).quiet hr).2
    refine ⟨hf, fun t => ?_⟩
    by_contra hw
    obtain ⟨f, hf', -⟩ := hs.framed t hw
    cases (hf t).symm.trans hf'

end Sys

namespace Core

variable {c : Core} {u : TaskId}

/-- Who is alone in `service_waiters` is woken. -/
theorem not_waiting_timerServiceWake (hs : Sound c) (hu : ∀ t, WaitsIn c .service t → t = u) (t : TaskId) :
    ¬ WaitsIn (c.timerServiceWake true) .service t := by
  intro ht
  cases hl : c.waitLists .service with
  | nil =>
    simp only [timerServiceWake, hl] at ht
    have := (hs.wf.filed .service t).mpr ht
    rw [hl] at this
    cases this
  | cons v rest =>
    have hv : v ∈ c.waitLists .service := hl ▸ List.mem_cons_self ..
    simp only [timerServiceWake, hl] at ht
    have hs' : Sound (c.exec (.wake v Code.ok)) := hs.exec (Sys.enabled_wake (r := Code.ok) hs (by simp) hv) trivial
    obtain ⟨hold, hne⟩ := ((Sys.waitLists_of_wake hs (by simp) hv).2 t).mp ((hs'.wf.filed .service t).mpr ht)
    -- both have waited before, so both are the one that waits
    have hone : ∀ x, x ∈ c.waitLists .service → x = u := fun x hx => hu x ((hs.wf.filed .service x).mp hx)
    exact hne ((hone t hold).trans (hone v hv).symm)

/-- Who is alone in `service_waiters` does not wait after a tick that has found pending timers. -/
theorem not_waiting_tickHandler (hs : Sound c) (hu : ∀ t, WaitsIn c .service t → t = u) (t : TaskId) :
    ¬ WaitsIn (c.tickHandler true) .service t := by
  obtain ⟨ops, hp⟩ := taskTickLoop_path hs.countTick c.countTick.getTick c.countTick.timeoutList _ fun _ => rfl
  have hd : Sound (c.countTick.taskTick c.countTick.getTick) := path_mild hs.countTick hp
  have hkept : WaitsKept c (c.countTick.taskTick c.countTick.getTick) :=
    (exec_waits (o := .countTick) hs trivial (by rintro t w ms ⟨⟩)).trans (path_mild_waits hs.countTick hp)
  have hone : ∀ x, WaitsIn (c.countTick.taskTick c.countTick.getTick) .service x → x = u := fun x hx =>
    hu x ((hkept x (by rw [hx]; exact Option.some_ne_none _)).1.symm.trans hx)
  obtain ⟨ops', hp'⟩ := timerServiceWake_path hd true
  have hslice := exec_waits (o := .sliceExpire) (path_mild hd hp') trivial (by rintro t w ms ⟨⟩)
  intro ht
  refine not_waiting_timerServiceWake hd hone t ?_
  have hne : ((c.tickHandler true).tasks t).wait ≠ none := by
    rw [ht]
    exact Option.some_ne_none _
  exact (hslice t hne).1.symm.trans ht

end Core

namespace TimerPool

variable {α : Type} [ocfg : ObjectConfig] {p : TimerPool α}

omit cfg ocfg in
theorem pendingRemove_sublist (p : TimerPool α) (i : ℕ) : (p.pendingRemove i).pendingTimers.Sublist p.pendingTimers := by
  unfold pendingRemove
  split
  · exact List.erase_sublist
  · exact .refl _

/-- A call makes no timer pending. -/
theorem call_sublist (p : TimerPool α) (now : Word) (c : TimerCall α) :
    (p.call now c).pendingTimers.Sublist p.pendingTimers := by
  cases c with
  | create type callback =>
    simp only [call, timerCreate]
    split
    · exact .refl _
    · split <;> exact .refl _
  | start h ms =>
    simp only [call, timerStart, Bool.false_eq_true, if_false]
    split
    · exact .refl _
    · split
      · exact .refl _
      · simp [activeInsert, setTimer]
  | stop h =>
    simp only [call, timerStop, Bool.false_eq_true, if_false]
    split
    · exact .refl _
    · rename_i i _
      have := pendingRemove_sublist (p.activeRemove i) i
      rwa [activeRemove_pendingTimers] at this
  | delete h =>
    simp only [call, timerDelete, Bool.false_eq_true, if_false]
    split
    · exact .refl _
    · rename_i i _
      have := pendingRemove_sublist (p.activeRemove i) i
      rwa [activeRemove_pendingTimers] at this

theorem call_pending (now : Word) (c : TimerCall α) (h : p.pendingTimers = []) : (p.call now c).pendingTimers = [] := by
  have := p.call_sublist now c
  rw [h] at this
  exact List.sublist_nil.mp this

end TimerPool

namespace TimerSys

variable {α : Type} {s s' : TimerSys α} {a : TimerAct α}

/-- Who waits in `service_waiters` is the service, and then no timer is pending. The service waits nowhere else, except in
a callback. -/
structure Attended (s : TimerSys α) : Prop where
  sound : Sound s.sys.core
  running : s.sys.core.running = true
  alone : ∀ t, WaitsIn s.sys.core .service t → t = s.service
  empty : WaitsIn s.sys.core .service s.service → s.timers.pendingTimers = []
  free : s.inCallback = false → (s.sys.core.tasks s.service).wait ≠ none → WaitsIn s.sys.core .service s.service
  frame : s.inCallback = false → ∀ f, s.sys.frame s.service = some f → f.pending = .result

theorem attended_booted [ocfg : ObjectConfig] {tasks : List CreateArgs} {memory : Bool} {k : Sys}
    (h : run Sys.step Sys.init (Sys.boot tasks memory) = some k) (calls : List (TimerCall α)) :
    Attended (booted k calls) := by
  obtain ⟨hf, hw⟩ := Sys.quiet_of_boot h
  rw [← List.append_nil (Sys.boot tasks memory)] at h
  obtain ⟨hp, hr⟩ := Sys.path_of_boot h
  have hno : ∀ t, ¬ WaitsIn k.core .service t := fun t ht => by
    rw [WaitsIn, hw t] at ht
    cases ht
  exact ⟨Sys.sound_path hp sound_init, hr, fun t ht => absurd ht (hno t), fun ht => absurd ht (hno _),
    fun _ hne => absurd (hw _) hne, fun _ f hf' => by cases (hf _).symm.trans hf'⟩

namespace Attended

variable {k : Sys} {b : Act}

/-- Sound, and running, for ever. -/
theorem keeps (h : Attended s) (hk : s.sys.step b = some k) : Sound k.core ∧ k.core.running = true := by
  refine ⟨Sys.sound_step h.sound ?_ hk, Sys.running_step h.sound h.running hk⟩
  rintro memory rfl
  have := h.running
  rw [(Sys.step_start hk).1] at this
  cases this

/-- Who waits in `service_waiters` has waited there, unless the action is the call that waits. -/
theorem waits (h : Attended s) (hk : s.sys.step b = some k) (hb : b ≠ .call .timerServiceWait) {t : TaskId}
    (ht : WaitsIn k.core .service t) : WaitsIn s.sys.core .service t :=
  (Sys.joins_step h.sound hk ht).resolve_right fun ⟨hu, _⟩ => hb hu

/-- A step of the native tasks. -/
theorem native (h : Attended s) (hk : s.sys.step b = some k) (hb : b ≠ .call .timerServiceWait)
    (hc : (∃ c, b = .call c) → s.mayCall = true) {timers : TimerPool α}
    (htimers : WaitsIn k.core .service s.service → timers.pendingTimers = []) :
    Attended { s with sys := k, timers := timers } := by
  obtain ⟨hs', hr'⟩ := h.keeps hk
  -- outside callbacks the service makes no call, and comes back from none but the one that waits
  have hnot : s.inCallback = false → s.sys.runningTask = some s.service → (∀ c, b ≠ .call c) := by
    rintro hin hrun c rfl
    have := hc ⟨c, rfl⟩
    simp [mayCall, hrun, hin] at this
  refine ⟨hs', hr', fun t ht => h.alone t (h.waits hk hb ht), htimers, fun hin hw => ?_, fun hin f hf => ?_⟩
  · have hin : s.inCallback = false := hin
    rcases Sys.waits_step h.sound hk hw with e | ⟨w, ms, hm, hp, -⟩
    · refine e.trans (h.free hin ?_)
      rwa [← e]
    · have hrun := Sys.runningTask_of_mayBlock h.running hm
      cases b with
      | call c => exact absurd rfl (hnot hin hrun c)
      | resume =>
        obtain ⟨u, f, hu, hf, hp⟩ := hp
        obtain rfl := Option.some.inj (hrun.symm.trans hu)
        rw [h.frame hin f hf] at hp
        exact hp.elim
      | isr c =>
        simp only [Sys.step] at hk
        split at hk
        · rename_i hn
          exact absurd hm.isr hn
        · cases hk
      | _ => cases hp
  · have hin : s.inCallback = false := hin
    rcases Sys.frame_step (t := s.service) hk with e | ⟨hrun, ⟨c, rfl⟩ | rfl⟩
    · exact h.frame hin f (e.symm.trans hf)
    · exact absurd rfl (hnot hin hrun c)
    · obtain ⟨u, g, hu, hg, rfl⟩ := Sys.step_resume hk
      obtain rfl := Option.some.inj (hrun.symm.trans hu)
      have : (s.sys.finish s.service (s.sys.kernel.resume s.service g)).frame s.service = none := by
        simp [Kernel.resume, h.frame hin g hg, Kernel.code, Sys.finish]
      cases this.symm.trans hf

/-- The service goes on, and does not block. -/
theorem goes (h : Attended s) (hs : s.serving = true) (timers : TimerPool α) (phase : ServicePhase α) :
    Attended { s with timers := timers, phase := phase } := by
  simp only [serving, Bool.and_eq_true, decide_eq_true_eq, Option.isNone_iff_eq_none] at hs
  have hw := Sys.wait_of_runningTask h.sound hs.1
  refine ⟨h.sound, h.running, h.alone, fun ht => ?_, fun _ hne => absurd hw hne, fun _ f hf => ?_⟩
  · have ht : (s.sys.core.tasks s.service).wait = some (.list .service) := ht
    rw [hw] at ht
    cases ht
  · cases hs.2.symm.trans hf

/-- The service has looked once more, and blocks. -/
theorem blocks (h : Attended s) (hs : s.serving = true) (hp : s.timers.pendingTimers = [])
    (hk : s.sys.step (.call .timerServiceWait) = some k) : Attended { s with sys := k, phase := .waiting } := by
  simp only [serving, Bool.and_eq_true, decide_eq_true_eq, Option.isNone_iff_eq_none] at hs
  obtain ⟨hs', hr'⟩ := h.keeps hk
  refine ⟨hs', hr', fun t ht => ?_, fun _ => hp, fun _ hne => ?_, fun _ f hf => ?_⟩
  · rcases Sys.joins_step h.sound hk ht with ht | ⟨-, hm⟩
    · exact h.alone t ht
    · exact Option.some.inj ((Sys.runningTask_of_mayBlock h.running hm).symm.trans hs.1)
  · rcases Sys.waits_step h.sound hk hne with e | ⟨w, ms, -, ⟨u, n, -, e⟩, hw⟩
    · exact absurd (e.trans (Sys.wait_of_runningTask h.sound hs.1)) hne
    · cases e
      exact hw
  · rcases Sys.step_call hk with ⟨u, hu, -, rfl⟩ | ⟨hr, -⟩
    · obtain rfl := Option.some.inj (hs.1.symm.trans hu)
      simp only [Kernel.call, Kernel.timerServiceWait, Kernel.block] at hf
      split at hf <;> simp [Sys.finish, Kernel.code] at hf
      rw [← hf]
    · rw [h.running] at hr
      cases hr

/-- A tick that leaves timers pending wakes the service. -/
theorem ticks (h : Attended s) {timers : TimerPool α}
    (hk : s.sys.step (.isr (.tick !timers.pendingTimers.isEmpty)) = some k) :
    Attended { s with sys := k, timers := timers } := by
  refine h.native hk (by simp) (by simp) fun hw => ?_
  by_contra hne
  have hflag : (!timers.pendingTimers.isEmpty) = true := by simpa using hne
  rw [hflag] at hk
  have hcore : s.sys.core.tickHandler true = k.core := congrArg Kernel.core (Sys.step_isr_kernel hk)
  rw [← hcore] at hw
  exact not_waiting_tickHandler h.sound h.alone _ hw

end Attended

variable [ocfg : ObjectConfig]

theorem attended_step (h : Attended s) (hstep : s.step a = some s') : Attended s' := by
  have native : ∀ {b k}, s.sys.step b = some k → b ≠ .call .timerServiceWait → ((∃ c, b = .call c) → s.mayCall = true) →
      Attended { s with sys := k } := fun hk hb hc =>
    h.native hk hb hc fun ht => h.empty (h.waits hk hb ht)
  cases a with
  | native b =>
    cases b with
    | call c =>
      by_cases hc : c = .timerServiceWait
      · subst hc
        cases hstep
      · have hstep : (if s.mayCall then (s.sys.step (.call c)).map fun k => { s with sys := k } else none) = some s' := by
          cases c <;> first | exact hstep | exact absurd rfl hc
        split at hstep
        · rename_i hm
          obtain ⟨k, hk, rfl⟩ := Option.map_eq_some_iff.mp hstep
          exact native hk (by simpa using hc) fun _ => hm
        · cases hstep
    | isr c =>
      cases c with
      | tick p => cases hstep
      | _ =>
        obtain ⟨k, hk, rfl⟩ := Option.map_eq_some_iff.mp hstep
        exact native hk (by simp) (by simp)
    | _ =>
      obtain ⟨k, hk, rfl⟩ := Option.map_eq_some_iff.mp hstep
      exact native hk (by simp) (by simp)
  | call c =>
    simp only [step] at hstep
    split at hstep
    · cases hstep
    · split at hstep
      · cases hstep
        exact ⟨h.sound, h.running, h.alone, fun ht => TimerPool.call_pending _ _ (h.empty ht), h.free, h.frame⟩
      · cases hstep
  | tick =>
    obtain ⟨k, hk, rfl⟩ := Option.map_eq_some_iff.mp hstep
    exact h.ticks hk
  | serve =>
    simp only [step] at hstep
    split at hstep
    · rename_i hs
      split at hstep
      · split at hstep <;> cases hstep <;> exact h.goes hs _ _
      · cases hstep
        exact h.goes hs _ _
      · split at hstep
        · cases hstep
          exact h.goes hs _ _
        · rename_i hp
          obtain ⟨k, hk, rfl⟩ := Option.map_eq_some_iff.mp hstep
          exact h.blocks hs (not_not.mp hp) hk
      · cases hstep
        exact h.goes hs _ _
    · cases hstep

theorem attended_path {as : List (TimerAct α)} (h : Attended s) (hr : run step s as = some s') : Attended s' :=
  (path_iff_run.mpr hr).invariant (fun _ _ _ hs _ hstep => attended_step hs hstep) h

/-- A service that runs takes the first pending timer, in two steps at most. -/
theorem takes_of_serving {i : ℕ} {rest : List ℕ} (hs : s.serving = true) (hin : s.inCallback = false)
    (hp : s.timers.pendingTimers = i :: rest) : ∃ n s', n ≤ 2 ∧ run step s (List.replicate n .serve) = some s' ∧
      s'.phase = .callback (s.timers.timers i).callback ∧ s'.timers.pendingTimers = rest := by
  have hne : s.timers.pendingTimers ≠ [] := by simp [hp]
  obtain ⟨k, p, u, phase⟩ := s
  dsimp only at hp hne ⊢
  have htake : ∃ s', step ⟨k, p, u, .dispatch⟩ .serve = some s' ∧ s'.phase = .callback (p.timers i).callback ∧
      s'.timers.pendingTimers = rest := by
    refine ⟨⟨k, { p with pendingTimers := rest }.setTimer i fun t => { t with pending := false }, u,
      .callback (p.timers i).callback⟩, ?_, rfl, rfl⟩
    simp only [step, TimerPool.dispatchTake, hp]
    exact if_pos hs
  obtain ⟨s', htake, h₁, h₂⟩ := htake
  have two : step ⟨k, p, u, phase⟩ .serve = some ⟨k, p, u, .dispatch⟩ →
      run step ⟨k, p, u, phase⟩ (List.replicate 2 .serve) = some s' := by
    intro h
    show (step _ _).bind (run step · [.serve]) = some s'
    rw [h, Option.bind_some, run_one, htake]
  cases phase with
  | dispatch => exact ⟨1, s', by omega, by rw [List.replicate_one, run_one, htake], h₁, h₂⟩
  | callback f => cases hin
  | recheck =>
    refine ⟨2, s', le_rfl, two ?_, h₁, h₂⟩
    simp only [step, if_pos hne]
    exact if_pos hs
  | waiting =>
    refine ⟨2, s', le_rfl, two ?_, h₁, h₂⟩
    simp only [step]
    exact if_pos hs

/-- A service that is the task that runs takes the first pending timer, in three steps of its own at most. -/
theorem Attended.takes (h : Attended s) {i : ℕ} {rest : List ℕ} (hin : s.inCallback = false)
    (hrun : s.sys.runningTask = some s.service) (hp : s.timers.pendingTimers = i :: rest) :
    ∃ as s', (∀ a ∈ as, a = .native .resume ∨ a = .serve) ∧ as.length ≤ 3 ∧ run step s as = some s' ∧
      s'.phase = .callback (s.timers.timers i).callback ∧ s'.timers.pendingTimers = rest := by
  cases hf : s.sys.frame s.service with
  | none =>
    have hs : s.serving = true := by simp [serving, hrun, hf]
    obtain ⟨n, s', hn, hr, h₁, h₂⟩ := takes_of_serving hs hin hp
    exact ⟨_, s', fun a ha => .inr (List.eq_of_mem_replicate ha), by rw [List.length_replicate]; omega, hr, h₁, h₂⟩
  | some f =>
    -- the service has been woken, and returns from the wait first
    set k := s.sys.finish s.service (s.sys.kernel.resume s.service f) with hk
    have hstep : step s (.native .resume) = some { s with sys := k } := by
      simp [step, Sys.step, hrun, hf, hk]
    have hres : s.sys.kernel.resume s.service f = s.sys.kernel.code (s.sys.core.tasks s.service).waitResult := by
      simp [Kernel.resume, h.frame hin f hf]
    have hs : ({ s with sys := k } : TimerSys α).serving = true := by
      have hcore : k.core = s.sys.core := by
        rw [hk, Sys.finish_core, hres]
        rfl
      have hframe : k.frame s.service = none := by
        rw [hk, hres]
        simp [Sys.finish, Kernel.code]
      simp only [serving, Bool.and_eq_true, decide_eq_true_eq, Option.isNone_iff_eq_none]
      refine ⟨?_, hframe⟩
      rw [← hrun]
      unfold Sys.runningTask
      rw [hcore]
    obtain ⟨n, s', hn, hr, h₁, h₂⟩ := takes_of_serving (s := { s with sys := k }) hs hin hp
    refine ⟨.native .resume :: List.replicate n .serve, s', ?_, ?_, ?_, h₁, h₂⟩
    · rintro a (_ | ⟨_, ha⟩)
      · exact .inl rfl
      · exact .inr (List.eq_of_mem_replicate ha)
    · rw [List.length_cons, List.length_replicate]
      omega
    · rw [run, hstep]
      exact hr

/-- **The service misses no expiry**: in every state, if a task is blocked in `service_waiters`, no timer is pending. If one
is, and the service is not in a callback, then the service waits for nothing, and as soon as it runs its own next steps
take the first timer that is pending. -/
theorem misses_nothing {tasks : List CreateArgs} {memory : Bool} {k : Sys} {calls : List (TimerCall α)}
    {as : List (TimerAct α)} (h₀ : run Sys.step Sys.init (Sys.boot tasks memory) = some k)
    (h : run step (booted k calls) as = some s) :
    ((∃ t, WaitsIn s.sys.core .service t) → s.timers.pendingTimers = []) ∧
    ∀ i rest, s.timers.pendingTimers = i :: rest → s.inCallback = false →
      (s.sys.core.tasks s.service).wait = none ∧
      (s.sys.runningTask = some s.service → ∃ as s', (∀ a ∈ as, a = .native .resume ∨ a = .serve) ∧ as.length ≤ 3 ∧
        run step s as = some s' ∧ s'.phase = .callback (s.timers.timers i).callback ∧
        s'.timers.pendingTimers = rest) := by
  have ha := attended_path (attended_booted h₀ calls) h
  refine ⟨fun ⟨t, ht⟩ => ha.empty (ha.alone t ht ▸ ht), fun i rest hp hin => ⟨?_, fun hrun => ha.takes hin hrun hp⟩⟩
  by_contra hne
  have := ha.empty (ha.free hin hne)
  rw [hp] at this
  cases this

end TimerSys

end Aixos

namespace Aixos.TimerSys

open Transition Aixos.Core

attribute [local instance] Config.default ObjectConfig.default

/-- A timer is created and started, then the scheduler. -/
def oneTimer : List (TimerCall ℕ) := [.create .oneshot (some 7), .start (some ⟨0, 1⟩) 1]

/-- The service finds nothing to do, and sleeps. -/
def sleeps : List (TimerAct ℕ) := [.serve, .serve]

/-- The timer expires while it sleeps, and it is switched in. -/
def expiry : List (TimerAct ℕ) := [.native .switch, .native .isrEnter, .tick, .native .isrExit, .native .switch]

theorem misses_nothing_once : ∃ k, run Sys.step Sys.init (Sys.boot [{ stackSize := 512, priority := 5 }] true) = some k ∧
    (∃ s, run step (booted k oneTimer) sleeps = some s ∧ WaitsIn s.sys.core .service 2 ∧ s.timers.pendingTimers = []) ∧
    ∃ s, run step (booted k oneTimer) (sleeps ++ expiry) = some s ∧ s.timers.pendingTimers = [0] ∧
      (s.sys.core.tasks s.service).wait = none ∧ ∃ as s', as.length ≤ 3 ∧ run step s as = some s' ∧
        s'.phase = .callback (s.timers.timers 0).callback ∧ s'.timers.pendingTimers = [] := by
  obtain ⟨k, hk, hp⟩ := exists_run Sys.step Sys.init (Sys.boot [{ stackSize := 512, priority := 5 }] true) (fun k =>
    ((run step (booted k oneTimer) sleeps).map fun s => decide ((s.sys.core.tasks 2).wait = some (.list .service))) =
      some true ∧
    ((run step (booted k oneTimer) (sleeps ++ expiry)).map fun s => decide (s.timers.pendingTimers = [0] ∧
      s.inCallback = false ∧ s.sys.runningTask = some s.service)) = some true) (by decide +kernel)
  obtain ⟨h₁, h₂⟩ := of_decide_eq_true hp
  obtain ⟨s₁, hr₁, hw⟩ := exists_run step _ _ _ h₁
  obtain ⟨s₂, hr₂, hs₂⟩ := exists_run step _ _ _ h₂
  have hw := of_decide_eq_true hw
  obtain ⟨hpend, hin, hrun⟩ := of_decide_eq_true hs₂
  obtain ⟨hwait, htakes⟩ := (misses_nothing hk hr₂).2 0 [] hpend hin
  obtain ⟨as, s', -, hlen, hr', hphase, hrest⟩ := htakes hrun
  exact ⟨k, hk, ⟨s₁, hr₁, hw, (misses_nothing hk hr₁).1 ⟨2, hw⟩⟩, s₂, hr₂, hpend, hwait, as, s', hlen, hr', hphase, hrest⟩

end Aixos.TimerSys
