import Aixos.System.Runs

/-!
# Task states and list membership

What a task's state says about the lists its nodes are in, in every state a run reaches.

* `ReadyOnce` — the ready structure is well formed and holds each ready task once, in the
  queue of its priority.
* `Situated` — every live task is in one of the three situations its state allows.
* `Framed` — a task that waits is inside a call, and has a timeout exactly if that call
  was given one.

A run from `Sys.init` makes the tasks first and then starts the scheduler; what was done
to a task before the start decides whether the start finds its node unused.
-/

namespace Aixos

open Transition Aixos.Core Sched

variable [cfg : Config]

/-- The ready structure holds every ready task exactly once, where it belongs, and no other. -/
def ReadyOnce (c : Core) : Prop :=
  ∃ q, c.sched.Holds q ∧
    ∀ t p, (q p).count t = if (c.tasks t).isReady ∧ c.priority t = p then 1 else 0

namespace Core

variable {c c' : Core} {t : TaskId}

/-- Once the scheduler runs, a sound core has every ready task queued. -/
theorem Sound.readyQueues (h : Sound c) (hr : c.running = true) :
    ∃ q, c.sched.Holds q ∧ ∀ t p, t ∈ q p ↔ (c.tasks t).isReady ∧ c.priority t = p := by
  obtain ⟨q, hq⟩ := h.ready
  exact ⟨q, hq.holds, fun t p => hq.mem_iff hr (fun _ => h.wf.isReady_lt) p⟩

theorem Sound.readyOnce (h : Sound c) (hr : c.running = true) : ReadyOnce c := by
  obtain ⟨q, hq, hmem⟩ := h.readyQueues hr
  refine ⟨q, hq, fun t p => ?_⟩
  split
  · rename_i ht
    exact List.count_eq_one_of_mem (hq.nodup p) ((hmem t p).mpr ht)
  · rename_i ht
    exact List.count_eq_zero_of_not_mem (mt (hmem t p).mp ht)

/-- A ready task whose node is linked to itself is in no queue. -/
theorem not_readyOnce_of_selfLinked (hr : (c.tasks t).isReady) (hs : SelfLinked c.sched t) :
    ¬ ReadyOnce c := by
  rintro ⟨q, hq, hcount⟩
  have h₁ := hcount t (c.priority t)
  rw [if_pos ⟨hr, rfl⟩] at h₁
  have hm : t ∈ q (c.priority t) := List.count_pos_iff.mp (by omega)
  exact hq.not_mem_of_selfLinked hs hm

end Core

namespace Sys

variable {s s' : Sys} {a : Act} {t : TaskId} {as : List Act}

/-- **The ready structure is exact in every state after the start**, in every run in which the
start finds no ready task queued. -/
theorem readyOnce_of_path (hp : Path (Next step) StartsClean init as s) (hr : s.core.running = true) :
    ReadyOnce s.core :=
  (sound_path hp sound_init).readyOnce hr

/-- Whoever waits is inside a call, and has a timeout exactly if that call was given one. -/
def Framed (s : Sys) : Prop := ∀ t, (s.core.tasks t).wait ≠ none →
  ∃ f, s.frame t = some f ∧ (t ∈ s.core.timeoutList ↔ f.timeoutMs ≠ forever)

omit cfg in
theorem Framed.kept (h : Framed s) (hw : WaitsKept s.core s'.core)
    (hf : ∀ t, (s.core.tasks t).wait ≠ none → s'.frame t = s.frame t) : Framed s' := by
  intro t ht
  obtain ⟨e, i⟩ := hw t ht
  rw [e] at ht
  rw [hf t ht, i]
  exact h t ht

omit cfg in
theorem finish_frame_ne (s : Sys) {t u : TaskId} (hu : u ≠ t) (r : Kernel × Outcome) :
    (s.finish t r).frame u = s.frame u := by
  unfold finish
  split <;> simp [hu]

/-- A critical section of the running task. -/
theorem Framed.finish {A : Core → Op → Prop} (h : Framed s) (hs : Sound s.core) (ht : s.runningTask = some t)
    {r : Kernel × Outcome} (he : Effect A s.core r.1.core r.2) : Framed (s.finish t r) := by
  obtain ⟨hcur, -, -, hrun⟩ := runningTask_eq_some ht
  have hw : (s.core.tasks t).wait = none := hs.wf.wait_eq_none_of_isReady (.inr hrun)
  have hframe : ∀ u, (s.core.tasks u).wait ≠ none → (s.finish t r).frame u = s.frame u := by
    intro u hu
    refine finish_frame_ne s ?_ r
    intro e
    rw [e] at hu
    exact hu hw
  rcases r with ⟨k, o⟩
  dsimp only at he
  generalize hk : k.core = c at he
  cases he with
  | calm hp =>
    refine h.kept ?_ hframe
    rw [finish_core, hk]
    exact path_mild_waits hs (hp.mono fun _ _ h => ⟨.inl h.1, h.2⟩)
  | @block t' w ms p _ hb =>
    obtain rfl : t = t' := Option.some.inj (hcur.symm.trans hb.cur)
    obtain ⟨hself, hto, hother⟩ := blockTask_waits hs hb ms
    intro u hu
    rw [finish_core, hk] at hu ⊢
    by_cases hut : u = t
    · subst hut
      refine ⟨{ pending := p, timeoutMs := ms }, ?_, ?_⟩
      · simp [Sys.finish]
      · rw [hto, ne_eq, ne_eq, msToTicks_eq_forever]
    · obtain ⟨e, -, i⟩ := hother u hut
      rw [e] at hu
      rw [hframe u hu, i]
      exact h u hu
  | single _ ho he =>
    rename_i op
    refine h.kept ?_ hframe
    rw [finish_core, hk]
    refine exec_waits hs he ?_
    rintro t w ms rfl
    exact absurd ho (by simp [Op.Single])

theorem framed_step (h : Framed s) (hs : Sound s.core) (hstep : s.step a = some s') : Framed s' := by
  -- apart from the critical sections of a task, frames stay and nothing begins to wait
  have other : s'.frame = s.frame →
      (∀ t w ms, a.Performs s s.core (.block t w ms) → ¬ s.core.MayBlock t w) → Framed s' := by
    intro hf hb
    refine h.kept ?_ fun t _ => by rw [hf]
    rcases step_core hs hstep with ⟨ops, hp⟩ | ⟨o, ho, he, e⟩
    · exact path_mild_waits hs hp
    · rw [e]
      refine exec_waits hs he ?_
      rintro t w ms rfl
      exact hb t w ms ho he
  cases a with
  | call c =>
    rcases step_call hstep with ⟨t, ht, -, rfl⟩ | ⟨hr, k, r, e, rfl⟩
    · exact h.finish hs ht (Kernel.call_does hs (runs_of_runningTask ht) c)
    · refine other rfl fun t w ms _ hb => ?_
      have hcur := hb.cur
      rw [hs.wf.cur.none hr] at hcur
      cases hcur
  | start memory =>
    obtain ⟨-, c, -, rfl⟩ := step_start hstep
    exact other rfl (by simp [Act.Performs])
  | resume =>
    obtain ⟨t, f, ht, -, rfl⟩ := step_resume hstep
    exact h.finish hs ht (Kernel.resume_does hs (runs_of_runningTask ht) t f)
  | switch | isrEnter | isrExit =>
    refine other ?_ (by simp [Act.Performs])
    simp only [step] at hstep
    split at hstep
    · cases hstep
      rfl
    · cases hstep
  | isr c =>
    simp only [step] at hstep
    split at hstep
    · rename_i hi
      refine other ?_ fun t w ms _ hb => hi hb.isr
      cases hstep
      rfl
    · cases hstep

/-- **Waits and timeouts agree with the calls** in every run with a clean start. -/
theorem framed_path (hp : Path (Next step) StartsClean init as s) : Framed s := by
  refine (hp.invariant (I := fun s => Sound s.core ∧ Framed s) ?_ ⟨sound_init, ?_⟩).2
  · rintro s a s' ⟨hs, hf⟩ hc h
    exact ⟨sound_step hs hc h, framed_step hf hs h⟩
  · intro t ht
    exact absurd rfl ht

/-- The situations a live task can be in, given the ready queues. -/
inductive Situated (s : Sys) (q : ℕ → List TaskId) (t : TaskId) : Prop where
  /-- It is ready: in the queue of its priority, once, and in no other list. -/
  | ready : (s.core.tasks t).isReady →
      (∀ p, (q p).count t = if s.core.priority t = p then 1 else 0) →
      (∀ l, t ∉ s.core.waitLists l) → t ∉ s.core.timeoutList → Situated s q t
  /-- It waits: in exactly the wait list it records, if any, and in the timeout list exactly
  if its timeout is finite. -/
  | waiting : (s.core.tasks t).state = .blocked ∨ (s.core.tasks t).state = .delayed →
      (∀ p, t ∉ q p) →
      (∀ l, (s.core.waitLists l).count t = if (s.core.tasks t).waitList = some l then 1 else 0) →
      (∃ f, s.frame t = some f ∧
        s.core.timeoutList.count t = if f.timeoutMs = forever then 0 else 1) →
      Situated s q t
  /-- It is suspended: in no list. -/
  | suspended : (s.core.tasks t).state = .suspended → (∀ p, t ∉ q p) →
      (∀ l, t ∉ s.core.waitLists l) → t ∉ s.core.timeoutList → Situated s q t

/-- A task that is not ready and does not wait is in no list. -/
theorem nowhere (hs : Sound s.core) {q : ℕ → List TaskId}
    (hq : ∀ t p, t ∈ q p ↔ (s.core.tasks t).isReady ∧ s.core.priority t = p)
    (hr : ¬ (s.core.tasks t).isReady)
    (hw : ¬ ((s.core.tasks t).state = .blocked ∨ (s.core.tasks t).state = .delayed)) :
    (∀ p, t ∉ q p) ∧ (∀ l, t ∉ s.core.waitLists l) ∧ t ∉ s.core.timeoutList := by
  have hw := hs.wf.wait_eq_none hw
  exact ⟨fun p hm => hr ((hq t p).mp hm).1, hs.wf.not_mem_waitLists hw, hs.wf.not_mem_timeoutList hw⟩

theorem situated (hs : Sound s.core) (hf : Framed s) {q : ℕ → List TaskId} (hh : s.core.sched.Holds q)
    (hq : ∀ t p, t ∈ q p ↔ (s.core.tasks t).isReady ∧ s.core.priority t = p) (hl : s.core.Live t) :
    Situated s q t := by
  cases hst : (s.core.tasks t).state with
  | stop => exact absurd hst hl
  | ready | running =>
    have hr : (s.core.tasks t).isReady := by simp [Tcb.isReady, hst]
    have hw := hs.wf.wait_eq_none_of_isReady hr
    refine .ready hr (fun p => ?_) (hs.wf.not_mem_waitLists hw) (hs.wf.not_mem_timeoutList hw)
    split
    · rename_i hp
      exact List.count_eq_one_of_mem (hh.nodup p) ((hq t p).mpr ⟨hr, hp⟩)
    · rename_i hp
      exact List.count_eq_zero_of_not_mem fun hm => hp ((hq t p).mp hm).2
  | blocked | delayed =>
    have hst' : (s.core.tasks t).state = .blocked ∨ (s.core.tasks t).state = .delayed := by simp [hst]
    have hw := (hs.wf.waiting t).mpr hst'
    obtain ⟨f, hf, hto⟩ := hf t hw
    refine .waiting hst' (fun p hm => ?_) (fun l => ?_) ⟨f, hf, ?_⟩
    · have := ((hq t p).mp hm).1
      simp [Tcb.isReady, hst] at this
    · split
      · rename_i he
        exact List.count_eq_one_of_mem (hs.wf.nodup l) ((hs.wf.filed l t).mpr (Tcb.waitList_eq_some.mp he))
      · rename_i he
        exact List.count_eq_zero_of_not_mem fun hm => he (Tcb.waitList_eq_some.mpr ((hs.wf.filed l t).mp hm))
    · split
      · rename_i he
        exact List.count_eq_zero_of_not_mem fun hm => hto.mp hm he
      · rename_i he
        exact List.count_eq_one_of_mem hs.wf.timedNodup (hto.mpr he)
  | suspended =>
    obtain ⟨h₁, h₂, h₃⟩ := nowhere (t := t) hs hq (by simp [Tcb.isReady, hst]) (by simp [hst])
    exact .suspended hst h₁ h₂ h₃

/-! ### Runs that begin with creations -/

/-- `main` creates these tasks, then starts the scheduler. -/
def boot (tasks : List CreateArgs) (memory : Bool) : List Act :=
  tasks.map (fun a => .call (.taskCreate a)) ++ [.start memory]

/-- Creating tasks leaves every node as `aixos_list_init` made it. -/
theorem startOk_created {s₀ : Sys} (h₀ : StartOk s₀.core ∧ s₀.core.running = false)
    (hp : Path (Next step) (fun _ a => ∃ x, a = .call (.taskCreate x)) s₀ as s) :
    StartOk s.core ∧ s.core.running = false := by
  refine hp.invariant (I := fun s => StartOk s.core ∧ s.core.running = false) ?_ h₀
  rintro s a s' ⟨hs, hr⟩ ⟨x, rfl⟩ h
  rcases step_call h with ⟨t, ht, -⟩ | ⟨-, k, r, e, rfl⟩
  · rw [(runningTask_eq_some ht).2.1] at hr
    cases hr
  · have hk : k.core = (s.core.taskCreateCommon x).1 := by
      rw [show k = (s.kernel.call (.taskCreate x)).1 by rw [e]]
      show (s.kernel.taskCreate x).1.core = _
      unfold Kernel.taskCreate
      dsimp only
      split <;> rfl
    show StartOk k.core ∧ k.core.running = false
    rw [hk]
    exact hs.taskCreateCommon hr x

theorem running_step (hs : Sound s.core) (hr : s.core.running = true) (h : s.step a = some s') :
    s'.core.running = true := by
  rcases step_core hs h with ⟨ops, hp⟩ | ⟨o, -, he, e⟩
  · exact path_mild_running hs hr hp
  · rw [e]
    exact exec_running hs.wf.isFiled hr o he

theorem running_of_start {memory : Bool} (h : s.step (.start memory) = some s') : s'.core.running = true := by
  obtain ⟨hr, c, e, rfl⟩ := step_start h
  obtain ⟨c₂, -, rfl⟩ := start_eq_some hr e
  rw [schedule_running]

/-- Once the scheduler runs, every run is one with a clean start. -/
theorem startsClean_of_running (hs : Sound s.core) (hr : s.core.running = true)
    (hp : Path (Next step) (fun _ _ => True) s as s') : Path (Next step) StartsClean s as s' := by
  induction hp with
  | nil => exact .nil _
  | @cons s m s' a as _ hstep _ ih =>
    have hc : StartsClean s a := by
      rintro memory rfl
      rw [(step_start hstep).1] at hr
      cases hr
    exact .cons hc hstep (ih (sound_step hs hc hstep) (running_step hs hr hstep))

theorem running_path (hs : Sound s.core) (hr : s.core.running = true)
    (hp : Path (Next step) StartsClean s as s') : s'.core.running = true := by
  refine (hp.invariant (I := fun s => Sound s.core ∧ s.core.running = true) ?_ ⟨hs, hr⟩).2
  rintro s a s' ⟨hs, hr⟩ hc h
  exact ⟨sound_step hs hc h, running_step hs hr h⟩

/-- A run that begins with creations has a clean start. -/
theorem path_of_boot_from {s₀ : Sys} (hs₀ : Sound s₀.core) (h₀ : StartOk s₀.core ∧ s₀.core.running = false)
    {tasks : List CreateArgs} {memory : Bool} (h : run step s₀ (boot tasks memory ++ as) = some s) :
    Path (Next step) StartsClean s₀ (boot tasks memory ++ as) s ∧ s.core.running = true := by
  have hp := path_iff_run.mpr h
  rw [boot, List.append_assoc] at hp ⊢
  obtain ⟨s₁, h₁, hp⟩ := hp.split
  cases hp with
  | cons _ hstart hp =>
    have hb := h₁.restrict (P := fun a => ∃ x, a = .call (.taskCreate x)) fun a ha => by
      obtain ⟨x, -, rfl⟩ := List.mem_map.mp ha
      exact ⟨x, rfl⟩
    obtain ⟨hok, -⟩ := startOk_created h₀ hb
    have h₁ : Path (Next step) StartsClean s₀ _ s₁ := hb.mono fun _ _ ⟨x, e⟩ memory e' => by
      rw [e] at e'
      cases e'
    have hs₁ := sound_path h₁ hs₀
    have hc : StartsClean s₁ (.start memory) := fun _ _ => hok
    have hs₂ := sound_step hs₁ hc hstart
    have hr₂ := running_of_start hstart
    have h₂ := startsClean_of_running hs₂ hr₂ hp
    exact ⟨h₁.append (.cons hc hstart h₂), running_path hs₂ hr₂ h₂⟩

omit cfg in
theorem startOk_init : StartOk init.core ∧ init.core.running = false :=
  ⟨fun t ht => by simp [init, Kernel.init, Core.init] at ht, rfl⟩

theorem path_of_boot {tasks : List CreateArgs} {memory : Bool}
    (h : run step init (boot tasks memory ++ as) = some s) :
    Path (Next step) StartsClean init (boot tasks memory ++ as) s ∧ s.core.running = true :=
  path_of_boot_from sound_init startOk_init h

/-- **States and lists agree**: after the tasks have been created and the scheduler started, every
live task is in one of the three situations in every state reached, and a deleted task is in
no list. -/
theorem memberships {tasks : List CreateArgs} {memory : Bool}
    (h : run step init (boot tasks memory ++ as) = some s) :
    ∃ q, s.core.sched.Holds q ∧ (∀ t, s.core.Live t → Situated s q t) ∧
      ∀ t, ¬ s.core.Live t → (∀ p, t ∉ q p) ∧ (∀ l, t ∉ s.core.waitLists l) ∧ t ∉ s.core.timeoutList := by
  obtain ⟨hp, hr⟩ := path_of_boot h
  have hs := sound_path hp sound_init
  obtain ⟨q, hh, hq⟩ := hs.readyQueues hr
  refine ⟨q, hh, fun t hl => situated hs (framed_path hp) hh hq hl, fun t hl => ?_⟩
  have hst : (s.core.tasks t).state = .stop := not_not.mp hl
  exact nowhere hs hq (by simp [Tcb.isReady, hst]) (by simp [hst])

end Sys

end Aixos

namespace Aixos.Sys

open Transition Aixos.Core

attribute [local instance] Config.default

/-- A task is suspended and resumed before the scheduler is started, which queues it once more. -/
def resumedEarly : List Act :=
  [.call (.taskCreate { stackSize := 512, priority := 5 }), .call (.taskSuspend 0), .call (.taskResume 0),
    .start true]

theorem resumedEarly_not_readyOnce : ∃ s, run step init resumedEarly = some s ∧
    s.core.running = true ∧ ¬ ReadyOnce s.core := by
  obtain ⟨s, h, hp⟩ := exists_run step init resumedEarly (fun s => decide (s.core.running = true ∧
    (s.core.tasks 0).isReady ∧ s.core.sched.links.next (.task 0) = some (.task 0) ∧
    s.core.sched.links.prev (.task 0) = some (.task 0))) (by decide +kernel)
  obtain ⟨hr, hready, hlinks⟩ := of_decide_eq_true hp
  exact ⟨s, h, hr, not_readyOnce_of_selfLinked hready hlinks⟩

/-- A semaphore is waited for by two tasks, one of them with a timeout, and a third is deleted. -/
def waiting : List Act := boot [{ stackSize := 512, priority := 5 }, { stackSize := 512, priority := 7 },
    { stackSize := 512, priority := 3 }] true ++
  [.call .timerServiceWait, .switch, .call (.semCreate 0), .call (.semWait ⟨0, 1⟩ 10), .switch,
    .call (.taskDelete 2), .call (.semWait ⟨0, 1⟩ forever), .switch]

theorem waiting_readyOnce : ∃ s, run step init waiting = some s ∧ ReadyOnce s.core := by
  obtain ⟨s, h, hp⟩ := exists_run step init waiting (fun s => s.core.running) (by decide +kernel)
  exact ⟨s, h, readyOnce_of_path (path_of_boot h).1 hp⟩

theorem waiting_memberships : ∃ s, run step init waiting = some s ∧
    s.core.waitLists (.sem 0) = [1, 0] ∧ s.core.timeoutList = [1] ∧ ¬ s.core.Live 2 ∧
    ∃ q, s.core.sched.Holds q ∧ (∀ t, s.core.Live t → Situated s q t) ∧
      ∀ t, ¬ s.core.Live t → (∀ p, t ∉ q p) ∧ (∀ l, t ∉ s.core.waitLists l) ∧ t ∉ s.core.timeoutList := by
  obtain ⟨s, h, hp⟩ := exists_run step init waiting (fun s => decide (s.core.waitLists (.sem 0) = [1, 0] ∧
    s.core.timeoutList = [1] ∧ ¬ s.core.Live 2)) (by decide +kernel)
  obtain ⟨h₁, h₂, h₃⟩ := of_decide_eq_true hp
  exact ⟨s, h, h₁, h₂, h₃, memberships h⟩

end Aixos.Sys
