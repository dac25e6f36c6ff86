import Aixos.System.Effects
import Aixos.Core.Waits

/-!
# Runs of the system

What one action does to the core, and what follows for runs.

* `Sys.step_core` — an action starts the scheduler, runs a critical section of a task, or
  is made of timely steps: those of interrupts and switches.
* `Sys.sound_path` — the invariant of the core holds in every run in which the scheduler
  is started properly.
-/

namespace Aixos

open Transition Aixos.Core

variable [cfg : Config]

/-- The steps interrupts and switches are made of, besides calm ones. -/
def Core.Op.Timely : Op → Prop
  | .timeout .. | .countTick | .sliceExpire | .switch | .isrEnter | .isrExit => True
  | _ => False

/-- The steps that come in sequences. -/
def Core.Op.Mild (o : Op) : Prop := o.Calm ∨ o.Timely

/-- The tasks whose timeout the next tick will find reached. -/
def Core.due (c : Core) : List TaskId :=
  c.timeoutList.takeWhile fun t => tickReached c.countTick.getTick (c.tasks t).wakeTick

/-- The steps that an interrupt handler makes, in a state on the way from `k`. -/
def IsrCall.Performs (k : Core) : IsrCall → Core → Op → Prop
  | .tick _, c, o => o = .countTick ∨ o = .sliceExpire ∨ c.WakesFrom .service o ∨
      ∃ t ∈ k.due, o = .timeout t (if (c.tasks t).state = .delayed then Code.ok else Code.timeout)
  | .semPost h, c, o => k.SemPosts h c o
  | .mqSend h _, c, o => k.MqSends h c o
  | .pipeWrite h _, c, o => k.PipeWrites h c o
  | .notify t _ _, c, o => Notifies t c o

/-- The steps that an action makes, in a state on the way from that of `s`. -/
def Act.Performs (s : Sys) : Act → Core → Op → Prop
  | .call x, c, o => x.Performs s.core c o
  | .start memory, _, o => o = .start memory
  | .resume, c, o => ∃ t f, s.runningTask = some t ∧ s.frame t = some f ∧ f.pending.Performs s.core c o
  | .switch, _, o => o = .switch
  | .isrEnter, _, o => o = .isrEnter
  | .isrExit, _, o => o = .isrExit
  | .isr x, c, o => x.Performs s.core c o

namespace Core

variable {c c' : Core}

/-- A step of a sequence begins no wait and does not start the scheduler. -/
theorem Op.Mild.exec {o : Op} (hm : o.Mild) (h : Sound c) (he : c.Enabled o) :
    Sound (c.exec o) ∧ Ended (o.Ends c) c (c.exec o) := by
  refine ⟨h.exec he ?_, exec_ended h he ?_⟩
  · cases o <;> first | trivial | exact absurd hm (by simp [Op.Mild, Op.Calm, Op.Timely])
  · rintro t w ms rfl
    exact absurd hm (by simp [Op.Mild, Op.Calm, Op.Timely])

/-- Sequences keep the invariant. -/
theorem path_mild (h : Sound c) {A : Core → Op → Prop} {ops : List Op}
    (hp : Path Step (fun c o => o.Mild ∧ A c o) c ops c') : Sound c' := by
  induction hp with
  | nil => exact h
  | cons hm hr _ ih =>
    obtain ⟨he, rfl⟩ := hr
    exact ih (hm.1.exec h he).1

/-- Sequences only end waits, those their steps end. -/
theorem path_mild_ended (h : Sound c) {A : Core → Op → Prop} {E : TaskId → Code → Prop} {ops : List Op}
    (hE : ∀ c o, A c o → ∀ t x, o.Ends c t x → E t x)
    (hp : Path Step (fun c o => o.Mild ∧ A c o) c ops c') : Ended E c c' := by
  induction hp with
  | nil => exact .refl _
  | cons hm hr _ ih =>
    obtain ⟨he, rfl⟩ := hr
    obtain ⟨h₁, w₁⟩ := hm.1.exec h he
    exact (w₁.mono (hE _ _ hm.2)).trans (ih h₁)

theorem path_mild_waits (h : Sound c) {A : Core → Op → Prop} {ops : List Op}
    (hp : Path Step (fun c o => o.Mild ∧ A c o) c ops c') : WaitsKept c c' :=
  (path_mild_ended (E := fun _ _ => True) h (fun _ _ _ _ _ _ => trivial) hp).waitsKept

theorem path_mild_running (h : Sound c) (hr : c.running = true) {A : Core → Op → Prop} {ops : List Op}
    (hp : Path Step (fun c o => o.Mild ∧ A c o) c ops c') : c'.running = true := by
  induction hp with
  | nil => exact hr
  | cons hm hstep _ ih =>
    obtain ⟨he, rfl⟩ := hstep
    exact ih (hm.1.exec h he).1 (exec_running h.wf.isFiled hr _ he)

theorem taskWake_wakeTick (hf : Filed c) (t : TaskId) (r : Code) (u : TaskId) :
    ((c.taskWake t r).tasks u).wakeTick = (c.tasks u).wakeTick := by
  have hd := taskDetachWaitLocked_detached hf t r
  unfold taskWake
  split
  · obtain ⟨a, b, e⟩ := schedRequestPreemption_eq
      (((c.taskDetachWaitLocked t r).setTask t fun b => { b with state := .ready }).schedAddTask t)
    dsimp only
    rw [e]
    dsimp only
    rw [schedAddTask_tasks, setTask_apply]
    split
    · rename_i e
      rw [hd.self, e]
    · rename_i hu
      rw [hd.other u hu]
  · rfl

/-- The tick ends waits one after the other. -/
theorem taskTickLoop_path (h : Sound c) (now : Word) (ts : List TaskId) (f : TaskId → Word)
    (hf : ∀ t, (c.tasks t).wakeTick = f t) :
    ∃ ops, Path Step (fun c o => o.Mild ∧ ∃ t ∈ ts.takeWhile fun t => tickReached now (f t),
      o = .timeout t (if (c.tasks t).state = .delayed then Code.ok else Code.timeout)) c ops
      (taskTickLoop now c ts) := by
  induction ts generalizing c with
  | nil => exact ⟨[], .nil c⟩
  | cons t ts ih =>
    rw [taskTickLoop, hf]
    by_cases hr : tickReached now (f t) = true
    · rw [if_pos hr, List.takeWhile_cons_of_pos (p := fun t => tickReached now (f t)) hr]
      obtain ⟨ops, hp⟩ := ih (h.taskWake t (if (c.tasks t).state = .delayed then Code.ok else Code.timeout))
        fun u => by rw [taskWake_wakeTick h.wf.isFiled, hf]
      refine ⟨.timeout t _ :: ops, .cons ⟨.inr trivial, t, List.mem_cons_self .., rfl⟩ ⟨trivial, rfl⟩ ?_⟩
      refine hp.mono fun c o ho => ?_
      obtain ⟨hm, u, hu, e⟩ := ho
      exact ⟨hm, u, List.mem_cons_of_mem t hu, e⟩
    · rw [if_neg hr]
      exact ⟨[], .nil c⟩

theorem timerServiceWake_path (h : Sound c) (pending : Bool) :
    ∃ ops, Path Step (fun c o => o.Mild ∧ c.WakesFrom .service o) c ops (c.timerServiceWake pending) := by
  unfold timerServiceWake
  split
  · rename_i t ts hw
    have hmem : t ∈ c.waitLists .service := hw ▸ List.mem_cons_self ..
    refine ⟨[.wake t Code.ok], .single ⟨.inl trivial, t, hmem, rfl⟩ ⟨?_, rfl⟩⟩
    show (c.tasks t).waitMutex = none
    unfold Tcb.waitMutex
    rw [(h.wf.filed _ t).mp hmem]
  · exact ⟨[], .nil c⟩

theorem tickHandler_path (h : Sound c) (pending : Bool) :
    ∃ ops, Path Step (fun d o => o.Mild ∧ (IsrCall.tick pending).Performs c d o) c ops (c.tickHandler pending) := by
  unfold tickHandler
  dsimp only
  have hw : ∀ t, (c.countTick.tasks t).wakeTick = (c.tasks t).wakeTick := by
    intro t
    unfold countTick
    dsimp only
    split
    · rfl
    · rw [setTask_apply]
      split
      · rename_i e
        rw [e]
      · rfl
  have hl : c.countTick.timeoutList = c.timeoutList := by
    unfold countTick
    dsimp only
    split <;> rfl
  obtain ⟨ops₁, h₁⟩ := taskTickLoop_path h.countTick c.countTick.getTick c.countTick.timeoutList _ hw
  obtain ⟨ops₂, h₂⟩ := timerServiceWake_path (path_mild h.countTick h₁) pending
  have h₁ : Path Step (fun d o => o.Mild ∧ (IsrCall.tick pending).Performs c d o) _ ops₁ _ :=
    h₁.mono fun d o ho => ⟨ho.1, by
      obtain ⟨t, ht, e⟩ := ho.2
      rw [hl] at ht
      exact .inr (.inr (.inr ⟨t, ht, e⟩))⟩
  have h₂ : Path Step (fun d o => o.Mild ∧ (IsrCall.tick pending).Performs c d o) _ ops₂ _ :=
    h₂.mono fun d o ho => ⟨ho.1, .inr (.inr (.inl ho.2))⟩
  have h₀ : Path Step (fun d o => o.Mild ∧ (IsrCall.tick pending).Performs c d o) c [.countTick] c.countTick :=
    .single ⟨.inr trivial, .inl rfl⟩ ⟨trivial, rfl⟩
  set d := ((c.countTick.taskTick c.countTick.getTick).timerServiceWake pending) with hd
  have h₃ : Path Step (fun d o => o.Mild ∧ (IsrCall.tick pending).Performs c d o) d [.sliceExpire] d.sliceExpire :=
    .single ⟨.inr trivial, .inr (.inl rfl)⟩ ⟨trivial, rfl⟩
  exact ⟨_, (h₀.append h₁).append (h₂.append h₃)⟩

end Core

namespace Effect

variable {A : Core → Op → Prop} {c c' : Core} {r : Outcome}

/-- A critical section makes calm steps, or one other. -/
theorem step (h : Effect A c c' r) : (∃ ops, Path Step (fun c o => o.Mild ∧ A c o) c ops c') ∨
    ∃ o, A c o ∧ c.Enabled o ∧ c' = c.exec o := by
  cases h with
  | calm hp => exact .inl ⟨_, hp.mono fun _ _ h => ⟨.inl h.1, h.2⟩⟩
  | block hA hb => exact .inr ⟨_, hA, hb, rfl⟩
  | single hA _ he => exact .inr ⟨_, hA, he, rfl⟩

/-- In an interrupt nothing blocks. -/
theorem calm_of_isr (h : Effect A c c' r) (hi : c.isrNesting ≠ 0) (hA : ∀ o, A c o → ¬ o.Single) :
    ∃ ops, Path Step (fun c o => o.Mild ∧ A c o) c ops c' := by
  cases h with
  | calm hp => exact ⟨_, hp.mono fun _ _ h => ⟨.inl h.1, h.2⟩⟩
  | block _ hb => exact absurd hb.isr hi
  | single h₁ h₂ _ => exact absurd h₂ (hA _ h₁)

end Effect

namespace Kernel

variable {k : Kernel}

/-- What an interrupt does to the core. -/
theorem isrCall_path (hs : Sound k.core) (hi : k.core.isrNesting ≠ 0) (c : IsrCall) :
    ∃ ops, Path Step (fun d o => o.Mild ∧ c.Performs k.core d o) k.core ops (k.isrCall c).core := by
  have hf := hs.wf.isFiled
  have hr : k.core.Runs := fun h => absurd h hi
  have hisr : k.core.inIsr = true := by simp [inIsr, hi]
  cases c with
  | tick pending => exact tickHandler_path hs pending
  | semPost h =>
    unfold isrCall semPostFromIsr
    rw [hisr]
    refine (does_semPostCommon hf h).calm_of_isr hi ?_
    rintro o ⟨i, -, t, -, rfl⟩
    simp [Op.Single]
  | mqSend h message =>
    unfold isrCall mqSendFromIsr
    rw [hisr]
    refine (does_mqSendCommon hr hf h message 0 0 true).calm_of_isr hi ?_
    rintro o ⟨i, -, ⟨t, ms, -, rfl⟩ | ⟨t, -, rfl⟩⟩ <;> simp [Op.Single]
  | pipeWrite h data =>
    unfold isrCall pipeWriteFromIsr
    rw [hisr]
    refine (does_pipeWriteCommon hr hf h data 0 true).calm_of_isr hi ?_
    rintro o ⟨i, -, ⟨t, ms, -, rfl⟩ | ⟨t, -, rfl⟩⟩ <;> simp [Op.Single]
  | notify t value action =>
    unfold isrCall notifyFromIsr
    rw [hisr]
    refine (does_notifyCommon t value action).calm_of_isr hi ?_
    rintro o ⟨-, rfl⟩
    simp [Op.Single]

end Kernel

namespace Sys

variable {s s' : Sys} {a : Act} {t : TaskId}

omit cfg in
theorem runningTask_eq_some (h : s.runningTask = some t) :
    s.core.cur = some t ∧ s.core.running = true ∧ s.core.isrNesting = 0 ∧ (s.core.tasks t).state = .running := by
  unfold runningTask at h
  split at h
  · cases h
  · rename_i u hu
    split at h
    · rename_i hc
      cases h
      exact ⟨hu, hc⟩
    · cases h

omit cfg in
theorem runs_of_runningTask (h : s.runningTask = some t) : s.core.Runs := by
  obtain ⟨hcur, -, -, hs⟩ := runningTask_eq_some h
  intro _ u hu
  rw [hcur] at hu
  cases hu
  exact hs

omit cfg in
theorem finish_core (s : Sys) (t : TaskId) (r : Kernel × Outcome) : (s.finish t r).core = r.1.core := by
  unfold finish
  split <;> rfl

omit cfg in
theorem finish_kernel (s : Sys) (t : TaskId) (r : Kernel × Outcome) : (s.finish t r).kernel = r.1 := by
  unfold finish
  split <;> rfl

/-- What an action has to be for `s'` to follow `s`. -/
theorem step_call (h : s.step (.call c) = some s') :
    (∃ t, s.runningTask = some t ∧ s.frame t = none ∧ s' = s.finish t (s.kernel.call c)) ∨
    s.core.running = false ∧ ∃ k r, s.kernel.call c = (k, .ret r) ∧ s' = { s with kernel := k } := by
  simp only [step] at h
  split at h
  · split at h
    · cases h
    · rename_i t ht
      split at h
      · cases h
      · rename_i hf
        cases h
        exact .inl ⟨t, ht, by simpa using hf, rfl⟩
  · rename_i hrun
    split at h
    · rename_i k r e
      cases h
      exact .inr ⟨by simpa using hrun, k, r, e, rfl⟩
    · cases h

theorem step_call_kernel {c : Call} (h : s.step (.call c) = some s') : (s.kernel.call c).1 = s'.kernel := by
  rcases step_call h with ⟨t, -, -, rfl⟩ | ⟨-, k, r, e, rfl⟩
  · rw [finish_kernel]
  · rw [e]

theorem step_isr_kernel {c : IsrCall} (h : s.step (.isr c) = some s') : s.kernel.isrCall c = s'.kernel := by
  simp only [step] at h
  split at h
  · cases h
    rfl
  · cases h

theorem step_resume (h : s.step .resume = some s') :
    ∃ t f, s.runningTask = some t ∧ s.frame t = some f ∧ s' = s.finish t (s.kernel.resume t f) := by
  simp only [step] at h
  split at h
  · cases h
  · rename_i t ht
    split at h
    · cases h
    · rename_i f hf
      cases h
      exact ⟨t, f, ht, hf, rfl⟩

theorem step_start {memory : Bool} (h : s.step (.start memory) = some s') :
    s.core.running = false ∧ ∃ c, s.core.start memory = some c ∧
      s' = { s with kernel := { s.kernel with core := c } } := by
  simp only [step] at h
  split at h
  · cases h
  · rename_i hr
    rw [Option.map_eq_some_iff] at h
    obtain ⟨c, hc, rfl⟩ := h
    exact ⟨by simpa using hr, c, hc, rfl⟩

theorem runs_of_not_running (hs : Sound s.core) (hr : s.core.running = false) : s.core.Runs := by
  intro _ t ht
  rw [hs.wf.cur.none hr] at ht
  cases ht

/-- **Every action** is a sequence of mild steps, or one other step. -/
theorem step_core (hs : Sound s.core) (h : s.step a = some s') :
    (∃ ops, Path Step (fun c o => o.Mild ∧ a.Performs s c o) s.core ops s'.core) ∨
      ∃ o, a.Performs s s.core o ∧ s.core.Enabled o ∧ s'.core = s.core.exec o := by
  have single : ∀ {o}, o.Mild → a.Performs s s.core o → s.core.Enabled o →
      ∃ ops, Path Step (fun c o => o.Mild ∧ a.Performs s c o) s.core ops (s.core.exec o) :=
    fun hm hp he => ⟨[_], .single ⟨hm, hp⟩ ⟨he, rfl⟩⟩
  cases a with
  | call c =>
    rcases step_call h with ⟨t, ht, -, rfl⟩ | ⟨hr, k, r, e, rfl⟩
    · rw [finish_core]
      exact (Kernel.call_does hs (runs_of_runningTask ht) c).step
    · have hd := (Kernel.call_does hs (runs_of_not_running hs hr) c).step
      rw [e] at hd
      exact hd
  | start memory =>
    obtain ⟨hr, c, hc, rfl⟩ := step_start h
    refine .inr ⟨.start memory, rfl, ⟨hr, by rw [hc]; rfl⟩, ?_⟩
    show c = (s.core.start memory).getD s.core
    rw [hc]
    rfl
  | resume =>
    obtain ⟨t, f, ht, hf, rfl⟩ := step_resume h
    rw [finish_core]
    exact ((Kernel.resume_does hs (runs_of_runningTask ht) t f).mono fun _ _ ho => ⟨t, f, ht, hf, ho⟩).step
  | switch =>
    simp only [step] at h
    split at h
    · rename_i hc
      cases h
      exact .inl (single (o := .switch) (.inr trivial) rfl hc.1)
    · cases h
  | isrEnter =>
    simp only [step] at h
    split at h
    · cases h
      exact .inl (single (o := .isrEnter) (.inr trivial) rfl trivial)
    · cases h
  | isrExit =>
    simp only [step] at h
    split at h
    · cases h
      exact .inl (single (o := .isrExit) (.inr trivial) rfl trivial)
    · cases h
  | isr c =>
    simp only [step] at h
    split at h
    · rename_i hi
      cases h
      exact .inl (Kernel.isrCall_path hs hi c)
    · cases h

/-- Only `aixos_start` starts the scheduler. -/
theorem starts_of_performs {c : Core} {memory : Bool} (h : a.Performs s c (.start memory)) :
    ∃ memory', a = .start memory' := by
  cases a with
  | start memory' => exact ⟨memory', rfl⟩
  | call x => cases x <;> simp [Act.Performs, Call.Performs, BlocksOn, WakesFrom, Names, SemPosts, EventWaits,
      MqSends, MqRecvs, PipeWrites, PipeReads, Notifies, MutexLocks, MutexUnlocks] at h
  | resume =>
    obtain ⟨t, f, -, -, h⟩ := h
    cases hf : f.pending <;> rw [hf] at h <;> simp [Pending.Performs, BlocksOn, WakesFrom, Names, EventWaits,
      MqSends, MqRecvs, PipeWrites, PipeReads] at h
  | isr x => cases x <;> simp [Act.Performs, IsrCall.Performs, BlocksOn, WakesFrom, Names, SemPosts,
      MqSends, PipeWrites, Notifies] at h
  | _ => exact absurd h (by simp [Act.Performs])

/-- When the scheduler is started, no task that it will queue is queued already. -/
def StartsClean (s : Sys) (a : Act) : Prop := ∀ memory, a = .start memory → StartOk s.core

theorem sound_step (hs : Sound s.core) (hc : StartsClean s a) (h : s.step a = some s') : Sound s'.core := by
  rcases step_core hs h with ⟨ops, hp⟩ | ⟨o, ho, he, e⟩
  · exact path_mild hs hp
  · rw [e]
    refine hs.exec he ?_
    cases o with
    | start memory =>
      obtain ⟨memory', rfl⟩ := starts_of_performs ho
      exact hc memory' rfl
    | _ => trivial

/-- **The core is sound in every run** in which the scheduler is started properly. -/
theorem sound_path {s₀ : Sys} {as : List Act} (hp : Path (Next step) StartsClean s₀ as s)
    (h₀ : Sound s₀.core) : Sound s.core :=
  hp.invariant (I := fun s => Sound s.core) (fun _ _ _ hs hc h => sound_step hs hc h) h₀

end Sys

end Aixos
