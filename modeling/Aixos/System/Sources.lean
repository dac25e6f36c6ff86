import Aixos.System.Membership
import Aixos.Core.Tables

/-!
# Where a step comes from

Which actions make which steps of the core: the steps of mutexes, of creation and of deletion
are made by calls, timeouts by ticks, and the current task alone blocks.

* `Foreign c t o` — the step `o` is one that others make while task `t` is inside a call.
* `Sys.others_step` — such are all steps until the task goes on with its call.
-/

namespace Aixos

open Transition Aixos.Core

variable [cfg : Config]

/-- The function has returned `AIXOS_OK`. -/
def Outcome.isOk : Outcome → Bool
  | .ret r => decide (r = .code Code.ok)
  | _ => false

/-- The steps that only calls make. -/
def Core.Op.ByCall : Op → Prop
  | .suspend _ | .resume _ | .setPriority .. | .create _ | .delete _ | .yield | .lock | .unlock => True
  | .alloc .. | .allocMutex _ | .free .. | .acquire .. | .relock .. | .release .. | .destroy _ => True
  | _ => False

namespace Core

variable {c : Core} {o : Op} {t : TaskId}

/-- A task that waits is live. -/
theorem Lists.live_of_wait (h : Lists c) (hw : (c.tasks t).wait ≠ none) : c.Live t := by
  rcases (h.waiting t).mp hw with e | e <;> simp [Live, e]

/-- What is known of the steps others make: they do not block or lock for the task, and their
timeouts are not `AIXOS_OK`. -/
structure Foreign (c : Core) (t : TaskId) (o : Op) : Prop where
  block : ∀ w ms, o ≠ .block t w ms
  acquire : ∀ m, o ≠ .acquire m t
  timeout : ∀ r, o = .timeout t r → (c.tasks t).state ≠ .delayed → r ≠ Code.ok
  start : ∀ memory, o ≠ .start memory

/-- A step of others leaves the wait of a task alone, or ends it as the step says. -/
theorem foreign_wait (hs : Sound c) (he : c.Enabled o) (hf : Foreign c t o) :
    ((c.exec o).tasks t).wait = (c.tasks t).wait ∧ ((c.exec o).tasks t).waitResult = (c.tasks t).waitResult ∨
      ((c.exec o).tasks t).wait = none ∧ o.Ends c t ((c.exec o).tasks t).waitResult := by
  by_cases hb : ∃ u w ms, o = .block u w ms
  · obtain ⟨u, w, ms, rfl⟩ := hb
    have hu : t ≠ u := by
      rintro rfl
      exact hf.block w ms rfl
    obtain ⟨h₁, h₂, -⟩ := (blockTask_waits hs he ms).2.2 t hu
    exact .inl ⟨h₁, h₂⟩
  · have hb : ∀ u w ms, o ≠ .block u w ms := fun u w ms e => hb ⟨u, w, ms, e⟩
    rcases exec_ended hs he hb t with ⟨h₁, h₂, -⟩ | h
    · exact .inl ⟨h₁, h₂⟩
    · exact .inr h

end Core

/-- Blocking fails, or the current task goes on later. -/
theorem Kernel.block_cases (k : Kernel) (w : Wait) (ms : Word) (p : Pending) :
    (∃ e, k.block w ms p = k.code e ∧ e ≠ Code.ok) ∨ ∃ t, k.core.cur = some t ∧ k.core.inIsr = false ∧
      k.block w ms p = ({ k with core := k.core.blockTask t w ms }, .wait { pending := p, timeoutMs := ms }) := by
  unfold Kernel.block taskBlockCurrent
  cases hcur : k.core.cur with
  | none => exact .inl ⟨_, rfl, by decide⟩
  | some t =>
    dsimp only
    by_cases h₁ : k.core.inIsr = true
    · rw [if_pos h₁]
      exact .inl ⟨_, rfl, by decide⟩
    · rw [if_neg h₁]
      by_cases h₂ : k.core.schedIsLocked = true
      · rw [if_pos h₂]
        exact .inl ⟨_, rfl, by decide⟩
      · rw [if_neg h₂]
        exact .inr ⟨t, rfl, Bool.not_eq_true _ ▸ h₁, rfl⟩

namespace Sys

variable {s s' : Sys} {a : Act} {c : Core} {o : Op} {t : TaskId} {m n : ℕ}

theorem call_of_performs (h : a.Performs s c o) (ho : o.ByCall) : ∃ x, a = .call x ∧ x.Performs s.core c o := by
  cases a with
  | call x => exact ⟨x, rfl, h⟩
  | resume =>
    obtain ⟨t, f, -, -, h⟩ := h
    cases hf : f.pending with
    | eventWait =>
      rw [hf] at h
      obtain ⟨i, -, t, ms, -, rfl⟩ := h
      exact absurd ho (by simp [Op.ByCall])
    | mqSend | mqRecv | pipeWrite | pipeRead =>
      rw [hf] at h
      obtain ⟨i, -, ⟨t, ms, -, rfl⟩ | ⟨t, -, rfl⟩⟩ := h
      · exact absurd ho (by simp [Op.ByCall])
      · exact absurd ho (by simp [Op.ByCall])
    | _ =>
      rw [hf] at h
      exact h.elim
  | isr x =>
    cases x with
    | tick pending =>
      obtain rfl | rfl | ⟨t, -, rfl⟩ | ⟨t, -, rfl⟩ := h
      · exact absurd ho (by simp [Op.ByCall])
      · exact absurd ho (by simp [Op.ByCall])
      · exact absurd ho (by simp [Op.ByCall])
      · exact absurd ho (by simp [Op.ByCall])
    | semPost =>
      obtain ⟨i, -, t, -, rfl⟩ := h
      exact absurd ho (by simp [Op.ByCall])
    | mqSend | pipeWrite =>
      obtain ⟨i, -, ⟨t, ms, -, rfl⟩ | ⟨t, -, rfl⟩⟩ := h
      · exact absurd ho (by simp [Op.ByCall])
      · exact absurd ho (by simp [Op.ByCall])
    | notify =>
      obtain ⟨-, rfl⟩ := h
      exact absurd ho (by simp [Op.ByCall])
  | _ =>
    cases h
    exact absurd ho (by simp [Op.ByCall])

/-- A free mutex is locked by the current task. -/
theorem performs_acquire (h : a.Performs s c (.acquire m t)) :
    ∃ x ms, a = .call (.mutexLock x ms) ∧ s.core.objFromHandle .mutex x = some m ∧ c.cur = some t := by
  obtain ⟨x, rfl, hx⟩ := call_of_performs h trivial
  cases x with
  | mutexLock x ms =>
    obtain ⟨m', hm, ⟨t', ms', -, e⟩ | ⟨t', ht, e⟩ | ⟨n, -, e⟩⟩ := hx
    · cases e
    · cases e
      exact ⟨x, ms, rfl, hm, ht⟩
    · cases e
  | _ => simp [Call.Performs, BlocksOn, WakesFrom, Names, SemPosts, EventWaits, MqSends, MqRecvs, PipeWrites,
      PipeReads, Notifies, MutexUnlocks] at hx

/-- A mutex is given up by the last unlock of the current task. -/
theorem performs_release (h : a.Performs s c (.release m t)) :
    ∃ x, a = .call (.mutexUnlock x) ∧ s.core.objFromHandle .mutex x = some m ∧ c.cur = some t ∧
      (s.core.mutexes m).lockCount - 1 = 0 := by
  obtain ⟨x, rfl, hx⟩ := call_of_performs h trivial
  cases x with
  | mutexUnlock x =>
    obtain ⟨m', hm, ⟨t', ht, hn, e⟩ | ⟨n, -, e⟩⟩ := hx
    · cases e
      exact ⟨x, rfl, hm, ht, hn⟩
    · cases e
  | _ => simp [Call.Performs, BlocksOn, WakesFrom, Names, SemPosts, EventWaits, MqSends, MqRecvs, PipeWrites,
      PipeReads, Notifies, MutexLocks] at hx

/-- A lock count is set by a lock or an unlock call, and never to 0. -/
theorem performs_relock (h : a.Performs s c (.relock m n)) : 0 < n ∧
    ∃ x, s.core.objFromHandle .mutex x = some m ∧ ((∃ ms, a = .call (.mutexLock x ms)) ∨ a = .call (.mutexUnlock x)) := by
  obtain ⟨x, rfl, hx⟩ := call_of_performs h trivial
  cases x with
  | mutexLock x ms =>
    obtain ⟨m', hm, ⟨t', ms', -, e⟩ | ⟨t', -, e⟩ | ⟨n', hn, e⟩⟩ := hx
    · cases e
    · cases e
    · cases e
      exact ⟨hn, x, hm, .inl ⟨ms, rfl⟩⟩
  | mutexUnlock x =>
    obtain ⟨m', hm, ⟨t', -, -, e⟩ | ⟨n', hn, e⟩⟩ := hx
    · cases e
    · cases e
      exact ⟨hn, x, hm, .inr rfl⟩
  | _ => simp [Call.Performs, BlocksOn, WakesFrom, Names, SemPosts, EventWaits, MqSends, MqRecvs, PipeWrites,
      PipeReads, Notifies] at hx

theorem performs_destroy (h : a.Performs s c (.destroy m)) :
    ∃ x, a = .call (.mutexDelete x) ∧ s.core.objFromHandle .mutex x = some m := by
  obtain ⟨x, rfl, hx⟩ := call_of_performs h trivial
  cases x with
  | mutexDelete x =>
    obtain ⟨m', hm, e⟩ := hx
    cases e
    exact ⟨x, rfl, hm⟩
  | _ => simp [Call.Performs, BlocksOn, WakesFrom, Names, SemPosts, EventWaits, MqSends, MqRecvs, PipeWrites,
      PipeReads, Notifies, MutexLocks, MutexUnlocks] at hx

/-- A timeout ends a wait with `AIXOS_ERR_TIMEOUT`, a sleep with `AIXOS_OK`. -/
theorem performs_timeout {r : Code} (h : a.Performs s c (.timeout t r)) :
    r = if (c.tasks t).state = .delayed then Code.ok else Code.timeout := by
  cases a with
  | isr x =>
    cases x with
    | tick pending =>
      obtain e | e | ⟨t', -, e⟩ | ⟨t', -, e⟩ := h
      · cases e
      · cases e
      · cases e
      · cases e
        rfl
    | _ => simp [Act.Performs, IsrCall.Performs, WakesFrom, BlocksOn, Names, SemPosts, MqSends, PipeWrites, Notifies] at h
  | call x => cases x <;> simp [Act.Performs, Call.Performs, BlocksOn, WakesFrom, Names, SemPosts, EventWaits,
      MqSends, MqRecvs, PipeWrites, PipeReads, Notifies, MutexLocks, MutexUnlocks] at h
  | resume =>
    obtain ⟨t, f, -, -, h⟩ := h
    cases hf : f.pending <;> rw [hf] at h <;> simp [Pending.Performs, BlocksOn, WakesFrom, Names, EventWaits,
      MqSends, MqRecvs, PipeWrites, PipeReads] at h
  | _ => cases h

/-- Only the running task blocks. -/
theorem runningTask_of_block {w : Wait} {ms : Word} (hs : Sound s.core) (h : s.core.Enabled (.block t w ms)) :
    s.runningTask = some t := by
  have hb : s.core.MayBlock t w := h
  have hr : s.core.running = true := by
    by_contra hf
    have := hs.wf.cur.none (Bool.not_eq_true _ ▸ hf)
    rw [hb.cur] at this
    cases this
  unfold runningTask
  rw [hb.cur]
  exact if_pos ⟨hr, hb.isr, hb.state⟩

/-- A call neither switches nor starts. -/
theorem call_performs_ne {x : Call} (h : x.Performs s.core c o) : o ≠ .switch ∧ ∀ memory, o ≠ .start memory := by
  constructor
  · rintro rfl
    cases x <;> simp [Call.Performs, BlocksOn, WakesFrom, Names, SemPosts, EventWaits,
      MqSends, MqRecvs, PipeWrites, PipeReads, Notifies, MutexLocks, MutexUnlocks] at h
  · rintro memory rfl
    have ha : Act.Performs s (.call x) c (.start memory) := h
    obtain ⟨memory', e⟩ := starts_of_performs ha
    cases e

/-- What blocks is a call, what is left of one, or would be an interrupt. -/
theorem performs_block {w : Wait} {ms : Word} (h : a.Performs s c (.block t w ms)) :
    (∃ x, a = .call x) ∨ a = .resume ∨ ∃ x, a = .isr x := by
  cases a with
  | call x => exact .inl ⟨x, rfl⟩
  | resume => exact .inr (.inl rfl)
  | isr x => exact .inr (.inr ⟨x, rfl⟩)
  | _ => cases h

/-! ### What others do while a task is inside a call -/

/-- The task does not go on with its call. -/
def Paused (t : TaskId) (s : Sys) (a : Act) : Prop := ¬ (a = .resume ∧ s.runningTask = some t)

/-- Task `t` is inside a call, in the frame `f`. -/
structure InCall (s : Sys) (t : TaskId) (f : Frame) : Prop where
  sound : Sound s.core
  running : s.core.running = true
  frame : s.frame t = some f
  lt : t < s.core.nextTask

variable {f : Frame}

/-- Who is inside a call does not make another. -/
theorem InCall.ne_of_call (hi : InCall s t f) {x : Call} (h : s.step (.call x) = some s') :
    ∃ u, u ≠ t ∧ s.runningTask = some u ∧ s' = s.finish u (s.kernel.call x) := by
  rcases step_call h with ⟨u, hu, hf, e⟩ | ⟨hf, -⟩
  · refine ⟨u, ?_, hu, e⟩
    rintro rfl
    rw [hi.frame] at hf
    cases hf
  · rw [hi.running] at hf
    cases hf

omit cfg in
theorem finish_ret (s : Sys) (t : TaskId) {r : Kernel × Outcome} {v : Ret} (h : r.2 = .ret v) :
    (s.finish t r).frame t = none ∧ (s.finish t r).ret t = some v := by
  unfold finish
  rw [h]
  exact ⟨Function.update_self .., Function.update_self ..⟩

omit cfg in
theorem finish_wait (s : Sys) (t : TaskId) {r : Kernel × Outcome} {g : Frame} (h : r.2 = .wait g) :
    (s.finish t r).frame t = some g := by
  unfold finish
  rw [h]
  exact Function.update_self ..

theorem frame_kept (hi : InCall s t f) (hp : Paused t s a) (h : s.step a = some s') : s'.frame t = some f := by
  rw [← hi.frame]
  cases a with
  | call x =>
    obtain ⟨u, hu, -, rfl⟩ := hi.ne_of_call h
    exact finish_frame_ne s (Ne.symm hu) _
  | resume =>
    obtain ⟨u, g, hu, -, rfl⟩ := step_resume h
    refine finish_frame_ne s ?_ _
    rintro rfl
    exact hp ⟨rfl, hu⟩
  | start memory =>
    obtain ⟨-, c, -, rfl⟩ := step_start h
    rfl
  | switch | isrEnter | isrExit | isr =>
    simp only [step] at h
    split at h
    · cases h
      rfl
    · cases h

theorem foreign_of_performs (hi : InCall s t f) (hp : Paused t s a) (h : s.step a = some s')
    (hc : ∀ x, a = .call x → c.cur = s.core.cur) (hb : o.Mild ∨ c = s.core) (he : c.Enabled o)
    (ho : a.Performs s c o) : Foreign c t o where
  block w ms e := by
    subst e
    rcases hb with hb | rfl
    · exact absurd hb (by simp [Op.Mild, Op.Calm, Op.Timely])
    · have hrun := runningTask_of_block hi.sound he
      obtain ⟨x, rfl⟩ | rfl | ⟨x, rfl⟩ := performs_block ho
      · obtain ⟨u, hu, hu', -⟩ := hi.ne_of_call h
        rw [hrun] at hu'
        exact hu (Option.some.inj hu').symm
      · exact hp ⟨rfl, hrun⟩
      · simp only [step] at h
        split at h
        · rename_i hisr
          exact hisr (show s.core.MayBlock t w from he).isr
        · cases h
  acquire m e := by
    subst e
    obtain ⟨x, ms, rfl, -, hcur⟩ := performs_acquire ho
    obtain ⟨u, hu, hu', -⟩ := hi.ne_of_call h
    rw [hc _ rfl, (runningTask_eq_some hu').1] at hcur
    exact hu (Option.some.inj hcur)
  timeout r e hd := by
    subst e
    rw [performs_timeout ho, if_neg hd]
    decide
  start memory e := by
    subst e
    obtain ⟨memory', rfl⟩ := starts_of_performs ho
    have := (step_start h).1
    rw [hi.running] at this
    cases this

/-- **An action while a task is inside a call**: its steps are those of others. -/
theorem others_step (hi : InCall s t f) (hp : Paused t s a) (h : s.step a = some s') :
    (∃ ops, Path Step (fun c o => Sound c ∧ t < c.nextTask ∧ o.Mild ∧ Foreign c t o ∧ a.Performs s c o)
      s.core ops s'.core) ∨
    ∃ o, a.Performs s s.core o ∧ s.core.Enabled o ∧ Foreign s.core t o ∧ s'.core = s.core.exec o := by
  rcases step_core hi.sound h with ⟨ops, hpath⟩ | ⟨o, ho, he, e⟩
  · refine .inl ⟨ops, ?_⟩
    -- along the path the core stays sound, and a call is made by one task
    have hI := hpath.withInvariant (I := fun c => Sound c ∧ t < c.nextTask ∧ ∀ x, a = .call x → c.cur = s.core.cur)
      ?_ ⟨hi.sound, hi.lt, fun _ _ => rfl⟩
    · refine (hI.guarded).mono ?_
      rintro c o ⟨⟨⟨hs, hlt, hc⟩, hm, ho⟩, c', he, -⟩
      exact ⟨hs, hlt, hm, foreign_of_performs hi hp h hc (.inl hm) he ho, ho⟩
    · rintro c o c' ⟨hs, hlt, hc⟩ ⟨hm, ho⟩ ⟨he, rfl⟩
      have hst : ∀ memory, o ≠ .start memory := by
        rintro memory rfl
        exact absurd hm (by simp [Op.Mild, Op.Calm, Op.Timely])
      refine ⟨(hm.exec hs he).1, hlt.trans_le (exec_nextTask hs.wf.isFiled hst), ?_⟩
      rintro x rfl
      obtain ⟨h₁, h₂⟩ := call_performs_ne (s := s) ho
      rw [exec_cur hs.wf.isFiled h₁ h₂]
      exact hc x rfl
  · exact .inr ⟨o, ho, he, foreign_of_performs hi hp h (fun _ _ => rfl) (.inr rfl) he ho, e⟩

theorem inCall_step (hi : InCall s t f) (hp : Paused t s a) (h : s.step a = some s') : InCall s' t f where
  sound := by
    refine sound_step hi.sound ?_ h
    rintro memory rfl
    have := (step_start h).1
    rw [hi.running] at this
    cases this
  running := running_step hi.sound hi.running h
  frame := frame_kept hi hp h
  lt := by
    rcases others_step hi hp h with ⟨ops, hpath⟩ | ⟨o, -, he, hf, e⟩
    · refine hpath.invariant (I := fun c => t < c.nextTask) ?_ hi.lt
      rintro c o c' hlt ⟨hs, -, -, hf, -⟩ ⟨-, rfl⟩
      exact hlt.trans_le (exec_nextTask hs.wf.isFiled hf.start)
    · rw [e]
      exact hi.lt.trans_le (exec_nextTask hi.sound.wf.isFiled hf.start)

/-- A call that returns at once or blocks, and has not returned, blocks. -/
theorem inCall_of_call (hs : Sound s.core) {x : Call} {w : Wait} {ms : Word} (ht : s.runningTask = some t)
    (h : s.step (.call x) = some s') (hf : s'.frame t ≠ none) (hx : (∃ v, (s.kernel.call x).2 = .ret v) ∨
      s.kernel.call x = ({ s.kernel with core := s.kernel.core.blockTask t w ms }, .wait f)) :
    InCall s' t f ∧ (s'.core.tasks t).wait = some w := by
  have hrun := (runningTask_eq_some ht).2.1
  have hs' : Sound s'.core := by
    refine sound_step hs ?_ h
    rintro memory e
    cases e
  obtain ⟨hfr, hw⟩ : s'.frame t = some f ∧ (s'.core.tasks t).wait = some w := by
    rcases step_call h with ⟨u, hu, -, e⟩ | ⟨hr, -⟩
    · obtain rfl : t = u := Option.some.inj (ht.symm.trans hu)
      -- what the kernel made of the call stays a variable: only its outcome matters
      obtain ⟨r, hr⟩ : ∃ r, s.kernel.call x = r := ⟨_, rfl⟩
      rw [hr] at hx e
      rw [e] at hf ⊢
      rcases hx with ⟨v, hv⟩ | rfl
      · exact absurd (finish_ret s t hv).1 hf
      · rw [finish_core]
        exact ⟨finish_wait s t rfl, (blockTask_self s.kernel.core t w ms).1⟩
    · rw [hrun] at hr
      cases hr
  have hlt : t < s'.core.nextTask := hs'.wf.fresh t (hs'.wf.live_of_wait (by rw [hw]; exact Option.some_ne_none _))
  exact ⟨⟨hs', running_step hs hrun h, hfr, hlt⟩, hw⟩

end Sys

end Aixos
