import Aixos.Core.Deadlines
import Aixos.System.Membership

/-!
# What actions do to timeouts

* `Kernel.NoZero` — whoever blocks does so for at least a millisecond.
* `Sys.step_times` — every action but the tick ends waits only, or blocks one task for the time its call was given.
* `Sys.tick_times` — the tick counts, and ends waits only.
-/

namespace Aixos

open Transition Aixos.Core

variable [cfg : Config]

/-! ### Nobody blocks with a timeout of zero -/

namespace Kernel

variable {k : Kernel} {h : Handle} {i : ℕ} {ms remaining : Word}

/-- A call that is to go on later has blocked with a timeout that is not zero, or has not used the core. -/
def NoZero (k : Kernel) (r : Kernel × Outcome) : Prop :=
  ∀ f, r.2 = .wait f → f.timeoutMs ≠ 0 ∨ r.1.core = k.core

omit cfg in
theorem noZero_ret {k' : Kernel} {r : Ret} : k.NoZero (k', .ret r) := fun _ h => nomatch h

omit cfg in
theorem noZero_code {k' : Kernel} {r : Code} : k.NoZero (k'.code r) := fun _ h => nomatch h

theorem noZero_block {k' : Kernel} (hms : ms ≠ 0) (w : Wait) (p : Pending) : k.NoZero (k'.block w ms p) := by
  intro f hf
  unfold block at hf
  split at hf
  · cases hf
  · cases hf
    exact .inl hms

theorem noZero_createObject {kind : ObjKind} {fill : Kernel → ℕ → Kernel} : k.NoZero (k.createObject kind fill) := by
  unfold createObject
  split
  · exact noZero_ret
  · exact noZero_ret

theorem noZero_deleteObject {kind : ObjKind} : k.NoZero (k.deleteObject kind h) := by
  unfold deleteObject
  split
  · exact noZero_code
  · split
    · exact noZero_code
    · split <;> exact noZero_code

theorem noZero_eventWaitLoop {h : Handle} {mask : Word} {mode : BitVec 8} {start ms remaining : Word} :
    k.NoZero (k.eventWaitLoop h mask mode start ms remaining) := by
  unfold eventWaitLoop
  split
  · exact noZero_code
  · dsimp only
    split
    · exact noZero_ret
    · split
      · exact noZero_code
      · rename_i hr
        split
        · exact fun _ h => nomatch h
        · exact noZero_block hr _ _

theorem noZero_mqSendLoop {i : ℕ} {h : Handle} {message : List UInt8} {priority : ℕ} {start ms remaining : Word}
    {isr : Bool} : k.NoZero (k.mqSendLoop i h message priority start ms remaining isr) := by
  unfold mqSendLoop
  split
  · split
    · exact noZero_code
    · rename_i hr
      exact noZero_block (fun e => hr (.inr e)) _ _
  · split <;> exact noZero_code

theorem noZero_mqRecvLoop {i : ℕ} {h : Handle} {capacity : ℕ} {start ms remaining : Word} :
    k.NoZero (k.mqRecvLoop i h capacity start ms remaining) := by
  unfold mqRecvLoop
  dsimp only
  split
  · split
    · exact noZero_code
    · rename_i hr
      exact noZero_block hr _ _
  · split <;> exact noZero_ret

theorem noZero_pipeWriteLoop {i : ℕ} {h : Handle} {data : List UInt8} {start ms remaining : Word} {isr : Bool} :
    k.NoZero (k.pipeWriteLoop i h data start ms remaining isr) := by
  unfold pipeWriteLoop
  split
  · split
    · exact noZero_code
    · rename_i hr
      exact noZero_block (fun e => hr (.inr e)) _ _
  · exact noZero_code

theorem noZero_pipeReadLoop {i : ℕ} {h : Handle} {length : ℕ} {start ms remaining : Word} :
    k.NoZero (k.pipeReadLoop i h length start ms remaining) := by
  unfold pipeReadLoop
  split
  · split
    · exact noZero_code
    · rename_i hr
      exact noZero_block hr _ _
  · exact noZero_ret

omit cfg in
theorem noZero_notifyFinish {k' : Kernel} (e : k'.core = k.core) (self : TaskId) (exit : Word) (take : Option Bool) :
    k.NoZero (k'.notifyFinish self exit take) := fun _ _ => .inr e

/-- **Whoever blocks has a timeout**, of at least one tick. -/
theorem noZero_call (k : Kernel) (x : Call) : k.NoZero (k.call x) := by
  cases x with
  | taskCreate a =>
    simp only [call, taskCreate]
    exact noZero_ret
  | taskDelete t =>
    simp only [call, taskDelete]
    split
    · exact noZero_code
    · exact fun _ h => nomatch h
    · exact noZero_code
  | taskSleep ms =>
    simp only [call, taskSleep, taskYield]
    split
    · exact noZero_code
    · split
      · exact noZero_code
      · rename_i hms
        exact noZero_block hms _ _
  | taskYield =>
    simp only [call, taskYield]
    split <;> exact noZero_code
  | taskSuspend | taskResume | taskSetPriority | schedLock | schedUnlock => exact noZero_ret
  | semCreate n =>
    simp only [call, semCreate]
    split
    · exact noZero_ret
    · exact noZero_createObject
  | semWait h ms =>
    simp only [call, semWait]
    split
    · exact noZero_code
    · split
      · exact noZero_code
      · split
        · exact noZero_code
        · split
          · exact noZero_code
          · rename_i hms
            exact noZero_block hms _ _
  | semPost h =>
    simp only [call, semPost, semPostCommon]
    split
    · exact noZero_code
    · split
      · exact noZero_code
      · split
        · exact noZero_code
        · split <;> exact noZero_code
  | semDelete | eventDelete | mqDelete | pipeDelete => exact noZero_deleteObject
  | mutexCreate =>
    simp only [call, mutexCreate]
    split
    · exact noZero_ret
    · exact noZero_createObject
  | mutexLock h ms =>
    simp only [call, mutexLock]
    split
    · exact noZero_code
    · split
      · exact noZero_code
      · split
        · exact noZero_code
        · split
          · exact noZero_code
          · split
            · split <;> exact noZero_code
            · split
              · exact noZero_code
              · rename_i hms
                exact noZero_block hms _ _
  | mutexUnlock h =>
    simp only [call, mutexUnlock]
    split
    · exact noZero_code
    · split
      · exact noZero_code
      · split
        · exact noZero_code
        · split
          · exact noZero_code
          · split <;> exact noZero_code
  | mutexDelete h =>
    simp only [call, mutexDelete]
    split
    · exact noZero_code
    · split
      · exact noZero_code
      · split <;> exact noZero_code
  | eventCreate =>
    simp only [call, eventCreate]
    split
    · exact noZero_ret
    · exact noZero_createObject
  | eventWait h mask mode ms =>
    simp only [call, eventWait]
    split
    · exact noZero_code
    · split
      · exact noZero_code
      · exact noZero_eventWaitLoop
  | eventSet h flags =>
    simp only [call, eventSet]
    split
    · exact noZero_code
    · split <;> exact noZero_code
  | eventClear h flags =>
    simp only [call, eventClear]
    split
    · exact noZero_code
    · split <;> exact noZero_code
  | mqCreate n size st mem =>
    simp only [call, mqCreate]
    split
    · exact noZero_ret
    · exact noZero_createObject
  | mqSend h message priority ms =>
    simp only [call, mqSend, mqSendCommon]
    split
    · exact noZero_code
    · split
      · exact noZero_code
      · split
        · exact noZero_code
        · split
          · exact noZero_code
          · split
            · exact noZero_code
            · split
              · exact noZero_code
              · exact noZero_mqSendLoop
  | mqRecv h capacity ms =>
    simp only [call, mqRecv]
    split
    · exact noZero_code
    · split
      · exact noZero_code
      · exact noZero_mqRecvLoop
  | pipeCreate size mem =>
    simp only [call, pipeCreate]
    split
    · exact noZero_ret
    · exact noZero_createObject
  | pipeWrite h data ms =>
    simp only [call, pipeWrite, pipeWriteCommon]
    split
    · exact noZero_code
    · split
      · exact noZero_code
      · split
        · exact noZero_code
        · split
          · exact noZero_code
          · split
            · exact noZero_code
            · split
              · exact noZero_code
              · exact noZero_pipeWriteLoop
  | pipeRead h length ms =>
    simp only [call, pipeRead]
    split
    · exact noZero_code
    · split
      · exact noZero_code
      · split
        · exact noZero_code
        · exact noZero_pipeReadLoop
  | notify t value action =>
    simp only [call, notify, notifyCommon]
    split
    · exact noZero_code
    · split
      · exact noZero_code
      · split
        · exact noZero_code
        · split <;> exact noZero_code
  | notifyWait | notifyTake =>
    simp only [call, notifyWait]
    split
    · exact noZero_code
    · split
      · exact noZero_code
      · split
        · exact noZero_notifyFinish (by rfl) _ _ _
        · split
          · exact noZero_code
          · rename_i hms
            exact noZero_block hms _ _
  | timerServiceWait => exact noZero_block (by decide) _ _

theorem noZero_resume (k : Kernel) (self : TaskId) (f : Frame) : k.NoZero (k.resume self f) := by
  unfold resume
  dsimp only
  split
  · exact noZero_code
  · split
    · exact noZero_code
    · exact noZero_eventWaitLoop
  · split
    · exact noZero_code
    · split
      · exact noZero_code
      · exact noZero_mqSendLoop
  · split
    · exact noZero_code
    · split
      · exact noZero_code
      · exact noZero_mqRecvLoop
  · split
    · exact noZero_code
    · split
      · exact noZero_code
      · exact noZero_pipeWriteLoop
  · split
    · exact noZero_code
    · split
      · exact noZero_code
      · exact noZero_pipeReadLoop
  · split
    · exact noZero_code
    · exact noZero_notifyFinish rfl _ _ _
  · exact noZero_ret
  · exact fun _ h => nomatch h

end Kernel

namespace Core

variable {c c' : Core} {o : Op}

omit cfg in
theorem Op.not_mild_block {t : TaskId} {w : Wait} {ms : Word} : ¬ (Op.block t w ms).Mild := by
  simp [Op.Mild, Op.Calm, Op.Timely]

theorem path_mild_times (h : Sound c) {A : Core → Op → Prop} {ops : List Op} (hA : ∀ c, ¬ A c .countTick)
    (hp : Path Step (fun c o => o.Mild ∧ A c o) c ops c') : TimesKept c c' := by
  induction hp with
  | nil => exact .refl _
  | @cons c d c' o ops hm hr _ ih =>
    obtain ⟨he, rfl⟩ := hr
    refine .trans (exec_times h.wf.isFiled he ?_ ?_) (ih (hm.1.exec h he).1)
    · rintro t w ms rfl
      exact Op.not_mild_block hm.1
    · rintro rfl
      exact hA c hm.2

end Core

namespace Sys

variable {s s' : Sys} {a : Act} {t : TaskId}

/-- Only the tick counts ticks. -/
theorem counts_of_performs {c : Core} (h : a.Performs s c .countTick) : ∃ pending, a = .isr (.tick pending) := by
  cases a with
  | call x => cases x <;> simp [Act.Performs, Call.Performs, BlocksOn, WakesFrom, Names, SemPosts, EventWaits,
      MqSends, MqRecvs, PipeWrites, PipeReads, Notifies, MutexLocks, MutexUnlocks] at h
  | resume =>
    obtain ⟨t, f, -, -, h⟩ := h
    cases hf : f.pending <;> rw [hf] at h <;> simp [Pending.Performs, BlocksOn, WakesFrom, Names, EventWaits,
      MqSends, MqRecvs, PipeWrites, PipeReads] at h
  | isr x =>
    cases x with
    | tick pending => exact ⟨pending, rfl⟩
    | _ => simp [Act.Performs, IsrCall.Performs, BlocksOn, WakesFrom, Names, SemPosts, MqSends, PipeWrites,
        Notifies] at h
  | _ => exact absurd h (by simp [Act.Performs])

/-- A task has blocked, for the time its call was given. -/
def BlocksFor (s s' : Sys) : Prop := ∃ t w f, s.core.MayBlock t w ∧ s'.core = s.core.blockTask t w f.timeoutMs ∧
  s'.frame t = some f ∧ f.timeoutMs ≠ 0

/-- A critical section of the running task. -/
theorem finish_times {A : Core → Op → Prop} (hs : Sound s.core) (ht : s.runningTask = some t) {r : Kernel × Outcome}
    (he : Effect A s.core r.1.core r.2) (hA : ∀ c, ¬ A c .countTick) (hz : s.kernel.NoZero r) :
    TimesKept s.core (s.finish t r).core ∧ WaitsKept s.core (s.finish t r).core ∨ BlocksFor s (s.finish t r) := by
  obtain ⟨hcur, -, -, hrun⟩ := runningTask_eq_some ht
  rw [finish_core]
  rcases r with ⟨k, o⟩
  dsimp only at he
  generalize hk : k.core = c at he
  cases he with
  | calm hp =>
    have hp := hp.mono fun _ _ h => And.intro (Or.inl h.1 : Op.Mild _) h.2
    exact .inl ⟨path_mild_times hs hA hp, path_mild_waits hs hp⟩
  | @block t' w ms p _ hb =>
    obtain rfl : t = t' := Option.some.inj (hcur.symm.trans hb.cur)
    refine .inr ⟨t, w, { pending := p, timeoutMs := ms }, hb, ?_, ?_, ?_⟩
    · rw [finish_core]
      exact hk
    · simp [Sys.finish]
    · refine (hz { pending := p, timeoutMs := ms } rfl).resolve_right fun e => ?_
      have hw : (s.core.tasks t).wait = none := hs.wf.wait_eq_none_of_isReady (.inr hrun)
      have h₁ := (blockTask_self s.core t w ms).1
      rw [← hk, e, hw] at h₁
      cases h₁
  | @single op _ hop ho he =>
    have hnb : ∀ t w ms, op ≠ .block t w ms := by
      rintro t w ms rfl
      exact absurd ho (by simp [Op.Single])
    have hnc : op ≠ .countTick := by
      rintro rfl
      exact hA _ hop
    exact .inl ⟨exec_times hs.wf.isFiled he hnb hnc, exec_waits hs he hnb⟩

/-- **Every action but the tick** ends waits only, or blocks one task. -/
theorem step_times (hs : Sound s.core) (ha : ∀ pending, a ≠ .isr (.tick pending)) (h : s.step a = some s') :
    TimesKept s.core s'.core ∧ WaitsKept s.core s'.core ∨ BlocksFor s s' := by
  have hcount : ∀ c, ¬ a.Performs s c .countTick := by
    intro c hc
    obtain ⟨pending, rfl⟩ := counts_of_performs hc
    exact ha pending rfl
  -- where nobody can block
  have other : (∀ t w, ¬ s.core.MayBlock t w) → TimesKept s.core s'.core ∧ WaitsKept s.core s'.core := by
    intro hb
    rcases step_core hs h with ⟨ops, hp⟩ | ⟨o, ho, he, e⟩
    · exact ⟨path_mild_times hs hcount hp, path_mild_waits hs hp⟩
    · have hnb : ∀ t w ms, o ≠ .block t w ms := by
        rintro t w ms rfl
        exact hb t w he
      rw [e]
      refine ⟨exec_times hs.wf.isFiled he hnb ?_, exec_waits hs he hnb⟩
      rintro rfl
      exact hcount _ ho
  have single : ∀ o, s.core.Enabled o → (∀ t w ms, o ≠ .block t w ms) → o ≠ .countTick → s'.core = s.core.exec o →
      TimesKept s.core s'.core ∧ WaitsKept s.core s'.core := by
    intro o he hb hc e
    rw [e]
    exact ⟨exec_times hs.wf.isFiled he hb hc, exec_waits hs he hb⟩
  cases a with
  | call x =>
    rcases step_call h with ⟨t, ht, -, rfl⟩ | ⟨hr, k, r, e, rfl⟩
    · exact finish_times hs ht (Kernel.call_does hs (runs_of_runningTask ht) x) hcount (s.kernel.noZero_call x)
    · refine .inl (other fun t w hb => ?_)
      have hcur := hb.cur
      rw [hs.wf.cur.none hr] at hcur
      cases hcur
  | start memory =>
    obtain ⟨hr, c, hc, rfl⟩ := step_start h
    refine .inl (single (.start memory) ⟨hr, by rw [hc]; rfl⟩ (by simp) (by simp) ?_)
    show c = (s.core.start memory).getD s.core
    rw [hc]
    rfl
  | resume =>
    obtain ⟨t, f, ht, hf, rfl⟩ := step_resume h
    exact finish_times hs ht (Kernel.resume_does hs (runs_of_runningTask ht) t f)
      (fun c hc => hcount c ⟨t, f, ht, hf, hc⟩) (s.kernel.noZero_resume t f)
  | switch =>
    simp only [step] at h
    split at h
    · rename_i hc
      cases h
      exact .inl (single .switch hc.1 (by simp) (by simp) rfl)
    · cases h
  | isrEnter =>
    simp only [step] at h
    split at h
    · cases h
      exact .inl (single .isrEnter trivial (by simp) (by simp) rfl)
    · cases h
  | isrExit =>
    simp only [step] at h
    split at h
    · cases h
      exact .inl (single .isrExit trivial (by simp) (by simp) rfl)
    · cases h
  | isr x =>
    refine .inl (other fun t w hb => ?_)
    simp only [step] at h
    split at h
    · rename_i hi
      exact hi hb.isr
    · cases h

/-- **The tick** counts, and ends waits only. -/
theorem tick_times (hs : Sound s.core) {pending : Bool} (h : s.step (.isr (.tick pending)) = some s') :
    s'.core = s.core.tickHandler pending ∧ WaitsKept s.core s'.core ∧ TimesKept s.core.countTick s'.core := by
  simp only [step] at h
  split at h
  · cases h
    obtain ⟨ops, hp⟩ := tickHandler_path hs pending
    refine ⟨rfl, path_mild_waits hs hp, ?_⟩
    have h₁ := hs.countTick
    obtain ⟨ops₁, hp₁⟩ := taskTickLoop_path h₁ s.core.countTick.getTick s.core.countTick.timeoutList _ fun _ => rfl
    have h₂ := path_mild h₁ hp₁
    obtain ⟨ops₂, hp₂⟩ := timerServiceWake_path h₂ pending
    have ht₁ := path_mild_times h₁ (by simp) hp₁
    have ht₂ := path_mild_times h₂ (by simp [WakesFrom]) hp₂
    exact (ht₁.trans ht₂).trans (sliceExpire_times _)
  · cases h

end Sys

end Aixos
