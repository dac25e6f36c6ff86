import Aixos.Core.Preserve
import Aixos.Kernel.System

/-!
# Domains

A task stays in its domain for its life. Neither a wait nor an interrupt changes the domain of any
task.

* `SameDomains c c'` — from `c` to `c'` no task has changed its domain.
* `Kernel.isrCall_domains`, `Kernel.block_domains`, `Kernel.wakeFirst_domains` — what happens in a trap.
-/

namespace Aixos

namespace Core

variable [cfg : Config]

variable {c c' c'' : Core}

/-- No task has changed its domain. -/
def SameDomains (c c' : Core) : Prop := ∀ t, (c'.tasks t).user = (c.tasks t).user

namespace SameDomains

omit cfg in
theorem refl (c : Core) : SameDomains c c := fun _ => rfl

omit cfg in
theorem trans (h : SameDomains c c') (h' : SameDomains c' c'') : SameDomains c c'' := fun t => (h' t).trans (h t)

omit cfg in
theorem setTask (h : SameDomains c c') {t : TaskId} {f : Tcb → Tcb} (hf : ∀ b, (f b).user = b.user := by intro b; rfl) :
    SameDomains c (c'.setTask t f) := by
  intro u
  rw [setTask_apply]
  split
  · rename_i e
    rw [e, hf, h]
  · exact h u

omit cfg in
theorem reprio (r : Reprio c c') : SameDomains c c' := fun t => by rw [r.task t]

omit cfg in
theorem rescheduleRequest (c : Core) : SameDomains c c.rescheduleRequest := by
  obtain ⟨a, b, e⟩ := rescheduleRequest_eq c
  rw [e]
  exact refl c

theorem schedRequestPreemption (c : Core) : SameDomains c c.schedRequestPreemption := by
  obtain ⟨a, b, e⟩ := schedRequestPreemption_eq c
  rw [e]
  exact refl c

omit cfg in
theorem schedRotateCurrent (c : Core) : SameDomains c c.schedRotateCurrent := by
  unfold Core.schedRotateCurrent
  split <;> exact refl c

theorem detachWaitNode (c : Core) (t : TaskId) : SameDomains c (c.detachWaitNode t) := by
  unfold Core.detachWaitNode
  split
  · exact refl c
  · split
    · rename_i l _ _
      have h₁ : SameDomains c (c.waitUnlink l t) := refl c
      exact h₁.trans (reprio (mutexWaiterChanged_reprio _ t))
    · exact refl c

theorem taskWake (c : Core) (t : TaskId) (r : Code) : SameDomains c (c.taskWake t r) := by
  unfold Core.taskWake
  split
  · have h₀ : SameDomains c { c.detachWaitNode t with timeoutList := (c.detachWaitNode t).timeoutList.erase t } :=
      detachWaitNode c t
    have h₁ : SameDomains c (c.taskDetachWaitLocked t r) := by
      unfold taskDetachWaitLocked
      exact h₀.setTask
    have h₂ : SameDomains c ((c.taskDetachWaitLocked t r).setTask t fun b => { b with state := .ready }) :=
      h₁.setTask
    have h₃ : SameDomains c
        (((c.taskDetachWaitLocked t r).setTask t fun b => { b with state := .ready }).schedAddTask t) := h₂
    exact h₃.trans (schedRequestPreemption _)
  · exact refl c

theorem blockTask (c : Core) (t : TaskId) (w : Wait) (ms : Word) : SameDomains c (c.blockTask t w ms) := by
  have h₀ : SameDomains c (c.setTask t fun b =>
      { b with state := if w = .delay then .delayed else .blocked, wait := some w, waitResult := Code.ok }) :=
    (refl c).setTask
  have h₁ : SameDomains c (c.blockLink t w) := by
    unfold blockLink
    dsimp only
    split
    · exact h₀
    · exact h₀
  have h₂ := h₁.trans (reprio (mutexWaiterChanged_reprio _ t))
  rw [blockTask_eq]
  refine trans ?_ (rescheduleRequest _)
  unfold timeoutStart
  split
  · exact h₂
  · have h₃ : SameDomains c (((c.blockLink t w).mutexWaiterChanged t).setTask t fun b =>
        { b with wakeTick := ((c.blockLink t w).mutexWaiterChanged t).getTick + msToTicks ms }) := h₂.setTask
    exact h₃

theorem taskTickLoop (now : Word) (c : Core) (ts : List TaskId) : SameDomains c (taskTickLoop now c ts) := by
  induction ts generalizing c with
  | nil => exact refl c
  | cons t ts ih =>
    rw [Core.taskTickLoop]
    split
    · exact (taskWake c t _).trans (ih _)
    · exact refl c

theorem tickHandler (c : Core) (pending : Bool) : SameDomains c (c.tickHandler pending) := by
  have h₁ : SameDomains c c.countTick := by
    unfold countTick
    dsimp only
    split
    · exact refl c
    · have h : SameDomains c { c with totalTicks := c.totalTicks + 1 } := refl c
      exact h.setTask
  have h₂ (d : Core) : SameDomains d (d.timerServiceWake pending) := by
    unfold timerServiceWake
    split
    · exact taskWake d _ _
    · exact refl d
  have h₃ (d : Core) : SameDomains d d.sliceExpire := by
    unfold sliceExpire
    split
    · exact refl d
    · split
      · exact (((refl d).setTask).trans (schedRotateCurrent _)).trans (rescheduleRequest _)
      · exact refl d
  exact ((h₁.trans (taskTickLoop _ _ _)).trans (h₂ _)).trans (h₃ _)

omit cfg in
theorem isrExit (c : Core) : SameDomains c c.isrExit := by
  unfold Core.isrExit
  split
  · exact refl c
  · dsimp only
    split <;> exact refl c

end SameDomains

end Core

namespace Kernel

open Aixos.Core

variable [cfg : Config]

variable {k : Kernel}

theorem block_domains (k : Kernel) (w : Wait) (ms : Word) (p : Pending) : SameDomains k.core (k.block w ms p).1.core := by
  unfold block taskBlockCurrent
  split
  · exact .refl _
  · rename_i c e
    split at e
    · cases e
    · split at e
      · cases e
      · split at e
        · cases e
        · cases e
          exact .blockTask _ _ _ _

theorem wakeFirst_domains (k : Kernel) (l : WaitList) : SameDomains k.core (k.wakeFirst l).core := by
  unfold wakeFirst
  split
  · exact .refl _
  · exact .taskWake _ _ _

theorem mqSendCommon_domains (h : Handle) (message : Option (List UInt8)) (priority : ℕ) (ms : Word) (isr : Bool) :
    SameDomains k.core (k.mqSendCommon h message priority ms isr).1.core := by
  unfold mqSendCommon
  split
  · exact .refl _
  · split
    · exact .refl _
    · split
      · exact .refl _
      · split
        · exact .refl _
        · split
          · exact .refl _
          · unfold mqSendLoop
            split
            · split
              · exact .refl _
              · exact block_domains _ _ _ _
            · split
              · exact .refl _
              · exact wakeFirst_domains _ _

theorem pipeWriteCommon_domains (h : Handle) (data : Option (List UInt8)) (ms : Word) (isr : Bool) :
    SameDomains k.core (k.pipeWriteCommon h data ms isr).1.core := by
  unfold pipeWriteCommon
  split
  · exact .refl _
  · split
    · exact .refl _
    · split
      · exact .refl _
      · split
        · exact .refl _
        · split
          · exact .refl _
          · unfold pipeWriteLoop
            split
            · split
              · exact .refl _
              · exact block_domains _ _ _ _
            · dsimp only
              split
              · exact wakeFirst_domains _ _
              · exact .refl _

/-- **What an interrupt handler does** leaves the domains alone. -/
theorem isrCall_domains (k : Kernel) (c : IsrCall) : SameDomains k.core (k.isrCall c).core := by
  cases c with
  | tick pending => exact .tickHandler _ _
  | semPost h =>
    show SameDomains _ (k.semPostFromIsr h).1.core
    unfold semPostFromIsr semPostCommon
    split
    · exact .refl _
    · split
      · exact .refl _
      · split
        · exact wakeFirst_domains _ _
        · split <;> exact .refl _
  | mqSend h message =>
    show SameDomains _ (k.mqSendFromIsr h message).1.core
    unfold mqSendFromIsr
    split
    · exact .refl _
    · exact mqSendCommon_domains _ _ _ _ _
  | pipeWrite h data =>
    show SameDomains _ (k.pipeWriteFromIsr h data).1.core
    unfold pipeWriteFromIsr
    split
    · exact .refl _
    · exact pipeWriteCommon_domains _ _ _ _
  | notify t value action =>
    show SameDomains _ (k.notifyFromIsr t value action).1.core
    unfold notifyFromIsr notifyCommon
    split
    · exact .refl _
    · split
      · exact .refl _
      · split
        · exact .refl _
        · dsimp only
          split
          · exact .taskWake _ _ _
          · exact .refl _

end Kernel

end Aixos
