import Aixos.System.Sources

/-!
# The loops of calls that wait for a condition

`aixos_event_wait`, `mq_send_common`, `aixos_mq_recv_priority`, `pipe_write_common` and `pipe_read_common` look at their
object, block for the time that is left, and look again when they have been woken.

* `Pending.unmet` — what such a call waits for does not hold.
* `Kernel.round` — one round of the loop.
* `Kernel.resume_round`, `Kernel.call_round` — after a wait, and in the call itself, the kernel runs one round.
* `Kernel.round_cases` — what a round does if the condition does not hold.
-/

namespace Aixos

open Transition Aixos.Core

/-- The tick at which a loop has begun, and the timeout of its call. -/
def Pending.clock : Pending → Option (Word × Word)
  | .eventWait _ _ _ startTick timeoutMs => some (startTick, timeoutMs)
  | .mqSend _ _ _ startTick timeoutMs => some (startTick, timeoutMs)
  | .mqRecv _ _ startTick timeoutMs => some (startTick, timeoutMs)
  | .pipeWrite _ _ startTick timeoutMs => some (startTick, timeoutMs)
  | .pipeRead _ _ startTick timeoutMs => some (startTick, timeoutMs)
  | _ => none

/-- What the loop returns to a call that does not want to wait. -/
def Pending.refusal : Pending → Code
  | .eventWait .. | .mqRecv .. => Code.again
  | .mqSend .. => Code.busy
  | _ => 0

variable [cfg : Config]

/-- The condition that the loop waits for does not hold. -/
def Pending.unmet (k : Kernel) : Pending → Bool
  | .eventWait h mask mode _ _ =>
    match k.core.objFromHandle .event h with
    | none => false
    | some i => Kernel.eventMatch (k.eventFlags i) mask mode = 0
  | .mqSend h _ _ _ _ =>
    match k.core.objFromHandle .mq h with
    | none => false
    | some i => (k.mqs i).count = (k.mqs i).maxMsgs
  | .mqRecv h _ _ _ =>
    match k.core.objFromHandle .mq h with
    | none => false
    | some i => (k.mqs i).count = 0
  | .pipeWrite h _ _ _ =>
    match k.core.objFromHandle .pipe h with
    | none => false
    | some i => (k.pipes i).size - (k.pipes i).count = 0
  | .pipeRead h _ _ _ =>
    match k.core.objFromHandle .pipe h with
    | none => false
    | some i => (k.pipes i).count = 0
  | _ => false

omit cfg in
/-- The loop of a call, begun at tick `now`. -/
def Call.loop (now : Word) : Call → Option Pending
  | .eventWait h mask mode timeoutMs => some (.eventWait h mask mode now timeoutMs)
  | .mqSend h (some message) priority timeoutMs => some (.mqSend h message priority now timeoutMs)
  | .mqRecv h capacity timeoutMs => some (.mqRecv h capacity now timeoutMs)
  | .pipeWrite h (some data) timeoutMs => some (.pipeWrite h data now timeoutMs)
  | .pipeRead h length timeoutMs => some (.pipeRead h length now timeoutMs)
  | _ => none

namespace Kernel

variable {k : Kernel} {p : Pending} {x : Call} {start ms remaining : Word} {f : Frame}

/-- One round of a loop, with so much time left. -/
def round (k : Kernel) (remaining : Word) : Pending → Kernel × Outcome
  | .eventWait h mask mode startTick timeoutMs => k.eventWaitLoop h mask mode startTick timeoutMs remaining
  | .mqSend h message priority startTick timeoutMs =>
    match k.core.objFromHandle .mq h with
    | none => k.code Code.inval
    | some i => k.mqSendLoop i h message priority startTick timeoutMs remaining false
  | .mqRecv h capacity startTick timeoutMs =>
    match k.core.objFromHandle .mq h with
    | none => k.code Code.inval
    | some i => k.mqRecvLoop i h capacity startTick timeoutMs remaining
  | .pipeWrite h data startTick timeoutMs =>
    match k.core.objFromHandle .pipe h with
    | none => k.code Code.inval
    | some i => k.pipeWriteLoop i h data startTick timeoutMs remaining false
  | .pipeRead h length startTick timeoutMs =>
    match k.core.objFromHandle .pipe h with
    | none => k.code Code.inval
    | some i => k.pipeReadLoop i h length startTick timeoutMs remaining
  | _ => (k, .noReturn)

/-- **After a wait** the call returns if the wait has failed, and else runs a round with the time that is left. -/
theorem resume_round (self : TaskId) (hc : f.pending.clock = some (start, ms)) : k.resume self f =
    if (k.core.tasks self).waitResult ≠ Code.ok then k.code (k.core.tasks self).waitResult
    else k.round (timeoutRemainingMs k.core.getTick start ms) f.pending := by
  unfold resume
  cases hp : f.pending <;> rw [hp] at hc <;> cases hc <;> rfl

/-- **The call** refuses its arguments, or runs a round with all the time it was given. -/
theorem call_round {now : Word} (hx : x.loop now = some p) (hn : now = k.core.getTick) : ∃ ms, p.clock = some (now, ms) ∧
    ((∃ e, (e = Code.context ∨ e = Code.inval) ∧ k.call x = k.code e) ∨ k.call x = k.round ms p) := by
  subst hn
  have refused : ∀ {e : Code} {r : Kernel × Outcome}, e = Code.context ∨ e = Code.inval →
      (∃ e', (e' = Code.context ∨ e' = Code.inval) ∧ k.code e = k.code e') ∨ k.code e = r :=
    fun he => .inl ⟨_, he, rfl⟩
  cases x with
  | eventWait h mask mode ms =>
    cases hx
    refine ⟨ms, rfl, ?_⟩
    simp only [call, eventWait]
    split
    · exact refused (.inl rfl)
    · split
      · exact refused (.inr rfl)
      · exact .inr rfl
  | mqSend h message priority ms =>
    cases message with
    | none => cases hx
    | some message =>
      cases hx
      refine ⟨ms, rfl, ?_⟩
      simp only [call, mqSend, mqSendCommon, round]
      split
      · exact refused (.inl rfl)
      · split
        · exact refused (.inr rfl)
        · split
          · exact refused (.inr rfl)
          · cases k.core.objFromHandle .mq h with
            | none => exact refused (.inr rfl)
            | some i =>
              dsimp only
              split
              · exact refused (.inr rfl)
              · exact .inr rfl
  | mqRecv h capacity ms =>
    cases hx
    refine ⟨ms, rfl, ?_⟩
    simp only [call, mqRecv, round]
    split
    · exact refused (.inl rfl)
    · cases k.core.objFromHandle .mq h with
      | none => exact refused (.inr rfl)
      | some i => exact .inr rfl
  | pipeWrite h data ms =>
    cases data with
    | none => cases hx
    | some data =>
      cases hx
      refine ⟨ms, rfl, ?_⟩
      simp only [call, pipeWrite, pipeWriteCommon, round]
      split
      · exact refused (.inl rfl)
      · split
        · exact refused (.inr rfl)
        · split
          · exact refused (.inr rfl)
          · split
            · exact refused (.inl rfl)
            · cases k.core.objFromHandle .pipe h with
              | none => exact refused (.inr rfl)
              | some i => exact .inr rfl
  | pipeRead h length ms =>
    cases hx
    refine ⟨ms, rfl, ?_⟩
    simp only [call, pipeRead, round]
    split
    · exact refused (.inl rfl)
    · split
      · exact refused (.inr rfl)
      · cases k.core.objFromHandle .pipe h with
        | none => exact refused (.inr rfl)
        | some i => exact .inr rfl
  | _ => cases hx

/-- Blocking is refused, or the loop goes on later. -/
theorem block_snd (k : Kernel) (w : Wait) (ms : Word) (p : Pending) :
    (∃ e, (e = Code.context ∨ e = Code.locked) ∧ (k.block w ms p).2 = .ret (.code e)) ∨
      (k.block w ms p).2 = .wait { pending := p, timeoutMs := ms } := by
  unfold block
  split
  · rename_i e he
    left
    refine ⟨e, ?_, rfl⟩
    unfold taskBlockCurrent at he
    split at he
    · cases he
      exact .inl rfl
    · split at he
      · cases he
        exact .inl rfl
      · split at he
        · cases he
          exact .inr rfl
        · cases he
  · exact .inr rfl

/-- **A round that finds its condition unmet** returns if there is no time left, and else blocks for that time. -/
theorem round_unmet (remaining : Word) (hc : p.clock = some (start, ms)) (hu : p.unmet k = true) (hcur : k.core.cur ≠ none) :
    remaining = 0 ∧ k.round remaining p = k.code p.refusal ∨
      remaining ≠ 0 ∧ ((∃ e, (e = Code.context ∨ e = Code.locked) ∧ (k.round remaining p).2 = .ret (.code e)) ∨
        (k.round remaining p).2 = .wait { pending := p, timeoutMs := remaining }) := by
  cases p with
  | eventWait h mask mode s t =>
    rw [Pending.unmet] at hu
    rw [round, eventWaitLoop]
    cases hi : k.core.objFromHandle .event h with
    | none =>
      rw [hi] at hu
      cases hu
    | some i =>
      rw [hi] at hu
      have hm : eventMatch (k.eventFlags i) mask mode = 0 := of_decide_eq_true hu
      obtain ⟨self, hself⟩ := Option.ne_none_iff_exists'.mp hcur
      rw [hself]
      dsimp only
      rw [if_neg (not_not.mpr hm)]
      split
      · exact .inl ⟨‹_›, rfl⟩
      · exact .inr ⟨‹_›, block_snd ..⟩
  | mqSend h message priority s t =>
    rw [Pending.unmet] at hu
    rw [round]
    split at hu
    · cases hu
    · unfold mqSendLoop
      rw [if_pos (of_decide_eq_true hu)]
      split
      · rename_i h₀
        exact .inl ⟨h₀.resolve_left Bool.false_ne_true, rfl⟩
      · rename_i h₀
        exact .inr ⟨fun e => h₀ (.inr e), block_snd ..⟩
  | mqRecv h capacity s t =>
    rw [Pending.unmet] at hu
    rw [round]
    split at hu
    · cases hu
    · unfold mqRecvLoop
      dsimp only
      rw [if_pos (of_decide_eq_true hu)]
      split
      · exact .inl ⟨‹_›, rfl⟩
      · exact .inr ⟨‹_›, block_snd ..⟩
  | pipeWrite h data s t =>
    rw [Pending.unmet] at hu
    rw [round]
    split at hu
    · cases hu
    · unfold pipeWriteLoop
      rw [if_pos (of_decide_eq_true hu)]
      split
      · rename_i h₀
        exact .inl ⟨h₀.resolve_left Bool.false_ne_true, rfl⟩
      · rename_i h₀
        exact .inr ⟨fun e => h₀ (.inr e), block_snd ..⟩
  | pipeRead h length s t =>
    rw [Pending.unmet] at hu
    rw [round]
    split at hu
    · cases hu
    · unfold pipeReadLoop
      rw [if_pos (of_decide_eq_true hu)]
      split
      · exact .inl ⟨‹_›, rfl⟩
      · exact .inr ⟨‹_›, block_snd ..⟩
  | _ => cases hc

/-- A round that finds its condition met returns. -/
theorem round_met (remaining : Word) (hc : p.clock = some (start, ms)) (hu : p.unmet k = false) : ∃ v, (k.round remaining p).2 = .ret v := by
  cases p with
  | eventWait h mask mode s t =>
    rw [Pending.unmet] at hu
    rw [round, eventWaitLoop]
    cases hi : k.core.objFromHandle .event h with
    | none => exact ⟨_, rfl⟩
    | some i =>
      rw [hi] at hu
      dsimp only
      rw [if_pos (of_decide_eq_false hu)]
      exact ⟨_, rfl⟩
  | mqSend h message priority s t =>
    rw [Pending.unmet] at hu
    rw [round]
    split at hu
    · exact ⟨_, rfl⟩
    · unfold mqSendLoop
      rw [if_neg (of_decide_eq_false hu)]
      split <;> exact ⟨_, rfl⟩
  | mqRecv h capacity s t =>
    rw [Pending.unmet] at hu
    rw [round]
    split at hu
    · exact ⟨_, rfl⟩
    · unfold mqRecvLoop
      dsimp only
      rw [if_neg (of_decide_eq_false hu)]
      split <;> exact ⟨_, rfl⟩
  | pipeWrite h data s t =>
    rw [Pending.unmet] at hu
    rw [round]
    split at hu
    · exact ⟨_, rfl⟩
    · unfold pipeWriteLoop
      rw [if_neg (of_decide_eq_false hu)]
      exact ⟨_, rfl⟩
  | pipeRead h length s t =>
    rw [Pending.unmet] at hu
    rw [round]
    split at hu
    · exact ⟨_, rfl⟩
    · unfold pipeReadLoop
      rw [if_neg (of_decide_eq_false hu)]
      exact ⟨_, rfl⟩
  | _ => cases hc

/-- A round returns, or the call goes on later in the same loop, for the time that was left. -/
theorem round_cases (remaining : Word) (hc : p.clock = some (start, ms)) (hcur : k.core.cur ≠ none) :
    (∃ v, (k.round remaining p).2 = .ret v) ∨
      (k.round remaining p).2 = .wait { pending := p, timeoutMs := remaining } ∧ remaining ≠ 0 := by
  cases hu : p.unmet k with
  | false => exact .inl (round_met remaining hc hu)
  | true =>
    rcases round_unmet remaining hc hu hcur with ⟨-, e⟩ | ⟨h₀, ⟨e, -, he⟩ | hw⟩
    · exact .inl ⟨_, by rw [e]; rfl⟩
    · exact .inl ⟨_, he⟩
    · exact .inr ⟨hw, h₀⟩

theorem resume_cases (self : TaskId) (hc : f.pending.clock = some (start, ms)) (hcur : k.core.cur ≠ none) :
    (∃ v, (k.resume self f).2 = .ret v) ∨
      (k.resume self f).2 = .wait ⟨f.pending, timeoutRemainingMs k.core.getTick start ms⟩ ∧
        timeoutRemainingMs k.core.getTick start ms ≠ 0 := by
  rw [resume_round self hc]
  split
  · exact .inl ⟨_, rfl⟩
  · exact round_cases _ hc hcur

end Kernel

end Aixos
