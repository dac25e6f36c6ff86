import Aixos.Kernel.Microkernel
import Aixos.System.Waiters

/-!
# Tasks that wait for messages

A task that waits in `sc_msg_send` or `sc_msg_receive` is in no wait list and has no timeout, so
native actions do not end its wait, unless they suspend or delete it.

* `Wait.isMsg` — the two waits.
* `Untimed` — nobody who waits for a message has a timeout.
* `Sys.msgWait_kept`, `Sys.msgWait_back` — a native action neither ends such a wait nor begins one.
-/

namespace Aixos

open Transition Aixos.Core

variable [cfg : Config]

/-- A wait in `sc_msg_send` or `sc_msg_receive`. -/
def Wait.isMsg : Wait → Bool
  | .msgSend _ | .msgReceive _ => true
  | _ => false

namespace Core

variable {c c' : Core} {o : Op} {t u : TaskId} {w : Wait} {r : Code}

/-- Nobody who waits for a message has a timeout. -/
def Untimed (c : Core) : Prop := ∀ t w, (c.tasks t).wait = some w → w.isMsg = true → t ∉ c.timeoutList

/-- Whoever waits for a message waited for it before. -/
def MsgWaitsBack (c c' : Core) : Prop := ∀ t w, (c'.tasks t).wait = some w → w.isMsg = true → (c.tasks t).wait = some w

omit cfg in
theorem WaitsKept.msgWaitsBack (h : WaitsKept c c') : MsgWaitsBack c c' := by
  intro t w hw _
  exact (h t (by rw [hw]; exact Option.some_ne_none _)).1.symm.trans hw

omit cfg in
theorem WaitsKept.untimed (h : WaitsKept c c') (hu : Untimed c) : Untimed c' := by
  intro t w hw hm ht
  obtain ⟨e, i⟩ := h t (by rw [hw]; exact Option.some_ne_none _)
  exact hu t w (e.symm.trans hw) hm (i.mp ht)

omit cfg in
theorem not_mem_of_msgWait (hf : ∀ l t, t ∈ c.waitLists l ↔ (c.tasks t).wait = some (.list l))
    (hw : (c.tasks t).wait = some w) (hm : w.isMsg = true) (l : WaitList) : t ∉ c.waitLists l := by
  intro ht
  rw [(hf l t).mp ht] at hw
  cases hw
  cases hm

/-! ### Blocking for a message -/

theorem msgBlock_eq (c : Core) (t : TaskId) (hm : w.isMsg = true) : c.msgBlock t w = c.blockTask t w forever := by
  have hd : w ≠ .delay := by
    rintro rfl
    cases hm
  have hl : w.waitList = none := by
    cases w with
    | list l => cases hm
    | _ => rfl
  have hself : ((c.setTask t fun b => { b with state := .blocked, wait := some w, waitResult := Code.ok }).schedRemoveTask
      t).tasks t = { c.tasks t with state := .blocked, wait := some w, waitResult := Code.ok } := by
    rw [schedRemoveTask_tasks, setTask_self]
  have hmx : Tcb.waitMutex { c.tasks t with state := .blocked, wait := some w, waitResult := Code.ok } = none := by
    unfold Tcb.waitMutex
    cases w with
    | list l => cases hm
    | _ => rfl
  unfold msgBlock blockTask
  dsimp only
  rw [if_neg hd, hl]
  dsimp only
  rw [mutexWaiterChanged, hself, hmx]
  dsimp only
  rw [if_pos (msToTicks_eq_forever.mpr rfl)]

/-- What blocking for a message does. -/
structure MsgBlocked (c c' : Core) (t : TaskId) (w : Wait) : Prop where
  sound : Sound c'
  self : (c'.tasks t).wait = some w
  result : (c'.tasks t).waitResult = Code.ok
  untimed : t ∉ c'.timeoutList
  other : ∀ u, u ≠ t → (c'.tasks u).wait = (c.tasks u).wait ∧ (c'.tasks u).waitResult = (c.tasks u).waitResult ∧
    (u ∈ c'.timeoutList ↔ u ∈ c.timeoutList)
  running : c'.running = c.running

/-- **The task that runs blocks for a message.** The source does not look at the scheduler lock. -/
theorem msgBlocked (h : Sound c) (hcur : c.cur = some t) (hst : (c.tasks t).state = .running) (hm : w.isMsg = true) :
    MsgBlocked c (c.msgBlock t w) t w := by
  have hl : ∀ l, w ≠ .list l := by
    rintro l rfl
    cases hm
  -- the lock and the interrupts do not matter for what blocking does
  have h₀ : Sound { c with isrNesting := 0, schedLock := 0 } := h.flags
  have hb : MayBlock { c with isrNesting := 0, schedLock := 0 } t w :=
    ⟨hcur, hst, rfl, rfl, fun l _ _ e => absurd e (hl l), fun m e => absurd e (hl _)⟩
  have hs := h₀.blockTask hb forever
  obtain ⟨h₁, h₂, h₃⟩ := blockTask_waits h₀ hb forever
  have hr := (blockTask_self { c with isrNesting := 0, schedLock := 0 } t w forever).2
  have hrun := blockTask_running { c with isrNesting := 0, schedLock := 0 } t w forever
  rw [← msgBlock_eq _ t hm] at hs h₁ h₂ h₃ hr hrun
  unfold msgBlock at hs h₁ h₂ h₃ hr hrun ⊢
  obtain ⟨a, b, e⟩ := rescheduleRequest_eq ((c.setTask t fun b =>
    { b with state := .blocked, wait := some w, waitResult := Code.ok }).schedRemoveTask t)
  obtain ⟨a', b', e'⟩ := rescheduleRequest_eq ((setTask { c with isrNesting := 0, schedLock := 0 } t fun b =>
    { b with state := .blocked, wait := some w, waitResult := Code.ok }).schedRemoveTask t)
  rw [e'] at hs h₁ h₂ h₃ hr hrun
  rw [e]
  exact ⟨hs.flags, h₁, hr, fun hmem => (h₂.mp hmem) (msToTicks_eq_forever.mpr rfl), h₃, hrun⟩

/-! ### Steps that end waits -/

/-- A step that does not end the wait of a task leaves it alone. -/
theorem msgWait_exec (hs : Sound c) (he : c.Enabled o) (hw : (c.tasks t).wait = some w)
    (hne : ∀ x, ¬ o.Ends c t x) : ((c.exec o).tasks t).wait = some w := by
  by_cases hb : ∃ u w' ms, o = .block u w' ms
  · obtain ⟨u, w', ms, rfl⟩ := hb
    have hu : t ≠ u := by
      rintro rfl
      have hr : (c.tasks t).isReady := .inr (show c.MayBlock t w' from he).state
      rw [hs.wf.wait_eq_none_of_isReady hr] at hw
      cases hw
    exact ((blockTask_waits hs he ms).2.2 t hu).1.trans hw
  · rcases exec_ended hs he (fun u w ms e => hb ⟨u, w, ms, e⟩) t with ⟨e, -⟩ | ⟨-, h⟩
    · exact e.trans hw
    · exact absurd h (hne _)

end Core

namespace Sys

variable {s s' : Sys} {a : Act} {c : Core} {o : Op} {t : TaskId} {w : Wait} {r : Code}

/-- Who is woken is in a wait list or waits for a notification. -/
theorem performs_wake (h : a.Performs s c (.wake t r)) : (∃ l, t ∈ c.waitLists l) ∨ (c.tasks t).wait = some .notify := by
  have wakes : ∀ {l}, c.WakesFrom l (.wake t r) → ∃ l, t ∈ c.waitLists l := by
    rintro l ⟨u, hu, e⟩
    cases e
    exact ⟨l, hu⟩
  have notifies : ∀ {u}, Notifies u c (.wake t r) → (c.tasks t).wait = some .notify := by
    rintro u ⟨hu, e⟩
    cases e
    exact hu
  cases a with
  | call x =>
    cases x with
    | semPost | eventSet =>
      obtain ⟨i, -, h⟩ := h
      exact .inl (wakes h)
    | mqSend | mqRecv | pipeWrite | pipeRead =>
      obtain ⟨i, -, ⟨u, ms, -, e⟩ | h⟩ := h
      · cases e
      · exact .inl (wakes h)
    | notify => exact .inr (notifies h)
    | _ => simp [Act.Performs, Call.Performs, BlocksOn, Names, EventWaits, MutexLocks, MutexUnlocks] at h
  | isr x =>
    cases x with
    | tick pending =>
      obtain e | e | h | ⟨u, -, e⟩ := h
      · cases e
      · cases e
      · exact .inl (wakes h)
      · cases e
    | semPost =>
      obtain ⟨i, -, h⟩ := h
      exact .inl (wakes h)
    | mqSend | pipeWrite =>
      obtain ⟨i, -, ⟨u, ms, -, e⟩ | h⟩ := h
      · cases e
      · exact .inl (wakes h)
    | notify => exact .inr (notifies h)
  | resume =>
    obtain ⟨u, ⟨p, ms⟩, -, -, h⟩ := h
    cases p with
    | eventWait =>
      obtain ⟨i, -, v, ms, -, e⟩ := h
      cases e
    | mqSend | mqRecv | pipeWrite | pipeRead =>
      obtain ⟨i, -, ⟨u, ms, -, e⟩ | h⟩ := h
      · cases e
      · exact .inl (wakes h)
    | _ => exact h.elim
  | _ => cases h

/-- A timeout is that of a task in the timeout list. -/
theorem performs_timeout_mem (h : a.Performs s c (.timeout t r)) : t ∈ s.core.timeoutList := by
  cases a with
  | isr x =>
    cases x with
    | tick pending =>
      obtain e | e | ⟨u, -, e⟩ | ⟨u, hu, e⟩ := h
      · cases e
      · cases e
      · cases e
      · cases e
        exact List.takeWhile_subset _ hu
    | _ => simp [Act.Performs, IsrCall.Performs, WakesFrom, BlocksOn, Names, SemPosts, MqSends, PipeWrites, Notifies] at h
  | call x => cases x <;> simp [Act.Performs, Call.Performs, BlocksOn, WakesFrom, Names, SemPosts, EventWaits,
      MqSends, MqRecvs, PipeWrites, PipeReads, Notifies, MutexLocks, MutexUnlocks] at h
  | resume =>
    obtain ⟨t, f, -, -, h⟩ := h
    cases hf : f.pending <;> rw [hf] at h <;> simp [Pending.Performs, BlocksOn, WakesFrom, Names, EventWaits,
      MqSends, MqRecvs, PipeWrites, PipeReads] at h
  | _ => cases h

theorem performs_suspend (h : a.Performs s c (.suspend t)) : a = .call (.taskSuspend t) := by
  obtain ⟨x, rfl, hx⟩ := call_of_performs h trivial
  cases x with
  | taskSuspend u =>
    cases hx
    rfl
  | _ => simp [Call.Performs, BlocksOn, WakesFrom, Names, SemPosts, EventWaits, MqSends, MqRecvs, PipeWrites,
      PipeReads, Notifies, MutexLocks, MutexUnlocks] at hx

/-- The action suspends or deletes the task. -/
def Stops (a : Act) (t : TaskId) : Prop := a = .call (.taskSuspend t) ∨ a = .call (.taskDelete t)

/-- No step of an action ends the wait for a message of a task that it does not stop. -/
theorem not_ends (hs : Sound c) (hw : (c.tasks t).wait = some w) (hm : w.isMsg = true) (ht : t ∉ s.core.timeoutList)
    (hst : ¬ Stops a t) (ho : a.Performs s c o) (x : Code) : ¬ o.Ends c t x := by
  have hlt : t < c.nextTask := hs.wf.fresh t (hs.wf.live_of_wait (by rw [hw]; exact Option.some_ne_none _))
  have hnot := not_mem_of_msgWait hs.wf.filed hw hm
  intro h
  cases o with
  | wake u r =>
    obtain ⟨rfl, -⟩ := h
    rcases performs_wake ho with ⟨l, hl⟩ | hn
    · exact hnot l hl
    · rw [hw] at hn
      cases hn
      cases hm
  | timeout u r =>
    obtain ⟨rfl, -⟩ := h
    exact ht (performs_timeout_mem ho)
  | suspend u =>
    obtain ⟨rfl, -⟩ := h
    exact hst (.inl (performs_suspend ho))
  | delete u =>
    obtain ⟨rfl, -⟩ := h
    exact hst (.inr (performs_delete ho))
  | release m u =>
    obtain ⟨⟨rest, hr⟩, -⟩ := h
    exact hnot (.mutex m) (by rw [hr]; exact List.mem_cons_self ..)
  | create a => exact absurd h.1 (Nat.not_le.mpr hlt)
  | start memory => exact absurd h.1 (Nat.not_le.mpr hlt)
  | _ => exact h.elim

/-- **A wait for a message goes on** until the task is suspended or deleted. -/
theorem msgWait_kept (hs : Sound s.core) (hu : Untimed s.core) (hw : (s.core.tasks t).wait = some w)
    (hm : w.isMsg = true) (hst : ¬ Stops a t) (h : s.step a = some s') : (s'.core.tasks t).wait = some w := by
  have ht := hu t w hw hm
  rcases step_core hs h with ⟨ops, hp⟩ | ⟨o, ho, he, e⟩
  · refine (hp.invariant (I := fun c => Sound c ∧ (c.tasks t).wait = some w) ?_ ⟨hs, hw⟩).2
    rintro c o c' ⟨hs, hw⟩ ⟨hmild, ho⟩ ⟨he, rfl⟩
    exact ⟨(hmild.exec hs he).1, msgWait_exec hs he hw (not_ends hs hw hm ht hst ho)⟩
  · rw [e]
    exact msgWait_exec hs he hw (not_ends hs hw hm ht hst ho)

/-- No native action blocks for a message. -/
theorem not_isMsg_of_block {ms : Word} (h : a.Performs s c (.block t w ms)) : w.isMsg = false := by
  have blocks : ∀ {w'}, c.BlocksOn w' (.block t w ms) → w = w' := by
    rintro w' ⟨u, ms, -, e⟩
    cases e
    rfl
  have wakes : ∀ {l}, ¬ c.WakesFrom l (.block t w ms) := by
    rintro l ⟨u, -, e⟩
    cases e
  cases a with
  | call x =>
    cases x with
    | taskSleep =>
      obtain e | h := h
      · cases e
      · cases blocks h
        rfl
    | semWait | eventWait =>
      obtain ⟨i, -, h⟩ := h
      cases blocks h
      rfl
    | mutexLock =>
      obtain ⟨i, -, h | ⟨u, -, e⟩ | ⟨n, -, e⟩⟩ := h
      · cases blocks h
        rfl
      · cases e
      · cases e
    | mqSend | mqRecv | pipeWrite | pipeRead =>
      obtain ⟨i, -, h | h⟩ := h
      · cases blocks h
        rfl
      · exact absurd h wakes
    | notifyWait | notifyTake | timerServiceWait =>
      cases blocks h
      rfl
    | _ => simp [Act.Performs, Call.Performs, WakesFrom, Names, SemPosts, MutexUnlocks, Notifies] at h
  | isr x =>
    cases x with
    | mqSend | pipeWrite =>
      obtain ⟨i, -, h | h⟩ := h
      · cases blocks h
        rfl
      · exact absurd h wakes
    | _ => simp [Act.Performs, IsrCall.Performs, WakesFrom, Names, SemPosts, Notifies] at h
  | resume =>
    obtain ⟨u, ⟨p, ms'⟩, -, -, h⟩ := h
    cases p with
    | eventWait =>
      obtain ⟨i, -, h⟩ := h
      cases blocks h
      rfl
    | mqSend | mqRecv | pipeWrite | pipeRead =>
      obtain ⟨i, -, h | h⟩ := h
      · cases blocks h
        rfl
      · exact absurd h wakes
    | _ => exact h.elim
  | _ => cases h

/-- **No wait for a message begins** in a native action, and none gets a timeout. -/
theorem msgWait_back (hs : Sound s.core) (hu : Untimed s.core) (h : s.step a = some s') :
    MsgWaitsBack s.core s'.core ∧ Untimed s'.core := by
  rcases step_core hs h with ⟨ops, hp⟩ | ⟨o, ho, he, e⟩
  · have hk := path_mild_waits hs hp
    exact ⟨hk.msgWaitsBack, hk.untimed hu⟩
  · rw [e]
    by_cases hb : ∃ u w ms, o = .block u w ms
    · obtain ⟨u, w, ms, rfl⟩ := hb
      obtain ⟨h₁, -, h₃⟩ := blockTask_waits hs he ms
      have back : ∀ t v, ((s.core.exec (.block u w ms)).tasks t).wait = some v → v.isMsg = true → t ≠ u := by
        rintro t v hv hm rfl
        have e : some w = some v := h₁.symm.trans hv
        cases e
        rw [not_isMsg_of_block ho] at hm
        cases hm
      constructor
      · intro t v hv hm
        exact (h₃ t (back t v hv hm)).1.symm.trans hv
      · intro t v hv hm ht
        obtain ⟨e₁, -, e₃⟩ := h₃ t (back t v hv hm)
        exact hu t v (e₁.symm.trans hv) hm (e₃.mp ht)
    · have hk := exec_waits hs he fun u w ms e => hb ⟨u, w, ms, e⟩
      exact ⟨hk.msgWaitsBack, hk.untimed hu⟩

end Sys

end Aixos
