import Aixos.Messages.Stale

/-!
# Replies to messages that have been received

`sc_msg_receive` takes the message it delivers off the queue of its channel, and `sc_msg_reply` looks
for the message in this queue.

* `Micro.Taken` — a message in use that is in no queue.
* `Micro.ReplyPossible` — a reply can still find the message.
* `Machine.delivered_unanswered` — no reply ever finds a message that has been delivered.
-/

namespace Aixos

open Transition Aixos.Core

variable [cfg : Config]

namespace Micro

variable {m m' : Micro} {t : TaskId} {i j p q : ℕ} {x : Syscall} {r : Code}

/-- The message is in use, and no channel queues it. -/
structure Taken (m : Micro) (p : ℕ) : Prop where
  used : (m.pendingMsgs p).used = true
  unqueued : ∀ i, p ∉ (m.channels i).pendingMsgs

/-- A connection in use leads to the queue that holds the message, and the message was sent on it. -/
def ReplyPossible (m : Micro) (p : ℕ) : Prop :=
  ∃ j, (m.connections j).used = true ∧ (m.pendingMsgs p).senderConnIdx = j ∧
    p ∈ (m.channels (m.connections j).chIdx).pendingMsgs

omit cfg in
theorem Taken.not_replyPossible (h : Taken m p) : ¬ ReplyPossible m p := fun ⟨_, _, _, hp⟩ => h.unqueued _ hp

omit cfg in
/-- No reply finds it. -/
theorem Taken.found_ne (h : Taken m p) (j : ℕ) : m.found j ≠ some p := fun e => h.unqueued _ (found_eq e).1

omit cfg in
/-- The queue of one channel may lose messages. -/
theorem Taken.update (h : Taken m p) {d : Channel} (hl : d.pendingMsgs ⊆ (m.channels i).pendingMsgs)
    (hc : m'.channels = Function.update m.channels i d) (hp : m'.pendingMsgs p = m.pendingMsgs p) : Taken m' p where
  used := by
    rw [hp]
    exact h.used
  unqueued j hj := by
    rw [hc, Function.update_apply] at hj
    split at hj
    · exact h.unqueued i (hl hj)
    · exact h.unqueued j hj

/-- **Every system call** leaves the message as it is. -/
theorem Dispatched.taken (h : Dispatched m t x m' r) (hp : Taken m p) :
    Taken m' p ∧ m'.pendingMsgs p = m.pendingMsgs p := by
  cases h with
  | refused => exact ⟨hp, rfl⟩
  | capClosed | notConnected | connected | disconnected => exact ⟨⟨hp.used, hp.unqueued⟩, rfl⟩
  | created | notCreated => exact ⟨hp.update (d := { used := _ }) (List.nil_subset _) rfl rfl, rfl⟩
  | destroyed => exact ⟨hp.update (d := { m.channels _ with used := false }) (List.Subset.refl _) rfl rfl, rfl⟩
  | @sent _ _ _ _ _ j q pm _ _ hf =>
    have hne : p ≠ q := by
      rintro rfl
      exact Bool.false_ne_true ((freePendingMsg_eq hf).1.symm.trans hp.used)
    have hslot : (m.msgQueue t q (m.connections j).chIdx pm).pendingMsgs p = m.pendingMsgs p := by
      rw [(msgQueue_tables ..).1, Function.update_of_ne hne]
    refine ⟨⟨by rw [hslot]; exact hp.used, fun i hi => ?_⟩, hslot⟩
    rw [msgQueue_channels, Function.update_apply] at hi
    split at hi
    · exact (List.mem_append.mp hi).elim (hp.unqueued _) fun hq => hne (List.mem_singleton.mp hq)
    · exact hp.unqueued i hi
  | delivered _ _ hl | notDelivered _ _ hl =>
    refine ⟨hp.update (d := { m.channels _ with pendingMsgs := _ }) ?_ rfl rfl, rfl⟩
    rw [hl]
    exact List.subset_cons_self ..
  | @awaited _ _ _ i =>
    exact ⟨hp.update (d := { m.channels i with receiver := some t }) (List.Subset.refl _) rfl rfl, rfl⟩
  | @answered _ _ _ j q memory _ _ hf =>
    have hne : p ≠ q := by
      rintro rfl
      exact hp.found_ne j hf
    obtain ⟨hc, hq, -, -⟩ := replyWake_tables { m.unqueue (m.connections j).chIdx q with memory := memory } q
    have hslot : (replyWake { m.unqueue (m.connections j).chIdx q with memory := memory } q).pendingMsgs p =
        m.pendingMsgs p := by
      rw [hq, Function.update_of_ne hne]
      rfl
    exact ⟨hp.update (d := { m.channels _ with pendingMsgs := _ }) List.erase_subset hc hslot, hslot⟩
  | notAnswered =>
    exact ⟨hp.update (d := { m.channels _ with pendingMsgs := _ }) List.erase_subset rfl rfl, rfl⟩

end Micro

namespace Machine

variable {s s' s₁ s₂ s₃ : Machine} {a : Action} {as bs : List Action} {i p : ℕ} {cap : ℤ} {msg capacity : ℕ}

theorem taken_step (hp : s.micro.Taken p) (h : s.step a = some s') :
    s'.micro.Taken p ∧ s'.micro.pendingMsgs p = s.micro.pendingMsgs p := by
  rcases step_tables h with ⟨b, rfl⟩ | ⟨x, rfl⟩ | hsame
  · obtain ⟨k, -, rfl⟩ := step_native h
    exact ⟨⟨hp.used, hp.unqueued⟩, rfl⟩
  · obtain ⟨t, r, -, hd, -, -⟩ := step_syscall h
    exact hd.taken hp
  · refine ⟨⟨?_, fun i => ?_⟩, congrFun hsame.pendingMsgs p⟩
    · rw [hsame.pendingMsgs]
      exact hp.used
    · rw [hsame.channels]
      exact hp.unqueued i

/-- A message that has been taken stays so to the end of every run. -/
theorem taken_run (hp : s.micro.Taken p) (h : run step s as = some s') :
    s'.micro.Taken p ∧ s'.micro.pendingMsgs p = s.micro.pendingMsgs p := by
  refine (path_iff_run.mpr h).invariant (I := fun m => m.micro.Taken p ∧ m.micro.pendingMsgs p = s.micro.pendingMsgs p)
    (fun m a m' hm _ hs => ?_) ⟨hp, rfl⟩
  obtain ⟨h₁, h₂⟩ := taken_step hm.1 hs
  exact ⟨h₁, h₂.trans hm.2⟩

theorem queues_run (h : run step init as = some s) : s.micro.Queues :=
  (path_iff_run.mpr h).invariant (I := fun m => m.micro.Queues) (fun _ _ _ hq _ hs => queues_step hq hs) queues_init

/-- What `sc_msg_receive` takes off the queue of a channel is in no queue any more. -/
theorem taken_of_receive (hq : s.micro.Queues) (h : s.step (.syscall (.msgReceive cap msg capacity)) = some s')
    (hi : p ∈ (s.micro.channels i).pendingMsgs) (hi' : p ∉ (s'.micro.channels i).pendingMsgs) :
    s'.micro.Taken p ∧ s'.micro.pendingMsgs p = s.micro.pendingMsgs p := by
  obtain ⟨t, r, -, hd, -, -⟩ := step_syscall h
  have hu : (s.micro.pendingMsgs p).used = true := hq.used i p hi
  have hsame : s'.micro.pendingMsgs = s.micro.pendingMsgs := by
    generalize s'.micro = m' at hd
    cases hd <;> rfl
  refine ⟨⟨by rw [hsame]; exact hu, fun j hj => ?_⟩, congrFun hsame p⟩
  -- a message in another queue would have been in two of them before
  have hsub : (s'.micro.channels j).pendingMsgs ⊆ (s.micro.channels j).pendingMsgs := by
    clear hi' hj
    generalize s'.micro = m' at hd
    cases hd with
    | refused => exact List.Subset.refl _
    | delivered _ _ hl | notDelivered _ _ hl =>
      show (Function.update s.micro.channels _ _ j).pendingMsgs ⊆ _
      rw [Function.update_apply]
      split
      · rename_i e
        rw [e, hl]
        exact List.subset_cons_self ..
      · exact List.Subset.refl _
    | awaited =>
      show (Function.update s.micro.channels _ _ j).pendingMsgs ⊆ _
      rw [Function.update_apply]
      split
      · rename_i e
        rw [e]
        exact List.Subset.refl _
      · exact List.Subset.refl _
  obtain rfl : j = i := hq.one j i p (hsub hj) hi
  exact hi' hj

/-- A message that has been delivered is never answered. -/
structure Unanswered (s : Machine) (p : ℕ) (pm : PendingMsg) : Prop where
  /-- Its slot is in use, and as it was. -/
  slot : s.micro.pendingMsgs p = pm
  used : pm.used = true
  /-- No connection leads to it. -/
  noReply : ¬ s.micro.ReplyPossible p
  /-- A reply finds another message or none, and leaves the slot as it is. -/
  reply : ∀ cap reply n s', s.step (.syscall (.msgReply cap reply n)) = some s' →
    (∀ t j, s.userTask = some t → s.micro.capConnection t cap capSignal = some j → s.micro.found j ≠ some p) ∧
    s'.micro.pendingMsgs p = pm

/-- **No reply ever finds a message that has been delivered**: from the delivery on, its slot is in use for
good. Its sender is blocked for good, in runs in which nobody in the tables is suspended or deleted. -/
theorem delivered_unanswered (h : run step init as = some s)
    (hr : s.step (.syscall (.msgReceive cap msg capacity)) = some s₁)
    (hi : p ∈ (s.micro.channels i).pendingMsgs) (hi' : p ∉ (s₁.micro.channels i).pendingMsgs)
    (h₂ : run step s₁ bs = some s₂) :
    Unanswered s₂ p (s.micro.pendingMsgs p) ∧
    (Path (Next step) SparesNamed init (as ++ .syscall (.msgReceive cap msg capacity) :: bs) s₂ →
      ∃ u, (s.micro.pendingMsgs p).sender = some u ∧ (s₂.core.tasks u).state = .blocked ∧
        (s₂.core.tasks u).wait = some (.msgSend p)) := by
  obtain ⟨ht₁, e₁⟩ := taken_of_receive (queues_run h) hr hi hi'
  obtain ⟨ht₂, e₂⟩ := taken_run ht₁ h₂
  have e : s₂.micro.pendingMsgs p = s.micro.pendingMsgs p := e₂.trans e₁
  refine ⟨⟨e, e ▸ ht₂.used, ht₂.not_replyPossible, fun cap reply n s₃ h₃ => ⟨fun _ j _ _ => ht₂.found_ne j, ?_⟩⟩,
    fun hp => ?_⟩
  · exact (taken_step ht₂ h₃).2.trans e
  · obtain ⟨u, hs, -, hb, hw⟩ := (noneStale_of_path hp).1.sender p ht₂.used
    exact ⟨u, e ▸ hs, hb, hw⟩

end Machine

end Aixos

namespace Aixos.Machine

open Transition Aixos.Core

attribute [local instance] Config.default

/-- Task 1 receives the message that task 2 has sent, of four bytes. -/
def messageReceived : List Action := receiverWoken ++ [.syscall (.msgReceive 0 4096 16)]

theorem messageReceived_unanswered : ∃ s, run step init messageReceived = some s ∧
    (s.core.tasks 2).wait = some (.msgSend 0) ∧ Unanswered s 0 (s.micro.pendingMsgs 0) := by
  obtain ⟨s, s₁, h, hr, hp⟩ := exists_run_step step init receiverWoken (.syscall (.msgReceive 0 4096 16)) (fun s s₁ =>
    decide (0 ∈ (s.micro.channels 0).pendingMsgs ∧ 0 ∉ (s₁.micro.channels 0).pendingMsgs ∧
      (s₁.core.tasks 2).wait = some (.msgSend 0))) (by decide +kernel)
  obtain ⟨hi, hi', hw⟩ := of_decide_eq_true hp
  have h₁ : run step s₁ [] = some s₁ := rfl
  have hu := (delivered_unanswered h hr hi hi' h₁).1
  refine ⟨s₁, ?_, hw, hu.slot ▸ hu⟩
  rw [messageReceived, run_append, h]
  simp [run, hr]

/-- Task 1 then replies on the connection of the message; the reply finds no message, and task 2 stays blocked. -/
theorem messageReceived_notFound : ∃ s s', run step init messageReceived = some s ∧
    s.ret 1 = some (.code 4) ∧ s.micro.capConnection 1 3 capSignal = some 1 ∧
    (s.micro.pendingMsgs 0).senderConnIdx = 1 ∧ (s.micro.connections 1).used = true ∧
    s.step (.syscall (.msgReply 3 4096 4)) = some s' ∧ s'.ret 1 = some (.code Code.notFound) ∧
    (s'.core.tasks 2).wait = some (.msgSend 0) ∧ (s'.micro.pendingMsgs 0).used = true := by
  obtain ⟨s, s', h, hs, hp⟩ := exists_run_step step init messageReceived (.syscall (.msgReply 3 4096 4)) (fun s s' =>
    decide (s.ret 1 = some (.code 4) ∧ s.micro.capConnection 1 3 capSignal = some 1 ∧
      (s.micro.pendingMsgs 0).senderConnIdx = 1 ∧ (s.micro.connections 1).used = true ∧
      s'.ret 1 = some (.code Code.notFound) ∧ (s'.core.tasks 2).wait = some (.msgSend 0) ∧
      (s'.micro.pendingMsgs 0).used = true)) (by decide +kernel)
  obtain ⟨h₁, h₂, h₃, h₄, h₅, h₆, h₇⟩ := of_decide_eq_true hp
  exact ⟨s, s', h, h₁, h₂, h₃, h₄, hs, h₅, h₆, h₇⟩

end Aixos.Machine
