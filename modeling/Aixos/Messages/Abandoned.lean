import Aixos.Messages.Replies

/-!
# The parties of a channel

A task that is blocked in `sc_msg_receive` is woken through `channels[i].receiver`, and a task that is
blocked in `sc_msg_send` through the queue of a channel.

* `Traced` — the machine, with the channels that messages have been delivered from.
* `Traced.Keeps` — a step that drops no blocked task from the tables.
* `Traced.unabandoned_of_path` — in runs of such steps every blocked party is in the tables.
-/

namespace Aixos

open Transition Aixos.Core

variable [cfg : Config]

/-- The machine, and what it does not keep: the channel that a message has been delivered from, while its
slot is in use. -/
structure Traced where
  machine : Machine
  deliveredFrom : ℕ → Option ℕ

namespace Micro

variable {m : Micro} {t : TaskId} {cap : ℤ} {msg n reply capacity : ℕ}

/-- What `sc_msg_send` checks besides its capability and its connection. -/
def SendFails (m : Micro) (t : TaskId) (msg msgSize reply replyCapacity : ℕ) : Prop :=
  msgSize = 0 ∨ syncMsgMaxSize < msgSize ∨ m.freePendingMsg = none ∨ m.copyFromUser t msg msgSize = none ∨
    0 < replyCapacity ∧ m.userMemoryCheck t reply replyCapacity true = false

theorem scMsgSend_failed (h : SendFails m t msg n reply capacity) :
    (m.scMsgSend t cap msg n reply capacity).1 = m ∧ (m.scMsgSend t cap msg n reply capacity).2 < 0 := by
  unfold scMsgSend
  split
  · exact ⟨rfl, (by decide : Code.perm < 0)⟩
  · split
    · exact ⟨rfl, (by decide : Code.inval < 0)⟩
    · split
      · exact ⟨rfl, (by decide : Code.inval < 0)⟩
      · rename_i hn
        split
        · exact ⟨rfl, (by decide : Code.nomem < 0)⟩
        · rename_i p hp
          split
          · exact ⟨rfl, (by decide : Code.fault < 0)⟩
          · rename_i bytes hb
            split
            · exact ⟨rfl, (by decide : Code.fault < 0)⟩
            · rename_i hc
              rcases h with h | h | h | h | h
              · exact absurd (.inl h) hn
              · exact absurd (.inr h) hn
              · rw [hp] at h
                cases h
              · rw [hb] at h
                cases h
              · exact absurd ⟨h.1, by rw [h.2]; rfl⟩ hc

/-- What `sc_msg_receive` checks besides its capability and its channel. -/
def ReceiveFails (m : Micro) (t : TaskId) (msg capacity : ℕ) : Prop :=
  capacity = 0 ∨ m.userMemoryCheck t msg capacity true = false

theorem scMsgReceive_failed (h : ReceiveFails m t msg capacity) : (m.scMsgReceive t cap msg capacity).1 = m := by
  unfold scMsgReceive
  split
  · rfl
  · split
    · rfl
    · split
      · rfl
      · rename_i hc
        rw [if_pos (by rw [h.resolve_left hc]; rfl)]

end Micro

namespace Machine

variable {s s' : Machine} {x : Syscall} {t : TaskId} {i p : ℕ}

theorem micro_of_syscall (ht : s.userTask = some t) (h : s.step (.syscall x) = some s') :
    s'.micro = (s.micro.dispatch t x).1 := by
  simp only [step, ht] at h
  split at h
  · cases h
  · cases h
    rfl

/-- The channel that the step delivers message `p` from. -/
def delivers (s : Machine) (a : Action) (s' : Machine) (p : ℕ) : Option ℕ :=
  match a, s.userTask with
  | .syscall (.msgReceive cap _ _), some t =>
    match s.micro.capChannel t cap capRead with
    | some i =>
      if p ∈ (s.micro.channels i).pendingMsgs ∧ p ∉ (s'.micro.channels i).pendingMsgs ∧
        s'.ret t ≠ some (.code Code.fault) then some i else none
    | none => none
  | _, _ => none

/-- A system call by another task can end the wait of task `t`: a send finds it as the receiver, or a reply
finds its message. -/
def Wakeable (s : Machine) (t : TaskId) : Prop :=
  (∃ i, (s.core.tasks t).wait = some (.msgReceive i) ∧ (s.micro.channels i).used = true ∧
    (s.micro.channels i).receiver = some t) ∨
  ∃ i p, (s.core.tasks t).wait = some (.msgSend p) ∧ (s.micro.channels i).used = true ∧
    p ∈ (s.micro.channels i).pendingMsgs ∧ (s.micro.pendingMsgs p).sender = some t

/-- What a system call does to the waits of the tasks. -/
structure CallWakes (s s' : Machine) : Prop where
  /-- A message that is queued on a channel wakes its receiver. -/
  receiver : ∀ i p t w, p ∉ (s.micro.channels i).pendingMsgs → p ∈ (s'.micro.channels i).pendingMsgs →
    (s.micro.channels i).receiver = some t → (s.core.tasks t).wait = some w → (s'.core.tasks t).wait = none
  /-- A reply wakes the sender of the message it answers. -/
  sender : ∀ p t, (s.micro.pendingMsgs p).used = true → (s'.micro.pendingMsgs p).used = false →
    (s.micro.pendingMsgs p).sender = some t → (s'.core.tasks t).wait = none
  /-- Nobody else is woken. -/
  only : ∀ t w, (s.core.tasks t).wait = some w → (s'.core.tasks t).wait ≠ some w →
    (∃ i, (s.micro.channels i).receiver = some t) ∨
      ∃ i p, p ∈ (s.micro.channels i).pendingMsgs ∧ (s.micro.pendingMsgs p).sender = some t

theorem callWakes (hk : Ok s) (h : s.step (.syscall x) = some s') : CallWakes s s' := by
  obtain ⟨t, r, ht, hd, -, -⟩ := step_syscall h
  obtain ⟨hcur, hst⟩ := userTask_runs ht
  have hself : (s.core.tasks t).wait = none := hk.sound.wf.wait_eq_none_of_isReady (.inr hst)
  have hne : ∀ {u w}, (s.core.tasks u).wait = some w → u ≠ t := by
    rintro u w hw rfl
    rw [hself] at hw
    cases hw
  -- a call that wakes nobody and frees no slot
  have quiet : s'.core = s.core → s'.micro.pendingMsgs = s.micro.pendingMsgs →
      (∀ i, (s'.micro.channels i).pendingMsgs ⊆ (s.micro.channels i).pendingMsgs) → CallWakes s s' := by
    refine fun hc hp hl => ⟨fun i p u w hn hm => absurd (hl i hm) hn, fun p u hu hf => ?_, fun u w hw hch => ?_⟩
    · rw [hp, hu] at hf
      cases hf
    · exact absurd (hc ▸ hw) hch
  generalize hm' : s'.micro = m' at hd
  have hupd : ∀ {i d}, m'.channels = Function.update s.micro.channels i d → d.pendingMsgs ⊆ (s.micro.channels i).pendingMsgs →
      ∀ j, (s'.micro.channels j).pendingMsgs ⊆ (s.micro.channels j).pendingMsgs := by
    intro i d hc hl j
    rw [hm', hc, Function.update_apply]
    split
    · rename_i e
      exact e ▸ hl
    · exact List.Subset.refl _
  cases hd with
  | refused => exact quiet (by rw [core, hm']) (by rw [hm']) fun i => by rw [hm']; exact List.Subset.refl _
  | capClosed | notConnected | connected | disconnected =>
    exact quiet (by rw [core, hm']; rfl) (by rw [hm']; rfl) fun i => by rw [hm']; exact List.Subset.refl _
  | created | notCreated => exact quiet (by rw [core, hm']; rfl) (by rw [hm']; rfl) (hupd rfl (List.nil_subset _))
  | destroyed => exact quiet (by rw [core, hm']; rfl) (by rw [hm']; rfl) (hupd rfl (List.Subset.refl _))
  | delivered _ _ hl | notDelivered _ _ hl =>
    refine quiet (by rw [core, hm']; rfl) (by rw [hm']; rfl) (hupd rfl ?_)
    rw [hl]
    exact List.subset_cons_self ..
  | notAnswered => exact quiet (by rw [core, hm']; rfl) (by rw [hm']; rfl) (hupd rfl List.erase_subset)
  | @sent _ _ _ _ _ j p pm _ _ hf hu =>
    have hq : s.micro.Queued s'.micro t p (s.micro.connections j).chIdx pm := by
      rw [hm']
      exact Micro.queued hk.sound hcur hst
    refine ⟨fun i q u w hn hm hr hw => ?_, fun q u hu' hf' => ?_, fun u w hw hch => .inl ⟨(s.micro.connections j).chIdx, ?_⟩⟩
    · have hi : i = (s.micro.connections j).chIdx := by
        by_contra hi
        rw [hq.channels, Function.update_of_ne hi] at hm
        exact hn hm
      exact hq.receiver u (hne hw) (hi ▸ hr)
    · rw [hq.pendingMsgs, Function.update_apply] at hf'
      split at hf'
      · rw [hu] at hf'
        cases hf'
      · rw [hu'] at hf'
        cases hf'
    · by_contra hr
      exact hch ((hq.other u (hne hw) hr).1.trans hw)
  | @awaited _ _ _ i =>
    have hq : s.micro.Awaits s'.micro t i := by
      rw [hm']
      exact Micro.awaits hk.sound hcur hst
    refine ⟨fun j q u w hn hm => ?_, fun q u hu' hf' => ?_, fun u w hw hch => ?_⟩
    · exact absurd (hupd rfl (List.Subset.refl _) j hm) hn
    · rw [hq.pendingMsgs, hu'] at hf'
      cases hf'
    · exact absurd ((hq.other u (hne hw)).1.trans hw) hch
  | @answered _ _ _ j p memory _ _ hf =>
    have ha : Micro.Answers { s.micro.unqueue (s.micro.connections j).chIdx p with memory := memory } s'.micro p := by
      rw [hm']
      exact Micro.answers (m := { s.micro.unqueue (s.micro.connections j).chIdx p with memory := memory }) hk.sound p
    refine ⟨fun i q u w hn hm => ?_, fun q u hu' hf' hs => ?_,
      fun u w hw hch => .inr ⟨_, p, (Micro.found_eq hf).1, ?_⟩⟩
    · rw [hm'] at hm
      exact absurd (hm' ▸ hupd (Micro.replyWake_tables ..).1 List.erase_subset i) fun hl => hn (hl hm)
    · have e : q = p := by
        by_contra e
        rw [ha.pendingMsgs, Function.update_of_ne e] at hf'
        exact Bool.false_ne_true (hf'.symm.trans hu')
      exact ha.sender u (e ▸ hs)
    · by_contra hr
      exact hch ((ha.other u hr).1.trans hw)

end Machine

namespace Traced

variable {g g' : Traced} {a : Action} {as : List Action} {t u : TaskId} {i j p : ℕ}

/-- Before anything is created. -/
def init : Traced where
  machine := .init
  deliveredFrom := fun _ => none

/-- One step. -/
def step (g : Traced) (a : Action) : Option Traced :=
  (g.machine.step a).map fun s =>
    { machine := s
      deliveredFrom := fun p =>
        if (s.micro.pendingMsgs p).used then (g.machine.delivers a s p).or (g.deliveredFrom p) else none }

/-- Task `t` is the receiver of channel `i`, which is in use. -/
def HasReceiver (g : Traced) (t : TaskId) (i : ℕ) : Prop :=
  (g.machine.micro.channels i).used = true ∧ (g.machine.micro.channels i).receiver = some t

/-- Message `p` of task `t` is queued on a channel in use, or has been delivered from one. -/
def HasMessage (g : Traced) (t : TaskId) (p : ℕ) : Prop :=
  (g.machine.micro.pendingMsgs p).used = true ∧ (g.machine.micro.pendingMsgs p).sender = some t ∧
    ∃ i, (g.machine.micro.channels i).used = true ∧
      (p ∈ (g.machine.micro.channels i).pendingMsgs ∨ g.deliveredFrom p = some i)

/-- Every task that is blocked for a message or for a reply is in the tables. -/
structure Unabandoned (g : Traced) : Prop where
  receiver : ∀ t i, (g.machine.core.tasks t).wait = some (.msgReceive i) → HasReceiver g t i
  sender : ∀ t p, (g.machine.core.tasks t).wait = some (.msgSend p) → HasMessage g t p

/-- The system call of task `t` drops no blocked task from the tables. -/
def KeepsCall (g : Traced) (t : TaskId) : Syscall → Prop
  -- nobody is blocked on the channel that is destroyed
  | .channelDestroy cap => ∀ i, g.machine.micro.capChannel t cap capControl = some i →
      (g.machine.micro.channels i).used = true → ∀ u, (g.machine.core.tasks u).wait ≠ some (.msgReceive i) ∧
        ∀ p, (g.machine.core.tasks u).wait = some (.msgSend p) →
          p ∉ (g.machine.micro.channels i).pendingMsgs ∧ g.deliveredFrom p ≠ some i
  -- the channel of the connection is in use, if a message is queued
  | .msgSend cap msg n reply capacity => ∀ j, g.machine.micro.capConnection t cap capWrite = some j →
      (g.machine.micro.connections j).used = true →
      (g.machine.micro.channels (g.machine.micro.connections j).chIdx).used = true ∨
        g.machine.micro.SendFails t msg n reply capacity
  -- nobody waits on the channel, or the message that is taken off its queue can be copied
  | .msgReceive cap msg capacity => ∀ i, g.machine.micro.capChannel t cap capRead = some i →
      (g.machine.micro.channels i).used = true → ¬ g.machine.micro.ReceiveFails t msg capacity →
      ((g.machine.micro.channels i).pendingMsgs = [] →
        ∀ u, (g.machine.core.tasks u).wait ≠ some (.msgReceive i)) ∧
      ∀ p rest u, (g.machine.micro.channels i).pendingMsgs = p :: rest →
        (g.machine.core.tasks u).wait = some (.msgSend p) →
        g.machine.micro.userMemoryCheck t msg ((g.machine.micro.pendingMsgs p).msg.take capacity).length true = true
  -- the reply to the message that is found can be copied
  | .msgReply cap reply n => ∀ j p bytes u, g.machine.micro.capConnection t cap capSignal = some j →
      g.machine.micro.found j = some p → (g.machine.core.tasks u).wait = some (.msgSend p) →
      g.machine.micro.copyFromUser t reply n = some bytes →
      g.machine.micro.replyCopy (g.machine.micro.pendingMsgs p) bytes ≠ none
  | _ => True

/-- The step drops no blocked task from the tables; and the start is clean. -/
structure Keeps (g : Traced) (a : Action) : Prop where
  clean : Machine.StartsClean g.machine a
  call : ∀ t x, g.machine.userTask = some t → a = .syscall x → KeepsCall g t x

/-- What is known of every state of a run that drops nobody. -/
structure Kept (g : Traced) : Prop where
  ok : Machine.Ok g.machine
  queues : g.machine.micro.Queues
  taken : ∀ p i, g.deliveredFrom p = some i → g.machine.micro.Taken p
  parties : Unabandoned g

theorem step_eq (h : g.step a = some g') : g.machine.step a = some g'.machine ∧ ∀ p, g'.deliveredFrom p =
    if (g'.machine.micro.pendingMsgs p).used then (g.machine.delivers a g'.machine p).or (g.deliveredFrom p) else none := by
  obtain ⟨s, hs, rfl⟩ := Option.map_eq_some_iff.mp h
  exact ⟨hs, fun _ => rfl⟩

theorem delivers_eq_some {s s' : Machine} (h : s.delivers a s' p = some i) : ∃ cap msg capacity,
    a = .syscall (.msgReceive cap msg capacity) ∧ p ∈ (s.micro.channels i).pendingMsgs ∧
      p ∉ (s'.micro.channels i).pendingMsgs := by
  unfold Machine.delivers at h
  split at h
  · split at h
    · split at h
      · rename_i hp
        cases h
        exact ⟨_, _, _, rfl, hp.1, hp.2.1⟩
      · cases h
    · cases h
  · cases h

/-- A message that has been delivered stays so. -/
theorem deliveredFrom_step (hk : Kept g) (h : g.step a = some g') (hp : g.deliveredFrom p = some i) :
    g'.deliveredFrom p = some i := by
  obtain ⟨hs, he⟩ := step_eq h
  have ht := hk.taken p i hp
  have hn : g.machine.delivers a g'.machine p = none := by
    cases hd : g.machine.delivers a g'.machine p with
    | none => rfl
    | some j =>
      obtain ⟨-, -, -, -, hj, -⟩ := delivers_eq_some hd
      exact absurd hj (ht.unqueued j)
  rw [he p, if_pos (Machine.taken_step ht hs).1.used, hn, hp]
  rfl

theorem taken_step (hk : Kept g) (h : g.step a = some g') (hp : g'.deliveredFrom p = some i) :
    g'.machine.micro.Taken p := by
  obtain ⟨hs, he⟩ := step_eq h
  rw [he p] at hp
  split at hp
  · rcases Option.or_eq_some_iff.mp hp with hd | ⟨-, hd⟩
    · obtain ⟨cap, msg, capacity, rfl, hi, hi'⟩ := delivers_eq_some hd
      exact (Machine.taken_of_receive hk.queues hs hi hi').1
    · exact (Machine.taken_step (hk.taken p i hd) hs).1
  · cases hp

/-- What a step that changes one channel has to keep. -/
theorem Unabandoned.update (hk : Kept g) (h : g.step a = some g') {d : Channel}
    (hc : g'.machine.micro.channels = Function.update g.machine.micro.channels i d)
    (hr : ∀ t, (g'.machine.core.tasks t).wait = some (.msgReceive i) → d.used = true ∧ d.receiver = some t)
    (ho : ∀ t j, j ≠ i → (g'.machine.core.tasks t).wait = some (.msgReceive j) →
      (g.machine.core.tasks t).wait = some (.msgReceive j))
    (hs : ∀ t p, (g'.machine.core.tasks t).wait = some (.msgSend p) → HasMessage g' t p ∨
      (g.machine.core.tasks t).wait = some (.msgSend p) ∧
      g'.machine.micro.pendingMsgs p = g.machine.micro.pendingMsgs p ∧
      ((g.machine.micro.channels i).used = true →
        p ∈ (g.machine.micro.channels i).pendingMsgs ∨ g.deliveredFrom p = some i →
        d.used = true ∧ (p ∈ d.pendingMsgs ∨ g'.deliveredFrom p = some i))) : Unabandoned g' where
  receiver t j hw := by
    unfold HasReceiver
    rw [hc, Function.update_apply]
    split
    · rename_i e
      exact hr t (e ▸ hw)
    · rename_i hne
      exact hk.parties.receiver t j (ho t j hne hw)
  sender t p hw := by
    rcases hs t p hw with hm | ⟨hw, hp, hi⟩
    · exact hm
    · obtain ⟨hu, ht, j, hj, hq⟩ := hk.parties.sender t p hw
      refine ⟨hp ▸ hu, hp ▸ ht, j, ?_⟩
      rw [hc, Function.update_apply]
      split
      · rename_i e
        exact e ▸ hi (e ▸ hj) (e ▸ hq)
      · exact ⟨hj, hq.imp_right (deliveredFrom_step hk h)⟩

/-- The waits and the tables are the same. -/
theorem Unabandoned.same (hk : Kept g) (h : g.step a = some g')
    (hw : ∀ t w, (g'.machine.core.tasks t).wait = some w → w.isMsg = true → (g.machine.core.tasks t).wait = some w)
    (hc : g'.machine.micro.channels = g.machine.micro.channels)
    (hp : g'.machine.micro.pendingMsgs = g.machine.micro.pendingMsgs) : Unabandoned g' := by
  refine .update (i := 0) (d := g.machine.micro.channels 0) hk h (by rw [hc, Function.update_eq_self]) (fun t e => ?_)
    (fun t j _ e => hw t _ e rfl) fun t p e => .inr ⟨hw t _ e rfl, congrFun hp p, fun hu hq => ⟨hu, ?_⟩⟩
  · exact hk.parties.receiver t 0 (hw t _ e rfl)
  · exact hq.imp_right (deliveredFrom_step hk h)

/-- What `sc_msg_receive` has copied has been delivered. -/
theorem deliveredFrom_of_receive {cap : ℤ} {msg capacity : ℕ} {rest : List ℕ} (hk : Kept g)
    (h : g.step (.syscall (.msgReceive cap msg capacity)) = some g') (ht : g.machine.userTask = some t)
    (hi : g.machine.micro.capChannel t cap capRead = some i)
    (hl : (g.machine.micro.channels i).pendingMsgs = p :: rest)
    (hp : g'.machine.micro.pendingMsgs = g.machine.micro.pendingMsgs)
    (hl' : (g'.machine.micro.channels i).pendingMsgs = rest) (hr : g'.machine.ret t ≠ some (.code Code.fault)) :
    g'.deliveredFrom p = some i := by
  have hin : p ∈ (g.machine.micro.channels i).pendingMsgs := by
    rw [hl]
    exact List.mem_cons_self ..
  have hnot : p ∉ (g'.machine.micro.channels i).pendingMsgs := by
    have := hk.queues.once i
    rw [hl] at this
    rw [hl']
    exact (List.nodup_cons.mp this).1
  have hd : g.machine.delivers (.syscall (.msgReceive cap msg capacity)) g'.machine p = some i := by
    unfold Machine.delivers
    rw [ht]
    dsimp only
    rw [hi]
    exact if_pos ⟨hin, hnot, hr⟩
  rw [(step_eq h).2 p, hp, if_pos (hk.queues.used i p hin), hd]
  rfl

/-- A message that is sent on a channel in use: its receiver no longer waits, and its sender is in the queue. -/
theorem unabandoned_sent {pm : PendingMsg} (hk : Kept g) (h : g.step a = some g')
    (hq : g.machine.micro.Queued g'.machine.micro t p i pm) (hf : g.machine.micro.freePendingMsg = some p)
    (hu : pm.used = true) (hs : pm.sender = some t) (hi : (g.machine.micro.channels i).used = true) :
    Unabandoned g' := by
  have hself : ∀ {w}, (g'.machine.core.tasks t).wait = some w → w = .msgSend p := fun hw =>
    Option.some.inj (hw.symm.trans hq.self)
  -- the others who still wait are not the receiver
  have hold : ∀ u w, u ≠ t → (g'.machine.core.tasks u).wait = some w →
      (g.machine.micro.channels i).receiver ≠ some u ∧ (g.machine.core.tasks u).wait = some w := by
    intro u w hne hw
    have hr : (g.machine.micro.channels i).receiver ≠ some u := by
      intro e
      rw [Machine.core, hq.receiver u hne e] at hw
      cases hw
    exact ⟨hr, (hq.other u hne hr).1.symm.trans hw⟩
  refine .update hk h hq.channels (fun u e => ?_) (fun u j hne e => ?_) fun u q e => ?_
  · have hne : u ≠ t := by
      rintro rfl
      cases hself e
    obtain ⟨hr, hw⟩ := hold u _ hne e
    exact absurd (hk.parties.receiver u _ hw).2 hr
  · refine (hold u _ ?_ e).2
    rintro rfl
    cases hself e
  · by_cases hut : u = t
    · cases hut
      cases hself e
      refine .inl ⟨?_, ?_, i, ?_, .inl ?_⟩
      · rw [hq.pendingMsgs, Function.update_self]
        exact hu
      · rw [hq.pendingMsgs, Function.update_self]
        exact hs
      · rw [hq.channels, Function.update_self]
        exact hi
      · rw [hq.channels, Function.update_self]
        exact List.mem_append_right _ (List.mem_singleton_self p)
    · obtain ⟨-, hw⟩ := hold u _ hut e
      have hne : q ≠ p := by
        rintro rfl
        exact Bool.false_ne_true ((Micro.freePendingMsg_eq hf).1.symm.trans (hk.parties.sender u q hw).1)
      refine .inr ⟨hw, by rw [hq.pendingMsgs, Function.update_of_ne hne], fun hu hmem => ⟨hu, ?_⟩⟩
      exact hmem.imp (List.mem_append_left _) (deliveredFrom_step hk h)

/-- A task that waits on a channel in use, where nobody else does. -/
theorem unabandoned_awaited (hk : Kept g) (h : g.step a = some g')
    (hq : g.machine.micro.Awaits g'.machine.micro t i) (hu : (g.machine.micro.channels i).used = true)
    (hn : ∀ u, (g.machine.core.tasks u).wait ≠ some (.msgReceive i)) : Unabandoned g' := by
  have hself : ∀ {w}, (g'.machine.core.tasks t).wait = some w → w = .msgReceive i := fun hw =>
    Option.some.inj (hw.symm.trans hq.self)
  have hold : ∀ u w, w ≠ .msgReceive i → (g'.machine.core.tasks u).wait = some w →
      (g.machine.core.tasks u).wait = some w := by
    intro u w hne hw
    have hut : u ≠ t := by
      rintro rfl
      exact hne (hself hw)
    exact (hq.other u hut).1.symm.trans hw
  refine .update hk h hq.channels (fun u e => ⟨hu, ?_⟩) (fun u j hne e => hold u _ (by simpa using hne) e)
    fun u p e => .inr ⟨hold u _ (by simp) e, by rw [hq.pendingMsgs],
      fun hu hmem => ⟨hu, hmem.imp_right (deliveredFrom_step hk h)⟩⟩
  by_cases hut : u = t
  · rw [hut]
  · exact absurd ((hq.other u hut).1.symm.trans e) (hn u)

/-- A message that is answered: its sender no longer waits. -/
theorem unabandoned_answered {m : Micro} (hk : Kept g) (h : g.step a = some g') (ha : m.Answers g'.machine.micro p)
    (hm : m.core = g.machine.core) (hp : m.pendingMsgs = g.machine.micro.pendingMsgs)
    (hc : m.channels = (g.machine.micro.unqueue i p).channels) : Unabandoned g' := by
  have hold : ∀ u w, (g'.machine.core.tasks u).wait = some w →
      (g.machine.micro.pendingMsgs p).sender ≠ some u ∧ (g.machine.core.tasks u).wait = some w := by
    intro u w hw
    have hr : (m.pendingMsgs p).sender ≠ some u := by
      intro e
      rw [Machine.core, ha.sender u e] at hw
      cases hw
    refine ⟨hp ▸ hr, ?_⟩
    rw [← hm]
    exact (ha.other u hr).1.symm.trans hw
  refine .update hk h (ha.channels.trans hc) (fun u e => hk.parties.receiver u _ (hold u _ e).2)
    (fun u i _ e => (hold u _ e).2) fun u q e => ?_
  obtain ⟨hr, hw⟩ := hold u _ e
  have hne : q ≠ p := by
    rintro rfl
    exact hr (hk.parties.sender u q hw).2.1
  refine .inr ⟨hw, ?_, fun hu hmem => ⟨hu, hmem.imp (List.mem_erase_of_ne hne).mpr (deliveredFrom_step hk h)⟩⟩
  rw [ha.pendingMsgs, Function.update_of_ne hne, hp]

theorem unabandoned_step (hk : Kept g) (hc : Keeps g a) (h : g.step a = some g') : Unabandoned g' := by
  have hm := (step_eq h).1
  rcases Machine.step_tables hm with ⟨b, rfl⟩ | ⟨x, rfl⟩ | hsame
  · obtain ⟨k, hstep, e⟩ := Machine.step_native hm
    refine .same hk h (fun t w hw hi => ?_) (by rw [e]; rfl) (by rw [e]; rfl)
    rw [e] at hw
    exact (Sys.msgWait_back hk.ok.sound hk.ok.untimed hstep).1 t w hw hi
  · obtain ⟨t, r, ht, hd, -, hret⟩ := Machine.step_syscall hm
    obtain ⟨hcur, hst⟩ := Machine.userTask_runs ht
    have hcall := hc.call t x ht rfl
    generalize hm' : g'.machine.micro = m' at hd
    have hcore : m'.core = g.machine.core → ∀ u w, (g'.machine.core.tasks u).wait = some w →
        (g.machine.core.tasks u).wait = some w := by
      intro e u w hw
      rw [Machine.core, hm'] at hw
      rw [← e]
      exact hw
    -- a call that one of these checks refuses
    have hself (e : m' = g.machine.micro) : Unabandoned g' :=
      .same hk h (fun u w hw _ => hcore (by rw [e]) u w hw) (by rw [hm', e]) (by rw [hm', e])
    have hdispatch : m' = (g.machine.micro.dispatch t x).1 := by
      rw [← hm']
      exact Machine.micro_of_syscall ht hm
    cases hd with
    | refused => exact .same hk h (fun u w hw _ => hcore rfl u w hw) (by rw [hm']) (by rw [hm'])
    | capClosed | notConnected | connected | disconnected =>
      exact .same hk h (fun u w hw _ => hcore rfl u w hw) (by rw [hm']; rfl) (by rw [hm']; rfl)
    | created hi | notCreated hi =>
      have hi := (Micro.freeChannel_eq hi).1
      refine .update hk h (by rw [hm']; rfl) (fun u e => ?_) (fun u j _ e => hcore rfl u _ e)
        fun u p e => .inr ⟨hcore rfl u _ e, by rw [hm']; rfl, fun hu => ?_⟩
      · exact absurd (hk.parties.receiver u _ (hcore rfl u _ e)).1 (by rw [hi]; decide)
      · exact absurd hu (by rw [hi]; decide)
    | destroyed hi hu =>
      refine .update hk h (by rw [hm']; rfl) (fun u e => ?_) (fun u j _ e => hcore rfl u _ e)
        fun u p e => .inr ⟨hcore rfl u _ e, by rw [hm']; rfl, fun _ hq => ?_⟩
      · exact absurd (hcore rfl u _ e) (hcall _ hi hu u).1
      · obtain ⟨h₁, h₂⟩ := (hcall _ hi hu u).2 p (hcore rfl u _ e)
        exact absurd hq (not_or.mpr ⟨h₁, h₂⟩)
    | @sent _ _ _ _ _ j p pm hj hju hf hu hs =>
      have hq : Micro.Queued g.machine.micro g'.machine.micro t p (g.machine.micro.connections j).chIdx pm := by
        rw [hm']
        exact Micro.queued hk.ok.sound hcur hst
      rcases hcall j hj hju with hi | hfails
      · exact unabandoned_sent hk h hq hf hu hs hi
      · exact hself (hdispatch.trans (Micro.scMsgSend_failed hfails).1)
    | @delivered cap msg capacity i p n rest memory hi hu hl =>
      have hp : g'.deliveredFrom p = some i := by
        refine deliveredFrom_of_receive hk h ht hi hl (by rw [hm']; rfl) ?_ ?_
        · rw [hm']
          show (Function.update g.machine.micro.channels i _ i).pendingMsgs = rest
          rw [Function.update_self]
        · rw [hret, Function.update_self]
          exact fun e => by cases e
      refine .update (d := { g.machine.micro.channels i with pendingMsgs := rest }) hk h (by rw [hm']; rfl)
        (fun u e => hk.parties.receiver u i (hcore rfl u _ e)) (fun u j _ e => hcore rfl u _ e)
        fun u q e => .inr ⟨hcore rfl u _ e, by rw [hm']; rfl, fun hu hmem => ⟨hu, ?_⟩⟩
      rw [hl] at hmem
      rcases hmem with hmem | hmem
      · rcases List.mem_cons.mp hmem with rfl | hmem
        · exact .inr hp
        · exact .inl hmem
      · exact .inr (deliveredFrom_step hk h hmem)
    | @notDelivered _ msg capacity i p rest hi hu' hl hcheck =>
      by_cases hfails : g.machine.micro.ReceiveFails t msg capacity
      · exact hself (hdispatch.trans (Micro.scMsgReceive_failed hfails))
      refine .update (d := { g.machine.micro.channels i with pendingMsgs := rest }) hk h (by rw [hm']; rfl)
        (fun u e => hk.parties.receiver u i (hcore rfl u _ e)) (fun u j _ e => hcore rfl u _ e)
        fun u q e => .inr ⟨hcore rfl u _ e, by rw [hm']; rfl, fun hu hmem => ⟨hu, ?_⟩⟩
      refine hmem.imp (fun hmem => ?_) (deliveredFrom_step hk h)
      rw [hl] at hmem
      rcases List.mem_cons.mp hmem with rfl | hmem
      · exact absurd ((hcall i hi hu' hfails).2 q rest u hl (hcore rfl u _ e)) (by rw [hcheck]; decide)
      · exact hmem
    | @awaited _ msg capacity i hi hu hl =>
      by_cases hfails : g.machine.micro.ReceiveFails t msg capacity
      · exact hself (hdispatch.trans (Micro.scMsgReceive_failed hfails))
      have hq : Micro.Awaits g.machine.micro g'.machine.micro t i := by
        rw [hm']
        exact Micro.awaits hk.ok.sound hcur hst
      exact unabandoned_awaited hk h hq hu ((hcall i hi hu hfails).1 hl)
    | @answered _ _ _ j p memory =>
      have ha : Micro.Answers { g.machine.micro.unqueue (g.machine.micro.connections j).chIdx p with memory := memory }
          g'.machine.micro p := by
        rw [hm']
        exact Micro.answers
          (m := { g.machine.micro.unqueue (g.machine.micro.connections j).chIdx p with memory := memory }) hk.ok.sound p
      exact unabandoned_answered hk h ha rfl rfl rfl
    | @notAnswered _ _ _ j p bytes hj hju hf hb hcopy =>
      refine .update (d := { g.machine.micro.channels _ with pendingMsgs := List.erase _ p }) hk h (by rw [hm']; rfl)
        (fun u e => hk.parties.receiver u _ (hcore rfl u _ e)) (fun u i _ e => hcore rfl u _ e)
        fun u q e => .inr ⟨hcore rfl u _ e, by rw [hm']; rfl, fun hu hmem => ⟨hu, ?_⟩⟩
      have hne : q ≠ p := by
        rintro rfl
        exact hcall j q bytes u hj hf (hcore rfl u _ e) hb hcopy
      exact hmem.imp (List.mem_erase_of_ne hne).mpr (deliveredFrom_step hk h)
  · have e : g'.machine.core = g.machine.core := congrArg Kernel.core hsame.kernel
    refine .same hk h (fun t w hw _ => ?_) hsame.channels hsame.pendingMsgs
    rw [e] at hw
    exact hw

theorem kept_step (hk : Kept g) (hc : Keeps g a) (h : g.step a = some g') : Kept g' where
  ok := Machine.ok_step hk.ok hc.clean (step_eq h).1
  queues := Machine.queues_step hk.queues (step_eq h).1
  taken _ _ hp := taken_step hk h hp
  parties := unabandoned_step hk hc h

theorem kept_init : Kept init where
  ok := Machine.ok_init
  queues := Machine.queues_init
  taken _ _ h := nomatch h
  parties := ⟨fun _ _ h => (nomatch h), fun _ _ h => nomatch h⟩

/-- Who can be woken: everybody whose message has not been delivered. -/
theorem Kept.wakeable_iff {w : Wait} (hk : Kept g) (hw : (g.machine.core.tasks t).wait = some w) (hm : w.isMsg = true) :
    g.machine.Wakeable t ↔ ∀ p, w = .msgSend p → g.deliveredFrom p = none := by
  constructor
  · rintro (⟨i, hi, -⟩ | ⟨i, p, hp, -, hmem, -⟩)
    · rintro p rfl
      rw [hw] at hi
      cases hi
    · rintro q rfl
      obtain rfl : q = p := by simpa using hw.symm.trans hp
      refine Option.eq_none_iff_forall_ne_some.mpr fun j hj => ?_
      exact (hk.taken q j hj).unqueued i hmem
  · intro hd
    cases w with
    | msgReceive i =>
      obtain ⟨hu, hr⟩ := hk.parties.receiver t i hw
      exact .inl ⟨i, hw, hu, hr⟩
    | msgSend p =>
      obtain ⟨-, hs, i, hi, hq⟩ := hk.parties.sender t p hw
      exact .inr ⟨i, p, hw, hi, hq.resolve_right (by simp [hd p rfl]), hs⟩
    | _ => cases hm

/-- **Nobody is abandoned** in every run whose steps drop no blocked task from the tables; and a system call
can wake every party but the senders whose message has been delivered. -/
theorem unabandoned_of_path (hp : Path (Next step) Keeps init as g) :
    Unabandoned g ∧
    (∀ t w, (g.machine.core.tasks t).wait = some w → w.isMsg = true →
      (g.machine.Wakeable t ↔ ∀ p, w = .msgSend p → g.deliveredFrom p = none)) ∧
    ∀ x s', g.machine.step (.syscall x) = some s' → g.machine.CallWakes s' := by
  have hk : Kept g := hp.invariant (I := Kept) (fun _ _ _ hk hc h => kept_step hk hc h) kept_init
  exact ⟨hk.parties, fun t w hw hm => hk.wakeable_iff hw hm, fun x s' h => Machine.callWakes hk.ok h⟩

/-- The machine of a run makes the same run. -/
theorem run_machine (h : run step g as = some g') : run Machine.step g.machine as = some g'.machine := by
  have hp := path_iff_run.mpr h
  clear h
  induction hp with
  | nil => rfl
  | cons _ hs _ ih =>
    rw [run, (step_eq hs).1]
    exact ih

/-- A run meets what the run of its machine meets. -/
theorem path_of_machine {C : Machine → Action → Prop} (h : run step g as = some g')
    (hp : Path (Next Machine.step) C g.machine as g'.machine) : Path (Next step) (fun g a => C g.machine a) g as g' := by
  induction as generalizing g with
  | nil =>
    cases h
    exact .nil _
  | cons a as ih =>
    rw [run] at h
    obtain ⟨m, hm, h⟩ := Option.bind_eq_some_iff.mp h
    cases hp with
    | cons hc hs hp =>
      obtain rfl := Option.some.inj (hs.symm.trans (step_eq hm).1)
      exact .cons hc hm (ih h hp)

end Traced

end Aixos

namespace Aixos.Traced

open Transition Aixos.Core

attribute [local instance] Config.default

/-- User task 1 makes channel 0 and connects to it. -/
def channelConnected : List Action :=
  (Sys.boot [{ stackSize := 512, priority := 3 }, { stackSize := 512, priority := 9, userTask := true }] true).map .native ++
  [.native (.call .timerServiceWait), .native .switch, .regionAdd 1 Machine.sharedRegion, .syscall .channelCreate,
    .syscall (.connect 0)]

/-- It sends a message there; whoever replies to it wakes the task. -/
theorem channelConnected_unabandoned : ∃ g, run step init (channelConnected ++ [.syscall (.msgSend 1 4096 4 0 0)]) = some g ∧
    (g.machine.core.tasks 1).wait = some (.msgSend 0) ∧ Unabandoned g ∧ g.machine.Wakeable 1 := by
  obtain ⟨g, g', hr, hs, hp⟩ := exists_run_step step init channelConnected (.syscall (.msgSend 1 4096 4 0 0))
    (fun g g' => decide (g.machine.userTask = some 1 ∧ g.machine.micro.capConnection 1 1 capWrite = some 0 ∧
      (g.machine.micro.channels (g.machine.micro.connections 0).chIdx).used = true ∧
      (g'.machine.core.tasks 1).wait = some (.msgSend 0) ∧ g'.deliveredFrom 0 = none)) (by decide +kernel)
  obtain ⟨ht, hj, hu, hw, hd⟩ := of_decide_eq_true hp
  -- before the last step there is no condition to meet
  have hpath : Path (Next step) Keeps init channelConnected g := by
    refine (((path_of_machine hr (Machine.path_of_boot (run_machine hr))).both
      (P := fun a => ∀ g t x, a = .syscall x → KeepsCall g t x) ?_).mono fun g a ha => ⟨ha.1, fun t x _ => ha.2 g t x⟩)
    simp [channelConnected, Sys.boot, KeepsCall]
  have hkeeps : Keeps g (.syscall (.msgSend 1 4096 4 0 0)) := by
    refine ⟨by rintro _ ⟨⟩, fun t x e hx => ?_⟩
    cases hx
    obtain rfl : t = 1 := Option.some.inj (e.symm.trans ht)
    intro j e _
    obtain rfl : j = 0 := Option.some.inj (e.symm.trans hj)
    exact .inl hu
  have hpath' := hpath.append (.cons hkeeps hs (.nil g'))
  obtain ⟨hn, hwake, -⟩ := unabandoned_of_path hpath'
  refine ⟨g', hpath'.run_eq, hw, hn, (hwake 1 _ hw rfl).mpr fun p e => ?_⟩
  cases e
  exact hd

/-- Tasks 1 and 2 both wait on channel 0, and the channel only names task 2. -/
theorem awaitingReceiver_not_unabandoned : ∃ g, run step init (Machine.awaitingReceiver ++
      [.native (.call (.taskSleep 100)), .native .switch, .syscall (.msgReceive 0 4096 16)]) = some g ∧
    (g.machine.core.tasks 1).wait = some (.msgReceive 0) ∧ (g.machine.micro.channels 0).receiver = some 2 ∧
    ¬ Unabandoned g ∧ ¬ g.machine.Wakeable 1 := by
  obtain ⟨g, hr, hp⟩ := exists_run step init (Machine.awaitingReceiver ++
      [.native (.call (.taskSleep 100)), .native .switch, .syscall (.msgReceive 0 4096 16)])
    (fun g => decide ((g.machine.core.tasks 1).wait = some (.msgReceive 0) ∧
      (g.machine.micro.channels 0).receiver = some 2)) (by decide +kernel)
  obtain ⟨hw, hrec⟩ := of_decide_eq_true hp
  refine ⟨g, hr, hw, hrec, fun hn => ?_, ?_⟩
  · have := (hn.receiver 1 0 hw).2
    rw [hrec] at this
    cases this
  · rintro (⟨i, hi, -, hi'⟩ | ⟨i, p, hp, -⟩)
    · obtain rfl : i = 0 := by simpa [hw] using hi.symm
      rw [hrec] at hi'
      cases hi'
    · rw [hw] at hp
      cases hp

end Aixos.Traced
