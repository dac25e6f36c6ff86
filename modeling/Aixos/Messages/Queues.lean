import Aixos.System.Dispatch

/-!
# The queues of the channels

* `Micro.Queues` — a message that is queued has a slot of its own, and is queued once.
* `Machine.queues_step` — every step keeps this.
-/

namespace Aixos

open Transition Aixos.Core

variable [cfg : Config]

namespace Micro

variable {m m' : Micro} {t : TaskId} {i j p q : ℕ}

/-- The messages in the queues. -/
structure Queues (m : Micro) : Prop where
  /-- The slot of a message that is queued is in use. -/
  used : ∀ i p, p ∈ (m.channels i).pendingMsgs → (m.pendingMsgs p).used = true
  /-- It is queued once. -/
  once : ∀ i, (m.channels i).pendingMsgs.Nodup
  /-- It is in one queue. -/
  one : ∀ i j p, p ∈ (m.channels i).pendingMsgs → p ∈ (m.channels j).pendingMsgs → i = j

namespace Queues

omit cfg in
/-- Messages may leave the queues. -/
theorem of_sublist (h : Queues m) (hc : ∀ i, (m'.channels i).pendingMsgs.Sublist (m.channels i).pendingMsgs)
    (hp : ∀ i p, p ∈ (m'.channels i).pendingMsgs → (m'.pendingMsgs p).used = true) : Queues m' where
  used := hp
  once i := (h.once i).sublist (hc i)
  one i j p hi hj := h.one i j p ((hc i).subset hi) ((hc j).subset hj)

omit cfg in
/-- The queue of one channel may become shorter. -/
theorem update (h : Queues m) {d : Channel} (hl : d.pendingMsgs.Sublist (m.channels i).pendingMsgs)
    (hc : m'.channels = Function.update m.channels i d) (hp : m'.pendingMsgs = m.pendingMsgs) : Queues m' := by
  have hs : ∀ j, (m'.channels j).pendingMsgs.Sublist (m.channels j).pendingMsgs := by
    intro j
    rw [hc, Function.update_apply]
    split
    · rename_i e
      rw [e]
      exact hl
    · exact .refl _
  refine h.of_sublist hs fun j p hm => ?_
  rw [hp]
  exact h.used j p ((hs j).subset hm)

omit cfg in
/-- A new message may come into a queue. -/
theorem push (h : Queues m) (hf : (m.pendingMsgs p).used = false) {d : Channel} {x : PendingMsg} (hu : x.used = true)
    (hl : d.pendingMsgs = (m.channels i).pendingMsgs ++ [p]) (hc : m'.channels = Function.update m.channels i d)
    (hp : m'.pendingMsgs = Function.update m.pendingMsgs p x) : Queues m' := by
  have hnot : ∀ j, p ∉ (m.channels j).pendingMsgs := by
    intro j hj
    rw [h.used j p hj] at hf
    cases hf
  have hmem : ∀ {j q}, q ∈ (m'.channels j).pendingMsgs → q ∈ (m.channels j).pendingMsgs ∨ q = p ∧ j = i := by
    intro j q hq
    rw [hc, Function.update_apply] at hq
    split at hq
    · rename_i e
      rw [hl, List.mem_append, List.mem_singleton] at hq
      rw [e]
      exact hq.imp_right fun hq => ⟨hq, rfl⟩
    · exact .inl hq
  refine ⟨fun j q hq => ?_, fun j => ?_, fun j k q hj hk => ?_⟩
  · rw [hp, Function.update_apply]
    split
    · exact hu
    · rename_i hne
      exact h.used j q ((hmem hq).resolve_right fun e => hne e.1)
  · rw [hc, Function.update_apply]
    split
    · rw [hl]
      refine List.nodup_append.mpr ⟨h.once i, List.nodup_singleton p, fun a ha b hb => ?_⟩
      rw [List.mem_singleton.mp hb]
      rintro rfl
      exact hnot i ha
    · exact h.once j
  · rcases hmem hj with hj | ⟨rfl, rfl⟩
    · rcases hmem hk with hk | ⟨rfl, -⟩
      · exact h.one j k q hj hk
      · exact absurd hj (hnot j)
    · rcases hmem hk with hk | ⟨-, rfl⟩
      · exact absurd hk (hnot k)
      · rfl

omit cfg in
/-- A message that is answered leaves its queue, and its slot is free. -/
theorem pop (h : Queues m) (hi : p ∈ (m.channels i).pendingMsgs) {d : Channel} {x : PendingMsg}
    (hl : d.pendingMsgs = (m.channels i).pendingMsgs.erase p) (hc : m'.channels = Function.update m.channels i d)
    (hp : m'.pendingMsgs = Function.update m.pendingMsgs p x) : Queues m' := by
  have hs : ∀ j, (m'.channels j).pendingMsgs.Sublist (m.channels j).pendingMsgs := by
    intro j
    rw [hc, Function.update_apply]
    split
    · rename_i e
      rw [e, hl]
      exact List.erase_sublist
    · exact .refl _
  refine h.of_sublist hs fun j q hq => ?_
  have hq₀ := (hs j).subset hq
  have hne : q ≠ p := by
    rintro rfl
    obtain rfl : j = i := h.one j i q hq₀ hi
    rw [hc, Function.update_self, hl] at hq
    exact (h.once j).not_mem_erase hq
  rw [hp, Function.update_of_ne hne]
  exact h.used j q hq₀

end Queues

/-- **Every system call** keeps the queues. -/
theorem Dispatched.queues {x : Syscall} {r : Code} (h : Dispatched m t x m' r) (hq : Queues m) :
    Queues m' := by
  cases h with
  | refused => exact hq
  | capClosed | notConnected | connected | disconnected => exact ⟨hq.used, hq.once, hq.one⟩
  | created | notCreated => exact hq.update (d := { used := _ }) (List.nil_sublist _) rfl rfl
  | destroyed => exact hq.update (d := { m.channels _ with used := false }) (.refl _) rfl rfl
  | sent _ _ hp hu =>
    exact hq.push (freePendingMsg_eq hp).1 hu rfl (msgQueue_channels ..) (msgQueue_tables ..).1
  | delivered _ _ hl | notDelivered _ _ hl =>
    refine hq.update (d := { m.channels _ with pendingMsgs := _ }) ?_ rfl rfl
    rw [hl]
    exact List.sublist_cons_self ..
  | @awaited _ _ _ i =>
    exact hq.update (d := { m.channels i with receiver := some t }) (.refl _) rfl rfl
  | answered _ _ hm =>
    obtain ⟨hc, hp, -, -⟩ := replyWake_tables { m.unqueue (m.connections _).chIdx _ with memory := _ } _
    exact hq.pop (found_eq hm).1 rfl hc hp
  | notAnswered _ _ hm =>
    exact hq.update (d := { m.channels _ with pendingMsgs := _ }) List.erase_sublist rfl rfl

end Micro

namespace Machine

variable {s s' : Machine} {a : Action} {as : List Action}

theorem queues_step (hq : s.micro.Queues) (h : s.step a = some s') : s'.micro.Queues := by
  rcases step_tables h with ⟨b, rfl⟩ | ⟨x, rfl⟩ | hsame
  · obtain ⟨k, -, rfl⟩ := step_native h
    exact ⟨hq.used, hq.once, hq.one⟩
  · obtain ⟨t, r, ht, hd, -, -⟩ := step_syscall h
    exact hd.queues hq
  · refine ⟨fun i p hp => ?_, fun i => ?_, fun i j p hi hj => ?_⟩
    · rw [hsame.channels] at hp
      rw [hsame.pendingMsgs]
      exact hq.used i p hp
    · rw [hsame.channels]
      exact hq.once i
    · rw [hsame.channels] at hi hj
      exact hq.one i j p hi hj

omit cfg in
theorem queues_init : init.micro.Queues :=
  ⟨fun _ _ h => (nomatch h), fun _ => List.nodup_nil, fun _ _ _ h => nomatch h⟩

end Machine

end Aixos
