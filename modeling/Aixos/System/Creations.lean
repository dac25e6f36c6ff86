import Aixos.Heap.Holdings
import Aixos.Heap.Tilings
import Aixos.Kernel.Creates
import Aixos.System.Dispatch

/-!
# What a system call that fails to create leaves behind

* `ChannelTables.Linked` — the lists of channels have what is used and nothing else.
* `ChannelTables.Linked.step` — that stays so, unless a channel is destroyed with something in its lists.
* `Kernel.SamePools`, `ChannelTables.SameTables`, `Supply.Same` — nothing is left behind.
* `Supply.failed_create_leaves_nothing` — so it is after every call that fails.
-/

namespace Aixos

open Transition

namespace ChannelTables

variable [cfg : Config] {s s' : ChannelTables} {t : TaskId} {x : Syscall} {i j : ℕ}

omit cfg in
theorem ext {s s' : ChannelTables} (h : s.micro = s'.micro) (h' : s.connectionLists = s'.connectionLists) : s = s' := by
  cases s
  cases s'
  cases h
  cases h'
  rfl

/-- The lists aside, these are the calls of `Micro`. -/
theorem dispatch_micro (s : ChannelTables) (t : TaskId) (x : Syscall) :
    (s.dispatch t x).1.micro = (s.micro.dispatch t x).1 ∧ (s.dispatch t x).2 = (s.micro.dispatch t x).2 := by
  cases x with
  | channelCreate =>
    show (s.scChannelCreate t).1.micro = (s.micro.scChannelCreate t).1 ∧ (s.scChannelCreate t).2 = (s.micro.scChannelCreate t).2
    unfold scChannelCreate Micro.scChannelCreate
    cases s.micro.freeChannel with
    | none => exact ⟨rfl, rfl⟩
    | some i =>
      dsimp only
      cases (s.micro.setChannel i { used := true }).capGrant t (.channel i) (capRead ||| capWrite ||| capControl) with
      | none => exact ⟨rfl, rfl⟩
      | some r => exact ⟨rfl, rfl⟩
  | connect cap =>
    show (s.scConnect t cap).1.micro = (s.micro.scConnect t cap).1 ∧ (s.scConnect t cap).2 = (s.micro.scConnect t cap).2
    unfold scConnect Micro.scConnect
    cases s.micro.capChannel t cap capRead with
    | none => exact ⟨rfl, rfl⟩
    | some i =>
      dsimp only
      split
      · exact ⟨rfl, rfl⟩
      · cases s.micro.freeConnection with
        | none => exact ⟨rfl, rfl⟩
        | some j =>
          dsimp only
          cases (s.micro.setConnection j { used := true, chIdx := i }).capGrant t (.connection j)
            (capWrite ||| capSignal ||| capControl) with
          | none => exact ⟨rfl, rfl⟩
          | some r => exact ⟨rfl, rfl⟩
  | disconnect cap =>
    show (s.scDisconnect t cap).1.micro = (s.micro.scDisconnect t cap).1 ∧
      (s.scDisconnect t cap).2 = (s.micro.scDisconnect t cap).2
    unfold scDisconnect Micro.scDisconnect
    cases s.micro.capConnection t cap capControl with
    | none => exact ⟨rfl, rfl⟩
    | some j =>
      dsimp only
      split
      · exact ⟨rfl, rfl⟩
      · exact ⟨rfl, rfl⟩
  | capClose cap => exact ⟨rfl, rfl⟩
  | channelDestroy cap => exact ⟨rfl, rfl⟩
  | msgSend cap msg msgSize reply replyCapacity => exact ⟨rfl, rfl⟩
  | msgReceive cap msg capacity => exact ⟨rfl, rfl⟩
  | msgReply cap reply replySize => exact ⟨rfl, rfl⟩

end ChannelTables
end Aixos

namespace Aixos

open Transition

namespace ChannelTables

variable [cfg : Config] {s s' : ChannelTables} {t : TaskId} {x : Syscall} {i j : ℕ} {r : Code}

/-- How a system call that changes the lists ends. -/
inductive Relinked (s : ChannelTables) (t : TaskId) : ChannelTables → Code → Prop where
  /-- An error, and nothing has changed. -/
  | refused {r : Code} : r < 0 → Relinked s t s r
  /-- A channel is made. -/
  | created {i c : ℕ} {x : Capability} : s.micro.freeChannel = some i →
      Relinked s t
        { micro := (s.micro.setChannel i { used := true }).setCap t c (some x)
          connectionLists := Function.update s.connectionLists i [] } c
  /-- The caller has no room for its capability. -/
  | notCreated {i : ℕ} : s.micro.freeChannel = some i →
      Relinked s t
        { micro := s.micro.setChannel i {}, connectionLists := Function.update s.connectionLists i [] } Code.nomem
  /-- A connection is made. -/
  | connected {i j c : ℕ} {x : Capability} : (s.micro.channels i).used = true → s.micro.freeConnection = some j →
      Relinked s t
        { micro := (s.micro.setConnection j { used := true, chIdx := i }).setCap t c (some x)
          connectionLists := Function.update s.connectionLists i (s.connectionLists i ++ [j]) } c
  /-- The caller has no room for its capability. -/
  | notConnected {i j : ℕ} : s.micro.freeConnection = some j →
      Relinked s t
        { micro := s.micro.setConnection j { used := false, chIdx := i }
          connectionLists := Function.update s.connectionLists i ((s.connectionLists i ++ [j]).erase j) } Code.nomem
  /-- A connection is given up. -/
  | disconnected {j c : ℕ} : (s.micro.connections j).used = true →
      Relinked s t
        { micro := (s.micro.setConnection j { s.micro.connections j with used := false }).setCap t c none
          connectionLists := Function.update s.connectionLists (s.micro.connections j).chIdx
            ((s.connectionLists (s.micro.connections j).chIdx).erase j) } Code.ok

theorem scChannelCreate_cases (s : ChannelTables) (t : TaskId) :
    s.Relinked t (s.scChannelCreate t).1 (s.scChannelCreate t).2 := by
  unfold scChannelCreate
  cases hi : s.micro.freeChannel with
  | none => exact .refused (show Code.nomem < 0 by decide)
  | some i =>
    dsimp only
    cases hg : (s.micro.setChannel i { used := true }).capGrant t (.channel i) (capRead ||| capWrite ||| capControl) with
    | none =>
      have e : (s.micro.setChannel i { used := true }).setChannel i
          { (s.micro.setChannel i { used := true }).channels i with used := false } = s.micro.setChannel i {} := by
        simp [Micro.setChannel]
      dsimp only
      rw [e]
      exact .notCreated hi
    | some q =>
      obtain ⟨m, c⟩ := q
      obtain ⟨-, rfl⟩ := Micro.capGrant_eq hg
      exact .created hi

theorem scConnect_cases (s : ChannelTables) (t : TaskId) (cap : ℤ) :
    s.Relinked t (s.scConnect t cap).1 (s.scConnect t cap).2 := by
  unfold scConnect
  cases s.micro.capChannel t cap capRead with
  | none => exact .refused (show Code.perm < 0 by decide)
  | some i =>
    dsimp only
    by_cases hu : maxChannels ≤ i ∨ !(s.micro.channels i).used
    · rw [if_pos hu]
      exact .refused (show Code.inval < 0 by decide)
    rw [if_neg hu]
    have hused : (s.micro.channels i).used = true := by simpa using (not_or.mp hu).2
    cases hj : s.micro.freeConnection with
    | none => exact .refused (show Code.nomem < 0 by decide)
    | some j =>
      dsimp only
      cases hg : (s.micro.setConnection j { used := true, chIdx := i }).capGrant t (.connection j)
          (capWrite ||| capSignal ||| capControl) with
      | none =>
        have e : (s.micro.setConnection j { used := true, chIdx := i }).setConnection j
            { (s.micro.setConnection j { used := true, chIdx := i }).connections j with used := false } =
            s.micro.setConnection j { used := false, chIdx := i } := by
          simp [Micro.setConnection]
        dsimp only
        rw [e, Function.update_self, Function.update_idem]
        exact .notConnected hj
      | some q =>
        obtain ⟨m, c⟩ := q
        obtain ⟨-, rfl⟩ := Micro.capGrant_eq hg
        exact .connected hused hj

theorem scDisconnect_cases (s : ChannelTables) (t : TaskId) (cap : ℤ) :
    s.Relinked t (s.scDisconnect t cap).1 (s.scDisconnect t cap).2 := by
  unfold scDisconnect
  cases hj : s.micro.capConnection t cap capControl with
  | none => exact .refused (show Code.perm < 0 by decide)
  | some j =>
    dsimp only
    by_cases hu : j < maxConnections ∧ (s.micro.connections j).used
    · obtain ⟨x, hx, -, h₀, h₁⟩ := Micro.capConnection_eq hj
      rw [if_pos hu, Micro.capClose_fst (m := s.micro.setConnection j _) (x := x) hx h₀ h₁]
      exact .disconnected hu.2
    · rw [if_neg hu]
      exact .refused (show Code.inval < 0 by decide)

/-- Lists and entries agree. -/
structure Linked (s : ChannelTables) : Prop where
  /-- No message is queued on an unused channel. -/
  pending : ∀ i, (s.micro.channels i).used = false → (s.micro.channels i).pendingMsgs = []
  /-- A list has the connections to its channel. -/
  mem_iff : ∀ i j, j ∈ s.connectionLists i ↔ (s.micro.connections j).used = true ∧ (s.micro.connections j).chIdx = i
  nodup : ∀ i, (s.connectionLists i).Nodup
  /-- Connections lead to channels that are used. -/
  leads : ∀ j, (s.micro.connections j).used = true → (s.micro.channels (s.micro.connections j).chIdx).used = true

omit cfg in
theorem Linked.init : Linked ChannelTables.init where
  pending _ _ := rfl
  mem_iff i j := by simp [ChannelTables.init, Micro.init]
  nodup _ := List.nodup_nil
  leads j h := by cases h

omit cfg in
theorem Linked.connectionLists_eq_nil (h : s.Linked) (hi : (s.micro.channels i).used = false) :
    s.connectionLists i = [] := by
  refine List.eq_nil_iff_forall_not_mem.mpr fun j hj => ?_
  obtain ⟨hu, rfl⟩ := (h.mem_iff i j).mp hj
  rw [h.leads j hu] at hi
  cases hi

omit cfg in
theorem Linked.not_mem (h : s.Linked) (hj : (s.micro.connections j).used = false) : j ∉ s.connectionLists i := by
  intro hm
  rw [((h.mem_iff i j).mp hm).1] at hj
  cases hj

omit cfg in
/-- The lists of a channel that is not used are empty already. -/
theorem Linked.emptied (h : s.Linked) (hi : (s.micro.channels i).used = false) :
    Function.update s.connectionLists i [] = s.connectionLists :=
  Function.update_eq_self_iff.mpr (h.connectionLists_eq_nil hi).symm

omit cfg in
theorem Linked.restored (h : s.Linked) (hj : (s.micro.connections j).used = false) :
    Function.update s.connectionLists i ((s.connectionLists i ++ [j]).erase j) = s.connectionLists := by
  refine Function.update_eq_self_iff.mpr ?_
  rw [List.erase_append_right _ (h.not_mem hj), List.erase_cons_head, List.append_nil]

omit cfg in
/-- Used connections stay, channels that are used stay used, and nothing is queued on the others. -/
theorem Linked.congr (h : s.Linked) (hl : s'.connectionLists = s.connectionLists)
    (hc : ∀ j, (s'.micro.connections j).used = (s.micro.connections j).used ∧
      ((s.micro.connections j).used = true → s'.micro.connections j = s.micro.connections j))
    (hu : ∀ i, (s.micro.channels i).used = true → (s'.micro.channels i).used = true)
    (hp : ∀ i, (s'.micro.channels i).used = false → (s'.micro.channels i).pendingMsgs = []) : s'.Linked where
  pending := hp
  mem_iff i j := by
    obtain ⟨hused, hsame⟩ := hc j
    rw [hl, h.mem_iff i j, hused]
    constructor
    · rintro ⟨hj, hi⟩
      exact ⟨hj, by rw [hsame hj]; exact hi⟩
    · rintro ⟨hj, hi⟩
      exact ⟨hj, by rw [← hsame hj]; exact hi⟩
  nodup i := by
    rw [hl]
    exact h.nodup i
  leads j hj := by
    obtain ⟨hused, hsame⟩ := hc j
    rw [hused] at hj
    rw [hsame hj]
    exact hu _ (h.leads j hj)

omit cfg in
/-- One channel is stored into. -/
theorem Linked.setChannel (h : s.Linked) {ch : Channel} (hc : s'.micro.connections = s.micro.connections)
    (hl : s'.connectionLists = s.connectionLists) (hs : s'.micro.channels = Function.update s.micro.channels i ch)
    (hu : (s.micro.channels i).used = true → ch.used = true) (hp : ch.used = false → ch.pendingMsgs = []) : s'.Linked := by
  refine h.congr hl (fun j => ?_) (fun k hk => ?_) (fun k hk => ?_)
  · rw [hc]
    exact ⟨rfl, fun _ => rfl⟩
  · rw [hs]
    by_cases e : k = i
    · rw [e, Function.update_self]
      exact hu (e ▸ hk)
    · rw [Function.update_of_ne e]
      exact hk
  · rw [hs] at hk ⊢
    by_cases e : k = i
    · rw [e, Function.update_self] at hk ⊢
      exact hp hk
    · rw [Function.update_of_ne e] at hk ⊢
      exact h.pending k hk

omit cfg in
/-- A connection is made. -/
theorem Linked.connected (h : s.Linked) (hc : s'.micro.channels = s.micro.channels)
    (hu : (s.micro.channels i).used = true) (hj : (s.micro.connections j).used = false)
    (hs : s'.micro.connections = Function.update s.micro.connections j { used := true, chIdx := i })
    (hl : s'.connectionLists = Function.update s.connectionLists i (s.connectionLists i ++ [j])) : s'.Linked where
  pending k hk := by
    rw [hc] at hk ⊢
    exact h.pending k hk
  mem_iff k n := by
    have hn : ∀ k, j ∉ s.connectionLists k := fun k => h.not_mem hj
    have hm := h.mem_iff k n
    rw [hl, hs]
    by_cases e : n = j
    · rw [e, Function.update_self]
      by_cases ek : k = i
      · rw [ek, Function.update_self]
        simp
      · rw [Function.update_of_ne ek]
        simp [hn k, Ne.symm ek]
    · rw [Function.update_of_ne e, ← hm]
      by_cases ek : k = i
      · rw [ek, Function.update_self]
        simp [e]
      · rw [Function.update_of_ne ek]
  nodup k := by
    rw [hl]
    by_cases ek : k = i
    · rw [ek, Function.update_self]
      exact (h.nodup i).concat (h.not_mem hj) |> fun hh => by simpa using hh
    · rw [Function.update_of_ne ek]
      exact h.nodup k
  leads n hn := by
    rw [hs] at hn ⊢
    rw [hc]
    by_cases e : n = j
    · rw [e, Function.update_self]
      exact hu
    · rw [Function.update_of_ne e] at hn ⊢
      exact h.leads n hn

omit cfg in
/-- A connection is given up. -/
theorem Linked.disconnected (h : s.Linked) (hc : s'.micro.channels = s.micro.channels)
    (hs : s'.micro.connections = Function.update s.micro.connections j { s.micro.connections j with used := false })
    (hl : s'.connectionLists = Function.update s.connectionLists (s.micro.connections j).chIdx
      ((s.connectionLists (s.micro.connections j).chIdx).erase j)) : s'.Linked where
  pending k hk := by
    rw [hc] at hk ⊢
    exact h.pending k hk
  mem_iff k n := by
    have hm := h.mem_iff k n
    rw [hl, hs]
    by_cases e : n = j
    · rw [e, Function.update_self]
      by_cases ek : k = (s.micro.connections j).chIdx
      · rw [ek, Function.update_self, (h.nodup _).mem_erase_iff]
        simp
      · rw [Function.update_of_ne ek, h.mem_iff k j]
        simp [Ne.symm ek]
    · rw [Function.update_of_ne e, ← hm]
      by_cases ek : k = (s.micro.connections j).chIdx
      · rw [ek, Function.update_self, (h.nodup _).mem_erase_iff]
        simp [e]
      · rw [Function.update_of_ne ek]
  nodup k := by
    rw [hl]
    by_cases ek : k = (s.micro.connections j).chIdx
    · rw [ek, Function.update_self]
      exact (h.nodup _).erase j
    · rw [Function.update_of_ne ek]
      exact h.nodup k
  leads n hn := by
    rw [hs] at hn ⊢
    rw [hc]
    by_cases e : n = j
    · rw [e, Function.update_self] at hn
      cases hn
    · rw [Function.update_of_ne e] at hn ⊢
      exact h.leads n hn

omit cfg in
/-- A channel that has nothing in its lists is destroyed. -/
theorem Linked.destroyed (h : s.Linked) (hc : s'.micro.connections = s.micro.connections)
    (hl : s'.connectionLists = s.connectionLists)
    (hs : s'.micro.channels = Function.update s.micro.channels i { s.micro.channels i with used := false })
    (hnone : s.connectionLists i = []) (hp : (s.micro.channels i).pendingMsgs = []) : s'.Linked where
  pending k hk := by
    rw [hs] at hk ⊢
    by_cases e : k = i
    · rw [e, Function.update_self]
      exact hp
    · rw [Function.update_of_ne e] at hk ⊢
      exact h.pending k hk
  mem_iff k n := by
    rw [hl, hc]
    exact h.mem_iff k n
  nodup k := by
    rw [hl]
    exact h.nodup k
  leads n hn := by
    rw [hc] at hn ⊢
    have hne : (s.micro.connections n).chIdx ≠ i := fun e => by
      have hm := (h.mem_iff i n).mpr ⟨hn, e⟩
      rw [hnone] at hm
      cases hm
    rw [hs, Function.update_of_ne hne]
    exact h.leads n hn

omit cfg in
theorem Linked.relinked (h : s.Linked) (hr : s.Relinked t s' r) : s'.Linked := by
  cases hr with
  | refused => exact h
  | created hi =>
    have hu := (Micro.freeChannel_eq hi).1
    exact h.setChannel rfl (h.emptied hu) rfl (fun _ => rfl) (fun _ => rfl)
  | notCreated hi =>
    have hu := (Micro.freeChannel_eq hi).1
    exact h.setChannel rfl (h.emptied hu) rfl (fun e => by rw [hu] at e; cases e) (fun _ => rfl)
  | connected hi hj => exact h.connected rfl hi (Micro.freeConnection_eq hj).1 rfl rfl
  | @notConnected i j hj =>
    have hu := (Micro.freeConnection_eq hj).1
    refine h.congr (h.restored hu) (fun n => ?_) (fun _ hk => hk) h.pending
    show (Function.update s.micro.connections j _ n).used = _ ∧ (_ → Function.update s.micro.connections j _ n = _)
    by_cases e : n = j
    · rw [e, Function.update_self, hu]
      exact ⟨rfl, fun h => by cases h⟩
    · rw [Function.update_of_ne e]
      exact ⟨rfl, fun _ => rfl⟩
  | @disconnected j => exact h.disconnected (j := j) rfl rfl rfl

/-- No channel is destroyed that has a connection or a message in its lists. -/
def DestroysEmpty (s : ChannelTables) : TableStep → Prop
  | .syscall t (.channelDestroy cap) => ∀ i ∈ s.micro.capChannel t cap capControl, (s.micro.channels i).used = true →
      s.connectionLists i = [] ∧ (s.micro.channels i).pendingMsgs = []
  | _ => True

instance (s : ChannelTables) : (a : TableStep) → Decidable (s.DestroysEmpty a)
  | .syscall t (.channelDestroy cap) => inferInstanceAs (Decidable (∀ i ∈ s.micro.capChannel t cap capControl,
      (s.micro.channels i).used = true → s.connectionLists i = [] ∧ (s.micro.channels i).pendingMsgs = []))
  | .syscall _ .channelCreate => isTrue trivial
  | .syscall _ (.connect _) => isTrue trivial
  | .syscall _ (.disconnect _) => isTrue trivial
  | .syscall _ (.capClose _) => isTrue trivial
  | .syscall _ (.msgSend ..) => isTrue trivial
  | .syscall _ (.msgReceive ..) => isTrue trivial
  | .syscall _ (.msgReply ..) => isTrue trivial
  | .elsewhere .. => isTrue trivial

/-- The other calls leave the lists of connections. -/
theorem Linked.dispatched {m : Micro} (h : s.Linked) (hd : Micro.Dispatched s.micro t x m r)
    (hx : s.DestroysEmpty (.syscall t x)) (h₁ : x ≠ .channelCreate) (h₂ : ∀ cap, x ≠ .connect cap)
    (h₃ : ∀ cap, x ≠ .disconnect cap) : Linked { s with micro := m } := by
  cases hd with
  | refused => exact h
  | capClosed => exact h.congr rfl (fun _ => ⟨rfl, fun _ => rfl⟩) (fun _ hk => hk) h.pending
  | created => exact absurd rfl h₁
  | notCreated => exact absurd rfl h₁
  | destroyed hi hu =>
    obtain ⟨hl, hp⟩ := hx _ hi hu
    exact h.destroyed rfl rfl rfl hl hp
  | connected => exact absurd rfl (h₂ _)
  | notConnected => exact absurd rfl (h₂ _)
  | disconnected => exact absurd rfl (h₃ _)
  | @sent cap msg n reply capacity j p pm hj hu hp =>
    have hleads := h.leads j hu
    have ht := s.micro.msgQueue_tables t p (s.micro.connections j).chIdx pm
    exact h.setChannel ht.2.1 rfl (s.micro.msgQueue_channels t p _ pm) (fun e => e) (fun e => by rw [hleads] at e; cases e)
  | delivered hi hu hp => exact h.setChannel rfl rfl rfl (fun e => e) (fun e => by rw [hu] at e; cases e)
  | notDelivered hi hu hp => exact h.setChannel rfl rfl rfl (fun e => e) (fun e => by rw [hu] at e; cases e)
  | awaited hi hu hp => exact h.setChannel rfl rfl rfl (fun e => e) (fun e => by rw [hu] at e; cases e)
  | @answered cap reply n j p memory hj hu hp =>
    have hleads := h.leads j hu
    obtain ⟨hch, -, hcn, -⟩ := Micro.replyWake_tables { s.micro.unqueue (s.micro.connections j).chIdx p with memory } p
    exact h.setChannel hcn rfl hch (fun e => e) (fun e => by rw [hleads] at e; cases e)
  | @notAnswered cap reply n j p bytes hj hu =>
    have hleads := h.leads j hu
    exact h.setChannel rfl rfl rfl (fun e => e) (fun e => by rw [hleads] at e; cases e)

/-- **Every step** that does not destroy a channel with something in its lists keeps lists and entries in agreement. -/
theorem Linked.step {a : TableStep} (h : s.Linked) (hc : s.DestroysEmpty a) (hs : s.step a = some s') : s'.Linked := by
  cases a with
  | elsewhere kernel capabilities mpuRegions memory =>
    cases hs
    exact h.congr rfl (fun _ => ⟨rfl, fun _ => rfl⟩) (fun _ hk => hk) h.pending
  | syscall t x =>
    cases hs
    cases x with
    | channelCreate => exact h.relinked (s.scChannelCreate_cases t)
    | connect cap => exact h.relinked (s.scConnect_cases t cap)
    | disconnect cap => exact h.relinked (s.scDisconnect_cases t cap)
    | capClose cap => exact h.dispatched (s.micro.dispatch_cases t _) hc (by simp) (by simp) (by simp)
    | channelDestroy cap => exact h.dispatched (s.micro.dispatch_cases t _) hc (by simp) (by simp) (by simp)
    | msgSend cap msg msgSize reply replyCapacity =>
      exact h.dispatched (s.micro.dispatch_cases t _) hc (by simp) (by simp) (by simp)
    | msgReceive cap msg capacity => exact h.dispatched (s.micro.dispatch_cases t _) hc (by simp) (by simp) (by simp)
    | msgReply cap reply replySize => exact h.dispatched (s.micro.dispatch_cases t _) hc (by simp) (by simp) (by simp)

theorem linked_of_path {as : List TableStep} (h : Path (Next ChannelTables.step) DestroysEmpty .init as s) : s.Linked :=
  h.invariant (fun _ _ _ hi hc hs => hi.step hc hs) .init

end ChannelTables
end Aixos

namespace Aixos

open Transition

variable [cfg : Config]

namespace Kernel

variable {k k' : Kernel} {kind : ObjKind} {h : Handle} {fill : Kernel → ℕ → Kernel}

/-- From `k` to `k'` the same objects are used, nothing of them has changed, and nothing of the rest of the kernel. -/
structure SamePools (k k' : Kernel) : Prop where
  rest : k' =
    { k with
      core :=
        { k.core with
          slots := k'.core.slots
          waitLists := k'.core.waitLists }
      semCount := k'.semCount
      mqs := k'.mqs }
  used : ∀ kind i, (k'.core.slots kind i).used = (k.core.slots kind i).used
  slots : ∀ kind i, (k.core.slots kind i).used = true → k'.core.slots kind i = k.core.slots kind i
  waitLists : ∀ kind i, (k.core.slots kind i).used = true → ∀ l ∈ objLists kind i, k'.core.waitLists l = k.core.waitLists l
  semCount : ∀ i, (k.core.slots .sem i).used = true → k'.semCount i = k.semCount i
  mqs : ∀ i, (k.core.slots .mq i).used = true → k'.mqs i = k.mqs i

omit cfg in
theorem SamePools.refl (k : Kernel) : k.SamePools k :=
  ⟨rfl, fun _ _ => rfl, fun _ _ _ => rfl, fun _ _ _ _ _ => rfl, fun _ _ => rfl, fun _ _ => rfl⟩

/-- An object that has just been made can be deleted. -/
theorem deleteObject_fresh {i : ℕ} (hk : k'.core = (k.core.slotAlloc kind i).1) (hlt : i < cfg.maxCount kind)
    (hisr : k.core.inIsr = false) :
    k'.deleteObject kind (k.core.slotAlloc kind i).2 = { k' with core := k'.core.slotFree kind i }.code Code.ok := by
  have hisr' : k'.core.inIsr = false := by
    rw [hk]
    exact hisr
  have hlive : k'.core.objFromHandle kind (k.core.slotAlloc kind i).2 = some i := by
    rw [hk]
    simp [Core.objFromHandle, Core.slotAlloc, hlt]
  have hlists : ((objLists kind i).all fun l => (k'.core.waitLists l).isEmpty) = true := by
    refine List.all_eq_true.mpr fun l hl => ?_
    rw [hk]
    show (if l ∈ objLists kind i then [] else k.core.waitLists l).isEmpty = true
    rw [if_pos hl]
    rfl
  unfold deleteObject
  rw [hisr', if_neg (by decide), hlive]
  dsimp only
  rw [hlists, if_pos rfl]

/-- The slot that an object gets was free, and the object can be deleted. -/
theorem createObject_spec (e : k.createObject kind fill = (k', .ret (.handle (some h))))
    (hfill : ∀ k i, (fill k i).core = k.core) (hisr : k.core.inIsr = false) :
    (k.core.slots kind h.index).used = false ∧ k' = fill { k with core := (k.core.slotAlloc kind h.index).1 } h.index ∧
      k'.deleteObject kind h = { k' with core := k'.core.slotFree kind h.index }.code Code.ok := by
  unfold createObject at e
  cases hi : k.core.freeSlot kind with
  | none =>
    rw [hi] at e
    cases e
  | some i =>
    rw [hi] at e
    cases e
    have hu : (k.core.slots kind i).used = false := by simpa using List.find?_some hi
    have hlt := List.mem_range.mp (List.mem_of_find?_eq_some hi)
    exact ⟨hu, rfl, deleteObject_fresh (hfill _ _) hlt hisr⟩

omit cfg in
/-- An object that has been created and deleted again leaves its pool as it was. -/
theorem SamePools.of_free {i : ℕ} (hu : (k.core.slots kind i).used = false)
    (hk : k' = { k with core := ((k.core.slotAlloc kind i).1.slotFree kind i), semCount := k'.semCount, mqs := k'.mqs })
    (hs : ∀ n, (k.core.slots .sem n).used = true → k'.semCount n = k.semCount n)
    (hm : ∀ n, (k.core.slots .mq n).used = true → k'.mqs n = k.mqs n) : k.SamePools k' := by
  have hcore : k'.core = (k.core.slotAlloc kind i).1.slotFree kind i := by rw [hk]
  have hslots : ∀ kd n, ¬ (kd = kind ∧ n = i) → k'.core.slots kd n = k.core.slots kd n := by
    intro kd n hne
    rw [hcore]
    by_cases e : kd = kind
    · subst e
      have hn : n ≠ i := fun e => hne ⟨rfl, e⟩
      simp [Core.slotFree, Core.slotAlloc, hn]
    · simp [Core.slotFree, Core.slotAlloc, e]
  refine ⟨?_, fun kd n => ?_, fun kd n hn => ?_, fun kd n hn l hl => ?_, hs, hm⟩
  · rw [hk]
    rfl
  · by_cases e : kd = kind ∧ n = i
    · obtain ⟨rfl, rfl⟩ := e
      rw [hcore, hu]
      simp [Core.slotFree]
    · rw [hslots kd n e]
  · refine hslots kd n ?_
    rintro ⟨rfl, rfl⟩
    rw [hu] at hn
    cases hn
  · rw [hcore]
    show (if l ∈ objLists kind i then [] else k.core.waitLists l) = _
    refine if_neg fun hl' => ?_
    rw [Core.mem_objLists] at hl hl'
    rw [hl'] at hl
    cases hl
    rw [hu] at hn
    cases hn

theorem semCreate_spec {initialCount : ℤ} (e : k.semCreate initialCount = (k', .ret (.handle (some h)))) :
    k.SamePools (k'.semDelete h).1 := by
  unfold semCreate at e
  split at e
  · cases e
  · rename_i hok
    have hisr : k.core.inIsr = false := by simpa using (not_or.mp hok).1
    obtain ⟨hu, hk, hd⟩ := createObject_spec e (fun _ _ => rfl) hisr
    rw [semDelete, hd]
    refine .of_free hu ?_ (fun n hn => ?_) (fun _ _ => ?_)
    · rw [hk]
      rfl
    · rw [hk]
      have hne : n ≠ h.index := fun e => by
        rw [e, hu] at hn
        cases hn
      exact Function.update_of_ne hne _ _
    · rw [hk]
      rfl

theorem mqCreate_spec {maxMsgs msgSize : ℕ} {isStatic memory : Bool}
    (e : k.mqCreate maxMsgs msgSize isStatic memory = (k', .ret (.handle (some h)))) :
    (k.core.slots .mq h.index).used = false ∧ k.SamePools (k'.mqDelete h).1 ∧ (k'.mqDelete h).2 = .ret (.code Code.ok) := by
  unfold mqCreate at e
  split at e
  · cases e
  · rename_i hok
    have hisr : k.core.inIsr = false := by simpa using (not_or.mp (not_or.mp (not_or.mp (not_or.mp hok).2).2).2).1
    obtain ⟨hu, hk, hd⟩ := createObject_spec e (fun _ _ => rfl) hisr
    refine ⟨hu, ?_, by rw [mqDelete, hd]; rfl⟩
    rw [mqDelete, hd]
    refine .of_free hu ?_ (fun _ _ => ?_) (fun n hn => ?_)
    · rw [hk]
      rfl
    · rw [hk]
      rfl
    · rw [hk]
      have hne : n ≠ h.index := fun e => by
        rw [e, hu] at hn
        cases hn
      exact Function.update_of_ne hne _ _

/-- A creation gives a handle. -/
theorem semCreate_cases (k : Kernel) (n : ℤ) :
    k.semCreate n = (k, .ret (.handle none)) ∨ ∃ k' h, k.semCreate n = (k', .ret (.handle (some h))) := by
  unfold semCreate createObject
  split
  · exact .inl rfl
  · cases k.core.freeSlot .sem with
    | none => exact .inl rfl
    | some i => exact .inr ⟨_, _, rfl⟩

theorem mqCreate_cases (k : Kernel) (maxMsgs msgSize : ℕ) (isStatic memory : Bool) :
    k.mqCreate maxMsgs msgSize isStatic memory = (k, .ret (.handle none)) ∨
    ∃ k' h, k.mqCreate maxMsgs msgSize isStatic memory = (k', .ret (.handle (some h))) := by
  unfold mqCreate createObject
  split
  · exact .inl rfl
  · cases k.core.freeSlot .mq with
    | none => exact .inl rfl
    | some i => exact .inr ⟨_, _, rfl⟩

end Kernel

namespace ChannelTables

variable {s s' : ChannelTables} {t : TaskId} {r : Code}

/-- From `s` to `s'` the tables of channels, connections and messages and the lists are the same. -/
structure SameTables (s s' : ChannelTables) : Prop where
  channelUsed : ∀ i, (s'.micro.channels i).used = (s.micro.channels i).used
  channels : ∀ i, (s.micro.channels i).used = true → s'.micro.channels i = s.micro.channels i
  channelLists : ∀ i, (s'.micro.channels i).pendingMsgs = (s.micro.channels i).pendingMsgs
  connectionLists : s'.connectionLists = s.connectionLists
  connectionUsed : ∀ j, (s'.micro.connections j).used = (s.micro.connections j).used
  connections : ∀ j, (s.micro.connections j).used = true → s'.micro.connections j = s.micro.connections j
  pendingMsgs : s'.micro.pendingMsgs = s.micro.pendingMsgs

omit cfg in
/-- What the kernel does itself is no concern of the tables. -/
theorem SameTables.of_kernel (s : ChannelTables) (k : Kernel) : s.SameTables { s with micro := { s.micro with kernel := k } } :=
  ⟨fun _ => rfl, fun _ _ => rfl, fun _ => rfl, rfl, fun _ => rfl, fun _ _ => rfl, rfl⟩

omit cfg in
theorem SameTables.refl (s : ChannelTables) : s.SameTables s := .of_kernel s s.micro.kernel

omit cfg in
/-- Without an error nothing has to be the same; with one, the tables are, and the rest is. -/
theorem Linked.failed (h : s.Linked) (hr : s.Relinked t s' r) (hneg : r < 0) :
    s.SameTables s' ∧ s'.micro.kernel = s.micro.kernel ∧ s'.micro.capabilities = s.micro.capabilities := by
  cases hr with
  | refused => exact ⟨.refl s, rfl, rfl⟩
  | @created _ c => exact absurd hneg (not_lt.mpr (Int.natCast_nonneg c))
  | @notCreated i hi =>
    have hu := (Micro.freeChannel_eq hi).1
    have hch : ∀ n, n ≠ i → Function.update s.micro.channels i {} n = s.micro.channels n := fun n e => Function.update_of_ne e _ _
    refine ⟨⟨fun n => ?_, fun n hn => ?_, fun n => ?_, h.emptied hu, fun _ => rfl, fun _ _ => rfl, rfl⟩, rfl, rfl⟩
    · show (Function.update s.micro.channels i {} n).used = _
      by_cases e : n = i
      · rw [e, Function.update_self, hu]
      · rw [hch n e]
    · refine hch n ?_
      rintro rfl
      rw [hu] at hn
      cases hn
    · show (Function.update s.micro.channels i {} n).pendingMsgs = _
      by_cases e : n = i
      · rw [e, Function.update_self, h.pending i hu]
      · rw [hch n e]
  | @connected _ _ c => exact absurd hneg (not_lt.mpr (Int.natCast_nonneg c))
  | @notConnected i j hj =>
    have hu := (Micro.freeConnection_eq hj).1
    have hcn : ∀ n, n ≠ j → Function.update s.micro.connections j { used := false, chIdx := i } n = s.micro.connections n :=
      fun n e => Function.update_of_ne e _ _
    refine ⟨⟨fun _ => rfl, fun _ _ => rfl, fun _ => rfl, h.restored hu, fun n => ?_, fun n hn => ?_, rfl⟩, rfl, rfl⟩
    · show (Function.update s.micro.connections j _ n).used = _
      by_cases e : n = j
      · rw [e, Function.update_self, hu]
      · rw [hcn n e]
    · refine hcn n ?_
      rintro rfl
      rw [hu] at hn
      cases hn
  | disconnected => exact absurd hneg (by decide)

end ChannelTables
end Aixos

namespace Aixos

open Transition Block

/-- The call allocates memory. -/
def CreateSyscall.Allocates : CreateSyscall → Prop
  | .mq .. => True
  | .sem _ | .channel | .connect _ => False

namespace Supply

variable [hcfg : HeapConfig] [cfg : Config] {s s' : Supply} {t : TaskId} {bs : List Block} {h : Handle}

/-- From `s` to `s'` live objects and pools, tables and lists, capabilities, and the blocks of the heap are the same. -/
structure Same (s s' : Supply) : Prop where
  pools : s.micro.kernel.SamePools s'.micro.kernel
  tables : s.tables.SameTables s'.tables
  capabilities : s'.micro.capabilities = s.micro.capabilities
  buffers : ∀ i, (s.micro.core.slots .mq i).used = true → s'.buffers i = s.buffers i
  blocks : s'.heap.blocks = s.heap.blocks

omit cfg in
/-- The buffers are freed, those that there are. -/
theorem freeBuffers_restored {h h' : Heap} {bs' : List Block} {isr : Bool} {o₁ o₂ o₃ : Option Used} (hi : h.Intact bs)
    (hh : h.Holding h' bs bs' (o₃.toList ++ (o₂.toList ++ (o₁.toList ++ []))))
    (hisr : isr = true → o₁ = none ∧ o₂ = none ∧ o₃ = none) :
    h.Restored (freeBuffers h' isr
      { buffer := Heap.pointer o₁, lengths := Heap.pointer o₂, priorities := Heap.pointer o₃, ownsBuffers := true }) bs := by
  have e : o₃.toList ++ (o₂.toList ++ (o₁.toList ++ [])) = [o₁, o₂, o₃].reverse.reduceOption := by
    cases o₁ <;> cases o₂ <;> cases o₃ <;> rfl
  rw [e] at hh
  refine hh.frees hi ((List.reverse_perm [o₁, o₂, o₃]).filterMap id) fun hb => ?_
  obtain ⟨rfl, rfl, rfl⟩ := hisr hb
  rfl

/-- **`aixos_mq_create`** gives a queue with buffers that can be freed, or frees them itself. -/
theorem mqCreate_spec (hi : s.heap.Intact bs) (maxMsgs msgSize : ℕ) :
    ∃ s' o, s.mqCreate maxMsgs msgSize = some (s', o) ∧
      (o = none → s.heap.Restored s'.heap bs ∧ s' = { s with heap := s'.heap }) ∧
      ∀ h, o = some h → ∃ k b, s.micro.kernel.mqCreate maxMsgs msgSize false true = (k, .ret (.handle (some h))) ∧
        s' = { s.setKernel k with heap := s'.heap, buffers := Function.update s.buffers h.index b } ∧
        b.ownsBuffers = true ∧ s.heap.Restored (freeBuffers s'.heap s.micro.core.inIsr b) bs := by
  unfold mqCreate
  dsimp only
  by_cases hbad : maxMsgs = 0 ∨ msgSize = 0 ∨ maxIpcCopyBytes < msgSize ∨ (256 ^ hcfg.pointerSize - 1) / msgSize < maxMsgs ∨
      (256 ^ hcfg.pointerSize - 1) / hcfg.pointerSize < maxMsgs
  · rw [if_pos hbad]
    exact ⟨s, none, rfl, fun _ => ⟨hi.restored (.refl _), rfl⟩, fun h e => by cases e⟩
  rw [if_neg hbad]
  obtain ⟨h₁, bs₁, o₁, e₁, hh₁, hn₁⟩ := (Heap.Holding.refl hi).malloc s.micro.core.inIsr (maxMsgs * msgSize)
  obtain ⟨h₂, bs₂, o₂, e₂, hh₂, hn₂⟩ := hh₁.calloc s.micro.core.inIsr maxMsgs hcfg.pointerSize
  obtain ⟨h₃, bs₃, o₃, e₃, hh₃, hn₃⟩ := hh₂.calloc s.micro.core.inIsr maxMsgs 4
  have hfree := freeBuffers_restored hi hh₃ fun hb => ⟨hn₁ hb, hn₂ hb, hn₃ hb⟩
  rw [e₁, Option.bind_some]
  dsimp only
  rw [e₂, Option.bind_some]
  dsimp only
  rw [e₃, Option.map_some]
  dsimp only
  by_cases hnull : Heap.pointer o₁ = 0 ∨ Heap.pointer o₂ = 0 ∨ Heap.pointer o₃ = 0
  · rw [if_pos hnull]
    exact ⟨_, none, rfl, fun _ => ⟨hfree, rfl⟩, fun h e => by cases e⟩
  rw [if_neg hnull]
  rcases s.micro.kernel.mqCreate_cases maxMsgs msgSize false true with e | ⟨k, h, e⟩
  · rw [show ({ s with heap := h₃ } : Supply).micro.kernel.mqCreate maxMsgs msgSize false true = _ from e]
    exact ⟨_, none, rfl, fun _ => ⟨hfree, rfl⟩, fun h e => by cases e⟩
  · rw [show ({ s with heap := h₃ } : Supply).micro.kernel.mqCreate maxMsgs msgSize false true = _ from e]
    refine ⟨_, some h, rfl, (fun e => by cases e), fun h' e' => ?_⟩
    cases e'
    exact ⟨k, _, rfl, rfl, rfl, hfree⟩

/-- **`aixos_mq_delete`** of the new queue frees its buffers and its slot. -/
theorem mqDelete_spec {maxMsgs msgSize : ℕ} {k : Kernel} {b : MqBuffers} (hi : s.heap.Intact bs)
    (e : s.micro.kernel.mqCreate maxMsgs msgSize false true = (k, .ret (.handle (some h))))
    (hs : s' = { s.setKernel k with heap := s'.heap, buffers := Function.update s.buffers h.index b })
    (hb : b.ownsBuffers = true) (hr : s.heap.Restored (freeBuffers s'.heap s.micro.core.inIsr b) bs) :
    s.Same (s'.mqDelete h) := by
  obtain ⟨hu, hsame, hok⟩ := Kernel.mqCreate_spec e
  have hk : s'.micro.kernel = k := by
    rw [hs]
    rfl
  have hbuf : s'.buffers = Function.update s.buffers h.index b := by rw [hs]
  have hd : k.mqDelete h = ((k.mqDelete h).1, .ret (.code Code.ok)) := by rw [← hok]
  have hisr : (k.mqDelete h).1.core.inIsr = s.micro.core.inIsr := by
    rw [hsame.rest]
    rfl
  have heq : s'.mqDelete h = { s.setKernel (k.mqDelete h).1 with
      heap := freeBuffers s'.heap s.micro.core.inIsr b
      buffers := Function.update s'.buffers h.index {} } := by
    unfold mqDelete
    rw [hk, hd]
    dsimp only
    have hown : (s'.setKernel (k.mqDelete h).1).buffers h.index = b := by
      show s'.buffers h.index = b
      rw [hbuf, Function.update_self]
    rw [if_pos rfl, hown, hb, if_pos rfl]
    show Supply.mk (s'.setKernel (k.mqDelete h).1).tables (freeBuffers s'.heap (k.mqDelete h).1.core.inIsr b) _ = _
    rw [hisr, hs]
    rfl
  rw [heq]
  refine ⟨hsame, .of_kernel _ _, rfl, fun i hi => ?_, hr.blocks_eq hi⟩
  have hne : i ≠ h.index := by
    rintro rfl
    rw [hu] at hi
    cases hi
  show Function.update s'.buffers h.index {} i = _
  rw [hbuf, Function.update_of_ne hne, Function.update_of_ne hne]

omit cfg in
theorem Same.refl (s : Supply) : s.Same s := ⟨.refl _, .refl _, rfl, fun _ _ => rfl, rfl⟩

/-- **`sc_sem_create`** -/
theorem scSemCreate_spec (s : Supply) (t : TaskId) (initialCount : ℤ) (hneg : (s.scSemCreate t initialCount).2 < 0) :
    s.Same (s.scSemCreate t initialCount).1 := by
  unfold scSemCreate at hneg ⊢
  rcases s.micro.kernel.semCreate_cases initialCount with e | ⟨k, h, e⟩
  · rw [e]
    exact .refl s
  · have hsame := Kernel.semCreate_spec e
    rw [e] at hneg ⊢
    dsimp only at hneg ⊢
    cases hg : (s.setKernel k).micro.capGrant t (.sem h) (capWait ||| capSignal ||| capControl) with
    | none => exact ⟨hsame, .of_kernel _ _, rfl, fun _ _ => rfl, rfl⟩
    | some r =>
      rw [hg] at hneg
      exact absurd hneg (not_lt.mpr (Int.natCast_nonneg r.2))

/-- **`sc_mq_create`** -/
theorem scMqCreate_spec (hi : s.heap.Intact bs) (t : TaskId) (maxMsgs msgSize : ℕ) :
    ∃ s' r, s.scMqCreate t maxMsgs msgSize = some (s', r) ∧ (r < 0 → s.Same s') := by
  obtain ⟨s₁, o, e, hnone, hsome⟩ := mqCreate_spec hi maxMsgs msgSize
  rw [scMqCreate, e, Option.map_some]
  refine ⟨_, _, rfl, fun hneg => ?_⟩
  cases o with
  | none =>
    obtain ⟨hr, hs⟩ := hnone rfl
    dsimp only
    rw [hs]
    exact ⟨.refl _, .refl _, rfl, fun _ _ => rfl, hr.blocks_eq hi⟩
  | some h =>
    obtain ⟨k, b, hk, hs, hb, hr⟩ := hsome h rfl
    dsimp only at hneg ⊢
    cases hg : s₁.micro.capGrant t (.mq h) (capRead ||| capWrite ||| capControl) with
    | none => exact mqDelete_spec hi hk hs hb hr
    | some r =>
      rw [hg] at hneg
      exact absurd hneg (not_lt.mpr (Int.natCast_nonneg r.2))

omit cfg in
/-- The call of a task on the tables. -/
theorem tables_same (h : s.tables.Linked) {c : ChannelTables × Code} (hr : s.tables.Relinked t c.1 c.2) (hneg : c.2 < 0) :
    s.Same { s with tables := c.1 } := by
  obtain ⟨ht, hk, hc⟩ := h.failed hr hneg
  refine ⟨?_, ht, hc, fun _ _ => rfl, rfl⟩
  show s.micro.kernel.SamePools c.1.micro.kernel
  rw [hk]
  exact .refl _

/-- Each of the calls returns, and leaves nothing behind if it fails. -/
theorem create_spec (x : CreateSyscall) (hi : x.Allocates → ∃ bs, s.heap.Intact bs) (hl : s.tables.Linked) (t : TaskId) :
    ∃ s' r, s.create t x = some (s', r) ∧ (r < 0 → s.Same s') := by
  cases x with
  | sem initialCount => exact ⟨_, _, rfl, s.scSemCreate_spec t initialCount⟩
  | mq maxMsgs msgSize =>
    obtain ⟨bs, hi⟩ := hi trivial
    exact scMqCreate_spec hi t maxMsgs msgSize
  | channel => exact ⟨_, _, rfl, tables_same hl (s.tables.scChannelCreate_cases t)⟩
  | connect cap => exact ⟨_, _, rfl, tables_same hl (s.tables.scConnect_cases t cap)⟩

/-- **A failed creation leaves nothing behind**, in every state that system calls can reach without a channel being
destroyed that has a connection or a message in its lists, whatever the pools, the capabilities and the heap have come
to, if the heap starts at a multiple of eight where the call allocates memory. -/
theorem failed_create_leaves_nothing {c : HeapClients} {m : ByteMemory} {start size : ℕ} {xs : List HeapCall}
    (hend : start + size < 256 ^ hcfg.pointerSize) (hh : run HeapClients.step (.init m start size) xs = some c)
    {as : List TableStep} (hheap : s.heap = c.heap)
    (hs : Path (Next ChannelTables.step) ChannelTables.DestroysEmpty .init as s.tables) (t : TaskId) (x : CreateSyscall)
    (h8 : x.Allocates → 8 ∣ start) :
    ∃ s' r, s.create t x = some (s', r) ∧ (r < 0 → s.Same s') := by
  refine create_spec x (fun hx => ?_) (ChannelTables.linked_of_path hs) t
  obtain ⟨h8', hend'⟩ := Heap.init_region (h8 hx) hend
  obtain ⟨bs, o⟩ := HeapClients.owns_run m h8' hend' hh
  rw [hheap]
  exact ⟨bs, o.intact⟩

end Supply

end Aixos

namespace Aixos.Supply

open Transition

attribute [local instance] HeapConfig.default Config.default

/-- No semaphore or queue has been made yet. -/
def started (tables : ChannelTables) (heap : Heap) : Supply := { tables, heap, buffers := fun _ => {} }

/-- A task has a channel with a connection, and its capability table is full. -/
def fullTable : List TableStep :=
  [.syscall 0 .channelCreate, .syscall 0 (.connect 0), .syscall 0 (.disconnect 1)] ++
    List.replicate 15 (.syscall 0 (.connect 0))

/-- The buffers of a queue have been allocated when there is no room for its capability. -/
theorem failed_create_leaves_nothing_once : ∃ c tables s',
    run HeapClients.step (.init (fun _ => 0) 0x20008000 4096) HeapClients.threeCalls = some c ∧
      Path (Next ChannelTables.step) ChannelTables.DestroysEmpty .init fullTable tables ∧
      (started tables c.heap).create 0 (.mq 4 16) = some (s', Code.nomem) ∧ s'.heap.freeCount = c.heap.freeCount + 3 ∧
      (started tables c.heap).Same s' := by
  obtain ⟨c, hr, -⟩ := HeapClients.threeCalls_run
  obtain ⟨tables, hp, hc⟩ := exists_path ChannelTables.step ChannelTables.DestroysEmpty .init fullTable (fun tables =>
    ((run HeapClients.step (.init (fun _ => 0) 0x20008000 4096) HeapClients.threeCalls).bind fun c =>
      ((started tables c.heap).create 0 (.mq 4 16)).map fun r =>
        decide (r.2 = Code.nomem ∧ r.1.heap.freeCount = c.heap.freeCount + 3)) = some true) (by decide +kernel)
  obtain ⟨s', r, e, h⟩ := failed_create_leaves_nothing (s := started tables c.heap) (by decide) hr rfl hp 0 (.mq 4 16)
    fun _ => by decide
  rw [hr, Option.bind_some, e] at hc
  obtain ⟨rfl, hcount⟩ := of_decide_eq_true (Option.some.inj (of_decide_eq_true hc))
  exact ⟨c, tables, s', hr, hp, e, hcount, h (by decide)⟩

/-- Channel 0 is destroyed while it has a connection, and the capability table fills up with connections to channel 1. -/
def staleList : List TableStep :=
  [.syscall 0 .channelCreate, .syscall 0 .channelCreate, .syscall 0 (.connect 0), .syscall 0 (.channelDestroy 0)] ++
    List.replicate 14 (.syscall 0 (.connect 1))

/-- A connection that is used was in a list, and after a call that has failed it is in none. And on a region that starts
at an odd word the buffers of a queue that has no room for its capability stay allocated. -/
theorem failed_create_unlinks : (∃ s s' : Supply, ∃ r,
    s.heap = (HeapClients.init (fun _ => 0) 0x20008000 4096).heap ∧ run ChannelTables.step .init staleList = some s.tables ∧
      s.create 0 .channel = some (s', r) ∧ r < 0 ∧ (s'.micro.connections 0).used = true ∧ s.tables.connectionLists 0 = [0] ∧
      s'.tables.connectionLists 0 = [] ∧ ¬ s.Same s') ∧
    Heap.Given 0x20008004 4096 ∧ ∃ s s' : Supply, s.heap = (HeapClients.init (fun _ => 0) 0x20008004 4096).heap ∧
      Path (Next ChannelTables.step) ChannelTables.DestroysEmpty .init fullTable s.tables ∧
      s.create 0 (.mq 4 16) = some (s', Code.nomem) ∧ ¬ s.Same s' := by
  refine ⟨?_, by decide, ?_⟩
  · obtain ⟨tables, hr, h⟩ := exists_run ChannelTables.step .init staleList (fun tables =>
      decide ((tables.scChannelCreate 0).2 < 0 ∧ ((tables.scChannelCreate 0).1.micro.connections 0).used = true ∧
        tables.connectionLists 0 = [0] ∧ (tables.scChannelCreate 0).1.connectionLists 0 = [])) (by decide +kernel)
    obtain ⟨hneg, hused, hl, hl'⟩ := of_decide_eq_true h
    refine ⟨started tables (HeapClients.init (fun _ => 0) 0x20008000 4096).heap, _, _, rfl, hr, rfl, hneg, hused, hl, hl',
      fun h => ?_⟩
    have e : (tables.scChannelCreate 0).1.connectionLists 0 = tables.connectionLists 0 :=
      congrFun h.tables.connectionLists 0
    rw [hl, hl'] at e
    cases e
  · obtain ⟨tables, hp, h⟩ := exists_path ChannelTables.step ChannelTables.DestroysEmpty .init fullTable (fun tables =>
      ((started tables (HeapClients.init (fun _ => 0) 0x20008004 4096).heap).create 0 (.mq 4 16)).map (fun r =>
        decide (r.2 = Code.nomem ∧ r.1.heap.blocks ≠ (HeapClients.init (fun _ => 0) 0x20008004 4096).heap.blocks)) =
          some true) (by decide +kernel)
    obtain ⟨⟨s', r⟩, e, h⟩ := Option.map_eq_some_iff.mp (of_decide_eq_true h)
    obtain ⟨rfl, hb⟩ := of_decide_eq_true h
    exact ⟨started tables _, s', rfl, hp, e, fun h => hb h.blocks⟩

end Aixos.Supply
