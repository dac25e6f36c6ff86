import Aixos.System.Messages

/-!
# What the system calls do to the tables

* `Micro.Dispatched` — the ways a system call on capabilities, channels and connections can end.
* `Micro.dispatch_cases` — every call ends in one of them.
* `Machine.step_syscall`, `Machine.step_native`, `Machine.step_tables` — the steps of the system.
-/

namespace Aixos

open Transition Aixos.Core

variable [cfg : Config]

namespace Micro

variable {m m' : Micro} {t : TaskId} {x : Syscall} {cap : ℤ} {rights : Rights} {i j p : ℕ}

/-- The address is one of the buffer that the sender of the message wants its reply in. -/
def InReply (pm : PendingMsg) (a : ℕ) : Prop :=
  ∃ u ptr, pm.sender = some u ∧ pm.replyUserPtr = some ptr ∧ ptr ≤ a ∧ a < ptr + pm.replyCapacity

/-- Message `p` is taken off the queue of channel `i`. -/
def unqueue (m : Micro) (i p : ℕ) : Micro :=
  m.setChannel i { m.channels i with pendingMsgs := (m.channels i).pendingMsgs.erase p }

omit cfg in
/-- The message that `sc_msg_reply` on connection `j` finds. -/
def found (m : Micro) (j : ℕ) : Option ℕ :=
  (m.channels (m.connections j).chIdx).pendingMsgs.find? fun p => decide ((m.pendingMsgs p).senderConnIdx = j)

/-- How a system call ends. -/
inductive Dispatched (m : Micro) (t : TaskId) : Syscall → Micro → Code → Prop where
  /-- An error, and nothing has changed. -/
  | refused {x : Syscall} {r : Code} : r < 0 → Dispatched m t x m r
  /-- A capability is closed. -/
  | capClosed {cap : ℤ} {c : ℕ} : Dispatched m t (.capClose cap) (m.setCap t c none) Code.ok
  /-- A channel is made. -/
  | created {i c : ℕ} : m.freeChannel = some i → m.capabilities t c = none →
      Dispatched m t .channelCreate ((m.setChannel i { used := true }).setCap t c
        (some { object := .channel i, rights := capRead ||| capWrite ||| capControl })) c
  /-- The caller has no room for its capability. -/
  | notCreated {i : ℕ} : m.freeChannel = some i → Dispatched m t .channelCreate (m.setChannel i {}) Code.nomem
  /-- A channel is destroyed, with the capability that has been used. -/
  | destroyed {cap : ℤ} {i : ℕ} : m.capChannel t cap capControl = some i → (m.channels i).used = true →
      Dispatched m t (.channelDestroy cap)
        ((m.setChannel i { m.channels i with used := false }).setCap t cap.toNat none) Code.ok
  /-- A connection is made. -/
  | connected {cap : ℤ} {i j c : ℕ} : m.capChannel t cap capRead = some i → (m.channels i).used = true →
      m.freeConnection = some j → m.capabilities t c = none →
      Dispatched m t (.connect cap) ((m.setConnection j { used := true, chIdx := i }).setCap t c
        (some { object := .connection j, rights := capWrite ||| capSignal ||| capControl })) c
  /-- The caller has no room for its capability. -/
  | notConnected {cap : ℤ} {i j : ℕ} : m.freeConnection = some j →
      Dispatched m t (.connect cap) (m.setConnection j { used := false, chIdx := i }) Code.nomem
  /-- A connection is given up, with the capability that has been used. -/
  | disconnected {cap : ℤ} {j : ℕ} : m.capConnection t cap capControl = some j → (m.connections j).used = true →
      Dispatched m t (.disconnect cap)
        ((m.setConnection j { m.connections j with used := false }).setCap t cap.toNat none) Code.ok
  /-- A message is queued. -/
  | sent {cap : ℤ} {msg n reply capacity j p : ℕ} {pm : PendingMsg} : m.capConnection t cap capWrite = some j →
      (m.connections j).used = true → m.freePendingMsg = some p → pm.used = true → pm.sender = some t →
      pm.senderConnIdx = j →
      Dispatched m t (.msgSend cap msg n reply capacity) (m.msgQueue t p (m.connections j).chIdx pm) Code.ok
  /-- A message is delivered. -/
  | delivered {cap : ℤ} {msg capacity i p n : ℕ} {rest : List ℕ} {memory : ℕ → UInt8} :
      m.capChannel t cap capRead = some i → (m.channels i).used = true → (m.channels i).pendingMsgs = p :: rest →
      Dispatched m t (.msgReceive cap msg capacity)
        { m.setChannel i { m.channels i with pendingMsgs := rest } with memory := memory } n
  /-- A message is taken off the queue and cannot be copied. -/
  | notDelivered {cap : ℤ} {msg capacity i p : ℕ} {rest : List ℕ} :
      m.capChannel t cap capRead = some i → (m.channels i).used = true → (m.channels i).pendingMsgs = p :: rest →
      m.userMemoryCheck t msg ((m.pendingMsgs p).msg.take capacity).length true = false →
      Dispatched m t (.msgReceive cap msg capacity)
        (m.setChannel i { m.channels i with pendingMsgs := rest }) Code.fault
  /-- No message is queued. -/
  | awaited {cap : ℤ} {msg capacity i : ℕ} : m.capChannel t cap capRead = some i → (m.channels i).used = true →
      (m.channels i).pendingMsgs = [] → Dispatched m t (.msgReceive cap msg capacity) (m.msgAwait t i) 0
  /-- A message is answered. -/
  | answered {cap : ℤ} {reply n j p : ℕ} {memory : ℕ → UInt8} : m.capConnection t cap capSignal = some j →
      (m.connections j).used = true → m.found j = some p → (∀ a, memory a ≠ m.memory a → InReply (m.pendingMsgs p) a) →
      Dispatched m t (.msgReply cap reply n) (replyWake
        { m.unqueue (m.connections j).chIdx p with memory := memory } p) Code.ok
  /-- A message is taken off the queue and its answer cannot be copied. -/
  | notAnswered {cap : ℤ} {reply n j p : ℕ} {bytes : List UInt8} : m.capConnection t cap capSignal = some j →
      (m.connections j).used = true → m.found j = some p → m.copyFromUser t reply n = some bytes →
      m.replyCopy (m.pendingMsgs p) bytes = none →
      Dispatched m t (.msgReply cap reply n) (m.unqueue (m.connections j).chIdx p) Code.fault

omit cfg in
theorem copyToUserTask_eq {a : ℕ} {bytes : List UInt8} (h : m.copyToUserTask t a bytes = some m') :
    ∃ memory, m' = { m with memory := memory } ∧ ∀ b, memory b ≠ m.memory b → a ≤ b ∧ b < a + bytes.length := by
  unfold copyToUserTask at h
  split at h
  · cases h
    exact ⟨m.memory, rfl, fun b hne => absurd rfl hne⟩
  · split at h
    · cases h
      refine ⟨_, rfl, fun b hne => ?_⟩
      by_contra hb
      exact hne (if_neg hb)
    · cases h

omit cfg in
theorem copyToUserTask_eq_none {a : ℕ} {bytes : List UInt8} (h : m.copyToUserTask t a bytes = none) :
    m.userMemoryCheck t a bytes.length true = false := by
  unfold copyToUserTask at h
  split at h
  · cases h
  · split at h
    · cases h
    · rename_i hc
      exact Bool.not_eq_true _ ▸ hc

omit cfg in
theorem replyCopy_eq {pm : PendingMsg} {bytes : List UInt8} (h : m.replyCopy pm bytes = some m') :
    ∃ memory, m' = { m with memory := memory } ∧ ∀ a, memory a ≠ m.memory a → InReply pm a := by
  unfold replyCopy at h
  split at h
  · cases h
    exact ⟨m.memory, rfl, fun a hne => absurd rfl hne⟩
  · rename_i ptr hptr
    split at h
    · split at h
      · cases h
      · rename_i u hu
        obtain ⟨memory, rfl, hm⟩ := copyToUserTask_eq h
        refine ⟨memory, rfl, fun a hne => ⟨u, ptr, hu, hptr, ?_⟩⟩
        have := hm a hne
        rw [List.length_take] at this
        omega
    · cases h
      exact ⟨m.memory, rfl, fun a hne => absurd rfl hne⟩

omit cfg in
/-- Whether an answer can be copied does not depend on the queues. -/
theorem replyCopy_setChannel_eq_none {pm : PendingMsg} {bytes : List UInt8} {ch : Channel} :
    (m.setChannel i ch).replyCopy pm bytes = none ↔ m.replyCopy pm bytes = none := by
  have key : ∀ u a b, (m.setChannel i ch).copyToUserTask u a b = none ↔ m.copyToUserTask u a b = none := by
    intro u a b
    unfold copyToUserTask userMemoryCheck mpuTaskAllows
    dsimp only [setChannel]
    split
    · simp
    · split <;> simp
  unfold replyCopy
  split
  · simp
  · split
    · split
      · simp
      · exact key ..
    · simp

theorem capClose_cases (m : Micro) (t : TaskId) (cap : ℤ) : (m.capClose t cap = (m, Code.perm)) ∨
    m.capClose t cap = (m.setCap t cap.toNat none, Code.ok) := by
  unfold capClose
  split
  · exact .inl rfl
  · split
    · exact .inl rfl
    · exact .inr rfl

theorem capGrant_eq {o : CapObject} {c : ℕ} (h : m.capGrant t o rights = some (m', c)) :
    m.capabilities t c = none ∧ m' = m.setCap t c (some { object := o, rights := rights }) := by
  unfold capGrant at h
  split at h
  · cases h
  · rename_i c' hc
    cases h
    have hn : (m.capabilities t c).isNone = true := by simpa using List.find?_some hc
    exact ⟨Option.isNone_iff_eq_none.mp hn, rfl⟩

theorem capResolve_eq {o : CapObject} (h : m.capResolve t cap rights = some o) :
    ∃ x, m.capabilities t cap.toNat = some x ∧ x.object = o ∧ 0 ≤ cap ∧ cap < cfg.capsPerTask := by
  unfold capResolve at h
  split at h
  · cases h
  · rename_i hr
    split at h
    · cases h
    · rename_i x hx
      split at h
      · cases h
        exact ⟨x, hx, rfl, by omega, by omega⟩
      · cases h

/-- The capability that has been resolved names the channel. -/
theorem capChannel_eq (h : m.capChannel t cap rights = some i) :
    ∃ x, m.capabilities t cap.toNat = some x ∧ x.object = .channel i ∧ 0 ≤ cap ∧ cap < cfg.capsPerTask := by
  unfold capChannel at h
  split at h
  · rename_i i' hr
    cases h
    exact capResolve_eq hr
  · cases h

/-- The capability that has been resolved names the connection. -/
theorem capConnection_eq (h : m.capConnection t cap rights = some j) :
    ∃ x, m.capabilities t cap.toNat = some x ∧ x.object = .connection j ∧ 0 ≤ cap ∧ cap < cfg.capsPerTask := by
  unfold capConnection at h
  split at h
  · rename_i i' hr
    cases h
    exact capResolve_eq hr
  · cases h

/-- A capability that has been resolved is closed. -/
theorem capClose_fst {x : Capability} (hx : m.capabilities t cap.toNat = some x) (h₀ : 0 ≤ cap) (h₁ : cap < cfg.capsPerTask) :
    (m.capClose t cap).1 = m.setCap t cap.toNat none := by
  unfold capClose
  rw [if_neg (by omega), hx]

omit cfg in
theorem freeChannel_eq (h : m.freeChannel = some i) : (m.channels i).used = false ∧ i < maxChannels := by
  refine ⟨?_, List.mem_range.mp (List.mem_of_find?_eq_some h)⟩
  have := List.find?_some h
  simpa using this

omit cfg in
theorem freeConnection_eq (h : m.freeConnection = some j) : (m.connections j).used = false ∧ j < maxConnections := by
  refine ⟨?_, List.mem_range.mp (List.mem_of_find?_eq_some h)⟩
  have := List.find?_some h
  simpa using this

omit cfg in
theorem freePendingMsg_eq (h : m.freePendingMsg = some p) : (m.pendingMsgs p).used = false ∧ p < maxPendingMsgs := by
  refine ⟨?_, List.mem_range.mp (List.mem_of_find?_eq_some h)⟩
  have := List.find?_some h
  simpa using this

omit cfg in
/-- A capability that is stored in a free entry replaces none. -/
theorem setCap_some {c d : ℕ} {u : TaskId} {y : Option Capability} {z : Capability} (hy : y = none ∨ m.capabilities t c = none)
    (h : (m.setCap t c y).capabilities u d = some z) : m.capabilities u d = some z ∨ m.capabilities u d = none := by
  by_cases e : u = t ∧ d = c
  · obtain ⟨rfl, rfl⟩ := e
    rcases hy with rfl | hy
    · simp [setCap] at h
    · exact .inr hy
  · left
    have e' : (m.setCap t c y).capabilities u d = m.capabilities u d := by
      simp only [setCap, Function.update_apply]
      split
      · rename_i hu
        rw [Function.update_of_ne fun hd => e ⟨hu, hd⟩, hu]
      · rfl
    rw [e'] at h
    exact h

omit cfg in
theorem found_eq (h : m.found j = some p) :
    p ∈ (m.channels (m.connections j).chIdx).pendingMsgs ∧ (m.pendingMsgs p).senderConnIdx = j :=
  ⟨List.mem_of_find?_eq_some h, by simpa using List.find?_some h⟩

/-! ### The tables after a message is queued and after it is answered -/

theorem wakeReceiver_channels (m : Micro) (i : ℕ) :
    (m.wakeReceiver i).channels = Function.update m.channels i { m.channels i with receiver := none } := by
  unfold wakeReceiver
  split
  · rename_i hr
    exact (Function.update_eq_self_iff.mpr (by rw [← hr])).symm
  · rfl

theorem wakeReceiver_tables (m : Micro) (i : ℕ) : (m.wakeReceiver i).pendingMsgs = m.pendingMsgs ∧
    (m.wakeReceiver i).connections = m.connections ∧ (m.wakeReceiver i).capabilities = m.capabilities := by
  unfold wakeReceiver
  split
  · exact ⟨rfl, rfl, rfl⟩
  · exact ⟨rfl, rfl, rfl⟩

theorem msgQueue_channels (m : Micro) (t : TaskId) (p i : ℕ) (pm : PendingMsg) :
    (m.msgQueue t p i pm).channels = Function.update m.channels i
      { m.channels i with pendingMsgs := (m.channels i).pendingMsgs ++ [p], receiver := none } := by
  show (wakeReceiver _ i).channels = _
  rw [wakeReceiver_channels]
  simp [setChannel, setPendingMsg]

theorem msgQueue_tables (m : Micro) (t : TaskId) (p i : ℕ) (pm : PendingMsg) :
    (m.msgQueue t p i pm).pendingMsgs = Function.update m.pendingMsgs p pm ∧
    (m.msgQueue t p i pm).connections = m.connections ∧ (m.msgQueue t p i pm).capabilities = m.capabilities :=
  wakeReceiver_tables ((m.setPendingMsg p pm).setChannel i
    { m.channels i with pendingMsgs := (m.channels i).pendingMsgs ++ [p] }) i

theorem replyWake_tables (m : Micro) (p : ℕ) : (m.replyWake p).channels = m.channels ∧
    (m.replyWake p).pendingMsgs = Function.update m.pendingMsgs p { m.pendingMsgs p with used := false, sender := none } ∧
    (m.replyWake p).connections = m.connections ∧ (m.replyWake p).capabilities = m.capabilities := by
  unfold replyWake
  dsimp only
  split
  · exact ⟨rfl, rfl, rfl, rfl⟩
  · exact ⟨rfl, rfl, rfl, rfl⟩

/-- An error is returned before anything is changed. -/
theorem refusal {e : Code} (he : e < 0) : Dispatched m t x (m, e).1 (m, e).2 := .refused he

/-- **Every system call** ends in one of these ways. -/
theorem dispatch_cases (m : Micro) (t : TaskId) (x : Syscall) :
    Dispatched m t x (m.dispatch t x).1 (m.dispatch t x).2 := by
  cases x with
  | capClose cap =>
    show Dispatched m t _ (m.capClose t cap).1 (m.capClose t cap).2
    rcases m.capClose_cases t cap with e | e
    · rw [e]
      exact refusal (by decide)
    · rw [e]
      exact .capClosed
  | channelCreate =>
    show Dispatched m t _ (m.scChannelCreate t).1 (m.scChannelCreate t).2
    unfold scChannelCreate
    split
    · exact refusal (by decide)
    · rename_i i hi
      dsimp only
      split
      · have e : (m.setChannel i { used := true }).setChannel i
            { (m.setChannel i { used := true }).channels i with used := false } = m.setChannel i {} := by
          simp [setChannel]
        rw [e]
        exact .notCreated hi
      · rename_i m' c hg
        obtain ⟨hc, rfl⟩ := capGrant_eq hg
        exact .created hi hc
  | channelDestroy cap =>
    show Dispatched m t _ (m.scChannelDestroy t cap).1 (m.scChannelDestroy t cap).2
    unfold scChannelDestroy
    split
    · exact refusal (by decide)
    · rename_i i hi
      split
      · rename_i hu
        obtain ⟨x, hx, -, h₀, h₁⟩ := capChannel_eq hi
        rw [capClose_fst (m := m.setChannel i _) (x := x) hx h₀ h₁]
        exact .destroyed hi hu.2
      · exact refusal (by decide)
  | connect cap =>
    show Dispatched m t _ (m.scConnect t cap).1 (m.scConnect t cap).2
    unfold scConnect
    split
    · exact refusal (by decide)
    · rename_i i hi
      split
      · exact refusal (by decide)
      · rename_i hu
        split
        · exact refusal (by decide)
        · rename_i j hj
          dsimp only
          split
          · have e : (m.setConnection j { used := true, chIdx := i }).setConnection j
                { (m.setConnection j { used := true, chIdx := i }).connections j with used := false } =
                m.setConnection j { used := false, chIdx := i } := by
              simp [setConnection]
            rw [e]
            exact .notConnected hj
          · rename_i m' c hg
            obtain ⟨hc, rfl⟩ := capGrant_eq hg
            exact .connected hi (by simpa using (not_or.mp hu).2) hj hc
  | disconnect cap =>
    show Dispatched m t _ (m.scDisconnect t cap).1 (m.scDisconnect t cap).2
    unfold scDisconnect
    split
    · exact refusal (by decide)
    · rename_i j hj
      split
      · rename_i hu
        obtain ⟨x, hx, -, h₀, h₁⟩ := capConnection_eq hj
        rw [capClose_fst (m := m.setConnection j _) (x := x) hx h₀ h₁]
        exact .disconnected hj hu.2
      · exact refusal (by decide)
  | msgSend cap msg n reply capacity =>
    show Dispatched m t _ (m.scMsgSend t cap msg n reply capacity).1 (m.scMsgSend t cap msg n reply capacity).2
    unfold scMsgSend
    split
    · exact refusal (by decide)
    · rename_i j hj
      split
      · exact refusal (by decide)
      · rename_i hu
        split
        · exact refusal (by decide)
        · split
          · exact refusal (by decide)
          · rename_i p hp
            split
            · exact refusal (by decide)
            · split
              · exact refusal (by decide)
              · exact .sent hj (by simpa using (not_or.mp hu).2) hp rfl rfl rfl
  | msgReceive cap msg capacity =>
    show Dispatched m t _ (m.scMsgReceive t cap msg capacity).1 (m.scMsgReceive t cap msg capacity).2
    unfold scMsgReceive
    split
    · exact refusal (by decide)
    · rename_i i hi
      split
      · exact refusal (by decide)
      · rename_i hu
        have hu : (m.channels i).used = true := by simpa using (not_or.mp hu).2
        split
        · exact refusal (by decide)
        · split
          · exact refusal (by decide)
          · split
            · rename_i p rest hp
              unfold msgDeliver
              dsimp only
              rw [hp, List.tail_cons]
              split
              · rename_i hc
                have hf := copyToUserTask_eq_none hc
                exact .notDelivered hi hu hp hf
              · rename_i m' hc
                obtain ⟨memory, rfl, -⟩ := copyToUserTask_eq hc
                exact .delivered hi hu hp
            · rename_i hp
              exact .awaited hi hu hp
  | msgReply cap reply n =>
    show Dispatched m t _ (m.scMsgReply t cap reply n).1 (m.scMsgReply t cap reply n).2
    unfold scMsgReply
    split
    · exact refusal (by decide)
    · rename_i j hj
      split
      · exact refusal (by decide)
      · rename_i hu
        have hu : (m.connections j).used = true := by simpa using (not_or.mp hu).2
        split
        · exact refusal (by decide)
        · split
          · exact refusal (by decide)
          · rename_i bytes hb
            dsimp only
            split
            · exact refusal (by decide)
            · rename_i p hp
              unfold msgAnswer
              dsimp only
              split
              · rename_i hc
                exact .notAnswered hj hu hp hb (replyCopy_setChannel_eq_none.mp hc)
              · rename_i m' hc
                obtain ⟨memory, rfl, hm⟩ := replyCopy_eq hc
                exact .answered hj hu hp hm

end Micro

namespace Machine

variable {s s' : Machine} {a : Action} {x : Syscall}

theorem step_native {a : Act} (h : s.step (.native a) = some s') : ∃ k, s.sys.step a = some k ∧ s' = s.put k := by
  simp only [step] at h
  split at h
  · cases h
  · obtain ⟨k, hk, rfl⟩ := Option.map_eq_some_iff.mp h
    exact ⟨k, hk, rfl⟩

theorem step_syscall (h : s.step (.syscall x) = some s') :
    ∃ t r, s.userTask = some t ∧ Micro.Dispatched s.micro t x s'.micro r ∧ s'.frame = s.frame ∧
      s'.ret = Function.update s.ret t (some (.code r)) := by
  simp only [step] at h
  split at h
  · cases h
  · rename_i t ht
    split at h
    · cases h
    · cases h
      exact ⟨t, _, ht, s.micro.dispatch_cases t x, rfl, rfl⟩

omit cfg in
theorem userTask_eq {t : TaskId} (h : s.userTask = some t) :
    s.sys.runningTask = some t ∧ (s.core.tasks t).user = true := by
  obtain ⟨h₁, h₂⟩ := Option.filter_eq_some_iff.mp h
  exact ⟨h₁, by simpa using h₂⟩

/-- The actions other than native ones and system calls leave the kernel and the tables alone. -/
structure SameTables (s s' : Machine) : Prop where
  kernel : s'.micro.kernel = s.micro.kernel
  channels : s'.micro.channels = s.micro.channels
  connections : s'.micro.connections = s.micro.connections
  pendingMsgs : s'.micro.pendingMsgs = s.micro.pendingMsgs
  /-- A capability is granted in a free entry. -/
  caps : ∀ t c x, s'.micro.capabilities t c = some x →
    s.micro.capabilities t c = some x ∨ s.micro.capabilities t c = none
  frame : s'.frame = s.frame

theorem step_tables (h : s.step a = some s') : (∃ b, a = .native b) ∨ (∃ x, a = .syscall x) ∨ SameTables s s' := by
  cases a with
  | native b => exact .inl ⟨b, rfl⟩
  | syscall x => exact .inr (.inl ⟨x, rfl⟩)
  | userStore address bytes =>
    refine .inr (.inr ?_)
    simp only [step] at h
    split at h
    · cases h
    · obtain ⟨m, hm, rfl⟩ := Option.map_eq_some_iff.mp h
      obtain ⟨memory, rfl, -⟩ := Micro.copyToUserTask_eq hm
      exact ⟨rfl, rfl, rfl, rfl, fun _ _ _ => .inl, rfl⟩
  | regionAdd t r =>
    refine .inr (.inr ?_)
    simp only [step] at h
    split at h
    · cases h
    · cases h
      exact ⟨rfl, rfl, rfl, rfl, fun _ _ _ => .inl, rfl⟩
  | capGrantDirect t o rights =>
    refine .inr (.inr ?_)
    simp only [step] at h
    split at h
    · obtain ⟨⟨m, c⟩, hm, rfl⟩ := Option.map_eq_some_iff.mp h
      obtain ⟨hc, rfl⟩ := Micro.capGrant_eq hm
      exact ⟨rfl, rfl, rfl, rfl, fun _ _ _ hx => Micro.setCap_some (.inr hc) hx, rfl⟩
    · cases h

end Machine

end Aixos
