import Aixos.Messages.Abandoned

/-!
# The incarnations of channels and connections

Capabilities and connections name slots of the tables `channels` and `connections` by their index, and the
slots are used again.

* `Dated` — the machine, with the incarnations that capabilities and connections have been obtained for.
* `Dated.Exclusive` — a slot is taken only when nothing names it any more.
* `Dated.authorised_of_path` — in such runs nobody gets at a later object of a slot.
-/

namespace Aixos

open Transition Aixos.Core

variable [cfg : Config]

namespace Machine

variable {s s' : Machine} {a : Action} {t : TaskId}

/-- What a step can do to the tables that hold indices. -/
structure TableStep (s : Machine) (a : Action) (s' : Machine) : Prop where
  /-- A capability is not replaced by another. -/
  caps : ∀ t c x, s'.micro.capabilities t c = some x →
    s.micro.capabilities t c = some x ∨ s.micro.capabilities t c = none
  /-- A connection stays one to its channel. -/
  chIdx : ∀ j, (s.micro.connections j).used = true → (s'.micro.connections j).used = true →
    (s'.micro.connections j).chIdx = (s.micro.connections j).chIdx
  /-- The slot of a channel is taken by `sc_channel_create`. -/
  channel : ∀ i, (s.micro.channels i).used = false → (s'.micro.channels i).used = true →
    ∃ t, s.userTask = some t ∧ a = .syscall .channelCreate ∧ s.micro.freeChannel = some i
  /-- The slot of a connection is taken by `sc_connect`. -/
  connection : ∀ j, (s.micro.connections j).used = false → (s'.micro.connections j).used = true →
    ∃ t cap i, s.userTask = some t ∧ a = .syscall (.connect cap) ∧ s.micro.capChannel t cap capRead = some i ∧
      (s.micro.channels i).used = true ∧ s.micro.freeConnection = some j

end Machine

namespace Micro

variable {m m' : Micro} {t : TaskId} {i j c : ℕ} {x : Syscall} {r : Code}

/-- **Every system call** changes the tables in these ways. -/
theorem Dispatched.caps (h : Dispatched m t x m' r) {u : TaskId} {d : ℕ} {z : Capability}
    (hz : m'.capabilities u d = some z) : m.capabilities u d = some z ∨ m.capabilities u d = none := by
  cases h with
  | capClosed | destroyed | disconnected => exact setCap_some (.inl rfl) hz
  | created _ hc => exact setCap_some (m := m.setChannel _ _) (.inr hc) hz
  | connected _ _ _ hc => exact setCap_some (m := m.setConnection _ _) (.inr hc) hz
  | sent =>
    rw [(msgQueue_tables ..).2.2] at hz
    exact .inl hz
  | answered =>
    rw [(replyWake_tables ..).2.2.2] at hz
    exact .inl hz
  | _ => exact .inl hz

theorem Dispatched.chIdx (h : Dispatched m t x m' r) (hj : (m.connections j).used = true)
    (hj' : (m'.connections j).used = true) : (m'.connections j).chIdx = (m.connections j).chIdx := by
  cases h with
  | @connected _ _ k _ _ _ hf | @notConnected _ _ k hf =>
    have hne : j ≠ k := by
      rintro rfl
      exact Bool.false_ne_true ((freeConnection_eq hf).1.symm.trans hj)
    exact congrArg Connection.chIdx (Function.update_of_ne hne ..)
  | @disconnected _ k =>
    have hne : j ≠ k := by
      rintro rfl
      simp [setCap, setConnection] at hj'
    exact congrArg Connection.chIdx (Function.update_of_ne hne ..)
  | sent => rw [(msgQueue_tables ..).2.1]
  | answered => rw [(replyWake_tables ..).2.2.1]; rfl
  | _ => rfl

/-- A channel whose entry is stored as it was is in use as it was. -/
theorem Dispatched.channel (h : Dispatched m t x m' r) (hi : (m.channels i).used = false)
    (hi' : (m'.channels i).used = true) : x = .channelCreate ∧ m.freeChannel = some i := by
  have key : ∀ {k d}, m'.channels = Function.update m.channels k d → (i = k → d.used = false) → False := by
    intro k d hc hd
    rw [hc, Function.update_apply] at hi'
    split at hi'
    · rename_i e
      rw [hd e] at hi'
      cases hi'
    · rw [hi] at hi'
      cases hi'
  cases h with
  | refused | capClosed | notConnected | connected | disconnected =>
    exact absurd (hi.symm.trans hi') (by decide)
  | @created k _ hf =>
    by_cases e : i = k
    · exact ⟨rfl, e ▸ hf⟩
    · exact (key rfl fun e' => absurd e' e).elim
  | notCreated => exact (key rfl fun _ => rfl).elim
  | destroyed => exact (key rfl fun _ => rfl).elim
  | sent => exact (key (msgQueue_channels ..) fun e => e ▸ hi).elim
  | delivered | notDelivered | notAnswered => exact (key rfl fun e => e ▸ hi).elim
  | awaited => exact (key rfl fun e => e ▸ hi).elim
  | answered => exact (key (replyWake_tables ..).1 fun e => e ▸ hi).elim

theorem Dispatched.connection (h : Dispatched m t x m' r) (hj : (m.connections j).used = false)
    (hj' : (m'.connections j).used = true) : ∃ cap i, x = .connect cap ∧ m.capChannel t cap capRead = some i ∧
      (m.channels i).used = true ∧ m.freeConnection = some j := by
  cases h with
  | @connected cap i k _ hi hu hf =>
    by_cases e : j = k
    · exact ⟨cap, i, rfl, hi, hu, e ▸ hf⟩
    · have hk : (m.connections j).used = true := by
        rw [← hj']
        exact congrArg Connection.used (Function.update_of_ne e ..).symm
      exact absurd (hj.symm.trans hk) (by decide)
  | @notConnected _ _ k | @disconnected _ k =>
    by_cases e : j = k
    · subst e
      simp [setConnection, setCap] at hj'
    · have hk : (m.connections j).used = true := by
        rw [← hj']
        exact congrArg Connection.used (Function.update_of_ne e ..).symm
      exact absurd (hj.symm.trans hk) (by decide)
  | sent =>
    rw [(msgQueue_tables ..).2.1] at hj'
    exact absurd (hj.symm.trans hj') (by decide)
  | answered =>
    rw [(replyWake_tables ..).2.2.1] at hj'
    exact absurd (hj.symm.trans hj') (by decide)
  | _ => exact absurd (hj.symm.trans hj') (by decide)

end Micro

namespace Machine

variable {s s' : Machine} {a : Action} {t : TaskId}

theorem tableStep (h : s.step a = some s') : TableStep s a s' := by
  have same : s'.micro.channels = s.micro.channels → s'.micro.connections = s.micro.connections →
      (∀ t c x, s'.micro.capabilities t c = some x →
        s.micro.capabilities t c = some x ∨ s.micro.capabilities t c = none) → TableStep s a s' := by
    intro hc hn hx
    refine ⟨hx, fun j _ _ => by rw [hn], fun i hi hi' => ?_, fun j hj hj' => ?_⟩
    · rw [hc, hi] at hi'
      cases hi'
    · rw [hn, hj] at hj'
      cases hj'
  rcases step_tables h with ⟨b, rfl⟩ | ⟨x, rfl⟩ | hsame
  · obtain ⟨k, -, rfl⟩ := step_native h
    refine same rfl rfl fun t c x hx => .inl ?_
    have hx : (if k.core.Live t then s.micro.capabilities t else fun _ => none) c = some x := hx
    split at hx
    · exact hx
    · cases hx
  · obtain ⟨t, r, ht, hd, -, -⟩ := step_syscall h
    refine ⟨fun u c z hz => hd.caps hz, fun j hj hj' => hd.chIdx hj hj', fun i hi hi' => ?_, fun j hj hj' => ?_⟩
    · obtain ⟨rfl, hf⟩ := hd.channel hi hi'
      exact ⟨t, ht, rfl, hf⟩
    · obtain ⟨cap, i, rfl, hi, hu, hf⟩ := hd.connection hj hj'
      exact ⟨t, cap, i, ht, rfl, hi, hu, hf⟩
  · exact same hsame.channels hsame.connections hsame.caps

end Machine

/-- The machine, and what it does not keep: how often the slots have been taken, and for which incarnation
the capabilities and the connections have been obtained. -/
structure Dated where
  machine : Machine
  /-- The incarnation of a channel. -/
  channel : ℕ → ℕ
  /-- The incarnation of a connection. -/
  connection : ℕ → ℕ
  /-- The incarnation of the object that a capability has been obtained for. -/
  capFor : TaskId → ℕ → ℕ
  /-- The incarnation of its channel that a connection has been obtained for. -/
  openedFor : ℕ → ℕ

namespace Dated

variable {g g' : Dated} {a : Action} {as : List Action} {t : TaskId} {i j c : ℕ} {x : Syscall}

/-- Before anything is created. -/
def init : Dated where
  machine := .init
  channel := fun _ => 0
  connection := fun _ => 0
  capFor := fun _ _ => 0
  openedFor := fun _ => 0

omit cfg in
/-- After a step to `s`: a slot that has been taken has its next incarnation, and what has been obtained is
for the present one. -/
def put (g : Dated) (s : Machine) : Dated :=
  let channel := fun i =>
    if (g.machine.micro.channels i).used = false ∧ (s.micro.channels i).used = true then g.channel i + 1 else g.channel i
  let connection := fun j =>
    if (g.machine.micro.connections j).used = false ∧ (s.micro.connections j).used = true then g.connection j + 1
    else g.connection j
  { machine := s
    channel := channel
    connection := connection
    capFor := fun t c =>
      if g.machine.micro.capabilities t c = none then
        match (s.micro.capabilities t c).map Capability.object with
        | some (.channel i) => channel i
        | some (.connection j) => connection j
        | _ => g.capFor t c
      else g.capFor t c
    openedFor := fun j =>
      if (g.machine.micro.connections j).used = false ∧ (s.micro.connections j).used = true then
        channel (s.micro.connections j).chIdx
      else g.openedFor j }

/-- One step. -/
def step (g : Dated) (a : Action) : Option Dated := (g.machine.step a).map g.put

/-- The capabilities and connections that name an object in use have been obtained for it. -/
structure Current (g : Dated) : Prop where
  channel : ∀ t c x i, g.machine.micro.capabilities t c = some x → x.object = .channel i →
    (g.machine.micro.channels i).used = true → g.capFor t c = g.channel i
  connection : ∀ t c x j, g.machine.micro.capabilities t c = some x → x.object = .connection j →
    (g.machine.micro.connections j).used = true → g.capFor t c = g.connection j
  opened : ∀ j, (g.machine.micro.connections j).used = true →
    (g.machine.micro.channels (g.machine.micro.connections j).chIdx).used = true →
    g.openedFor j = g.channel (g.machine.micro.connections j).chIdx

/-- The capability gives access only to the channel it has been obtained for. -/
def ByChannel (g : Dated) (t : TaskId) (cap : ℤ) (rights : Rights) : Prop :=
  ∀ i, g.machine.micro.capChannel t cap rights = some i → (g.machine.micro.channels i).used = true →
    g.capFor t cap.toNat = g.channel i

/-- The capability gives access only to the connection it has been obtained for, and this only to the channel
it has been obtained for. -/
def ByConnection (g : Dated) (t : TaskId) (cap : ℤ) (rights : Rights) : Prop :=
  ∀ j, g.machine.micro.capConnection t cap rights = some j → (g.machine.micro.connections j).used = true →
    g.capFor t cap.toNat = g.connection j ∧
    ((g.machine.micro.channels (g.machine.micro.connections j).chIdx).used = true →
      g.openedFor j = g.channel (g.machine.micro.connections j).chIdx)

/-- The system call of task `t` gets at no later object of a slot. -/
def AuthorisedCall (g : Dated) (t : TaskId) : Syscall → Prop
  | .channelDestroy cap => ByChannel g t cap capControl
  | .connect cap => ByChannel g t cap capRead
  | .disconnect cap => ByConnection g t cap capControl
  | .msgReceive cap .. => ByChannel g t cap capRead
  | .msgReply cap .. => ByConnection g t cap capSignal
  | .msgSend cap msg n reply capacity => ByConnection g t cap capWrite ∧
      -- a send on a connection whose channel has been destroyed is rejected
      ∀ j, g.machine.micro.capConnection t cap capWrite = some j →
        (g.machine.micro.channels (g.machine.micro.connections j).chIdx).used = false →
        (g.machine.micro.dispatch t (.msgSend cap msg n reply capacity)).2 < 0
  | _ => True

/-- The system call of task `t` takes a slot only when nothing names it any more, and queues a message only on a
connection whose channel is in use. -/
def ExclusiveCall (g : Dated) (t : TaskId) : Syscall → Prop
  | .channelCreate => ∀ i, g.machine.micro.freeChannel = some i →
      (∀ u c x, g.machine.micro.capabilities u c = some x → x.object ≠ .channel i) ∧
      ∀ j, (g.machine.micro.connections j).used = true → (g.machine.micro.connections j).chIdx ≠ i
  | .connect cap => ∀ i j, g.machine.micro.capChannel t cap capRead = some i →
      (g.machine.micro.channels i).used = true → g.machine.micro.freeConnection = some j →
      ∀ u c x, g.machine.micro.capabilities u c = some x → x.object ≠ .connection j
  | .msgSend cap msg n reply capacity => ∀ j, g.machine.micro.capConnection t cap capWrite = some j →
      (g.machine.micro.connections j).used = true →
      (g.machine.micro.channels (g.machine.micro.connections j).chIdx).used = true ∨
        g.machine.micro.SendFails t msg n reply capacity
  | _ => True

/-- Every system call of the step gets at no later object of a slot. -/
def Authorised (g : Dated) (a : Action) : Prop :=
  ∀ t x, g.machine.userTask = some t → a = .syscall x → AuthorisedCall g t x

/-- Every system call of the step takes a slot only when nothing names it. -/
def Exclusive (g : Dated) (a : Action) : Prop :=
  ∀ t x, g.machine.userTask = some t → a = .syscall x → ExclusiveCall g t x

theorem step_eq (h : g.step a = some g') : g.machine.step a = some g'.machine ∧ g' = g.put g'.machine := by
  obtain ⟨s, hs, rfl⟩ := Option.map_eq_some_iff.mp h
  exact ⟨hs, rfl⟩

omit cfg in
/-- The incarnation of a channel that is in use before the step. -/
theorem channel_put (h : g' = g.put g'.machine) (hi : (g.machine.micro.channels i).used = true) :
    g'.channel i = g.channel i := by
  rw [h]
  exact if_neg fun e => Bool.false_ne_true (e.1.symm.trans hi)

omit cfg in
theorem connection_put (h : g' = g.put g'.machine) (hj : (g.machine.micro.connections j).used = true) :
    g'.connection j = g.connection j := by
  rw [h]
  exact if_neg fun e => Bool.false_ne_true (e.1.symm.trans hj)

theorem current_step (hk : Current g) (hc : Exclusive g a) (h : g.step a = some g') : Current g' := by
  obtain ⟨hs, hput⟩ := step_eq h
  have ht := Machine.tableStep hs
  -- a capability from before the step is for what it was for
  have hold : ∀ {t c y}, g.machine.micro.capabilities t c = some y → g'.capFor t c = g.capFor t c := by
    intro t c y hy
    rw [hput]
    exact if_neg (by rw [hy]; exact Option.some_ne_none y)
  refine ⟨fun t c x i hx ho hu => ?_, fun t c x j hx ho hu => ?_, fun j hj hu => ?_⟩
  · rcases ht.caps t c x hx with hx' | hx'
    · by_cases hi : (g.machine.micro.channels i).used = true
      · rw [hold hx', channel_put hput hi]
        exact hk.channel t c x i hx' ho hi
      · obtain ⟨u, hu', rfl, hf⟩ := ht.channel i (by simpa using hi) hu
        exact absurd ho ((hc u _ hu' rfl i hf).1 t c x hx')
    · rw [hput]
      simp only [put, hx', hx, ho, Option.map_some, if_true]
  · rcases ht.caps t c x hx with hx' | hx'
    · by_cases hj : (g.machine.micro.connections j).used = true
      · rw [hold hx', connection_put hput hj]
        exact hk.connection t c x j hx' ho hj
      · obtain ⟨u, cap, i, hu', rfl, hi, hi', hf⟩ := ht.connection j (by simpa using hj) hu
        exact absurd ho (hc u _ hu' rfl i j hi hi' hf t c x hx')
    · rw [hput]
      simp only [put, hx', hx, ho, Option.map_some, if_true]
  · by_cases hj' : (g.machine.micro.connections j).used = true
    · have he := ht.chIdx j hj' hj
      have ho : g'.openedFor j = g.openedFor j := by
        rw [hput]
        exact if_neg fun e => Bool.false_ne_true (e.1.symm.trans hj')
      rw [ho, he]
      rw [he] at hu
      by_cases hi : (g.machine.micro.channels (g.machine.micro.connections j).chIdx).used = true
      · rw [channel_put hput hi]
        exact hk.opened j hj' hi
      · obtain ⟨u, hu', rfl, hf⟩ := ht.channel _ (by simpa using hi) hu
        exact absurd rfl ((hc u _ hu' rfl _ hf).2 j hj')
    · rw [hput]
      exact if_pos ⟨by simpa using hj', hj⟩

omit cfg in
theorem current_init : Current init :=
  ⟨fun _ _ _ _ h => (nomatch h), fun _ _ _ _ h => (nomatch h), fun _ h => nomatch h⟩

theorem byChannel (hk : Current g) (cap : ℤ) (rights : Rights) : ByChannel g t cap rights := by
  intro i hi hu
  obtain ⟨x, hx, ho, -, -⟩ := Micro.capChannel_eq hi
  exact hk.channel t _ x i hx ho hu

theorem byConnection (hk : Current g) (cap : ℤ) (rights : Rights) : ByConnection g t cap rights := by
  intro j hj hu
  obtain ⟨x, hx, ho, -, -⟩ := Micro.capConnection_eq hj
  exact ⟨hk.connection t _ x j hx ho hu, hk.opened j hu⟩

theorem authorised (hk : Current g) (hc : Exclusive g a) : Authorised g a := by
  rintro t x ht rfl
  have hcall := hc t x ht rfl
  cases x with
  | msgSend cap msg n reply capacity =>
    refine ⟨byConnection hk cap capWrite, fun j hj hu => ?_⟩
    show (g.machine.micro.scMsgSend t cap msg n reply capacity).2 < 0
    by_cases hju : (g.machine.micro.connections j).used = true
    · exact (Micro.scMsgSend_failed ((hcall j hj hju).resolve_left (by rw [hu]; decide))).2
    · unfold Micro.scMsgSend
      rw [hj]
      dsimp only
      rw [if_pos (.inr (by simpa using hju))]
      exact (by decide : Code.inval < 0)
  | channelDestroy cap | connect cap | msgReceive cap => exact byChannel hk cap _
  | disconnect cap | msgReply cap => exact byConnection hk cap _
  | _ => trivial

/-- **Capabilities and connections name one incarnation** in every run in which a slot is taken only when
nothing names it any more, and nobody sends on a connection whose channel has been destroyed. -/
theorem authorised_of_path (hp : Path (Next step) Exclusive init as g) : Path (Next step) Authorised init as g ∧
    Current g := by
  have hI : ∀ g a g', Current g → Exclusive g a → Next step g a g' → Current g' :=
    fun _ _ _ hk hc h => current_step hk hc h
  exact ⟨(hp.withInvariant hI current_init).mono fun _ _ h => authorised h.1 h.2, hp.invariant hI current_init⟩

end Dated

end Aixos

namespace Aixos.Dated

open Transition Aixos.Core

attribute [local instance] Config.default

/-- User task 1, whom nothing has been granted yet. -/
def userStarted : List Action :=
  (Sys.boot [{ stackSize := 512, priority := 3 }, { stackSize := 512, priority := 9, userTask := true }] true).map .native ++
  [.native (.call .timerServiceWait), .native .switch, .regionAdd 1 Machine.sharedRegion]

/-- It makes a channel and waits on it. -/
theorem userStarted_authorised : ∃ g, Path (Next step) Authorised init
      (userStarted ++ [.syscall .channelCreate] ++ [.syscall (.msgReceive 0 4096 16)]) g ∧ Current g ∧
    (g.machine.core.tasks 1).wait = some (.msgReceive 0) ∧ g.capFor 1 0 = 1 ∧ g.channel 0 = 1 := by
  obtain ⟨g, g₁, hr, h₁, -⟩ := exists_run_step step init userStarted (.syscall .channelCreate) (fun _ _ => true)
    (by decide +kernel)
  -- no system call has been made yet, so there are no capabilities and no connections
  have hpath := (path_iff_run.mpr hr).both (P := fun a => (∃ b, a = .native b) ∨ ∃ t r, a = .regionAdd t r)
    (by simp [userStarted, Sys.boot])
  have hnone : (∀ t c, g.machine.micro.capabilities t c = none) ∧ ∀ j, (g.machine.micro.connections j).used = false := by
    refine hpath.invariant (I := fun g => (∀ t c, g.machine.micro.capabilities t c = none) ∧
      ∀ j, (g.machine.micro.connections j).used = false) (fun g a g' hg hc h => ?_) ⟨fun _ _ => rfl, fun _ => rfl⟩
    obtain ⟨hs, -⟩ := step_eq h
    rcases hc.2 with ⟨b, rfl⟩ | ⟨t, r, rfl⟩
    · obtain ⟨k, -, e⟩ := Machine.step_native hs
      rw [e]
      refine ⟨fun t c => ?_, hg.2⟩
      show (if k.core.Live t then g.machine.micro.capabilities t else fun _ => none) c = none
      split
      · exact hg.1 t c
      · rfl
    · simp only [Machine.step] at hs
      split at hs
      · cases hs
      · rw [← Option.some.inj hs]
        exact hg
  have hp₀ : Path (Next step) Exclusive init userStarted g := by
    refine hpath.mono fun g a ha t x _ e => ?_
    subst e
    simp at ha
  have hp₁ := hp₀.append (.cons (fun t x _ e => ?_) h₁ (.nil g₁))
  · obtain ⟨g₁', g₂, hr₁, h₂, hp⟩ := exists_run_step step init (userStarted ++ [.syscall .channelCreate])
      (.syscall (.msgReceive 0 4096 16)) (fun _ g => decide ((g.machine.core.tasks 1).wait = some (.msgReceive 0) ∧
        g.capFor 1 0 = 1 ∧ g.channel 0 = 1)) (by decide +kernel)
    obtain rfl : g₁ = g₁' := Option.some.inj (hp₁.run_eq.symm.trans hr₁)
    obtain ⟨ha, hc⟩ := authorised_of_path (hp₁.append (.cons (fun t x _ e => by cases e; trivial) h₂ (.nil g₂)))
    exact ⟨g₂, ha, hc, of_decide_eq_true hp⟩
  · cases e
    refine fun i _ => ⟨fun u c x hx => ?_, fun j hj => ?_⟩
    · rw [hnone.1 u c] at hx
      cases hx
    · rw [hnone.2 j] at hj
      cases hj

/-- Task 1 makes channel 0, connects to it and destroys it. -/
def channelDestroyed : List Action := Traced.channelConnected ++ [.syscall (.channelDestroy 0)]

/-- The connection leads to a channel that is not in use, and after another creation to a later one; messages
that are sent on it are taken. -/
theorem channelDestroyed_not_authorised :
    (∃ g g', run step init channelDestroyed = some g ∧ g.step (.syscall (.msgSend 1 4096 4 0 0)) = some g' ∧
      (g.machine.micro.channels 0).used = false ∧ g'.machine.ret 1 = some (.code Code.ok) ∧
      (g'.machine.core.tasks 1).wait = some (.msgSend 0) ∧
      ¬ Authorised g (.syscall (.msgSend 1 4096 4 0 0))) ∧
    ∃ g g', run step init (channelDestroyed ++ [.syscall .channelCreate]) = some g ∧
      g.step (.syscall (.msgSend 1 4096 4 0 0)) = some g' ∧
      (g.machine.micro.channels 0).used = true ∧ (g'.machine.micro.channels 0).pendingMsgs = [0] ∧
      ¬ Authorised g (.syscall (.msgSend 1 4096 4 0 0)) := by
  constructor
  · obtain ⟨g, g', hr, hs, hp⟩ := exists_run_step step init channelDestroyed (.syscall (.msgSend 1 4096 4 0 0))
      (fun g g' => decide ((g.machine.userTask = some 1 ∧ g.machine.micro.capConnection 1 1 capWrite = some 0 ∧
        (g.machine.micro.connections 0).chIdx = 0 ∧ (g.machine.micro.channels 0).used = false ∧
        g'.machine.ret 1 = some (.code Code.ok) ∧ (g'.machine.core.tasks 1).wait = some (.msgSend 0)) ∧
        ¬ (g.machine.micro.dispatch 1 (.msgSend 1 4096 4 0 0)).2 < 0)) (by decide +kernel)
    obtain ⟨⟨ht, hj, hi, hu, hret, hw⟩, hn⟩ := of_decide_eq_true hp
    refine ⟨g, g', hr, hs, hu, hret, hw, fun ha => hn ?_⟩
    exact (ha 1 _ ht rfl).2 0 hj (by rw [hi]; exact hu)
  · obtain ⟨g, g', hr, hs, hp⟩ := exists_run_step step init (channelDestroyed ++ [.syscall .channelCreate])
      (.syscall (.msgSend 1 4096 4 0 0))
      (fun g g' => decide (g.machine.userTask = some 1 ∧ g.machine.micro.capConnection 1 1 capWrite = some 0 ∧
        (g.machine.micro.connections 0).used = true ∧ (g.machine.micro.connections 0).chIdx = 0 ∧
        (g.machine.micro.channels 0).used = true ∧ (g'.machine.micro.channels 0).pendingMsgs = [0] ∧
        g.openedFor 0 = 1 ∧ g.channel 0 = 2)) (by decide +kernel)
    obtain ⟨ht, hj, hju, hi, hu, hq, ho, hc⟩ := of_decide_eq_true hp
    refine ⟨g, g', hr, hs, hu, hq, fun ha => ?_⟩
    have := ((ha 1 _ ht rfl).1 0 hj hju).2 (by rw [hi]; exact hu)
    rw [ho, hi, hc] at this
    cases this

end Aixos.Dated
