import Aixos.Messages.Queues
import Aixos.System.Machine

/-!
# The tasks the tables name

The tables keep pointers to tasks: `channels[i].receiver` and `pending_msgs[p].sender`. Suspending
or deleting a task ends its wait and leaves the pointers to it as they are.

* `Machine.Named` — the tasks that the tables name wait for what the tables say.
* `Machine.SparesNamed` — no task that the tables name is suspended or deleted.
* `Machine.noneStale_of_path` — in runs that spare them, nobody in the tables is stale, and a send or
  a reply touches only the tasks it is for.
-/

namespace Aixos

open Transition Aixos.Core

variable [cfg : Config]

namespace Micro

/-- The wait that a system call of task `t` is to end. -/
def Addresses (m : Micro) (t : TaskId) : Syscall → Wait → Prop
  | .msgSend cap .., .msgReceive i => ∃ j, m.capConnection t cap capWrite = some j ∧ (m.connections j).chIdx = i
  | .msgReply cap .., .msgSend p => ∃ j, m.capConnection t cap capSignal = some j ∧
      p ∈ (m.channels (m.connections j).chIdx).pendingMsgs ∧ (m.pendingMsgs p).senderConnIdx = j
  | _, _ => False

end Micro

namespace Machine

variable {s s' : Machine} {a : Action} {as : List Action} {t u : TaskId} {x : Syscall} {r : Code}

/-- The tasks that the tables name wait for what the tables say. -/
structure Named (s : Machine) : Prop where
  receiver : ∀ i u, (s.micro.channels i).receiver = some u → (s.core.tasks u).wait = some (.msgReceive i)
  sender : ∀ p, (s.micro.pendingMsgs p).used = true →
    ∃ u, (s.micro.pendingMsgs p).sender = some u ∧ (s.core.tasks u).wait = some (.msgSend p)

/-- Task `t` is in one of the tables. -/
def InTables (s : Machine) (t : TaskId) : Prop :=
  (∃ i, (s.micro.channels i).receiver = some t) ∨
    ∃ p, (s.micro.pendingMsgs p).used = true ∧ (s.micro.pendingMsgs p).sender = some t

/-- No task that is in one of the tables is suspended or deleted; and the start is clean. -/
structure SparesNamed (s : Machine) (a : Action) : Prop where
  clean : StartsClean s a
  spares : ∀ b t, a = .native b → Sys.Stops b t → ¬ InTables s t

omit cfg in
/-- The receivers stay or go, and the tasks and the messages are the same. -/
theorem Named.of_core (hn : Named s) (hc : s'.core = s.core) (hp : s'.micro.pendingMsgs = s.micro.pendingMsgs)
    (hr : ∀ i, (s'.micro.channels i).receiver = (s.micro.channels i).receiver ∨ (s'.micro.channels i).receiver = none) :
    Named s' where
  receiver i u hu := by
    rw [hc]
    rcases hr i with e | e
    · exact hn.receiver i u (e ▸ hu)
    · rw [e] at hu
      cases hu
  sender p hu := by
    rw [hp] at hu ⊢
    rw [hc]
    exact hn.sender p hu

/-- The task that runs is in none of the tables. -/
theorem Named.not_running (hn : Named s) (hk : Ok s) (hst : (s.core.tasks t).state = .running) : ¬ InTables s t := by
  have hw : (s.core.tasks t).wait = none := hk.sound.wf.wait_eq_none_of_isReady (.inr hst)
  rintro (⟨i, hi⟩ | ⟨p, hu, hp⟩)
  · rw [hn.receiver i t hi] at hw
    cases hw
  · obtain ⟨u, hu, hwait⟩ := hn.sender p hu
    obtain rfl : t = u := Option.some.inj (hp.symm.trans hu)
    rw [hwait] at hw
    cases hw

theorem named_sent {p i : ℕ} {pm : PendingMsg} (hn : Named s) (ht : ¬ InTables s t) (hu : pm.sender = some t)
    (hq : s.micro.Queued s'.micro t p i pm) : Named s' where
  receiver j u hj := by
    rw [hq.channels, Function.update_apply] at hj
    split at hj
    · cases hj
    · rename_i hne
      have hw := hn.receiver j u hj
      have hut : u ≠ t := by
        rintro rfl
        exact ht (.inl ⟨j, hj⟩)
      have hr : (s.micro.channels i).receiver ≠ some u := by
        intro e
        rw [hn.receiver i u e] at hw
        cases hw
        exact hne rfl
      exact (hq.other u hut hr).1.trans hw
  sender q hq' := by
    rw [hq.pendingMsgs, Function.update_apply] at hq' ⊢
    split at hq'
    · rename_i e
      rw [if_pos e, e]
      exact ⟨t, hu, hq.self⟩
    · rename_i hne
      rw [if_neg hne]
      obtain ⟨u, hs, hw⟩ := hn.sender q hq'
      have hut : u ≠ t := by
        rintro rfl
        exact ht (.inr ⟨q, hq', hs⟩)
      have hr : (s.micro.channels i).receiver ≠ some u := by
        intro e
        rw [hn.receiver i u e] at hw
        cases hw
      exact ⟨u, hs, (hq.other u hut hr).1.trans hw⟩

theorem named_awaited {i : ℕ} (hn : Named s) (ht : ¬ InTables s t) (hq : s.micro.Awaits s'.micro t i) : Named s' where
  receiver j u hj := by
    rw [hq.channels, Function.update_apply] at hj
    split at hj
    · rename_i e
      cases hj
      rw [e]
      exact hq.self
    · have hut : u ≠ t := by
        rintro rfl
        exact ht (.inl ⟨j, hj⟩)
      exact (hq.other u hut).1.trans (hn.receiver j u hj)
  sender p hp := by
    rw [hq.pendingMsgs] at hp ⊢
    obtain ⟨u, hs, hw⟩ := hn.sender p hp
    have hut : u ≠ t := by
      rintro rfl
      exact ht (.inr ⟨p, hp, hs⟩)
    exact ⟨u, hs, (hq.other u hut).1.trans hw⟩

theorem named_answered {p : ℕ} {m : Micro} (hn : Named s) (hm : m.core = s.core)
    (hp : m.pendingMsgs = s.micro.pendingMsgs) (hc : ∀ i, (m.channels i).receiver = (s.micro.channels i).receiver)
    (hu : (s.micro.pendingMsgs p).used = true) (ha : m.Answers s'.micro p) : Named s' := by
  obtain ⟨v, hv, hvw⟩ := hn.sender p hu
  have keep : ∀ {u w}, (s.core.tasks u).wait = some w → w ≠ .msgSend p → (s'.core.tasks u).wait = some w := by
    intro u w hw hne
    refine (ha.other u ?_).1.trans ?_
    · rw [hp, hv]
      intro e
      cases e
      rw [hvw] at hw
      cases hw
      exact hne rfl
    · rw [hm]
      exact hw
  constructor
  · intro i u hi
    rw [ha.channels, hc] at hi
    exact keep (hn.receiver i u hi) (by simp)
  · intro q hq
    rw [ha.pendingMsgs, Function.update_apply] at hq ⊢
    split at hq
    · cases hq
    · rename_i hne
      rw [if_neg hne]
      rw [hp] at hq ⊢
      obtain ⟨u, hs, hw⟩ := hn.sender q hq
      exact ⟨u, hs, keep hw (by simpa using hne)⟩

/-- What is known of every state of a run that spares the tasks in the tables. -/
structure Fresh (s : Machine) : Prop where
  ok : Ok s
  queues : s.micro.Queues
  named : Named s

theorem named_step (hf : Fresh s) (hc : SparesNamed s a) (h : s.step a = some s') : Named s' := by
  have hn := hf.named
  rcases step_tables h with ⟨b, rfl⟩ | ⟨x, rfl⟩ | hsame
  · obtain ⟨k, hstep, rfl⟩ := step_native h
    have keep : ∀ {u w}, InTables s u → (s.core.tasks u).wait = some w → w.isMsg = true →
        (k.core.tasks u).wait = some w := fun hu hw hm =>
      Sys.msgWait_kept hf.ok.sound hf.ok.untimed hw hm (fun hb => hc.spares b _ rfl hb hu) hstep
    constructor
    · exact fun i u hi => keep (.inl ⟨i, hi⟩) (hn.receiver i u hi) rfl
    · intro p hp
      obtain ⟨u, hs, hw⟩ := hn.sender p hp
      exact ⟨u, hs, keep (.inr ⟨p, hp, hs⟩) hw rfl⟩
  · obtain ⟨t, r, ht, hd, -, -⟩ := step_syscall h
    obtain ⟨hcur, hst⟩ := userTask_runs ht
    have hnot := hn.not_running hf.ok hst
    generalize hm' : s'.micro = m' at hd
    cases hd with
    | refused => exact hn.of_core (by rw [core, hm']) (by rw [hm']) fun i => .inl (by rw [hm'])
    | capClosed | notConnected | connected | disconnected =>
      exact hn.of_core (by rw [core, hm']; rfl) (by rw [hm']; rfl) fun i => .inl (by rw [hm']; rfl)
    | created | notCreated =>
      refine hn.of_core (by rw [core, hm']; rfl) (by rw [hm']; rfl) fun i => ?_
      rw [hm']
      show (Function.update s.micro.channels _ _ i).receiver = _ ∨ (Function.update s.micro.channels _ _ i).receiver = _
      rw [Function.update_apply]
      split
      · exact .inr rfl
      · exact .inl rfl
    | destroyed | delivered | notDelivered | notAnswered =>
      refine hn.of_core (by rw [core, hm']; rfl) (by rw [hm']; rfl) fun i => .inl ?_
      rw [hm']
      show (Function.update s.micro.channels _ _ i).receiver = _
      rw [Function.update_apply]
      split
      · rename_i e
        rw [e]
      · rfl
    | @sent _ _ _ _ _ j p pm _ _ _ _ hu =>
      have hq : s.micro.Queued s'.micro t p (s.micro.connections j).chIdx pm := by
        rw [hm']
        exact Micro.queued hf.ok.sound hcur hst
      exact named_sent hn hnot hu hq
    | @awaited _ _ _ i =>
      have hq : s.micro.Awaits s'.micro t i := by
        rw [hm']
        exact Micro.awaits hf.ok.sound hcur hst
      exact named_awaited hn hnot hq
    | @answered _ _ _ j p memory _ _ hp =>
      have hp := (Micro.found_eq hp).1
      refine named_answered (m := { s.micro.unqueue (s.micro.connections j).chIdx p with memory := memory }) hn rfl rfl
        (fun i => ?_) (hf.queues.used _ p hp) ?_
      · show (Function.update s.micro.channels _ _ i).receiver = _
        rw [Function.update_apply]
        split
        · rename_i e
          rw [e]
        · rfl
      · rw [hm']
        exact Micro.answers (m := { s.micro.unqueue (s.micro.connections j).chIdx p with memory := memory }) hf.ok.sound p
  · exact hn.of_core (congrArg Kernel.core hsame.kernel) hsame.pendingMsgs fun i => .inl (by rw [hsame.channels])

theorem fresh_step (hf : Fresh s) (hc : SparesNamed s a) (h : s.step a = some s') : Fresh s' :=
  ⟨ok_step hf.ok hc.clean h, queues_step hf.queues h, named_step hf hc h⟩

theorem fresh_init : Fresh init :=
  ⟨ok_init, queues_init, fun _ _ h => (nomatch h), fun _ h => nomatch h⟩

/-! ### The law -/

/-- No task that the tables name is stale. -/
structure NoneStale (s : Machine) : Prop where
  /-- The receiver of a channel is live and blocked in `sc_msg_receive` on this channel. -/
  receiver : ∀ i u, (s.micro.channels i).receiver = some u → s.core.Live u ∧ (s.core.tasks u).state = .blocked ∧
    (s.core.tasks u).wait = some (.msgReceive i)
  /-- The sender of a message is live and blocked in `sc_msg_send` on this message. -/
  sender : ∀ p, (s.micro.pendingMsgs p).used = true → ∃ u, (s.micro.pendingMsgs p).sender = some u ∧
    s.core.Live u ∧ (s.core.tasks u).state = .blocked ∧ (s.core.tasks u).wait = some (.msgSend p)

/-- A system call touches only the tasks it is for. -/
structure SparesOthers (s : Machine) (x : Syscall) (s' : Machine) : Prop where
  /-- It ends no other wait, and stores no other wait result. -/
  waits : ∀ t u, s.userTask = some t → u ≠ t → ((s'.core.tasks u).wait ≠ (s.core.tasks u).wait ∨
    (s'.core.tasks u).waitResult ≠ (s.core.tasks u).waitResult) →
    s.core.Live u ∧ ∃ w, (s.core.tasks u).wait = some w ∧ s.micro.Addresses t x w
  /-- The bytes of a reply go to the buffer of a task that waits for it. -/
  bytes : ∀ t cap reply n a, s.userTask = some t → x = .msgReply cap reply n → s'.micro.memory a ≠ s.micro.memory a →
    ∃ p u, (s.micro.pendingMsgs p).sender = some u ∧ s.core.Live u ∧ (s.core.tasks u).wait = some (.msgSend p) ∧
      s.micro.Addresses t x (.msgSend p) ∧ Micro.InReply (s.micro.pendingMsgs p) a

theorem blocked_of_msgWait {w : Wait} (hk : Ok s) (hw : (s.core.tasks u).wait = some w) (hm : w.isMsg = true) :
    s.core.Live u ∧ (s.core.tasks u).state = .blocked := by
  have hne : (s.core.tasks u).wait ≠ none := by
    rw [hw]
    exact Option.some_ne_none _
  refine ⟨hk.sound.wf.live_of_wait hne, ((hk.sound.wf.waiting u).mp hne).resolve_right fun hd => ?_⟩
  rw [(hk.sound.wf.delayed u).mp hd] at hw
  cases hw
  cases hm

theorem Fresh.noneStale (hf : Fresh s) : NoneStale s where
  receiver i u hi := by
    have hw := hf.named.receiver i u hi
    obtain ⟨h₁, h₂⟩ := blocked_of_msgWait hf.ok hw rfl
    exact ⟨h₁, h₂, hw⟩
  sender p hp := by
    obtain ⟨u, hs, hw⟩ := hf.named.sender p hp
    obtain ⟨h₁, h₂⟩ := blocked_of_msgWait hf.ok hw rfl
    exact ⟨u, hs, h₁, h₂, hw⟩

/-- **A system call touches only the tasks it is for**, where nobody in the tables is stale. -/
theorem sparesOthers (hf : Fresh s) (h : s.step (.syscall x) = some s') : SparesOthers s x s' := by
  obtain ⟨t, r, ht, hd, -, -⟩ := step_syscall h
  obtain ⟨hcur, hst⟩ := userTask_runs ht
  -- a call that leaves the tasks alone
  have quiet : s'.core = s.core → (∀ cap reply n, x = .msgReply cap reply n → s'.micro.memory = s.micro.memory) →
      SparesOthers s x s' := by
    intro hc hm
    refine ⟨fun t u _ _ hne => ?_, fun t cap reply n a _ e hne => ?_⟩
    · rw [hc] at hne
      simp at hne
    · rw [hm cap reply n e] at hne
      exact absurd rfl hne
  generalize hm' : s'.micro = m' at hd
  cases hd with
  | refused => exact quiet (by rw [core, hm']) fun _ _ _ _ => by rw [hm']
  | notAnswered => exact quiet (by rw [core, hm']; rfl) fun _ _ _ _ => by rw [hm']; rfl
  | capClosed | notConnected | connected | disconnected | created | notCreated | destroyed | delivered | notDelivered =>
    exact quiet (by rw [core, hm']; rfl) fun _ _ _ e => by cases e
  | @sent cap _ _ _ _ j p pm hj =>
    have hq : s.micro.Queued s'.micro t p (s.micro.connections j).chIdx pm := by
      rw [hm']
      exact Micro.queued hf.ok.sound hcur hst
    refine ⟨fun v u hv hne hch => ?_, fun _ _ _ _ _ _ e => by cases e⟩
    obtain rfl : t = v := Option.some.inj (ht.symm.trans hv)
    by_cases hr : (s.micro.channels (s.micro.connections j).chIdx).receiver = some u
    · have hw := hf.named.receiver _ u hr
      exact ⟨(blocked_of_msgWait hf.ok hw rfl).1, _, hw, j, hj, rfl⟩
    · obtain ⟨e₁, e₂, -⟩ := hq.other u hne hr
      exact absurd hch (by simp [e₁, e₂])
  | @awaited _ _ _ i =>
    have hq : s.micro.Awaits s'.micro t i := by
      rw [hm']
      exact Micro.awaits hf.ok.sound hcur hst
    refine ⟨fun v u hv hne hch => ?_, fun _ _ _ _ _ _ e => by cases e⟩
    obtain rfl : t = v := Option.some.inj (ht.symm.trans hv)
    obtain ⟨e₁, e₂, -⟩ := hq.other u hne
    exact absurd hch (by simp [e₁, e₂])
  | @answered cap _ _ j p memory hj _ hp hmem =>
    obtain ⟨hp, hconn⟩ := Micro.found_eq hp
    have ha : Micro.Answers { s.micro.unqueue (s.micro.connections j).chIdx p with memory := memory } s'.micro p := by
      rw [hm']
      exact Micro.answers (m := { s.micro.unqueue (s.micro.connections j).chIdx p with memory := memory }) hf.ok.sound p
    obtain ⟨w, hs, hw⟩ := hf.named.sender p (hf.queues.used _ p hp)
    have hlive := (blocked_of_msgWait hf.ok hw rfl).1
    refine ⟨fun v u hv hne hch => ?_, fun v cap' reply' n' b hv e hb => ?_⟩
    · obtain rfl : t = v := Option.some.inj (ht.symm.trans hv)
      by_cases hu : (s.micro.pendingMsgs p).sender = some u
      · obtain rfl : w = u := Option.some.inj (hs.symm.trans hu)
        exact ⟨hlive, _, hw, j, hj, hp, hconn⟩
      · obtain ⟨e₁, e₂, -⟩ := ha.other u hu
        exact absurd hch (by rw [e₁, e₂]; simp [Micro.unqueue, Micro.setChannel])
    · obtain rfl : t = v := Option.some.inj (ht.symm.trans hv)
      have hb : memory b ≠ s.micro.memory b := by
        rw [hm'] at hb
        unfold Micro.replyWake at hb
        dsimp only at hb
        split at hb
        · exact hb
        · exact hb
      exact ⟨p, w, hs, hlive, hw, ⟨j, hj, hp, hconn⟩, hmem b hb⟩

/-- **Synchronous messages never act on a stale task** in every run in which no task that the tables name
is suspended or deleted. -/
theorem noneStale_of_path (hp : Path (Next step) SparesNamed init as s) :
    NoneStale s ∧ ∀ x s', s.step (.syscall x) = some s' → SparesOthers s x s' := by
  have hf : Fresh s := hp.invariant (I := Fresh) (fun _ _ _ hf hc h => fresh_step hf hc h) fresh_init
  exact ⟨hf.noneStale, fun x s' h => sparesOthers hf h⟩

end Machine

end Aixos

namespace Aixos.Machine

open Transition Aixos.Core

attribute [local instance] Config.default

/-- Where the user tasks of the runs below have their buffers. -/
def sharedRegion : MpuRegion := { base := 4096, size := 256, read := true, write := true }

/-- Kernel task 0 and the user tasks 1 and 2. Task 1, of the highest priority, makes channel 0 and waits on
it; task 2 has a capability for it. -/
def awaitingReceiver : List Action :=
  (Sys.boot [{ stackSize := 512, priority := 3 }, { stackSize := 512, priority := 9, userTask := true },
    { stackSize := 512, priority := 2, userTask := true }] true).map .native ++
  [.native (.call .timerServiceWait), .native .switch, .regionAdd 1 sharedRegion, .regionAdd 2 sharedRegion,
    .syscall .channelCreate, .syscall .channelCreate, .syscall (.connect 1), .capGrantDirect 2 (.channel 0) capRead,
    .syscall (.msgReceive 0 4096 16), .native .switch]

/-- Task 0 sleeps, and task 2 connects to channel 0 and sends a message on it, which wakes task 1. -/
def receiverWoken : List Action :=
  awaitingReceiver ++ [.native (.call (.taskSleep 100)), .native .switch, .syscall (.connect 0),
    .syscall (.msgSend 1 4096 4 0 0), .native .switch, .capGrantDirect 1 (.connection 1) capSignal]

theorem receiverWoken_noneStale : ∃ s s', run step init receiverWoken = some s ∧
    s.step (.syscall (.msgReply 3 4096 0)) = some s' ∧ (s.core.tasks 2).wait = some (.msgSend 0) ∧
    (s'.core.tasks 2).wait = none ∧ NoneStale s ∧ SparesOthers s (.msgReply 3 4096 0) s' := by
  obtain ⟨s, s', hr, hs, hp⟩ := exists_run_step step init receiverWoken (.syscall (.msgReply 3 4096 0)) (fun s s' =>
    decide ((s.core.tasks 2).wait = some (.msgSend 0) ∧ (s'.core.tasks 2).wait = none)) (by decide +kernel)
  obtain ⟨h₁, h₂⟩ := of_decide_eq_true hp
  -- nobody is suspended or deleted
  have hpath : Path (Next step) (fun s a => StartsClean s a ∧ ∀ t, a ≠ .native (.call (.taskSuspend t)) ∧
      a ≠ .native (.call (.taskDelete t))) init receiverWoken s := by
    rw [receiverWoken, awaitingReceiver, List.append_assoc] at hr
    exact (path_of_boot hr).both (by simp [Sys.boot])
  obtain ⟨hn, hx⟩ := noneStale_of_path (hpath.mono fun s a ha => ⟨ha.1, fun b t e hb => by
    rcases hb with rfl | rfl
    · exact absurd e (ha.2 t).1
    · exact absurd e (ha.2 t).2⟩)
  exact ⟨s, s', hr, hs, h₁, h₂, hn, hx _ _ hs⟩

/-- Task 0 suspends and resumes task 1, which then sends a message on channel 1 and waits for the reply;
channel 0 still names it as its receiver. -/
def receiverSuspended : List Action :=
  awaitingReceiver ++ [.native (.call (.taskSuspend 1)), .native (.call (.taskResume 1)), .native .switch,
    .syscall (.msgSend 2 4096 4 0 0), .native .switch, .native (.call (.taskSuspend 0)), .native .switch,
    .syscall (.connect 0)]

/-- A message that task 2 sends on channel 0 ends the wait of task 1 for its reply. -/
theorem receiverSuspended_not_noneStale : ∃ s s', run step init receiverSuspended = some s ∧
    s.step (.syscall (.msgSend 1 4096 4 0 0)) = some s' ∧ (s.micro.channels 0).used = true ∧
    (s.micro.channels 0).receiver = some 1 ∧ (s.core.tasks 1).wait = some (.msgSend 0) ∧
    (s'.core.tasks 1).wait = none ∧ (s'.micro.pendingMsgs 0).used = true ∧
    ¬ NoneStale s ∧ ¬ SparesOthers s (.msgSend 1 4096 4 0 0) s' := by
  obtain ⟨s, s', hr, hs, hp⟩ := exists_run_step step init receiverSuspended (.syscall (.msgSend 1 4096 4 0 0))
    (fun s s' => decide (s.userTask = some 2 ∧ (s.micro.channels 0).used = true ∧
      (s.micro.channels 0).receiver = some 1 ∧ (s.core.tasks 1).wait = some (.msgSend 0) ∧
      (s'.core.tasks 1).wait = none ∧ (s'.micro.pendingMsgs 0).used = true)) (by decide +kernel)
  obtain ⟨ht, hu, hrec, hw, hp, hu'⟩ := of_decide_eq_true hp
  refine ⟨s, s', hr, hs, hu, hrec, hw, hp, hu', fun hn => ?_, fun hx => ?_⟩
  · have := (hn.receiver 0 1 hrec).2.2
    rw [hw] at this
    cases this
  · obtain ⟨-, w, e, ha⟩ := hx.waits 2 1 ht (by decide) (.inl (by rw [hp, hw]; simp))
    rw [hw] at e
    cases e
    exact ha

end Aixos.Machine
