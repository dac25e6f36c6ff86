import Aixos.System.Dispatch

/-!
# What the system calls do to the tasks

* `Core.Woke` — what waking one task does to the waits.
* `Micro.Queued`, `Micro.Awaits`, `Micro.Answers` — the three calls that touch tasks.
* `Machine.sound_step`, `Machine.untimed_step` — what every step keeps.
-/

namespace Aixos

open Transition Aixos.Core

variable [cfg : Config]

namespace Core

variable {c c' : Core} {t u : TaskId}

/-- Task `t` waits no longer, and the waits of the others are as before. -/
structure Woke (c c' : Core) (t : TaskId) : Prop where
  sound : Sound c'
  self : (c'.tasks t).wait = none
  other : ∀ u, u ≠ t → (c'.tasks u).wait = (c.tasks u).wait ∧ (c'.tasks u).waitResult = (c.tasks u).waitResult ∧
    (u ∈ c'.timeoutList ↔ u ∈ c.timeoutList)
  cur : c'.cur = c.cur
  running : c'.running = c.running
  runs : ∀ u, (c.tasks u).state = .running → (c'.tasks u).state = .running

theorem woke (h : Sound c) (t : TaskId) (r : Code) : Woke c (c.taskWake t r) t := by
  have hs := h.taskWake t r
  by_cases hw : (c.tasks t).state = .blocked ∨ (c.tasks t).state = .delayed
  · refine ⟨hs, (taskWake_self h.wf.isFiled hw r).1, fun u hu => ?_, taskWake_cur h.wf.isFiled t r,
      taskWake_running h.wf.isFiled t r, fun u hu => ?_⟩
    · rcases taskWake_ended (E := fun u _ => u = t) h.wf.isFiled (fun _ => rfl) u with e | ⟨-, e⟩
      · exact e
      · exact absurd e hu
    · have hne : u ≠ t := by
        rintro rfl
        rw [hu] at hw
        simp at hw
      have hd := taskDetachWaitLocked_detached h.wf.isFiled t r
      unfold taskWake
      rw [if_pos hw]
      obtain ⟨a, b, e⟩ := schedRequestPreemption_eq
        (((c.taskDetachWaitLocked t r).setTask t fun b => { b with state := .ready }).schedAddTask t)
      dsimp only
      rw [e]
      dsimp only
      rw [schedAddTask_tasks, setTask_ne _ _ _ hne, hd.other u hne]
      exact hu
  · have e : c.taskWake t r = c := by
      unfold taskWake
      rw [if_neg hw]
    rw [e]
    refine ⟨h, ?_, fun _ _ => ⟨rfl, rfl, Iff.rfl⟩, rfl, rfl, fun _ hu => hu⟩
    by_contra hne
    exact hw ((h.wf.waiting t).mp hne)

/-- Storing a wait result before the task is woken does not matter. -/
theorem woke_of_result (h : Sound c) (t : TaskId) (x r : Code) :
    Woke c ((c.setTask t fun b => { b with waitResult := x }).taskWake t r) t := by
  have ht : ∀ u, (c.setTask t fun b => { b with waitResult := x }).tasks u =
      { c.tasks u with waitResult := ((c.setTask t fun b => { b with waitResult := x }).tasks u).waitResult } := by
    intro u
    rw [setTask_apply]
    split
    · rename_i e
      rw [e]
    · rfl
  have hs : Sound (c.setTask t fun b => { b with waitResult := x }) := by
    refine h.similar ⟨rfl, fun u => ?_, fun _ => .refl _⟩ rfl ?_ (fun u => ?_) (h.wf.cur.congr rfl rfl rfl fun u hu => ?_)
    · rw [ht u]
      exact ⟨rfl, rfl, .inl rfl⟩
    · funext u
      show ((c.setTask t fun b => { b with waitResult := x }).tasks u).priority = _
      rw [ht u]
      rfl
    · rw [ht u]
    · rw [ht u] at hu
      exact hu
  obtain ⟨h₁, h₂, h₃, h₄, h₅, h₆⟩ := woke hs t r
  refine ⟨h₁, h₂, fun u hu => ?_, h₄, h₅, fun u hu => h₆ u ?_⟩
  · obtain ⟨e₁, e₂, e₃⟩ := h₃ u hu
    rw [setTask_ne _ _ _ hu] at e₁ e₂
    exact ⟨e₁, e₂, e₃⟩
  · rw [ht u]
    exact hu

end Core

namespace Micro

variable {m m' : Micro} {t u : TaskId} {i j p : ℕ} {pm : PendingMsg}

/-- What `sc_msg_send` does when it queues message `p` on channel `i`. -/
structure Queued (m m' : Micro) (t : TaskId) (p i : ℕ) (pm : PendingMsg) : Prop where
  sound : Sound m'.core
  self : (m'.core.tasks t).wait = some (.msgSend p)
  untimed : t ∉ m'.core.timeoutList
  /-- The receiver is woken, and nobody else. -/
  receiver : ∀ u, u ≠ t → (m.channels i).receiver = some u → (m'.core.tasks u).wait = none
  other : ∀ u, u ≠ t → (m.channels i).receiver ≠ some u → (m'.core.tasks u).wait = (m.core.tasks u).wait ∧
    (m'.core.tasks u).waitResult = (m.core.tasks u).waitResult ∧ (u ∈ m'.core.timeoutList ↔ u ∈ m.core.timeoutList)
  channels : m'.channels = Function.update m.channels i
    { m.channels i with pendingMsgs := (m.channels i).pendingMsgs ++ [p], receiver := none }
  running : m'.core.running = m.core.running
  connections : m'.connections = m.connections
  pendingMsgs : m'.pendingMsgs = Function.update m.pendingMsgs p pm
  capabilities : m'.capabilities = m.capabilities

theorem queued (hs : Sound m.core) (hcur : m.core.cur = some t) (hst : (m.core.tasks t).state = .running) :
    Queued m (m.msgQueue t p i pm) t p i pm := by
  unfold msgQueue wakeReceiver
  dsimp only [setChannel, setPendingMsg, setCore, core]
  rw [Function.update_self]
  cases hr : (m.channels i).receiver with
  | none =>
    dsimp only
    have hb := msgBlocked (w := .msgSend p) hs hcur hst rfl
    refine ⟨hb.sound, hb.self, hb.untimed, fun u _ e => ?_, fun u hu _ => hb.other u hu, rfl, hb.running, rfl, rfl, rfl⟩
    rw [hr] at e
    cases e
  | some r =>
    dsimp only
    have hw := woke hs r Code.ok
    have hb := msgBlocked (w := .msgSend p) hw.sound (hw.cur.trans hcur) (hw.runs t hst) rfl
    refine ⟨hb.sound, hb.self, hb.untimed, fun u hu e => ?_, fun u hu hne => ?_, ?_, hb.running.trans hw.running,
      rfl, rfl, rfl⟩
    · rw [hr] at e
      cases e
      exact (hb.other r hu).1.trans hw.self
    · obtain ⟨h₁, h₂, h₃⟩ := hb.other u hu
      obtain ⟨h₄, h₅, h₆⟩ := hw.other u fun e => hne (by rw [hr, e])
      exact ⟨h₁.trans h₄, h₂.trans h₅, h₃.trans h₆⟩
    · rw [Function.update_idem]

/-- What `sc_msg_receive` does when it blocks on channel `i`. -/
structure Awaits (m m' : Micro) (t : TaskId) (i : ℕ) : Prop where
  sound : Sound m'.core
  self : (m'.core.tasks t).wait = some (.msgReceive i)
  untimed : t ∉ m'.core.timeoutList
  other : ∀ u, u ≠ t → (m'.core.tasks u).wait = (m.core.tasks u).wait ∧
    (m'.core.tasks u).waitResult = (m.core.tasks u).waitResult ∧ (u ∈ m'.core.timeoutList ↔ u ∈ m.core.timeoutList)
  channels : m'.channels = Function.update m.channels i { m.channels i with receiver := some t }
  running : m'.core.running = m.core.running
  connections : m'.connections = m.connections
  pendingMsgs : m'.pendingMsgs = m.pendingMsgs
  capabilities : m'.capabilities = m.capabilities

theorem awaits (hs : Sound m.core) (hcur : m.core.cur = some t) (hst : (m.core.tasks t).state = .running) :
    Awaits m (m.msgAwait t i) t i := by
  have hb := msgBlocked (w := .msgReceive i) hs hcur hst rfl
  exact ⟨hb.sound, hb.self, hb.untimed, hb.other, rfl, hb.running, rfl, rfl, rfl⟩

/-- What `sc_msg_reply` does at its end to the sender of message `p`. -/
structure Answers (m m' : Micro) (p : ℕ) : Prop where
  sound : Sound m'.core
  sender : ∀ u, (m.pendingMsgs p).sender = some u → (m'.core.tasks u).wait = none
  other : ∀ u, (m.pendingMsgs p).sender ≠ some u → (m'.core.tasks u).wait = (m.core.tasks u).wait ∧
    (m'.core.tasks u).waitResult = (m.core.tasks u).waitResult ∧ (u ∈ m'.core.timeoutList ↔ u ∈ m.core.timeoutList)
  channels : m'.channels = m.channels
  running : m'.core.running = m.core.running
  connections : m'.connections = m.connections
  pendingMsgs : m'.pendingMsgs =
    Function.update m.pendingMsgs p { m.pendingMsgs p with used := false, sender := none }
  capabilities : m'.capabilities = m.capabilities

theorem answers (hs : Sound m.core) (p : ℕ) : Answers m (m.replyWake p) p := by
  unfold replyWake
  dsimp only [setPendingMsg, setCore, core]
  cases hu : (m.pendingMsgs p).sender with
  | none =>
    refine ⟨hs, fun u e => ?_, fun _ _ => ⟨rfl, rfl, Iff.rfl⟩, rfl, rfl, rfl, rfl, rfl⟩
    rw [hu] at e
    cases e
  | some u =>
    have hw := woke_of_result hs u Code.ok Code.ok
    refine ⟨hw.sound, fun v e => ?_, fun v hv => hw.other v fun e => hv (by rw [hu, e]), rfl, hw.running, rfl, rfl, rfl⟩
    rw [hu] at e
    cases e
    exact hw.self

/-- The core after a system call. -/
theorem Dispatched.core_cases {x : Syscall} {r : Code} (h : Dispatched m t x m' r) (hs : Sound m.core)
    (hcur : m.core.cur = some t) (hst : (m.core.tasks t).state = .running) :
    m'.core = m.core ∨ (∃ p i pm, m.freePendingMsg = some p ∧ Queued m m' t p i pm) ∨ (∃ i, Awaits m m' t i) ∨
      ∃ p m₁, m₁.core = m.core ∧ m₁.pendingMsgs = m.pendingMsgs ∧ Answers m₁ m' p := by
  cases h with
  | sent _ _ hp => exact .inr (.inl ⟨_, _, _, hp, queued hs hcur hst⟩)
  | awaited => exact .inr (.inr (.inl ⟨_, awaits hs hcur hst⟩))
  | @answered _ _ _ j p memory =>
    have ha := answers (m := { m.unqueue (m.connections j).chIdx p with memory := memory }) hs p
    exact .inr (.inr (.inr ⟨p, { m.unqueue (m.connections j).chIdx p with memory := memory }, rfl, rfl, ha⟩))
  | _ => exact .inl rfl

end Micro

namespace Machine

variable {s s' : Machine} {a : Action} {t : TaskId}

/-- When the scheduler is started, no task that it will queue is queued already. -/
def StartsClean (s : Machine) (a : Action) : Prop := ∀ b, a = .native b → Sys.StartsClean s.sys b

omit cfg in
/-- The user task that runs is the current one. -/
theorem userTask_runs (h : s.userTask = some t) : s.core.cur = some t ∧ (s.core.tasks t).state = .running := by
  obtain ⟨h₁, -, -, h₂⟩ := Sys.runningTask_eq_some (userTask_eq h).1
  exact ⟨h₁, h₂⟩

/-- The core is sound, and nobody who waits for a message has a timeout. -/
structure Ok (s : Machine) : Prop where
  sound : Sound s.core
  untimed : Untimed s.core

theorem ok_init : Ok init := ⟨sound_init, fun _ _ _ _ ht => nomatch ht⟩

theorem ok_step (hk : Ok s) (hc : StartsClean s a) (h : s.step a = some s') : Ok s' := by
  have keep : ∀ {c : Core}, Sound c → (∀ u w, (c.tasks u).wait = some w → w.isMsg = true → u ∈ c.timeoutList →
      (s.core.tasks u).wait = some w ∧ u ∈ s.core.timeoutList) → Sound c ∧ Untimed c := by
    intro c hs hb
    refine ⟨hs, fun u w hw hm ht => ?_⟩
    obtain ⟨h₁, h₂⟩ := hb u w hw hm ht
    exact hk.untimed u w h₁ hm h₂
  rcases step_tables h with ⟨b, rfl⟩ | ⟨x, rfl⟩ | hsame
  · obtain ⟨k, hstep, rfl⟩ := step_native h
    exact ⟨Sys.sound_step hk.sound (hc b rfl) hstep, (Sys.msgWait_back hk.sound hk.untimed hstep).2⟩
  · obtain ⟨t, r, ht, hd, -, -⟩ := step_syscall h
    obtain ⟨hcur, hst⟩ := userTask_runs ht
    rcases hd.core_cases hk.sound hcur hst with e | ⟨p, i, pm, -, hq⟩ | ⟨i, hq⟩ | ⟨p, m₁, e, -, hq⟩
    · have e : s'.core = s.core := e
      exact ⟨by rw [e]; exact hk.sound, by rw [e]; exact hk.untimed⟩
    · obtain ⟨h₁, h₂⟩ := keep hq.sound fun u w hw hm hmem => by
        by_cases hu : u = t
        · rw [hu] at hmem
          exact absurd hmem hq.untimed
        · by_cases hr : (s.micro.channels i).receiver = some u
          · rw [hq.receiver u hu hr] at hw
            cases hw
          · obtain ⟨e₁, -, e₃⟩ := hq.other u hu hr
            exact ⟨e₁.symm.trans hw, e₃.mp hmem⟩
      exact ⟨h₁, h₂⟩
    · obtain ⟨h₁, h₂⟩ := keep hq.sound fun u w hw hm hmem => by
        by_cases hu : u = t
        · rw [hu] at hmem
          exact absurd hmem hq.untimed
        · obtain ⟨e₁, -, e₃⟩ := hq.other u hu
          exact ⟨e₁.symm.trans hw, e₃.mp hmem⟩
      exact ⟨h₁, h₂⟩
    · obtain ⟨h₁, h₂⟩ := keep hq.sound fun u w hw hm hmem => by
        by_cases hr : (m₁.pendingMsgs p).sender = some u
        · rw [hq.sender u hr] at hw
          cases hw
        · obtain ⟨e₁, -, e₃⟩ := hq.other u hr
          rw [e] at e₁ e₃
          exact ⟨e₁.symm.trans hw, e₃.mp hmem⟩
      exact ⟨h₁, h₂⟩
  · have e : s'.core = s.core := congrArg Kernel.core hsame.kernel
    exact ⟨by rw [e]; exact hk.sound, by rw [e]; exact hk.untimed⟩

/-! ### Runs that begin with creations -/

variable {bs : List Act} {as : List Action}

theorem running_step (hk : Ok s) (hr : s.core.running = true) (h : s.step a = some s') : s'.core.running = true := by
  rcases step_tables h with ⟨b, rfl⟩ | ⟨x, rfl⟩ | hsame
  · obtain ⟨k, hstep, rfl⟩ := step_native h
    exact Sys.running_step hk.sound hr hstep
  · obtain ⟨t, r, ht, hd, -, -⟩ := step_syscall h
    obtain ⟨hcur, hst⟩ := userTask_runs ht
    rcases hd.core_cases hk.sound hcur hst with e | ⟨p, i, pm, -, hq⟩ | ⟨i, hq⟩ | ⟨p, m₁, e, -, hq⟩
    · exact (congrArg Core.running e).trans hr
    · exact hq.running.trans hr
    · exact hq.running.trans hr
    · exact (hq.running.trans (congrArg Core.running e)).trans hr
  · exact (congrArg (fun k => k.core.running) hsame.kernel).trans hr

/-- Native actions are those of the system of native tasks. -/
theorem run_native (h : run step s (bs.map .native) = some s') : run Sys.step s.sys bs = some s'.sys := by
  induction bs generalizing s with
  | nil =>
    cases h
    rfl
  | cons b bs ih =>
    rw [List.map_cons, run] at h
    obtain ⟨m, hm, h⟩ := Option.bind_eq_some_iff.mp h
    obtain ⟨k, hk, rfl⟩ := step_native hm
    rw [run, hk]
    exact ih h

/-- A run of native actions meets what the run of the native tasks meets. -/
theorem path_native {C : Sys → Act → Prop} {k : Sys} (hp : Path (Next Sys.step) C s.sys bs k)
    (h : run step s (bs.map .native) = some s') :
    Path (Next step) (fun s a => ∀ b, a = .native b → C s.sys b) s (bs.map .native) s' := by
  induction bs generalizing s with
  | nil =>
    cases h
    exact .nil _
  | cons b bs ih =>
    rw [List.map_cons, run] at h
    obtain ⟨m, hm, h⟩ := Option.bind_eq_some_iff.mp h
    cases hp with
    | cons hc hr hp =>
      obtain ⟨k', hk, rfl⟩ := step_native hm
      obtain rfl := Option.some.inj (hr.symm.trans hk)
      refine .cons ?_ hm (ih hp h)
      rintro b' e
      cases e
      exact hc

/-- Once the scheduler runs, every run is one with a clean start. -/
theorem startsClean_of_running (hk : Ok s) (hr : s.core.running = true) (h : run step s as = some s') :
    Path (Next step) StartsClean s as s' := by
  have hp := path_iff_run.mpr h
  clear h
  induction hp with
  | nil => exact .nil _
  | @cons s m s' a as _ hstep _ ih =>
    have hc : StartsClean s a := by
      rintro b rfl memory rfl
      obtain ⟨k, hk, -⟩ := step_native hstep
      have := (Sys.step_start hk).1
      rw [show s.sys.core.running = true from hr] at this
      cases this
    exact .cons hc hstep (ih (ok_step hk hc hstep) (running_step hk hr hstep))

theorem ok_path (hp : Path (Next step) StartsClean s as s') (hk : Ok s) : Ok s' :=
  hp.invariant (I := Ok) (fun _ _ _ hk hc h => ok_step hk hc h) hk

/-- A run that begins with creations has a clean start. -/
theorem path_of_boot {tasks : List CreateArgs} {memory : Bool}
    (h : run step init ((Sys.boot tasks memory).map .native ++ as) = some s) :
    Path (Next step) StartsClean init ((Sys.boot tasks memory).map .native ++ as) s := by
  rw [run_append] at h
  obtain ⟨m, hm, h⟩ := Option.bind_eq_some_iff.mp h
  have hsys : run Sys.step Sys.init (Sys.boot tasks memory ++ []) = some m.sys := by
    rw [List.append_nil]
    exact run_native hm
  obtain ⟨hp, hr⟩ := Sys.path_of_boot hsys
  rw [List.append_nil] at hp
  have h₁ : Path (Next step) StartsClean init _ m := path_native hp hm
  exact h₁.append (startsClean_of_running (ok_path h₁ ok_init) hr h)

end Machine

end Aixos
