import Aixos.Posix.Conditions

/-!
# Wakeups of a condition variable

What `aixos_pthread_cond_signal` and `aixos_pthread_cond_broadcast` do for the threads that were
waiting, and what is left when nobody waits any more; for every program.

* `wakeups_of_path` — the tokens reach the threads that were waiting, if no thread begins to wait
  while there are tokens for threads on their way to the semaphore.
* `quiet_of_path` — counter and tokens are 0 when nobody waits, if who gives up its wait is
  still on the counter when it takes itself off.
-/

open Transition TokenRoom

namespace Aixos.Posix.Monitor

variable {κ δ ω γ : Type} [DecidableEq κ] {P : Program κ δ ω γ} {s s₁ s' : Monitor κ δ γ} {k : κ} {t : Thread}
  {a : Action ω} {as bs : List (Action ω)} {w : Watch Thread} {type : MutexType} {data : δ}

theorem card_le_semMaxCount : Fintype.card Thread ≤ semMaxCount := by
  rw [Fintype.card_fin]
  decide

theorem semMaxCount_lt_modulus : semMaxCount + Fintype.card Thread < modulus := by
  rw [Fintype.card_fin]
  decide

/-- A thread whose unlock was refused finds itself on the counter when it takes itself off. -/
def RefusedCounted (k : κ) (s : Monitor κ δ γ) (a : Action ω) : Prop :=
  ∀ t ∈ a.runner, (s.room k).stage t = .refused → (s.cond k).waiters ≠ 0

/-- A thread that gives up its wait finds itself on the counter when it takes itself off. -/
def Counted (k : κ) (s : Monitor κ δ γ) (a : Action ω) : Prop :=
  ∀ t ∈ a.runner, (s.room k).stage t = .refused ∨ (s.room k).stage t = .failed → (s.cond k).waiters ≠ 0

/-- No thread begins to wait while there are tokens, and threads on their way to the semaphore. -/
def NoneOvertakes (k : κ) (s : Monitor κ δ γ) (a : Action ω) : Prop :=
  ∀ t ∈ a.runner, (s.place t).begins k = true → (s.cond k).count ≠ 0 → ∀ u, ((s.room k).stage u).coming = false

/-- Both. -/
def Orderly (k : κ) (s : Monitor κ δ γ) (a : Action ω) : Prop := RefusedCounted k s a ∧ NoneOvertakes k s a

theorem waiters_ne_zero (h : (s.cond k).waiters ≠ 0) : (s.room k).waiters ≠ 0 := by
  simp only [room]
  bv_omega

theorem sound_init : Sound semMaxCount 0 ((init type data : Monitor κ δ γ).room k) := by
  have h : ((init type data : Monitor κ δ γ).room k).total = 0 := Census.census_eq_zero_iff.mpr fun _ => rfl
  exact ⟨fun h => absurd rfl h, Nat.zero_le _, by rw [h]; exact Nat.zero_le _, by rw [h]; exact Nat.zero_le _⟩

omit [DecidableEq κ] in
theorem cond_interrupt (t : Thread) (result : Code) : (s.interrupt t result).cond = s.cond := by
  unfold interrupt
  split <;> rfl

/-- What happens to a thread from outside only ends its waiting. -/
theorem stage_interrupt (t : Thread) (result : Code) :
    ((s.interrupt t result).room k).stage = (s.room k).stage ∨
      ((s.room k).stage t = .blocked ∧ ((s.interrupt t result).room k).stage t = .failed) := by
  unfold interrupt
  split
  case h_1 timeout ret hp => exact .inl (by rw [room_goto_of_eq (by rw [hp]; rfl)])
  case h_2 k' timeout c hp =>
    by_cases hk : k' = k
    · subst hk
      exact .inr ⟨stage_of hp (if_pos rfl), by rw [room_goto, Room.stage_setStage]; exact if_pos rfl⟩
    · exact .inl (by rw [room_goto_of_eq (by rw [hp]; simp [Place.stage, hk])])
  case h_3 => exact .inl rfl

/-- What happens without a step of the thread itself. -/
theorem step_of_not_runner (h : step P s a = some s') (hn : a.thread ∉ a.runner) :
    s'.cond = s.cond ∧ ((s'.room k).stage = (s.room k).stage ∨
      (s.room k).stage a.thread = .blocked ∧ (s'.room k).stage a.thread = .failed) := by
  cases a with
  | call t op =>
    simp only [step] at h
    split at h
    case h_1 r hp =>
      split at h <;> cases h
      exact ⟨rfl, .inl (by rw [room_goto_of_eq (by rw [hp]; rfl)])⟩
    case h_2 => cases h
  | run t env => exact absurd rfl hn
  | expire t =>
    simp only [step] at h
    split at h <;> cases h
    exact ⟨cond_interrupt t _, stage_interrupt t _⟩
  | suspend t =>
    simp only [step] at h
    split at h <;> cases h
    exact ⟨cond_interrupt t _, stage_interrupt t _⟩
  | resume t =>
    simp only [step] at h
    split at h <;> cases h
    exact ⟨rfl, .inl rfl⟩

/-- Who leaves a room takes a step itself, or is woken. -/
theorem runner_of_out (h : step P s a = some s') (hs : (s.room k).stage a.thread ≠ .out)
    (ho : (s'.room k).stage a.thread = .out) : a.thread ∈ a.runner := by
  by_contra hn
  obtain ⟨-, hst | ⟨-, hst⟩⟩ := step_of_not_runner (k := k) h hn
  · rw [hst] at ho
    exact hs ho
  · rw [hst] at ho
    cases ho

/-- Who comes into a room takes a step itself. -/
theorem runner_of_entering (h : step P s a = some s') (hs : (s.room k).stage a.thread = .out)
    (he : (s'.room k).stage a.thread = .entering) : a.thread ∈ a.runner := by
  by_contra hn
  obtain ⟨-, hst | ⟨-, hst⟩⟩ := step_of_not_runner (k := k) h hn
  · rw [hst, hs] at he
    cases he
  · rw [hst] at he
    cases he

theorem exact_init : Exact 0 ((init type data : Monitor κ δ γ).room k) := by
  have h : ((init type data : Monitor κ δ γ).room k).total = 0 := Census.census_eq_zero_iff.mpr fun _ => rfl
  exact h.symm

theorem sound_step (hs : Sound semMaxCount 0 (s.room k)) (hc : RefusedCounted k s a) (h : step P s a = some s') :
    Sound semMaxCount 0 (s'.room k) := by
  refine hs.move card_le_semMaxCount semMaxCount_lt_modulus (fun hr ho => ?_) (room_step h k).move
  exact waiters_ne_zero (hc _ (runner_of_out h (by rw [hr]; nofun) ho) hr)

theorem exact_step (he : Exact 0 (s.room k)) (hc : Counted k s a) (h : step P s a = some s') : Exact 0 (s'.room k) := by
  refine he.move card_le_semMaxCount semMaxCount_lt_modulus (fun hr ho => ?_) (room_step h k).move
  have hs : (s.room k).stage a.thread ≠ .out := by
    rcases hr with hr | hr <;> rw [hr] <;> nofun
  exact waiters_ne_zero (hc _ (runner_of_out h hs ho) hr)

theorem sound_of_path (hp : Path (Next (step P)) (RefusedCounted k) (init type data) as s) :
    Sound semMaxCount 0 (s.room k) :=
  hp.invariant (I := fun s => Sound semMaxCount 0 (s.room k)) (fun _ _ _ hs hc h => sound_step hs hc h) sound_init

theorem exact_of_path (hp : Path (Next (step P)) (Counted k) (init type data) as s) : Exact 0 (s.room k) :=
  hp.invariant (I := fun s => Exact 0 (s.room k)) (fun _ _ _ he hc h => exact_step he hc h) exact_init

/-- Only who signals or broadcasts makes tokens. -/
theorem count_le (h : step P s a = some s') (hn : ∀ t ∈ a.runner, (s.place t).posts k = false) :
    (s'.cond k).count ≤ (s.cond k).count := by
  by_cases hr : a.thread ∈ a.runner
  · rcases (room_step h k).tokens with hle | hp
    · exact hle
    · rw [hn _ hr] at hp
      cases hp
  · rw [(step_of_not_runner (k := k) h hr).1]

/-- **Quiescence**: when no thread waits, the condition variable can be destroyed, and until it is signalled again no
wait finds a token. -/
theorem quiet_of_path (hp : Path (Next (step P)) (Counted k) (init type data) as s)
    (hout : ∀ t, (s.room k).stage t = .out) :
    (s.cond k).waiters = 0 ∧ (s.cond k).count = 0 ∧ s.condDestroy k = 0 ∧
      ∀ bs s', Path (Next (step P)) (fun s a => ∀ t ∈ a.runner, (s.place t).posts k = false) s bs s' →
        (s'.cond k).count = 0 := by
  have he : (s.cond k).waiters.toNat + 0 + (s.cond k).count = (s.room k).total := exact_of_path hp
  have ht : (s.room k).total = 0 := Census.census_eq_zero_iff.mpr fun t => by rw [hout t]; rfl
  have hw : (s.cond k).waiters = 0 := by bv_omega
  have hc : (s.cond k).count = 0 := by omega
  refine ⟨hw, hc, ?_, fun bs s' hq => ?_⟩
  · have hn : s.awaited k ≠ true := by
      rw [Ne, awaited_iff]
      rintro ⟨u, hu⟩
      have : (s.room k).stage u = .blocked := Place.awaits_iff.mp hu
      rw [hout u] at this
      cases this
    rw [condDestroy, if_neg (not_not.mpr hw), if_neg hn]
    rfl
  · exact hq.invariant (I := fun s => (s.cond k).count = 0)
      (fun s a s' h₀ hn h => Nat.le_zero.mp (h₀ ▸ count_le h hn)) hc

/-- A step, and what is seen of the threads that were waiting at some moment. -/
def watch (P : Program κ δ ω γ) (k : κ) (x : Monitor κ δ γ × Watch Thread) (a : Action ω) :
    Option (Monitor κ δ γ × Watch Thread) :=
  (step P x.1 a).map fun s => (s, x.2.next (s.room k))

/-- What holds while wakeups are on their way. -/
structure Reaches (k : κ) (all : Bool) (x : Monitor κ δ γ × Watch Thread) : Prop where
  sound : Sound semMaxCount 0 (x.1.room k)
  waiting : ∀ u, x.2.still u = true → ((x.1.room k).stage u).waiting = true
  served : if all then ServedAll (x.1.room k) x.2 else Served (x.1.room k) x.2

theorem reaches_step {all : Bool} {x x' : Monitor κ δ γ × Watch Thread} (hx : Reaches k all x)
    (hc : Orderly k x.1 a) (h : watch P k x a = some x') : Reaches k all x' := by
  obtain ⟨s, w⟩ := x
  obtain ⟨s', hstep, rfl⟩ := Option.map_eq_some_iff.mp h
  have hm := room_step hstep k
  have hstart : (s.room k).stage a.thread = .out → (s'.room k).stage a.thread = .entering → (s.room k).tokens ≠ 0 →
      ∀ u, ((s.room k).stage u).coming = false := by
    intro ho he h₀
    exact hc.2 _ (runner_of_entering hstep ho he) (hm.begins ho he) h₀
  refine ⟨sound_step hx.sound hc.1 hstep, fun u hu => ?_, ?_⟩
  · simp only [Watch.next, Bool.and_eq_true] at hu
    exact hu.2
  · cases all with
    | true => exact ServedAll.move hx.sound hstart hm.move hx.served
    | false => exact Served.move hx.sound hx.waiting hstart hm.move hx.served

/-- **Wakeups**: while every thread that waits in vain is counted and no thread overtakes another, what a signal or a
broadcast posts reaches one of the threads that were waiting, or all of them. -/
theorem wakeups_of_path (hp : Path (Next (step P)) (Orderly k) (init type data) as s) {env : Env}
    (h : step P s (.run t env) = some s₁) {x : Monitor κ δ γ × Watch Thread}
    (hq : Path (Next (watch P k)) (fun x a => Orderly k x.1 a) (s₁, (Watch.start (s.room k)).next (s₁.room k)) bs x) :
    (∀ c, s.place t = .signal k c → Served (x.1.room k) x.2) ∧
      ∀ c, s.place t = .broadcast k c → ServedAll (x.1.room k) x.2 := by
  have hs := sound_of_path (hp.mono fun _ _ h => h.1)
  have hx : ∀ all, (if all then ServedAll (s₁.room k) ((Watch.start (s.room k)).next (s₁.room k)) else
        Served (s₁.room k) ((Watch.start (s.room k)).next (s₁.room k))) → (s.room k).stage t = .out →
      Reaches k all x := by
    intro all h₁ ho
    refine hq.invariant (I := Reaches k all) (fun x a x' hx hc h => reaches_step hx hc h) ⟨?_, ?_, h₁⟩
    · refine sound_step hs (fun u hu hr => ?_) h
      cases hu
      rw [ho] at hr
      cases hr
    · intro u hu
      exact (Watch.still_start_next hu).2
  have hexec : s.exec P t env = some s₁ := by
    simp only [step] at h
    split at h
    case isTrue => cases h
    case isFalse => exact h
  refine ⟨fun c hc => ?_, fun c hc => ?_⟩
  · exact (hx false (Served.start card_le_semMaxCount hs (exec_signal hc hexec).2) (stage_of hc rfl)).served
  · exact (hx true (ServedAll.start card_le_semMaxCount hs (exec_broadcast hc hexec).2) (stage_of hc rfl)).served

end Aixos.Posix.Monitor

namespace Aixos.Posix

/-- A program that makes one call. -/
def calls (κ : Type) : Program κ Unit (Call κ) (Option (Call κ)) where
  start f := some f
  next c _ r d :=
    match c with
    | some f => (d, .call f none)
    | none => (d, .done r)

end Aixos.Posix

namespace Aixos.Posix.Monitor

open Transition TokenRoom

/-- The thread goes on; nobody has to be woken. -/
def go (t : Thread) : Action (Call Unit) := .run t ⟨⟨0, 0⟩, false, []⟩

/-- Thread 0 waits and has just unlocked the mutex. Thread 2 comes to signal. -/
def waitThenSignal : List (Action (Call Unit)) :=
  [.call 0 .lock, go 0, go 0, go 0, go 0, go 0, .call 0 (.wait ()), go 0, go 0, go 0, go 0, .call 2 (.signal ()), go 2]

/-- Thread 1 waits as well, and comes to the semaphore first. -/
def overtake : List (Action (Call Unit)) :=
  [go 2, .call 1 .lock, go 1, go 1, go 1, go 1, go 1, .call 1 (.wait ()), go 1, go 1, go 1, go 1, go 1, go 0]

def start : Monitor Unit Unit (Option (Call Unit)) := init .normal ()

def comesToSignal (p : Place Unit (Option (Call Unit))) : Bool :=
  match p with
  | .signal .. => true
  | _ => false

theorem comesToSignal_iff {p : Place Unit (Option (Call Unit))} : comesToSignal p = true ↔ ∃ c, p = .signal () c := by
  cases p <;> simp [comesToSignal]

def isIdle (p : Place Unit (Option (Call Unit))) : Bool :=
  match p with
  | .idle _ => true
  | _ => false

/-- A signal that reaches none of the threads that were waiting: thread 0 waits for ever. -/
theorem overtake_not_served : ∃ s c s₁ x, run (step (calls Unit)) start waitThenSignal = some s ∧
    s.place 2 = .signal () c ∧ (s.room ()).stage 0 = .ready ∧ step (calls Unit) s (go 2) = some s₁ ∧
    run (watch (calls Unit) ()) (s₁, (Watch.start (s.room ())).next (s₁.room ())) overtake = some x ∧
    (x.1.room ()).stage 0 = .blocked ∧ ¬ Served (x.1.room ()) x.2 := by
  have hrun : ((run (step (calls Unit)) start waitThenSignal).bind fun s => (step (calls Unit) s (go 2)).bind fun s₁ =>
      (run (watch (calls Unit) ()) (s₁, (Watch.start (s.room ())).next (s₁.room ())) overtake).map fun x =>
        comesToSignal (s.place 2) && decide ((s.room ()).stage 0 = .ready) && decide ((x.1.room ()).stage 0 = .blocked) &&
          decide ((x.1.room ()).tokens = 0) && x.2.still 0 && !x.2.woken) = some true := by
    decide +kernel
  obtain ⟨s, hs, hrun⟩ := Option.bind_eq_some_iff.mp hrun
  obtain ⟨s₁, hs₁, hrun⟩ := Option.bind_eq_some_iff.mp hrun
  obtain ⟨x, hx, hrun⟩ := Option.map_eq_some_iff.mp hrun
  simp only [Bool.and_eq_true, decide_eq_true_eq, Bool.not_eq_true'] at hrun
  obtain ⟨⟨⟨⟨⟨hp, hr⟩, hb⟩, h₀⟩, hstill⟩, hw⟩ := hrun
  obtain ⟨c, hp⟩ := comesToSignal_iff.mp hp
  refine ⟨s, c, s₁, x, hs, hp, hr, hs₁, hx, hb, ?_⟩
  rintro (h | h | ⟨h, -⟩)
  · rw [hw] at h
    cases h
  · rw [h 0] at hstill
    cases hstill
  · exact h h₀

instance (s : Monitor Unit Unit (Option (Call Unit))) (a : Action (Call Unit)) : Decidable (Orderly () s a) :=
  inferInstanceAs (Decidable ((∀ t ∈ a.runner, (s.room ()).stage t = .refused → (s.cond ()).waiters ≠ 0) ∧
    ∀ t ∈ a.runner, (s.place t).begins () = true → (s.cond ()).count ≠ 0 → ∀ u, ((s.room ()).stage u).coming = false))

instance (s : Monitor Unit Unit (Option (Call Unit))) (a : Action (Call Unit)) : Decidable (Counted () s a) :=
  inferInstanceAs (Decidable (∀ t ∈ a.runner,
    (s.room ()).stage t = .refused ∨ (s.room ()).stage t = .failed → (s.cond ()).waiters ≠ 0))

/-- The signal reaches thread 0. -/
theorem signal_reaches : ∃ s s₁ x, Path (Next (step (calls Unit))) (Orderly ()) start waitThenSignal s ∧
    step (calls Unit) s (go 2) = some s₁ ∧
    Path (Next (watch (calls Unit) ())) (fun x a => Orderly () x.1 a) (s₁, (Watch.start (s.room ())).next (s₁.room ()))
      [go 2, go 0] x ∧
    ((∀ c, s.place 2 = .signal () c → Served (x.1.room ()) x.2) ∧
      ∀ c, s.place 2 = .broadcast () c → ServedAll (x.1.room ()) x.2) := by
  have hrun : ((runIf (step (calls Unit)) (Orderly ()) start waitThenSignal).bind fun s =>
      (step (calls Unit) s (go 2)).bind fun s₁ =>
        (runIf (watch (calls Unit) ()) (fun x a => Orderly () x.1 a) (s₁, (Watch.start (s.room ())).next (s₁.room ()))
          [go 2, go 0]).map fun _ => true) = some true := by
    decide +kernel
  obtain ⟨s, hs, hrun⟩ := Option.bind_eq_some_iff.mp hrun
  obtain ⟨s₁, hs₁, hrun⟩ := Option.bind_eq_some_iff.mp hrun
  obtain ⟨x, hx, -⟩ := Option.map_eq_some_iff.mp hrun
  exact ⟨s, s₁, x, path_of_runIf hs, hs₁, path_of_runIf hx, wakeups_of_path (path_of_runIf hs) hs₁ (path_of_runIf hx)⟩

/-- The call that a thread makes, and its return. -/
def callThrough (t : Thread) (f : Call Unit) (n : ℕ) : List (Action (Call Unit)) := .call t f :: List.replicate n (go t)

/-- Thread 0 waits until its timeout ends. Thread 1 signals before it has taken itself off the counter. -/
def signalAfterTimeout : List (Action (Call Unit)) :=
  callThrough 0 .lock 5 ++ callThrough 0 (.timedwait () ⟨1, 0⟩) 6 ++ [.expire 0] ++ callThrough 1 (.signal ()) 3 ++
    List.replicate 5 (go 0) ++ callThrough 0 .unlock 4

/-- The timeout ends, and no signal comes. -/
def timeoutAlone : List (Action (Call Unit)) :=
  callThrough 0 .lock 5 ++ callThrough 0 (.timedwait () ⟨1, 0⟩) 6 ++ [.expire 0] ++ List.replicate 5 (go 0) ++
    callThrough 0 .unlock 4

/-- A token is left, with nobody in the functions of the condition variable. -/
theorem signalAfterTimeout_not_quiet : ∃ s, run (step (calls Unit)) start signalAfterTimeout = some s ∧
    (∀ t, isIdle (s.place t) = true) ∧ (s.cond ()).count = 1 := by
  obtain ⟨s, hs, hp⟩ := exists_run (step (calls Unit)) start signalAfterTimeout
    (fun s => decide ((∀ t, isIdle (s.place t) = true) ∧ (s.cond ()).count = 1)) (by decide +kernel)
  exact ⟨s, hs, of_decide_eq_true hp⟩

theorem timeoutAlone_quiet : ∃ s, Path (Next (step (calls Unit))) (Counted ()) start timeoutAlone s ∧
    (∀ t, (s.room ()).stage t = .out) ∧
    ((s.cond ()).waiters = 0 ∧ (s.cond ()).count = 0 ∧ s.condDestroy () = 0 ∧
      ∀ bs s', Path (Next (step (calls Unit))) (fun s a => ∀ t ∈ a.runner, (s.place t).posts () = false) s bs s' →
        (s'.cond ()).count = 0) := by
  obtain ⟨s, hs, hp⟩ := exists_path (step (calls Unit)) (Counted ()) start timeoutAlone
    (fun s => decide (∀ t, (s.room ()).stage t = .out)) (by decide +kernel)
  exact ⟨s, hs, of_decide_eq_true hp, quiet_of_path hs (of_decide_eq_true hp)⟩

end Aixos.Posix.Monitor
