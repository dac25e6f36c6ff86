import Aixos.Posix.Conditions

/-!
# Steps of a mutex

What a step of a monitor does to its mutex: a thread is at one of few parts of the functions that lock and unlock it
(`Part`), and a step is one of the moves of `MutexMove` (`step_mutexMove`). Everything else that happens in a monitor
leaves the mutex alone.
-/

namespace Aixos.Posix

variable {κ δ ω γ : Type}

/-- Where a thread is in the functions that lock and unlock a mutex. -/
inductive Part where
  /-- Outside, or before it calls the kernel. -/
  | out
  /-- It calls `aixos_mutex_lock`. -/
  | taking
  /-- It waits there. -/
  | blocked
  /-- `aixos_mutex_lock` has returned `AIXOS_OK`. -/
  | took
  /-- `aixos_mutex_lock` has returned an error. -/
  | failed
  /-- It calls `aixos_mutex_unlock`. -/
  | releasing
  deriving DecidableEq

/-- Where a thread is, as far as the mutex is concerned. -/
def Place.part (p : Place κ γ) : Part :=
  match p with
  | .nativeLock .. => .taking
  | .mutexBlocked .. => .blocked
  | .locked result _ => if result = Code.ok then .took else .failed
  | .nativeUnlock _ => .releasing
  | _ => .out

@[simp] theorem LockReturn.part_place (ret : LockReturn γ) (r : Errno) : (ret.place r : Place κ γ).part = .out := by
  cases ret <;> rfl

@[simp] theorem UnlockReturn.part_place (ret : UnlockReturn κ γ) (r : Errno) : (ret.place r).part = .out := by
  cases ret with
  | program c => rfl
  | wait k timeout c =>
    simp only [place]
    split <;> rfl

@[simp] theorem Outcome.part_place (n : Outcome κ γ) (r : Errno) : (n.place r).part = .out := by
  cases n with
  | goto c => rfl
  | call f c => cases f <;> rfl
  | done r => rfl

theorem Place.part_eq_blocked {p : Place κ γ} : p.part = .blocked ↔ p.awaitsMutex = true := by
  cases p with
  | locked result ret =>
    refine iff_of_false (fun h => ?_) nofun
    rw [part] at h
    split at h <;> cases h
  | _ => exact ⟨by rintro ⟨⟩ <;> rfl, by rintro ⟨⟩ <;> rfl⟩

/-- What is observed of the functions. -/
inductive LockEvent where
  /-- A thread has locked the mutex: its call returns 0. -/
  | locked (t : Thread)
  /-- A thread has unlocked the mutex: its call returns 0. -/
  | unlocked (t : Thread)
  deriving DecidableEq

/-- What thread `t` may do to a mutex and to the parts at which threads are. `unlocks` says that it calls
`aixos_pthread_mutex_unlock`; a call that returns 0 is observed. -/
inductive MutexMove (t : Thread) (unlocks : Prop) (m : Mutex) (q : Thread → Part) :
    List LockEvent → Mutex → (Thread → Part) → Prop where
  /-- Nothing. -/
  | stay : MutexMove t unlocks m q [] m q
  /-- It comes to `aixos_mutex_lock`. -/
  | check : q t = .out → (m.type ≠ .normal → m.owner ≠ some t) →
      MutexMove t unlocks m q [] m (Function.update q t .taking)
  /-- It locks a recursive mutex again. -/
  | count : q t = .out → m.type = .recursive → m.owner = some t →
      MutexMove t unlocks m q [.locked t] { m with lockCount := m.lockCount + 1 } q
  /-- `aixos_mutex_lock`, of a free mutex -/
  | take : q t = .taking → m.native.owner = none →
      MutexMove t unlocks m q [] { m with native := ⟨some t, 1⟩ } (Function.update q t .took)
  /-- `aixos_mutex_lock`, by the owner -/
  | again : q t = .taking → m.native.owner = some t →
      MutexMove t unlocks m q [] { m with native.lockCount := m.native.lockCount + 1 } (Function.update q t .took)
  /-- `aixos_mutex_lock` returns an error. -/
  | refused : q t = .taking → MutexMove t unlocks m q [] m (Function.update q t .failed)
  /-- `aixos_mutex_lock` blocks. -/
  | block : q t = .taking → m.native.owner ≠ none → m.native.owner ≠ some t →
      MutexMove t unlocks m q [] m (Function.update q t .blocked)
  /-- It stops waiting. -/
  | interrupted : q t = .blocked → MutexMove t unlocks m q [] m (Function.update q t .failed)
  /-- It records that it has locked the mutex. -/
  | record : q t = .took →
      MutexMove t unlocks m q [.locked t] { m with owner := some t, lockCount := 1 } (Function.update q t .out)
  /-- It returns the error. -/
  | fail : q t = .failed → MutexMove t unlocks m q [] m (Function.update q t .out)
  /-- It unlocks a recursive mutex, and keeps it. -/
  | uncount : unlocks → q t = .out → m.type = .recursive → m.owner = some t → 1 < m.lockCount →
      MutexMove t unlocks m q [.unlocked t] { m with lockCount := m.lockCount - 1 } q
  /-- It records that the mutex is free, and comes to `aixos_mutex_unlock`. -/
  | clear : unlocks → q t = .out → (m.type ≠ .normal → m.owner = some t) → (m.type = .recursive → ¬ 1 < m.lockCount) →
      MutexMove t unlocks m q [] { m with owner := none, lockCount := 0 } (Function.update q t .releasing)
  /-- `aixos_mutex_unlock`, by another thread than the owner -/
  | notOwner : q t = .releasing → m.native.owner ≠ some t → MutexMove t unlocks m q [] m (Function.update q t .out)
  /-- `aixos_mutex_unlock`, by a thread that has locked the mutex more than once -/
  | unlockOne : q t = .releasing → m.native.owner = some t → m.native.lockCount - 1 ≠ 0 →
      MutexMove t unlocks m q [.unlocked t] { m with native.lockCount := m.native.lockCount - 1 } (Function.update q t .out)
  /-- `aixos_mutex_unlock`, when nobody waits -/
  | release : q t = .releasing → m.native.owner = some t → m.native.lockCount - 1 = 0 → (∀ u, q u ≠ .blocked) →
      MutexMove t unlocks m q [.unlocked t] { m with native := ⟨none, 0⟩ } (Function.update q t .out)
  /-- `aixos_mutex_unlock`; the mutex goes to thread `u`. -/
  | pass (u : Thread) : q t = .releasing → m.native.owner = some t → m.native.lockCount - 1 = 0 → q u = .blocked →
      MutexMove t unlocks m q [.unlocked t] { m with native := ⟨some u, 1⟩ } (Function.update (Function.update q u .took) t .out)

namespace Monitor

variable [DecidableEq κ] {P : Program κ δ ω γ} {s s' m : Monitor κ δ γ} {k : κ} {t u : Thread} {first first' : List Thread}
  {a : Action ω} {result result' : Code} {n : ℕ} {p : Place κ γ} {unlocks : Prop}

/-- The parts at which the threads are. -/
def parts (s : Monitor κ δ γ) (t : Thread) : Part := (s.place t).part

omit [DecidableEq κ] in
theorem parts_goto : (s.goto t p).parts = Function.update s.parts t p.part := by
  funext u
  by_cases hu : u = t
  · subst hu
    simp [parts, goto]
  · simp [parts, goto, hu]

omit [DecidableEq κ] in
theorem parts_goto_of_eq (h : p.part = (s.place t).part) : (s.goto t p).parts = s.parts := by
  rw [parts_goto, h]
  exact Function.update_eq_self ..

/-- What is observed of the next step of the thread. -/
def lockEvents (s : Monitor κ δ γ) (t : Thread) : List LockEvent :=
  match s.place t with
  | .lock .. => if s.mutex.type = .recursive ∧ s.mutex.owner = some t then [.locked t] else []
  | .locked result _ => if result = Code.ok then [.locked t] else []
  | .unlock _ =>
    if s.mutex.type = .recursive ∧ s.mutex.owner = some t ∧ 1 < s.mutex.lockCount then [.unlocked t] else []
  | .nativeUnlock _ => if s.mutex.native.owner = some t then [.unlocked t] else []
  | _ => []

/-- What is observed of a step. -/
def lockTrace {ω : Type} (s : Monitor κ δ γ) (a : Action ω) : List LockEvent :=
  match a.runner with
  | some t => s.lockEvents t
  | none => []

/-- The thread calls `aixos_pthread_mutex_unlock`. -/
def Unlocks (s : Monitor κ δ γ) (t : Thread) : Prop := ∃ ret, s.place t = .unlock ret

theorem parts_post (hp : s.post k first = some (s', result, first')) : s'.mutex = s.mutex ∧ s'.parts = s.parts := by
  rcases post_cases hp with ⟨u, timeout, c, hu, rfl, -⟩ | ⟨hn, ⟨hc, rfl, -⟩ | ⟨hc, -, rfl⟩⟩
  · refine ⟨rfl, parts_goto_of_eq ?_⟩
    rw [hu]
    rfl
  · exact ⟨rfl, rfl⟩
  · exact ⟨rfl, rfl⟩

theorem parts_posts (hp : posts k n result s first = some (s', result')) : s'.mutex = s.mutex ∧ s'.parts = s.parts := by
  induction n generalizing s result first with
  | zero =>
    rw [posts, Option.some.injEq, Prod.mk.injEq] at hp
    obtain ⟨rfl, -⟩ := hp
    exact ⟨rfl, rfl⟩
  | succ n ih =>
    rw [posts] at hp
    split at hp
    case h_1 => cases hp
    case h_2 m r f hm =>
      obtain ⟨h₁, h₂⟩ := parts_post hm
      split at hp
      case isTrue =>
        cases hp
        exact ⟨h₁, h₂⟩
      case isFalse =>
        obtain ⟨h₃, h₄⟩ := ih hp
        exact ⟨h₃.trans h₁, h₄.trans h₂⟩

omit [DecidableEq κ] in
/-- The mutex stays, and the thread goes to another place that is no other part. -/
theorem move_goto (hm : m.mutex = s.mutex) (hq : m.parts = s.parts) (hp : p.part = (s.place t).part) :
    MutexMove t unlocks s.mutex s.parts [] (m.goto t p).mutex (m.goto t p).parts := by
  have h : (m.goto t p).parts = s.parts :=
    (parts_goto_of_eq (by rw [hp]; exact (congrFun hq t).symm)).trans hq
  rw [h, show (m.goto t p).mutex = s.mutex from hm]
  exact .stay

theorem exec_mutexMove {env : Env} (he : s.exec P t env = some s') :
    MutexMove t (s.Unlocks t) s.mutex s.parts (s.lockEvents t) s'.mutex s'.parts := by
  have hpart : ∀ p, s.place t = p → s.parts t = p.part := fun p hp => by rw [parts, hp]
  unfold exec at he
  split at he
  case h_1 | h_2 | h_3 => cases he
  case h_4 c r hp =>
    rw [show s.lockEvents t = [] by rw [lockEvents, hp]]
    cases he
    exact move_goto rfl rfl (by rw [hp, Outcome.part_place]; rfl)
  case h_5 absolute c hp | h_11 k absolute c hp =>
    rw [show s.lockEvents t = [] by rw [lockEvents, hp]]
    split at he <;> cases he <;> exact move_goto rfl rfl (by rw [hp]; rfl)
  case h_6 timeout ret hp =>
    have hev : s.lockEvents t = if s.mutex.type = .recursive ∧ s.mutex.owner = some t then [.locked t] else [] := by
      rw [lockEvents, hp]
    split at he
    case isTrue hec =>
      cases he
      rw [hev, if_neg (by rw [hec.1]; nofun)]
      exact move_goto rfl rfl (by rw [hp, LockReturn.part_place]; rfl)
    case isFalse hec =>
      split at he <;> cases he
      case isTrue hrec =>
        rw [hev, if_pos hrec]
        show MutexMove _ _ _ _ _ _ (Monitor.parts (Monitor.goto _ _ _))
        rw [parts_goto_of_eq (by rw [LockReturn.part_place]; exact (hpart _ hp).symm)]
        exact .count (hpart _ hp) hrec.1 hrec.2
      case isFalse hrec =>
        rw [hev, if_neg hrec, parts_goto]
        refine .check (hpart _ hp) fun hne ho => ?_
        cases htype : s.mutex.type with
        | normal => exact hne htype
        | recursive => exact hrec ⟨htype, ho⟩
        | errorcheck => exact hec ⟨htype, ho⟩
  case h_7 timeout ret hp =>
    rw [show s.lockEvents t = [] by rw [lockEvents, hp]]
    have hq := hpart _ hp
    split at he
    case isTrue hn =>
      cases he
      rw [parts_goto]
      exact .take hq hn
    case isFalse hn =>
      split at he
      case isTrue ho =>
        split at he <;> cases he <;> rw [parts_goto]
        · exact .refused hq
        · exact .again hq ho
      case isFalse ho =>
        split at he
        case isTrue =>
          cases he
          rw [parts_goto]
          exact .refused hq
        case isFalse =>
          split at he <;> cases he <;> rw [parts_goto]
          · exact .refused hq
          · exact .block hq hn ho
  case h_8 result ret hp =>
    have hq := hpart _ hp
    have hev : s.lockEvents t = if result = Code.ok then [.locked t] else [] := by rw [lockEvents, hp]
    split at he <;> cases he <;> rw [parts_goto, LockReturn.part_place]
    case isTrue hok =>
      rw [hev, if_pos hok]
      exact .record (by rw [hq, Place.part, if_pos hok])
    case isFalse hok =>
      rw [hev, if_neg hok]
      exact .fail (by rw [hq, Place.part, if_neg hok])
  case h_9 ret hp =>
    have hq := hpart _ hp
    have hu : s.Unlocks t := ⟨ret, hp⟩
    have hev : s.lockEvents t = if s.mutex.type = .recursive ∧ s.mutex.owner = some t ∧ 1 < s.mutex.lockCount
        then [.unlocked t] else [] := by rw [lockEvents, hp]
    split at he
    case isTrue hne =>
      cases he
      rw [hev, if_neg fun h => hne.2 h.2.1]
      exact move_goto rfl rfl (by rw [hp, UnlockReturn.part_place]; rfl)
    case isFalse hown =>
      have hown : s.mutex.type ≠ .normal → s.mutex.owner = some t := by
        intro hne
        by_contra ho
        refine hown ⟨?_, ho⟩
        cases htype : s.mutex.type with
        | normal => exact absurd htype hne
        | recursive => exact .inr rfl
        | errorcheck => exact .inl rfl
      split at he <;> cases he
      case isTrue hrec =>
        have ho := hown (by rw [hrec.1]; decide)
        rw [hev, if_pos ⟨hrec.1, ho, hrec.2⟩]
        rw [parts_goto_of_eq (by rw [UnlockReturn.part_place]; exact hq.symm)]
        exact .uncount hu hq hrec.1 ho hrec.2
      case isFalse hrec =>
        rw [hev, if_neg fun h => hrec ⟨h.1, h.2.2⟩, parts_goto]
        exact .clear hu hq hown fun ht hlt => hrec ⟨ht, hlt⟩
  case h_10 ret hp =>
    have hq := hpart _ hp
    have hev : s.lockEvents t = if s.mutex.native.owner = some t then [.unlocked t] else [] := by rw [lockEvents, hp]
    split at he
    case isTrue hn =>
      cases he
      rw [hev, if_neg hn, parts_goto, UnlockReturn.part_place]
      exact .notOwner hq hn
    case isFalse ho =>
      have ho := not_not.mp ho
      rw [hev, if_pos ho]
      split at he
      case isTrue hc =>
        cases he
        rw [parts_goto, UnlockReturn.part_place]
        exact .unlockOne hq ho hc
      case isFalse hc =>
        obtain ⟨m, hm, rfl⟩ := Option.map_eq_some_iff.mp he
        rw [parts_goto, UnlockReturn.part_place]
        rcases handOver_cases hm with ⟨u, timeout, ret', hu, rfl⟩ | ⟨hb, rfl⟩
        · rw [parts_goto]
          exact .pass u hq ho (not_not.mp hc) (by rw [parts, hu]; rfl)
        · refine .release hq ho (not_not.mp hc) fun u hu => ?_
          have hn := hb u
          rw [Place.part_eq_blocked.mp hu] at hn
          cases hn
  case h_12 k timeout c hp | h_13 k r c hp =>
    rw [show s.lockEvents t = [] by rw [lockEvents, hp]]
    cases he
    exact move_goto rfl rfl (by rw [hp]; rfl)
  case h_14 k timeout c hp =>
    rw [show s.lockEvents t = [] by rw [lockEvents, hp]]
    split at he
    case isTrue =>
      cases he
      exact move_goto rfl rfl (by rw [hp]; rfl)
    case isFalse => split at he <;> (try split at he) <;> cases he <;> exact move_goto rfl rfl (by rw [hp]; rfl)
  case h_15 k result c hp =>
    rw [show s.lockEvents t = [] by rw [lockEvents, hp]]
    cases he
    split <;> exact move_goto rfl rfl (by rw [hp]; rfl)
  case h_16 k c hp =>
    rw [show s.lockEvents t = [] by rw [lockEvents, hp]]
    split at he
    case isTrue =>
      obtain ⟨⟨m, result, f⟩, hm, rfl⟩ := Option.map_eq_some_iff.mp he
      obtain ⟨h₁, h₂⟩ := parts_post hm
      exact move_goto (p := .program c (mapError result)) h₁ h₂ (by rw [hp]; rfl)
    case isFalse =>
      cases he
      exact move_goto rfl rfl (by rw [hp]; rfl)
  case h_17 k c hp =>
    rw [show s.lockEvents t = [] by rw [lockEvents, hp]]
    obtain ⟨⟨m, result⟩, hm, rfl⟩ := Option.map_eq_some_iff.mp he
    obtain ⟨h₁, h₂⟩ := parts_posts hm
    exact move_goto (p := .program c (mapError result)) h₁ h₂ (by rw [hp]; rfl)

omit [DecidableEq κ] in
theorem interrupt_mutexMove (hr : result ≠ Code.ok) :
    MutexMove t unlocks s.mutex s.parts [] (s.interrupt t result).mutex (s.interrupt t result).parts := by
  unfold interrupt
  split
  case h_1 timeout ret hp =>
    rw [parts_goto, Place.part, if_neg hr]
    exact .interrupted (by rw [parts, hp]; rfl)
  case h_2 k timeout c hp => exact move_goto rfl rfl (by rw [hp]; rfl)
  case h_3 => exact .stay

/-- **Every step** of a monitor is a move of its mutex. -/
theorem step_mutexMove (h : step P s a = some s') :
    MutexMove a.thread (s.Unlocks a.thread ∧ a.runner = some a.thread) s.mutex s.parts (s.lockTrace a) s'.mutex s'.parts := by
  cases a with
  | call t op =>
    simp only [step] at h
    split at h
    case h_1 r hp =>
      split at h <;> cases h
      exact move_goto rfl rfl (by rw [Action.thread, hp]; rfl)
    case h_2 => cases h
  | run t env =>
    simp only [step] at h
    split at h
    case isTrue => cases h
    case isFalse =>
      have hm := exec_mutexMove h
      simpa only [Action.runner, Action.thread, and_true, lockTrace] using hm
  | expire t =>
    simp only [step] at h
    split at h <;> cases h
    exact interrupt_mutexMove (by decide)
  | suspend t =>
    simp only [step] at h
    split at h <;> cases h
    exact interrupt_mutexMove (by decide)
  | resume t =>
    simp only [step] at h
    split at h <;> cases h
    exact .stay

end Monitor

end Aixos.Posix
