import Aixos.Posix.CondWaits
import Aixos.Posix.MutexMoves
import Aixos.Posix.Programs

/-!
# Two records of who owns a mutex

`aixos_pthread_mutex_t` has an owner of its own beside that of the kernel's mutex, and the functions write it before or
after they call the kernel.

* `Mirrors` — how the two owners are related, with every thread somewhere in the functions.
* `mirrors_move`, `mirrors_step` — every step keeps that, if a normal mutex is unlocked only by a thread that has locked
  it, and locked it once (`UnlocksOwn`).
* `mirrors_of_path` — so the owners are the same when nobody is in the functions, and to unlock the mutex of another
  thread changes nothing and gives an error.
-/

namespace Aixos.Posix

variable {κ δ ω γ : Type} {m m' : Mutex} {q q' : Thread → Part} {t u : Thread} {p : Part} {unlocks : Prop} {es : List LockEvent}

/-- How the two owners are related for a thread, with where it is in the functions. -/
def Part.Proper (m : Mutex) (t : Thread) : Part → Prop
  | .out | .failed => m.native.owner = some t → m.owner = some t
  | .taking => (m.native.owner = some t → m.owner = some t) ∧ (m.type ≠ .normal → m.native.owner ≠ some t)
  | .blocked => m.native.owner ≠ some t
  | .took => m.native.owner = some t ∧ (m.type ≠ .normal → m.owner = none)
  | .releasing => m.native.owner = some t → m.owner = none ∧ m.native.lockCount = 1

/-- How the two owners are related. -/
structure Mirrors (m : Mutex) (q : Thread → Part) : Prop where
  /-- An owner that is recorded owns the kernel's mutex. -/
  real : ∀ t, m.owner = some t → m.native.owner = some t
  /-- Nothing is counted when no owner is recorded. -/
  cleared : m.owner = none → m.lockCount = 0
  /-- Only a normal mutex is locked in the kernel more than once. -/
  single : m.type ≠ .normal → m.native.owner ≠ none → m.native.lockCount = 1
  proper : ∀ t, (q t).Proper m t

theorem Part.proper_of_ne (hn : m.native.owner ≠ some t) (hp : p ≠ .took) : p.Proper m t := by
  cases p with
  | out | failed | releasing => exact fun h => absurd h hn
  | taking => exact ⟨fun h => absurd h hn, fun _ => hn⟩
  | blocked => exact hn
  | took => exact absurd rfl hp

namespace Mirrors

theorem part (h : Mirrors m q) (hq : q t = p) : p.Proper m t := hq ▸ h.proper t

/-- A thread goes to another part. -/
theorem goto (h : Mirrors m q) (hp : p.Proper m t) : Mirrors m (Function.update q t p) := by
  refine ⟨h.real, h.cleared, h.single, fun u => ?_⟩
  by_cases hu : u = t
  · subst hu
    rwa [Function.update_self]
  · rw [Function.update_of_ne hu]
    exact h.proper u

/-- A thread goes to another part, and changes a mutex that no other thread owns. -/
theorem mine (h : Mirrors m q) (hown : ∀ u, u ≠ t → m.native.owner ≠ some u)
    (hown' : ∀ u, u ≠ t → m'.native.owner ≠ some u) (hr : ∀ t, m'.owner = some t → m'.native.owner = some t)
    (hc : m'.owner = none → m'.lockCount = 0) (hs : m'.type ≠ .normal → m'.native.owner ≠ none → m'.native.lockCount = 1)
    (hp : p.Proper m' t) : Mirrors m' (Function.update q t p) := by
  refine ⟨hr, hc, hs, fun u => ?_⟩
  by_cases hu : u = t
  · subst hu
    rwa [Function.update_self]
  · rw [Function.update_of_ne hu]
    exact Part.proper_of_ne (hown' u hu) fun hq => hown u hu (h.part hq).1

end Mirrors

theorem native_ne {m : NativeMutex} (h : m.owner = some t) (hu : u ≠ t) : m.owner ≠ some u :=
  fun h' => hu (Option.some.inj (h'.symm.trans h))

/-- A move keeps the relation, if a normal mutex is unlocked only by a thread that has locked it, and once. -/
theorem mirrors_move (h : Mirrors m q) (hu : unlocks → m.type = .normal →
    (m.native.owner = some t ∧ m.native.lockCount = 1) ∨ m.owner = none) (hm : MutexMove t unlocks m q es m' q') :
    Mirrors m' q' := by
  cases hm with
  | stay => exact h
  | check hq ho => exact h.goto ⟨h.part hq, fun ht hn => ho ht (h.part hq hn)⟩
  | count hq hr ho => exact ⟨h.real, fun hn => absurd (ho.symm.trans hn) nofun, h.single, h.proper⟩
  | take hq hn =>
    have hnone : m.owner = none := by
      by_contra hne
      obtain ⟨v, hv⟩ := Option.ne_none_iff_exists'.mp hne
      exact absurd (hn.symm.trans (h.real v hv)) nofun
    refine h.mine (fun v _ => by rw [hn]; nofun) (fun v hv => native_ne rfl hv) (fun v hv => ?_) h.cleared
      (fun _ _ => rfl) ⟨rfl, fun _ => hnone⟩
    exact absurd (hnone.symm.trans hv) nofun
  | again hq hn =>
    obtain ⟨ho, hty⟩ := h.part hq
    have hnormal : m.type = .normal := by
      by_contra hne
      exact hty hne hn
    exact h.mine (fun v hv => native_ne hn hv) (fun v hv => native_ne hn hv) h.real h.cleared
      (fun hne => absurd hnormal hne) ⟨hn, fun hne => absurd hnormal hne⟩
  | refused hq => exact h.goto (h.part hq).1
  | block hq hn hn' => exact h.goto hn'
  | interrupted hq => exact h.goto fun hn => absurd hn (h.part hq)
  | record hq =>
    have hn := (h.part hq).1
    refine h.mine (fun v hv => native_ne hn hv) (fun v hv => native_ne hn hv) (fun v hv => ?_) nofun h.single fun _ => rfl
    exact Option.some.inj hv ▸ hn
  | fail hq =>
    have hp := h.part hq
    exact h.goto hp
  | uncount _ hq hr ho _ => exact ⟨h.real, fun hn => absurd (ho.symm.trans hn) nofun, h.single, h.proper⟩
  | clear hun hq ho hr =>
    have hcase : (m.native.owner = some t ∧ m.native.lockCount = 1) ∨ m.owner = none := by
      by_cases ht : m.type = .normal
      · exact hu hun ht
      · have hn := h.real t (ho ht)
        exact .inl ⟨hn, h.single ht (by rw [hn]; nofun)⟩
    obtain ⟨hn, h₁⟩ | hnone := hcase
    · exact h.mine (fun v hv => native_ne hn hv) (fun v hv => native_ne hn hv) nofun (fun _ => rfl) h.single
        fun _ => ⟨rfl, h₁⟩
    · -- there is nothing to clear
      have hm : { m with owner := none, lockCount := 0 } = m := by
        rw [← hnone, ← h.cleared hnone]
      rw [hm]
      exact h.goto fun hn => absurd (hnone.symm.trans (h.part hq hn)) nofun
  | notOwner hq hn => exact h.goto fun hn' => absurd hn' hn
  | unlockOne hq hn hc =>
    rw [(h.part hq hn).2] at hc
    exact absurd rfl hc
  | release hq hn hc hb =>
    have ho := (h.part hq hn).1
    exact h.mine (fun v hv => native_ne hn hv) (fun v _ => nofun) (fun v hv => absurd (ho.symm.trans hv) nofun) h.cleared
      (fun _ hne => absurd rfl hne) fun hn' => absurd hn' nofun
  | pass u hq hn hc hb =>
    have ho := (h.part hq hn).1
    have hut : u ≠ t := by
      rintro rfl
      rw [hq] at hb
      cases hb
    refine ⟨fun v hv => absurd (ho.symm.trans hv) nofun, h.cleared, fun _ _ => rfl, fun v => ?_⟩
    by_cases hvt : v = t
    · subst hvt
      rw [Function.update_self]
      exact fun hn' => absurd (Option.some.inj hn') hut
    rw [Function.update_of_ne hvt]
    by_cases hvu : v = u
    · subst hvu
      rw [Function.update_self]
      exact ⟨rfl, fun _ => ho⟩
    · rw [Function.update_of_ne hvu]
      exact Part.proper_of_ne (native_ne rfl hvu) fun hq' => native_ne hn hvt (h.part hq').1

/-- Only a thread that waits becomes the owner by what another thread does. -/
theorem owner_of_move (hm : MutexMove t unlocks m q es m' q') (hu : u ≠ t) (hb : q u ≠ .blocked)
    (ho : m'.native.owner = some u) : m.native.owner = some u := by
  cases hm with
  | take => exact absurd (Option.some.inj ho).symm hu
  | release => cases ho
  | pass v _ _ _ hv =>
    obtain rfl := Option.some.inj ho
    exact absurd hv hb
  | _ => exact ho

/-- The thread is outside the functions. -/
def Place.outside (p : Place κ γ) : Bool :=
  match p with
  | .idle _ | .program .. => true
  | _ => false

namespace Monitor

open Transition

variable [DecidableEq κ] {P : Program κ δ ω γ} {s s' : Monitor κ δ γ} {a : Action ω} {as : List (Action ω)}
  {ret : UnlockReturn κ γ}

/-- A normal mutex is unlocked only by a thread that has locked it, and once, or when no owner is recorded. -/
def UnlocksOwn {ω : Type} (s : Monitor κ δ γ) (a : Action ω) : Prop :=
  ∀ t ∈ a.runner, s.Unlocks t → s.mutex.type = .normal →
    (s.Owns t ∧ s.mutex.native.lockCount = 1) ∨ s.mutex.owner = none

/-- The thread is in `aixos_pthread_mutex_unlock`, which will return to `ret`. -/
def Unlocking (s : Monitor κ δ γ) (t : Thread) (ret : UnlockReturn κ γ) : Prop :=
  s.place t = .unlock ret ∨ s.place t = .nativeUnlock ret

omit [DecidableEq κ] in
theorem Unlocking.part_ne (h : s.Unlocking t ret) : s.parts t ≠ .blocked := by
  rcases h with h | h
  · rw [parts, h]
    rintro ⟨⟩
  · rw [parts, h]
    rintro ⟨⟩

omit [DecidableEq κ] in
theorem mirrors_init (type : MutexType) (data : δ) :
    Mirrors (init type data : Monitor κ δ γ).mutex (init type data : Monitor κ δ γ).parts :=
  ⟨nofun, fun _ => rfl, fun _ hn => absurd rfl hn, fun _ => nofun⟩

theorem mirrors_step (h : Mirrors s.mutex s.parts) (hc : UnlocksOwn s a) (hs : step P s a = some s') :
    Mirrors s'.mutex s'.parts :=
  mirrors_move h (fun hu ht => hc _ hu.2 hu.1 ht) (step_mutexMove hs)

/-- A thread that does not own the mutex unlocks it. -/
theorem stranger_exec {env : Env} (h : Mirrors s.mutex s.parts) (hc : s.Unlocks t → s.mutex.type = .normal →
    (s.Owns t ∧ s.mutex.native.lockCount = 1) ∨ s.mutex.owner = none) (hu : s.Unlocking t ret) (ho : ¬ s.Owns t)
    (he : s.exec P t env = some s') : s'.mutex = s.mutex ∧
      (s'.place t = .nativeUnlock ret ∨ ∃ r, r ≠ 0 ∧ s'.place t = ret.place r) := by
  have hne : s.mutex.owner ≠ some t := fun hr => ho (h.real t hr)
  rcases hu with hp | hp
  · simp only [exec, hp] at he
    split at he
    case isTrue =>
      cases he
      exact ⟨rfl, .inr ⟨Errno.perm, by decide, Function.update_self ..⟩⟩
    case isFalse hnormal =>
      have hnormal : s.mutex.type = .normal := by
        cases ht : s.mutex.type with
        | normal => rfl
        | recursive => exact absurd ⟨.inr ht, hne⟩ hnormal
        | errorcheck => exact absurd ⟨.inl ht, hne⟩ hnormal
      have hnone := (hc ⟨ret, hp⟩ hnormal).resolve_left fun h' => ho h'.1
      have hm : { s.mutex with owner := none, lockCount := 0 } = s.mutex := by
        rw [← hnone, ← h.cleared hnone]
      rw [if_neg (by rw [hnormal]; simp)] at he
      cases he
      exact ⟨hm, .inl (Function.update_self ..)⟩
  · simp only [exec, hp] at he
    have hn : s.mutex.native.owner ≠ some t := ho
    rw [if_pos hn] at he
    cases he
    exact ⟨rfl, .inr ⟨_, mapError_ne_zero (by decide), Function.update_self ..⟩⟩

/-- What becomes of an unlock by a thread that does not own the mutex: its own steps change nothing, and it returns an
error. -/
theorem stranger_step (h : Mirrors s.mutex s.parts) (hc : UnlocksOwn s a) (hu : s.Unlocking t ret) (ho : ¬ s.Owns t)
    (hs : step P s a = some s') : ¬ s'.Owns t ∧ (a.runner = some t → s'.mutex = s.mutex) ∧
      (s'.Unlocking t ret ∨ a.runner = some t ∧ ∃ r, r ≠ 0 ∧ s'.place t = ret.place r) := by
  by_cases hat : t = a.thread
  · cases a with
    | call v op =>
      obtain rfl : t = v := hat
      simp only [step] at hs
      rcases hu with hp | hp <;> rw [hp] at hs <;> cases hs
    | run v env =>
      obtain rfl : t = v := hat
      simp only [step] at hs
      split at hs
      case isTrue => cases hs
      case isFalse =>
        obtain ⟨hm, hp⟩ := stranger_exec h (hc t rfl) hu ho hs
        refine ⟨by rwa [Owns, hm], fun _ => hm, ?_⟩
        exact hp.imp .inr fun hp => ⟨rfl, hp⟩
    | expire v =>
      obtain rfl : t = v := hat
      simp only [step] at hs
      rcases hu with hp | hp <;> rw [hp] at hs <;> cases hs
    | suspend v =>
      obtain rfl : t = v := hat
      have hi : s.interrupt t Code.intr = s := by
        unfold interrupt
        rcases hu with hp | hp <;> rw [hp]
      simp only [step, hi] at hs
      split at hs <;> cases hs
      exact ⟨ho, fun _ => rfl, .inl hu⟩
    | resume v =>
      simp only [step] at hs
      split at hs <;> cases hs
      exact ⟨ho, fun _ => rfl, .inl hu⟩
  · refine ⟨fun ho' => ho (owner_of_move (step_mutexMove hs) hat hu.part_ne ho'), fun hr => ?_, .inl ?_⟩
    · cases a with
      | run v env => exact absurd (Option.some.inj hr).symm hat
      | _ => cases hr
    · have hw := woken_step hs hat
      rcases hu with hp | hp
      · rw [hp] at hw
        generalize hp' : s'.place t = p' at hw
        cases hw with
        | stay => exact .inl hp'
        | token h' => cases h'
        | mutex h' => cases h'
      · rw [hp] at hw
        generalize hp' : s'.place t = p' at hw
        cases hw with
        | stay => exact .inr hp'
        | token h' => cases h'
        | mutex h' => cases h'

omit [DecidableEq κ] in
/-- When nobody is in the functions, the owners are the same. -/
theorem owner_eq_of_outside (h : Mirrors s.mutex s.parts) (hq : ∀ t, (s.place t).outside = true) :
    s.mutex.owner = s.mutex.native.owner := by
  have hout : ∀ t, s.parts t = .out := fun t => by
    have := hq t
    rw [parts]
    cases hp : s.place t <;> rw [hp] at this <;> first | rfl | cases this
  cases hn : s.mutex.native.owner with
  | none =>
    by_contra hne
    obtain ⟨v, hv⟩ := Option.ne_none_iff_exists'.mp hne
    exact absurd (hn.symm.trans (h.real v hv)) (by rintro ⟨⟩)
  | some t => exact h.part (hout t) hn

/-- **The owners are the same** when nobody is in the functions, and a thread that does not own the mutex and unlocks it
changes nothing and gets an error, if a normal mutex is unlocked only by a thread that has locked it, and once. -/
theorem mirrors_of_path {type : MutexType} {data : δ} (hp : Path (Next (step P)) UnlocksOwn (init type data) as s) :
    ((∀ t, (s.place t).outside = true) → s.mutex.owner = s.mutex.native.owner) ∧
    ∀ t ret a s', s.Unlocking t ret → ¬ s.Owns t → UnlocksOwn s a → step P s a = some s' →
      ¬ s'.Owns t ∧ (a.runner = some t → s'.mutex = s.mutex) ∧
        (s'.Unlocking t ret ∨ a.runner = some t ∧ ∃ r, r ≠ 0 ∧ s'.place t = ret.place r) := by
  have h : Mirrors s.mutex s.parts :=
    hp.invariant (I := fun s => Mirrors s.mutex s.parts) (fun _ _ _ h hc hs => mirrors_step h hc hs) (mirrors_init type data)
  exact ⟨owner_eq_of_outside h, fun t ret a s' hu ho hc hs => stranger_step h hc hu ho hs⟩

/-- Thread 0 locks the mutex, and thread 1 tries to unlock it. -/
def strangerUnlocks : List (Action (Call Unit)) := callThrough 0 .lock 5 ++ callThrough 1 .unlock 4

/-- Thread 0 locks the mutex twice, and unlocks it once. -/
def twiceLocked : List (Action (Call Unit)) :=
  callThrough 0 .lock 5 ++ callThrough 0 .lock 5 ++ callThrough 0 .unlock 4

instance (s : Monitor Unit Unit (Option (Call Unit))) (t : Thread) : Decidable (s.Unlocks t) :=
  decidable_of_iff ((match s.place t with | .unlock _ => true | _ => false) = true) (by
    unfold Unlocks
    cases s.place t <;> simp)

instance (s : Monitor Unit Unit (Option (Call Unit))) (a : Action (Call Unit)) : Decidable (UnlocksOwn s a) :=
  inferInstanceAs (Decidable (∀ t ∈ a.runner, s.Unlocks t → s.mutex.type = .normal →
    (s.mutex.native.owner = some t ∧ s.mutex.native.lockCount = 1) ∨ s.mutex.owner = none))

/-- What the last call of the thread returned, if it is outside. -/
def returned (p : Place Unit (Option (Call Unit))) : Option Errno :=
  match p with
  | .idle r => some r
  | _ => none

theorem isIdle_outside {p : Place Unit (Option (Call Unit))} (h : isIdle p = true) : p.outside = true := by
  cases p <;> first | rfl | cases h

/-- A stranger's unlock of a mutex that checks for errors. -/
theorem errorcheck_mirrors : ∃ s, Path (Next (step (calls Unit))) UnlocksOwn (init .errorcheck ())
      (callThrough 0 .lock 5 ++ callThrough 1 .unlock 3) s ∧
    returned (s.place 1) = some Errno.perm ∧ s.Owns 0 ∧ s.mutex.owner = s.mutex.native.owner := by
  obtain ⟨s, hs, h⟩ := exists_path (step (calls Unit)) UnlocksOwn (init .errorcheck ())
    (callThrough 0 .lock 5 ++ callThrough 1 .unlock 3)
    (fun s => decide ((∀ t, isIdle (s.place t) = true) ∧ returned (s.place 1) = some Errno.perm ∧
      s.mutex.native.owner = some 0)) (by decide +kernel)
  obtain ⟨hidle, hr, ho⟩ := of_decide_eq_true h
  exact ⟨s, hs, hr, ho, (mirrors_of_path hs).1 fun t => isIdle_outside (hidle t)⟩

/-- A stranger's unlock of a normal mutex fails, and forgets the owner; and an unlock of a mutex that stays locked forgets
it, too. -/
theorem normal_not_mirrors :
    (∃ s, run (step (calls Unit)) start strangerUnlocks = some s ∧ (∀ t, isIdle (s.place t) = true) ∧
      returned (s.place 1) = some Errno.inval ∧ s.mutex.owner = none ∧ s.mutex.native.owner = some 0) ∧
    ∃ s, run (step (calls Unit)) start twiceLocked = some s ∧ (∀ t, isIdle (s.place t) = true) ∧
      s.mutex.owner = none ∧ s.mutex.native.owner = some 0 := by
  constructor
  · obtain ⟨s, hs, h⟩ := exists_run (step (calls Unit)) start strangerUnlocks
      (fun s => decide ((∀ t, isIdle (s.place t) = true) ∧ returned (s.place 1) = some Errno.inval ∧
        s.mutex.owner = none ∧ s.mutex.native.owner = some 0)) (by decide +kernel)
    exact ⟨s, hs, of_decide_eq_true h⟩
  · obtain ⟨s, hs, h⟩ := exists_run (step (calls Unit)) start twiceLocked
      (fun s => decide ((∀ t, isIdle (s.place t) = true) ∧ s.mutex.owner = none ∧ s.mutex.native.owner = some 0))
      (by decide +kernel)
    exact ⟨s, hs, of_decide_eq_true h⟩

end Monitor

end Aixos.Posix
