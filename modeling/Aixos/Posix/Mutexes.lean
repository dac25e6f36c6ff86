import Aixos.Posix.Conditions

/-!
# Who holds the mutex of a monitor

A program that locks the mutex before it touches its data, and unlocks it afterwards, says at
which of its places a thread surely holds the mutex, and at which it may: a `Discipline`. If it
keeps to the rules of `Disciplined`, what it says is so in every run (`Guarded`): a thread at a
guarded place owns the kernel's mutex, and the owner is at a place where it may. So at most one
thread is at a guarded place (`Guarded.eq`), the unlock inside a wait never fails, and the owner
is never one who waits (`Guarded.owner`).

When a wait returns an error the program cannot tell whether it holds the mutex: it does not, if the
error is that of the second lock. `Discipline.retakes` says that this does not happen.
-/

namespace Aixos.Posix

variable {κ δ ω γ : Type}

/-- Where a thread holds the mutex of its monitor. -/
structure Discipline (γ : Type) where
  /-- It holds the mutex here. -/
  guarded : γ → Errno → Bool
  /-- It may hold the mutex here. -/
  may : γ → Errno → Bool
  /-- Who waits takes the mutex again. -/
  retakes : Prop

namespace Discipline

variable (D : Discipline γ)

/-- Here a program can go on when it has locked the mutex. -/
def AfterLock (c : γ) : Prop := (∀ r, D.guarded c r = true → r = 0) ∧ D.may c 0 = true

/-- Here a program can go on when it has waited. -/
def AfterWait (c : γ) : Prop := (∀ r, D.guarded c r = true → r = 0 ∨ D.retakes) ∧ ∀ r, D.may c r = true

/-- Here a program can go on when it has unlocked the mutex. -/
def AfterUnlock (c : γ) : Prop := ∀ r, D.guarded c r = false

/-- Here a program can go on when it has called another function. -/
def AfterPost (guarded may : Prop) (c : γ) : Prop := (∀ r, D.guarded c r = true → guarded) ∧ (may → ∀ r, D.may c r = true)

/-- What a thread may do at a place. -/
def Allows (c : γ) (r : Errno) (n : Outcome κ γ) : Prop :=
  match n with
  | .goto c' => (D.guarded c' r = true → D.guarded c r = true) ∧ (D.may c r = true → D.may c' r = true)
  | .call f c' =>
    match f with
    | .lock | .trylock | .timedlock _ => D.may c r = false ∧ D.AfterLock c'
    | .unlock => D.AfterUnlock c'
    | .wait _ | .timedwait .. => D.guarded c r = true ∧ D.AfterWait c'
    | .signal _ | .broadcast _ => D.AfterPost (D.guarded c r = true) (D.may c r = true) c'
  | .done _ => D.may c r = false

end Discipline

/-- A program that says rightly where a thread holds the mutex. -/
structure Disciplined (P : Program κ δ ω γ) (D : Discipline γ) : Prop where
  start : ∀ op, D.guarded (P.start op) 0 = false
  next : ∀ c t r d, D.Allows c r (P.next c t r d).2

/-- The second lock inside a wait succeeds. -/
def Retakes {ω : Type} (s : Monitor κ δ γ) (a : Action ω) : Prop :=
  ∀ t ∈ a.runner, ∀ result waited c, s.place t = .locked result (.wait waited c) → result = Code.ok

variable {D : Discipline γ} {own own' : Prop}

def LockReturn.Proper (D : Discipline γ) (ret : LockReturn γ) : Prop :=
  match ret with
  | .program c => D.AfterLock c
  | .wait _ c => D.AfterWait c

/-- What is known of a thread at a place, if `own` says whether it owns the kernel's mutex. -/
def Place.Proper (D : Discipline γ) (own : Prop) (p : Place κ γ) : Prop :=
  match p with
  | .idle _ => ¬ own
  | .program c r => (D.guarded c r = true → own) ∧ (own → D.may c r = true)
  | .timedlock _ c => D.AfterLock c ∧ ¬ own
  | .lock _ ret | .nativeLock _ ret | .mutexBlocked _ ret => ret.Proper D ∧ ¬ own
  | .locked result ret => ret.Proper D ∧ (own ↔ result = Code.ok)
  | .unlock (.program c) | .nativeUnlock (.program c) => D.AfterUnlock c
  | .unlock (.wait _ _ c) | .nativeUnlock (.wait _ _ c) | .wait _ _ c | .timedwait _ _ c => D.AfterWait c ∧ own
  | .waitRefused .. => False
  | .semWait _ _ c | .semBlocked _ _ c | .waitFailed _ _ c => D.AfterWait c ∧ ¬ own
  | .signal _ c | .broadcast _ c => D.AfterPost own own c

theorem Place.Proper.congr {p : Place κ γ} (h : p.Proper D own) (ho : own ↔ own') : p.Proper D own' :=
  propext ho ▸ h

theorem LockReturn.proper_place {ret : LockReturn γ} {r : Errno} (h : ret.Proper D) (ho : own ↔ r = 0)
    (hr : D.retakes → ∀ waited c, ret = .wait waited c → r = 0) : (ret.place r : Place κ γ).Proper D own := by
  cases ret with
  | program c =>
    refine ⟨fun hg => ho.mpr (h.1 r hg), fun hown => ?_⟩
    rw [ho.mp hown]
    exact h.2
  | wait waited c =>
    refine ⟨fun hg => ?_, fun _ => h.2 _⟩
    by_cases h₀ : r = 0
    · exact ho.mpr h₀
    · rw [if_pos h₀] at hg
      rcases h.1 r hg with h₁ | h₁
      · exact absurd h₁ h₀
      · exact absurd (hr h₁ waited c rfl) h₀

theorem Outcome.proper_place {n : Outcome κ γ} {c : γ} {r : Errno} (h : D.Allows c r n)
    (hp : (Place.program c r : Place κ γ).Proper D own) : (n.place r).Proper D own := by
  have hnot : D.may c r = false → ¬ own := fun hm ho => by
    rw [hp.2 ho] at hm
    cases hm
  cases n with
  | goto c' => exact ⟨fun hg => hp.1 (h.1 hg), fun ho => h.2 (hp.2 ho)⟩
  | call f c' =>
    cases f with
    | lock => exact ⟨h.2, hnot h.1⟩
    | trylock => exact ⟨h.2, hnot h.1⟩
    | timedlock absolute => exact ⟨h.2, hnot h.1⟩
    | unlock => exact h
    | wait k => exact ⟨h.2, hp.1 h.1⟩
    | timedwait k absolute => exact ⟨h.2, hp.1 h.1⟩
    | signal k => exact ⟨fun r hg => hp.1 (h.1 r hg), fun ho => h.2 (hp.2 ho)⟩
    | broadcast k => exact ⟨fun r hg => hp.1 (h.1 r hg), fun ho => h.2 (hp.2 ho)⟩
  | done r => exact hnot h

theorem mapError_ne_zero {result : Code} (h : result ≠ Code.ok) : mapError result ≠ 0 := by
  unfold mapError
  rw [if_neg h]
  repeat' split
  all_goals decide

namespace Monitor

variable [DecidableEq κ] {P : Program κ δ ω γ} {s s' m : Monitor κ δ γ} {k : κ} {t u : Thread} {first first' : List Thread}
  {a : Action ω} {result result' : Code} {n : ℕ} {p : Place κ γ}

/-- The thread owns the kernel's mutex. -/
def Owns (s : Monitor κ δ γ) (t : Thread) : Prop := s.mutex.native.owner = some t

/-- Where threads are is proper, and the mutex is a plain one that is locked once. -/
structure Guarded (D : Discipline γ) (s : Monitor κ δ γ) : Prop where
  normal : s.mutex.type = .normal
  single : ∀ t, s.Owns t → s.mutex.native.lockCount = 1
  proper : ∀ t, (s.place t).Proper D (s.Owns t)

omit [DecidableEq κ] in
theorem Owns.eq (ht : s.Owns t) (hu : s.Owns u) : t = u := Option.some.inj (ht.symm.trans hu)

omit [DecidableEq κ] in
/-- **Mutual exclusion**: no two threads are at guarded places of the program. -/
theorem Guarded.eq {c c' : γ} {r r' : Errno} (h : s.Guarded D) (ht : s.place t = .program c r)
    (hu : s.place u = .program c' r') (hc : D.guarded c r = true) (hc' : D.guarded c' r' = true) : t = u := by
  have h₁ := h.proper t
  have h₂ := h.proper u
  rw [ht] at h₁
  rw [hu] at h₂
  exact Owns.eq (h₁.1 hc) (h₂.1 hc')

/-- The owner of the mutex is not one who waits. -/
theorem Guarded.owner (h : s.Guarded D) (ht : s.Owns t) :
    (s.place t).awaitsMutex = false ∧ (∀ k, (s.place t).stage k ≠ .blocked) ∧ ∀ r, s.place t ≠ .idle r := by
  have hp := h.proper t
  refine ⟨?_, fun k hk => ?_, fun r hr => ?_⟩
  · cases hpl : s.place t with
    | mutexBlocked timeout ret =>
      rw [hpl] at hp
      exact absurd ht hp.2
    | _ => rfl
  · obtain ⟨timeout, c, hpl⟩ := Place.eq_semBlocked hk
    rw [hpl] at hp
    exact hp.2 ht
  · rw [hr] at hp
    exact hp ht

omit [DecidableEq κ] in
/-- A thread goes to another place, and takes nothing from the others. -/
theorem Guarded.change (h : s.Guarded D) (ht : s'.mutex.type = s.mutex.type) (hc : ∀ u, s'.Owns u → s'.mutex.native.lockCount = 1)
    (hs : s'.place = Function.update s.place t p) (hown : ∀ u, u ≠ t → (s.Owns u ↔ s'.Owns u))
    (hp : p.Proper D (s'.Owns t)) : s'.Guarded D := by
  refine ⟨ht.trans h.normal, hc, fun u => ?_⟩
  rw [hs]
  by_cases hu : u = t
  · subst hu
    rwa [Function.update_self]
  · rw [Function.update_of_ne hu]
    exact (h.proper u).congr (hown u hu)

omit [DecidableEq κ] in
/-- A thread goes to another place, and the kernel's mutex stays. -/
theorem Guarded.goto (h : s.Guarded D) (hm : s'.mutex.native = s.mutex.native)
    (ht : s'.mutex.type = s.mutex.type) (hs : s'.place = Function.update s.place t p)
    (hp : p.Proper D (s.Owns t)) : s'.Guarded D := by
  have hown : ∀ u, s.Owns u ↔ s'.Owns u := fun u => by rw [Owns, Owns, hm]
  refine h.change ht (fun u hu => ?_) hs (fun u _ => hown u) (hp.congr (hown t))
  rw [hm]
  exact h.single u ((hown u).mpr hu)

theorem Guarded.setCond (h : s.Guarded D) (c : Cond) : (s.setCond k c).Guarded D := ⟨h.normal, h.single, h.proper⟩

theorem guarded_post (h : s.Guarded D) (hp : s.post k first = some (s', result, first')) :
    s'.Guarded D ∧ s'.mutex = s.mutex := by
  rcases post_cases hp with ⟨u, timeout, c, hu, rfl, -⟩ | ⟨hn, ⟨hc, rfl, -⟩ | ⟨hc, -, rfl⟩⟩
  · have hpu := h.proper u
    rw [hu] at hpu
    exact ⟨h.goto rfl rfl rfl hpu, rfl⟩
  · exact ⟨h, rfl⟩
  · exact ⟨h.setCond _, rfl⟩

theorem guarded_posts (h : s.Guarded D) (hp : posts k n result s first = some (s', result')) :
    s'.Guarded D ∧ s'.mutex = s.mutex := by
  induction n generalizing s result first with
  | zero =>
    rw [posts, Option.some.injEq, Prod.mk.injEq] at hp
    obtain ⟨rfl, -⟩ := hp
    exact ⟨h, rfl⟩
  | succ n ih =>
    rw [posts] at hp
    split at hp
    case h_1 => cases hp
    case h_2 m r f hm =>
      obtain ⟨h₁, h₂⟩ := guarded_post h hm
      split at hp
      case isTrue =>
        cases hp
        exact ⟨h₁, h₂⟩
      case isFalse =>
        obtain ⟨h₃, h₄⟩ := ih h₁ hp
        exact ⟨h₃, h₄.trans h₂⟩

omit [DecidableEq κ] in
/-- The owner of the mutex hands it over. -/
theorem guarded_handOver (h : s.Guarded D) (ht : s.Owns t) (hm : s.handOver first = some m)
    (hb : (s.place t).awaitsMutex = false) (hp : p.Proper D False) : (m.goto t p).Guarded D := by
  have hnone : ∀ u, u ≠ t → ¬ s.Owns u := fun u hu ho => hu (Owns.eq ho ht)
  rcases handOver_cases hm with ⟨u, timeout, ret, hu, rfl⟩ | ⟨-, rfl⟩
  · have hut : u ≠ t := by
      rintro rfl
      rw [hu] at hb
      cases hb
    have hown : ∀ v, ((({ s with mutex.native := ⟨some u, 1⟩ } : Monitor κ δ γ).goto u (.locked Code.ok ret)).goto t p).Owns v ↔ v = u :=
      fun v => ⟨fun ho => (Option.some.inj ho).symm, fun hv => congrArg some hv.symm⟩
    refine ⟨h.normal, fun _ _ => rfl, fun v => ?_⟩
    by_cases hv : v = t
    · subst hv
      have hplace : ((({ s with mutex.native := ⟨some u, 1⟩ } : Monitor κ δ γ).goto u (.locked Code.ok ret)).goto v p).place v = p := by
        simp [goto]
      rw [hplace]
      exact hp.congr ⟨False.elim, fun ho => hut ((hown v).mp ho).symm⟩
    · by_cases hvu : v = u
      · subst hvu
        have hpv := h.proper v
        rw [hu] at hpv
        have hplace : ((({ s with mutex.native := ⟨some v, 1⟩ } : Monitor κ δ γ).goto v (.locked Code.ok ret)).goto t p).place v =
            .locked Code.ok ret := by
          simp [goto, hv]
        rw [hplace]
        exact ⟨hpv.1, fun _ => rfl, fun _ => rfl⟩
      · have hplace : ((({ s with mutex.native := ⟨some u, 1⟩ } : Monitor κ δ γ).goto u (.locked Code.ok ret)).goto t p).place v =
            s.place v := by
          simp [goto, hv, hvu]
        rw [hplace]
        exact (h.proper v).congr ⟨fun ho => absurd ho (hnone v hv), fun ho => absurd ((hown v).mp ho) hvu⟩
  · have hown : ∀ v, ¬ (({ s with mutex.native := ⟨none, 0⟩ } : Monitor κ δ γ).goto t p).Owns v := (by rintro _ ⟨⟩)
    exact h.change rfl (fun u hu => absurd hu (hown u)) rfl
      (fun u hu => ⟨fun ho => absurd ho (hnone u hu), fun ho => absurd ho (hown u)⟩)
      (hp.congr ⟨False.elim, hown t⟩)

theorem guarded_exec {env : Env} (hd : Disciplined P D) (h : s.Guarded D)
    (hr : D.retakes → ∀ result waited c, s.place t = .locked result (.wait waited c) → result = Code.ok)
    (he : s.exec P t env = some s') : s'.Guarded D := by
  have hpt := h.proper t
  unfold exec at he
  split at he
  case h_1 | h_2 | h_3 => cases he
  case h_4 c r hp =>
    rw [hp] at hpt
    cases he
    exact h.goto rfl rfl rfl (Outcome.proper_place (hd.next c t r s.data) hpt)
  case h_5 absolute c hp =>
    rw [hp] at hpt
    split at he <;> cases he
    · refine h.goto rfl rfl rfl ⟨fun hg => ?_, fun ho => absurd ho hpt.2⟩
      exact absurd (hpt.1.1 _ hg) (by decide)
    · exact h.goto rfl rfl rfl hpt
  case h_6 timeout ret hp =>
    rw [hp] at hpt
    rw [if_neg (by simp [h.normal]), if_neg (by simp [h.normal])] at he
    cases he
    exact h.goto rfl rfl rfl hpt
  case h_7 timeout ret hp =>
    rw [hp] at hpt
    have hnot : ∀ {result : Code}, result ≠ Code.ok → (Place.locked result ret : Place κ γ).Proper D (s.Owns t) :=
      fun hne => ⟨hpt.1, fun ho => absurd ho hpt.2, fun he => absurd he hne⟩
    split at he
    case isTrue hn =>
      cases he
      refine h.change rfl (fun _ _ => rfl) rfl (fun u hu => ⟨fun ho => ?_, fun ho => ?_⟩) ⟨hpt.1, fun _ => rfl, fun _ => rfl⟩
      · rw [Owns, hn] at ho
        cases ho
      · exact absurd (Option.some.inj ho).symm hu
    case isFalse =>
      split at he
      case isTrue ho => exact absurd ho hpt.2
      case isFalse =>
        split at he
        case isTrue =>
          cases he
          exact h.goto rfl rfl rfl (hnot (by decide))
        case isFalse =>
          split at he <;> cases he
          · exact h.goto rfl rfl rfl (hnot (by decide))
          · exact h.goto rfl rfl rfl hpt
  case h_8 result ret hp =>
    rw [hp] at hpt
    split at he <;> cases he
    case isTrue hok => exact h.goto rfl rfl rfl (LockReturn.proper_place hpt.1 ⟨fun _ => rfl, fun _ => hpt.2.mpr hok⟩ fun _ _ _ _ => rfl)
    case isFalse hok =>
      refine h.goto rfl rfl rfl (LockReturn.proper_place hpt.1 ⟨fun ho => absurd (hpt.2.mp ho) hok, fun h₀ => absurd h₀ (mapError_ne_zero hok)⟩ ?_)
      rintro hret waited c rfl
      exact absurd (hr hret _ _ _ hp) hok
  case h_9 ret hp =>
    rw [hp] at hpt
    rw [if_neg (by simp [h.normal]), if_neg (by simp [h.normal])] at he
    cases he
    exact h.goto rfl rfl rfl (by cases ret <;> exact hpt)
  case h_10 ret hp =>
    rw [hp] at hpt
    split at he
    case isTrue hn =>
      cases he
      cases ret with
      | program c => exact h.goto rfl rfl rfl ⟨fun hg => absurd hg (by rw [hpt]; nofun), fun ho => absurd ho hn⟩
      | wait k timeout c => exact absurd hpt.2 hn
    case isFalse ho =>
      have ho := not_not.mp ho
      have hret : (ret.place 0 : Place κ γ).Proper D False := by
        cases ret with
        | program c => exact ⟨fun hg => absurd hg (by rw [hpt 0]; nofun), False.elim⟩
        | wait k timeout c => exact ⟨hpt.1, not_false⟩
      split at he
      case isTrue hne =>
        rw [h.single t ho] at hne
        exact absurd rfl hne
      case isFalse =>
        obtain ⟨m, hm, rfl⟩ := Option.map_eq_some_iff.mp he
        exact guarded_handOver h ho hm (by rw [hp]; rfl) hret
  case h_11 k absolute c hp =>
    rw [hp] at hpt
    split at he <;> cases he
    · exact h.goto rfl rfl rfl ⟨fun _ => hpt.2, fun _ => hpt.1.2 _⟩
    · exact h.goto rfl rfl rfl hpt
  case h_12 k timeout c hp =>
    rw [hp] at hpt
    cases he
    exact h.goto rfl rfl rfl hpt
  case h_13 k r c hp =>
    rw [hp] at hpt
    exact hpt.elim
  case h_14 k timeout c hp =>
    rw [hp] at hpt
    split at he
    case isTrue =>
      cases he
      exact h.goto rfl rfl rfl hpt
    case isFalse =>
      split at he
      case isTrue =>
        cases he
        exact h.goto rfl rfl rfl hpt
      case isFalse => split at he <;> cases he <;> exact h.goto rfl rfl rfl hpt
  case h_15 k result c hp =>
    rw [hp] at hpt
    cases he
    split <;> exact h.goto rfl rfl rfl hpt
  case h_16 k c hp =>
    rw [hp] at hpt
    split at he
    case isTrue =>
      obtain ⟨⟨m, result, f⟩, hm, rfl⟩ := Option.map_eq_some_iff.mp he
      obtain ⟨h₁, h₂⟩ := guarded_post (h.setCond _) hm
      have hown : m.Owns t ↔ s.Owns t := by rw [Owns, h₂]; exact Iff.rfl
      change (m.goto t (.program c (mapError result))).Guarded D
      exact h₁.goto rfl rfl rfl
        ⟨fun hg => hown.mpr (hpt.1 _ hg), fun ho => hpt.2 (hown.mp ho) _⟩
    case isFalse =>
      cases he
      exact h.goto rfl rfl rfl ⟨hpt.1 _, fun ho => hpt.2 ho _⟩
  case h_17 k c hp =>
    rw [hp] at hpt
    obtain ⟨⟨m, result⟩, hm, rfl⟩ := Option.map_eq_some_iff.mp he
    obtain ⟨h₁, h₂⟩ := guarded_posts (h.setCond _) hm
    have hown : m.Owns t ↔ s.Owns t := by rw [Owns, h₂]; exact Iff.rfl
    change (m.goto t (.program c (mapError result))).Guarded D
    exact h₁.goto rfl rfl rfl
      ⟨fun hg => hown.mpr (hpt.1 _ hg), fun ho => hpt.2 (hown.mp ho) _⟩

omit [DecidableEq κ] in
theorem guarded_interrupt (h : s.Guarded D) (hr : result ≠ Code.ok) : (s.interrupt t result).Guarded D := by
  have hpt := h.proper t
  unfold interrupt
  split
  case h_1 timeout ret hp =>
    rw [hp] at hpt
    exact h.goto rfl rfl rfl ⟨hpt.1, fun ho => absurd ho hpt.2, fun he => absurd he hr⟩
  case h_2 k timeout c hp =>
    rw [hp] at hpt
    exact h.goto rfl rfl rfl hpt
  case h_3 => exact h

theorem guarded_step (hd : Disciplined P D) (h : s.Guarded D) (hr : D.retakes → Retakes s a)
    (hs : step P s a = some s') : s'.Guarded D := by
  cases a with
  | call t op =>
    simp only [step] at hs
    split at hs
    case h_1 r hp =>
      have hpt := h.proper t
      rw [hp] at hpt
      split at hs <;> cases hs
      exact h.goto rfl rfl rfl ⟨fun hg => absurd hg (by rw [hd.start]; rintro ⟨⟩), fun ho => absurd ho hpt⟩
    case h_2 => cases hs
  | run t env =>
    simp only [step] at hs
    split at hs
    case isTrue => cases hs
    case isFalse => exact guarded_exec hd h (fun hret => hr hret t rfl) hs
  | expire t =>
    simp only [step] at hs
    split at hs <;> cases hs
    exact guarded_interrupt h (by decide)
  | suspend t =>
    simp only [step] at hs
    split at hs <;> cases hs
    have : (s.interrupt t Code.intr).Guarded D := guarded_interrupt h (by decide)
    exact ⟨this.normal, this.single, this.proper⟩
  | resume t =>
    simp only [step] at hs
    split at hs <;> cases hs
    exact ⟨h.normal, h.single, h.proper⟩

omit [DecidableEq κ] in
theorem guarded_init (data : δ) : (init .normal data : Monitor κ δ γ).Guarded D :=
  ⟨rfl, (by rintro _ ⟨⟩), fun _ => (by rintro ⟨⟩)⟩

/-! ## Nobody waits for a mutex that is free -/

/-- Who waits for the mutex waits for its owner. -/
def Held (s : Monitor κ δ γ) : Prop := ∀ u, (s.place u).awaitsMutex = true → s.mutex.native.owner ≠ none

omit [DecidableEq κ] in
theorem Held.goto (h : s.Held) (hm : s.mutex.native.owner ≠ none → s'.mutex.native.owner ≠ none)
    (hs : s'.place = Function.update s.place t p) (hp : p.awaitsMutex = true → s'.mutex.native.owner ≠ none) : s'.Held := by
  intro u hu
  rw [hs] at hu
  by_cases hut : u = t
  · subst hut
    rw [Function.update_self] at hu
    exact hp hu
  · rw [Function.update_of_ne hut] at hu
    exact hm (h u hu)

omit [DecidableEq κ] in
theorem Held.move (h : s.Held) (hm : s'.mutex.native.owner = s.mutex.native.owner)
    (hs : s'.place = Function.update s.place t p) (hp : p.awaitsMutex = false) : s'.Held :=
  h.goto (by rw [hm]; exact id) hs (by rw [hp]; nofun)

omit [DecidableEq κ] in
theorem Held.handOver (h : s.Held) (hm : s.handOver first = some m) : m.Held := by
  rcases handOver_cases hm with ⟨u, timeout, ret, hu, rfl⟩ | ⟨hn, rfl⟩
  · exact h.goto (fun _ => nofun) rfl nofun
  · intro u hu
    have hu : (s.place u).awaitsMutex = true := hu
    rw [hn u] at hu
    cases hu

theorem held_post (h : s.Held) (hp : s.post k first = some (s', result, first')) : s'.Held := by
  rcases post_cases hp with ⟨u, timeout, c, hu, rfl, -⟩ | ⟨hn, ⟨hc, rfl, -⟩ | ⟨hc, -, rfl⟩⟩
  · exact h.move rfl rfl rfl
  · exact h
  · exact h

theorem held_posts (h : s.Held) (hp : posts k n result s first = some (s', result')) : s'.Held := by
  induction n generalizing s result first with
  | zero =>
    rw [posts, Option.some.injEq, Prod.mk.injEq] at hp
    obtain ⟨rfl, -⟩ := hp
    exact h
  | succ n ih =>
    rw [posts] at hp
    split at hp
    case h_1 => cases hp
    case h_2 m r f hm =>
      split at hp
      case isTrue =>
        cases hp
        exact held_post h hm
      case isFalse => exact ih (held_post h hm) hp

end Monitor

@[simp] theorem LockReturn.awaitsMutex_place (ret : LockReturn γ) (r : Errno) :
    (ret.place r : Place κ γ).awaitsMutex = false := by
  cases ret <;> rfl

@[simp] theorem UnlockReturn.awaitsMutex_place (ret : UnlockReturn κ γ) (r : Errno) :
    (ret.place r).awaitsMutex = false := by
  cases ret with
  | program c => rfl
  | wait k timeout c =>
    simp only [place]
    split <;> rfl

@[simp] theorem Outcome.awaitsMutex_place (n : Outcome κ γ) (r : Errno) : (n.place r).awaitsMutex = false := by
  cases n with
  | goto c => rfl
  | call f c => cases f <;> rfl
  | done r => rfl

namespace Monitor

variable [DecidableEq κ] {P : Program κ δ ω γ} {s s' m : Monitor κ δ γ} {k : κ} {t u : Thread} {a : Action ω} {result : Code}

theorem held_exec {env : Env} (h : s.Held) (he : s.exec P t env = some s') : s'.Held := by
  unfold exec at he
  split at he
  case h_1 | h_2 | h_3 => cases he
  case h_4 c r hp =>
    cases he
    exact h.move rfl rfl (Outcome.awaitsMutex_place ..)
  case h_5 | h_11 => split at he <;> cases he <;> exact h.move rfl rfl rfl
  case h_6 timeout ret hp =>
    split at he
    case isTrue =>
      cases he
      exact h.move rfl rfl (ret.awaitsMutex_place _)
    case isFalse =>
      split at he <;> cases he
      · exact h.move rfl rfl (ret.awaitsMutex_place _)
      · exact h.move rfl rfl rfl
  case h_7 timeout ret hp =>
    split at he
    case isTrue =>
      cases he
      exact h.goto (fun _ => nofun) rfl nofun
    case isFalse hown =>
      split at he
      case isTrue => split at he <;> cases he <;> exact h.move rfl rfl rfl
      case isFalse =>
        split at he
        case isTrue =>
          cases he
          exact h.move rfl rfl rfl
        case isFalse =>
          split at he <;> cases he
          · exact h.move rfl rfl rfl
          · exact h.goto id rfl fun _ => hown
  case h_8 result ret hp => split at he <;> cases he <;> exact h.move rfl rfl (ret.awaitsMutex_place _)
  case h_9 ret hp =>
    split at he
    case isTrue =>
      cases he
      exact h.move rfl rfl (ret.awaitsMutex_place _)
    case isFalse =>
      split at he <;> cases he
      · exact h.move rfl rfl (ret.awaitsMutex_place _)
      · exact h.move rfl rfl rfl
  case h_10 ret hp =>
    split at he
    case isTrue =>
      cases he
      exact h.move rfl rfl (ret.awaitsMutex_place _)
    case isFalse =>
      split at he
      case isTrue =>
        cases he
        exact h.move rfl rfl (ret.awaitsMutex_place _)
      case isFalse =>
        obtain ⟨m, hm, rfl⟩ := Option.map_eq_some_iff.mp he
        exact (h.handOver hm).move rfl rfl (ret.awaitsMutex_place _)
  case h_12 | h_13 =>
    cases he
    exact h.move rfl rfl rfl
  case h_14 k timeout c hp =>
    split at he
    case isTrue =>
      cases he
      exact h.move rfl rfl rfl
    case isFalse =>
      split at he
      case isTrue =>
        cases he
        exact h.move rfl rfl rfl
      case isFalse => split at he <;> cases he <;> exact h.move rfl rfl rfl
  case h_15 k result c hp =>
    cases he
    split <;> exact h.move rfl rfl rfl
  case h_16 k c hp =>
    split at he
    case isTrue =>
      obtain ⟨⟨m, result, f⟩, hm, rfl⟩ := Option.map_eq_some_iff.mp he
      have hset : (s.setCond k { s.cond k with waiters := (s.cond k).waiters - 1 }).Held := h
      exact (held_post hset hm).move rfl rfl rfl
    case isFalse =>
      cases he
      exact h.move rfl rfl rfl
  case h_17 k c hp =>
    obtain ⟨⟨m, result⟩, hm, rfl⟩ := Option.map_eq_some_iff.mp he
    have hset : (s.setCond k { s.cond k with waiters := 0 }).Held := h
    exact (held_posts hset hm).move rfl rfl rfl

omit [DecidableEq κ] in
theorem held_interrupt (h : s.Held) : (s.interrupt t result).Held := by
  unfold interrupt
  split
  case h_1 => exact h.move rfl rfl rfl
  case h_2 => exact h.move rfl rfl rfl
  case h_3 => exact h

theorem held_step (h : s.Held) (hs : step P s a = some s') : s'.Held := by
  cases a with
  | call t op =>
    simp only [step] at hs
    split at hs
    case h_1 r hp =>
      split at hs <;> cases hs
      exact h.move rfl rfl rfl
    case h_2 => cases hs
  | run t env =>
    simp only [step] at hs
    split at hs
    case isTrue => cases hs
    case isFalse => exact held_exec h hs
  | expire t =>
    simp only [step] at hs
    split at hs <;> cases hs
    exact held_interrupt h
  | suspend t =>
    simp only [step] at hs
    split at hs <;> cases hs
    have hi : (s.interrupt t Code.intr).Held := held_interrupt h
    exact hi
  | resume t =>
    simp only [step] at hs
    split at hs <;> cases hs
    exact h

omit [DecidableEq κ] in
theorem held_init (type : MutexType) (data : δ) : (init type data : Monitor κ δ γ).Held := nofun

/-- **Who waits for the mutex is not forgotten**: its owner is inside a function, and does not wait. -/
theorem Guarded.released (h : s.Guarded D) (hh : s.Held) (hu : (s.place u).awaitsMutex = true) :
    ∃ v, s.Owns v ∧ (s.place v).awaitsMutex = false ∧ (∀ k, (s.place v).stage k ≠ .blocked) ∧ ∀ r, s.place v ≠ .idle r := by
  obtain ⟨v, hv⟩ := Option.ne_none_iff_exists'.mp (hh u hu)
  exact ⟨v, hv, h.owner hv⟩

end Monitor

end Aixos.Posix
