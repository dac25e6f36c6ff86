import Aixos.Kernel.Posix
import Aixos.Library.TokenRoom
import Aixos.Library.Transition

/-!
# Condition variables

A condition variable is a waiting room (`Aixos.Library.TokenRoom`): `waiters` is its counter and
the count of its semaphore is its tokens. Every step of a monitor is a move in the room of each
of its condition variables (`room_step`), whatever program runs.
-/

open TokenRoom

namespace Aixos.Posix

variable {κ δ ω γ : Type} [DecidableEq κ]

/-- Where a thread is in the room of a condition variable. -/
def Place.stage (p : Place κ γ) (k : κ) : Stage :=
  match p with
  | .unlock (.wait k' _ _) | .nativeUnlock (.wait k' _ _) => if k' = k then .entering else .out
  | .waitRefused k' _ _ => if k' = k then .refused else .out
  | .semWait k' _ _ => if k' = k then .ready else .out
  | .semBlocked k' _ _ => if k' = k then .blocked else .out
  | .waitFailed k' _ _ => if k' = k then .failed else .out
  | .idle _ | .program .. | .timedlock .. | .lock .. | .nativeLock .. | .mutexBlocked .. | .locked ..
  | .unlock (.program _) | .nativeUnlock (.program _) | .timedwait .. | .wait .. | .signal .. | .broadcast .. => .out

/-- It signals or broadcasts the condition variable. -/
def Place.posts (p : Place κ γ) (k : κ) : Bool :=
  match p with
  | .signal k' _ | .broadcast k' _ => k' = k
  | _ => false

/-- It begins to wait. -/
def Place.begins (p : Place κ γ) (k : κ) : Bool :=
  match p with
  | .wait k' _ _ => k' = k
  | _ => false

theorem Place.awaits_iff {p : Place κ γ} {k : κ} : p.awaits k = true ↔ p.stage k = .blocked := by
  cases p with
  | unlock ret => cases ret <;> simp [awaits, stage, ite_eq_iff]
  | nativeUnlock ret => cases ret <;> simp [awaits, stage, ite_eq_iff]
  | _ => simp [awaits, stage, ite_eq_iff]

theorem Place.eq_semBlocked {p : Place κ γ} {k : κ} (h : p.stage k = .blocked) : ∃ timeout c, p = .semBlocked k timeout c := by
  cases p with
  | unlock ret => cases ret <;> simp [stage, ite_eq_iff] at h
  | nativeUnlock ret => cases ret <;> simp [stage, ite_eq_iff] at h
  | semBlocked k' timeout c =>
    simp only [stage, ite_eq_left_iff, reduceCtorEq, imp_false, not_not] at h
    exact ⟨timeout, c, by rw [h]⟩
  | _ => simp [stage, ite_eq_iff] at h

theorem Place.eq_semWait {p : Place κ γ} {k : κ} (h : p.stage k = .ready) : ∃ timeout c, p = .semWait k timeout c := by
  cases p with
  | unlock ret => cases ret <;> simp [stage, ite_eq_iff] at h
  | nativeUnlock ret => cases ret <;> simp [stage, ite_eq_iff] at h
  | semWait k' timeout c =>
    simp only [stage, ite_eq_left_iff, reduceCtorEq, imp_false, not_not] at h
    exact ⟨timeout, c, by rw [h]⟩
  | _ => simp [stage, ite_eq_iff] at h

@[simp] theorem Place.stage_wakened (c : γ) (k : κ) : (Place.wakened c).stage k = .out := rfl

@[simp] theorem LockReturn.stage_place (ret : LockReturn γ) (r : Errno) (k : κ) : (ret.place r).stage k = .out := by
  cases ret <;> rfl

@[simp] theorem Call.stage_place (f : Call κ) (c : γ) (k : κ) : (f.place c).stage k = .out := by cases f <;> rfl

@[simp] theorem Outcome.stage_place (n : Outcome κ γ) (r : Errno) (k : κ) : (n.place r).stage k = .out := by
  cases n with
  | goto c => rfl
  | call f c => exact f.stage_place c k
  | done r => rfl

namespace Monitor

variable {P : Program κ δ ω γ} {s s' : Monitor κ δ γ} {k k' : κ} {t u : Thread} {first first' : List Thread}
  {a : Action ω} {result result' : Code} {n : ℕ}

/-- The room of a condition variable. -/
def room (s : Monitor κ δ γ) (k : κ) : Room Thread :=
  ⟨(s.cond k).waiters.toNat, (s.cond k).count, fun t => (s.place t).stage k⟩

theorem room_goto (p : Place κ γ) : (s.goto t p).room k = (s.room k).setStage t (p.stage k) := by
  simp only [room, Room.setStage, goto, Room.mk.injEq, true_and]
  funext u
  by_cases hu : u = t
  · subst hu
    simp
  · simp [hu]

theorem room_goto_of_eq {p : Place κ γ} (h : p.stage k = (s.place t).stage k) : (s.goto t p).room k = s.room k := by
  rw [room_goto, h]
  simp [Room.setStage, room]

theorem room_setCond (c : Cond) : (s.setCond k c).room k = ⟨c.waiters.toNat, c.count, (s.room k).stage⟩ := by
  simp [room, setCond]

theorem room_setCond_of_ne (c : Cond) (h : k ≠ k') : (s.setCond k' c).room k = s.room k := by
  simp [room, setCond, h]

/-- What a post does. -/
theorem post_cases (h : s.post k first = some (s', result, first')) :
    (∃ u timeout c, s.place u = .semBlocked k timeout c ∧ s' = s.goto u (.wakened c) ∧ result = Code.ok) ∨
      (∀ u, (s.place u).stage k ≠ .blocked) ∧
        ((s.cond k).count = semMaxCount ∧ s' = s ∧ result = Code.overflow ∨
          (s.cond k).count ≠ semMaxCount ∧ result = Code.ok ∧
            s' = s.setCond k { s.cond k with count := (s.cond k).count + 1 }) := by
  unfold post at h
  split at h
  case isTrue =>
    split at h
    case h_1 => cases h
    case h_2 u first =>
      split at h
      case h_1 k' timeout c hu =>
        split at h
        case isTrue hk =>
          cases h
          subst hk
          exact .inl ⟨u, timeout, c, hu, rfl, rfl⟩
        case isFalse => cases h
      case h_2 => cases h
  case isFalse hno =>
    refine .inr ⟨fun u hu => hno (awaited_iff.mpr ⟨u, Place.awaits_iff.mpr hu⟩), ?_⟩
    split at h
    case isTrue hc =>
      cases h
      exact .inl ⟨hc, rfl, rfl⟩
    case isFalse hc =>
      cases h
      exact .inr ⟨hc, rfl, rfl⟩

theorem room_post (h : s.post k first = some (s', result, first')) : Post semMaxCount (s.room k) (s'.room k) := by
  rcases post_cases h with ⟨u, timeout, c, hu, rfl, -⟩ | ⟨hn, ⟨hc, rfl, -⟩ | ⟨hc, -, rfl⟩⟩
  · rw [room_goto]
    exact .wake u (by simp [room, hu, Place.stage])
  · exact .full hn hc
  · rw [room_setCond]
    exact .keep hn hc

theorem room_post_of_ne (hk : k' ≠ k) (h : s.post k first = some (s', result, first')) : s'.room k' = s.room k' := by
  rcases post_cases h with ⟨u, timeout, c, hu, rfl, -⟩ | ⟨hn, ⟨hc, rfl, -⟩ | ⟨hc, -, rfl⟩⟩
  · exact room_goto_of_eq (by rw [hu, Place.stage_wakened]; simp [Place.stage, hk.symm])
  · rfl
  · exact room_setCond_of_ne _ hk

theorem room_posts (h : posts k n result s first = some (s', result')) : Posts semMaxCount n (s.room k) (s'.room k) := by
  induction n generalizing s result first with
  | zero =>
    rw [posts, Option.some.injEq, Prod.mk.injEq] at h
    obtain ⟨rfl, -⟩ := h
    exact .zero _
  | succ n ih =>
    rw [posts] at h
    split at h
    case h_1 => cases h
    case h_2 m r f hp =>
      split at h
      case isTrue hr =>
        cases h
        rcases post_cases hp with ⟨u, timeout, c, hu, rfl, hok⟩ | ⟨hn, ⟨hc, rfl, -⟩ | ⟨hc, hok, -⟩⟩
        · exact absurd hok hr
        · exact .full hn hc _
        · exact absurd hok hr
      case isFalse => exact .succ (room_post hp) (ih h)

theorem room_posts_of_ne (hk : k' ≠ k) (h : posts k n result s first = some (s', result')) :
    s'.room k' = s.room k' := by
  induction n generalizing s result first with
  | zero =>
    rw [posts, Option.some.injEq, Prod.mk.injEq] at h
    obtain ⟨rfl, -⟩ := h
    rfl
  | succ n ih =>
    rw [posts] at h
    split at h
    case h_1 => cases h
    case h_2 m r f hp =>
      split at h
      case isTrue =>
        cases h
        exact room_post_of_ne hk hp
      case isFalse => rw [ih h, room_post_of_ne hk hp]

omit [DecidableEq κ] in
/-- The mutex is handed over, or free. -/
theorem handOver_cases (h : s.handOver first = some s') :
    (∃ u timeout ret, s.place u = .mutexBlocked timeout ret ∧
        s' = { s with mutex.native := ⟨some u, 1⟩ }.goto u (.locked Code.ok ret)) ∨
      (∀ u, (s.place u).awaitsMutex = false) ∧ s' = { s with mutex.native := ⟨none, 0⟩ } := by
  unfold handOver at h
  split at h
  case isTrue =>
    split at h
    case h_1 => cases h
    case h_2 u first =>
      split at h
      case h_1 timeout ret hu =>
        cases h
        exact .inl ⟨u, timeout, ret, hu, rfl⟩
      case h_2 => cases h
  case isFalse hno =>
    cases h
    exact .inr ⟨fun u => Bool.eq_false_of_not_eq_true fun hu => hno (mutexAwaited_iff.mpr ⟨u, hu⟩), rfl⟩

theorem room_handOver (h : s.handOver first = some s') : s'.room k = s.room k := by
  rcases handOver_cases h with ⟨u, timeout, ret, hu, rfl⟩ | ⟨-, rfl⟩
  · exact room_goto_of_eq (by simp [hu, Place.stage])
  · rfl

omit [DecidableEq κ] in
theorem place_handOver (h : s.handOver first = some s') (ht : (s.place t).awaitsMutex = false) :
    s'.place t = s.place t := by
  rcases handOver_cases h with ⟨u, timeout, ret, hu, rfl⟩ | ⟨-, rfl⟩
  · refine Function.update_of_ne ?_ _ _
    rintro rfl
    rw [hu] at ht
    cases ht
  · rfl

theorem place_post (h : s.post k first = some (s', result, first')) (ht : (s.place t).awaits k = false) :
    s'.place t = s.place t := by
  rcases post_cases h with ⟨u, timeout, c, hu, rfl, -⟩ | ⟨hn, ⟨hc, rfl, -⟩ | ⟨hc, -, rfl⟩⟩
  · refine Function.update_of_ne ?_ _ _
    rintro rfl
    rw [hu] at ht
    simp [Place.awaits] at ht
  · rfl
  · rfl

theorem place_posts (h : posts k n result s first = some (s', result')) (ht : (s.place t).awaits k = false) :
    s'.place t = s.place t := by
  induction n generalizing s result first with
  | zero =>
    rw [posts, Option.some.injEq, Prod.mk.injEq] at h
    obtain ⟨rfl, -⟩ := h
    rfl
  | succ n ih =>
    rw [posts] at h
    split at h
    case h_1 => cases h
    case h_2 m r f hp =>
      have hm := place_post hp ht
      split at h
      case isTrue =>
        cases h
        exact hm
      case isFalse => rw [ih h (by rwa [hm]), hm]

/-- `UINT32_MAX + 1` -/
abbrev modulus : ℕ := 2 ^ 32

/-- What a step of a thread does in the room of one condition variable. -/
structure Change (t : Thread) (k : κ) (s s' : Monitor κ δ γ) : Prop where
  move : Move semMaxCount modulus t (s.room k) (s'.room k)
  /-- Only who posts makes tokens. -/
  tokens : (s'.room k).tokens ≤ (s.room k).tokens ∨ (s.place t).posts k = true
  /-- Only who begins to wait comes in. -/
  begins : (s.room k).stage t = .out → (s'.room k).stage t = .entering → (s.place t).begins k = true

/-- What a step of a thread does in the room of each condition variable. -/
abbrev Moves (t : Thread) (s s' : Monitor κ δ γ) : Prop := ∀ k, Change t k s s'

theorem Change.stay (h : s'.room k = s.room k) : Change t k s s' := by
  refine ⟨by rw [h]; exact .stay, .inl (by rw [h]), fun ho he => ?_⟩
  rw [h, ho] at he
  cases he

theorem Moves.stay (h : ∀ k, s'.room k = s.room k) : Moves t s s' := fun k => .stay (h k)

/-- A step outside the rooms. -/
theorem Moves.congr {m : Monitor κ δ γ} (hm : Moves t s m) (h : ∀ k, s'.room k = m.room k) : Moves t s s' := fun k => by
  obtain ⟨h₁, h₂, h₃⟩ := hm k
  rw [← h k] at h₁ h₂ h₃
  exact ⟨h₁, h₂, h₃⟩

/-- The thread goes to another place, and no room changes. -/
theorem Moves.goto {p : Place κ γ} (hc : s'.cond = s.cond) (hs : s'.place = Function.update s.place t p)
    (h : ∀ k, p.stage k = (s.place t).stage k) : Moves t s s' :=
  .stay fun k => by
    rw [← room_goto_of_eq (h k), room, hc, hs]
    rfl

/-- A step in the room of one condition variable. -/
theorem Moves.setCond {p q : Place κ γ} {c : Cond} {w n : ℕ} {x : Stage} (hq : s.place t = q) (hx : p.stage k = x)
    (hne : ∀ k', k' ≠ k → p.stage k' = q.stage k') (hw : c.waiters.toNat = w) (hn : c.count = n)
    (hle : n ≤ (s.cond k).count) (hb : x = .entering → q.begins k = true)
    (h : Move semMaxCount modulus t (s.room k) (Room.setStage ⟨w, n, (s.room k).stage⟩ t x)) :
    Moves t s ((s.setCond k c).goto t p) := fun k' => by
  by_cases hk : k' = k
  · subst hk
    have hroom : ((s.setCond k' c).goto t p).room k' = Room.setStage ⟨w, n, (s.room k').stage⟩ t x := by
      rw [room_goto, room_setCond, hw, hn, hx]
    rw [← hroom] at h
    refine ⟨h, .inl (by rw [hroom]; exact hle), fun _ he => ?_⟩
    rw [hroom, Room.stage_setStage] at he
    rw [hq]
    exact hb he
  · refine .stay ?_
    rw [room_goto_of_eq (s := s.setCond k c) ((hne k' hk).trans (by rw [← hq]; rfl)), room_setCond_of_ne _ hk]

/-- A step in the room of one condition variable, which leaves the counter and the tokens. -/
theorem Moves.setStage {p q : Place κ γ} {x : Stage} (hq : s.place t = q) (hx : p.stage k = x)
    (hne : ∀ k', k' ≠ k → p.stage k' = q.stage k') (hb : x ≠ .entering)
    (h : Move semMaxCount modulus t (s.room k) ((s.room k).setStage t x)) : Moves t s (s.goto t p) := fun k' => by
  by_cases hk : k' = k
  · subst hk
    have hroom : (s.goto t p).room k' = (s.room k').setStage t x := by
      rw [room_goto, hx]
    rw [← hroom] at h
    refine ⟨h, .inl (by rw [hroom]; exact le_rfl), fun _ he => ?_⟩
    rw [hroom, Room.stage_setStage] at he
    exact absurd he hb
  · exact .stay (room_goto_of_eq ((hne k' hk).trans (by rw [hq])))

/-- A step from one place outside the rooms to another. -/
theorem Moves.outside {q p : Place κ γ} (hq : s.place t = q) (hc : s'.cond = s.cond)
    (hs : s'.place = Function.update s.place t p) (h₀ : ∀ k, q.stage k = .out) (h : ∀ k, p.stage k = .out) : Moves t s s' :=
  .goto hc hs fun k => by rw [hq, h₀ k, h k]

/-- `aixos_pthread_mutex_unlock` returns. -/
theorem Moves.unlocked {q : Place κ γ} {ret : UnlockReturn κ γ} {r : Errno} (hq : s.place t = q) (hc : s'.cond = s.cond)
    (hs : s'.place = Function.update s.place t (ret.place r)) (h₀ : ∀ k, q.stage k = (Place.unlock ret).stage k) :
    Moves t s s' := by
  have hroom : ∀ k, s'.room k = (s.goto t (ret.place r)).room k := by
    intro k
    rw [room, hc, hs]
    rfl
  refine Moves.congr ?_ hroom
  cases ret with
  | program c => exact .outside hq rfl rfl h₀ fun _ => rfl
  | wait k timeout c =>
    have hk : (s.room k).stage t = .entering := by
      change (s.place t).stage k = .entering
      rw [hq, h₀ k]
      exact if_pos rfl
    by_cases hr : r = 0
    · rw [UnlockReturn.place, if_neg (not_not.mpr hr)]
      exact .setStage hq (if_pos rfl) (fun k' hk' => ((h₀ k').trans (if_neg hk'.symm)).symm ▸ if_neg hk'.symm) nofun (.pass hk)
    · rw [UnlockReturn.place, if_pos hr]
      exact .setStage hq (if_pos rfl) (fun k' hk' => ((h₀ k').trans (if_neg hk'.symm)).symm ▸ if_neg hk'.symm) nofun
        (.refuse hk)

theorem stage_of {p : Place κ γ} {x : Stage} (h : s.place t = p) (hx : p.stage k = x) : (s.room k).stage t = x := by
  rw [← hx, ← h]
  rfl

theorem Moves.of_room {m : Monitor κ δ γ} (h : ∀ k, m.room k = s.room k) (ht : m.place t = s.place t)
    (hm : Moves t m s') : Moves t s s' := fun k => by
  obtain ⟨h₁, h₂, h₃⟩ := hm k
  rw [h k] at h₁ h₂ h₃
  rw [ht] at h₂ h₃
  exact ⟨h₁, h₂, h₃⟩

theorem sub_one_toNat {w : Word} (h : w ≠ 0) : (w - 1).toNat = w.toNat - 1 := by
  have : 1 ≤ w := by bv_omega
  exact BitVec.toNat_sub_of_le this

/-- Tokens are posted in one room. -/
theorem Moves.posted (hs : (s.place t).posts k = true) (hn : n ≤ (s.room k).waiters)
    (hne : ∀ k', k' ≠ k → s'.room k' = s.room k')
    (hp : Posts semMaxCount n { s.room k with waiters := (s.room k).waiters - n } (s'.room k)) : Moves t s s' := fun k' => by
  by_cases hk' : k' = k
  · subst hk'
    refine ⟨.post n hn hp, .inr hs, fun ho he => ?_⟩
    rcases hp.stage_eq t with h | ⟨-, h⟩
    · rw [h] at he
      exact absurd (ho.symm.trans he) nofun
    · rw [h] at he
      cases he
  · exact .stay (hne k' hk')

theorem room_goto_outside {m : Monitor κ δ γ} {p q : Place κ γ} (hq : m.place t = q) (h₀ : ∀ k, q.stage k = .out)
    (h : ∀ k, p.stage k = .out) : (m.goto t p).room k = m.room k :=
  room_goto_of_eq (by rw [hq, h₀ k, h k])

/-- What `aixos_pthread_cond_signal` does. -/
theorem exec_signal {c : γ} {env : Env} (hp : s.place t = .signal k c) (h : s.exec P t env = some s') :
    (∀ k', k' ≠ k → s'.room k' = s.room k') ∧ Posts semMaxCount (min 1 (s.room k).waiters)
      { s.room k with waiters := (s.room k).waiters - min 1 (s.room k).waiters } (s'.room k) := by
  simp only [exec, hp] at h
  split at h
  case isTrue h₀ =>
    obtain ⟨⟨m, result, f⟩, hm, rfl⟩ := Option.map_eq_some_iff.mp h
    have ht : m.place t = .signal k c := (place_post hm (by simp [setCond, hp, Place.awaits])).trans hp
    have hroom : ∀ k', (m.goto t (.program c (mapError result))).room k' = m.room k' :=
      fun k' => room_goto_outside ht (fun _ => rfl) fun _ => rfl
    have h₁ : min 1 (s.room k).waiters = 1 := by
      have : 1 ≤ (s.cond k).waiters.toNat := by bv_omega
      exact min_eq_left this
    refine ⟨fun k' hk' => ?_, ?_⟩
    · rw [hroom k', room_post_of_ne hk' hm, room_setCond_of_ne _ hk']
    · have hposts := room_post hm
      rw [room_setCond, sub_one_toNat h₀] at hposts
      rw [hroom k, h₁]
      exact .succ hposts (.zero _)
  case isFalse h₀ =>
    cases h
    have hroom : ∀ k', (s.goto t (.program c (mapError Code.ok))).room k' = s.room k' :=
      fun k' => room_goto_outside hp (fun _ => rfl) fun _ => rfl
    have h₁ : (s.room k).waiters = 0 := by
      simp [room, not_not.mp h₀]
    refine ⟨fun k' _ => hroom k', ?_⟩
    rw [hroom k, h₁]
    have : (⟨0, (s.room k).tokens, (s.room k).stage⟩ : Room Thread) = s.room k := by rw [← h₁]
    exact this ▸ .zero _

/-- What `aixos_pthread_cond_broadcast` does. -/
theorem exec_broadcast {c : γ} {env : Env} (hp : s.place t = .broadcast k c) (h : s.exec P t env = some s') :
    (∀ k', k' ≠ k → s'.room k' = s.room k') ∧
      Posts semMaxCount (s.room k).waiters { s.room k with waiters := 0 } (s'.room k) := by
  simp only [exec, hp] at h
  obtain ⟨⟨m, result⟩, hm, rfl⟩ := Option.map_eq_some_iff.mp h
  have ht : m.place t = .broadcast k c := (place_posts hm (by simp [setCond, hp, Place.awaits])).trans hp
  have hroom : ∀ k', (m.goto t (.program c (mapError result))).room k' = m.room k' :=
    fun k' => room_goto_outside ht (fun _ => rfl) fun _ => rfl
  refine ⟨fun k' hk' => ?_, ?_⟩
  · rw [hroom k', room_posts_of_ne hk' hm, room_setCond_of_ne _ hk']
  · have hposts := room_posts hm
    rw [room_setCond] at hposts
    rw [hroom k]
    exact hposts

/-- Tokens that fit into the semaphore are posted. -/
theorem posts_ok (hroom : (s.cond k).count + n ≤ semMaxCount) (hr : result = Code.ok)
    (h : posts k n result s first = some (s', result')) : result' = Code.ok := by
  induction n generalizing s result first with
  | zero =>
    rw [posts, Option.some.injEq, Prod.mk.injEq] at h
    rw [← h.2, hr]
  | succ n ih =>
    rw [posts] at h
    split at h
    case h_1 => cases h
    case h_2 m r f hm =>
      rcases post_cases hm with ⟨u, timeout, c, hu, rfl, hok⟩ | ⟨hn, ⟨hc, rfl, -⟩ | ⟨hc, hok, rfl⟩⟩
      · rw [if_neg (not_not.mpr hok)] at h
        exact ih (by change (s.cond k).count + n ≤ semMaxCount; omega) hok h
      · omega
      · rw [if_neg (not_not.mpr hok)] at h
        exact ih (by simp [setCond]; omega) hok h

/-- A broadcast that finds room in the semaphore succeeds. -/
theorem broadcast_ok {c : γ} {env : Env} (hp : s.place t = .broadcast k c)
    (hroom : (s.room k).tokens + (s.room k).waiters ≤ semMaxCount) (h : s.exec P t env = some s') :
    s'.place t = .program c 0 := by
  simp only [exec, hp] at h
  obtain ⟨⟨m, result⟩, hm, rfl⟩ := Option.map_eq_some_iff.mp h
  have hok : result = Code.ok := posts_ok (by simpa [setCond, room] using hroom) rfl hm
  rw [hok]
  simp [goto, mapError]

theorem exec_moves {env : Env} (h : s.exec P t env = some s') : Moves t s s' := by
  unfold exec at h
  split at h
  case h_1 | h_2 | h_3 => cases h
  case h_4 c r hp =>
    cases h
    exact .outside hp rfl rfl (fun _ => rfl) (Outcome.stage_place _ _)
  case h_5 absolute c hp => split at h <;> cases h <;> exact .outside hp rfl rfl (fun _ => rfl) fun _ => rfl
  case h_6 timeout ret hp =>
    split at h
    case isTrue =>
      cases h
      exact .outside hp rfl rfl (fun _ => rfl) (ret.stage_place _)
    case isFalse =>
      split at h
      case isTrue =>
        cases h
        exact .outside hp rfl rfl (fun _ => rfl) (ret.stage_place _)
      case isFalse =>
        cases h
        exact .outside hp rfl rfl (fun _ => rfl) fun _ => rfl
  case h_7 timeout ret hp =>
    split at h
    case isTrue =>
      cases h
      exact .outside hp rfl rfl (fun _ => rfl) fun _ => rfl
    case isFalse =>
      split at h
      case isTrue =>
        split at h <;> cases h
        · exact .outside hp rfl rfl (fun _ => rfl) fun _ => rfl
        · exact .outside hp rfl rfl (fun _ => rfl) fun _ => rfl
      case isFalse =>
        split at h
        case isTrue =>
          cases h
          exact .outside hp rfl rfl (fun _ => rfl) fun _ => rfl
        case isFalse => split at h <;> cases h <;> exact .outside hp rfl rfl (fun _ => rfl) fun _ => rfl
  case h_8 result ret hp =>
    split at h <;> cases h
    · exact .outside hp rfl rfl (fun _ => rfl) (ret.stage_place _)
    · exact .outside hp rfl rfl (fun _ => rfl) (ret.stage_place _)
  case h_9 ret hp =>
    split at h
    case isTrue =>
      cases h
      exact .unlocked hp rfl rfl fun _ => rfl
    case isFalse =>
      split at h <;> cases h
      · exact .unlocked hp rfl rfl fun _ => rfl
      · exact .goto rfl rfl fun k => by rw [hp]; cases ret <;> rfl
  case h_10 ret hp =>
    split at h
    case isTrue =>
      cases h
      exact .unlocked hp rfl rfl fun _ => by cases ret <;> rfl
    case isFalse =>
      split at h
      case isTrue =>
        cases h
        exact .unlocked hp rfl rfl fun _ => by cases ret <;> rfl
      case isFalse =>
        obtain ⟨m, hm, rfl⟩ := Option.map_eq_some_iff.mp h
        have ht : m.place t = s.place t := place_handOver hm (by rw [hp]; rfl)
        exact Moves.of_room (fun k => room_handOver hm) ht
          (.unlocked (ht.trans hp) rfl rfl fun _ => by cases ret <;> rfl)
  case h_11 k absolute c hp => split at h <;> cases h <;> exact .outside hp rfl rfl (fun _ => rfl) fun _ => rfl
  case h_12 k timeout c hp =>
    cases h
    exact .setCond hp (if_pos rfl) (fun k' hk' => if_neg hk'.symm) (BitVec.toNat_add ..) rfl le_rfl
      (fun _ => decide_eq_true rfl) (.enter (stage_of hp rfl))
  case h_13 k r c hp =>
    cases h
    refine .setCond hp rfl (fun k' hk' => (if_neg hk'.symm).symm) ?_ rfl le_rfl nofun (.leave (stage_of hp (if_pos rfl)))
    rw [BitVec.toNat_sub, Nat.add_sub_assoc (by decide)]
    exact congrArg (· % 2 ^ 32) (Nat.add_comm ..)
  case h_14 k timeout c hp =>
    have hk : (s.room k).stage t = .ready := stage_of hp (if_pos rfl)
    split at h
    case isTrue h₀ =>
      cases h
      exact .setCond hp rfl (fun k' hk' => (if_neg hk'.symm).symm) rfl rfl
        (Nat.sub_le ..) nofun (.take hk h₀.ne')
    case isFalse h₀ =>
      have h₀ : (s.cond k).count = 0 := by omega
      have hne : ∀ {x y : Stage} (k'), k' ≠ k → (if k = k' then x else .out) = if k = k' then y else .out :=
        fun k' hk' => by rw [if_neg hk'.symm, if_neg hk'.symm]
      split at h
      case isTrue =>
        cases h
        exact .setStage hp (if_pos rfl) hne nofun (.fail hk h₀)
      case isFalse =>
        split at h <;> cases h
        · exact .setStage hp (if_pos rfl) hne nofun (.fail hk h₀)
        · exact .setStage hp (if_pos rfl) hne nofun (.block hk h₀)
  case h_15 k result c hp =>
    have hk : (s.room k).stage t = .failed := stage_of hp (if_pos rfl)
    have hne : ∀ k', k' ≠ k → Stage.out = if k = k' then Stage.failed else .out :=
      fun k' hk' => (if_neg hk'.symm).symm
    cases h
    split
    case isTrue h₀ => exact .setCond hp rfl hne (sub_one_toNat h₀) rfl le_rfl nofun (.quit hk)
    case isFalse h₀ =>
      have hw : (s.room k).waiters - 1 = (s.room k).waiters := by
        simp [room, not_not.mp h₀]
      have : Move semMaxCount modulus t (s.room k) ({ s.room k with waiters := (s.room k).waiters - 1 }.setStage t .out) :=
        .quit hk
      rw [hw] at this
      exact .setStage hp rfl hne nofun this
  case h_16 k c hp =>
    have h' : s.exec P t env = some s' := by
      simpa only [exec, hp] using h
    obtain ⟨hne, hposts⟩ := exec_signal hp h'
    exact .posted (by simp [hp, Place.posts]) (min_le_right _ _) hne hposts
  case h_17 k c hp =>
    have h' : s.exec P t env = some s' := by
      simpa only [exec, hp] using h
    obtain ⟨hne, hposts⟩ := exec_broadcast hp h'
    exact .posted (by simp [hp, Place.posts]) le_rfl hne (by rwa [Nat.sub_self])

theorem interrupt_moves : Moves t s (s.interrupt t result) := by
  unfold interrupt
  split
  case h_1 timeout ret hp => exact .outside hp rfl rfl (fun _ => rfl) fun _ => rfl
  case h_2 k timeout c hp =>
    exact .setStage hp (if_pos rfl) (fun k' hk' => by simp only [Place.stage, if_neg hk'.symm]) nofun
      (.giveUp (stage_of hp (if_pos rfl)))
  case h_3 => exact .stay fun _ => rfl

/-- **Every step** of a monitor is a move in the room of each of its condition variables. -/
theorem room_step (h : s.step P a = some s') : Moves a.thread s s' := by
  cases a with
  | call t op =>
    simp only [step] at h
    split at h
    case h_1 r hp =>
      split at h <;> cases h
      exact .outside hp rfl rfl (fun _ => rfl) fun _ => rfl
    case h_2 => cases h
  | run t env =>
    simp only [step] at h
    split at h
    case isTrue => cases h
    case isFalse => exact exec_moves h
  | expire t =>
    simp only [step] at h
    split at h <;> cases h
    exact interrupt_moves
  | suspend t =>
    simp only [step] at h
    split at h <;> cases h
    exact (interrupt_moves (s := s) (t := t)).congr fun _ => rfl
  | resume t =>
    simp only [step] at h
    split at h <;> cases h
    exact .stay fun _ => rfl

end Monitor

end Aixos.Posix
