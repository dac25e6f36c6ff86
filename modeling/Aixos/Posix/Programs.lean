import Aixos.Posix.Mutexes

/-!
# Steps of a program, and steps of the functions that it calls

A step of a monitor is a step of its program (`step_cases`), or the beginning of a call, or it
happens inside the functions that the program calls. Then the data stay, and every thread comes
back to the place of the program that it was to come back to.
-/

namespace Aixos.Posix

variable {κ δ ω γ : Type}

/-- The program goes on at `c`. -/
def LockReturn.after (ret : LockReturn γ) : γ :=
  match ret with
  | .program c | .wait _ c => c

/-- The program goes on at `c`. -/
def UnlockReturn.after (ret : UnlockReturn κ γ) : γ :=
  match ret with
  | .program c | .wait _ _ c => c

/-- Where the thread is in the program, or will be when the function that it has called returns. -/
def Place.after (p : Place κ γ) : Option γ :=
  match p with
  | .idle _ => none
  | .program c _ | .timedlock _ c => some c
  | .lock _ ret | .nativeLock _ ret | .mutexBlocked _ ret | .locked _ ret => some ret.after
  | .unlock ret | .nativeUnlock ret => some ret.after
  | .timedwait _ _ c | .wait _ _ c | .waitRefused _ _ c | .semWait _ _ c | .semBlocked _ _ c | .waitFailed _ _ c
  | .signal _ c | .broadcast _ c => some c

/-- The thread does nothing itself: it is outside, or it waits. -/
def Place.rests (p : Place κ γ) : Bool :=
  match p with
  | .idle _ | .mutexBlocked .. | .semBlocked .. => true
  | _ => false

/-- It comes to wait, and holds the mutex. -/
def Place.enters (p : Place κ γ) : Bool :=
  match p with
  | .wait .. | .timedwait .. => true
  | _ => false

/-- The condition variable that it waits for, or comes to wait for. -/
def Place.waitsFor (p : Place κ γ) : Option κ :=
  match p with
  | .unlock (.wait k _ _) | .nativeUnlock (.wait k _ _) | .timedwait k _ _ | .wait k _ _ | .waitRefused k _ _ | .semWait k _ _
  | .semBlocked k _ _ | .waitFailed k _ _ => some k
  | _ => none

theorem Place.waitsFor_of_stage [DecidableEq κ] {p : Place κ γ} {k : κ} (h : p.stage k ≠ .out) : p.waitsFor = some k := by
  cases p with
  | unlock ret => cases ret <;> simp_all [stage, waitsFor]
  | nativeUnlock ret => cases ret <;> simp_all [stage, waitsFor]
  | _ => simp_all [stage, waitsFor]

/-- It has waited, and takes the mutex again. -/
def Place.retaking (p : Place κ γ) : Bool :=
  match p with
  | .lock _ (.wait result _) | .nativeLock _ (.wait result _) | .mutexBlocked _ (.wait result _) | .locked _ (.wait result _) =>
    result = Code.ok
  | _ => false

@[simp] theorem LockReturn.after_place (ret : LockReturn γ) (r : Errno) : (ret.place r : Place κ γ).after = some ret.after := by
  cases ret <;> rfl

@[simp] theorem UnlockReturn.after_place (ret : UnlockReturn κ γ) (r : Errno) : (ret.place r).after = some ret.after := by
  cases ret with
  | program c => rfl
  | wait k timeout c => by_cases hr : r = 0 <;> simp [place, hr, Place.after, after]

/-- Where a thread goes on after a step of the program. -/
def Outcome.after (n : Outcome κ γ) : Option γ :=
  match n with
  | .goto c | .call _ c => some c
  | .done _ => none

@[simp] theorem Outcome.after_place (n : Outcome κ γ) (r : Errno) : (n.place r).after = n.after := by
  cases n with
  | goto c => rfl
  | call f c => cases f <;> rfl
  | done r => rfl

namespace Monitor

variable [DecidableEq κ] {P : Program κ δ ω γ} {s s' m : Monitor κ δ γ} {k : κ} {t u : Thread} {first first' : List Thread}
  {a : Action ω} {result result' : Code} {n : ℕ} {p : Place κ γ}

/-- Nothing happens in the program. -/
structure Aside (s s' : Monitor κ δ γ) : Prop where
  data : s'.data = s.data
  after : ∀ u, (s'.place u).after = (s.place u).after
  program : ∀ u c r, s.place u = .program c r → s'.place u = .program c r

omit [DecidableEq κ] in
theorem Aside.refl (s : Monitor κ δ γ) : Aside s s := ⟨rfl, fun _ => rfl, fun _ _ _ => id⟩

omit [DecidableEq κ] in
theorem Aside.trans (h : Aside s m) (h' : Aside m s') : Aside s s' :=
  ⟨h'.data.trans h.data, fun u => (h'.after u).trans (h.after u), fun u c r hu => h'.program u c r (h.program u c r hu)⟩

omit [DecidableEq κ] in
theorem Aside.goto {q : Place κ γ} (hq : s.place t = q) (hd : s'.data = s.data) (hs : s'.place = Function.update s.place t p)
    (ha : p.after = q.after) (hn : ∀ c r, q ≠ .program c r) : Aside s s' := by
  refine ⟨hd, fun u => ?_, fun u c r hu => ?_⟩
  · rw [hs]
    by_cases hut : u = t
    · subst hut
      rw [Function.update_self, ha, hq]
    · rw [Function.update_of_ne hut]
  · have hut : u ≠ t := by
      rintro rfl
      exact hn c r (hq.symm.trans hu)
    rw [hs, Function.update_of_ne hut, hu]

theorem aside_post (h : s.post k first = some (s', result, first')) : Aside s s' := by
  rcases post_cases h with ⟨u, timeout, c, hu, rfl, -⟩ | ⟨hn, ⟨hc, rfl, -⟩ | ⟨hc, -, rfl⟩⟩
  · exact .goto hu rfl rfl rfl nofun
  · exact .refl _
  · exact ⟨rfl, fun _ => rfl, fun _ _ _ => id⟩

theorem aside_posts (h : posts k n result s first = some (s', result')) : Aside s s' := by
  induction n generalizing s result first with
  | zero =>
    rw [posts, Option.some.injEq, Prod.mk.injEq] at h
    obtain ⟨rfl, -⟩ := h
    exact .refl _
  | succ n ih =>
    rw [posts] at h
    split at h
    case h_1 => cases h
    case h_2 m r f hm =>
      split at h
      case isTrue =>
        cases h
        exact aside_post hm
      case isFalse => exact (aside_post hm).trans (ih h)

omit [DecidableEq κ] in
theorem aside_handOver (h : s.handOver first = some s') : Aside s s' := by
  rcases handOver_cases h with ⟨u, timeout, ret, hu, rfl⟩ | ⟨-, rfl⟩
  · exact .goto hu rfl rfl rfl nofun
  · exact ⟨rfl, fun _ => rfl, fun _ _ _ => id⟩

/-- A step of the program. -/
def advance (P : Program κ δ ω γ) (s : Monitor κ δ γ) (t : Thread) (c : γ) (r : Errno) : Monitor κ δ γ :=
  { s with data := (P.next c t r s.data).1 }.goto t ((P.next c t r s.data).2.place r)

/-- The program works outside the rooms of its condition variables. -/
theorem room_advance {c : γ} {r : Errno} (hp : s.place t = .program c r) : (s.advance P t c r).room k = s.room k :=
  room_goto_outside (m := { s with data := (P.next c t r s.data).1 }) hp (fun _ => rfl) (Outcome.stage_place _ _)

/-- A step inside the functions. -/
theorem exec_aside {env : Env} (hn : ∀ c r, s.place t ≠ .program c r) (h : s.exec P t env = some s') : Aside s s' := by
  unfold exec at h
  split at h
  case h_1 | h_2 | h_3 => cases h
  case h_4 c r hp => exact absurd hp (hn c r)
  case h_5 absolute c hp => split at h <;> cases h <;> exact .goto hp rfl rfl rfl (by rintro _ _ ⟨⟩)
  case h_6 timeout ret hp =>
    split at h
    case isTrue =>
      cases h
      exact .goto hp rfl rfl (ret.after_place _) (by rintro _ _ ⟨⟩)
    case isFalse =>
      split at h <;> cases h
      · exact .goto hp rfl rfl (ret.after_place _) (by rintro _ _ ⟨⟩)
      · exact .goto hp rfl rfl rfl (by rintro _ _ ⟨⟩)
  case h_7 timeout ret hp =>
    split at h
    case isTrue =>
      cases h
      exact .goto hp rfl rfl rfl (by rintro _ _ ⟨⟩)
    case isFalse =>
      split at h
      case isTrue => split at h <;> cases h <;> exact .goto hp rfl rfl rfl (by rintro _ _ ⟨⟩)
      case isFalse =>
        split at h
        case isTrue =>
          cases h
          exact .goto hp rfl rfl rfl (by rintro _ _ ⟨⟩)
        case isFalse => split at h <;> cases h <;> exact .goto hp rfl rfl rfl (by rintro _ _ ⟨⟩)
  case h_8 result ret hp => split at h <;> cases h <;> exact .goto hp rfl rfl (ret.after_place _) (by rintro _ _ ⟨⟩)
  case h_9 ret hp =>
    split at h
    case isTrue =>
      cases h
      exact .goto hp rfl rfl (ret.after_place _) (by rintro _ _ ⟨⟩)
    case isFalse =>
      split at h <;> cases h
      · exact .goto hp rfl rfl (ret.after_place _) (by rintro _ _ ⟨⟩)
      · exact .goto hp rfl rfl rfl (by rintro _ _ ⟨⟩)
  case h_10 ret hp =>
    split at h
    case isTrue =>
      cases h
      exact .goto hp rfl rfl (ret.after_place _) (by rintro _ _ ⟨⟩)
    case isFalse =>
      split at h
      case isTrue =>
        cases h
        exact .goto hp rfl rfl (ret.after_place _) (by rintro _ _ ⟨⟩)
      case isFalse =>
        obtain ⟨m, hm, rfl⟩ := Option.map_eq_some_iff.mp h
        have ht : m.place t = s.place t := place_handOver hm (by rw [hp]; rfl)
        exact (aside_handOver hm).trans (.goto (ht.trans hp) rfl rfl (ret.after_place _) (by rintro _ _ ⟨⟩))
  case h_11 k absolute c hp => split at h <;> cases h <;> exact .goto hp rfl rfl rfl (by rintro _ _ ⟨⟩)
  case h_12 k timeout c hp =>
    cases h
    exact .goto hp rfl rfl rfl (by rintro _ _ ⟨⟩)
  case h_13 k r c hp =>
    cases h
    exact .goto hp rfl rfl rfl (by rintro _ _ ⟨⟩)
  case h_14 k timeout c hp =>
    split at h
    case isTrue =>
      cases h
      exact .goto hp rfl rfl rfl (by rintro _ _ ⟨⟩)
    case isFalse =>
      split at h
      case isTrue =>
        cases h
        exact .goto hp rfl rfl rfl (by rintro _ _ ⟨⟩)
      case isFalse => split at h <;> cases h <;> exact .goto hp rfl rfl rfl (by rintro _ _ ⟨⟩)
  case h_15 k result c hp =>
    cases h
    split <;> exact .goto hp rfl rfl rfl (by rintro _ _ ⟨⟩)
  case h_16 k c hp =>
    split at h
    case isTrue =>
      obtain ⟨⟨m, result, f⟩, hm, rfl⟩ := Option.map_eq_some_iff.mp h
      have ht : m.place t = .signal k c := (place_post hm (by simp [setCond, hp, Place.awaits])).trans hp
      exact Aside.trans (m := m) ⟨(aside_post hm).data, (aside_post hm).after, (aside_post hm).program⟩
        (.goto ht rfl rfl rfl (by rintro _ _ ⟨⟩))
    case isFalse =>
      cases h
      exact .goto hp rfl rfl rfl (by rintro _ _ ⟨⟩)
  case h_17 k c hp =>
    obtain ⟨⟨m, result⟩, hm, rfl⟩ := Option.map_eq_some_iff.mp h
    have ht : m.place t = .broadcast k c := (place_posts hm (by simp [setCond, hp, Place.awaits])).trans hp
    exact Aside.trans (m := m) ⟨(aside_posts hm).data, (aside_posts hm).after, (aside_posts hm).program⟩
      (.goto ht rfl rfl rfl (by rintro _ _ ⟨⟩))

omit [DecidableEq κ] in
theorem aside_interrupt : Aside s (s.interrupt t result) := by
  unfold interrupt
  split
  case h_1 timeout ret hp => exact .goto hp rfl rfl rfl nofun
  case h_2 k timeout c hp => exact .goto hp rfl rfl rfl nofun
  case h_3 => exact .refl _

/-- **Every step** is a step of the program, the beginning of a call, or happens aside. -/
theorem step_cases (h : step P s a = some s') :
    (∃ t env c r, a = .run t env ∧ s.place t = .program c r ∧ s' = s.advance P t c r) ∨
      (∃ t op r, a = .call t op ∧ s.place t = .idle r ∧ s' = s.goto t (.program (P.start op) 0)) ∨
      Aside s s' ∧ ∀ t ∈ a.runner, ∀ c r, s.place t ≠ .program c r := by
  cases a with
  | call t op =>
    simp only [step] at h
    split at h
    case h_1 r hp =>
      split at h <;> cases h
      exact .inr (.inl ⟨t, op, r, rfl, hp, rfl⟩)
    case h_2 => cases h
  | run t env =>
    simp only [step] at h
    split at h
    case isTrue => cases h
    case isFalse =>
      by_cases hc : ∃ c r, s.place t = .program c r
      · obtain ⟨c, r, hp⟩ := hc
        simp only [exec, hp] at h
        cases h
        exact .inl ⟨t, env, c, r, rfl, hp, rfl⟩
      · refine .inr (.inr ⟨exec_aside (fun c r hp => hc ⟨c, r, hp⟩) h, fun u hu c r hp => ?_⟩)
        cases hu
        exact hc ⟨c, r, hp⟩
  | expire t =>
    simp only [step] at h
    split at h <;> cases h
    exact .inr (.inr ⟨aside_interrupt, (by rintro _ ⟨⟩)⟩)
  | suspend t =>
    simp only [step] at h
    split at h <;> cases h
    have hi : Aside s (s.interrupt t Code.intr) := aside_interrupt
    exact .inr (.inr ⟨⟨hi.data, hi.after, hi.program⟩, (by rintro _ ⟨⟩)⟩)
  | resume t =>
    simp only [step] at h
    split at h <;> cases h
    exact .inr (.inr ⟨⟨rfl, fun _ => rfl, fun _ _ _ => id⟩, (by rintro _ ⟨⟩)⟩)

/-- What others do to a thread: it stays where it is, or its waiting ends. -/
inductive Woken (p : Place κ γ) : Place κ γ → Prop where
  | stay : Woken p p
  /-- It has a token of the condition variable. -/
  | token {k : κ} {timeout : Word} {c : γ} : p = .semBlocked k timeout c → Woken p (.wakened c)
  /-- The mutex has been handed over to it. -/
  | mutex {timeout : Word} {ret : LockReturn γ} : p = .mutexBlocked timeout ret → Woken p (.locked Code.ok ret)

omit [DecidableEq κ] in
theorem Woken.trans {p q r : Place κ γ} (h : Woken p q) (h' : Woken q r) : Woken p r := by
  cases h' with
  | stay => exact h
  | token hq =>
    cases h with
    | stay => exact .token hq
    | token => cases hq
    | mutex => cases hq
  | mutex hq =>
    cases h with
    | stay => exact .mutex hq
    | token => cases hq
    | mutex => cases hq

omit [DecidableEq κ] in
/-- One thread is woken. -/
theorem woken_goto {v : Thread} (hw : Woken (s.place v) p) (hs : s'.place = Function.update s.place v p) (u : Thread) :
    Woken (s.place u) (s'.place u) := by
  rw [hs]
  by_cases huv : u = v
  · subst huv
    rwa [Function.update_self]
  · rw [Function.update_of_ne huv]
    exact .stay

theorem woken_post (h : s.post k first = some (s', result, first')) (u : Thread) : Woken (s.place u) (s'.place u) := by
  rcases post_cases h with ⟨v, timeout, c, hv, rfl, -⟩ | ⟨hn, ⟨hc, rfl, -⟩ | ⟨hc, -, rfl⟩⟩
  · exact woken_goto (.token hv) rfl u
  · exact .stay
  · exact .stay

theorem woken_posts (h : posts k n result s first = some (s', result')) (u : Thread) : Woken (s.place u) (s'.place u) := by
  induction n generalizing s result first with
  | zero =>
    rw [posts, Option.some.injEq, Prod.mk.injEq] at h
    obtain ⟨rfl, -⟩ := h
    exact .stay
  | succ n ih =>
    rw [posts] at h
    split at h
    case h_1 => cases h
    case h_2 m r f hm =>
      split at h
      case isTrue =>
        cases h
        exact woken_post hm u
      case isFalse => exact (woken_post hm u).trans (ih h)

omit [DecidableEq κ] in
theorem woken_handOver (h : s.handOver first = some s') (u : Thread) : Woken (s.place u) (s'.place u) := by
  rcases handOver_cases h with ⟨v, timeout, ret, hv, rfl⟩ | ⟨-, rfl⟩
  · exact woken_goto (.mutex hv) rfl u
  · exact .stay

/-- A step of one thread only wakes the others. -/
theorem woken_exec {env : Env} (h : s.exec P t env = some s') (hu : u ≠ t) : Woken (s.place u) (s'.place u) := by
  have hgoto : ∀ {m m' : Monitor κ δ γ} {p : Place κ γ}, Woken (s.place u) (m.place u) →
      m'.place = Function.update m.place t p → Woken (s.place u) (m'.place u) := by
    intro m m' p hm hp
    rwa [hp, Function.update_of_ne hu]
  unfold exec at h
  split at h
  case h_1 | h_2 | h_3 => cases h
  case h_4 | h_12 | h_13 =>
    cases h
    exact hgoto (m := s) .stay rfl
  case h_5 | h_8 | h_11 => split at h <;> cases h <;> exact hgoto (m := s) .stay rfl
  case h_6 | h_9 =>
    split at h
    case isTrue =>
      cases h
      exact hgoto (m := s) .stay rfl
    case isFalse => split at h <;> cases h <;> exact hgoto (m := s) .stay rfl
  case h_7 =>
    split at h
    case isTrue =>
      cases h
      exact hgoto (m := s) .stay rfl
    case isFalse =>
      split at h
      case isTrue => split at h <;> cases h <;> exact hgoto (m := s) .stay rfl
      case isFalse =>
        split at h
        case isTrue =>
          cases h
          exact hgoto (m := s) .stay rfl
        case isFalse => split at h <;> cases h <;> exact hgoto (m := s) .stay rfl
  case h_10 =>
    split at h
    case isTrue =>
      cases h
      exact hgoto (m := s) .stay rfl
    case isFalse =>
      split at h
      case isTrue =>
        cases h
        exact hgoto (m := s) .stay rfl
      case isFalse =>
        obtain ⟨m, hm, rfl⟩ := Option.map_eq_some_iff.mp h
        exact hgoto (woken_handOver hm u) rfl
  case h_14 =>
    split at h
    case isTrue =>
      cases h
      exact hgoto (m := s) .stay rfl
    case isFalse =>
      split at h
      case isTrue =>
        cases h
        exact hgoto (m := s) .stay rfl
      case isFalse => split at h <;> cases h <;> exact hgoto (m := s) .stay rfl
  case h_15 =>
    cases h
    split <;> exact hgoto (m := s) .stay rfl
  case h_16 k c hp =>
    split at h
    case isTrue =>
      obtain ⟨⟨m, result, f⟩, hm, rfl⟩ := Option.map_eq_some_iff.mp h
      exact hgoto (woken_post hm u) rfl
    case isFalse =>
      cases h
      exact hgoto (m := s) .stay rfl
  case h_17 k c hp =>
    obtain ⟨⟨m, result⟩, hm, rfl⟩ := Option.map_eq_some_iff.mp h
    exact hgoto (woken_posts hm u) rfl

omit [DecidableEq κ] in
theorem place_interrupt (hu : u ≠ t) : (s.interrupt t result).place u = s.place u := by
  unfold interrupt
  split
  · exact Function.update_of_ne hu _ _
  · exact Function.update_of_ne hu _ _
  · rfl

/-- A thread that does not act, and is not acted on, stays or is woken. -/
theorem woken_step (h : step P s a = some s') (hu : u ≠ a.thread) : Woken (s.place u) (s'.place u) := by
  cases a with
  | call t op =>
    simp only [step] at h
    split at h
    case h_1 r hp =>
      split at h <;> cases h
      rw [show (s.goto t (.program (P.start op) 0)).place u = s.place u from Function.update_of_ne hu _ _]
      exact .stay
    case h_2 => cases h
  | run t env =>
    simp only [step] at h
    split at h
    case isTrue => cases h
    case isFalse => exact woken_exec h hu
  | expire t =>
    simp only [step] at h
    split at h <;> cases h
    rw [show (s.interrupt t Code.timeout).place u = s.place u from place_interrupt hu]
    exact .stay
  | suspend t =>
    simp only [step] at h
    split at h <;> cases h
    rw [show ({ s.interrupt t Code.intr with suspended := Function.update s.suspended t true } : Monitor κ δ γ).place u =
      s.place u from place_interrupt hu]
    exact .stay
  | resume t =>
    simp only [step] at h
    split at h <;> cases h
    exact .stay

/-! ## From place to place -/

/-- How the functions go on from one of their places. -/
inductive Flow : Place κ γ → Place κ γ → Prop where
  | timedlock {absolute timeout c} : Flow (.timedlock absolute c) (.lock timeout (.program c))
  | timedlockInval {absolute c} : Flow (.timedlock absolute c) (.program c Errno.inval)
  | lock {timeout ret} : Flow (.lock timeout ret) (.nativeLock timeout ret)
  | relock {timeout ret} (r : Errno) : r ≠ Errno.perm → Flow (.lock timeout ret) (ret.place r)
  | nativeLock {timeout ret} (result : Code) : Flow (.nativeLock timeout ret) (.locked result ret)
  | mutexBlock {timeout ret} : Flow (.nativeLock timeout ret) (.mutexBlocked timeout ret)
  | locked {result ret} (r : Errno) : r ≠ Errno.perm → Flow (.locked result ret) (ret.place r)
  | unlock {ret} : Flow (.unlock ret) (.nativeUnlock ret)
  | unlockEarly {ret} (r : Errno) : Flow (.unlock ret) (ret.place r)
  | nativeUnlock {ret} (r : Errno) : r ≠ Errno.perm → Flow (.nativeUnlock ret) (ret.place r)
  | timedwait {k absolute timeout c} : Flow (.timedwait k absolute c) (.wait k timeout c)
  | timedwaitInval {k absolute c} : Flow (.timedwait k absolute c) (.program c Errno.inval)
  | wait {k timeout c} : Flow (.wait k timeout c) (.unlock (.wait k timeout c))
  | waitRefused {k r c} : Flow (.waitRefused k r c) (.program c r)
  | take {k timeout c} : Flow (.semWait k timeout c) (.wakened c)
  | semBlock {k timeout c} : Flow (.semWait k timeout c) (.semBlocked k timeout c)
  | semFail {k timeout c} (result : Code) : Flow (.semWait k timeout c) (.waitFailed k result c)
  | waitFailed {k result c} : Flow (.waitFailed k result c) (.lock forever (.wait result c))
  | signal {k c} (r : Errno) : r ≠ Errno.perm → Flow (.signal k c) (.program c r)
  | broadcast {k c} (r : Errno) : r ≠ Errno.perm → Flow (.broadcast k c) (.program c r)

theorem mapError_ne_perm (result : Code) : mapError result ≠ Errno.perm := by
  unfold mapError
  repeat' split
  all_goals decide

omit [DecidableEq κ] in
@[simp] theorem place_goto_self (s : Monitor κ δ γ) (t : Thread) (p : Place κ γ) : (s.goto t p).place t = p :=
  Function.update_self ..

theorem exec_flow {env : Env} (h : s.exec P t env = some s') :
    (∃ c r, s.place t = .program c r) ∨ Flow (s.place t) (s'.place t) := by
  have hgoto : ∀ {m : Monitor κ δ γ} {p q : Place κ γ}, Flow p q → m.goto t q = s' → s.place t = p →
      Flow (s.place t) (s'.place t) := by
    rintro m p q hf rfl hp
    rwa [place_goto_self, hp]
  unfold exec at h
  split at h
  case h_1 | h_2 | h_3 => cases h
  case h_4 c r hp => exact .inl ⟨c, r, hp⟩
  case h_5 absolute c hp =>
    split at h
    · exact .inr (hgoto .timedlockInval (Option.some.inj h) hp)
    · exact .inr (hgoto .timedlock (Option.some.inj h) hp)
  case h_6 timeout ret hp =>
    split at h
    case isTrue => exact .inr (hgoto (.relock _ (by decide)) (Option.some.inj h) hp)
    case isFalse =>
      split at h
      · exact .inr (hgoto (.relock _ (by decide)) (Option.some.inj h) hp)
      · exact .inr (hgoto .lock (Option.some.inj h) hp)
  case h_7 timeout ret hp =>
    split at h
    case isTrue => exact .inr (hgoto (.nativeLock _) (Option.some.inj h) hp)
    case isFalse =>
      split at h
      case isTrue => split at h <;> exact .inr (hgoto (.nativeLock _) (Option.some.inj h) hp)
      case isFalse =>
        split at h
        case isTrue => exact .inr (hgoto (.nativeLock _) (Option.some.inj h) hp)
        case isFalse =>
          split at h
          · exact .inr (hgoto (.nativeLock _) (Option.some.inj h) hp)
          · exact .inr (hgoto .mutexBlock (Option.some.inj h) hp)
  case h_8 result ret hp =>
    split at h
    · exact .inr (hgoto (.locked _ (by decide)) (Option.some.inj h) hp)
    · exact .inr (hgoto (.locked _ (mapError_ne_perm _)) (Option.some.inj h) hp)
  case h_9 ret hp =>
    split at h
    case isTrue => exact .inr (hgoto (.unlockEarly _) (Option.some.inj h) hp)
    case isFalse =>
      split at h
      · exact .inr (hgoto (.unlockEarly _) (Option.some.inj h) hp)
      · exact .inr (hgoto .unlock (Option.some.inj h) hp)
  case h_10 ret hp =>
    split at h
    case isTrue => exact .inr (hgoto (.nativeUnlock _ (mapError_ne_perm _)) (Option.some.inj h) hp)
    case isFalse =>
      split at h
      case isTrue => exact .inr (hgoto (.nativeUnlock _ (mapError_ne_perm _)) (Option.some.inj h) hp)
      case isFalse =>
        obtain ⟨m, -, h⟩ := Option.map_eq_some_iff.mp h
        exact .inr (hgoto (.nativeUnlock _ (mapError_ne_perm _)) h hp)
  case h_11 k absolute c hp =>
    split at h
    · exact .inr (hgoto .timedwaitInval (Option.some.inj h) hp)
    · exact .inr (hgoto .timedwait (Option.some.inj h) hp)
  case h_12 k timeout c hp => exact .inr (hgoto .wait (Option.some.inj h) hp)
  case h_13 k r c hp => exact .inr (hgoto .waitRefused (Option.some.inj h) hp)
  case h_14 k timeout c hp =>
    split at h
    case isTrue => exact .inr (hgoto .take (Option.some.inj h) hp)
    case isFalse =>
      split at h
      case isTrue => exact .inr (hgoto (.semFail _) (Option.some.inj h) hp)
      case isFalse =>
        split at h
        · exact .inr (hgoto (.semFail _) (Option.some.inj h) hp)
        · exact .inr (hgoto .semBlock (Option.some.inj h) hp)
  case h_15 k result c hp => exact .inr (hgoto .waitFailed (Option.some.inj h) hp)
  case h_16 k c hp =>
    split at h
    case isTrue =>
      obtain ⟨⟨m, result, f⟩, -, h⟩ := Option.map_eq_some_iff.mp h
      exact .inr (hgoto (.signal _ (mapError_ne_perm _)) h hp)
    case isFalse => exact .inr (hgoto (.signal _ (mapError_ne_perm _)) (Option.some.inj h) hp)
  case h_17 k c hp =>
    obtain ⟨⟨m, result⟩, -, h⟩ := Option.map_eq_some_iff.mp h
    exact .inr (hgoto (.broadcast _ (mapError_ne_perm _)) h hp)

/-- What happens to a thread that takes no step of its own. -/
inductive Stirred (P : Program κ δ ω γ) : Place κ γ → Place κ γ → Prop where
  | stay (q : Place κ γ) : Stirred P q q
  /-- It has a token of the condition variable. -/
  | token {k timeout c} : Stirred P (.semBlocked k timeout c) (.wakened c)
  /-- It does not wait for one any longer. -/
  | failed {k timeout c} (result : Code) : Stirred P (.semBlocked k timeout c) (.waitFailed k result c)
  /-- It has the mutex, or does not wait for it any longer. -/
  | mutex {timeout ret} (result : Code) : Stirred P (.mutexBlocked timeout ret) (.locked result ret)
  | called {r} (op : ω) : Stirred P (.idle r) (.program (P.start op) 0)

omit [DecidableEq κ] in
theorem stirred_interrupt (P : Program κ δ ω γ) (s : Monitor κ δ γ) (t : Thread) (result : Code) :
    Stirred P (s.place t) ((s.interrupt t result).place t) := by
  unfold interrupt
  split
  case h_1 timeout ret hp =>
    rw [place_goto_self, hp]
    exact .mutex result
  case h_2 k timeout c hp =>
    rw [place_goto_self, hp]
    exact .failed result
  case h_3 => exact .stay _

theorem stirred_step (h : step P s a = some s') (hn : u ∉ a.runner) : Stirred P (s.place u) (s'.place u) := by
  by_cases hu : u = a.thread
  case neg =>
    have hw := woken_step h hu
    generalize s'.place u = q at hw
    cases hw with
    | stay => exact .stay _
    | token hp => exact hp ▸ .token
    | mutex hp => exact hp ▸ .mutex Code.ok
  subst hu
  cases a with
  | call t op =>
    simp only [step] at h
    split at h
    case h_1 r hp =>
      split at h <;> cases h
      have hgoto : (s.goto t (.program (P.start op) 0)).place t = .program (P.start op) 0 := place_goto_self ..
      change Stirred P (s.place t) ((s.goto t (.program (P.start op) 0)).place t)
      rw [hgoto, hp]
      exact .called op
    case h_2 => cases h
  | run t env => exact absurd rfl hn
  | expire t =>
    simp only [step] at h
    split at h <;> cases h
    exact stirred_interrupt P s t Code.timeout
  | suspend t =>
    simp only [step] at h
    split at h <;> cases h
    exact stirred_interrupt P s t Code.intr
  | resume t =>
    simp only [step] at h
    split at h <;> cases h
    exact .stay _

/-- Who neither waits nor is outside stays where it is, unless it takes a step. -/
theorem place_step (h : step P s a = some s') (hn : u ∉ a.runner) (hr : (s.place u).rests = false) :
    s'.place u = s.place u := by
  have hs := stirred_step h hn
  generalize s.place u = p at hs hr
  generalize s'.place u = q at hs
  cases hs with
  | stay => rfl
  | _ => cases hr

/-- What happens to each thread in a step inside the functions. -/
theorem aside_place (h : step P s a = some s') (hn : ∀ t ∈ a.runner, ∀ c r, s.place t ≠ .program c r) (u : Thread) :
    u ∈ a.runner ∧ Flow (s.place u) (s'.place u) ∨ Stirred P (s.place u) (s'.place u) := by
  by_cases hr : u ∈ a.runner
  case neg => exact .inr (stirred_step h hr)
  cases a with
  | run t env =>
    cases hr
    simp only [step] at h
    split at h
    case isTrue => cases h
    case isFalse =>
      rcases exec_flow h with ⟨c, r, hp⟩ | hf
      · exact absurd hp (hn u rfl c r)
      · exact .inl ⟨rfl, hf⟩
  | _ => cases hr

omit [DecidableEq κ] in
theorem Flow.enters {q : Place κ γ} (h : Flow p q) (hq : q.enters = true) : p.enters = true := by
  cases h with
  | relock r | locked r => cases ‹LockReturn γ› <;> cases hq
  | unlockEarly r | nativeUnlock r =>
    cases ‹UnlockReturn κ γ› with
    | program c => cases hq
    | wait k timeout c =>
      rw [UnlockReturn.place] at hq
      split at hq <;> cases hq
  | timedwait => rfl
  | _ => cases hq

/-- Only a step of the program begins to wait. -/
theorem enters_step (h : step P s a = some s') (hn : ∀ t ∈ a.runner, ∀ c r, s.place t ≠ .program c r)
    (hu : (s'.place u).enters = true) : (s.place u).enters = true := by
  rcases aside_place h hn u with ⟨-, hf⟩ | hs
  · exact hf.enters hu
  · generalize s.place u = p at hs ⊢
    generalize s'.place u = q at hs hu
    cases hs with
    | stay => exact hu
    | _ => cases hu

omit [DecidableEq κ] in
theorem Flow.waitsFor {q : Place κ γ} (h : Flow p q) (hq : q.waitsFor = some k) : p.waitsFor = some k := by
  cases h with
  | relock r | locked r => cases ‹LockReturn γ› <;> cases hq
  | unlockEarly r | nativeUnlock r =>
    cases ‹UnlockReturn κ γ› with
    | program c => cases hq
    | wait k timeout c =>
      rw [UnlockReturn.place] at hq
      split at hq <;> exact hq
  | unlock => cases ‹UnlockReturn κ γ› <;> exact hq
  | timedwait | wait | semBlock | semFail => exact hq
  | _ => cases hq

/-- Only a step of the program chooses what to wait for. -/
theorem waitsFor_step (h : step P s a = some s') (hn : ∀ t ∈ a.runner, ∀ c r, s.place t ≠ .program c r)
    (hu : (s'.place u).waitsFor = some k) : (s.place u).waitsFor = some k := by
  rcases aside_place h hn u with ⟨-, hf⟩ | hs
  · exact hf.waitsFor hu
  · generalize s.place u = p at hs ⊢
    generalize s'.place u = q at hs hu
    cases hs with
    | stay | failed => exact hu
    | _ => cases hu

/-- Who gets a token goes on to take the mutex again. -/
theorem wakened_step (h : step P s a = some s') (hn : ∀ t ∈ a.runner, ∀ c r, s.place t ≠ .program c r)
    (hi : (s.place u).stage k = .ready ∨ (s.place u).stage k = .blocked) (ho : (s'.place u).stage k = .out) :
    ∃ c, s'.place u = .wakened c := by
  have hp := aside_place h hn u
  generalize s'.place u = q at hp ho
  rcases hi with hi | hi
  · obtain ⟨timeout, c, hpl⟩ := Place.eq_semWait hi
    rw [hpl] at hp
    rcases hp with ⟨-, hf⟩ | hs
    · cases hf with
      | take => exact ⟨c, rfl⟩
      | semBlock => exact absurd ho (by simp [Place.stage])
      | semFail => exact absurd ho (by simp [Place.stage])
    · cases hs with
      | stay => exact absurd ho (by simp [Place.stage])
  · obtain ⟨timeout, c, hpl⟩ := Place.eq_semBlocked hi
    rw [hpl] at hp
    rcases hp with ⟨-, hf⟩ | hs
    · cases hf
    · cases hs with
      | stay => exact absurd ho (by simp [Place.stage])
      | token => exact ⟨c, rfl⟩
      | failed => exact absurd ho (by simp [Place.stage])

omit [DecidableEq κ] in
/-- Who comes to wait owns the mutex. -/
theorem owns_of_enters {D : Discipline γ} (hg : s.Guarded D) (h : (s.place t).enters = true) : s.Owns t := by
  have hp := hg.proper t
  cases hpl : s.place t with
  | wait k timeout c =>
    rw [hpl] at hp
    exact hp.2
  | timedwait k absolute c =>
    rw [hpl] at hp
    exact hp.2
  | _ => simp [hpl, Place.enters] at h

omit [DecidableEq κ] in
theorem owns_of_guarded {D : Discipline γ} {c : γ} {r : Errno} (hg : s.Guarded D) (hp : s.place t = .program c r)
    (h : D.guarded c r = true) : s.Owns t := by
  have hpt := hg.proper t
  rw [hp] at hpt
  exact hpt.1 h

/-- Who takes the mutex again succeeds, and its wait returns 0. -/
theorem retaking_step {D : Discipline γ} (hg : s.Guarded D) (hr : Retakes s a) (h : step P s a = some s')
    (hn : ∀ t ∈ a.runner, ∀ c r, s.place t ≠ .program c r) (hu : (s.place u).retaking = true) :
    (s'.place u).retaking = true ∨ ∃ c, s'.place u = .program c 0 := by
  rcases aside_place h hn u with ⟨hrun, hf⟩ | hs
  · cases a with
    | run t env =>
      cases hrun
      simp only [step] at h
      split at h
      case isTrue => cases h
      cases hp : s.place u with
      | lock timeout ret =>
        simp only [exec, hp] at h
        rw [if_neg (by simp [hg.normal]), if_neg (by simp [hg.normal])] at h
        cases h
        rw [hp] at hu
        rw [place_goto_self]
        cases ret <;> exact .inl hu
      | nativeLock timeout ret =>
        rw [hp] at hf hu
        generalize s'.place u = q at hf
        cases hf <;> cases ret <;> exact .inl hu
      | locked result ret =>
        rw [hp] at hu
        cases ret with
        | program c => cases hu
        | wait waited c =>
          obtain rfl := of_decide_eq_true hu
          obtain rfl := hr u rfl result Code.ok c hp
          simp only [exec, hp] at h
          cases h
          exact .inr ⟨c, place_goto_self ..⟩
      | mutexBlocked timeout ret =>
        rw [hp] at hf
        cases hf
      | _ =>
        rw [hp] at hu
        cases hu
    | _ => cases hrun
  · generalize s.place u = p at hs hu
    generalize s'.place u = q at hs
    cases hs with
    | stay => exact .inl hu
    | mutex => cases ‹LockReturn γ› <;> exact .inl hu
    | _ => cases hu

/-- Nobody is refused by its own mutex. -/
theorem not_refused {D : Discipline γ} (hg : s.Guarded D) : (s.room k).stage t ≠ .refused := by
  intro h
  have hp := hg.proper t
  change (s.place t).stage k = .refused at h
  cases hpl : s.place t with
  | waitRefused k r c =>
    rw [hpl] at hp
    exact hp
  | unlock ret => cases ret <;> simp [hpl, Place.stage, ite_eq_iff] at h
  | nativeUnlock ret => cases ret <;> simp [hpl, Place.stage, ite_eq_iff] at h
  | _ => simp [hpl, Place.stage, ite_eq_iff] at h

/-! ## What the functions return -/

omit [DecidableEq κ] in
/-- The mutex is returned from with no error that `map_error` does not give. -/
theorem lock_returned {ret : LockReturn γ} {r r' : Errno} (hr : r ≠ Errno.perm) {c : γ}
    (h : (ret.place r : Place κ γ) = .program c r') : r' ≠ Errno.perm := by
  cases ret with
  | program c' =>
    cases h
    exact hr
  | wait result c' =>
    simp only [LockReturn.place, Place.program.injEq] at h
    rw [← h.2]
    split
    · exact hr
    · exact mapError_ne_perm _

omit [DecidableEq κ] in
theorem unlock_returned {ret : UnlockReturn κ γ} {r r' : Errno} (hr : r ≠ Errno.perm) {c : γ}
    (h : ret.place r = .program c r') : r' ≠ Errno.perm := by
  cases ret with
  | program c' =>
    cases h
    exact hr
  | wait k timeout c' =>
    simp only [UnlockReturn.place] at h
    split at h <;> cases h

/-- No function returns `AIXOS_EPERM` where the mutex is a plain one. -/
theorem returned_exec {D : Discipline γ} {env : Env} {c : γ} {r : Errno} (hg : s.Guarded D) (h : s.exec P t env = some s')
    (hp' : s'.place t = .program c r) : (∃ c' r', s.place t = .program c' r') ∨ r ≠ Errno.perm := by
  have hgoto : ∀ {m : Monitor κ δ γ} {q : Place κ γ}, m.goto t q = s' → q = .program c r := by
    rintro m q rfl
    exact (m.place_goto_self t q).symm.trans hp'
  unfold exec at h
  split at h
  case h_1 | h_2 | h_3 => cases h
  case h_4 c' r' hp => exact .inl ⟨c', r', hp⟩
  case h_5 | h_11 =>
    split at h <;> have h := hgoto (Option.some.inj h) <;> cases h
    exact .inr (by decide)
  case h_6 timeout ret hp =>
    split at h
    case isTrue => exact .inr (lock_returned (by decide) (hgoto (Option.some.inj h)))
    case isFalse =>
      split at h
      · exact .inr (lock_returned (by decide) (hgoto (Option.some.inj h)))
      · cases hgoto (Option.some.inj h)
  case h_7 =>
    repeat' split at h
    all_goals cases hgoto (Option.some.inj h)
  case h_8 result ret hp =>
    split at h
    · exact .inr (lock_returned (by decide) (hgoto (Option.some.inj h)))
    · exact .inr (lock_returned (mapError_ne_perm _) (hgoto (Option.some.inj h)))
  case h_9 ret hp =>
    rw [if_neg (by simp [hg.normal]), if_neg (by simp [hg.normal])] at h
    cases hgoto (Option.some.inj h)
  case h_10 ret hp =>
    split at h
    case isTrue => exact .inr (unlock_returned (mapError_ne_perm _) (hgoto (Option.some.inj h)))
    case isFalse =>
      split at h
      case isTrue => exact .inr (unlock_returned (mapError_ne_perm _) (hgoto (Option.some.inj h)))
      case isFalse =>
        obtain ⟨m, -, h⟩ := Option.map_eq_some_iff.mp h
        exact .inr (unlock_returned (mapError_ne_perm _) (hgoto h))
  case h_12 => cases hgoto (Option.some.inj h)
  case h_13 k r' c' hp =>
    have hpt := hg.proper t
    rw [hp] at hpt
    exact hpt.elim
  case h_14 =>
    repeat' split at h
    all_goals cases hgoto (Option.some.inj h)
  case h_15 => cases hgoto (Option.some.inj h)
  case h_16 k c' hp =>
    split at h
    case isTrue =>
      obtain ⟨⟨m, result, f⟩, -, h⟩ := Option.map_eq_some_iff.mp h
      cases hgoto h
      exact .inr (mapError_ne_perm _)
    case isFalse =>
      cases hgoto (Option.some.inj h)
      exact .inr (mapError_ne_perm _)
  case h_17 k c' hp =>
    obtain ⟨⟨m, result⟩, -, h⟩ := Option.map_eq_some_iff.mp h
    cases hgoto h
    exact .inr (mapError_ne_perm _)

omit [DecidableEq κ] in
/-- What ends the waiting of a thread does not bring it back to the program. -/
theorem program_interrupt {c : γ} {r : Errno} (h : (s.interrupt t result).place t = .program c r) :
    s.place t = .program c r := by
  unfold interrupt at h
  split at h
  · exact absurd ((s.place_goto_self t _).symm.trans h) nofun
  · exact absurd ((s.place_goto_self t _).symm.trans h) nofun
  · exact h

omit [DecidableEq κ] in
theorem Woken.program {q : Place κ γ} {c : γ} {r : Errno} (h : Woken p q) (hq : q = .program c r) : p = .program c r := by
  cases h with
  | stay => exact hq
  | token => cases hq
  | mutex => cases hq

theorem returned_step {D : Discipline γ} {c : γ} {r : Errno} (hg : s.Guarded D) (h : step P s a = some s') (ha : Aside s s')
    (hp : s'.place u = .program c r) : s.place u = .program c r ∨ r ≠ Errno.perm := by
  by_cases hu : u = a.thread
  case neg => exact .inl ((woken_step h hu).program hp)
  subst hu
  cases a with
  | call t op =>
    simp only [step] at h
    split at h
    case h_1 r' hr =>
      have hafter := ha.after t
      rw [show s'.place t = .program c r from hp, hr] at hafter
      cases hafter
    case h_2 => cases h
  | run t env =>
    simp only [step] at h
    split at h
    case isTrue => cases h
    case isFalse =>
      rcases returned_exec hg h hp with ⟨c', r', hc⟩ | hr
      · have := (ha.program t c' r' hc).symm.trans hp
        cases this
        exact .inl hc
      · exact .inr hr
  | expire t =>
    simp only [step] at h
    split at h <;> cases h
    exact .inl (program_interrupt hp)
  | suspend t =>
    simp only [step] at h
    split at h <;> cases h
    exact .inl (program_interrupt hp)
  | resume t =>
    simp only [step] at h
    split at h <;> cases h
    exact .inl hp

end Monitor

end Aixos.Posix
