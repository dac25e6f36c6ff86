import Aixos.Kernel.PosixTimer
import Aixos.Time.Remaining
import Aixos.Time.TimerPool

/-!
# POSIX timers and their native timers

Every POSIX timer in use has a native timer of its own, whose callback names it, and no native timer names a timer that is
not in use.

* `PosixTimers.Linked` — the invariant, `linked_step`, `linked_run`.
* `PosixTimers.create_eq`, `Linked.delete_eq`, `Linked.settime_arm`, `Linked.settime_disarm`, `Linked.serve_cases` — what
  the steps do.
-/

namespace Aixos.Posix

namespace PosixTimers

open Transition

variable {ε : Type} [ocfg : ObjectConfig] {p q : PosixTimers ε} {i j : ℕ}

/-- The native timer of timer `i`. -/
def nativeOf (p : PosixTimers ε) (i : ℕ) : Option ℕ := p.natives.timerFromHandle (p.timers i).native

/-- A timer in use has a native timer, which names it; a native timer in use is that of the timer it names. -/
structure Linked (p : PosixTimers ε) : Prop where
  good : p.natives.Good
  native : ∀ i, (p.timers i).used = true → ∃ j, p.nativeOf i = some j ∧ (p.natives.timers j).callback = some i
  back : ∀ j i, (p.natives.slots j).used = true → (p.natives.timers j).callback = some i →
    (p.timers i).used = true ∧ p.nativeOf i = some j
  active : ∀ i, (p.timers i).active = true → (p.timers i).used = true
  unused : ∀ i, (p.timers i).used = false → (p.timers i).native = none

theorem linked_init : Linked (init : PosixTimers ε) where
  good := TimerPool.good_init
  native := by simp [init]
  back := by simp [init, TimerPool.init]
  active := by simp [init]
  unused := fun _ _ => rfl

namespace Linked

/-- Two timers have two native timers. -/
theorem nativeOf_inj (h : Linked p) {i' : ℕ} (hi : (p.timers i).used = true) (hi' : (p.timers i').used = true)
    (hj : p.nativeOf i = some j) (hj' : p.nativeOf i' = some j) : i = i' := by
  obtain ⟨k, hk, hc⟩ := h.native i hi
  obtain ⟨k', hk', hc'⟩ := h.native i' hi'
  obtain rfl := Option.some.inj (hk.symm.trans hj)
  obtain rfl := Option.some.inj (hk'.symm.trans hj')
  exact Option.some.inj (hc.symm.trans hc')

theorem callback (h : Linked p) (hi : (p.timers i).used = true) (hj : p.nativeOf i = some j) :
    (p.natives.timers j).callback = some i := by
  obtain ⟨k, hk, hc⟩ := h.native i hi
  obtain rfl := Option.some.inj (hk.symm.trans hj)
  exact hc

/-- The slots and the callbacks of the native timers stay, and so do the handles of the timers. -/
theorem same (h : Linked p) (hg : q.natives.Good) (hs : q.natives.slots = p.natives.slots)
    (hc : ∀ j, (q.natives.timers j).callback = (p.natives.timers j).callback)
    (hu : ∀ i, (q.timers i).used = (p.timers i).used) (hn : ∀ i, (q.timers i).native = (p.timers i).native)
    (ha : ∀ i, (q.timers i).active = true → (p.timers i).used = true) : Linked q := by
  have hof : ∀ i, q.nativeOf i = p.nativeOf i := by
    intro i
    unfold nativeOf
    rw [hn i]
    ext j
    rw [TimerPool.timerFromHandle_eq_some, TimerPool.timerFromHandle_eq_some, hs]
  refine ⟨hg, fun i hi => ?_, fun j i hj hji => ?_, fun i hi => ?_, fun i hi => ?_⟩
  · obtain ⟨j, hj, hcj⟩ := h.native i (by rw [← hu]; exact hi)
    exact ⟨j, by rw [hof]; exact hj, by rw [hc]; exact hcj⟩
  · rw [hu, hof]
    exact h.back j i (by rw [← hs]; exact hj) (by rw [← hc]; exact hji)
  · rw [hu]
    exact ha i hi
  · rw [hn]
    exact h.unused i (by rw [← hu]; exact hi)

/-- One timer and one native timer change, and go on naming each other. -/
theorem change (h : Linked p) (hg : q.natives.Good) (hs : q.natives.slots = p.natives.slots) {n : Timer ℕ}
    (hn : q.natives.timers = Function.update p.natives.timers j n) (hc : n.callback = (p.natives.timers j).callback)
    {t : PosixTimer ε} (ht : q.timers = Function.update p.timers i t) (hu : t.used = (p.timers i).used)
    (ht' : t.native = (p.timers i).native) (ha : t.active = true → (p.timers i).used = true) : Linked q := by
  refine h.same hg hs (fun k => ?_) (fun k => ?_) (fun k => ?_) fun k hk => ?_
  · rw [hn]
    by_cases hkj : k = j
    · rw [hkj, Function.update_self, hc]
    · rw [Function.update_of_ne hkj]
  all_goals by_cases hki : k = i
  · rw [ht, hki, Function.update_self, hu]
  · rw [ht, Function.update_of_ne hki]
  · rw [ht, hki, Function.update_self, ht']
  · rw [ht, Function.update_of_ne hki]
  · rw [ht, hki, Function.update_self] at hk
    rw [hki]
    exact ha hk
  · rw [ht, Function.update_of_ne hki] at hk
    exact h.active k hk

end Linked

omit ocfg in
@[simp] theorem setTimer_self (p : PosixTimers ε) (i : ℕ) (f : PosixTimer ε → PosixTimer ε) :
    (p.setTimer i f).timers i = f (p.timers i) := Function.update_self ..

omit ocfg in
theorem setTimer_ne (p : PosixTimers ε) (f : PosixTimer ε → PosixTimer ε) (h : j ≠ i) :
    (p.setTimer i f).timers j = p.timers j := Function.update_of_ne h ..

variable [pcfg : PosixTimerConfig]

omit ocfg in
theorem timerFromHandle_eq_some {h : BitVec 32} : p.timerFromHandle h = some i ↔ h.msb = false ∧ handleIdx h = i ∧
    i < pcfg.posixTimers ∧ (p.timers i).used = true ∧ (p.timers i).generation = handleGen h := by
  simp only [timerFromHandle]
  constructor
  · intro he
    split at he
    · cases he
    · rename_i hm
      split at he
      · cases he
      · rename_i hlt
        split at he
        · cases he
        · rename_i hu
          cases he
          simp only [Bool.not_eq_true', not_or, Bool.not_eq_false, ne_eq, not_not] at hu
          exact ⟨by simpa using hm, rfl, Nat.not_le.mp hlt, hu.1, hu.2⟩
  · rintro ⟨hm, rfl, hlt, hu, hg⟩
    rw [if_neg (by simp [hm]), if_neg (Nat.not_le.mpr hlt), if_neg (by simp [hu, hg])]

/-! ### Creation and deletion -/

/-- A creation that fails may have counted the generation of a timer that is not in use. -/
structure Skipped (p q : PosixTimers ε) : Prop where
  natives : q.natives = p.natives
  ticks : q.ticks = p.ticks
  phase : q.phase = p.phase
  timers : ∀ i, q.timers i = p.timers i ∨ (p.timers i).used = false ∧ (q.timers i).used = false ∧
    (q.timers i).active = false ∧ (q.timers i).native = none ∧
    (q.timers i).generation = nextTimerGeneration (p.timers i).generation

omit ocfg pcfg in
theorem Skipped.refl (p : PosixTimers ε) : Skipped p p := ⟨rfl, rfl, rfl, fun _ => .inl rfl⟩

/-- A creation that succeeds. -/
structure Created (p q : PosixTimers ε) (i : ℕ) (h : BitVec 32) : Prop where
  lt : i < pcfg.posixTimers
  free : (p.timers i).used = false
  handle : h = handleMake i (nextTimerGeneration (p.timers i).generation)
  generation : (q.timers i).generation = nextTimerGeneration (p.timers i).generation
  used : (q.timers i).used = true
  inactive : (q.timers i).active = false
  other : ∀ j, j ≠ i → q.timers j = p.timers j
  ticks : q.ticks = p.ticks
  phase : q.phase = p.phase
  native : ∃ x type, p.natives.timerCreate false type (some i) = (q.natives, some x) ∧ (q.timers i).native = some x

theorem create_cases (p : PosixTimers ε) (clockId : ℤ) (event : Option (Sigevent ε)) (handle : Bool) :
    (∃ q e, p.create clockId event handle = (q, e, none) ∧ Skipped p q) ∨
    ∃ q i h, p.create clockId event handle = (q, 0, some h) ∧ Created p q i h := by
  unfold create
  split
  · exact .inl ⟨p, _, rfl, .refl p⟩
  · split
    · exact .inl ⟨p, _, rfl, .refl p⟩
    · rename_i i hfind
      have hfree : (p.timers i).used = false := by simpa using List.find?_some hfind
      have hlt := List.mem_range.mp (List.mem_of_find?_eq_some hfind)
      dsimp only
      split
      · rename_i natives hn
        refine .inl ⟨_, _, rfl, rfl, rfl, rfl, fun j => ?_⟩
        by_cases hj : j = i
        · subst hj
          exact .inr ⟨hfree, by simp, by simp, by simp, by simp⟩
        · exact .inl (by rw [setTimer_ne _ _ hj, setTimer_ne _ _ hj])
      · rename_i natives x hn
        refine .inr ⟨_, i, _, rfl, ?_⟩
        exact {
          lt := hlt
          free := hfree
          handle := rfl
          generation := by simp [setTimer]
          used := by simp [setTimer]
          inactive := by simp [setTimer]
          other := fun j hj => by simp [setTimer, hj]
          ticks := rfl
          phase := rfl
          native := ⟨x, .periodic, hn, by simp [setTimer]⟩ }

namespace Linked

omit pcfg in
theorem skipped (h : Linked p) (hs : Skipped p q) : Linked q := by
  have hu : ∀ i, (q.timers i).used = true → q.timers i = p.timers i := fun i hi => (hs.timers i).resolve_right fun hn => by
    rw [hn.2.1] at hi
    cases hi
  have hu' : ∀ i, (p.timers i).used = true → q.timers i = p.timers i := fun i hi => (hs.timers i).resolve_right fun hn => by
    rw [hn.1] at hi
    cases hi
  have hof : ∀ i, q.timers i = p.timers i → q.nativeOf i = p.nativeOf i := fun i e => by
    unfold nativeOf
    rw [hs.natives, e]
  refine ⟨by rw [hs.natives]; exact h.good, fun i hi => ?_, fun j i hj hc => ?_, fun i hi => ?_, fun i hi => ?_⟩
  · have e := hu i hi
    rw [hof i e, hs.natives]
    exact h.native i (by rw [← e]; exact hi)
  · rw [hs.natives] at hj hc
    obtain ⟨hi, hn⟩ := h.back j i hj hc
    have e := hu' i hi
    exact ⟨by rw [e]; exact hi, by rw [hof i e]; exact hn⟩
  · rcases hs.timers i with e | ⟨-, -, hn, -, -⟩
    · rw [e] at hi ⊢
      exact h.active i hi
    · rw [hn] at hi
      cases hi
  · rcases hs.timers i with e | ⟨-, -, -, hn, -⟩
    · rw [e] at hi ⊢
      exact h.unused i hi
    · exact hn

theorem created (h : Linked p) {hd : BitVec 32} (hc : Created p q i hd) : Linked q := by
  obtain ⟨x, type, hn, hx⟩ := hc.native
  obtain ⟨hfree, hres, ht, -, -, hs⟩ := TimerPool.timerCreate_eq hn
  have hg : q.natives.Good := by
    have := h.good.timerCreate type (some i)
    rwa [hn] at this
  have hnew : q.nativeOf i = some x.index := by
    unfold nativeOf
    rw [hx]
    exact hres
  -- the native timers of the others are in use, so none of them is the new one
  have hold : ∀ k, k ≠ i → ∀ j, j ≠ x.index → (q.nativeOf k = some j ↔ p.nativeOf k = some j) := by
    intro k hk j hj
    unfold nativeOf
    rw [hc.other k hk, TimerPool.timerFromHandle_eq_some, TimerPool.timerFromHandle_eq_some, hs j hj]
  have hne : ∀ j, (p.natives.slots j).used = true → j ≠ x.index := by
    rintro j hj rfl
    rw [hfree] at hj
    cases hj
  refine ⟨hg, fun k hk => ?_, fun j k hj hcb => ?_, fun k hk => ?_, fun k hk => ?_⟩
  · by_cases hki : k = i
    · subst hki
      exact ⟨x.index, hnew, by rw [ht, Function.update_self]⟩
    · rw [hc.other k hki] at hk
      obtain ⟨j, hj, hcb⟩ := h.native k hk
      have hjx := hne j (TimerPool.used_of_handle hj)
      exact ⟨j, (hold k hki j hjx).mpr hj, by rw [ht, Function.update_of_ne hjx]; exact hcb⟩
  · by_cases hjx : j = x.index
    · subst hjx
      rw [ht, Function.update_self] at hcb
      cases hcb
      exact ⟨hc.used, hnew⟩
    · rw [hs j hjx] at hj
      rw [ht, Function.update_of_ne hjx] at hcb
      obtain ⟨hu, hn⟩ := h.back j k hj hcb
      have hki : k ≠ i := by
        rintro rfl
        rw [hc.free] at hu
        cases hu
      exact ⟨by rw [hc.other k hki]; exact hu, (hold k hki j hjx).mpr hn⟩
  · have hki : k ≠ i := by
      rintro rfl
      rw [hc.inactive] at hk
      cases hk
    rw [hc.other k hki] at hk ⊢
    exact h.active k hk
  · have hki : k ≠ i := by
      rintro rfl
      rw [hc.used] at hk
      cases hk
    rw [hc.other k hki] at hk ⊢
    exact h.unused k hk

/-- A deletion deletes the native timer, and succeeds. -/
theorem delete_eq (h : Linked p) {hd : BitVec 32} (hi : p.timerFromHandle hd = some i) : ∃ j natives,
    p.nativeOf i = some j ∧ p.natives.timerDelete false (p.timers i).native = (natives, Code.ok) ∧
    natives.slots = Function.update p.natives.slots j { p.natives.slots j with used := false } ∧
    natives.timers = Function.update p.natives.timers j {} ∧
    p.delete hd = ({ p.setTimer i fun t => { t with used := false, active := false, native := none } with natives }, 0) := by
  have hu := (timerFromHandle_eq_some.mp hi).2.2.2.1
  obtain ⟨j, hj, hc⟩ := h.native i hu
  obtain ⟨natives, e, hs, ht, -⟩ := h.good.timerDelete_eq hj
  refine ⟨j, natives, hj, e, hs, ht, ?_⟩
  simp only [delete, hi]
  rw [show (p.setTimer i _).natives = p.natives from rfl, e]
  rfl

theorem delete (h : Linked p) (hd : BitVec 32) : Linked (p.delete hd).1 := by
  cases hi : p.timerFromHandle hd with
  | none =>
    unfold PosixTimers.delete
    rw [hi]
    exact h
  | some i =>
    obtain ⟨j, natives, hj, hdel, hs, ht, e⟩ := h.delete_eq hi
    have hg : natives.Good := by
      have := h.good.timerDelete (p.timers i).native
      rwa [hdel] at this
    rw [e]
    set q := { p.setTimer i fun t => { t with used := false, active := false, native := none } with natives } with hq
    have hu := (timerFromHandle_eq_some.mp hi).2.2.2.1
    have hself : q.timers i = { p.timers i with used := false, active := false, native := none } := by simp [hq, setTimer]
    have hother : ∀ k, k ≠ i → q.timers k = p.timers k := fun k hk => by simp [hq, setTimer, hk]
    have hold : ∀ k, k ≠ i → ∀ l, l ≠ j → (q.nativeOf k = some l ↔ p.nativeOf k = some l) := by
      intro k hk l hl
      unfold nativeOf
      rw [hother k hk, TimerPool.timerFromHandle_eq_some, TimerPool.timerFromHandle_eq_some,
        show q.natives.slots = _ from hs, Function.update_of_ne hl]
    refine ⟨hg, fun k hk => ?_, fun l k hl hcb => ?_, fun k hk => ?_, fun k hk => ?_⟩
    · have hki : k ≠ i := by
        rintro rfl
        rw [hself] at hk
        cases hk
      rw [hother k hki] at hk
      obtain ⟨l, hl, hcb⟩ := h.native k hk
      have hlj : l ≠ j := by
        rintro rfl
        exact hki (h.nativeOf_inj hk hu hl hj)
      exact ⟨l, (hold k hki l hlj).mpr hl, by rw [show q.natives.timers = _ from ht, Function.update_of_ne hlj]; exact hcb⟩
    · have hlj : l ≠ j := by
        rintro rfl
        rw [show q.natives.slots = _ from hs, Function.update_self] at hl
        cases hl
      rw [show q.natives.slots = _ from hs, Function.update_of_ne hlj] at hl
      rw [show q.natives.timers = _ from ht, Function.update_of_ne hlj] at hcb
      obtain ⟨huk, hn⟩ := h.back l k hl hcb
      have hki : k ≠ i := by
        rintro rfl
        exact hlj (Option.some.inj (hn.symm.trans hj))
      exact ⟨by rw [hother k hki]; exact huk, (hold k hki l hlj).mpr hn⟩
    · have hki : k ≠ i := by
        rintro rfl
        rw [hself] at hk
        cases hk
      rw [hother k hki] at hk ⊢
      exact h.active k hk
    · by_cases hki : k = i
      · rw [hki, hself]
      · rw [hother k hki] at hk ⊢
        exact h.unused k hk

end Linked

/-! ### Setting the time -/

section

variable [cfg : Config] {hd : BitVec 32} {flags : ℤ} {value : Option Itimerspec} {ms ticks interval : Word}

omit ocfg pcfg in
theorem settimeTicks_eq_some (h : p.settimeTicks flags value = some (ms, ticks, interval)) :
    ticks = msToTicks ms ∧ (ms ≠ 0 → ms ≠ forever) ∧ interval.toNat ≤ timeoutMaxTicks := by
  simp only [settimeTicks] at h
  split at h
  · cases h
  · rename_i initialMs intervalMs _
    split at h
    · cases h
    · rename_i hn
      cases h
      rw [msToTicks_eq_forever, msToTicks_eq_forever] at hn
      refine ⟨rfl, fun h₀ hf => hn (.inl ⟨h₀, hf⟩), ?_⟩
      by_cases h₀ : intervalMs = 0
      · rw [h₀]
        exact Nat.le_trans (Nat.le_of_eq (by simp [msToTicks, forever, timeoutMaxTicks])) (Nat.zero_le _)
      · exact msToTicks_le fun hf => hn (.inr ⟨h₀, hf⟩)

/-- A setting that is refused changes nothing. -/
theorem settime_inval (h : p.settimeTicks flags value = none ∨ p.timerFromHandle hd = none) :
    p.settime hd flags value = (p, Errno.inval, none) := by
  simp only [settime]
  split
  · rfl
  · rename_i ht
    rw [ht] at h
    rw [h.resolve_left (Option.some_ne_none _)]

namespace Linked

theorem settime_disarm (h : Linked p) (ht : p.settimeTicks flags value = some (0, ticks, interval))
    (hi : p.timerFromHandle hd = some i) : ∃ j natives, p.nativeOf i = some j ∧ natives.Good ∧
      natives.slots = p.natives.slots ∧
      natives.timers = Function.update p.natives.timers j { p.natives.timers j with active := false, pending := false } ∧
      p.settime hd flags value = ({ p.setTimer i fun t => { t with active := false, intervalTicks := interval, overrun := 0 }
        with natives }, 0, some (p.snapshot i)) := by
  obtain ⟨j, hj, -⟩ := h.native i (timerFromHandle_eq_some.mp hi).2.2.2.1
  obtain ⟨natives, e, hs, htm, -⟩ := h.good.timerStop_eq hj
  have hg := h.good.timerStop (p.timers i).native
  rw [e] at hg
  refine ⟨j, natives, hj, hg, hs, htm, ?_⟩
  simp only [settime, ht, hi, e]
  rfl

theorem settime_arm (h : Linked p) (ht : p.settimeTicks flags value = some (ms, ticks, interval)) (h₀ : ms ≠ 0)
    (hi : p.timerFromHandle hd = some i) : ∃ j natives, p.nativeOf i = some j ∧ natives.Good ∧
      natives.slots = p.natives.slots ∧
      natives.timers = Function.update p.natives.timers j { p.natives.timers j with
        interval := ticks, deadline := p.getTick + ticks, active := true, pending := false } ∧
      p.settime hd flags value = ({ p.setTimer i fun t => { t with
        active := true, intervalTicks := interval, overrun := 0, nextDeadline := p.getTick + ticks } with natives }, 0,
        some (p.snapshot i)) := by
  obtain ⟨rfl, hf, -⟩ := settimeTicks_eq_some ht
  obtain ⟨j, hj, -⟩ := h.native i (timerFromHandle_eq_some.mp hi).2.2.2.1
  obtain ⟨stopped, e, hs, htm, -⟩ := h.good.timerStop_eq hj
  have hg := h.good.timerStop (p.timers i).native
  rw [e] at hg
  have hj' : stopped.timerFromHandle (p.timers i).native = some j := by
    rw [TimerPool.timerFromHandle_eq_some, hs, ← TimerPool.timerFromHandle_eq_some]
    exact hj
  obtain ⟨natives, e', hs', htm', -⟩ := hg.timerStart_eq p.getTick hj' h₀ (hf h₀)
  have hg' := hg.timerStart p.getTick (p.timers i).native ms
  rw [e'] at hg'
  refine ⟨j, natives, hj, hg', hs'.trans hs, ?_, ?_⟩
  · rw [htm', htm]
    simp
  · simp only [settime, ht, hi, e, setTimer_self]
    have e' : stopped.timerStart false (.ofNat 32 p.ticks) (p.timers i).native ms = (natives, Code.ok) := e'
    rw [if_pos h₀]
    simp [setTimer, getTick, e', mapError]

/-- A setting stops or starts the native timer. -/
theorem settime (h : Linked p) (hd : BitVec 32) (flags : ℤ) (value : Option Itimerspec) :
    Linked (p.settime hd flags value).1 := by
  cases ht : p.settimeTicks flags value with
  | none =>
    rw [settime_inval (.inl ht)]
    exact h
  | some x =>
    cases hi : p.timerFromHandle hd with
    | none =>
      rw [settime_inval (.inr hi)]
      exact h
    | some i =>
      obtain ⟨ms, ticks, interval⟩ := x
      have hu := (timerFromHandle_eq_some.mp hi).2.2.2.1
      by_cases h₀ : ms = 0
      · subst h₀
        obtain ⟨j, natives, -, hg, hs, htm, e⟩ := h.settime_disarm ht hi
        rw [e]
        exact h.change hg hs htm rfl rfl rfl rfl (by simp)
      · obtain ⟨j, natives, -, hg, hs, htm, e⟩ := h.settime_arm ht h₀ hi
        rw [e]
        exact h.change hg hs htm rfl rfl rfl rfl fun _ => hu

end Linked

/-! ### The timer service -/

omit ocfg pcfg in
/-- The critical section of `posix_timer_expired` changes its timer, which is active. -/
theorem expired_eq {event : Sigevent ε} (h : p.expired i = some (q, ms, event)) : (p.timers i).used = true ∧
    (p.timers i).active = true ∧ ∃ t, q = p.setTimer i (fun _ => t) ∧ t.used = true ∧ t.native = (p.timers i).native ∧
      t.generation = (p.timers i).generation ∧
      if (p.timers i).intervalTicks ≠ 0 then
        t = { p.timers i with
          overrun := missed (p.timers i) p.getTick, nextDeadline := p.getTick + (p.timers i).intervalTicks } ∧
        ms = ticksToMs (p.timers i).intervalTicks
      else t = { p.timers i with overrun := 0, active := false } ∧ ms = 0 := by
  simp only [expired] at h
  split at h
  · cases h
  · rename_i hn
    simp only [Bool.not_eq_true', not_or, Bool.not_eq_false] at hn
    obtain ⟨hu, ha⟩ := hn
    refine ⟨hu, ha, ?_⟩
    split at h
    · rename_i hne
      cases h
      refine ⟨_, rfl, hu, rfl, rfl, ?_⟩
      rw [if_pos hne]
      exact ⟨rfl, rfl⟩
    · rename_i hne
      cases h
      refine ⟨_, rfl, hu, rfl, rfl, ?_⟩
      rw [if_neg hne]
      exact ⟨rfl, rfl⟩

/-- `posix_timer_expired` has gone on. -/
structure Expired (p q : PosixTimers ε) (i : ℕ) (ms : Word) (event : Sigevent ε) : Prop where
  used : (p.timers i).used = true
  active : (p.timers i).active = true
  timer : if (p.timers i).intervalTicks ≠ 0 then
      q.timers i = { p.timers i with
        overrun := missed (p.timers i) p.getTick, nextDeadline := p.getTick + (p.timers i).intervalTicks } ∧
      ms = ticksToMs (p.timers i).intervalTicks
    else q.timers i = { p.timers i with overrun := 0, active := false } ∧ ms = 0
  other : ∀ j, j ≠ i → q.timers j = p.timers j
  natives : q.natives = p.natives
  ticks : q.ticks = p.ticks
  phase : q.phase = .restart i ms event

omit pcfg in
/-- The critical section of `posix_timer_expired`: the timer is not set, or it goes on. -/
theorem serve_taken (hp : p.phase = .taken i) (hq : p.serve = some q) :
    ((p.timers i).used = false ∨ (p.timers i).active = false) ∧ p.expired i = none ∧ q = { p with phase := .idle } ∨
    ∃ r ms event, p.expired i = some (r, ms, event) ∧ r.timers = q.timers ∧ Expired p q i ms event := by
  simp only [serve, hp] at hq
  split at hq
  · rename_i he
    cases hq
    refine .inl ⟨?_, he, rfl⟩
    simp only [expired] at he
    split at he
    · rename_i hn
      simpa using hn
    · split at he <;> cases he
  · rename_i r ms event he
    cases hq
    obtain ⟨hu, ha, t, rfl, -, -, -, hcase⟩ := expired_eq he
    refine .inr ⟨_, ms, event, he, rfl, hu, ha, ?_, fun j hj => ?_, rfl, rfl, rfl⟩
    · have ht : (p.setTimer i fun _ => t).timers i = t := setTimer_self ..
      dsimp only
      rw [ht]
      exact hcase
    · have ht : (p.setTimer i fun _ => t).timers j = p.timers j := setTimer_ne _ _ hj
      exact ht

/-- The service has taken a native timer that was pending. -/
structure Taken (p q : PosixTimers ε) (i j : ℕ) : Prop where
  idle : p.phase = .idle
  pending : (p.natives.timers j).pending = true
  used : (p.timers i).used = true
  native : p.nativeOf i = some j
  slots : q.natives.slots = p.natives.slots
  natives : q.natives.timers = Function.update p.natives.timers j { p.natives.timers j with pending := false }
  timers : q.timers = p.timers
  ticks : q.ticks = p.ticks
  phase : q.phase = .taken i

omit pcfg in
theorem Linked.take (h : Linked p) (hp : p.phase = .idle) (hq : p.serve = some q) :
    q.natives.Good ∧ ∃ i j, Taken p q i j := by
  simp only [serve, hp] at hq
  split at hq
  · rename_i natives i hd
    cases hq
    obtain ⟨j, rest, hl, hpend, hc, hs, ht, -⟩ := h.good.dispatchTake_eq hd
    obtain ⟨hu, hn⟩ := h.back j i (h.good.pendingUsed j hpend) hc.symm
    exact ⟨h.good.dispatchTake hd, i, j, hp, hpend, hu, hn, hs, ht, rfl, rfl, rfl⟩
  · cases hq

/-- The service has started or stopped a native timer. -/
structure Restarted (p q : PosixTimers ε) (i : ℕ) (ms : Word) : Prop where
  slots : q.natives.slots = p.natives.slots
  natives : q.natives.timers = p.natives.timers ∧ (p.nativeOf i = none ∨ ms = forever) ∨
    ∃ j, p.nativeOf i = some j ∧ q.natives.timers = Function.update p.natives.timers j
      (if ms ≠ 0 then
        { p.natives.timers j with interval := msToTicks ms, deadline := p.getTick + msToTicks ms, active := true }
      else { p.natives.timers j with active := false, pending := false })
  timers : q.timers = p.timers
  ticks : q.ticks = p.ticks

omit pcfg in
theorem Linked.restart {event : Sigevent ε} (h : Linked p) (hp : p.phase = .restart i ms event) (hq : p.serve = some q) :
    q.natives.Good ∧ Restarted p q i ms ∧ q.phase = .call i event := by
  simp only [serve, hp] at hq
  cases hq
  by_cases h₀ : ms = 0
  · subst h₀
    simp only [ne_eq, not_true_eq_false, if_false, and_true]
    refine ⟨h.good.timerStop _, ?_⟩
    cases hj : p.nativeOf i with
    | none => exact ⟨by rw [TimerPool.timerStop_none hj], .inl ⟨by rw [TimerPool.timerStop_none hj], .inl hj⟩, rfl, rfl⟩
    | some j =>
      obtain ⟨natives, e, hs, ht, -⟩ := h.good.timerStop_eq hj
      exact ⟨by rw [e]; exact hs, .inr ⟨j, hj, by rw [e, if_neg (by simp)]; exact ht⟩, rfl, rfl⟩
  · simp only [if_pos h₀]
    refine ⟨h.good.timerStart _ _ _, ?_, trivial⟩
    cases hj : p.nativeOf i with
    | none => exact ⟨by rw [TimerPool.timerStart_none hj], .inl ⟨by rw [TimerPool.timerStart_none hj], .inl hj⟩, rfl, rfl⟩
    | some j =>
      by_cases hf : ms = forever
      · have e : p.natives.timerStart false p.getTick (p.timers i).native ms = (p.natives, Code.inval) :=
          TimerPool.timerStart_inval (.inr hf)
        exact ⟨by rw [e], .inl ⟨by rw [e], .inr hf⟩, rfl, rfl⟩
      · obtain ⟨natives, e, hs, ht, -⟩ := h.good.timerStart_eq p.getTick hj h₀ hf
        exact ⟨by rw [e]; exact hs, .inr ⟨j, hj, by rw [e, if_pos h₀]; exact ht⟩, rfl, rfl⟩

namespace Linked

omit pcfg in
theorem serve (h : Linked p) (hq : p.serve = some q) : Linked q := by
  cases hp : p.phase with
  | idle =>
    obtain ⟨hg, i, j, ht⟩ := h.take hp hq
    refine h.change (i := i) hg ht.slots ht.natives rfl (t := p.timers i) ?_ rfl rfl (h.active i)
    rw [ht.timers, Function.update_eq_self]
  | taken i =>
    simp only [PosixTimers.serve, hp] at hq
    split at hq
    · cases hq
      exact h.same h.good rfl (fun _ => rfl) (fun _ => rfl) (fun _ => rfl) h.active
    · rename_i r ms event he
      cases hq
      obtain ⟨hu, -, t, rfl, htu, htn, -, -⟩ := expired_eq he
      refine h.change (j := 0) (n := p.natives.timers 0) h.good rfl ?_ rfl (i := i) (t := t) rfl (htu.trans hu.symm) htn fun _ => hu
      exact (Function.update_eq_self ..).symm
  | restart i ms event =>
    obtain ⟨hg, hr, -⟩ := h.restart hp hq
    have htm : q.timers = Function.update p.timers i (p.timers i) := by rw [hr.timers, Function.update_eq_self]
    rcases hr.natives with ⟨e, -⟩ | ⟨j, -, e⟩
    · exact h.same hg hr.slots (fun k => by rw [e]) (fun k => by rw [hr.timers]) (fun k => by rw [hr.timers])
        fun k hk => h.active k (by rwa [hr.timers] at hk)
    · refine h.change hg hr.slots e ?_ htm rfl rfl (h.active i)
      split <;> rfl
  | call i event =>
    simp only [PosixTimers.serve, hp] at hq
    cases hq
    exact h.same h.good rfl (fun _ => rfl) (fun _ => rfl) (fun _ => rfl) h.active

end Linked

theorem linked_step {a : TimerStep ε} (h : Linked p) (hq : p.step a = some q) : Linked q := by
  cases a with
  | create clockId event handle =>
    cases hq
    rcases create_cases p clockId event handle with ⟨q, e, hc, hs⟩ | ⟨q, i, hd, hc, hs⟩ <;> rw [hc]
    · exact h.skipped hs
    · exact h.created hs
  | delete hd =>
    cases hq
    exact h.delete hd
  | settime hd flags value =>
    cases hq
    exact h.settime hd flags value
  | gettime | getoverrun =>
    cases hq
    exact h
  | tick =>
    cases hq
    have ht := h.good.ticked (.ofNat 32 (p.ticks + 1))
    exact h.same (h.good.timerTick _) ht.slots (fun j => (ht.data j).2.1) (fun _ => rfl) (fun _ => rfl) h.active
  | serve => exact h.serve hq

theorem linked_run {as : List (TimerStep ε)} (h : run step init as = some p) : Linked p :=
  (path_iff_run.mpr h).invariant (fun _ _ _ hl _ hs => linked_step hl hs) linked_init

end

end PosixTimers

end Aixos.Posix
