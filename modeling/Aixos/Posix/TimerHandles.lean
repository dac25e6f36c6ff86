import Aixos.Objects.StaleHandles
import Aixos.Posix.TimerLinks

/-!
# Handles of POSIX timers

A handle keeps 24 bits of a generation that is counted in 32, and is refused if it is negative. So a timer can be used if and
only if its generation is below 2^23; then its handle names it until it is deleted, and nothing after that.

* `handleMake_resolves_iff` — when a handle that has just been made names its timer.
* `PosixTimers.Accepts`, `Refuses` — what the functions do with a handle.
* `PosixTimers.slot_step` — how a step counts the generation of a timer.
* `PosixTimers.round_trip_iff` — the handle is as good as its generation.
-/

namespace Aixos.Posix

open Transition

/-! ### Generations in handles -/

theorem handleMake_msb (i : ℕ) (g : BitVec 32) : (handleMake i g).msb = g.getLsbD 23 := by
  simp [handleMake, BitVec.msb_eq_getLsbD_last]

theorem handleGen_lt (h : BitVec 32) : (handleGen h).toNat < 2 ^ 24 := by
  rw [handleGen, BitVec.toNat_and]
  exact Nat.lt_of_le_of_lt Nat.and_le_right (by decide)

/-- A generation survives the handle, and the handle is not negative, if the generation has 23 bits. -/
theorem handleMake_resolves_iff (i : ℕ) (g : BitVec 32) :
    ((handleMake i g).msb = false ∧ g = handleGen (handleMake i g)) ↔ g.toNat < 2 ^ 23 := by
  rw [handleMake_msb]
  constructor
  · rintro ⟨hbit, hg⟩
    have hlt : g.toNat < 2 ^ 24 := by
      rw [hg]
      exact handleGen_lt _
    by_contra hle
    have : g.getLsbD 23 = true := by
      rw [BitVec.getLsbD, Nat.testBit_eq_decide_div_mod_eq]
      simp only [decide_eq_true_eq]
      omega
    rw [hbit] at this
    cases this
  · intro hlt
    refine ⟨?_, (handleGen_handleMake (by omega)).symm⟩
    rw [BitVec.getLsbD]
    exact Nat.testBit_lt_two_pow hlt

/-- The generation after `k` creations, from one that is not zero. -/
theorem nextTimerGeneration_iterate {g : Word} (h : g ≠ 0) (k : ℕ) :
    (PosixTimers.nextTimerGeneration^[k] g).toNat = (g.toNat - 1 + k) % (2 ^ 32 - 1) + 1 := by
  have hpos : g.toNat ≠ 0 := fun e => h (BitVec.eq_of_toNat_eq e)
  have hlt := g.isLt
  induction k with
  | zero =>
    rw [Function.iterate_zero_apply, Nat.mod_eq_of_lt (by omega)]
    omega
  | succ k ih =>
    rw [Function.iterate_succ_apply', PosixTimers.nextTimerGeneration]
    set x := PosixTimers.nextTimerGeneration^[k] g with hx
    have hm : (g.toNat - 1 + k) % (2 ^ 32 - 1) < 2 ^ 32 - 1 := Nat.mod_lt _ (by decide)
    have hxs : (x + 1).toNat = (x.toNat + 1) % 2 ^ 32 := by rw [BitVec.toNat_add]; rfl
    rw [show g.toNat - 1 + (k + 1) = g.toNat - 1 + k + 1 from rfl, Nat.add_mod (g.toNat - 1 + k) 1]
    set m := (g.toNat - 1 + k) % (2 ^ 32 - 1) with hmd
    by_cases hz : x + 1 = 0
    · rw [if_pos hz]
      have : (x + 1).toNat = 0 := by rw [hz]; rfl
      have hmm : m = 2 ^ 32 - 2 := by omega
      rw [hmm]
      decide
    · rw [if_neg hz, hxs]
      have : (x + 1).toNat ≠ 0 := fun e => hz (BitVec.eq_of_toNat_eq e)
      rw [Nat.mod_eq_of_lt (a := m + 1 % (2 ^ 32 - 1)) (by omega)]
      omega

/-- A generation does not come back before it has been counted through all of its values. -/
theorem nextTimerGeneration_iterate_ne {g : Word} (h : g ≠ 0) {k : ℕ} (h₀ : 0 < k) (hk : k < 2 ^ 32 - 1) :
    PosixTimers.nextTimerGeneration^[k] g ≠ g := by
  intro e
  have h₁ := nextTimerGeneration_iterate h k
  have hpos : g.toNat ≠ 0 := fun e => h (BitVec.eq_of_toNat_eq e)
  have hlt := g.isLt
  rw [e] at h₁
  omega

theorem nextTimerGeneration_ne_zero (g : Word) : PosixTimers.nextTimerGeneration g ≠ 0 := by
  unfold PosixTimers.nextTimerGeneration
  split
  · decide
  · assumption

theorem nextTimerGeneration_ne (g : Word) : PosixTimers.nextTimerGeneration g ≠ g := by
  unfold PosixTimers.nextTimerGeneration
  split
  · rintro rfl
    contradiction
  · intro e
    have := congrArg BitVec.toNat e
    rw [BitVec.toNat_add] at this
    have := g.isLt
    simp at *

namespace PosixTimers

variable {ε : Type} [pcfg : PosixTimerConfig] [ocfg : ObjectConfig] [cfg : Config] {p q s : PosixTimers ε} {i : ℕ}
  {h : BitVec 32} {a : TimerStep ε}

/-! ### What the functions do with a handle -/

/-- Every function takes the handle for timer `i`. -/
structure Accepts (p : PosixTimers ε) (h : BitVec 32) (i : ℕ) : Prop where
  resolves : p.timerFromHandle h = some i
  gettime : p.gettime h true = (0, some (p.snapshot i))
  settime : ∀ flags value, p.settimeTicks flags value ≠ none → (p.settime h flags value).2 = (0, some (p.snapshot i))
  getoverrun : p.getoverrun h = (p.timers i).overrun
  delete : (p.delete h).2 = 0 ∧ ((p.delete h).1.timers i).used = false

/-- Every function refuses the handle. -/
structure Refuses (p : PosixTimers ε) (h : BitVec 32) : Prop where
  resolves : p.timerFromHandle h = none
  gettime : ∀ value, p.gettime h value = (Errno.inval, none)
  settime : ∀ flags value, p.settime h flags value = (p, Errno.inval, none)
  getoverrun : p.getoverrun h = -Errno.inval
  delete : p.delete h = (p, Errno.inval)

theorem Linked.accepts (hl : Linked p) (hi : p.timerFromHandle h = some i) : Accepts p h i where
  resolves := hi
  gettime := by simp [PosixTimers.gettime, hi]
  settime flags value ht := by
    obtain ⟨⟨ms, ticks, interval⟩, ht⟩ := Option.ne_none_iff_exists'.mp ht
    by_cases h₀ : ms = 0
    · subst h₀
      obtain ⟨_, _, -, -, -, -, e⟩ := hl.settime_disarm ht hi
      rw [e]
    · obtain ⟨_, _, -, -, -, -, e⟩ := hl.settime_arm ht h₀ hi
      rw [e]
  getoverrun := by simp [PosixTimers.getoverrun, hi]
  delete := by
    obtain ⟨_, _, -, -, -, -, e⟩ := hl.delete_eq hi
    rw [e]
    exact ⟨rfl, by simp [setTimer]⟩

theorem refuses (hi : p.timerFromHandle h = none) : Refuses p h where
  resolves := hi
  gettime value := by
    unfold PosixTimers.gettime
    split <;> simp [hi]
  settime flags value := settime_inval (.inr hi)
  getoverrun := by simp [PosixTimers.getoverrun, hi]
  delete := by simp [PosixTimers.delete, hi]

/-! ### How a step changes a timer's generation -/

/-- The step deletes timer `i`. -/
def Deletes (i : ℕ) (p : PosixTimers ε) (a : TimerStep ε) : Prop := ∃ h, a = .delete h ∧ p.timerFromHandle h = some i

omit pcfg in
/-- The service changes neither the generations nor which timers are in use. -/
theorem serve_slot (hl : Linked p) (hq : p.serve = some q) (i : ℕ) :
    (q.timers i).used = (p.timers i).used ∧ (q.timers i).generation = (p.timers i).generation := by
  cases hp : p.phase with
  | idle =>
    obtain ⟨-, j, k, ht⟩ := hl.take hp hq
    rw [ht.timers]
    exact ⟨rfl, rfl⟩
  | taken k =>
    simp only [serve, hp] at hq
    split at hq
    · cases hq
      exact ⟨rfl, rfl⟩
    · rename_i r ms event he
      cases hq
      obtain ⟨hu, -, t, rfl, htu, -, htg, -⟩ := expired_eq he
      by_cases hik : i = k
      · subst hik
        simp [setTimer, htu, hu, htg]
      · simp [setTimer, hik]
  | restart k ms event =>
    obtain ⟨-, hr, -⟩ := hl.restart hp hq
    rw [hr.timers]
    exact ⟨rfl, rfl⟩
  | call k event =>
    simp only [serve, hp] at hq
    cases hq
    exact ⟨rfl, rfl⟩

/-- A setting changes neither the generations nor which timers are in use. -/
theorem settime_slot (hl : Linked p) (h : BitVec 32) (flags : ℤ) (value : Option Itimerspec) (i : ℕ) :
    ((p.settime h flags value).1.timers i).used = (p.timers i).used ∧
      ((p.settime h flags value).1.timers i).generation = (p.timers i).generation := by
  cases ht : p.settimeTicks flags value with
  | none =>
    rw [settime_inval (.inl ht)]
    exact ⟨rfl, rfl⟩
  | some x =>
    cases hi : p.timerFromHandle h with
    | none =>
      rw [settime_inval (.inr hi)]
      exact ⟨rfl, rfl⟩
    | some k =>
      obtain ⟨ms, ticks, interval⟩ := x
      by_cases h₀ : ms = 0
      · subst h₀
        obtain ⟨_, _, -, -, -, -, e⟩ := hl.settime_disarm ht hi
        rw [e]
        by_cases hik : i = k <;> simp [setTimer, hik]
      · obtain ⟨_, _, -, -, -, -, e⟩ := hl.settime_arm ht h₀ hi
        rw [e]
        by_cases hik : i = k <;> simp [setTimer, hik]

/-- The generation of a timer that is not in use is counted, or it stays; only then can the timer come into use, and only
a deletion takes it out of use. -/
def SlotStep (i : ℕ) (p : PosixTimers ε) (a : TimerStep ε) (q : PosixTimers ε) : Prop :=
  ((q.timers i).generation = (p.timers i).generation ∧ ((q.timers i).used = true → (p.timers i).used = true) ∧
    (¬ Deletes i p a → (p.timers i).used = true → (q.timers i).used = true)) ∨
  (p.timers i).used = false ∧ (q.timers i).generation = nextTimerGeneration (p.timers i).generation

omit ocfg cfg in
theorem SlotStep.kept (h : (q.timers i).used = (p.timers i).used ∧ (q.timers i).generation = (p.timers i).generation) :
    SlotStep i p a q := .inl ⟨h.2, fun hu => h.1 ▸ hu, fun _ hu => h.1 ▸ hu⟩

theorem slot_step (hl : Linked p) (hq : p.step a = some q) (i : ℕ) : SlotStep i p a q := by
  cases a with
  | create clockId event handle =>
    rcases create_cases p clockId event handle with ⟨r, e, hc, hs⟩ | ⟨r, k, hd, hc, hs⟩
    · obtain rfl : r = q := by simpa [step, hc] using hq
      rcases hs.timers i with e | ⟨hu, -, -, -, hg⟩
      · exact .kept (by rw [e]; exact ⟨rfl, rfl⟩)
      · exact .inr ⟨hu, hg⟩
    · obtain rfl : r = q := by simpa [step, hc] using hq
      by_cases hik : i = k
      · subst hik
        exact .inr ⟨hs.free, hs.generation⟩
      · exact .kept (by rw [hs.other i hik]; exact ⟨rfl, rfl⟩)
  | delete h =>
    cases hi : p.timerFromHandle h with
    | none =>
      obtain rfl : p = q := by simpa [step, (refuses hi).delete] using hq
      exact .kept ⟨rfl, rfl⟩
    | some k =>
      obtain ⟨_, _, -, -, -, -, e⟩ := hl.delete_eq hi
      cases hq
      rw [e]
      by_cases hik : i = k
      · subst hik
        exact .inl ⟨by simp [setTimer], by simp [setTimer], fun hn => absurd ⟨h, rfl, hi⟩ hn⟩
      · exact .kept (by simp [setTimer, hik])
  | settime h flags value =>
    cases hq
    exact .kept (settime_slot hl h flags value i)
  | gettime | getoverrun | tick =>
    cases hq
    exact .kept ⟨rfl, rfl⟩
  | serve => exact .kept (serve_slot hl hq i)

/-! ### Runs -/

/-- The step counts the generation of timer `i`. -/
def counted (i : ℕ) (p : PosixTimers ε) (a : TimerStep ε) : List Unit :=
  match p.step a with
  | none => []
  | some q => if (q.timers i).generation = (p.timers i).generation then [] else [()]

theorem counted_eq (hq : p.step a = some q) (i : ℕ) :
    counted i p a = if (q.timers i).generation = (p.timers i).generation then [] else [()] := by
  unfold counted
  rw [hq]

/-- The generation has been counted as often as a step has counted it. -/
theorem generation_run {as : List (TimerStep ε)} (hl : Linked p) (hr : run step p as = some s) (i : ℕ) :
    (s.timers i).generation = nextTimerGeneration^[(trace step (counted i) p as).length] (p.timers i).generation := by
  induction as generalizing p with
  | nil =>
    cases hr
    rfl
  | cons a as ih =>
    obtain ⟨q, hq, hr⟩ := Option.bind_eq_some_iff.mp hr
    simp only [trace, hq, List.length_append]
    rw [Nat.add_comm, Function.iterate_add_apply, ih (linked_step hl hq) hr, counted_eq hq]
    rcases slot_step hl hq i with ⟨hg, -⟩ | ⟨-, hg⟩
    · rw [if_pos hg, hg]
      rfl
    · rw [if_neg (by rw [hg]; exact nextTimerGeneration_ne _), hg]
      rfl

/-- A timer that comes into use has been created, which has counted its generation. -/
theorem counted_of_used {as : List (TimerStep ε)} (hl : Linked p) (hu : (p.timers i).used = false)
    (hr : run step p as = some s) (hs : (s.timers i).used = true) : 0 < (trace step (counted i) p as).length := by
  induction as generalizing p with
  | nil =>
    cases hr
    rw [hu] at hs
    cases hs
  | cons a as ih =>
    obtain ⟨q, hq, hr⟩ := Option.bind_eq_some_iff.mp hr
    simp only [trace, hq, List.length_append]
    rcases slot_step hl hq i with ⟨-, hkeep, -⟩ | ⟨-, hg⟩
    · have hu' : (q.timers i).used = false := by
        by_contra hne
        rw [hkeep (Bool.not_eq_false _ ▸ hne)] at hu
        cases hu
      exact Nat.lt_of_lt_of_le (ih (linked_step hl hq) hu' hr) (Nat.le_add_left ..)
    · rw [counted_eq hq, if_neg (by rw [hg]; exact nextTimerGeneration_ne _), List.length_singleton]
      omega

/-- A timer that is not deleted stays in use, and keeps its generation. -/
theorem kept_run {as : List (TimerStep ε)} (hl : Linked p) (hu : (p.timers i).used = true)
    (hp : Path (Next step) (fun p a => ¬ Deletes i p a) p as s) :
    Linked s ∧ (s.timers i).used = true ∧ (s.timers i).generation = (p.timers i).generation := by
  refine hp.invariant (I := fun s => Linked s ∧ (s.timers i).used = true ∧ (s.timers i).generation = (p.timers i).generation)
    ?_ ⟨hl, hu, rfl⟩
  rintro s a s' ⟨hl, hu, hg⟩ hn hs
  refine ⟨linked_step hl hs, ?_⟩
  rcases slot_step hl hs i with ⟨hg', -, hkeep⟩ | ⟨hf, -⟩
  · exact ⟨hkeep hn hu, hg'.trans hg⟩
  · rw [hf] at hu
    cases hu

/-- The handle names its timer until that is deleted, and afterwards nothing, until the generation has been counted through
all of its values. -/
def RoundTrips (q : PosixTimers ε) (h : BitVec 32) : Prop :=
  (∀ as s, Path (Next step) (fun p a => ¬ Deletes (handleIdx h) p a) q as s → Accepts s h (handleIdx h)) ∧
  ∀ as a bs p s, run step q as = some p → Deletes (handleIdx h) p a → run step p (a :: bs) = some s →
    (trace step (counted (handleIdx h)) q (as ++ a :: bs)).length < 2 ^ 32 - 1 → Refuses s h

/-- **A handle is as good as its generation**: after every run, the handle that a creation makes names its timer until that is
deleted, and never again, if and only if the generation of the timer, counted once more, is below 2^23. -/
theorem round_trip_iff {as : List (TimerStep ε)} (hr : run step init as = some p) {clockId : ℤ}
    {event : Option (Sigevent ε)} {handle : Bool} {e : Errno} (hc : p.create clockId event handle = (q, e, some h)) :
    RoundTrips q h ↔ (nextTimerGeneration (p.timers (handleIdx h)).generation).toNat < 2 ^ 23 := by
  have hl : Linked p := linked_run hr
  rcases create_cases p clockId event handle with ⟨r, e', hc', -⟩ | ⟨r, i, hd, hc', hs⟩
  · rw [hc'] at hc
    cases hc
  · rw [hc'] at hc
    cases hc
    have hlq := hl.created hs
    have hidx : handleIdx h = i := by
      rw [hs.handle]
      exact handleIdx_handleMake (Nat.lt_of_lt_of_le hs.lt (Nat.le_trans pcfg.posixTimers_le (by decide))) _
    set g := nextTimerGeneration (p.timers i).generation with hg
    have hres := handleMake_resolves_iff i g
    rw [← hs.handle] at hres
    have hq : ∀ s : PosixTimers ε, (s.timers i).used = true → (s.timers i).generation = g →
        (s.timerFromHandle h = some i ↔ g.toNat < 2 ^ 23) := by
      intro s hu hgs
      rw [timerFromHandle_eq_some, hgs, ← hres]
      exact ⟨fun ⟨h₁, _, _, _, h₂⟩ => ⟨h₁, h₂⟩, fun ⟨h₁, h₂⟩ => ⟨h₁, hidx, hs.lt, hu, h₂⟩⟩
    unfold RoundTrips
    rw [hidx]
    constructor
    · rintro ⟨h₁, -⟩
      exact (hq q hs.used hs.generation).mp (h₁ [] q (.nil q)).resolves
    · intro hlt
      refine ⟨fun as s hp => ?_, fun as a bs m s hm hdel hs' hcount => refuses ?_⟩
      · obtain ⟨hls, hu, hgs⟩ := kept_run hlq hs.used hp
        exact hls.accepts ((hq s hu (hgs.trans hs.generation)).mpr hlt)
      · by_contra hne
        obtain ⟨k, hk⟩ := Option.ne_none_iff_exists'.mp hne
        obtain ⟨-, hki, -, hu, hgk⟩ := timerFromHandle_eq_some.mp hk
        obtain rfl : i = k := hidx.symm.trans hki
        rw [← (hres.mpr hlt).2] at hgk
        -- the generation is the same, so it has not been counted, but the timer has been created again
        have hrun : run step q (as ++ a :: bs) = some s := by
          rw [run_append, hm]
          exact hs'
        have hgen := generation_run hlq hrun i
        rw [hgk, hs.generation] at hgen
        have hpos : 0 < (trace step (counted i) q (as ++ a :: bs)).length := by
          rw [trace_append hm, List.length_append]
          obtain ⟨x, rfl, hx⟩ := hdel
          have hlm : Linked m := (path_iff_run.mpr hm).invariant (fun _ _ _ hl _ hs => linked_step hl hs) hlq
          obtain ⟨m', hm', hs'⟩ := Option.bind_eq_some_iff.mp hs'
          obtain ⟨_, _, -, -, -, -, e⟩ := hlm.delete_eq hx
          have hu' : (m'.timers i).used = false := by
            obtain rfl : _ = m' := Option.some.inj hm'
            rw [e]
            simp [setTimer]
          have := counted_of_used (linked_step hlm hm') hu' hs' hu
          simp only [trace, hm', List.length_append]
          omega
        exact nextTimerGeneration_iterate_ne (nextTimerGeneration_ne_zero _) hpos hcount hgen.symm

end PosixTimers

end Aixos.Posix

namespace Aixos.Posix.PosixTimers

open Transition

attribute [local instance] Config.default ObjectConfig.default PosixTimerConfig.default

/-- The first timer that is created. -/
theorem round_trip_first : ∃ q : PosixTimers Unit, init.create clockMonotonic none true = (q, 0, some (handleMake 0 1)) ∧
    RoundTrips q (handleMake 0 1) := by
  have hc : (init : PosixTimers Unit).create clockMonotonic none true =
      ((init.create clockMonotonic none true).1, 0, some (handleMake 0 1)) := rfl
  exact ⟨_, hc, (round_trip_iff (show run step init [] = some init from rfl) hc).mpr (by decide)⟩

/-- A timer is created and deleted, `n` times. -/
def cycles (n : ℕ) : List (TimerStep Unit) :=
  (List.range n).flatMap fun k => [.create clockMonotonic none true, .delete (handleMake 0 (.ofNat 32 (k + 1)))]

/-- No timer is in use, and the first one has been in use `n` times. -/
structure Cycled (p : PosixTimers Unit) (n : ℕ) : Prop where
  linked : Linked p
  unused : ∀ i, (p.timers i).used = false
  free : ∀ j, (p.natives.slots j).used = false
  generation : (p.timers 0).generation = .ofNat 32 n

variable {p : PosixTimers Unit} {n : ℕ}

theorem nextTimerGeneration_ofNat (hn : n + 1 < 2 ^ 32) : nextTimerGeneration (.ofNat 32 n) = .ofNat 32 (n + 1) := by
  have hs : (BitVec.ofNat 32 n : Word) + 1 = .ofNat 32 (n + 1) := (BitVec.ofNat_add ..).symm
  rw [nextTimerGeneration, hs, if_neg]
  intro e
  have := congrArg BitVec.toNat e
  rw [BitVec.toNat_ofNat, Nat.mod_eq_of_lt hn] at this
  cases this

/-- A creation takes the first timer. -/
theorem Cycled.create (h : Cycled p n) (hn : n + 1 < 2 ^ 32) : ∃ q,
    p.create clockMonotonic none true = (q, 0, some (handleMake 0 (.ofNat 32 (n + 1)))) ∧
      Created p q 0 (handleMake 0 (.ofNat 32 (n + 1))) := by
  have hfirst : ∀ (f : ℕ → Bool) (k : ℕ), (∀ i, f i = false) → (List.range (k + 1)).find? (fun i => !f i) = some 0 := by
    intro f k hf
    rw [List.range_succ_eq_map, List.find?_cons_of_pos (by simp [hf])]
  have hone : (p.create clockMonotonic none true).2.2 = some (handleMake 0 (.ofNat 32 (n + 1))) := by
    have ht := hfirst (fun i => (p.timers i).used) 15 h.unused
    have hs := hfirst (fun j => (p.natives.slots j).used) 31 h.free
    simp only [PosixTimers.create, eventValid]
    rw [if_neg (by decide), show PosixTimerConfig.posixTimers = 15 + 1 from rfl, ht]
    simp only [setTimer, TimerPool.timerCreate]
    rw [if_neg (by simp), show ObjectConfig.maxTimer = 31 + 1 from rfl, hs, h.generation, nextTimerGeneration_ofNat hn]
    simp
  rcases create_cases p clockMonotonic none true with ⟨q, e, hc, -⟩ | ⟨q, i, hd, hc, hs⟩
  · rw [hc] at hone
    cases hone
  · rw [hc] at hone
    cases hone
    have hidx : handleIdx (handleMake 0 (.ofNat 32 (n + 1))) = i := by
      conv_lhs => rw [hs.handle]
      exact handleIdx_handleMake (Nat.lt_of_lt_of_le hs.lt (by decide)) _
    rw [handleIdx_handleMake (by decide)] at hidx
    subst hidx
    exact ⟨q, hc, hs⟩

/-- A creation and a deletion. -/
theorem Cycled.next (h : Cycled p n) (hn : n + 1 < 2 ^ 23) : ∃ q,
    run step p [.create clockMonotonic none true, .delete (handleMake 0 (.ofNat 32 (n + 1)))] = some q ∧
      Cycled q (n + 1) := by
  obtain ⟨q, hc, hs⟩ := h.create (by omega)
  have hl := h.linked.created hs
  have hg : (q.timers 0).generation = .ofNat 32 (n + 1) := by
    rw [hs.generation, h.generation, nextTimerGeneration_ofNat (by omega)]
  have hlt : (BitVec.ofNat 32 (n + 1)).toNat < 2 ^ 23 := by
    rw [BitVec.toNat_ofNat]
    omega
  have hres : q.timerFromHandle (handleMake 0 (.ofNat 32 (n + 1))) = some 0 := by
    obtain ⟨hm, hgen⟩ := (handleMake_resolves_iff 0 (.ofNat 32 (n + 1))).mpr hlt
    exact timerFromHandle_eq_some.mpr ⟨hm, handleIdx_handleMake (by decide) _, hs.lt, hs.used, hg.trans hgen⟩
  obtain ⟨j, natives, hj, hdel, hslots, -, e⟩ := hl.delete_eq hres
  refine ⟨(q.delete (handleMake 0 (.ofNat 32 (n + 1)))).1, ?_, ?_⟩
  · simp [run, step, hc]
  · obtain ⟨x, type, hn, hx⟩ := hs.native
    obtain ⟨-, hxr, -, -, -, hother⟩ := TimerPool.timerCreate_eq hn
    have hjx : j = x.index := by
      unfold nativeOf at hj
      rw [hx, hxr] at hj
      exact (Option.some.inj hj).symm
    refine ⟨hl.delete _, fun i => ?_, fun k => ?_, ?_⟩ <;> rw [e]
    · by_cases hi : i = 0
      · simp [setTimer, hi]
      · simpa [setTimer, hi, hs.other i hi] using h.unused i
    · show (natives.slots k).used = false
      rw [hslots]
      by_cases hk : k = j
      · simp [hk]
      · rw [Function.update_of_ne hk, hother k (hjx ▸ hk)]
        exact h.free k
    · simpa [setTimer] using hg

theorem cycled (n : ℕ) (hn : n < 2 ^ 23) : ∃ p, run step init (cycles n) = some p ∧ Cycled p n := by
  induction n with
  | zero => exact ⟨init, rfl, linked_init, fun _ => rfl, fun _ => rfl, rfl⟩
  | succ n ih =>
    obtain ⟨p, hr, hp⟩ := ih (by omega)
    obtain ⟨q, hq, hc⟩ := hp.next hn
    refine ⟨q, ?_, hc⟩
    rw [cycles, List.range_succ, List.flatMap_append, run_append]
    show (run step init (cycles n)).bind _ = some q
    rw [hr]
    simpa using hq

/-- The timer is created once more after 2^23 - 1 creations: its handle is refused. -/
theorem worn_out : ∃ p q h, run step init (cycles (2 ^ 23 - 1)) = some p ∧
    p.create clockMonotonic none true = (q, 0, some h) ∧ (q.timers 0).used = true ∧ Refuses q h ∧ ¬ RoundTrips q h := by
  obtain ⟨p, hr, hp⟩ := cycled (2 ^ 23 - 1) (by decide)
  obtain ⟨q, hc, hs⟩ := hp.create (by decide)
  have hno : q.timerFromHandle (handleMake 0 (.ofNat 32 (2 ^ 23 - 1 + 1))) = none := by
    unfold timerFromHandle
    exact if_pos (by decide)
  refine ⟨p, q, _, hr, hc, hs.used, refuses hno, fun hrt => ?_⟩
  have := (hrt.1 [] q (.nil q)).resolves
  rw [hno] at this
  cases this

end Aixos.Posix.PosixTimers
