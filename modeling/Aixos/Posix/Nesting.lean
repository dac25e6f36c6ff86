import Aixos.Posix.MutexOwners
import Mathlib.Data.List.Count

/-!
# How deep a recursive mutex nests

`aixos_pthread_mutex_t` counts in 16 bits how often a recursive mutex has been locked by its owner.

* `depth` — how often a thread has locked the mutex and not unlocked it since, by what its calls returned.
* `Nested` — the depth is what is counted, and the mutex is owned as long as it is not 0; `nested_move` — every step keeps
  that, if the counter does not wrap.
* `NestsTo n` — mutexes can be locked `n` times; `nestsTo_of_le`, `nests_iff` — exactly up to 65535 times.
-/

namespace Aixos.Posix

variable {κ δ ω γ : Type} {m m' : Mutex} {q q' : Thread → Part} {t u : Thread} {unlocks : Prop} {es es' : List LockEvent}

/-- How often a thread has locked the mutex and not unlocked it since. -/
def depth (t : Thread) (es : List LockEvent) : ℤ := es.count (.locked t) - es.count (.unlocked t)

theorem depth_append : depth t (es ++ es') = depth t es + depth t es' := by
  rw [depth, depth, depth, List.count_append, List.count_append]
  push_cast
  omega

/-- What is counted for a thread. -/
def Mutex.counted (m : Mutex) (q : Thread → Part) (t : Thread) : ℕ :=
  if m.owner = some t then m.lockCount.toNat
  else if m.native.owner = some t ∧ q t = .releasing then 1
  else 0

/-- The depth is what is counted, and an owner has locked the mutex. -/
structure Nested (m : Mutex) (q : Thread → Part) (d : Thread → ℤ) : Prop where
  mirrors : Mirrors m q
  recursive : m.type = .recursive
  positive : m.owner ≠ none → m.lockCount ≠ 0
  depth_eq : ∀ t, d t = m.counted q t

theorem depth_locked : depth u [.locked t] = if u = t then 1 else 0 := by
  by_cases hu : u = t
  · subst hu
    simp [depth]
  · simp [depth, hu, Ne.symm hu]

theorem depth_unlocked : depth u [.unlocked t] = if u = t then -1 else 0 := by
  by_cases hu : u = t
  · subst hu
    simp [depth]
  · simp [depth, hu, Ne.symm hu]

theorem counted_of_ne (h : Mirrors m q) (hn : m.native.owner ≠ some u) : m.counted q u = 0 := by
  rw [Mutex.counted, if_neg fun ho => hn (h.real u ho), if_neg fun ho => hn ho.1]

theorem counted_goto {p : Part} (hq : q t ≠ .releasing) (hp : p ≠ .releasing) :
    m.counted (Function.update q t p) u = m.counted q u := by
  have h : Function.update q t p u = .releasing ↔ q u = .releasing := by
    by_cases hu : u = t
    · subst hu
      rw [Function.update_self]
      exact iff_of_false hp hq
    · rw [Function.update_of_ne hu]
  simp only [Mutex.counted, h]

/-- A step of the owner is counted for the owner alone. -/
theorem Nested.mine {d : Thread → ℤ} {x : ℤ} (h : Nested m q d) (h' : Mirrors m' q') (hr : m'.type = .recursive)
    (hp : m'.owner ≠ none → m'.lockCount ≠ 0) (hown : ∀ u, u ≠ t → m.native.owner ≠ some u)
    (hown' : ∀ u, u ≠ t → m'.counted q' u = 0) (he : ∀ u, depth u es = if u = t then x else 0)
    (ht : (m.counted q t : ℤ) + x = m'.counted q' t) : Nested m' q' fun u => d u + depth u es := by
  refine ⟨h', hr, hp, fun u => ?_⟩
  rw [h.depth_eq u, he u]
  by_cases hu : u = t
  · subst hu
    rw [if_pos rfl]
    exact ht
  · rw [if_neg hu, counted_of_ne h.mirrors (hown u hu), hown' u hu]
    rfl

/-- A thread goes to another part, and nothing is observed. -/
theorem Nested.goto {d : Thread → ℤ} {p : Part} (h : Nested m q d) (h' : Mirrors m (Function.update q t p))
    (hq : q t ≠ .releasing) (hp : p ≠ .releasing) : Nested m (Function.update q t p) fun u => d u + depth u [] := by
  refine ⟨h', h.recursive, h.positive, fun u => ?_⟩
  rw [h.depth_eq u, counted_goto hq hp]
  rfl

/-- A move keeps the count, as long as it does not wrap. -/
theorem nested_move {d : Thread → ℤ} (h : Nested m q d) (hmax : ∀ u, d u + depth u es ≤ 65535)
    (hm : MutexMove t unlocks m q es m' q') : Nested m' q' fun u => d u + depth u es := by
  have hne : m.type ≠ .normal := by
    rw [h.recursive]
    decide
  have h' : Mirrors m' q' := mirrors_move h.mirrors (fun _ ht => absurd ht hne) hm
  have hnil : ∀ u, depth u [] = if u = t then 0 else 0 := fun u => by
    rw [ite_self]
    rfl
  cases hm with
  | stay =>
    refine ⟨h', h.recursive, h.positive, fun u => ?_⟩
    rw [h.depth_eq u]
    rfl
  | check hq ho => exact h.goto h' (by rw [hq]; decide) (by decide)
  | refused hq => exact h.goto h' (by rw [hq]; decide) (by decide)
  | block hq hn hn' => exact h.goto h' (by rw [hq]; decide) (by decide)
  | interrupted hq => exact h.goto h' (by rw [hq]; decide) (by decide)
  | fail hq => exact h.goto h' (by rw [hq]; decide) (by decide)
  | count hq hr ho =>
    have hn := h.mirrors.real t ho
    have hlt := hmax t
    rw [h.depth_eq t, Mutex.counted, if_pos ho, depth_locked, if_pos rfl] at hlt
    have hadd : (m.lockCount + 1).toNat = m.lockCount.toNat + 1 := by
      rw [BitVec.toNat_add_of_lt (by simp; omega)]
      rfl
    refine h.mine h' hr (fun _ h₀ => ?_) (fun v hv => native_ne hn hv) (fun v hv => counted_of_ne h' (native_ne hn hv))
      (fun v => depth_locked) ?_
    · have := congrArg BitVec.toNat h₀
      rw [hadd] at this
      cases this
    · rw [Mutex.counted, if_pos ho, Mutex.counted, if_pos ho, hadd]
      rfl
  | take hq hn =>
    have hnone : m.owner = none := by
      by_contra hne
      obtain ⟨v, hv⟩ := Option.ne_none_iff_exists'.mp hne
      exact absurd (hn.symm.trans (h.mirrors.real v hv)) nofun
    refine h.mine h' h.recursive (fun ho => absurd hnone ho) (fun v _ => by rw [hn]; nofun)
      (fun v hv => counted_of_ne h' (native_ne rfl hv)) hnil ?_
    rw [counted_of_ne h.mirrors (by rw [hn]; nofun), Mutex.counted, if_neg (by rw [hnone]; nofun),
      if_neg (by rw [Function.update_self]; nofun)]
    rfl
  | again hq hn => exact absurd hn ((h.mirrors.part hq).2 hne)
  | record hq =>
    obtain ⟨hn, hnone⟩ := h.mirrors.part hq
    refine h.mine h' h.recursive (fun _ => show (1 : BitVec 16) ≠ 0 by decide) (fun v hv => native_ne hn hv)
      (fun v hv => counted_of_ne h' (native_ne hn hv)) (fun v => depth_locked) ?_
    rw [Mutex.counted, if_neg (by rw [hnone hne]; nofun), if_neg (by rw [hq]; nofun), Mutex.counted, if_pos rfl]
    rfl
  | uncount _ hq hr ho hlt =>
    have hn := h.mirrors.real t ho
    have hlt : 1 < m.lockCount.toNat := BitVec.lt_def.mp hlt
    have hsub : (m.lockCount - 1).toNat = m.lockCount.toNat - 1 :=
      BitVec.toNat_sub_of_le (BitVec.le_def.mpr hlt.le)
    refine h.mine h' hr (fun _ h₀ => ?_) (fun v hv => native_ne hn hv) (fun v hv => counted_of_ne h' (native_ne hn hv))
      (fun v => depth_unlocked) ?_
    · have := congrArg BitVec.toNat h₀
      rw [hsub] at this
      exact absurd this (by simp; omega)
    · rw [Mutex.counted, if_pos ho, Mutex.counted, if_pos ho, hsub]
      omega
  | clear hun hq ho hr =>
    have ho := ho hne
    have hn := h.mirrors.real t ho
    have hle := hr h.recursive
    have hpos := h.positive (by rw [ho]; nofun)
    have hone : m.lockCount.toNat = 1 := by
      have h₁ : ¬ 1 < m.lockCount.toNat := fun hlt => hle (BitVec.lt_def.mpr hlt)
      have h₂ : m.lockCount.toNat ≠ 0 := fun h₀ => hpos (BitVec.eq_of_toNat_eq h₀)
      omega
    refine h.mine h' h.recursive (fun ho => absurd rfl ho) (fun v hv => native_ne hn hv)
      (fun v hv => counted_of_ne h' (native_ne hn hv)) hnil ?_
    rw [Mutex.counted, if_pos ho, hone, Mutex.counted, if_neg (by nofun), if_pos ⟨hn, Function.update_self ..⟩]
    rfl
  | notOwner hq hn =>
    refine ⟨h', h.recursive, h.positive, fun v => ?_⟩
    rw [h.depth_eq v]
    by_cases hv : v = t
    · subst hv
      rw [counted_of_ne h.mirrors hn, counted_of_ne h' hn]
      rfl
    · simp only [Mutex.counted, Function.update_of_ne hv]
      rfl
  | unlockOne hq hn hc =>
    rw [(h.mirrors.part hq hn).2] at hc
    exact absurd rfl hc
  | release hq hn hc hb =>
    have ho := (h.mirrors.part hq hn).1
    refine h.mine h' h.recursive (fun hne => absurd ho hne) (fun v hv => native_ne hn hv)
      (fun v _ => counted_of_ne h' nofun) (fun v => depth_unlocked) ?_
    rw [Mutex.counted, if_neg (by rw [ho]; nofun), if_pos ⟨hn, hq⟩, counted_of_ne h' nofun]
    rfl
  | pass u hq hn hc hb =>
    have ho := (h.mirrors.part hq hn).1
    have hzero : ∀ v, Mutex.counted { m with native := ⟨some u, 1⟩ }
        (Function.update (Function.update q u .took) t .out) v = 0 := fun v => by
      by_cases hv : v = u
      · subst hv
        have hvt : v ≠ t := by
          rintro rfl
          rw [hq] at hb
          cases hb
        rw [Mutex.counted, if_neg (by rw [ho]; nofun), if_neg]
        rw [Function.update_of_ne hvt, Function.update_self]
        nofun
      · exact counted_of_ne h' (native_ne rfl hv)
    refine h.mine h' h.recursive (fun hne => absurd ho hne) (fun v hv => native_ne hn hv) (fun v _ => hzero v)
      (fun v => depth_unlocked) ?_
    rw [Mutex.counted, if_neg (by rw [ho]; nofun), if_pos ⟨hn, hq⟩, hzero]
    rfl

namespace Monitor

open Transition

variable [DecidableEq κ] {P : Program κ δ ω γ} {data : δ} {s : Monitor κ δ γ} {as : List (Action ω)} {n : ℕ}

/-- A recursive mutex can be locked `n` times: in a run in which no thread locks it more often, a thread owns it from the
first lock on until it has unlocked it as often as it has locked it, and then no longer. -/
def NestsTo (P : Program κ δ ω γ) (data : δ) (n : ℕ) : Prop :=
  ∀ as s, run (step P) (init .recursive data) as = some s →
    (∀ es, es <+: trace (step P) lockTrace (init .recursive data) as → ∀ t, depth t es ≤ n) →
    ∀ t, (0 < depth t (trace (step P) lockTrace (init .recursive data) as) → s.Owns t) ∧
      (depth t (trace (step P) lockTrace (init .recursive data) as) ≤ 0 → (s.place t).outside = true → ¬ s.Owns t)

omit [DecidableEq κ] in
theorem nested_init (data : δ) : Nested (init .recursive data : Monitor κ δ γ).mutex
    (init .recursive data : Monitor κ δ γ).parts fun t => depth t [] :=
  ⟨mirrors_init .recursive data, rfl, fun h => absurd rfl h, fun _ => rfl⟩

/-- In a run that nests no deeper than the counter goes, the depth is what is counted. -/
theorem nested_of_run (hr : run (step P) (init .recursive data) as = some s)
    (hmax : ∀ es, es <+: trace (step P) lockTrace (init .recursive data) as → ∀ t, depth t es ≤ 65535) :
    Nested s.mutex s.parts fun t => depth t (trace (step P) lockTrace (init .recursive data) as) := by
  let I (s : Monitor κ δ γ) (es : List LockEvent) : Prop :=
    (∀ es', es' <+: es → ∀ t, depth t es' ≤ 65535) → Nested s.mutex s.parts fun t => depth t es
  have h : I s ([] ++ trace (step P) lockTrace (init .recursive data) as) := by
    refine (path_iff_run.mpr hr).traced (fun s a s' es ih _ hs hmax => ?_) fun _ => nested_init data
    have hn := ih fun es' hes => hmax es' (hes.trans (List.prefix_append ..))
    have hstep := nested_move hn (fun u => ?_) (step_mutexMove hs)
    · simpa only [depth_append] using hstep
    · rw [← depth_append]
      exact hmax _ (List.prefix_refl _) u
  exact h hmax

theorem nestsTo_of_le (P : Program κ δ ω γ) (data : δ) (h : n ≤ 65535) : NestsTo P data n := by
  intro as s hr hmax t
  have hn := nested_of_run hr fun es hes t => (hmax es hes t).trans (by omega)
  have ht := hn.depth_eq t
  rw [ht, Mutex.counted]
  constructor
  · intro hpos
    split at hpos
    case isTrue ho => exact hn.mirrors.real t ho
    case isFalse =>
      split at hpos
      case isTrue ho => exact ho.1
      case isFalse => exact absurd hpos (by decide)
  · intro hle hout hown
    have hq : s.parts t = .out := by
      rw [parts]
      cases hp : s.place t <;> rw [hp] at hout <;> first | rfl | cases hout
    have ho := hn.mirrors.part hq hown
    rw [if_pos ho] at hle
    exact hn.positive (by rw [ho]; rintro ⟨⟩) (BitVec.eq_of_toNat_eq (Nat.le_zero.mp (by exact_mod_cast hle)))

/-! ### Where the counter ends -/

/-- Thread 0 has locked the mutex `k` times. -/
def deep (k : ℕ) : Monitor Unit Unit (Option (Call Unit)) where
  mutex := ⟨⟨some 0, 1⟩, .recursive, some 0, .ofNat 16 k⟩
  cond _ := .init
  data := ()
  place _ := .idle 0
  suspended _ := false

theorem run_lockAgain (k : ℕ) : run (step (calls Unit)) (deep k) (callThrough 0 .lock 3) = some (deep (k + 1)) ∧
    trace (step (calls Unit)) lockTrace (deep k) (callThrough 0 .lock 3) = [.locked 0] := by
  constructor
  · simp [run, callThrough, go, step, exec, deep, goto, calls, Call.place, Outcome.place, LockReturn.place, BitVec.ofNat_add]
  · simp [trace, lockTrace, lockEvents, Action.runner, callThrough, go, step, exec, deep, goto, calls, Call.place, Outcome.place, LockReturn.place]

/-- Thread 0 locks the mutex `k + 1` times. -/
def lockDeep : ℕ → List (Action (Call Unit))
  | 0 => callThrough 0 .lock 5
  | k + 1 => lockDeep k ++ callThrough 0 .lock 3

theorem run_lockDeep (k : ℕ) : run (step (calls Unit)) (init .recursive ()) (lockDeep k) = some (deep (k + 1)) ∧
    trace (step (calls Unit)) lockTrace (init .recursive ()) (lockDeep k) = List.replicate (k + 1) (.locked 0) := by
  induction k with
  | zero =>
    constructor
    · simp [run, lockDeep, callThrough, go, step, exec, init, Mutex.init, deep, goto, calls, Call.place, Outcome.place,
        LockReturn.place]
    · simp [trace, lockTrace, lockEvents, Action.runner, lockDeep, callThrough, go, step, exec, init, Mutex.init, goto, calls,
        Call.place, Outcome.place, LockReturn.place]
  | succ k ih =>
    obtain ⟨hr, ht⟩ := run_lockAgain (k + 1)
    constructor
    · rw [lockDeep, run_append, ih.1]
      exact hr
    · rw [lockDeep, trace_append ih.1, ih.2, ht]
      exact List.replicate_succ'.symm

/-- The counter has wrapped: the first unlock releases the mutex. -/
theorem run_unlockDeep : ∃ s, run (step (calls Unit)) (deep 65536) (callThrough 0 .unlock 4) = some s ∧
    s.mutex.native.owner = none ∧
    trace (step (calls Unit)) lockTrace (deep 65536) (callThrough 0 .unlock 4) = [.unlocked 0] := by
  obtain ⟨s, hs, h⟩ := exists_run (step (calls Unit)) (deep 65536) (callThrough 0 .unlock 4)
    (fun s => decide (s.mutex.native.owner = none)) (by decide +kernel)
  exact ⟨s, hs, of_decide_eq_true h, by decide +kernel⟩

theorem depth_le_count (h : es <+: es') : depth t es ≤ es'.count (.locked t) := by
  have := h.sublist.count_le (.locked t)
  rw [depth]
  omega

theorem not_nestsTo (h : 65536 ≤ n) : ¬ NestsTo (calls Unit) () n := by
  intro hn
  obtain ⟨hr, ht⟩ := run_lockDeep 65535
  obtain ⟨s, hs, ho, ht'⟩ := run_unlockDeep
  have htrace : trace (step (calls Unit)) lockTrace (init .recursive ()) (lockDeep 65535 ++ callThrough 0 .unlock 4) =
      List.replicate 65536 (.locked 0) ++ [.unlocked 0] := by
    rw [trace_append hr, ht, ht']
  have hrun : run (step (calls Unit)) (init .recursive ()) (lockDeep 65535 ++ callThrough 0 .unlock 4) = some s := by
    rw [run_append, hr]
    exact hs
  have hdeep := (hn _ s hrun (fun es hes u => ?_) 0).1 ?_
  · exact absurd (hdeep.symm.trans ho) nofun
  · rw [htrace] at hes
    refine (depth_le_count hes).trans ?_
    have h₀ : List.count (.locked u) [LockEvent.unlocked 0] = 0 := by simp
    rw [List.count_append, List.count_replicate, h₀]
    split <;> omega
  · have h₀ : List.count (.unlocked 0) (List.replicate 65536 (LockEvent.locked 0)) = 0 := by
      rw [List.count_replicate]
      rfl
    rw [htrace, depth_append, depth_unlocked, if_pos rfl, depth, List.count_replicate_self, h₀]
    decide

/-- **Recursive mutexes nest**, but no deeper than their counter goes: locked more often, the mutex is released by an
unlock while its owner holds it. -/
theorem nests_iff (n : ℕ) : (∀ (κ δ ω γ : Type) [DecidableEq κ] (P : Program κ δ ω γ) (data : δ), NestsTo P data n) ↔
    n ≤ 65535 := by
  constructor
  · intro h
    by_contra hn
    exact not_nestsTo (by omega) (h _ _ _ _ (calls Unit) ())
  · intro h κ δ ω γ _ P data
    exact nestsTo_of_le P data h

/-- After 65536 locks and one unlock the mutex is free. -/
theorem deep_released : ¬ NestsTo (calls Unit) () 65536 := not_nestsTo le_rfl

end Monitor

end Aixos.Posix
