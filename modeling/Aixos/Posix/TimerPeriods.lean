import Aixos.Posix.TimerExpiry

/-!
# Periods of POSIX timers

A periodic timer that fires late reports how many periods it has missed. Its next deadline is an interval after the tick at
which it has fired, so what is left of a period is lost each time; the account is right as long as these remainders do not
add up to a period.

* `history` — what is seen of one timer since it has been set.
* `Delays` — the delays with which it fires.
* `Accounts` — calls and overruns add up to the periods that have passed.
* `PosixTimers.follows_step` — the overruns that a run reports.
* `PosixTimers.accounts_iff` — when they add up.
-/

namespace Aixos.Posix

open Transition

/-- What is seen of timer `i` since it has been set: its first deadline, its interval, and for each time it has fired the
tick and the overrun. -/
def history {ε : Type} (i : ℕ) (es : List (TimerEvent ε)) : Option (ℕ × ℕ × List (ℕ × ℕ)) :=
  es.foldl (fun h e =>
    match e with
    | .arm k d n => if k = i then some (d, n, []) else h
    | .disarm k => if k = i then none else h
    | .fire k t o => if k = i then h.map fun (d, n, calls) => (d, n, calls ++ [(t, o)]) else h
    | .call _ _ _ => h) none

/-- A timer with interval `n` fires with these delays, the first time after deadline `d`. -/
def Delays (n : ℕ) : ℕ → List (ℕ × ℕ) → List ℕ → Prop
  | _, [], [] => True
  | d, (t, _) :: calls, l :: ls => t = d + l ∧ Delays n (t + n) calls ls
  | _, _, _ => False

/-- Calls and overruns, of which there have been `s` so far, add up to the periods that have passed since tick `d`, after
every call. -/
def Accounts (d n : ℕ) : ℕ → List (ℕ × ℕ) → Prop
  | _, [] => True
  | s, (t, o) :: calls => s + 1 + o = 1 + (t - d) / n ∧ Accounts d n (s + 1 + o) calls

/-! ### What is reported -/

/-- The overrun that a timer reports at tick `t`, for deadline `d`. -/
def reported (t d n : ℕ) : ℕ :=
  if tickReached (.ofNat 32 t) (.ofNat 32 d) then
    min int32Max ((BitVec.ofNat 32 t - BitVec.ofNat 32 d : Word) / .ofNat 32 n).toNat
  else 0

/-- Each time the timer reports its overrun. -/
def Reports (n : ℕ) : ℕ → List (ℕ × ℕ) → Prop
  | _, [] => True
  | d, (t, o) :: calls => o = reported t d n ∧ Reports n (t + n) calls

/-- The deadline in force after these calls. -/
def deadlineAfter (n : ℕ) : ℕ → List (ℕ × ℕ) → ℕ
  | d, [] => d
  | _, (t, _) :: calls => deadlineAfter n (t + n) calls

variable {d n t o : ℕ} {calls : List (ℕ × ℕ)} {ls : List ℕ}

theorem deadlineAfter_append : deadlineAfter n d (calls ++ [(t, o)]) = t + n := by
  induction calls generalizing d with
  | nil => rfl
  | cons c calls ih => exact ih

theorem reports_append : Reports n d (calls ++ [(t, o)]) ↔
    Reports n d calls ∧ o = reported t (deadlineAfter n d calls) n := by
  induction calls generalizing d with
  | nil => simp [Reports, deadlineAfter]
  | cons c calls ih =>
    obtain ⟨t', o'⟩ := c
    simp only [List.cons_append, Reports, deadlineAfter, ih, and_assoc]

/-- Less than half of the range of ticks is counted right. -/
theorem reported_eq (hn : n ≠ 0) (hle : n ≤ timeoutMaxTicks) (l : ℕ) :
    reported (d + l) d n ≤ l / n ∧ (reported (d + l) d n = l / n ↔ l < 2 ^ 31) := by
  unfold timeoutMaxTicks at hle
  have hsub : (BitVec.ofNat 32 (d + l) - BitVec.ofNat 32 d : Word).toNat = l % 2 ^ 32 := by
    rw [BitVec.toNat_sub, BitVec.toNat_ofNat, BitVec.toNat_ofNat]
    omega
  have hn' : (BitVec.ofNat 32 n : Word).toNat = n := by
    rw [BitVec.toNat_ofNat]
    omega
  have hpos : 0 < n := Nat.pos_of_ne_zero hn
  have hval : reported (d + l) d n = if l % 2 ^ 32 < 2 ^ 31 then l % 2 ^ 32 / n else 0 := by
    unfold reported
    rw [tickReached, BitVec.msb_eq_decide, hsub, BitVec.toNat_udiv, hsub, hn']
    by_cases hlt : l % 2 ^ 32 < 2 ^ 31
    · have hmin : l % 2 ^ 32 / n ≤ int32Max := Nat.le_trans (Nat.div_le_self ..) (by unfold int32Max; omega)
      rw [if_pos hlt, if_pos (by simp; omega), Nat.min_eq_right hmin]
    · rw [if_neg hlt, if_neg (by simp; omega)]
  rw [hval]
  have hmono : l % 2 ^ 32 / n ≤ l / n := Nat.div_le_div_right (Nat.mod_le ..)
  by_cases hl : l < 2 ^ 31
  · rw [Nat.mod_eq_of_lt (by omega : l < 2 ^ 32), if_pos hl]
    exact ⟨le_rfl, iff_of_true rfl hl⟩
  · -- a whole interval is missing
    have hlarge : l % 2 ^ 32 < 2 ^ 31 → l % 2 ^ 32 / n < l / n := by
      intro h
      have : l % 2 ^ 32 + n ≤ l := by omega
      calc l % 2 ^ 32 / n < l % 2 ^ 32 / n + 1 := Nat.lt_succ_self _
        _ = (l % 2 ^ 32 + n) / n := (Nat.add_div_right _ hpos).symm
        _ ≤ l / n := Nat.div_le_div_right this
    have hone : 0 < l / n := Nat.div_pos (by omega) hpos
    split
    · rename_i h
      have := hlarge h
      exact ⟨hmono, iff_of_false (by omega) hl⟩
    · exact ⟨Nat.zero_le _, iff_of_false (by omega) hl⟩

/-- What is reported adds up if and only if no delay is too long and the remainders do not make a period. -/
theorem accounts_of_reports (hn : n ≠ 0) (hle : n ≤ timeoutMaxTicks) {s r : ℕ} (hr : r < n)
    (hd : Delays n (d + s * n + r) calls ls) (ho : Reports n (d + s * n + r) calls) :
    Accounts d n s calls ↔ (∀ l ∈ ls, l < 2 ^ 31) ∧ r + (ls.map (· % n)).sum < n := by
  have hpos : 0 < n := Nat.pos_of_ne_zero hn
  induction calls generalizing s r ls with
  | nil =>
    cases ls with
    | nil => simpa [Accounts] using hr
    | cons l ls => exact hd.elim
  | cons c calls ih =>
    obtain ⟨t, o⟩ := c
    cases ls with
    | nil => exact hd.elim
    | cons l ls =>
      obtain ⟨rfl, hd⟩ := hd
      obtain ⟨rfl, ho⟩ := ho
      obtain ⟨hrep, hrep'⟩ := reported_eq (d := d + s * n + r) hn hle l
      set o := reported (d + s * n + r + l) (d + s * n + r) n with hod
      have hdiv : (d + s * n + r + l - d) / n = s + (r + l) / n := by
        rw [show d + s * n + r + l - d = r + l + s * n by omega, Nat.add_mul_div_right _ _ hpos, Nat.add_comm]
      have hlm := Nat.div_add_mod l n
      have hmod := Nat.mod_lt l hpos
      -- the remainder and the delay make one period more if the two remainders do
      have hcarry : (r + l) / n = if r + l % n < n then l / n else l / n + 1 := by
        split
        · rename_i h
          rw [← hlm, show r + (n * (l / n) + l % n) = r + l % n + n * (l / n) by omega, Nat.add_mul_div_left _ _ hpos,
            Nat.div_eq_of_lt h, hlm, Nat.zero_add]
        · rename_i h
          rw [← hlm, show r + (n * (l / n) + l % n) = r + l % n - n + n * (l / n + 1) by rw [Nat.mul_add]; omega,
            Nat.add_mul_div_left _ _ hpos, Nat.div_eq_of_lt (by omega), hlm, Nat.zero_add]
      simp only [Accounts, List.forall_mem_cons, List.map_cons, List.sum_cons, hdiv, hcarry]
      by_cases hfit : l < 2 ^ 31 ∧ r + l % n < n
      · have ho' := hrep'.mpr hfit.1
        rw [if_pos hfit.2, ho']
        have hnext : d + s * n + r + l + n = d + (s + 1 + l / n) * n + (r + l % n) := by
          rw [Nat.add_mul, Nat.add_mul, Nat.one_mul, Nat.mul_comm (l / n)]
          omega
        rw [hnext] at hd ho
        have hrest := ih hfit.2 hd ho
        constructor
        · rintro ⟨-, h⟩
          obtain ⟨h₁, h₂⟩ := hrest.mp h
          exact ⟨⟨hfit.1, h₁⟩, by omega⟩
        · rintro ⟨⟨-, h₁⟩, h₂⟩
          exact ⟨by omega, hrest.mpr ⟨h₁, by omega⟩⟩
      · refine iff_of_false (fun ⟨h, _⟩ => hfit ?_) fun ⟨⟨h₁, _⟩, h₂⟩ => hfit ⟨h₁, by omega⟩
        split at h
        · rename_i h'
          exact ⟨hrep'.mp (by omega), h'⟩
        · omega

/-! ### The timers -/

/-- One event more. -/
theorem history_append {ε : Type} (i : ℕ) (es : List (TimerEvent ε)) (e : TimerEvent ε) : history i (es ++ [e]) =
    match e with
    | .arm k d n => if k = i then some (d, n, []) else history i es
    | .disarm k => if k = i then none else history i es
    | .fire k t o => if k = i then (history i es).map fun (d, n, calls) => (d, n, calls ++ [(t, o)]) else history i es
    | .call _ _ _ => history i es := by
  unfold history
  rw [List.foldl_append]
  rfl

namespace PosixTimers

variable {ε : Type} [cfg : Config] [pcfg : PosixTimerConfig] [ocfg : ObjectConfig] {p q : PosixTimers ε} {i : ℕ}
  {es : List (TimerEvent ε)}

/-- Timer `i` has the interval and the deadline of its history, and the overruns are the reported ones. -/
def Follows (p : PosixTimers ε) (i : ℕ) (h : Option (ℕ × ℕ × List (ℕ × ℕ))) : Prop :=
  ∀ d n calls, h = some (d, n, calls) → (p.timers i).used = true ∧ (p.timers i).intervalTicks.toNat = n ∧
    n ≤ timeoutMaxTicks ∧
    (n ≠ 0 → (p.timers i).nextDeadline = .ofNat 32 (deadlineAfter n d calls) ∧ Reports n d calls)

omit cfg pcfg ocfg in
theorem Follows.frame {h : Option (ℕ × ℕ × List (ℕ × ℕ))} (hp : Follows p i h)
    (ht : (p.timers i).used = true → q.timers i = p.timers i) : Follows q i h := by
  intro d n calls e
  have hf := hp d n calls e
  rw [ht hf.1]
  exact hf

omit cfg pcfg ocfg in
/-- No event concerns timer `i`, which does not change. -/
theorem Follows.nothing (hp : Follows p i (history i es)) (ht : (p.timers i).used = true → q.timers i = p.timers i) :
    Follows q i (history i (es ++ [])) := by
  rw [List.append_nil]
  exact hp.frame ht

/-- A setting starts the history anew. -/
theorem Follows.settime (hl : Linked p) (hp : Follows p i (history i es)) (hd : BitVec 32) (flags : ℤ)
    (value : Option Itimerspec) :
    Follows (p.settime hd flags value).1 i (history i (es ++ p.events (.settime hd flags value))) := by
  cases ht : p.settimeTicks flags value with
  | none =>
    simp only [events, ht, settime_inval (.inl ht)]
    exact hp.nothing fun _ => rfl
  | some x =>
    cases hk : p.timerFromHandle hd with
    | none =>
      have hev : p.events (.settime hd flags value) = [] := by simp [events, hk]
      rw [hev, settime_inval (.inr hk)]
      exact hp.nothing fun _ => rfl
    | some k =>
      obtain ⟨ms, ticks, interval⟩ := x
      have hu := (timerFromHandle_eq_some.mp hk).2.2.2.1
      have hle := (settimeTicks_eq_some ht).2.2
      simp only [events, ht, hk]
      by_cases h₀ : ms = 0
      · subst h₀
        obtain ⟨j, natives, -, -, -, -, e⟩ := hl.settime_disarm ht hk
        rw [if_neg (by simp), history_append, e]
        dsimp only
        split
        · rintro _ _ _ ⟨⟩
        · rename_i hki
          exact hp.frame fun _ => by simp [setTimer, Ne.symm hki]
      · obtain ⟨j, natives, -, -, -, -, e⟩ := hl.settime_arm ht h₀ hk
        rw [if_pos h₀, history_append, e]
        dsimp only
        split
        · rename_i hki
          subst hki
          rintro _ _ _ ⟨⟩
          simp only [setTimer_self]
          exact ⟨hu, trivial, hle, fun _ => ⟨ofNat_add .., trivial⟩⟩
        · rename_i hki
          exact hp.frame fun _ => by simp [setTimer, Ne.symm hki]

/-- A deletion ends the history. -/
theorem Follows.delete (hl : Linked p) (hp : Follows p i (history i es)) (hd : BitVec 32) :
    Follows (p.delete hd).1 i (history i (es ++ p.events (.delete hd))) := by
  cases hk : p.timerFromHandle hd with
  | none =>
    simp only [events, hk]
    refine hp.nothing fun _ => ?_
    simp only [PosixTimers.delete, hk]
  | some k =>
    obtain ⟨j, natives, -, -, -, -, e⟩ := hl.delete_eq hk
    simp only [events, hk, history_append, e]
    split
    · rintro _ _ _ ⟨⟩
    · rename_i hki
      exact hp.frame fun _ => by simp [setTimer, Ne.symm hki]

omit pcfg ocfg in
/-- The next deadline is an interval after the tick at which the timer fires. -/
theorem Follows.fire {k : ℕ} {ms : Word} {event : Sigevent ε} (hs : Expired p q k ms event)
    (hp : Follows p i (history i es)) : Follows q i (history i (es ++ [.fire k p.ticks (q.timers k).overrun])) := by
  rw [history_append]
  dsimp only
  split
  · rename_i hki
    subst hki
    intro d n calls' h
    obtain ⟨⟨d, n, calls⟩, hh, ⟨⟩⟩ := Option.map_eq_some_iff.mp h
    obtain ⟨hu, hn, hle, hf⟩ := hp _ _ _ hh
    have ht := hs.timer
    split at ht
    · obtain ⟨ht, -⟩ := ht
      rw [ht]
      refine ⟨hu, hn, hle, fun hne => ?_⟩
      obtain ⟨hd, hr⟩ := hf hne
      rw [deadlineAfter_append, reports_append]
      refine ⟨by rw [← hn]; exact ofNat_add .., hr, ?_⟩
      show missed _ _ = _
      unfold missed reported
      rw [hd, ← hn, BitVec.ofNat_toNat, BitVec.setWidth_eq]
      rfl
    · rename_i hz
      rw [ht.1]
      refine ⟨hu, hn, hle, fun hne => absurd ?_ hne⟩
      rw [← hn, not_not.mp hz]
      rfl
  · rename_i hki
    exact hp.frame fun _ => hs.other i (Ne.symm hki)

theorem Follows.serve (hl : Linked p) (hp : Follows p i (history i es)) (hq : p.serve = some q) :
    Follows q i (history i (es ++ p.events .serve)) := by
  cases hph : p.phase with
  | idle =>
    obtain ⟨-, k, j, ht⟩ := hl.take hph hq
    simp only [events, hph]
    exact hp.nothing fun _ => by rw [ht.timers]
  | taken k =>
    simp only [events, hph]
    rcases serve_taken hph hq with ⟨-, he, rfl⟩ | ⟨r, ms, event, he, hr, hs⟩ <;> simp only [he]
    · exact hp.nothing fun _ => rfl
    · rw [hr]
      exact hp.fire hs
  | restart k ms event =>
    obtain ⟨-, hr, -⟩ := hl.restart hph hq
    simp only [events, hph]
    exact hp.nothing fun _ => by rw [hr.timers]
  | call k event =>
    simp only [PosixTimers.serve, hph] at hq
    cases hq
    have hcall : ∀ f : ε, Follows { p with phase := .idle } i (history i (es ++ [.call k p.ticks f])) := by
      intro f
      rw [history_append]
      exact hp.frame fun _ => rfl
    simp only [events, hph]
    split
    · split
      · exact hcall _
      · exact hp.nothing fun _ => rfl
    · exact hp.nothing fun _ => rfl

theorem follows_step {a : TimerStep ε} (hl : Linked p) (hp : Follows p i (history i es)) (hq : p.step a = some q) :
    Follows q i (history i (es ++ p.events a)) := by
  cases a with
  | create clockId event handle =>
    cases hq
    refine hp.nothing fun hu => ?_
    rcases create_cases p clockId event handle with ⟨q, e, hc, hs⟩ | ⟨q, k, hd, hc, hs⟩ <;> rw [hc]
    · exact (hs.timers i).resolve_right fun hn => by simp [hn.1] at hu
    · exact hs.other i (by rintro rfl; simp [hs.free] at hu)
  | delete hd =>
    cases hq
    exact hp.delete hl hd
  | settime hd flags value =>
    cases hq
    exact hp.settime hl hd flags value
  | gettime | getoverrun | tick =>
    cases hq
    exact hp.nothing fun _ => rfl
  | serve => exact hp.serve hl hq

/-- **Which delays are accounted for**: calls and overruns of a periodic timer add up to the periods that have passed if and
only if no delay is as long as half the range of ticks and what the delays leave of a period does not add up to a period. -/
theorem accounts_iff {as : List (TimerStep ε)} (h : run step init as = some p) (i : ℕ) {d n : ℕ} {calls : List (ℕ × ℕ)}
    (hh : history i (trace step events init as) = some (d, n, calls)) (hn : n ≠ 0) {ls : List ℕ} (hd : Delays n d calls ls) :
    Accounts d n 0 calls ↔ (∀ l ∈ ls, l < 2 ^ 31) ∧ (ls.map (· % n)).sum < n := by
  have hf : Linked p ∧ Follows p i (history i ([] ++ trace step events init as)) :=
    (path_iff_run.mpr h).traced (I := fun p es => Linked p ∧ Follows p i (history i es))
      (fun _ _ _ _ h _ hq => ⟨linked_step h.1 hq, follows_step h.1 h.2 hq⟩) ⟨linked_init, by rintro _ _ _ ⟨⟩⟩
  obtain ⟨-, -, hle, hr⟩ := hf.2 d n calls hh
  have hd' : Delays n (d + 0 * n + 0) calls ls := by simpa using hd
  have hr' : Reports n (d + 0 * n + 0) calls := by simpa using (hr hn).2
  simpa using accounts_of_reports hn hle (Nat.pos_of_ne_zero hn) hd' hr'

end PosixTimers

end Aixos.Posix

namespace Aixos.Posix.PosixTimers

open Transition

attribute [local instance] Config.default ObjectConfig.default PosixTimerConfig.default

/-- A timer is set to expire after five milliseconds, and then every three; it is served after these numbers of ticks. -/
def served (ticks : List ℕ) : List (TimerStep ℕ) :=
  [.create clockMonotonic (some { notify := sigevThread, function := some 7 }) true,
    .settime (handleMake 0 1) 0 (some { interval := ⟨0, 3000000⟩, value := ⟨0, 5000000⟩ })] ++
  ticks.flatMap fun k => List.replicate k .tick ++ List.replicate 4 .serve

theorem accounts_iff_on_time : Accounts 5 3 0 [(7, 0), (13, 1)] ↔
    (∀ l ∈ [2, 3], l < 2 ^ 31) ∧ ([2, 3].map (· % 3)).sum < 3 := by
  obtain ⟨p, hp, -⟩ := exists_run step (init : PosixTimers ℕ) (served [7, 6]) (fun _ => true) (by decide +kernel)
  exact accounts_iff hp 0 (by decide +kernel) (by decide) ⟨rfl, rfl, trivial⟩

/-- Deadline 5, interval 3: the timer is late by two ticks twice, and at tick 12 there have been three deadlines but only two
calls, without an overrun. -/
theorem loses_period : ∃ (p : PosixTimers ℕ) (d n : ℕ) (calls : List (ℕ × ℕ)), run step init (served [7, 5]) = some p ∧
    history 0 (trace step events init (served [7, 5])) = some (d, n, calls) ∧ n ≠ 0 ∧ Delays n d calls [2, 2] ∧
    ¬ Accounts d n 0 calls := by
  obtain ⟨p, hp, -⟩ := exists_run step (init : PosixTimers ℕ) (served [7, 5]) (fun _ => true) (by decide +kernel)
  refine ⟨p, 5, 3, [(7, 0), (12, 0)], hp, by decide +kernel, by decide, ⟨rfl, rfl, trivial⟩, ?_⟩
  simp [Accounts]

end Aixos.Posix.PosixTimers
