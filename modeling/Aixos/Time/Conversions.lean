import Aixos.Kernel.Clock
import Mathlib.Algebra.Order.Floor.Div
import Mathlib.GroupTheory.GroupAction.Ring
import Mathlib.Tactic.Ring

/-!
# Conversions of times

A time is a number of nanoseconds (`Timespec.ns`). The functions convert it to milliseconds, rounded up, with 64 bits
for what they compute on the way.

* `milliseconds_eq`, `relativeTimeout_eq`, `absoluteMs_eq` — what they compute, as numbers.
* `relativeExact_iff`, `msExact_iff`, `absoluteExact_iff`, `settimeExact_iff` — when that is what they are for.
* `conversions_iff` — all of them.
-/

namespace Aixos.Posix

/-- A time that the functions accept. -/
structure Timespec.Valid (t : Timespec) : Prop where
  sec_nonneg : 0 ≤ t.sec
  sec_lt : t.sec < 2 ^ 63
  nsec_nonneg : 0 ≤ t.nsec
  nsec_lt : t.nsec < 1000000000

/-- The nanoseconds of a time. -/
def Timespec.ns (t : Timespec) : ℤ := t.sec * 1000000000 + t.nsec

/-- Milliseconds, rounded up; 0 for a negative time. -/
def ceilMs (ns : ℤ) : ℕ := ns.toNat ⌈/⌉ 1000000

variable {t absolute now value : Timespec} {ns ns' : ℤ}

theorem ceilMs_eq (ns : ℤ) : ceilMs ns = (ns.toNat + 999999) / 1000000 := by
  rw [ceilMs, Nat.ceilDiv_eq_add_pred_div, Nat.add_sub_assoc (by decide)]

theorem ceilMs_mono (h : ns ≤ ns') : ceilMs ns ≤ ceilMs ns' := by
  rw [ceilMs_eq, ceilMs_eq]
  omega

/-- The milliseconds that are computed wrap. -/
theorem milliseconds_eq (h : t.Valid) : milliseconds t = ceilMs t.ns % 2 ^ 64 := by
  obtain ⟨h₁, -, h₂, -⟩ := h
  rw [milliseconds, ceilMs_eq, Timespec.ns]
  congr 1
  omega

/-- The difference to the time `now`, as it is computed: in seconds and nanoseconds. -/
theorem difference_eq (ha : absolute.Valid) (h₃ : 0 ≤ now.nsec) (h₄ : now.nsec < 1000000000) :
    let borrow := decide (absolute.nsec - now.nsec < 0)
    let seconds := absolute.sec - now.sec - if borrow then 1 else 0
    let nanoseconds := absolute.nsec - now.nsec + if borrow then 1000000000 else 0
    absolute.ns - now.ns = seconds * 1000000000 + nanoseconds ∧ 0 ≤ nanoseconds ∧ nanoseconds < 1000000000 := by
  obtain ⟨-, -, h₁, h₂⟩ := ha
  rw [Timespec.ns, Timespec.ns]
  by_cases hb : absolute.nsec - now.nsec < 0
  · simp only [hb, decide_true, if_true]
    omega
  · simp only [hb, decide_false, Bool.false_eq_true, if_false]
    omega

/-- What `relative_timeout` computes. -/
theorem relativeTimeout_eq (ha : absolute.Valid) (h₃ : 0 ≤ now.nsec) (h₄ : now.nsec < 1000000000) :
    relativeTimeout absolute now =
      some (.ofNat 32 (min (ceilMs (absolute.ns - now.ns) % 2 ^ 64) (2 ^ 32 - 2))) := by
  obtain ⟨hns, h₁, h₂⟩ := difference_eq ha h₃ h₄
  have hok : ¬ (absolute.sec < 0 ∨ absolute.nsec < 0 ∨ 1000000000 ≤ absolute.nsec) := by
    obtain ⟨h₁, -, h₂, h₃⟩ := ha
    omega
  unfold relativeTimeout
  rw [if_neg hok]
  dsimp only at hns h₁ h₂ ⊢
  generalize absolute.sec - now.sec - (if decide (absolute.nsec - now.nsec < 0) = true then 1 else 0) = seconds at *
  generalize absolute.nsec - now.nsec + (if decide (absolute.nsec - now.nsec < 0) = true then 1000000000 else 0) =
    nanoseconds at *
  rw [hns, ceilMs_eq]
  by_cases hs : seconds < 0
  · rw [if_pos hs, show (seconds * 1000000000 + nanoseconds).toNat = 0 by omega]
    rfl
  · rw [if_neg hs]
    have hm : seconds.toNat * 1000 + (nanoseconds.toNat + 999999) / 1000000 =
        ((seconds * 1000000000 + nanoseconds).toNat + 999999) / 1000000 := by omega
    rw [hm]
    generalize ((seconds * 1000000000 + nanoseconds).toNat + 999999) / 1000000 % 2 ^ 64 = m
    rw [show forever.toNat = 2 ^ 32 - 1 from rfl]
    by_cases hle : 2 ^ 32 - 1 ≤ m
    · rw [if_pos hle, Nat.min_eq_right (by omega)]
      rfl
    · rw [if_neg hle, Nat.min_eq_left (by omega)]

/-- What `timespec_to_ms` computes. -/
theorem timespecToMs_eq (h : value.Valid) : timespecToMs value =
    if 2 ^ 32 - 1 < ceilMs value.ns % 2 ^ 64 then none else some (.ofNat 32 (ceilMs value.ns % 2 ^ 64)) := by
  have hv : timespecValid value = true := decide_eq_true ⟨h.sec_nonneg, h.nsec_nonneg, h.nsec_lt⟩
  rw [timespecToMs, hv, milliseconds_eq h, if_neg (show ¬ (!true) = true by decide),
    show forever.toNat = 2 ^ 32 - 1 from rfl]

/-- What `aixos_timer_posix_settime` computes of an absolute time: a time that has passed is one millisecond away. -/
theorem absoluteMs_eq (ha : absolute.Valid) (hn : now.Valid) : absoluteMs absolute now =
    if (absolute.ns - now.ns).toNat % 2 ^ 64 = 0 then some 1
    else if (2 ^ 32 - 1) * 1000000 < (absolute.ns - now.ns).toNat % 2 ^ 64 then none
    else some (.ofNat 32 (((absolute.ns - now.ns).toNat % 2 ^ 64 + 999999) / 1000000)) := by
  obtain ⟨hns, h₁, h₂⟩ := difference_eq ha hn.nsec_nonneg hn.nsec_lt
  unfold absoluteMs
  dsimp only at hns h₁ h₂ ⊢
  generalize absolute.sec - now.sec - (if decide (absolute.nsec - now.nsec < 0) = true then 1 else 0) = seconds at *
  generalize absolute.nsec - now.nsec + (if decide (absolute.nsec - now.nsec < 0) = true then 1000000000 else 0) =
    nanoseconds at *
  rw [hns]
  by_cases hs : seconds < 0
  · rw [if_pos hs, if_pos (by rw [show (seconds * 1000000000 + nanoseconds).toNat = 0 by omega]; rfl)]
  · rw [if_neg hs, show seconds.toNat * 1000000000 + nanoseconds.toNat =
      (seconds * 1000000000 + nanoseconds).toNat by omega]
    rfl

/-! ### What they are for -/

/-- `relative_timeout` gives the milliseconds that are left, rounded up, and at most the longest finite timeout. -/
def RelativeExact (absolute now : Timespec) : Prop :=
  ∃ w, relativeTimeout absolute now = some w ∧ w.toNat = min (ceilMs (absolute.ns - now.ns)) (2 ^ 32 - 2)

/-- `timespec_to_ms` gives the milliseconds, rounded up, or an error. -/
def MsExact (value : Timespec) : Prop := ∀ w ∈ timespecToMs value, w.toNat = ceilMs value.ns

/-- The part of `aixos_timer_posix_settime` for absolute times gives the milliseconds that are left, rounded up, or an
error. -/
def AbsoluteExact (absolute now : Timespec) : Prop :=
  ∀ w ∈ absoluteMs absolute now, w.toNat = ceilMs (absolute.ns - now.ns)

/-- `aixos_timer_posix_settime` starts a timer for the times that it is given, in milliseconds, or gives an error. -/
def SettimeExact (flags : ℤ) (value : Itimerspec) (now : Timespec) : Prop :=
  ∀ r ∈ settimeMs flags value now,
    r.1.toNat = ceilMs (if flags = timerAbstime then value.value.ns - now.ns else value.value.ns) ∧
      r.2.toNat = ceilMs value.interval.ns

/-- The milliseconds that are left fit into 64 bits, or come out of range when they wrap. -/
def RelativeFits (absolute now : Timespec) : Prop :=
  ceilMs (absolute.ns - now.ns) < 2 ^ 64 ∨ 2 ^ 32 - 2 ≤ ceilMs (absolute.ns - now.ns) % 2 ^ 64

/-- The milliseconds are out of range, also when they wrap. -/
def MsRefused (value : Timespec) : Prop := 2 ^ 32 ≤ ceilMs value.ns % 2 ^ 64

/-- The milliseconds fit into 64 bits, or come out of range when they wrap. -/
def MsFits (value : Timespec) : Prop := MsRefused value ∨ ceilMs value.ns < 2 ^ 64

/-- The nanoseconds that are left are out of range, also when they wrap. -/
def AbsoluteRefused (absolute now : Timespec) : Prop :=
  (2 ^ 32 - 1) * 1000000 < (absolute.ns - now.ns).toNat % 2 ^ 64

/-- The time is still to come, and the nanoseconds that are left fit into 64 bits or come out of range when they wrap. -/
def AbsoluteFits (absolute now : Timespec) : Prop :=
  AbsoluteRefused absolute now ∨ (now.ns < absolute.ns ∧ absolute.ns - now.ns < 2 ^ 64)

/-- The time that `aixos_timer_posix_settime` is given is refused. -/
def ValueRefused (flags : ℤ) (value now : Timespec) : Prop :=
  if flags = timerAbstime then AbsoluteRefused value now else MsRefused value

/-- The time that `aixos_timer_posix_settime` is given can be converted. -/
def ValueFits (flags : ℤ) (value now : Timespec) : Prop :=
  if flags = timerAbstime then AbsoluteFits value now else MsFits value

/-- `aixos_timer_posix_settime` refuses one of its arguments, or both times can be converted. -/
def SettimeFits (flags : ℤ) (value : Itimerspec) (now : Timespec) : Prop :=
  (flags ≠ 0 ∧ flags ≠ timerAbstime) ∨ MsRefused value.interval ∨
    (value.value.ns ≠ 0 ∧ ValueRefused flags value.value now) ∨
      (MsFits value.interval ∧ (value.value.ns ≠ 0 → ValueFits flags value.value now))

theorem toNat_ofNat_of_lt {m : ℕ} (h : m < 2 ^ 32) : (BitVec.ofNat 32 m).toNat = m := by
  rw [BitVec.toNat_ofNat, Nat.mod_eq_of_lt h]

theorem relativeExact_iff (ha : absolute.Valid) (hn : now.Valid) :
    RelativeExact absolute now ↔ RelativeFits absolute now := by
  have heq := relativeTimeout_eq ha hn.nsec_nonneg hn.nsec_lt
  unfold RelativeExact RelativeFits
  rw [heq]
  generalize ceilMs (absolute.ns - now.ns) = m
  have hle : min (m % 2 ^ 64) (2 ^ 32 - 2) < 2 ^ 32 := by omega
  constructor
  · rintro ⟨w, hw, he⟩
    cases hw
    rw [toNat_ofNat_of_lt hle] at he
    omega
  · intro h
    refine ⟨_, rfl, ?_⟩
    rw [toNat_ofNat_of_lt hle]
    omega

/-- `timespec_to_ms` gives an error, or a number of milliseconds. -/
theorem timespecToMs_cases (h : value.Valid) : (timespecToMs value = none ∧ MsRefused value) ∨
    ∃ w, timespecToMs value = some w ∧ ¬ MsRefused value ∧ (w.toNat = ceilMs value.ns ↔ MsFits value) := by
  have heq := timespecToMs_eq h
  unfold MsFits MsRefused
  generalize ceilMs value.ns = m at *
  by_cases hm : 2 ^ 32 - 1 < m % 2 ^ 64
  · rw [if_pos hm] at heq
    exact .inl ⟨heq, by omega⟩
  · rw [if_neg hm] at heq
    refine .inr ⟨_, heq, by omega, ?_⟩
    rw [toNat_ofNat_of_lt (by omega)]
    omega

theorem msExact_iff (h : value.Valid) : MsExact value ↔ MsFits value := by
  unfold MsExact
  obtain ⟨heq, hr⟩ | ⟨w, heq, -, hiff⟩ := timespecToMs_cases h
  · rw [heq]
    exact iff_of_true (fun _ h => nomatch h) (.inl hr)
  · rw [heq, ← hiff]
    exact ⟨fun h => h w rfl, by rintro h _ ⟨⟩; exact h⟩

/-- The part of `aixos_timer_posix_settime` for absolute times gives an error, or a number of milliseconds. -/
theorem absoluteMs_cases (ha : absolute.Valid) (hn : now.Valid) :
    (absoluteMs absolute now = none ∧ AbsoluteRefused absolute now) ∨
      ∃ w, absoluteMs absolute now = some w ∧ ¬ AbsoluteRefused absolute now ∧
        (w.toNat = ceilMs (absolute.ns - now.ns) ↔ AbsoluteFits absolute now) := by
  have heq := absoluteMs_eq ha hn
  unfold AbsoluteFits AbsoluteRefused
  rw [ceilMs_eq]
  by_cases h₀ : (absolute.ns - now.ns).toNat % 2 ^ 64 = 0
  · rw [if_pos h₀] at heq
    refine .inr ⟨_, heq, by omega, ?_⟩
    rw [show (1 : Word).toNat = 1 from rfl]
    omega
  · rw [if_neg h₀] at heq
    by_cases hm : (2 ^ 32 - 1) * 1000000 < (absolute.ns - now.ns).toNat % 2 ^ 64
    · rw [if_pos hm] at heq
      exact .inl ⟨heq, hm⟩
    · rw [if_neg hm] at heq
      refine .inr ⟨_, heq, hm, ?_⟩
      rw [toNat_ofNat_of_lt (by omega)]
      omega

theorem absoluteExact_iff (ha : absolute.Valid) (hn : now.Valid) :
    AbsoluteExact absolute now ↔ AbsoluteFits absolute now := by
  unfold AbsoluteExact
  obtain ⟨heq, hr⟩ | ⟨w, heq, -, hiff⟩ := absoluteMs_cases ha hn
  · rw [heq]
    exact iff_of_true (fun _ h => nomatch h) (.inl hr)
  · rw [heq, ← hiff]
    exact ⟨fun h => h w rfl, by rintro h _ ⟨⟩; exact h⟩

/-- What `aixos_timer_posix_settime` makes of the time that it is given. -/
def valueMs (flags : ℤ) (value now : Timespec) : Option Word :=
  if flags = timerAbstime then absoluteMs value now else timespecToMs value

theorem valueMs_cases (flags : ℤ) (hv : value.Valid) (hn : now.Valid) :
    (valueMs flags value now = none ∧ ValueRefused flags value now) ∨
      ∃ w, valueMs flags value now = some w ∧ ¬ ValueRefused flags value now ∧
        (w.toNat = ceilMs (if flags = timerAbstime then value.ns - now.ns else value.ns) ↔
          ValueFits flags value now) := by
  unfold valueMs ValueRefused ValueFits
  by_cases hf : flags = timerAbstime
  · simpa only [if_pos hf] using absoluteMs_cases hv hn
  · simpa only [if_neg hf] using timespecToMs_cases hv

theorem ns_eq_zero_iff (h : t.Valid) : t.ns = 0 ↔ t.sec = 0 ∧ t.nsec = 0 := by
  obtain ⟨h₁, -, h₂, -⟩ := h
  rw [Timespec.ns]
  omega

theorem ns_nonneg (h : t.Valid) : 0 ≤ t.ns := by
  obtain ⟨h₁, -, h₂, -⟩ := h
  rw [Timespec.ns]
  omega

/-- What `aixos_timer_posix_settime` computes, once it has accepted its arguments. -/
theorem settimeMs_eq {flags : ℤ} {value : Itimerspec} (hv : value.value.Valid) (hi : value.interval.Valid)
    (hf : flags = 0 ∨ flags = timerAbstime) : settimeMs flags value now = (timespecToMs value.interval).bind fun i =>
      if value.value.ns = 0 then some (0, i) else (valueMs flags value.value now).map (·, i) := by
  have hok : ¬ ((flags ≠ 0 ∧ flags ≠ timerAbstime) ∨ (!timespecValid value.value) = true ∨
      (!timespecValid value.interval) = true) := by
    rw [timespecValid, timespecValid, decide_eq_true ⟨hv.sec_nonneg, hv.nsec_nonneg, hv.nsec_lt⟩,
      decide_eq_true ⟨hi.sec_nonneg, hi.nsec_nonneg, hi.nsec_lt⟩]
    tauto
  rw [settimeMs, if_neg hok]
  simp only [ns_eq_zero_iff hv]
  cases timespecToMs value.interval with
  | none => rfl
  | some i => rfl

theorem settimeExact_iff {flags : ℤ} {value : Itimerspec} (hv : value.value.Valid) (hi : value.interval.Valid)
    (hn : now.Valid) : SettimeExact flags value now ↔ SettimeFits flags value now := by
  unfold SettimeExact SettimeFits
  by_cases hf : flags = 0 ∨ flags = timerAbstime
  · have hf' : ¬ (flags ≠ 0 ∧ flags ≠ timerAbstime) := by tauto
    rw [settimeMs_eq hv hi hf]
    obtain ⟨hw, hr⟩ | ⟨i, hw, hr, hiff⟩ := timespecToMs_cases hi
    · rw [hw]
      exact iff_of_true (fun _ h => nomatch h) (.inr (.inl hr))
    · rw [hw, Option.bind_some]
      by_cases h₀ : value.value.ns = 0
      · -- the timer is stopped
        have hz : ceilMs (if flags = timerAbstime then value.value.ns - now.ns else value.value.ns) = 0 := by
          have := ns_nonneg hn
          rw [ceilMs_eq]
          split <;> omega
        rw [if_pos h₀]
        constructor
        · intro h
          exact .inr (.inr (.inr ⟨hiff.mp (h _ rfl).2, fun hne => (hne h₀).elim⟩))
        · rintro h _ ⟨⟩
          obtain h | h | h | h := h
          · exact (hf' h).elim
          · exact (hr h).elim
          · exact (h.1 h₀).elim
          · exact ⟨hz.symm, hiff.mpr h.1⟩
      · rw [if_neg h₀]
        obtain ⟨hv', hr'⟩ | ⟨w, hv', hr', hiff'⟩ := valueMs_cases flags hv hn
        · rw [hv']
          exact iff_of_true (fun _ h => nomatch h) (.inr (.inr (.inl ⟨h₀, hr'⟩)))
        · rw [hv', Option.map_some]
          constructor
          · intro h
            exact .inr (.inr (.inr ⟨hiff.mp (h _ rfl).2, fun _ => hiff'.mp (h _ rfl).1⟩))
          · rintro h _ ⟨⟩
            obtain h | h | h | ⟨hi', hv'⟩ := h
            · exact (hf' h).elim
            · exact (hr h).elim
            · exact (hr' h.2).elim
            · exact ⟨hiff'.mpr (hv' h₀), hiff.mpr hi'⟩
  · have hf' : flags ≠ 0 ∧ flags ≠ timerAbstime := by tauto
    rw [settimeMs, if_pos (.inl hf')]
    exact iff_of_true (fun _ h => nomatch h) (.inl hf')

/-- **Far-away times** are converted exactly, or refused, or cut to the longest finite timeout, exactly as long as what is
computed on the way fits into 64 bits, or wraps to something out of range. A time that has passed is one millisecond away for
`aixos_timer_posix_settime`. -/
theorem conversions_iff (hn : now.Valid) :
    (∀ absolute : Timespec, absolute.Valid → (RelativeExact absolute now ↔ RelativeFits absolute now)) ∧
    (∀ a b : Timespec, a.Valid → b.Valid → RelativeFits a now → RelativeFits b now → a.ns ≤ b.ns →
      ∃ v w, relativeTimeout a now = some v ∧ relativeTimeout b now = some w ∧ v ≤ w) ∧
    (∀ value : Timespec, value.Valid → (MsExact value ↔ MsFits value)) ∧
    (∀ absolute : Timespec, absolute.Valid → (AbsoluteExact absolute now ↔ AbsoluteFits absolute now) ∧
      (absolute.ns ≤ now.ns → absoluteMs absolute now = some 1)) ∧
    ∀ (flags : ℤ) (value : Itimerspec), value.value.Valid → value.interval.Valid →
      (SettimeExact flags value now ↔ SettimeFits flags value now) := by
  refine ⟨fun a ha => relativeExact_iff ha hn, fun a b ha hb hfa hfb hab => ?_, fun v hv => msExact_iff hv,
    fun a ha => ⟨absoluteExact_iff ha hn, fun hle => ?_⟩, fun flags value hv hi => settimeExact_iff hv hi hn⟩
  · obtain ⟨v, hv, hv'⟩ := (relativeExact_iff ha hn).mpr hfa
    obtain ⟨w, hw, hw'⟩ := (relativeExact_iff hb hn).mpr hfb
    have hmono := ceilMs_mono (show a.ns - now.ns ≤ b.ns - now.ns by omega)
    refine ⟨v, w, hv, hw, BitVec.le_def.mpr ?_⟩
    omega
  · rw [absoluteMs_eq ha hn, if_pos (by rw [show (a.ns - now.ns).toNat = 0 by omega]; rfl)]

theorem conversions_boot : (⟨0, 0⟩ : Timespec).Valid ∧
    (RelativeExact ⟨1, 1⟩ ⟨0, 0⟩ ↔ RelativeFits ⟨1, 1⟩ ⟨0, 0⟩) :=
  have hn : (⟨0, 0⟩ : Timespec).Valid := ⟨by decide, by decide, by decide, by decide⟩
  ⟨hn, (conversions_iff hn).1 ⟨1, 1⟩ ⟨by decide, by decide, by decide, by decide⟩⟩

/-- Times that are centuries away become 384 milliseconds, none and 291 milliseconds. -/
theorem conversions_wrap :
    (relativeTimeout ⟨18446744073709552, 0⟩ ⟨0, 0⟩ = some 384 ∧ ¬ RelativeExact ⟨18446744073709552, 0⟩ ⟨0, 0⟩) ∧
    (timespecToMs ⟨2 ^ 61, 0⟩ = some 0 ∧ ¬ MsExact ⟨2 ^ 61, 0⟩) ∧
    (absoluteMs ⟨18446744074, 0⟩ ⟨0, 0⟩ = some 291 ∧ ¬ AbsoluteExact ⟨18446744074, 0⟩ ⟨0, 0⟩) := by
  refine ⟨⟨by decide +kernel, ?_⟩, ⟨by decide +kernel, ?_⟩, ⟨by decide +kernel, ?_⟩⟩
  · rintro ⟨w, hw, he⟩
    rw [show relativeTimeout ⟨18446744073709552, 0⟩ ⟨0, 0⟩ = some 384 by decide +kernel] at hw
    cases hw
    exact absurd he (by rw [ceilMs_eq]; decide)
  · intro h
    exact absurd (h 0 (by decide +kernel)) (by rw [ceilMs_eq]; decide)
  · intro h
    exact absurd (h 291 (by decide +kernel)) (by rw [ceilMs_eq]; decide)

end Aixos.Posix
