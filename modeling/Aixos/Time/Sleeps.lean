import Aixos.Core.Deadlines
import Aixos.Time.Conversions
import Aixos.Time.Remaining

/-!
# How long a sleep is

A request passes through milliseconds and ticks before it becomes the tick at which the task is to be woken.

* `SleepCall.ticks` — what is asked for, in ticks; `SleepCall.Valid` — what may be asked for.
* `Lasts` — the sleep lasts so long, and ends.
* `taskSleep_lasts_iff` — what a sleep of so many milliseconds lasts.
* `SleepCall.Fits` — what can be asked for; `sleeps_iff` — exactly then the sleep is as long as was asked for.
-/

namespace Aixos.Posix

open OrderedQueue

section

variable [cfg : Config]

/-- The time that is asked for, in ticks, rounded up. -/
def SleepCall.ticks (f : SleepCall) (now : Timespec) : ℕ :=
  match f with
  | .nanosleep request => (request.ns.toNat * cfg.systickHz) ⌈/⌉ 1000000000
  | .clockNanosleep _ absolute request =>
    ((if absolute then request.ns - now.ns else request.ns).toNat * cfg.systickHz) ⌈/⌉ 1000000000
  | .usleep microseconds => (microseconds.toNat * cfg.systickHz) ⌈/⌉ 1000000

/-- The function is given a valid time. -/
def SleepCall.Valid : SleepCall → Prop
  | .nanosleep request => request.Valid
  | .clockNanosleep _ _ request => request.Valid
  | .usleep _ => True

/-- A call gave an error, and did nothing, or the task sleeps for so many ticks: it is to be woken when they have passed, or
later. Only a sleep of no ticks is over at once. -/
def Lasts (k : Kernel) (ticks : ℕ) : Option (Kernel × Aixos.Outcome) → Prop
  | none => True
  | some (k', .ret (.code e)) => if e = Code.ok then ticks = 0 else k' = k
  | some (k', .wait fr) => fr.timeoutMs ≠ forever ∧ ∃ t, k.core.cur = some t ∧
      (k'.core.tasks t).wait = some .delay ∧ t ∈ k'.core.timeoutList ∧
      ticks ≤ ((k'.core.tasks t).wakeTick - k.core.getTick).toNat ∧
      ((k'.core.tasks t).wakeTick - k.core.getTick).toNat ≤ timeoutMaxTicks
  | _ => False

/-- A task runs that may block. -/
structure MayBlock (k : Kernel) : Prop where
  cur : k.core.cur ≠ none
  inIsr : k.core.inIsr = false
  unlocked : k.core.schedIsLocked = false

variable {k : Kernel} {ms : Word} {n : ℕ}

theorem msToTicks_ne_forever (hf : ms ≠ forever) : msToTicks ms ≠ forever := by
  intro h
  have hle := msToTicks_le hf
  rw [h] at hle
  exact absurd hle (by decide)

theorem msToTicks_zero : msToTicks 0 = 0 := by
  apply BitVec.eq_of_toNat_eq
  rw [msToTicks_toNat (by decide)]
  simp

omit cfg in
theorem lasts_wait {k' : Kernel} {fr : Frame} : Lasts k n (some (k', .wait fr)) ↔ fr.timeoutMs ≠ forever ∧
    ∃ t, k.core.cur = some t ∧ (k'.core.tasks t).wait = some .delay ∧ t ∈ k'.core.timeoutList ∧
      n ≤ ((k'.core.tasks t).wakeTick - k.core.getTick).toNat ∧
      ((k'.core.tasks t).wakeTick - k.core.getTick).toNat ≤ timeoutMaxTicks := Iff.rfl

/-- A sleep of no milliseconds is over at once. -/
theorem taskSleep_zero (hi : k.core.inIsr = false) : Lasts k n (some (k.taskSleep 0)) ↔ n = 0 := by
  rw [Kernel.taskSleep, if_neg (by rw [hi]; decide), if_pos rfl, Kernel.taskYield, if_neg (by rw [hi]; decide)]
  exact Iff.rfl

/-- The tick at which a task is to be woken that goes to sleep. -/
theorem blockTask_wake (c : Core) (t : TaskId) (w : Wait) (hf : ms ≠ forever) :
    ((c.blockTask t w ms).tasks t).wakeTick - c.getTick = msToTicks ms := by
  obtain ⟨-, -, hwake, -⟩ := Core.blockTask_times c t w ms
  rw [hwake (msToTicks_ne_forever hf), BitVec.add_comm, BitVec.add_sub_cancel]

/-- A sleep that has an end lasts for its ticks. -/
theorem blockTask_lasts {t : TaskId} (hc : k.core.cur = some t) (hf : ms ≠ forever) (hn : n ≤ (msToTicks ms).toNat) :
    Lasts k n (some ({ k with core := k.core.blockTask t .delay ms }, .wait { pending := .result, timeoutMs := ms })) := by
  rw [lasts_wait]
  dsimp only
  refine ⟨hf, t, hc, (Core.blockTask_self ..).1, ?_, ?_, ?_⟩
  · obtain ⟨-, -, -, hlist⟩ := Core.blockTask_times k.core t .delay ms
    rw [hlist, if_neg (msToTicks_ne_forever hf)]
    exact mem_insertBefore.mpr (.inl rfl)
  · rw [blockTask_wake _ _ _ hf]
    exact hn
  · rw [blockTask_wake _ _ _ hf]
    exact msToTicks_le hf

theorem taskSleep_lasts (hf : ms ≠ forever) (hn : n ≤ (msToTicks ms).toNat) : Lasts k n (some (k.taskSleep ms)) := by
  by_cases hi : k.core.inIsr
  · rw [Kernel.taskSleep, if_pos hi]
    rfl
  by_cases h₀ : ms = 0
  · subst h₀
    rw [taskSleep_zero (by simpa using hi)]
    rw [msToTicks_zero] at hn
    exact Nat.le_zero.mp hn
  rw [Kernel.taskSleep, if_neg hi, if_neg h₀, Kernel.block, Core.taskBlockCurrent]
  cases hc : k.core.cur with
  | none => rfl
  | some t =>
    dsimp only
    rw [if_neg hi]
    by_cases hl : k.core.schedIsLocked
    · rw [if_pos hl]
      rfl
    · rw [if_neg hl]
      exact blockTask_lasts hc hf hn

/-- **A sleep of so many milliseconds** lasts as long as they do in ticks. -/
theorem taskSleep_lasts_iff (hk : MayBlock k) :
    Lasts k n (some (k.taskSleep ms)) ↔ ms ≠ forever ∧ n ≤ (msToTicks ms).toNat := by
  refine ⟨fun h => ?_, fun ⟨hf, hn⟩ => taskSleep_lasts hf hn⟩
  obtain ⟨t, hc⟩ := Option.ne_none_iff_exists'.mp hk.cur
  by_cases h₀ : ms = 0
  · subst h₀
    rw [taskSleep_zero hk.inIsr] at h
    exact ⟨by decide, by omega⟩
  · have he : k.taskSleep ms =
        ({ k with core := k.core.blockTask t .delay ms }, .wait { pending := .result, timeoutMs := ms }) := by
      rw [Kernel.taskSleep, if_neg (by rw [hk.inIsr]; decide), if_neg h₀, Kernel.block, Core.taskBlockCurrent, hc]
      dsimp only
      rw [if_neg (by rw [hk.inIsr]; decide), if_neg (by rw [hk.unlocked]; decide)]
    rw [he, lasts_wait] at h
    obtain ⟨hf, t', hc', -, -, hle, -⟩ := h
    obtain rfl : t = t' := Option.some.inj (hc.symm.trans hc')
    rw [blockTask_wake _ _ _ hf] at hle
    exact ⟨hf, hle⟩

/-! ### From a request to milliseconds -/

/-- What can be asked for. -/
def SleepCall.Fits (f : SleepCall) (now : Timespec) : Prop :=
  match f with
  | .nanosleep request =>
    MsRefused request ∨ (ceilMs request.ns ≤ 2 ^ 32 - 2 ∧ f.ticks now ≤ timeoutMaxTicks)
  | .clockNanosleep clockId absolute request =>
    clockId ≠ clockMonotonic ∨
      if absolute then f.ticks now ≤ timeoutMaxTicks ∧ f.ticks now ≤ ((2 ^ 32 - 2) * cfg.systickHz) ⌈/⌉ 1000
      else MsRefused request ∨ (ceilMs request.ns ≤ 2 ^ 32 - 2 ∧ f.ticks now ≤ timeoutMaxTicks)
  | .usleep microseconds => microseconds.toNat + 999 < 2 ^ 32 ∧ f.ticks now ≤ timeoutMaxTicks

/-- The ticks of a time do not exceed those of its milliseconds. -/
theorem ticks_le_of_ms {x : ℕ} {ms : Word} (hf : ms ≠ forever) (hx : x ≤ ms.toNat * 1000000)
    (hmax : (x * cfg.systickHz) ⌈/⌉ 1000000000 ≤ timeoutMaxTicks) :
    (x * cfg.systickHz) ⌈/⌉ 1000000000 ≤ (msToTicks ms).toNat := by
  rw [msToTicks_toNat hf]
  have hle := Nat.mul_le_mul_right cfg.systickHz hx
  rw [show ms.toNat * 1000000 * cfg.systickHz = ms.toNat * cfg.systickHz * 1000000 by ring] at hle
  rw [Nat.ceilDiv_eq_add_pred_div] at hmax ⊢
  split
  all_goals omega

/-- A time of more than 64 bits is longer than the longest sleep. -/
theorem max_lt_ticks {x : ℤ} (h : 2 ^ 64 ≤ ceilMs x) :
    timeoutMaxTicks < (x.toNat * cfg.systickHz) ⌈/⌉ 1000000000 := by
  rw [ceilMs_eq] at h
  have hle := Nat.mul_le_mul_left x.toNat cfg.systickHz_pos
  rw [Nat.ceilDiv_eq_add_pred_div, timeoutMaxTicks]
  omega

omit cfg in
theorem ne_forever_iff : ms ≠ forever ↔ ms.toNat ≠ 2 ^ 32 - 1 := by
  rw [ne_eq, BitVec.toNat_inj.symm]
  rfl

theorem nanosleepMs_fits {request : Timespec} (hv : request.Valid) :
    (∀ ms ∈ nanosleepMs request, ms ≠ forever ∧
      (request.ns.toNat * cfg.systickHz) ⌈/⌉ 1000000000 ≤ (msToTicks ms).toNat) ↔
    MsRefused request ∨
      (ceilMs request.ns ≤ 2 ^ 32 - 2 ∧ (request.ns.toNat * cfg.systickHz) ⌈/⌉ 1000000000 ≤ timeoutMaxTicks) := by
  have heq : nanosleepMs request = if 2 ^ 32 - 1 < ceilMs request.ns % 2 ^ 64 then none
      else some (.ofNat 32 (ceilMs request.ns % 2 ^ 64)) := by
    have hok : ¬ (request.sec < 0 ∨ request.nsec < 0 ∨ 1000000000 ≤ request.nsec) := by
      obtain ⟨h₁, -, h₂, h₃⟩ := hv
      omega
    rw [nanosleepMs, if_neg hok, milliseconds_eq hv]
    rfl
  have hx : request.ns.toNat ≤ ceilMs request.ns * 1000000 := by
    rw [ceilMs_eq]
    omega
  rw [heq, MsRefused]
  by_cases hr : 2 ^ 32 - 1 < ceilMs request.ns % 2 ^ 64
  · rw [if_pos hr]
    exact iff_of_true (fun _ h => nomatch h) (.inl (by omega))
  rw [if_neg hr]
  have hms := toNat_ofNat_of_lt (show ceilMs request.ns % 2 ^ 64 < 2 ^ 32 by omega)
  constructor
  · intro h
    obtain ⟨hf, hle⟩ := h _ rfl
    have hmax := hle.trans (msToTicks_le hf)
    rw [ne_forever_iff, hms] at hf
    -- what has wrapped is far too long
    have hlt : ceilMs request.ns < 2 ^ 64 := by
      by_contra hge
      exact absurd (max_lt_ticks (not_lt.mp hge)) (not_lt.mpr hmax)
    exact .inr ⟨by omega, hmax⟩
  · rintro (h | ⟨hm, hmax⟩) _ ⟨⟩
    · omega
    · rw [Nat.mod_eq_of_lt (by omega)] at hms ⊢
      have hf : BitVec.ofNat 32 (ceilMs request.ns) ≠ forever := by
        rw [ne_forever_iff, hms]
        omega
      refine ⟨hf, ticks_le_of_ms hf ?_ hmax⟩
      rw [hms]
      exact hx

theorem relativeTimeout_fits {absolute now : Timespec} (hv : absolute.Valid) (h₁ : 0 ≤ now.nsec)
    (h₂ : now.nsec < 1000000000) : let n := ((absolute.ns - now.ns).toNat * cfg.systickHz) ⌈/⌉ 1000000000
    (∀ ms ∈ relativeTimeout absolute now, ms ≠ forever ∧ n ≤ (msToTicks ms).toNat) ↔
      n ≤ timeoutMaxTicks ∧ n ≤ ((2 ^ 32 - 2) * cfg.systickHz) ⌈/⌉ 1000 := by
  dsimp only
  rw [relativeTimeout_eq hv h₁ h₂]
  have hms := toNat_ofNat_of_lt (show min (ceilMs (absolute.ns - now.ns) % 2 ^ 64) (2 ^ 32 - 2) < 2 ^ 32 by omega)
  have hf : BitVec.ofNat 32 (min (ceilMs (absolute.ns - now.ns) % 2 ^ 64) (2 ^ 32 - 2)) ≠ forever := by
    rw [ne_forever_iff, hms]
    omega
  have hx : (absolute.ns - now.ns).toNat ≤ ceilMs (absolute.ns - now.ns) * 1000000 := by
    rw [ceilMs_eq]
    omega
  constructor
  · intro h
    obtain ⟨-, hle⟩ := h _ rfl
    have hmax := hle.trans (msToTicks_le hf)
    refine ⟨hmax, hle.trans ?_⟩
    rw [msToTicks_toNat hf, hms, Nat.ceilDiv_eq_add_pred_div]
    have hm := Nat.mul_le_mul_right cfg.systickHz
      (Nat.min_le_right (ceilMs (absolute.ns - now.ns) % 2 ^ 64) (2 ^ 32 - 2))
    have hone : 1 ≤ (2 ^ 32 - 2) * cfg.systickHz := Nat.mul_pos (by decide) cfg.systickHz_pos
    generalize (2 ^ 32 - 2) * cfg.systickHz = b at hm hone ⊢
    generalize min (ceilMs (absolute.ns - now.ns) % 2 ^ 64) (2 ^ 32 - 2) * cfg.systickHz = a at hm ⊢
    refine (Nat.min_le_right ..).trans ?_
    split
    · omega
    · omega
  · rintro ⟨hmax, hcap⟩ _ ⟨⟩
    refine ⟨hf, ?_⟩
    have hlt : ceilMs (absolute.ns - now.ns) < 2 ^ 64 := by
      by_contra hge
      exact absurd (max_lt_ticks (not_lt.mp hge)) (not_lt.mpr hmax)
    rw [Nat.mod_eq_of_lt hlt] at hf hms ⊢
    obtain hm | hm := Nat.le_total (ceilMs (absolute.ns - now.ns)) (2 ^ 32 - 2)
    · refine ticks_le_of_ms hf ?_ hmax
      rw [hms, Nat.min_eq_left hm]
      exact hx
    · rw [msToTicks_toNat hf, hms, Nat.min_eq_right hm]
      rw [Nat.ceilDiv_eq_add_pred_div (b := 1000)] at hcap
      split
      all_goals omega

theorem usleepMs_fits (microseconds : Word) :
    ((microseconds + 999) / 1000 ≠ forever ∧
      (microseconds.toNat * cfg.systickHz) ⌈/⌉ 1000000 ≤ (msToTicks ((microseconds + 999) / 1000)).toNat) ↔
    microseconds.toNat + 999 < 2 ^ 32 ∧ (microseconds.toNat * cfg.systickHz) ⌈/⌉ 1000000 ≤ timeoutMaxTicks := by
  have hms : ((microseconds + 999) / 1000 : Word).toNat = (microseconds.toNat + 999) % 2 ^ 32 / 1000 := by
    rw [BitVec.toNat_udiv, BitVec.toNat_add]
    rfl
  have hf : ((microseconds + 999) / 1000 : Word) ≠ forever := by
    rw [ne_forever_iff, hms]
    omega
  have hlt := microseconds.isLt
  constructor
  · rintro ⟨-, hle⟩
    refine ⟨?_, hle.trans (msToTicks_le hf)⟩
    by_contra hge
    -- the sum wraps, and there is nothing left to sleep
    have h₀ : ((microseconds + 999) / 1000 : Word) = 0 := by
      apply BitVec.eq_of_toNat_eq
      rw [hms]
      show _ = 0
      omega
    rw [h₀, msToTicks_zero, Nat.ceilDiv_eq_add_pred_div] at hle
    have hle' := Nat.mul_le_mul_left microseconds.toNat cfg.systickHz_pos
    have : (0 : Word).toNat = 0 := rfl
    omega
  · rintro ⟨hfit, hmax⟩
    rw [Nat.mod_eq_of_lt hfit] at hms
    refine ⟨hf, ?_⟩
    have heq : (microseconds.toNat * cfg.systickHz) ⌈/⌉ 1000000 =
        (microseconds.toNat * 1000 * cfg.systickHz) ⌈/⌉ 1000000000 := by
      rw [Nat.ceilDiv_eq_add_pred_div, Nat.ceilDiv_eq_add_pred_div,
        show microseconds.toNat * 1000 * cfg.systickHz = microseconds.toNat * cfg.systickHz * 1000 by ring]
      omega
    rw [heq] at hmax ⊢
    refine ticks_le_of_ms hf ?_ hmax
    rw [hms]
    omega

/-! ### The functions -/

theorem clockGettime_nsec (ticks : ℕ) :
    0 ≤ (clockGettime ticks).nsec ∧ (clockGettime ticks).nsec < 1000000000 := by
  have hpos := cfg.systickHz_pos
  have hlt : ticks % cfg.systickHz * 1000000000 / cfg.systickHz < 1000000000 := by
    rw [Nat.div_lt_iff_lt_mul hpos, Nat.mul_comm]
    exact Nat.mul_lt_mul_of_pos_left (Nat.mod_lt _ hpos) (by decide)
  exact ⟨Int.natCast_nonneg _, Int.ofNat_lt.mpr hlt⟩

/-- Milliseconds that have an end, and in ticks last as long as was asked for. -/
theorem SleepCall.fits_iff {f : SleepCall} {now : Timespec} (hv : f.Valid) (h₁ : 0 ≤ now.nsec)
    (h₂ : now.nsec < 1000000000) :
    f.Fits now ↔ ∀ ms ∈ f.ms now, ms ≠ forever ∧ f.ticks now ≤ (msToTicks ms).toNat := by
  cases f with
  | nanosleep request =>
    simp only [SleepCall.Fits, SleepCall.ms, SleepCall.ticks]
    exact (nanosleepMs_fits hv).symm
  | clockNanosleep clockId absolute request =>
    by_cases hid : clockId ≠ clockMonotonic
    · rw [SleepCall.ms, if_pos hid]
      exact iff_of_true (.inl hid) (by rintro _ ⟨⟩)
    · rw [SleepCall.ms, if_neg hid, SleepCall.Fits, or_iff_right hid]
      cases absolute with
      | false =>
        simp only [SleepCall.ticks, Bool.false_eq_true, if_false, Bool.not_false, if_true]
        exact (nanosleepMs_fits hv).symm
      | true =>
        simp only [SleepCall.ticks, Bool.false_eq_true, if_false, Bool.not_true, if_true]
        exact (relativeTimeout_fits hv h₁ h₂).symm
  | usleep microseconds =>
    simp only [SleepCall.Fits, SleepCall.ms, SleepCall.ticks]
    refine (usleepMs_fits microseconds).symm.trans ?_
    exact ⟨by rintro h _ ⟨⟩; exact h, fun h => h _ rfl⟩

/-- **Sleeps are as long as was asked for, and end**, exactly when the time is below the longest finite timeout in ticks
and what is computed on the way does not wrap. -/
theorem sleeps_iff (k : Kernel) (f : SleepCall) (hv : f.Valid) :
    let now := clockGettime k.core.totalTicks.toNat
    (f.Fits now → Lasts k (f.ticks now) (f.exec k)) ∧ (MayBlock k → (Lasts k (f.ticks now) (f.exec k) ↔ f.Fits now)) := by
  obtain ⟨h₁, h₂⟩ := clockGettime_nsec k.core.totalTicks.toNat
  have hfits := SleepCall.fits_iff hv h₁ h₂
  dsimp only
  rw [hfits, SleepCall.exec]
  cases hms : f.ms (clockGettime k.core.totalTicks.toNat) with
  | none => exact ⟨fun _ => trivial, fun _ => iff_of_true trivial fun _ h => nomatch h⟩
  | some ms =>
    rw [Option.map_some]
    have hone {P : Word → Prop} : (∀ w ∈ some ms, P w) ↔ P ms := ⟨fun h => h _ rfl, by rintro h _ ⟨⟩; exact h⟩
    rw [hone]
    exact ⟨fun ⟨hf, hn⟩ => taskSleep_lasts hf hn, taskSleep_lasts_iff⟩

end

section

attribute [local instance] Config.default

/-- One task runs, and has not slept yet. -/
def booted : List Act :=
  Sys.boot [{ stackSize := 512, priority := 5 }] true ++ [.call .timerServiceWait, .switch]

theorem booted_mayBlock : ∃ s, Transition.run Sys.step Sys.init booted = some s ∧ MayBlock s.kernel := by
  obtain ⟨s, hr, h⟩ := Transition.exists_run Sys.step Sys.init booted
    (fun s => s.core.cur = some 0 ∧ s.core.inIsr = false ∧ s.core.schedIsLocked = false) (by decide +kernel)
  obtain ⟨hc, hi, hl⟩ := of_decide_eq_true h
  exact ⟨s, hr, by rw [show s.kernel.core.cur = some 0 from hc]; decide, hi, hl⟩

theorem sleeps_second : ∃ s, Transition.run Sys.step Sys.init booted = some s ∧ MayBlock s.kernel ∧
    Lasts s.kernel 1001 ((SleepCall.nanosleep ⟨1, 1⟩).exec s.kernel) := by
  obtain ⟨s, hr, hk⟩ := booted_mayBlock
  have hv : (SleepCall.nanosleep ⟨1, 1⟩).Valid := ⟨by decide, by decide, by decide, by decide⟩
  have hticks : (SleepCall.nanosleep ⟨1, 1⟩).ticks (clockGettime s.kernel.core.totalTicks.toNat) = 1001 := by
    rw [SleepCall.ticks, Nat.ceilDiv_eq_add_pred_div]
    decide
  have hlasts := ((sleeps_iff s.kernel (.nanosleep ⟨1, 1⟩) hv).2 hk).mpr (.inr ⟨?_, ?_⟩)
  · rw [hticks] at hlasts
    exact ⟨s, hr, hk, hlasts⟩
  · rw [ceilMs_eq]
    decide
  · rw [hticks]
    decide

/-- A task that asks for 4294967.295 seconds sleeps for ever, one that asks for 4294967295 microseconds does not sleep, and
one that asks for 2147484 seconds sleeps 353 ticks less. -/
theorem sleeps_badly : ∃ s, Transition.run Sys.step Sys.init booted = some s ∧
    (∀ n, ¬ Lasts s.kernel n ((SleepCall.nanosleep ⟨4294967, 295000000⟩).exec s.kernel)) ∧
    ¬ Lasts s.kernel 4294968 ((SleepCall.usleep 4294967295).exec s.kernel) ∧
    ¬ Lasts s.kernel 2147484000 ((SleepCall.nanosleep ⟨2147484, 0⟩).exec s.kernel) := by
  obtain ⟨s, hr, hk⟩ := booted_mayBlock
  have hforever : (SleepCall.nanosleep ⟨4294967, 295000000⟩).exec s.kernel = some (s.kernel.taskSleep forever) := rfl
  have hzero : (SleepCall.usleep 4294967295).exec s.kernel = some (s.kernel.taskSleep 0) := rfl
  have hcut : (SleepCall.nanosleep ⟨2147484, 0⟩).exec s.kernel = some (s.kernel.taskSleep 2147484000) := rfl
  refine ⟨s, hr, fun n => ?_, ?_, ?_⟩
  · rw [hforever, taskSleep_lasts_iff hk]
    exact fun h => h.1 rfl
  · rw [hzero, taskSleep_lasts_iff hk]
    exact fun h => absurd h.2 (by decide)
  · rw [hcut, taskSleep_lasts_iff hk]
    exact fun h => absurd h.2 (by decide)

end

end Aixos.Posix
