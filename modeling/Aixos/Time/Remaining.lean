import Aixos.System.GivingUp

/-!
# The time that is left

A loop that blocks again does so for the milliseconds that are left, which are rounded up from ticks and will be
rounded up to ticks again.

* `timeoutRemainingMs_eq` — the time left, as a number.
* `msToTicks_round` — the two roundings: no tick is lost, and at most a millisecond and a tick are added.
* `KeepsDeadline` — the time left keeps the deadline of the call.
* `Sys.reblocks` — how the loops block again.
* `Sys.remaining_keeps` — the deadline is kept, in the loops as well, unless there are too many milliseconds left.
-/

namespace Aixos

open Transition

variable [cfg : Config]

/-- Milliseconds in ticks. -/
theorem msToTicks_toNat {ms : Word} (hf : ms ≠ forever) : (msToTicks ms).toNat =
    min timeoutMaxTicks (if (ms.toNat * cfg.systickHz + 999) / 1000 = 0 ∧ ms ≠ 0 then 1
      else (ms.toNat * cfg.systickHz + 999) / 1000) := by
  unfold msToTicks
  rw [if_neg hf]
  dsimp only
  generalize (if (ms.toNat * cfg.systickHz + 999) / 1000 = 0 ∧ ms ≠ 0 then 1
    else (ms.toNat * cfg.systickHz + 999) / 1000) = n
  rw [BitVec.toNat_ofNat]
  unfold timeoutMaxTicks
  split <;> omega

theorem msToTicks_le {ms : Word} (hf : ms ≠ forever) : (msToTicks ms).toNat ≤ timeoutMaxTicks := by
  rw [msToTicks_toNat hf]
  exact Nat.min_le_left ..

/-- **Both roundings go up**: milliseconds that cover `r` ticks last at least so long, and not much longer. -/
theorem msToTicks_round {r m : ℕ} (h₀ : 0 < r) (hr : r ≤ timeoutMaxTicks)
    (hm : m = (r * 1000 + cfg.systickHz - 1) / cfg.systickHz) (hlt : m < 2 ^ 32 - 1) :
    m ≠ 0 ∧ r ≤ (msToTicks (.ofNat 32 m)).toNat ∧
      1000 * (msToTicks (.ofNat 32 m)).toNat < 1000 * (r + 1) + cfg.systickHz := by
  have hpos := cfg.systickHz_pos
  -- the milliseconds cover the ticks, and one less would not
  have hdiv := Nat.div_add_mod (r * 1000 + cfg.systickHz - 1) cfg.systickHz
  have hmod := Nat.mod_lt (r * 1000 + cfg.systickHz - 1) hpos
  rw [← hm, Nat.mul_comm] at hdiv
  have hlow : r * 1000 ≤ m * cfg.systickHz := by omega
  have hhigh : m * cfg.systickHz ≤ r * 1000 + cfg.systickHz - 1 := by omega
  have hm₀ : m ≠ 0 := by
    rintro rfl
    omega
  have hf : (BitVec.ofNat 32 m : Word) ≠ forever := by
    intro e
    have := congrArg BitVec.toNat e
    rw [BitVec.toNat_ofNat, Nat.mod_eq_of_lt (by omega)] at this
    exact absurd this (by simp [forever]; omega)
  have hticks := msToTicks_toNat hf
  rw [BitVec.toNat_ofNat, Nat.mod_eq_of_lt (by omega : m < 2 ^ 32), if_neg fun h => by omega] at hticks
  rw [hticks]
  unfold timeoutMaxTicks at hr ⊢
  omega

/-- The time left, as a number: nothing once the deadline has been reached. -/
theorem timeoutRemainingMs_eq {start now : ℕ} {timeoutMs : Word} (h : start ≤ now) (hlt : now < start + 2 ^ 32)
    (hf : timeoutMs ≠ forever) : timeoutRemainingMs (.ofNat 32 now) (.ofNat 32 start) timeoutMs =
      if start + (msToTicks timeoutMs).toNat ≤ now then 0
      else if 2 ^ 32 - 1 <
        ((start + (msToTicks timeoutMs).toNat - now) * 1000 + cfg.systickHz - 1) / cfg.systickHz then forever
      else .ofNat 32 (((start + (msToTicks timeoutMs).toNat - now) * 1000 + cfg.systickHz - 1) / cfg.systickHz) := by
  unfold timeoutRemainingMs
  rw [if_neg hf]
  dsimp only
  have helapsed : (BitVec.ofNat 32 now - BitVec.ofNat 32 start : Word).toNat = now - start := by
    rw [BitVec.toNat_sub, BitVec.toNat_ofNat, BitVec.toNat_ofNat]
    omega
  have hle : msToTicks timeoutMs ≤ BitVec.ofNat 32 now - BitVec.ofNat 32 start ↔
      start + (msToTicks timeoutMs).toNat ≤ now := by
    rw [BitVec.le_def, helapsed]
    omega
  by_cases hr : start + (msToTicks timeoutMs).toNat ≤ now
  · rw [if_pos (hle.mpr hr), if_pos hr]
  · rw [if_neg fun h => hr (hle.mp h), if_neg hr]
    have hleft : (msToTicks timeoutMs - (BitVec.ofNat 32 now - BitVec.ofNat 32 start)).toNat =
        start + (msToTicks timeoutMs).toNat - now := by
      have := (msToTicks timeoutMs).isLt
      rw [BitVec.toNat_sub, helapsed]
      omega
    rw [hleft]

/-- A call with this timeout that began at tick `start` can block again at tick `now`. -/
structure KeepsDeadline (start now : ℕ) (timeoutMs : Word) : Prop where
  /-- The time left is not the timeout that never ends. -/
  finite : timeoutRemainingMs (.ofNat 32 now) (.ofNat 32 start) timeoutMs ≠ forever
  /-- There is none exactly when the deadline has been reached. -/
  zero : timeoutRemainingMs (.ofNat 32 now) (.ofNat 32 start) timeoutMs = 0 ↔
    start + (msToTicks timeoutMs).toNat ≤ now
  /-- In ticks from now, it ends at the deadline or after it. -/
  reaches : timeoutRemainingMs (.ofNat 32 now) (.ofNat 32 start) timeoutMs ≠ 0 →
    start + (msToTicks timeoutMs).toNat ≤
      now + (msToTicks (timeoutRemainingMs (.ofNat 32 now) (.ofNat 32 start) timeoutMs)).toNat
  /-- It ends less than a millisecond and a tick after the deadline. -/
  near : timeoutRemainingMs (.ofNat 32 now) (.ofNat 32 start) timeoutMs ≠ 0 →
    1000 * (now + (msToTicks (timeoutRemainingMs (.ofNat 32 now) (.ofNat 32 start) timeoutMs)).toNat) <
      1000 * (start + (msToTicks timeoutMs).toNat + 1) + cfg.systickHz

/-- The time left has an end, unless there are too many milliseconds. -/
theorem timeoutRemainingMs_ne_forever_iff {start now : ℕ} {timeoutMs : Word} (h : start ≤ now)
    (hlt : now < start + 2 ^ 32) (hf : timeoutMs ≠ forever) :
    timeoutRemainingMs (.ofNat 32 now) (.ofNat 32 start) timeoutMs ≠ forever ↔
      1000 * (start + (msToTicks timeoutMs).toNat - now) ≤ (2 ^ 32 - 2) * cfg.systickHz := by
  rw [timeoutRemainingMs_eq h hlt hf]
  split
  · exact iff_of_true (by decide) (by omega)
  · rename_i hr
    have hcond : 1000 * (start + (msToTicks timeoutMs).toNat - now) ≤ (2 ^ 32 - 2) * cfg.systickHz ↔
        ((start + (msToTicks timeoutMs).toNat - now) * 1000 + cfg.systickHz - 1) / cfg.systickHz < 2 ^ 32 - 1 := by
      have hpos := cfg.systickHz_pos
      rw [Nat.div_lt_iff_lt_mul hpos]
      omega
    rw [hcond]
    generalize ((start + (msToTicks timeoutMs).toNat - now) * 1000 + cfg.systickHz - 1) / cfg.systickHz = m
    split
    · exact iff_of_false (fun h => h rfl) (by omega)
    · have htoNat : (BitVec.ofNat 32 m : Word).toNat = m := by
        rw [BitVec.toNat_ofNat, Nat.mod_eq_of_lt (by omega)]
      rw [ne_eq, ← BitVec.toNat_inj, htoNat, show forever.toNat = 2 ^ 32 - 1 from rfl]
      omega

/-- If it has an end, it keeps the deadline. -/
theorem keepsDeadline_of_ne_forever {start now : ℕ} {timeoutMs : Word} (h : start ≤ now) (hlt : now < start + 2 ^ 32)
    (hf : timeoutMs ≠ forever) (hfin : timeoutRemainingMs (.ofNat 32 now) (.ofNat 32 start) timeoutMs ≠ forever) :
    KeepsDeadline start now timeoutMs := by
  have heq := timeoutRemainingMs_eq h hlt hf
  by_cases hr : start + (msToTicks timeoutMs).toNat ≤ now
  · rw [if_pos hr] at heq
    exact ⟨hfin, iff_of_true heq hr, fun hne => absurd heq hne, fun hne => absurd heq hne⟩
  · rw [if_neg hr] at heq
    generalize hm : ((start + (msToTicks timeoutMs).toNat - now) * 1000 + cfg.systickHz - 1) / cfg.systickHz = m at heq
    have hlt' : m < 2 ^ 32 - 1 := by
      by_contra hge
      refine hfin (heq.trans ?_)
      split
      · rfl
      · rw [show m = 2 ^ 32 - 1 by omega]
        rfl
    have hle := msToTicks_le hf
    obtain ⟨hm₀, h₁, h₂⟩ := msToTicks_round (by omega) (by omega) hm.symm hlt'
    rw [if_neg (by omega)] at heq
    have hne : (BitVec.ofNat 32 m : Word) ≠ 0 := by
      rw [ne_eq, ← BitVec.toNat_inj, BitVec.toNat_ofNat, Nat.mod_eq_of_lt (by omega)]
      exact hm₀
    refine ⟨hfin, ?_, fun _ => ?_, fun _ => ?_⟩ <;> rw [heq]
    · exact iff_of_false hne hr
    · omega
    · omega

theorem keepsDeadline_iff {start now : ℕ} {timeoutMs : Word} (h : start ≤ now) (hlt : now < start + 2 ^ 32)
    (hf : timeoutMs ≠ forever) : KeepsDeadline start now timeoutMs ↔
      1000 * (start + (msToTicks timeoutMs).toNat - now) ≤ (2 ^ 32 - 2) * cfg.systickHz := by
  rw [← timeoutRemainingMs_ne_forever_iff h hlt hf]
  exact ⟨KeepsDeadline.finite, keepsDeadline_of_ne_forever h hlt hf⟩

/-! ### The loops -/

/-- A loop blocks again. -/
structure Reblock where
  /-- When the call began. -/
  startTick : Word
  /-- Its timeout. -/
  timeoutMs : Word
  /-- The tick at which it blocks again. -/
  now : Word
  /-- The timeout with which it blocks. -/
  remaining : Word
  deriving DecidableEq

namespace Reblock

/-- The ticks since the call began. -/
def elapsed (b : Reblock) : ℕ := (b.now - b.startTick).toNat

/-- The wait is not endless, and does not end before the deadline of the call. -/
def Lasts (b : Reblock) : Prop :=
  b.timeoutMs ≠ forever → b.remaining ≠ forever ∧ (msToTicks b.timeoutMs).toNat ≤ b.elapsed + (msToTicks b.remaining).toNat

end Reblock

namespace Sys

variable {s s' : Sys} {a : Act} {as : List Act}

/-- The loops that block again in a step. -/
def reblocks (s : Sys) : Act → List Reblock
  | .resume =>
    match s.runningTask, s.step .resume with
    | some t, some s' =>
      match s.frame t, s'.frame t with
      | some f, some g =>
        match f.pending.clock with
        | some (startTick, timeoutMs) => [⟨startTick, timeoutMs, s.core.getTick, g.timeoutMs⟩]
        | none => []
      | _, _ => []
    | _, _ => []
  | _ => []

/-- A loop blocks for the time that is left. -/
theorem remaining_of_reblocks (h : s.step a = some s') : ∀ b ∈ reblocks s a,
    b.remaining = timeoutRemainingMs b.now b.startTick b.timeoutMs ∧ b.remaining ≠ 0 := by
  intro b hb
  cases a with
  | resume =>
    obtain ⟨t, f, ht, hf, rfl⟩ := step_resume h
    obtain ⟨hcur, -, -, -⟩ := runningTask_eq_some ht
    rw [reblocks, ht, h] at hb
    dsimp only at hb
    rw [hf] at hb
    cases hg : (s.finish t (s.kernel.resume t f)).frame t with
    | none =>
      rw [hg] at hb
      cases hb
    | some g =>
      rw [hg] at hb
      dsimp only at hb
      cases hc : f.pending.clock with
      | none =>
        rw [hc] at hb
        cases hb
      | some c =>
        obtain ⟨start, ms⟩ := c
        rw [hc] at hb
        obtain rfl := List.mem_singleton.mp hb
        rcases Kernel.resume_cases t hc (k := s.kernel) (by rw [hcur]; simp) with ⟨v, hv⟩ | ⟨hw, hne⟩
        · rw [(finish_ret s t hv).1] at hg
          cases hg
        · rw [finish_wait s t hw] at hg
          cases hg
          exact ⟨rfl, hne⟩
  | _ => cases hb

end Sys

theorem Reblock.lasts_iff {b : Reblock} (h : b.remaining = timeoutRemainingMs b.now b.startTick b.timeoutMs)
    (h₀ : b.remaining ≠ 0) : b.Lasts ↔ (b.timeoutMs ≠ forever →
      1000 * ((msToTicks b.timeoutMs).toNat - b.elapsed) ≤ (2 ^ 32 - 2) * cfg.systickHz) := by
  have hnow : (BitVec.ofNat 32 (b.startTick.toNat + b.elapsed) : Word) = b.now := by
    unfold elapsed
    apply BitVec.eq_of_toNat_eq
    rw [BitVec.toNat_ofNat, BitVec.toNat_sub]
    omega
  have hlt : b.elapsed < 2 ^ 32 := (b.now - b.startTick).isLt
  have hrem : timeoutRemainingMs (.ofNat 32 (b.startTick.toNat + b.elapsed)) (.ofNat 32 b.startTick.toNat)
      b.timeoutMs = b.remaining := by
    rw [h, hnow, BitVec.ofNat_toNat, BitVec.setWidth_eq]
  refine imp_congr_right fun hf => ?_
  have hle : b.startTick.toNat ≤ b.startTick.toNat + b.elapsed := by omega
  have hiff := timeoutRemainingMs_ne_forever_iff hle (by omega) hf
  rw [hrem, show b.startTick.toNat + (msToTicks b.timeoutMs).toNat - (b.startTick.toNat + b.elapsed) =
    (msToTicks b.timeoutMs).toNat - b.elapsed by omega] at hiff
  rw [← hiff]
  refine ⟨And.left, fun hfin => ⟨hfin, ?_⟩⟩
  have hreach := (keepsDeadline_of_ne_forever hle (by omega) hf (by rwa [hrem])).reaches (by rwa [hrem])
  rw [hrem] at hreach
  omega

/-- **The time that is left keeps the deadline** of a finite timeout, and so do the loops that block again and again,
unless there are more than `2 ^ 32 - 2` milliseconds left. -/
theorem remaining_keeps :
    (∀ start now timeoutMs, start ≤ now → now < start + 2 ^ 32 → timeoutMs ≠ forever →
      (KeepsDeadline start now timeoutMs ↔
        1000 * (start + (msToTicks timeoutMs).toNat - now) ≤ (2 ^ 32 - 2) * cfg.systickHz)) ∧
    ∀ as s, run Sys.step Sys.init as = some s → ∀ b ∈ trace Sys.step Sys.reblocks Sys.init as,
      (b.Lasts ↔ (b.timeoutMs ≠ forever →
        1000 * ((msToTicks b.timeoutMs).toNat - b.elapsed) ≤ (2 ^ 32 - 2) * cfg.systickHz)) := by
  refine ⟨fun _ _ _ => keepsDeadline_iff, fun as s hr b hb => ?_⟩
  obtain ⟨h, h₀⟩ := forall_trace (fun _ _ _ h => Sys.remaining_of_reblocks h) hr b hb
  exact Reblock.lasts_iff h h₀

end Aixos

namespace Aixos

open Transition Sys

section

attribute [local instance] Config.default

/-- Across the wrap of the tick counter; and task 0 waits five milliseconds for a message, is overtaken after one, and
blocks again for four. -/
theorem overtaken_keeps : KeepsDeadline (2 ^ 32 - 3) (2 ^ 32 + 2) 10 ∧
    ∃ s, run step init (receiving 5 ++ [.isr (.mqSend ⟨0, 1⟩ (some [1])), .isr (.semPost ⟨0, 1⟩), .isr (.tick false)] ++
      overtaking) = some s ∧
    trace step reblocks init (receiving 5 ++ [.isr (.mqSend ⟨0, 1⟩ (some [1])), .isr (.semPost ⟨0, 1⟩),
      .isr (.tick false)] ++ overtaking) = [⟨0, 5, 1, 4⟩] ∧ Reblock.Lasts ⟨0, 5, 1, 4⟩ := by
  obtain ⟨hkeeps, hlasts⟩ := remaining_keeps
  obtain ⟨s, h, -⟩ := exists_run step init (receiving 5 ++ [.isr (.mqSend ⟨0, 1⟩ (some [1])), .isr (.semPost ⟨0, 1⟩),
    .isr (.tick false)] ++ overtaking) (fun _ => true) (by decide +kernel)
  have htrace : trace step reblocks init (receiving 5 ++ [.isr (.mqSend ⟨0, 1⟩ (some [1])), .isr (.semPost ⟨0, 1⟩),
      .isr (.tick false)] ++ overtaking) = [⟨0, 5, 1, 4⟩] := by decide +kernel
  refine ⟨(hkeeps _ _ _ (by decide) (by decide) (by decide)).mpr (by decide), s, h, htrace, ?_⟩
  exact (hlasts _ s h _ (by rw [htrace]; exact List.mem_singleton_self _)).mpr fun _ => by decide

end

section

/-- A system with 100 ticks a second. -/
@[reducible] def Config.hundredHz : Config :=
  { Config.default with systickHz := 100, systickHz_pos := by decide }

attribute [local instance] Config.hundredHz

/-- The longest finite timeout has 2 milliseconds more when it is rounded to ticks and back; a task that is overtaken
in the tick in which it began to wait goes on waiting for ever. -/
theorem longest_not_keeps : ¬ KeepsDeadline 0 0 0xFFFFFFFE#32 ∧
    trace step reblocks init (receiving 0xFFFFFFFE#32 ++ [.isr (.mqSend ⟨0, 1⟩ (some [1])), .isr (.semPost ⟨0, 1⟩)] ++
      overtaking) = [⟨0, 0xFFFFFFFE#32, 0, forever⟩] ∧ ¬ Reblock.Lasts ⟨0, 0xFFFFFFFE#32, 0, forever⟩ := by
  refine ⟨fun hk => hk.finite (by decide), by decide +kernel, fun hl => (hl (by decide)).1 rfl⟩

end

end Aixos
