import Mathlib.Data.List.GetD
import Mathlib.Logic.Function.Iterate

/-!
# Cyclic redundancy checks

A check of `w` bits that takes a message bit by bit, the lowest bit of each byte first, with a generator `p` whose top bit is
set.

* `Crc.shift p` — one step without a bit; it is linear (`shift_xor`) and injective (`shift_injective`).
* `Crc.feed p` — the check after some bits; up to `w` of them can be taken at once (`feed_eq`).
* `Crc.feed_ne_of_burst` — a change within `w` bits in a row changes the check.
-/

namespace Crc

variable {w : ℕ} {p : BitVec w}

/-- One step of the register. -/
def shift (p c : BitVec w) : BitVec w := (c >>> 1) ^^^ (if c.getLsbD 0 then p else 0)

/-- The register after some bits. -/
def feed (p c : BitVec w) (bits : List Bool) : BitVec w :=
  bits.foldl (fun c b => shift p (c ^^^ if b then 1 else 0)) c

@[simp] theorem feed_nil {c : BitVec w} : feed p c [] = c := rfl

theorem feed_append {c : BitVec w} {as bs : List Bool} : feed p c (as ++ bs) = feed p (feed p c as) bs :=
  List.foldl_append

theorem shift_xor (a b : BitVec w) : shift p (a ^^^ b) = shift p a ^^^ shift p b := by
  unfold shift
  rw [BitVec.getLsbD_xor, BitVec.ushiftRight_xor_distrib]
  cases a.getLsbD 0 <;> cases b.getLsbD 0
  · simp
  · simp [BitVec.xor_assoc]
  · simp only [Bool.xor_false, if_true, Bool.false_eq_true, if_false, BitVec.ofNat_eq_ofNat, BitVec.xor_zero]
    ac_rfl
  · have : p ^^^ p = 0#w := BitVec.xor_self
    calc a >>> 1 ^^^ b >>> 1 ^^^ (if (true ^^ true) = true then p else 0) = a >>> 1 ^^^ b >>> 1 ^^^ (p ^^^ p) := by simp
      _ = (a >>> 1 ^^^ if true = true then p else 0) ^^^ (b >>> 1 ^^^ if true = true then p else 0) := by
        simp only [if_true]
        ac_rfl

/-- A word without its lowest bit is moved down. -/
theorem shift_of_even {c : BitVec w} (h : c.getLsbD 0 = false) : shift p c = c >>> 1 := by
  unfold shift
  rw [h]
  simp

/-- The top bit after a step is the lowest bit before. -/
theorem shift_injective (hp : p.msb = true) : Function.Injective (shift p) := by
  intro a b h
  have hw : 0 < w := Nat.pos_of_ne_zero fun e => by
    subst e
    simp [BitVec.msb, BitVec.getMsbD] at hp
  have htop : ∀ c : BitVec w, (shift p c).msb = c.getLsbD 0 := by
    intro c
    unfold shift
    rw [BitVec.msb_xor, BitVec.msb_ushiftRight]
    cases c.getLsbD 0 <;> simp [hp]
  have hlow : a.getLsbD 0 = b.getLsbD 0 := by rw [← htop a, h, htop b]
  have hhigh : a >>> 1 = b >>> 1 := by
    unfold shift at h
    rw [hlow] at h
    exact (BitVec.xor_left_inj _).mp h
  refine BitVec.eq_of_getLsbD_eq fun i hi => ?_
  cases i with
  | zero => exact hlow
  | succ i =>
    have := congrArg (BitVec.getLsbD · i) hhigh
    simpa [Nat.add_comm] using this

theorem feed_injective (hp : p.msb = true) (bits : List Bool) : Function.Injective (feed p · bits) := by
  induction bits with
  | nil => exact fun _ _ h => h
  | cons b bits ih => exact fun x y h => (BitVec.xor_left_inj _).mp (shift_injective hp (ih h))

/-! ### Several bits at once -/

/-- The word that has these bits, from the lowest one up. -/
def word (w : ℕ) : List Bool → BitVec w
  | [] => 0
  | b :: bits => (word w bits <<< 1) ^^^ if b then 1 else 0

theorem getLsbD_word {bits : List Bool} {i : ℕ} (hi : i < w) : (word w bits).getLsbD i = bits.getD i false := by
  induction bits generalizing i with
  | nil => simp [word]
  | cons b bits ih =>
    have hone : (if b then 1 else 0 : BitVec w).getLsbD i = (decide (i = 0) && b) := by
      cases b
      · simp
      · simp only [if_true, BitVec.ofNat_eq_ofNat, BitVec.getLsbD_one, Bool.and_true]
        simp only [Nat.lt_of_le_of_lt (Nat.zero_le i) hi, decide_true, Bool.true_and]
    rw [word, BitVec.getLsbD_xor, hone, BitVec.getLsbD_shiftLeft]
    cases i with
    | zero => simp
    | succ i => simp [hi, ih (Nat.lt_of_succ_lt hi)]

theorem word_injective {as bs : List Bool} (hlen : as.length = bs.length) (hw : as.length ≤ w) (h : word w as = word w bs) :
    as = bs := by
  refine List.ext_getElem hlen fun i ha hb => ?_
  have hi : i < w := Nat.lt_of_lt_of_le ha hw
  have := congrArg (BitVec.getLsbD · i) h
  simp only [getLsbD_word hi, List.getD_eq_getElem?_getD, List.getElem?_eq_getElem ha, List.getElem?_eq_getElem hb,
    Option.getD_some] at this
  exact this

/-- **Up to `w` bits can be taken at once.** -/
theorem feed_eq {bits : List Bool} (c : BitVec w) (h : bits.length ≤ w) :
    feed p c bits = (shift p)^[bits.length] (c ^^^ word w bits) := by
  induction bits generalizing c with
  | nil => simp [word]
  | cons b bits ih =>
    have hlt : bits.length < w := h
    have hdown : shift p (word w bits <<< 1) = word w bits := by
      have hw : 0 < w := Nat.lt_of_le_of_lt (Nat.zero_le _) hlt
      rw [shift_of_even (by simp)]
      refine BitVec.eq_of_getLsbD_eq fun i hi => ?_
      rw [BitVec.getLsbD_ushiftRight, BitVec.getLsbD_shiftLeft]
      by_cases hi' : 1 + i < w
      · simp [hi']
      · rw [getLsbD_word hi, List.getD_eq_default _ _ (by omega)]
        simp [hi']
    have hstep : shift p (c ^^^ if b then 1 else 0) ^^^ word w bits = shift p (c ^^^ word w (b :: bits)) := by
      rw [word]
      generalize (if b then 1 else 0 : BitVec w) = x
      rw [BitVec.xor_comm (word w bits <<< 1) x, ← BitVec.xor_assoc, shift_xor (c ^^^ x) (word w bits <<< 1), hdown]
    rw [feed, List.foldl_cons, ← feed, ih _ (Nat.le_of_lt hlt), hstep, List.length_cons, Function.iterate_succ_apply]

/-- **A burst is detected**: messages that differ, but only within `w` bits in a row, have different checks. -/
theorem feed_ne_of_burst (hp : p.msb = true) {c : BitVec w} {pre as bs post : List Bool} (hlen : as.length = bs.length)
    (hw : as.length ≤ w) (hne : as ≠ bs) : feed p c (pre ++ as ++ post) ≠ feed p c (pre ++ bs ++ post) := by
  intro h
  simp only [feed_append] at h
  have h := feed_injective hp post h
  have hw' : bs.length ≤ w := hlen ▸ hw
  rw [feed_eq (feed p c pre) hw, feed_eq (feed p c pre) hw', hlen] at h
  have h := (shift_injective hp).iterate _ h
  exact hne (word_injective hlen hw ((BitVec.xor_right_inj _).mp h))

end Crc
