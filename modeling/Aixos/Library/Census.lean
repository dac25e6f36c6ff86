import Mathlib.Algebra.BigOperators.Group.Finset.Piecewise
import Mathlib.Algebra.Order.BigOperators.Group.Finset
import Mathlib.Data.Fintype.Card
import Mathlib.Tactic.Common

/-!
# Counting the places of a family

A finite family of values, one for each index: the places of the threads of a program, the
states of the parties of a protocol. `census p f` is how many of its values have the property
`p`. One value changes at a time, and `census_update` says what that does to a census.
-/

open Finset

namespace Census

variable {ι π : Type*} [Fintype ι] {p q r : π → Bool} {f g : ι → π}

/-- How many values of the family have the property. -/
def census (p : π → Bool) (f : ι → π) : ℕ := ∑ i, (p (f i)).toNat

/-- One value changes. -/
theorem census_update [DecidableEq ι] (p : π → Bool) (f : ι → π) (i : ι) (x : π) :
    census p (Function.update f i x) + (p (f i)).toNat = census p f + (p x).toNat := by
  have hu : (fun j => (p (Function.update f i x j)).toNat) =
      Function.update (fun j => (p (f j)).toNat) i (p x).toNat := by
    funext j
    by_cases hj : j = i
    · subst hj
      simp
    · simp [Function.update_of_ne hj]
  unfold census
  rw [hu, sum_update_of_mem (mem_univ i)]
  have := sum_eq_add_sum_sdiff_singleton_of_mem (mem_univ i) fun j => (p (f j)).toNat
  omega

/-- A value with the property counts. -/
theorem census_pos (i : ι) (h : p (f i) = true) : 0 < census p f :=
  sum_pos_iff.mpr ⟨i, mem_univ i, by simp [h]⟩

theorem census_eq_zero_iff : census p f = 0 ↔ ∀ i, p (f i) = false := by
  simp [census, sum_eq_zero_iff]

theorem census_le_card : census p f ≤ Fintype.card ι := by
  calc census p f ≤ ∑ _i : ι, 1 := sum_le_sum fun i _ => Bool.toNat_le (p (f i))
    _ = Fintype.card ι := by simp

theorem census_congr (h : ∀ i, p (f i) = q (g i)) : census p f = census q g := by
  unfold census
  simp only [h]

theorem census_mono {ρ : Type*} {q : ρ → Bool} {g : ι → ρ} (h : ∀ i, p (f i) = true → q (g i) = true) :
    census p f ≤ census q g :=
  sum_le_sum fun i _ => by
    have := h i
    cases hp : p (f i) <;> simp_all

end Census
