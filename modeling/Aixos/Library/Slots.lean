import Mathlib.Data.List.Induction
import Mathlib.Data.Nat.ModEq
import Mathlib.Logic.Function.Basic

/-!
# A log in a table

The records of a log are written one after another, record `i` into the slot `slot i` of a table; a slot may be written
again.

* `store slot f xs` — the table after the records `xs`, which has held `f`.
* `store_eq_of_last` — the last record of a slot can be read there.
* `wrapped M N` — the slot of a record that is counted modulo `M`, in a table of `N` slots.
* `wrapped_apart_iff` — when the last records have slots of their own.
-/

namespace Slots

variable {α : Type*} {slot : ℕ → ℕ} {f : ℕ → α} {xs : List α} {x : α} {i j : ℕ}

/-- The table after the records `xs`. -/
def store (slot : ℕ → ℕ) (f : ℕ → α) (xs : List α) : ℕ → α :=
  xs.zipIdx.foldl (fun f x => Function.update f (slot x.2) x.1) f

@[simp] theorem store_nil : store slot f [] = f := rfl

/-- One record more. -/
theorem store_append : store slot f (xs ++ [x]) = Function.update (store slot f xs) (slot xs.length) x := by
  unfold store
  rw [List.zipIdx_append, List.foldl_append]
  simp

/-- **The last record of its slot** is there. -/
theorem store_eq_of_last (h : xs[i]? = some x) (hl : ∀ j, i < j → j < xs.length → slot j ≠ slot i) :
    store slot f xs (slot i) = x := by
  induction xs using List.reverseRecOn with
  | nil => cases h
  | append_singleton xs y ih =>
    rw [store_append]
    rw [List.length_append, List.length_singleton] at hl
    by_cases hi : i = xs.length
    · subst hi
      rw [List.getElem?_concat_length] at h
      cases h
      exact Function.update_self ..
    · have hlt : i < xs.length := by
        have := (List.getElem?_eq_some_iff.mp h).1
        rw [List.length_append, List.length_singleton] at this
        omega
      rw [List.getElem?_append_left hlt] at h
      rw [Function.update_of_ne (hl xs.length hlt (Nat.lt_succ_self _)).symm]
      exact ih h fun j hij hj => hl j hij (Nat.lt_succ_of_lt hj)

/-- Some record that is not earlier is in the slot of a record. -/
theorem store_eq_later (hi : i < xs.length) :
    ∃ j, i ≤ j ∧ slot j = slot i ∧ xs[j]? = some (store slot f xs (slot i)) ∧ ∀ k, j < k → k < xs.length → slot k ≠ slot i := by
  induction xs using List.reverseRecOn with
  | nil => cases hi
  | append_singleton xs y ih =>
    rw [store_append]
    rw [List.length_append, List.length_singleton] at hi ⊢
    by_cases hs : slot xs.length = slot i
    · refine ⟨xs.length, by omega, hs, ?_, fun k hk hk' => absurd hk' (by omega)⟩
      rw [hs, Function.update_self, List.getElem?_concat_length]
    · have hlt : i < xs.length := Nat.lt_of_le_of_ne (Nat.le_of_lt_succ hi) fun e => hs (by rw [e])
      obtain ⟨j, hj, hslot, hget, hlast⟩ := ih hlt
      have hj' := (List.getElem?_eq_some_iff.mp hget).1
      refine ⟨j, hj, hslot, ?_, fun k hk hk' => ?_⟩
      · rw [List.getElem?_append_left hj', Function.update_of_ne (Ne.symm hs)]
        exact hget
      · by_cases e : k = xs.length
        · rw [e]
          exact hs
        · exact hlast k hk (by omega)

/-! ### Counting modulo `M` -/

variable {M N a b k r : ℕ}

/-- The slot of record `i`. -/
def wrapped (M N i : ℕ) : ℕ := i % M % N

/-- Two records that are less than `N` apart meet where the count wraps, if they are as far apart as what `M` leaves of a
table. -/
theorem wrapped_eq_iff (hN : N ≤ M) (hab : a < b) (hlt : b < a + N) :
    wrapped M N a = wrapped M N b ↔ a / M ≠ b / M ∧ b - a = M % N := by
  have hM : 0 < M := by omega
  have hN' : 0 < N := by omega
  have ha := Nat.div_add_mod a M
  have hb := Nat.div_add_mod b M
  have ha' := Nat.mod_lt a hM
  have hb' := Nat.mod_lt b hM
  unfold wrapped
  by_cases hq : a / M = b / M
  · -- no wrap in between
    refine iff_of_false (fun e => ?_) fun h => h.1 hq
    rw [hq] at ha
    have hmod : a % M ≡ b % M [MOD N] := e
    have := (Nat.modEq_iff_dvd' (by omega)).mp hmod
    have := Nat.le_of_dvd (by omega) this
    omega
  · have hdiv : b / M = a / M + 1 := by
      have hle : a / M ≤ b / M := Nat.div_le_div_right (Nat.le_of_lt hab)
      have : b / M ≤ (a + M) / M := Nat.div_le_div_right (by omega)
      rw [Nat.add_div_right _ hM] at this
      omega
    have hdist : b - a + a % M = b % M + M := by
      have : M * (b / M) = M * (a / M) + M := by rw [hdiv, Nat.mul_add, Nat.mul_one]
      omega
    have hlt' : b - a < N := by omega
    rw [and_iff_right hq]
    constructor
    · intro e
      have hmod : b - a + a % M ≡ M + a % M [MOD N] := by
        calc b - a + a % M ≡ b % M + M [MOD N] := by rw [hdist]
          _ ≡ a % M + M [MOD N] := Nat.ModEq.add_right M (Nat.ModEq.symm e)
          _ ≡ M + a % M [MOD N] := by rw [Nat.add_comm]
      have : b - a ≡ M [MOD N] := Nat.ModEq.add_right_cancel' _ hmod
      exact (Nat.mod_eq_of_lt hlt').symm.trans this
    · intro e
      have hM' : b - a ≡ M [MOD N] := by
        unfold Nat.ModEq
        rw [e, Nat.mod_mod]
      have hmod : a % M + M ≡ b % M + M [MOD N] := by
        calc a % M + M ≡ M + a % M [MOD N] := by rw [Nat.add_comm]
          _ ≡ b - a + a % M [MOD N] := (hM'.symm).add_right _
          _ ≡ b % M + M [MOD N] := by rw [hdist]
      exact Nat.ModEq.add_right_cancel' _ hmod

/-- **The last `k` of `r` records have slots of their own** unless the count has wrapped among them and `M` leaves less than
`k` of a table. -/
theorem wrapped_apart_iff (hN : N ≤ M) (hk : k ≤ N) (hr : k ≤ r) :
    (∀ a b, r - k ≤ a → a < b → b < r → wrapped M N a ≠ wrapped M N b) ↔
      M % N = 0 ∨ r < M ∨ r % M = 0 ∨ k ≤ r % M ∨ k ≤ M % N := by
  rcases Nat.eq_zero_or_pos N with rfl | hN'
  · refine iff_of_true (fun a b h₁ h₂ h₃ => absurd h₂ (by omega)) (.inr (.inr (.inr (.inl (by omega)))))
  have hM : 0 < M := by omega
  have hdm := Nat.div_add_mod r M
  have hmod := Nat.mod_lt r hM
  have hmn := Nat.mod_lt M hN'
  constructor
  · intro hall
    by_contra hn
    simp only [not_or, Nat.not_lt, Nat.not_le] at hn
    obtain ⟨hρ, hrM, hx, hxk, hρk⟩ := hn
    -- the records `b` after the wrap and `M % N` before `b`
    have hq : 1 ≤ r / M := Nat.div_pos hrM hM
    obtain ⟨q, hq⟩ := Nat.exists_eq_add_of_le hq
    have hprod : M * (r / M) = M + M * q := by rw [hq, Nat.mul_add, Nat.mul_one]
    obtain ⟨y, hy, hyx, hya⟩ : ∃ y, y < r % M ∧ y < M % N ∧ M % N ≤ y + (k - r % M) :=
      ⟨min (r % M - 1) (M % N - 1), by omega, by omega, by omega⟩
    refine hall (M * (r / M) + y - M % N) (M * (r / M) + y) (by omega) (by omega) (by omega) ?_
    rw [wrapped_eq_iff hN (by omega) (by omega)]
    refine ⟨?_, by omega⟩
    have h₁ : (M * (r / M) + y - M % N) / M = q := by
      refine Nat.div_eq_of_lt_le ?_ ?_
      · rw [Nat.mul_comm q M]
        omega
      · rw [Nat.succ_mul, Nat.mul_comm q M]
        omega
    have h₂ : (M * (r / M) + y) / M = q + 1 := by
      have hy : y / M = 0 := Nat.div_eq_of_lt (by omega)
      rw [Nat.mul_add_div hM, hy, hq]
      omega
    rw [h₁, h₂]
    omega
  · intro h a b hra hab hbr e
    rw [wrapped_eq_iff hN hab (by omega)] at e
    obtain ⟨hq, hd⟩ := e
    have ha := Nat.div_add_mod a M
    have hb := Nat.div_add_mod b M
    have hle : a / M ≤ b / M := Nat.div_le_div_right (Nat.le_of_lt hab)
    have hlt : a / M + 1 ≤ b / M := by omega
    have hle' : b / M ≤ r / M := Nat.div_le_div_right (Nat.le_of_lt hbr)
    have := Nat.mul_le_mul_left M hlt
    have := Nat.mul_le_mul_left M hle'
    rw [Nat.mul_add, Nat.mul_one] at *
    have := Nat.mod_lt a hM
    rcases h with h | h | h | h | h
    · omega
    · have : r / M = 0 := Nat.div_eq_of_lt h
      omega
    · have : b / M < r / M := by
        refine Nat.lt_of_le_of_ne hle' fun e => ?_
        rw [e] at hb
        omega
      have := Nat.mul_le_mul_left M (Nat.succ_le_of_lt this)
      rw [Nat.mul_succ] at this
      omega
    · have : a / M = r / M ∨ a / M + 1 ≤ r / M := by omega
      rcases this with e | hlt'
      · omega
      · have := Nat.mul_le_mul_left M hlt'
        rw [Nat.mul_add, Nat.mul_one] at this
        omega
    · omega

end Slots
