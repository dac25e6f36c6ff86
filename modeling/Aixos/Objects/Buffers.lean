import Aixos.Objects.Stores
import Aixos.Library.Ring
import Mathlib.Data.List.GetD

/-!
# Buffers of bytes

`load` and `store` are `memcpy` from and to a buffer: what has been stored is loaded, and a
store elsewhere does not matter.
-/

namespace Aixos

variable {b : ℕ → UInt8} {off n : ℕ} {src : List UInt8}

@[simp] theorem length_load : (load b off n).length = n := by simp [load]

theorem getElem_load {i : ℕ} (h : i < (load b off n).length) : (load b off n)[i] = b (off + i) := by
  simp [load]

theorem take_load {m : ℕ} (h : m ≤ n) : (load b off n).take m = load b off m :=
  List.ext_getElem (by simpa using h) fun i _ _ => by simp [load]

/-- What has been stored is loaded. -/
theorem load_store (h : n ≤ src.length) : load (store b off src) off n = src.take n := by
  refine List.ext_getElem (by rw [length_load, List.length_take]; omega) fun i h₁ h₂ => ?_
  have hi : i < n := by simpa using h₁
  rw [getElem_load, store, if_pos (by omega), Nat.add_sub_cancel_left, List.getElem_take]
  exact List.getD_eq_getElem src 0 (by omega)

/-- A store elsewhere does not matter. -/
theorem load_store_of_disjoint {off' : ℕ} (h : off' + n ≤ off ∨ off + src.length ≤ off') :
    load (store b off src) off' n = load b off' n := by
  refine List.ext_getElem (by simp) fun i h₁ _ => ?_
  have hi : i < n := by simpa using h₁
  rw [getElem_load, getElem_load, store, if_neg (by omega)]

/-- Cells of one size are disjoint. -/
theorem cells_disjoint {p p' size n n' : ℕ} (hp : p ≠ p') (hn : n ≤ size) (hn' : n' ≤ size) :
    p * size + n ≤ p' * size ∨ p' * size + n' ≤ p * size := by
  rcases Nat.lt_or_gt_of_ne hp with h | h
  · left
    have := Nat.mul_le_mul_right size (Nat.succ_le_of_lt h)
    rw [Nat.succ_mul] at this
    omega
  · right
    have := Nat.mul_le_mul_right size (Nat.succ_le_of_lt h)
    rw [Nat.succ_mul] at this
    omega

end Aixos
