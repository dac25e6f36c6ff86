import Mathlib.Data.List.Basic
import Mathlib.Data.List.TakeDrop
import Mathlib.Data.Nat.Basic
import Mathlib.Data.Nat.ModEq
import Mathlib.Logic.Function.Basic

/-!
# Rings of cells

A sequence that is kept in `cap` cells and may begin at any of them: its element `i` is in
the cell `place cap head i`, and after the last cell comes the first one.

* `window f cap head n` — the `n` elements from `head` on, when the cells hold `f`.
* `window_push`, `window_drop` — adding at the end, and taking from the front.
* `window_insert` — opening a gap in the middle, by moving the elements behind it one place
  back, from the last one down (`shift`).
-/

namespace Ring

variable {α : Type*} {f g : ℕ → α} {cap head i j k n : ℕ}

/-- The cell of element `i` of a sequence that begins at `head`. -/
def place (cap head i : ℕ) : ℕ := (head + i) % cap

theorem place_lt (hc : 0 < cap) : place cap head i < cap := Nat.mod_lt _ hc

theorem place_place : place cap (place cap head k) i = place cap head (k + i) := by
  unfold place
  rw [Nat.mod_add_mod, Nat.add_assoc]

/-- Different elements are in different cells. -/
theorem place_inj (hi : i < cap) (hj : j < cap) : place cap head i = place cap head j ↔ i = j := by
  constructor
  · intro h
    have h : i ≡ j [MOD cap] := Nat.ModEq.add_left_cancel' head h
    exact h.eq_of_lt_of_lt hi hj
  · rintro rfl
    rfl

/-- The elements from `head` on. -/
def window (f : ℕ → α) (cap head n : ℕ) : List α := (List.range n).map fun i => f (place cap head i)

@[simp] theorem length_window : (window f cap head n).length = n := by simp [window]

@[simp] theorem window_zero : window f cap head 0 = [] := rfl

theorem getElem_window (h : i < (window f cap head n).length) :
    (window f cap head n)[i] = f (place cap head i) := by simp [window]

theorem window_congr (h : ∀ i < n, f (place cap head i) = g (place cap head i)) :
    window f cap head n = window g cap head n :=
  List.map_congr_left fun i hi => h i (List.mem_range.mp hi)

theorem window_succ : window f cap head (n + 1) = window f cap head n ++ [f (place cap head n)] := by
  simp [window, List.range_succ]

/-- A sequence is its first part and the one that begins after it. -/
theorem window_add : window f cap head (k + n) = window f cap head k ++ window f cap (place cap head k) n := by
  simp only [window, place_place]
  rw [List.range_add, List.map_append, List.map_map]
  rfl

/-- **Taking from the front** moves the beginning. -/
theorem window_drop (h : k ≤ n) : (window f cap head n).drop k = window f cap (place cap head k) (n - k) := by
  obtain ⟨m, rfl⟩ := Nat.exists_eq_add_of_le h
  rw [window_add, List.drop_left' length_window, Nat.add_sub_cancel_left]

theorem window_take (h : k ≤ n) : (window f cap head n).take k = window f cap head k := by
  obtain ⟨m, rfl⟩ := Nat.exists_eq_add_of_le h
  rw [window_add, List.take_left' length_window]

/-- **Adding at the end**: the cells behind the sequence are given new contents. -/
theorem window_push {xs : List α} (hold : ∀ i < n, g (place cap head i) = f (place cap head i))
    (hnew : ∀ (i : ℕ) (hi : i < xs.length), g (place cap head (n + i)) = xs[i]) :
    window g cap head (n + xs.length) = window f cap head n ++ xs := by
  rw [window_add, window_congr hold]
  congr 1
  refine List.ext_getElem length_window fun i h₁ h₂ => ?_
  rw [getElem_window, place_place]
  exact hnew i h₂

section Shift

/-- Move the elements `at'`, …, `at' + n - 1` one place back, from the last one down. -/
def shift (cap head at' : ℕ) : ℕ → (ℕ → α) → ℕ → α
  | 0, f => f
  | n + 1, f => shift cap head at' n
      (Function.update f (place cap head (at' + n + 1)) (f (place cap head (at' + n))))

variable {at' : ℕ}

/-- The elements after the move. -/
theorem shift_place (hn : at' + n < cap) (hj : j < cap) :
    shift cap head at' n f (place cap head j) =
      if at' < j ∧ j ≤ at' + n then f (place cap head (j - 1)) else f (place cap head j) := by
  induction n generalizing f with
  | zero =>
    rw [shift, if_neg (by omega)]
  | succ n ih =>
    rw [shift, ih (by omega)]
    have key : ∀ i, i < cap → Function.update f (place cap head (at' + n + 1)) (f (place cap head (at' + n)))
        (place cap head i) = if i = at' + n + 1 then f (place cap head (at' + n)) else f (place cap head i) := by
      intro i hi
      rw [Function.update_apply]
      simp only [place_inj hi (show at' + n + 1 < cap by omega)]
    rw [key _ hj, key (j - 1) (by omega)]
    by_cases h : j = at' + n + 1
    · subst h
      rw [if_neg (by omega), if_pos rfl, if_pos (by omega), Nat.add_sub_cancel]
    · by_cases h' : at' < j ∧ j ≤ at' + n
      · rw [if_pos h', if_neg (by omega), if_pos (by omega)]
      · rw [if_neg h', if_neg h, if_neg (by omega)]

/-- **Inserting in the middle**: the elements behind the place move, and the new one goes there. -/
theorem window_insert (hk : k ≤ n) (hn : n < cap) (x : α) :
    window (Function.update (shift cap head k (n - k) f) (place cap head k) x) cap head (n + 1) =
      (window f cap head n).take k ++ x :: (window f cap head n).drop k := by
  refine List.ext_getElem (by simp; omega) fun i h₁ h₂ => ?_
  have hi : i < n + 1 := by simpa using h₁
  rw [getElem_window, Function.update_apply]
  simp only [place_inj (show i < cap by omega) (show k < cap by omega)]
  rw [shift_place (by omega) (by omega), List.getElem_append]
  have hlen : ((window f cap head n).take k).length = k := by simp [hk]
  by_cases hik : i < k
  · rw [if_neg (by omega), if_neg (by omega), dif_pos (by omega), List.getElem_take, getElem_window]
  · rw [dif_neg (by omega)]
    by_cases he : i = k
    · subst he
      simp [hlen]
    · obtain ⟨m, rfl⟩ := Nat.exists_eq_add_of_lt (show k < i by omega)
      simp only [hlen, show k + m + 1 - k = m + 1 by omega, List.getElem_cons_succ]
      rw [if_neg he, if_pos (by omega), List.getElem_drop, getElem_window]
      congr 1

end Shift

/-- The first element with a property: a search through the places finds it in the sequence. -/
theorem find_range (p : α → Bool) :
    ((List.range n).find? fun i => p (f (place cap head i))).getD n = (window f cap head n).findIdx p := by
  have key : ∀ (h : ℕ → α) b, ((List.range' b n).find? fun i => p (h i)).getD (b + n) =
      b + ((List.range' b n).map h).findIdx p := by
    intro h
    induction n with
    | zero => intro b; simp
    | succ n ih =>
      intro b
      rw [List.range'_succ, List.find?_cons, List.map_cons, List.findIdx_cons]
      cases hp : p (h b) with
      | true => simp
      | false =>
        have := ih (b + 1)
        simp only [cond_false]
        rw [show b + (n + 1) = b + 1 + n by omega, this]
        omega
  have := key (fun i => f (place cap head i)) 0
  rw [Nat.zero_add, Nat.zero_add, ← List.range_eq_range'] at this
  exact this

end Ring
