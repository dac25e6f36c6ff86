import Mathlib.Data.Set.Card

/-!
# Waiting rooms

Visitors wait for a stock that others fill. Whoever fills it wakes one of them; a visitor that has
been woken looks at the stock later, when others may have used it up.

No wakeup is lost if, as long as somebody waits, every unit of stock has a visitor of its own on the
way (`Covered`). Where one visitor may take many units, it is enough that somebody is on the way
as long as there is stock (`Attended`).
-/

namespace WaitingRoom

/-- A waiting room. -/
structure Room (α : Type*) where
  /-- How much there is. -/
  stock : ℕ
  /-- Who waits. -/
  waiting : Set α
  /-- Who has been woken and has not looked yet. -/
  woken : Set α

namespace Room

variable {α : Type*} {r r' : Room α} {t : α}

/-- Every unit of stock has a visitor on the way, if somebody waits. -/
def Covered (r : Room α) : Prop := r.waiting.Nonempty → (r.stock : ℕ∞) ≤ r.woken.encard

/-- If there is stock and somebody waits, somebody is on the way. -/
def Attended (r : Room α) : Prop := r.waiting.Nonempty → 0 < r.stock → r.woken.Nonempty

theorem Covered.attended (h : Covered r) : Attended r := by
  intro hw hs
  rw [← Set.one_le_encard_iff_nonempty]
  exact le_trans (by exact_mod_cast hs) (h hw)

theorem covered_of_stock (h : r.stock = 0) : Covered r := by
  intro _
  simp [h]

/-- Nobody comes to wait, nobody looks, and the stock does not grow. -/
structure Keeps (r r' : Room α) : Prop where
  stock : r'.stock ≤ r.stock
  waiting : r'.waiting ⊆ r.waiting
  woken : r.woken ⊆ r'.woken

/-- The stock grows by one, and one of those who wait is woken. -/
structure Wakes (r r' : Room α) : Prop where
  stock : r'.stock ≤ r.stock + 1
  woken : ∃ t, t ∉ r.woken ∧ insert t r.woken ⊆ r'.woken
  somebody : r.waiting.Nonempty

/-- One unit is taken, and only `t` looks. -/
structure Takes (r r' : Room α) (t : α) : Prop where
  stock : r'.stock + 1 ≤ r.stock
  waiting : r'.waiting ⊆ r.waiting
  woken : r.woken \ {t} ⊆ r'.woken

theorem Covered.keeps (h : Covered r) (hk : Keeps r r') : Covered r' := by
  intro hw
  calc (r'.stock : ℕ∞) ≤ r.stock := by exact_mod_cast hk.stock
    _ ≤ r.woken.encard := h (hw.mono hk.waiting)
    _ ≤ r'.woken.encard := Set.encard_le_encard hk.woken

theorem Covered.wakes (h : Covered r) (hk : Wakes r r') : Covered r' := by
  intro _
  obtain ⟨t, ht, hsub⟩ := hk.woken
  calc (r'.stock : ℕ∞) ≤ r.stock + 1 := by exact_mod_cast hk.stock
    _ ≤ r.woken.encard + 1 := by gcongr; exact h hk.somebody
    _ = (insert t r.woken).encard := (Set.encard_insert_of_notMem ht).symm
    _ ≤ r'.woken.encard := Set.encard_le_encard hsub

theorem Covered.takes (h : Covered r) (hk : Takes r r' t) : Covered r' := by
  intro hw
  have hle : (r'.stock : ℕ∞) + 1 ≤ (r.woken \ {t}).encard + 1 :=
    calc (r'.stock : ℕ∞) + 1 ≤ r.stock := by exact_mod_cast hk.stock
      _ ≤ r.woken.encard := h (hw.mono hk.waiting)
      _ ≤ (insert t r.woken).encard := Set.encard_le_encard (Set.subset_insert t r.woken)
      _ = (insert t (r.woken \ {t})).encard := by rw [Set.insert_sdiff_singleton]
      _ ≤ (r.woken \ {t}).encard + 1 := Set.encard_insert_le _ t
  calc (r'.stock : ℕ∞) ≤ (r.woken \ {t}).encard := (ENat.add_le_add_iff_right ENat.one_ne_top).mp hle
    _ ≤ r'.woken.encard := Set.encard_le_encard hk.woken

end Room

end WaitingRoom
