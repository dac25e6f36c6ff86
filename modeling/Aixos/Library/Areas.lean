import Mathlib.Data.Set.Basic
import Mathlib.Data.List.Basic

/-!
# Lists of areas

An access control list over a space of points: each area covers some points and permits some uses
of them. What is asked for is a set of points and a use. The first area that covers the whole set
decides, whatever the later ones say.

* `Grants l s r` — the list grants use `r` of the set `s`.
* `Exposed l x` — the area `x` is the first in the list that covers all of `x`.
* `grants_le_iff` — when a list grants no more than a judge of single points permits.
-/

namespace Aixos

variable {α ρ : Type*}

/-- An area of points and what it permits there. -/
structure Area (α ρ : Type*) where
  /-- The points. -/
  carrier : Set α
  /-- The uses it permits. -/
  permits : Set ρ

namespace Area

variable {l : List (Area α ρ)} {x y : Area α ρ} {s : Set α} {r : ρ}

/-- The first area that covers all of `s` permits the use. -/
def Grants (l : List (Area α ρ)) (s : Set α) (r : ρ) : Prop :=
  ∃ pre x post, l = pre ++ x :: post ∧ (∀ y ∈ pre, ¬ s ⊆ y.carrier) ∧ s ⊆ x.carrier ∧ r ∈ x.permits

/-- No earlier area covers all of `x`. -/
def Exposed (l : List (Area α ρ)) (x : Area α ρ) : Prop :=
  ∃ pre post, l = pre ++ x :: post ∧ ∀ y ∈ pre, ¬ x.carrier ⊆ y.carrier

theorem grants_nil : ¬ Grants [] s r := by
  rintro ⟨pre, x, post, e, -⟩
  simp at e

theorem grants_cons : Grants (x :: l) s r ↔ (s ⊆ x.carrier ∧ r ∈ x.permits) ∨ (¬ s ⊆ x.carrier ∧ Grants l s r) := by
  constructor
  · rintro ⟨pre, y, post, e, hpre, hs, hr⟩
    cases pre with
    | nil =>
      obtain ⟨rfl, rfl⟩ := List.cons.inj e
      exact .inl ⟨hs, hr⟩
    | cons z pre =>
      obtain ⟨rfl, rfl⟩ := List.cons.inj e
      exact .inr ⟨hpre _ (by simp), pre, y, post, rfl, fun w hw => hpre w (by simp [hw]), hs, hr⟩
  · rintro (⟨hs, hr⟩ | ⟨hs, pre, y, post, rfl, hpre, hy, hr⟩)
    · exact ⟨[], x, l, rfl, by simp, hs, hr⟩
    · refine ⟨x :: pre, y, post, rfl, fun w hw => ?_, hy, hr⟩
      rcases List.mem_cons.mp hw with rfl | hw
      · exact hs
      · exact hpre w hw

/-- An area that grants the use of a set is exposed. -/
theorem Grants.exposed (h : Grants l s r) : ∃ x, Exposed l x ∧ s ⊆ x.carrier ∧ r ∈ x.permits := by
  obtain ⟨pre, x, post, rfl, hpre, hs, hr⟩ := h
  exact ⟨x, ⟨pre, post, rfl, fun y hy hxy => hpre y hy (hs.trans hxy)⟩, hs, hr⟩

/-- An exposed area grants the use of all of it. -/
theorem Exposed.grants (h : Exposed l x) (hr : r ∈ x.permits) : Grants l x.carrier r := by
  obtain ⟨pre, post, rfl, hpre⟩ := h
  exact ⟨pre, x, post, rfl, hpre, subset_rfl, hr⟩

/-- **A list grants no more than a judge permits** exactly when the judge permits on each exposed
area what the area permits. The sets that are asked for have to include the areas. -/
theorem grants_le_iff {S : Set (Set α)} (hS : ∀ x ∈ l, x.carrier ∈ S) {P : α → ρ → Prop} :
    (∀ s ∈ S, ∀ r, Grants l s r → ∀ a ∈ s, P a r) ↔
      ∀ x, Exposed l x → ∀ r ∈ x.permits, ∀ a ∈ x.carrier, P a r := by
  constructor
  · intro h x hx r hr
    refine h x.carrier (hS x ?_) r (hx.grants hr)
    obtain ⟨pre, post, rfl, -⟩ := hx
    simp
  · intro h s _ r hg a ha
    obtain ⟨x, hx, hs, hr⟩ := hg.exposed
    exact h x hx r hr a (hs ha)

end Area

end Aixos
