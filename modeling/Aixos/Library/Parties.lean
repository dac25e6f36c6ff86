import Mathlib.Data.Fintype.Basic
import Mathlib.Logic.Function.Basic

/-!
# Many parties at one object

Any number of parties are each at one of finitely many places in the code that deals with an object. The proof that the
code is right says what a place means for the object (`fits`), which two places two parties may be at together (`compat`),
and which conditions of the object somebody is about to deal with (`duties`). Whether a move of one party keeps all
this can be decided by running through the places (`Protocol.Sound`).

* `Protocol.Holds` — the places of all parties, and the object, are as they should be.
* `Protocol.Holds.move` — a sound move keeps it.
-/

namespace Parties

/-- What is to be proved about the places `L` and an object of type `D`. -/
structure Protocol (L D : Type) where
  /-- What a place says about the object. -/
  fits : L → D → Bool
  /-- Two parties may be there at the same time. -/
  compat : L → L → Bool
  /-- What holds of the object wherever the parties are. -/
  sane : D → Bool
  /-- When a condition holds of the object, some party is at such a place. -/
  duties : List ((D → Bool) × (L → Bool))

namespace Protocol

variable {L D ι : Type} (P : Protocol L D)

/-- The places of the parties, and the object, are as they should be. -/
structure Holds (view : ι → L) (d : D) : Prop where
  fits : ∀ i, P.fits (view i) d
  compat : ∀ i j, i ≠ j → P.compat (view i) (view j)
  sane : P.sane d
  met : ∀ n ∈ P.duties, n.1 d → ∃ i, n.2 (view i)

/-- Another party may be at `m` when one is at `l` and the others are at places that satisfy `g`. -/
def may (g : L → Bool) (l : L) (d : D) (m : L) : Bool := P.compat l m && P.compat m l && g m && P.fits m d

/-- What one party knows at `l`, when the others are at places that satisfy `g`. -/
def Knows (g : L → Bool) (l : L) (d : D) : Prop :=
  P.fits l d ∧ P.sane d ∧ ∀ n ∈ P.duties, n.1 d → n.2 l ∨ ∃ m, P.may g l d m ∧ n.2 m

/-- One party may go from `l` to `l'` and change the object from `d` to `d'`, when the others are at places that satisfy
`g`. -/
def Sound (g : L → Bool) (l : L) (d : D) (l' : L) (d' : D) : Prop :=
  P.fits l' d' ∧ P.sane d' ∧
    (∀ m, P.may g l d m → P.fits m d' ∧ P.compat l' m ∧ P.compat m l') ∧
    ∀ n ∈ P.duties, n.1 d' → n.2 l' ∨ (n.1 d ∧ n.2 l = false)

variable {P} {g : L → Bool} {view : ι → L} {l l' : L} {d d' : D} {i : ι}

theorem Holds.may (h : P.Holds view d) (hg : ∀ j, j ≠ i → g (view j)) {j : ι} (hj : j ≠ i) :
    P.may g (view i) d (view j) := by
  simp [Protocol.may, h.compat i j (Ne.symm hj), h.compat j i hj, hg j hj, h.fits j]

theorem Holds.knows (h : P.Holds view d) (hg : ∀ j, j ≠ i → g (view j)) : P.Knows g (view i) d := by
  refine ⟨h.fits i, h.sane, fun n hn hd => ?_⟩
  obtain ⟨j, hj⟩ := h.met n hn hd
  by_cases e : j = i
  · exact .inl (e ▸ hj)
  · exact .inr ⟨view j, h.may hg e, hj⟩

/-- **A sound move.** -/
theorem Holds.move [DecidableEq ι] (h : P.Holds view d) (hg : ∀ j, j ≠ i → g (view j))
    (hs : P.Knows g (view i) d → P.Sound g (view i) d l' d') : P.Holds (Function.update view i l') d' := by
  obtain ⟨hfit, hsane, hothers, hduties⟩ := hs (h.knows hg)
  have hother : ∀ j, j ≠ i → P.fits (view j) d' ∧ P.compat l' (view j) ∧ P.compat (view j) l' := fun j hj =>
    hothers _ (h.may hg hj)
  refine ⟨fun j => ?_, fun j k hjk => ?_, hsane, fun n hn hd => ?_⟩
  · by_cases e : j = i
    · rw [e, Function.update_self]
      exact hfit
    · rw [Function.update_of_ne e]
      exact (hother j e).1
  · by_cases ej : j = i
    · subst ej
      rw [Function.update_self, Function.update_of_ne (Ne.symm hjk)]
      exact (hother k (Ne.symm hjk)).2.1
    · by_cases ek : k = i
      · subst ek
        rw [Function.update_self, Function.update_of_ne ej]
        exact (hother j ej).2.2
      · rw [Function.update_of_ne ej, Function.update_of_ne ek]
        exact h.compat j k hjk
  · rcases hduties n hn hd with hl | ⟨hd, hl⟩
    · exact ⟨i, by rwa [Function.update_self]⟩
    · obtain ⟨j, hj⟩ := h.met n hn hd
      have e : j ≠ i := by
        rintro rfl
        rw [hl] at hj
        cases hj
      exact ⟨j, by rwa [Function.update_of_ne e]⟩

instance [Fintype L] (g : L → Bool) (l : L) (d : D) : Decidable (P.Knows g l d) :=
  inferInstanceAs (Decidable (_ ∧ _ ∧ _))

instance [Fintype L] (g : L → Bool) (l : L) (d : D) (l' : L) (d' : D) : Decidable (P.Sound g l d l' d') :=
  inferInstanceAs (Decidable (_ ∧ _ ∧ _ ∧ _))

end Protocol

end Parties
