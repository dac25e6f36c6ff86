import Mathlib.Data.List.Induction
import Mathlib.Data.Set.BooleanAlgebra
import Mathlib.Data.Set.Disjoint
import Mathlib.Logic.Function.Basic
import Mathlib.Order.CompletePartialOrder

/-!
# Contexts that are saved in memory

A context is the words of some registers. It is saved in a frame: register `r` in the word that lies `off r` behind
the beginning of the frame. Whoever a context belongs to has a control block, whose first word is the address of the
frame. Contexts come and go, and so do control blocks.

* `storeAll` — many stores.
* `Layout` — where the registers are in a frame.
* `Represents` — memory has a given context for each control block.
* `Represents.congr`, `Represents.save`, `Represents.drop` — what keeps that true.
-/

namespace Aixos.SavedContexts

variable {α R : Type} [Add α]

/-! ### Many stores -/

section Stores

variable {ι β : Type} [DecidableEq α] {m : α → β} {d : ι → α} {v : ι → β} {l : List ι} {i : ι} {a : α}

/-- Store `v i` at `d i`, for all `i` of a list. -/
def storeAll (m : α → β) (d : ι → α) (v : ι → β) (l : List ι) : α → β :=
  l.foldl (fun m i => Function.update m (d i) (v i)) m

omit [Add α] in
theorem storeAll_of_ne (ha : ∀ i ∈ l, a ≠ d i) : storeAll m d v l a = m a := by
  induction l generalizing m with
  | nil => rfl
  | cons i l ih =>
    rw [storeAll, List.foldl_cons, ← storeAll, ih fun j hj => ha j (List.mem_cons_of_mem _ hj),
      Function.update_of_ne (ha i (List.mem_cons_self ..))]

omit [Add α] in
theorem storeAll_of_mem (hd : ∀ j ∈ l, d i = d j → i = j) (hi : i ∈ l) : storeAll m d v l (d i) = v i := by
  induction l using List.reverseRecOn with
  | nil => cases hi
  | append_singleton l j ih =>
    rw [storeAll, List.foldl_append, List.foldl_cons, List.foldl_nil]
    by_cases e : d i = d j
    · rw [e, Function.update_self, hd j (by simp) e]
    · rw [Function.update_of_ne e]
      refine ih (fun k hk => hd k (List.mem_append_left _ hk)) ?_
      rcases List.mem_append.mp hi with hi | hi
      · exact hi
      · exact absurd (congrArg d (List.mem_singleton.mp hi)) e

end Stores

/-! ### Contexts -/

/-- Where the registers are in a frame. -/
structure Layout (α R : Type) [Add α] where
  off : R → α
  injective : ∀ f, Function.Injective fun r => f + off r

namespace Layout

variable (L : Layout α R) {m m' : α → α} {saved : α → Option (R → α)} {pins : Set α} {t u f a : α} {c : R → α}

/-- The words of the frame at `f`. -/
def frame (f : α) : Set α := Set.range fun r => f + L.off r

/-- The frame at `f` holds the context. -/
def Holds (m : α → α) (f : α) (c : R → α) : Prop := ∀ r, m (f + L.off r) = c r

/-- The control blocks that have a context. -/
def owners (saved : α → Option (R → α)) : Set α := {t | (saved t).isSome}

/-- Memory has the contexts `saved`, in frames that meet neither each other, nor control blocks, nor `pins`. -/
structure Represents (m : α → α) (saved : α → Option (R → α)) (pins : Set α) : Prop where
  holds : ∀ t c, saved t = some c → L.Holds m (m t) c
  apart : ∀ t u c d, saved t = some c → saved u = some d → t ≠ u → Disjoint (L.frame (m t)) (L.frame (m u))
  clear : ∀ t c, saved t = some c → Disjoint (L.frame (m t)) (owners saved ∪ pins)

/-- The words that the contexts of some control blocks are made of. -/
def guarded (m : α → α) (ts : Set α) : Set α := {a | ∃ t ∈ ts, a = t ∨ a ∈ L.frame (m t)}

variable {L}

theorem mem_frame (f : α) (r : R) : f + L.off r ∈ L.frame f := ⟨r, rfl⟩

omit [Add α] in
theorem mem_owners (h : saved t = some c) : t ∈ owners saved := by
  show (saved t).isSome = true
  rw [h]
  rfl

theorem mem_guarded_self (h : saved t = some c) : t ∈ L.guarded m (owners saved) := ⟨t, mem_owners h, .inl rfl⟩

theorem mem_guarded_of_frame (h : saved t = some c) (ha : a ∈ L.frame (m t)) : a ∈ L.guarded m (owners saved) :=
  ⟨t, mem_owners h, .inr ha⟩

/-- There are no contexts. -/
theorem Represents.none (m : α → α) (pins : Set α) : L.Represents m (fun _ => .none) pins where
  holds _ _ h := by cases h
  apart _ _ _ _ h := by cases h
  clear _ _ h := by cases h

/-- **What is not guarded may change.** -/
theorem Represents.congr (h : L.Represents m saved pins) (he : ∀ a ∈ L.guarded m (owners saved), m' a = m a) :
    L.Represents m' saved pins := by
  have htop : ∀ t c, saved t = some c → m' t = m t := fun t c ht => he t (mem_guarded_self ht)
  refine ⟨fun t c ht r => ?_, fun t u c d ht hu hne => ?_, fun t c ht => ?_⟩
  · rw [htop t c ht, he _ (mem_guarded_of_frame ht (mem_frame _ r))]
    exact h.holds t c ht r
  · rw [htop t c ht, htop u d hu]
    exact h.apart t u c d ht hu hne
  · rw [htop t c ht]
    exact h.clear t c ht

/-- The words of `pins` matter for new frames only. -/
theorem Represents.repin {pins' : Set α} (h : L.Represents m saved pins)
    (hp : ∀ t c, saved t = some c → Disjoint (L.frame (m t)) pins') : L.Represents m saved pins' where
  holds := h.holds
  apart := h.apart
  clear t c ht := by
    refine Set.disjoint_left.mpr fun a ha => ?_
    rintro (hs | hs)
    · exact Set.disjoint_left.mp (h.clear t c ht) ha (.inl hs)
    · exact Set.disjoint_left.mp (hp t c ht) ha hs

variable [DecidableEq α]

/-- **A context is given up.** -/
theorem Represents.drop (h : L.Represents m saved pins) (t : α) : L.Represents m (Function.update saved t .none) pins := by
  have hs : ∀ u c, Function.update saved t .none u = some c → saved u = some c := by
    intro u c hu
    by_cases e : u = t
    · rw [e, Function.update_self] at hu
      cases hu
    · rwa [Function.update_of_ne e] at hu
  refine ⟨fun u c hu => h.holds u c (hs u c hu), fun u v c d hu hv => h.apart u v c d (hs u c hu) (hs v d hv),
    fun u c hu => (h.clear u c (hs u c hu)).mono_right ?_⟩
  rintro a (ha | ha)
  · obtain ⟨d, hd⟩ := Option.isSome_iff_exists.mp ha
    exact .inl (mem_owners (hs a d hd))
  · exact .inr ha

/-- **A context is saved**, for a control block that has none, in a frame that meets nothing else. -/
theorem Represents.save (h : L.Represents m saved pins) (ht : saved t = .none) (hc : L.Holds m' (m' t) c)
    (he : ∀ a ∈ L.guarded m (owners saved), m' a = m a) (hclear : ∀ a ∈ L.frame (m' t), a ∉ L.guarded m (owners saved) ∧ a ≠ t ∧ a ∉ pins)
    (hout : ∀ u d, saved u = some d → t ∉ L.frame (m u)) : L.Represents m' (Function.update saved t (some c)) pins := by
  have h' := h.congr he
  have hs : ∀ u d, u ≠ t → Function.update saved t (some c) u = some d → saved u = some d := by
    intro u d e hu
    rwa [Function.update_of_ne e] at hu
  have htop : ∀ u d, saved u = some d → m' u = m u := fun u d hu => he u (mem_guarded_self hu)
  have hapart : ∀ u d, saved u = some d → Disjoint (L.frame (m' t)) (L.frame (m' u)) := by
    intro u d hu
    rw [htop u d hu]
    exact Set.disjoint_left.mpr fun a ha hau => (hclear a ha).1 (mem_guarded_of_frame hu hau)
  refine ⟨fun u d hu => ?_, fun u v d e hu hv hne => ?_, fun u d hu => ?_⟩
  · by_cases e : u = t
    · rw [e, Function.update_self] at hu
      cases hu
      rw [e]
      exact hc
    · exact h'.holds u d (hs u d e hu)
  · by_cases eu : u = t
    · rw [eu]
      exact hapart v e (hs v e (fun ev => hne (eu.trans ev.symm)) hv)
    · by_cases ev : v = t
      · rw [ev]
        exact (hapart u d (hs u d eu hu)).symm
      · exact h'.apart u v d e (hs u d eu hu) (hs v e ev hv) hne
  · refine Set.disjoint_left.mpr fun a ha hanc => ?_
    have hcase : a = t ∨ a ∈ owners saved ∪ pins := by
      rcases hanc with hs' | hp
      · by_cases e : a = t
        · exact .inl e
        · obtain ⟨d', hd'⟩ := Option.isSome_iff_exists.mp hs'
          exact .inr (.inl (mem_owners (hs a d' e hd')))
      · exact .inr (.inr hp)
    by_cases e : u = t
    · rw [e] at ha
      obtain ⟨hg, hne, hpin⟩ := hclear a ha
      rcases hcase with rfl | howner | hp
      · exact hne rfl
      · exact hg ⟨a, howner, .inl rfl⟩
      · exact hpin hp
    · have hu' := hs u d e hu
      rcases hcase with rfl | hanc
      · rw [htop u d hu'] at ha
        exact hout u d hu' ha
      · exact Set.disjoint_left.mp (h'.clear u d hu') ha hanc

/-- **A context changes where it is saved.** -/
theorem Represents.change {d : R → α} (h : L.Represents m saved pins) (ht : saved t = some d)
    (hc : L.Holds m' (m t) c) (he : ∀ a, a ∉ L.frame (m t) → m' a = m a) :
    L.Represents m' (Function.update saved t (some c)) pins := by
  have htop : ∀ u e, saved u = some e → m' u = m u := by
    intro u e hu
    exact he u fun ha => Set.disjoint_left.mp (h.clear t d ht) ha (.inl (mem_owners hu))
  have hs : ∀ u e, Function.update saved t (some c) u = some e → ∃ e', saved u = some e' := by
    intro u e hu
    by_cases eu : u = t
    · exact ⟨d, eu ▸ ht⟩
    · rw [Function.update_of_ne eu] at hu
      exact ⟨e, hu⟩
  refine ⟨fun u e hu => ?_, fun u v e e' hu hv hne => ?_, fun u e hu => ?_⟩
  · by_cases eu : u = t
    · rw [eu, Function.update_self] at hu
      cases hu
      rw [eu, htop t d ht]
      exact hc
    · rw [Function.update_of_ne eu] at hu
      intro r
      have hd := Set.disjoint_left.mp (h.apart u t e d hu ht eu) (mem_frame _ r)
      rw [htop u e hu, he _ hd]
      exact h.holds u e hu r
  · obtain ⟨d₁, h₁⟩ := hs u e hu
    obtain ⟨d₂, h₂⟩ := hs v e' hv
    rw [htop u d₁ h₁, htop v d₂ h₂]
    exact h.apart u v d₁ d₂ h₁ h₂ hne
  · obtain ⟨d₁, h₁⟩ := hs u e hu
    rw [htop u d₁ h₁]
    refine (h.clear u d₁ h₁).mono_right ?_
    rintro a (ha | ha)
    · obtain ⟨e', he'⟩ := Option.isSome_iff_exists.mp ha
      obtain ⟨d₂, h₂⟩ := hs a e' he'
      exact .inl (mem_owners h₂)
    · exact .inr ha

end Layout

end Aixos.SavedContexts
