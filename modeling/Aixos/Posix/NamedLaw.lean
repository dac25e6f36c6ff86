import Aixos.Posix.NamedMoves

/-!
# Counted references

A named object is there from the open that makes it until it is deleted: while a name is linked to it or it is open.

* `Shelf` — what there is of each entry: the name, the object, whether they are linked, and the opens that are not
  closed.
* `Shows` — the entries and the calls that go on, seen as a shelf.
* `Stocked` — the shelf agrees with a catalogue of what has been observed, and its objects are live and distinct.
* `Named.named_of_path` — every run is accepted by the catalogue, and its end agrees with it.
-/

namespace Aixos

open Transition

/-- The names and objects of both kinds. -/
abbrev NamedCatalogue := Catalogue (NamedKind × CString) (NamedKind × Handle)

/-- What there is of an object. -/
structure Holding where
  name : CString
  native : Handle
  linked : Bool
  /-- the opens that have not been closed -/
  held : ℕ

/-- What there is of the objects of each kind. -/
abbrev Shelf := NamedKind → ℕ → Option Holding

namespace Shelf

/-- Put a holding into a place. -/
def set (S : Shelf) (kind : NamedKind) (i : ℕ) (x : Option Holding) : Shelf :=
  Function.update S kind (Function.update (S kind) i x)

variable {S : Shelf} {kind : NamedKind} {i : ℕ} {x : Option Holding}

theorem set_apply (S : Shelf) (kind : NamedKind) (i : ℕ) (x : Option Holding) (kind' : NamedKind) (j : ℕ) :
    S.set kind i x kind' j = if kind' = kind ∧ j = i then x else S kind' j := by
  unfold set
  rw [Function.update_apply]
  split
  · rename_i hk
    subst hk
    rw [Function.update_apply]
    simp only [true_and]
  · rename_i hk
    rw [if_neg fun h => hk h.1]

theorem set_self (h : S kind i = x) : S.set kind i x = S := by
  subst h
  simp [set]

theorem set_set (y : Option Holding) : (S.set kind i x).set kind i y = S.set kind i y := by simp [set]

end Shelf

/-! ### The shelf and the catalogue -/

/-- The shelf agrees with the catalogue, and the kernel has what is on it. -/
structure Stocked [Config] (k : Kernel) (S : Shelf) (C : NamedCatalogue) : Prop where
  live : ∀ kind i x, S kind i = some x → k.Live kind.objKind x.native
  apart : ∀ kind i j x y, S kind i = some x → S kind j = some y → x.native = y.native → i = j
  linked : ∀ kind i x, S kind i = some x → x.linked = true → C.link (kind, x.name) = some (kind, x.native)
  unlinked : ∀ kind n, (∀ i x, S kind i = some x → x.linked = true → x.name ≠ n) → C.link (kind, n) = none
  counted : ∀ kind i x, S kind i = some x → ∃ y, C.item (kind, x.native) = some y ∧ y.linked = x.linked ∧
    y.opens = y.closes + x.held
  absent : ∀ kind h, (∀ i x, S kind i = some x → x.native ≠ h) → C.item (kind, h) = none

namespace Stocked

variable [cfg : Config]

variable {k k' : Kernel} {S : Shelf} {C : NamedCatalogue} {kind : NamedKind} {i j : ℕ} {x x' : Holding} {y : Catalogue.Item}

theorem empty (k : Kernel) : Stocked k (fun _ _ => none) Catalogue.empty :=
  ⟨nofun, nofun, nofun, fun _ _ _ => rfl, nofun, fun _ _ _ => rfl⟩

omit cfg in
/-- What is on the shelf after a change of one place. -/
theorem set_cases {S : Shelf} {z : Option Holding} {kind' : NamedKind} (h : S.set kind i z kind' j = some x) :
    kind' = kind ∧ j = i ∧ z = some x ∨ ¬ (kind' = kind ∧ j = i) ∧ S kind' j = some x := by
  rw [Shelf.set_apply] at h
  split at h
  · rename_i hk
    exact .inl ⟨hk.1, hk.2, h⟩
  · rename_i hk
    exact .inr ⟨hk, h⟩

/-- Two linked holdings have different names. -/
theorem distinct (h : Stocked k S C) (hx : S kind i = some x) (hx' : S kind j = some x') (hl : x.linked = true)
    (hl' : x'.linked = true) (hn : x.name = x'.name) : i = j := by
  have h₁ := h.linked kind i x hx hl
  rw [hn, h.linked kind j x' hx' hl', Option.some_inj] at h₁
  exact h.apart kind i j x x' hx hx' (Prod.mk.inj h₁).2.symm

/-- Other objects change. -/
theorem kernel (h : Stocked k S C) (hk : ∀ kind i x, S kind i = some x → k.Live kind.objKind x.native →
    k'.Live kind.objKind x.native) : Stocked k' S C :=
  { h with live := fun kind i x hx => hk kind i x hx (h.live kind i x hx) }

/-- A holding changes, but not its name and its object. -/
theorem change (h : Stocked k S C) (hx : S kind i = some x) (x' : Holding) (y : Catalogue.Item) (hn : x'.name = x.name) (hv : x'.native = x.native)
    (hy : y.linked = x'.linked) (hc : y.opens = y.closes + x'.held) {L : NamedKind × CString → Option (NamedKind × Handle)}
    (hothers : ∀ kind' j z, S kind' j = some z → ¬ (kind' = kind ∧ j = i) → z.linked = true →
      L (kind', z.name) = C.link (kind', z.name))
    (hlinked : x'.linked = true → x.linked = true ∧ L (kind, x.name) = C.link (kind, x.name))
    (hunlinked : x.linked = true → x'.linked = false → L (kind, x.name) = none)
    (hnone : ∀ n, C.link n = none → L n = none) :
    Stocked k (S.set kind i (some x')) { link := L, item := Function.update C.item (kind, x.native) (some y) } := by
  have hput : ∀ {kind' j z'}, S kind' j = some z' → ∃ z, S.set kind i (some x') kind' j = some z ∧
      z.native = z'.native := by
    intro kind' j z' hz
    rw [Shelf.set_apply]
    split
    · rename_i e
      obtain ⟨rfl, rfl⟩ := e
      rw [hx] at hz
      cases hz
      exact ⟨x', rfl, hv⟩
    · exact ⟨z', hz, rfl⟩
  have hget : ∀ {kind' j z}, S.set kind i (some x') kind' j = some z → ∃ z', S kind' j = some z' ∧
      z'.native = z.native := by
    intro kind' j z hz
    rcases set_cases hz with ⟨rfl, rfl, e⟩ | ⟨-, hz⟩
    · cases e
      exact ⟨x, hx, hv.symm⟩
    · exact ⟨z, hz, rfl⟩
  refine ⟨fun kind' j z hz => ?_, fun kind' j l z z' hz hz' hnat => ?_, fun kind' j z hz hzl => ?_, fun kind' n hall => ?_,
    fun kind' j z hz => ?_, fun kind' v hall => ?_⟩
  · obtain ⟨z', hz', e⟩ := hget hz
    rw [← e]
    exact h.live kind' j z' hz'
  · obtain ⟨w, hw, e⟩ := hget hz
    obtain ⟨w', hw', e'⟩ := hget hz'
    exact h.apart kind' j l w w' hw hw' ((e.trans hnat).trans e'.symm)
  · dsimp only
    rcases set_cases hz with ⟨rfl, rfl, e⟩ | ⟨hne, hz₀⟩
    · cases e
      rw [hn, hv, (hlinked hzl).2]
      exact h.linked kind' j x hx (hlinked hzl).1
    · rw [hothers kind' j z hz₀ hne hzl]
      exact h.linked kind' j z hz₀ hzl
  · dsimp only
    by_cases hname : kind' = kind ∧ x.linked = true ∧ x.name = n
    · obtain ⟨rfl, hl, rfl⟩ := hname
      refine hunlinked hl (Bool.eq_false_iff.mpr fun hl' => ?_)
      exact hall i x' (by rw [Shelf.set_apply, if_pos ⟨rfl, rfl⟩]) hl' hn
    · refine hnone _ (h.unlinked kind' n fun j z hz hzl e => ?_)
      by_cases hk : kind' = kind ∧ j = i
      · obtain ⟨rfl, rfl⟩ := hk
        rw [hx] at hz
        cases hz
        exact hname ⟨rfl, hzl, e⟩
      · exact hall j z (by rw [Shelf.set_apply, if_neg hk, hz]) hzl e
  · dsimp only
    rcases set_cases hz with ⟨rfl, rfl, e⟩ | ⟨hne, hz₀⟩
    · cases e
      rw [hv, Function.update_self]
      exact ⟨y, rfl, hy, hc⟩
    · rw [Function.update_of_ne]
      · exact h.counted kind' j z hz₀
      · intro e
        obtain ⟨rfl, e₁⟩ := Prod.mk.inj e
        exact hne ⟨rfl, h.apart kind' j i z x hz₀ hx e₁⟩
  · dsimp only
    rw [Function.update_of_ne]
    · refine h.absent kind' v fun j z' hz' e => ?_
      obtain ⟨z, hz, e₂⟩ := hput hz'
      exact hall j z hz (e₂.trans e)
    · intro e
      obtain ⟨rfl, rfl⟩ := Prod.mk.inj e
      obtain ⟨z, hz, e₂⟩ := hput hx
      exact hall i z hz e₂

/-- An object is opened or closed once more. -/
theorem count (h : Stocked k S C) (hx : S kind i = some x) {m : ℕ} (hy : y.linked = x.linked)
    (hc : y.opens = y.closes + m) : Stocked k (S.set kind i (some { x with held := m }))
      { C with item := Function.update C.item (kind, x.native) (some y) } :=
  h.change hx { x with held := m } y rfl rfl hy hc (fun _ _ _ _ _ _ => rfl) (fun hl => ⟨hl, rfl⟩) (fun hl hl' => by simp_all) fun _ hn => hn

/-- A name is unlinked. -/
theorem unlink (h : Stocked k S C) (hx : S kind i = some x) (hl : x.linked = true)
    (hc : y.opens = y.closes + x.held) : Stocked k (S.set kind i (some { x with linked := false }))
      { link := Function.update C.link (kind, x.name) none
        item := Function.update C.item (kind, x.native) (some { y with linked := false }) } := by
  refine h.change hx { x with linked := false } { y with linked := false } rfl rfl rfl hc
    (fun kind' j z hz hne hzl => ?_) (fun hl => absurd hl Bool.false_ne_true) (fun _ _ => Function.update_self ..) fun n hn => ?_
  · rw [Function.update_of_ne]
    intro e
    obtain ⟨rfl, e₁⟩ := Prod.mk.inj e
    exact hne ⟨rfl, h.distinct hz hx hzl hl e₁⟩
  · rw [Function.update_apply]
    split
    · rfl
    · exact hn

/-- An object is made. -/
theorem make (h : Stocked k S C) (hS : S kind i = none) (hl : x.linked = true)
    (hn : ∀ j z, S kind j = some z → z.linked = true → z.name ≠ x.name) (hx : x.held = 1)
    (hk : k.Created k' kind.objKind x.native) : Stocked k' (S.set kind i (some x))
      { link := Function.update C.link (kind, x.name) (some (kind, x.native))
        item := Function.update C.item (kind, x.native) (some { linked := true, opens := 1, closes := 0 }) } := by
  have hfresh : ∀ j z, S kind j = some z → z.native ≠ x.native := by
    intro j z hz e
    have hlive := h.live kind j z hz
    rw [e] at hlive
    exact hk.fresh hlive
  refine ⟨fun kind' j z hz => ?_, fun kind' j l z z' hz hz' hnat => ?_, fun kind' j z hz hzl => ?_, fun kind' n hall => ?_,
    fun kind' j z hz => ?_, fun kind' v hall => ?_⟩
  · rcases set_cases hz with ⟨rfl, rfl, e⟩ | ⟨-, hz⟩
    · cases e
      exact hk.live
    · exact hk.keeps _ _ (h.live kind' j z hz)
  · rcases set_cases hz with ⟨rfl, rfl, e⟩ | ⟨-, hz₀⟩
    · cases e
      rcases set_cases hz' with ⟨-, rfl, -⟩ | ⟨-, hz₁⟩
      · rfl
      · exact absurd hnat.symm (hfresh l z' hz₁)
    · rcases set_cases hz' with ⟨rfl, rfl, e⟩ | ⟨-, hz₁⟩
      · cases e
        exact absurd hnat (hfresh j z hz₀)
      · exact h.apart kind' j l z z' hz₀ hz₁ hnat
  · dsimp only
    rcases set_cases hz with ⟨rfl, rfl, e⟩ | ⟨-, hz₀⟩
    · cases e
      exact Function.update_self ..
    · rw [Function.update_of_ne]
      · exact h.linked kind' j z hz₀ hzl
      · intro e
        obtain ⟨rfl, e₁⟩ := Prod.mk.inj e
        exact hn j z hz₀ hzl e₁
  · dsimp only
    rw [Function.update_of_ne]
    · refine h.unlinked kind' n fun j z hz => hall j z ?_
      rw [Shelf.set_apply, if_neg]
      · exact hz
      · rintro ⟨rfl, rfl⟩
        rw [hS] at hz
        cases hz
    · intro e
      obtain ⟨rfl, rfl⟩ := Prod.mk.inj e
      exact hall i x (by rw [Shelf.set_apply, if_pos ⟨rfl, rfl⟩]) hl rfl
  · dsimp only
    rcases set_cases hz with ⟨rfl, rfl, e⟩ | ⟨-, hz₀⟩
    · cases e
      rw [Function.update_self]
      exact ⟨_, rfl, hl.symm, by simp [hx]⟩
    · rw [Function.update_of_ne]
      · exact h.counted kind' j z hz₀
      · intro e
        obtain ⟨rfl, e₁⟩ := Prod.mk.inj e
        exact hfresh j z hz₀ e₁
  · dsimp only
    rw [Function.update_of_ne]
    · refine h.absent kind' v fun j z hz => hall j z ?_
      rw [Shelf.set_apply, if_neg]
      · exact hz
      · rintro ⟨rfl, rfl⟩
        rw [hS] at hz
        cases hz
    · intro e
      obtain ⟨rfl, rfl⟩ := Prod.mk.inj e
      exact hall i x (by rw [Shelf.set_apply, if_pos ⟨rfl, rfl⟩]) rfl

/-- An object that no name is linked to is deleted. -/
theorem remove (h : Stocked k S C) (hx : S kind i = some x) (hl : x.linked = false)
    (hk : k.Deleted k' kind.objKind x.native) : Stocked k' (S.set kind i none)
      { C with item := Function.update C.item (kind, x.native) none } := by
  have hget : ∀ {kind' j z}, S.set kind i none kind' j = some z → ¬ (kind' = kind ∧ j = i) ∧ S kind' j = some z := by
    intro kind' j z hz
    rcases set_cases hz with ⟨-, -, ⟨⟩⟩ | hz
    exact hz
  have hne : ∀ {kind' j z}, S.set kind i none kind' j = some z → (kind', z.native) ≠ (kind, x.native) := by
    intro kind' j z hz e
    obtain ⟨hk, hz₀⟩ := hget hz
    obtain ⟨rfl, e₁⟩ := Prod.mk.inj e
    exact hk ⟨rfl, h.apart kind' j i z x hz₀ hx e₁⟩
  refine ⟨fun kind' j z hz => ?_, fun kind' j l z z' hz hz' => h.apart kind' j l z z' (hget hz).2 (hget hz').2,
    fun kind' j z hz => h.linked kind' j z (hget hz).2, fun kind' n hall => ?_, fun kind' j z hz => ?_, fun kind' v hall => ?_⟩
  · refine hk.keeps _ _ (h.live kind' j z (hget hz).2) fun e => hne hz ?_
    have hkind : kind' = kind := by
      have := e.1
      cases kind' <;> cases kind <;> first | rfl | cases this
    rw [hkind, e.2]
  · refine h.unlinked kind' n fun j z hz hzl => hall j z ?_ hzl
    rw [Shelf.set_apply, if_neg]
    · exact hz
    · rintro ⟨rfl, rfl⟩
      rw [hx] at hz
      cases hz
      rw [hl] at hzl
      cases hzl
  · dsimp only
    rw [Function.update_of_ne (hne hz)]
    exact h.counted kind' j z (hget hz).2
  · dsimp only
    rw [Function.update_apply]
    split
    · rfl
    · rename_i hv
      refine h.absent kind' v fun j z hz e => hall j z ?_ e
      rw [Shelf.set_apply, if_neg]
      · exact hz
      · rintro ⟨rfl, rfl⟩
        rw [hx] at hz
        cases hz
        exact hv (by rw [e])

/-- An open of a linked name. -/
theorem accepts_opened (h : Stocked k S C) (hx : S kind i = some x) (hl : x.linked = true) :
    ∃ C', C.next (.opened (kind, x.name) (kind, x.native)) = some C' ∧
      Stocked k (S.set kind i (some { x with held := x.held + 1 })) C' := by
  obtain ⟨y, hy, hyl, hc⟩ := h.counted kind i x hx
  refine ⟨_, Catalogue.next_opened_linked (h.linked kind i x hx hl) hy, h.count hx hyl ?_⟩
  dsimp only
  omega

/-- An open that makes an object. -/
theorem accepts_made (h : Stocked k S C) (hS : S kind i = none)
    (hn : ∀ j z, S kind j = some z → z.linked = true → z.name ≠ x.name) (hl : x.linked = true) (hx : x.held = 1)
    (hk : k.Created k' kind.objKind x.native) :
    ∃ C', C.next (.opened (kind, x.name) (kind, x.native)) = some C' ∧ Stocked k' (S.set kind i (some x)) C' := by
  have hnative : ∀ j z, S kind j = some z → z.native ≠ x.native := by
    intro j z hz e
    exact hk.fresh (e ▸ h.live kind j z hz)
  exact ⟨_, Catalogue.next_opened_new (h.unlinked kind x.name hn) (h.absent kind x.native hnative), h.make hS hl hn hx hk⟩

/-- A close of an object that is open. -/
theorem accepts_closed (h : Stocked k S C) (hx : S kind i = some x) {m : ℕ} (hm : x.held = m + 1) :
    ∃ C', C.next (.closed (kind, x.native)) = some C' ∧ Stocked k (S.set kind i (some { x with held := m })) C' := by
  obtain ⟨y, hy, hyl, hc⟩ := h.counted kind i x hx
  refine ⟨_, Catalogue.next_closed hy (by omega), h.count hx hyl ?_⟩
  dsimp only
  omega

/-- An unlink. -/
theorem accepts_unlinked (h : Stocked k S C) (hx : S kind i = some x) (hl : x.linked = true) :
    ∃ C', C.next (.unlinked (kind, x.name)) = some C' ∧
      Stocked k (S.set kind i (some { x with linked := false })) C' := by
  obtain ⟨y, hy, -, hc⟩ := h.counted kind i x hx
  exact ⟨_, Catalogue.next_unlinked (h.linked kind i x hx hl) hy, h.unlink hx hl hc⟩

/-- The deletion of an object that is neither linked nor open. -/
theorem accepts_deleted (h : Stocked k S C) (hx : S kind i = some x) (hl : x.linked = false) (hm : x.held = 0)
    (hk : k.Deleted k' kind.objKind x.native) :
    ∃ C', C.next (.deleted (kind, x.native)) = some C' ∧ Stocked k' (S.set kind i none) C' := by
  obtain ⟨y, hy, hyl, hc⟩ := h.counted kind i x hx
  exact ⟨_, Catalogue.next_deleted hy (hyl.trans hl) (by omega), h.remove hx hl hk⟩

end Stocked

/-! ### The entries and the shelf -/

/-- A close that goes on counts as an open until it has deleted the object. -/
def NamedStage.outstanding : NamedStage → ℕ
  | .closeDelete | .closeUndo => 1
  | .unlinkDelete | .clear => 0

/-- What there is of the object of an entry, which a call may have at a stage. -/
def holding (x : Option NamedEntry) : Option NamedStage → Option Holding
  | some .clear => none
  | o => x.map fun e => ⟨e.name, e.native, !e.unlinked, e.references.toNat + o.elim 0 NamedStage.outstanding⟩

namespace Named

/-- The stage of the call that has an entry. -/
def StageAt (s : Named) (kind : NamedKind) (i : ℕ) : Option NamedStage → Prop
  | none => s.Free kind i
  | some stage => ∃ t p, s.pending t = some p ∧ p.kind = kind ∧ p.index = i ∧ p.stage = stage

/-- The entries and the calls that go on are the shelf. -/
def Shows (s : Named) (S : Shelf) : Prop := ∀ kind i, ∃ o, s.StageAt kind i o ∧ S kind i = holding (s.entry kind i) o

/-- The objects of used entries are not deleted by other means. -/
def Undisturbed [Config] (s : Named) (a : NamedAct) : Prop := ∀ f, a = .other f → ∀ kind i e, s.entry kind i = some e →
  s.kernel.Live kind.objKind e.native → (f s.kernel).Live kind.objKind e.native

variable [cfg : Config]

variable {s s' : Named} {S : Shelf} {C : NamedCatalogue} {a : NamedAct} {evs : List NamedEvent} {t : TaskId}
  {kind : NamedKind} {i : ℕ} {e : NamedEntry} {x : Option NamedEntry} {r : NamedResult ⊕ NamedPending} {p : NamedPending}
  {k : Kernel}

omit cfg in
theorem shows_init (k : Kernel) : Shows (init k) fun _ _ => none := fun _ _ => ⟨none, nofun, rfl⟩

omit cfg in
/-- An entry that no call has. -/
theorem Shows.free (h : Shows s S) (hf : s.Free kind i) : S kind i = holding (s.entry kind i) none := by
  obtain ⟨o, ho, hS⟩ := h kind i
  cases o with
  | none => exact hS
  | some stage =>
    obtain ⟨u, q, hq, hk, hj, -⟩ := ho
    exact absurd ⟨hk, hj⟩ (hf u q hq)

/-- An entry that a call has. -/
theorem Shows.busy (h : Shows s S) (ho : Orderly s) (hp : s.pending t = some p) :
    S p.kind p.index = holding (s.entry p.kind p.index) (some p.stage) := by
  obtain ⟨o, hst, hS⟩ := h p.kind p.index
  cases o with
  | none => exact absurd ⟨rfl, rfl⟩ (hst t p hp)
  | some stage =>
    obtain ⟨u, q, hq, hk, hj, rfl⟩ := hst
    obtain rfl := ho.own u t q p hq hp hk hj
    rw [hp] at hq
    cases hq
    exact hS

omit cfg in
/-- A task changes an entry that no other call has, and goes on with that entry if it goes on. -/
theorem Shows.settle (h : Shows s S) (hothers : ∀ u q, s.pending u = some q → q.kind = kind → q.index = i → u = t)
    (hself : ∀ q, s.pending t = some q → q.kind = kind ∧ q.index = i)
    (hr : ∀ q, r = .inr q → q.kind = kind ∧ q.index = i) :
    Shows (Named.settle t ({ s with kernel := k }.setEntry kind i x, r))
      (S.set kind i (holding x (r.getRight?.map NamedPending.stage))) := by
  intro kind' j
  rw [settle_entry, setEntry_entry, Shelf.set_apply]
  by_cases hk : kind' = kind ∧ j = i
  · rw [if_pos hk, if_pos hk]
    obtain ⟨rfl, rfl⟩ := hk
    refine ⟨_, ?_, rfl⟩
    cases r with
    | inl r =>
      rintro u q hq ⟨hk, hj⟩
      rw [settle_pending] at hq
      split at hq
      · cases hq
      · rename_i hu
        exact hu (hothers u q hq hk hj)
    | inr q => exact ⟨t, q, by rw [settle_pending, if_pos rfl]; rfl, (hr q rfl).1, (hr q rfl).2, rfl⟩
  · rw [if_neg hk, if_neg hk]
    obtain ⟨o, ho, hS⟩ := h kind' j
    refine ⟨o, ?_, hS⟩
    cases o with
    | none =>
      rintro u q hq ⟨hk', hj⟩
      rw [settle_pending] at hq
      split at hq
      · obtain ⟨h₁, h₂⟩ := hr q (Sum.getRight?_eq_some_iff.mp hq)
        exact hk ⟨hk'.symm.trans h₁, hj.symm.trans h₂⟩
      · exact ho u q hq ⟨hk', hj⟩
    | some stage =>
      obtain ⟨u, q, hq, hk', hj, hst⟩ := ho
      refine ⟨u, q, ?_, hk', hj, hst⟩
      rw [settle_pending, if_neg]
      · exact hq
      · rintro rfl
        obtain ⟨h₁, h₂⟩ := hself q hq
        exact hk ⟨hk'.symm.trans h₁, hj.symm.trans h₂⟩

omit cfg in
/-- The same, for a call that begins, with an entry that no call has. -/
theorem Shows.settle_call (h : Shows s S) (hp : s.pending t = none) (hf : s.Free kind i)
    (hr : ∀ q, r = .inr q → q.kind = kind ∧ q.index = i) :
    Shows (Named.settle t (s.setEntry kind i x, r)) (S.set kind i (holding x (r.getRight?.map NamedPending.stage))) :=
  h.settle (k := s.kernel) (fun u q hq hk hj => absurd ⟨hk, hj⟩ (hf u q hq)) (fun q hq => by rw [hp] at hq; cases hq) hr

/-- The same, for a call that goes on. -/
theorem Shows.settle_goOn (h : Shows s S) (ho : Orderly s) (hp : s.pending t = some p)
    (hr : ∀ q, r = .inr q → q.kind = p.kind ∧ q.index = p.index) :
    Shows (Named.settle t ({ s with kernel := k }.setEntry p.kind p.index x, r))
      (S.set p.kind p.index (holding x (r.getRight?.map NamedPending.stage))) :=
  h.settle (fun u q hq hk hj => ho.own u t q p hq hp hk hj) (fun q hq => by rw [hp] at hq; cases hq; exact ⟨rfl, rfl⟩) hr

/-- The same, where the entry stays. -/
theorem Shows.settle_stay (h : Shows s S) (ho : Orderly s) (hp : s.pending t = some p)
    (hr : ∀ q, r = .inr q → q.kind = p.kind ∧ q.index = p.index) :
    Shows (Named.settle t ({ s with kernel := k }, r))
      (S.set p.kind p.index (holding (s.entry p.kind p.index) (r.getRight?.map NamedPending.stage))) := by
  have h₁ := h.settle_goOn (x := s.entry p.kind p.index) (k := k) ho hp hr
  rwa [setEntry_self (s := { s with kernel := k }) rfl] at h₁

omit cfg in
/-- What is on the shelf has an entry. -/
theorem Shows.entry (h : Shows s S) {z : Holding} (hz : S kind i = some z) : ∃ e, s.entry kind i = some e ∧
    z.name = e.name ∧ z.native = e.native ∧ z.linked = !e.unlinked := by
  obtain ⟨o, -, hS⟩ := h kind i
  rw [hz] at hS
  unfold holding at hS
  split at hS
  · cases hS
  · obtain ⟨e, he, rfl⟩ := Option.map_eq_some_iff.mp hS.symm
    exact ⟨e, he, rfl, rfl, rfl⟩

omit cfg in
theorem Shows.free_some (h : Shows s S) (hf : s.Free kind i) (he : s.entry kind i = some e) :
    S kind i = some ⟨e.name, e.native, !e.unlinked, e.references.toNat⟩ := by
  rw [h.free hf, he]
  rfl

/-- The shelf where a call has an entry whose object it has not deleted. -/
theorem Shows.busy_some (h : Shows s S) (ho : Orderly s) (hp : s.pending t = some p) (hst : p.stage ≠ .clear) :
    ∃ e, s.entry p.kind p.index = some e ∧ e.unlinked = true ∧ e.references = 0 ∧ e.native = p.native ∧
      S p.kind p.index = some ⟨e.name, e.native, false, p.stage.outstanding⟩ := by
  obtain ⟨e, he, hl, hr, hn⟩ := ho.busy t p hp
  refine ⟨e, he, hl, hr, hn, ?_⟩
  rw [h.busy ho hp, he]
  cases hs : p.stage <;> simp_all [holding]

section Moves

omit cfg in
theorem references_pred {n : BitVec 16} (h : n ≠ 0) : n.toNat = (n - 1).toNat + 1 := by
  have hne : n.toNat ≠ 0 := fun e => h (BitVec.eq_of_toNat_eq e)
  have hlt := n.isLt
  rw [BitVec.toNat_sub]
  show n.toNat = (65536 - 1 + n.toNat) % 65536 + 1
  omega

omit cfg in
/-- A call that is refused. -/
theorem Shows.refused (h : Shows s S) (hp : s.pending t = none) (res : NamedResult) :
    Shows (Named.settle t (s, .inl res)) S := by
  have hpend : (Named.settle t (s, .inl res)).pending = s.pending := by
    funext u
    rw [settle_pending]
    split
    · rename_i hu
      rw [hu, hp]
      rfl
    · rfl
  intro kind i
  obtain ⟨o, ho, hS⟩ := h kind i
  refine ⟨o, ?_, hS⟩
  unfold StageAt Free at ho ⊢
  rwa [hpend]

theorem stocked_reopened (ho : Orderly s) (hS : Shows s S) (hC : Stocked s.kernel S C) (hp : s.pending t = none)
    (he : s.entry kind i = some e) (hl : e.unlinked = false) (hr : e.references ≠ 0xFFFF) (res : NamedResult) :
    ∃ S' C', run Catalogue.next C [.opened (kind, e.name) (kind, e.native)] = some C' ∧
      Shows (Named.settle t (s.setEntry kind i (some { e with references := e.references + 1 }), .inl res)) S' ∧
      Stocked s.kernel S' C' := by
  have hf := ho.free he (.inl hl)
  have hx := hS.free_some hf he
  have hsucc : (e.references + 1).toNat = e.references.toNat + 1 := by
    have hne : e.references.toNat ≠ 65535 := fun h => hr (BitVec.eq_of_toNat_eq h)
    rw [BitVec.toNat_add]
    have := e.references.isLt
    show (e.references.toNat + 1) % 65536 = _
    omega
  obtain ⟨C', hC', hst⟩ := hC.accepts_opened hx (by simp [hl])
  refine ⟨_, C', by rw [run_one]; exact hC', hS.settle_call hp hf nofun, ?_⟩
  rw [← hsucc] at hst
  exact hst

theorem stocked_created (ho : Orderly s) (hS : Shows s S) (hC : Stocked s.kernel S C) (hp : s.pending t = none)
    (hi : s.entry kind i = none) (hr : e.references = 1) (hl : e.unlinked = false) (hf : s.findName kind e.name = none)
    (hc : s.kernel.Created k kind.objKind e.native) (res : NamedResult) :
    ∃ S' C', run Catalogue.next C [.opened (kind, e.name) (kind, e.native)] = some C' ∧
      Shows (Named.settle t ({ s with kernel := k }.setEntry kind i (some e), .inl res)) S' ∧ Stocked k S' C' := by
  have hfree := ho.free_of_none hi
  have hnone : S kind i = none := by
    rw [hS.free hfree, hi]
    rfl
  have hname : ∀ j z, S kind j = some z → z.linked = true → z.name ≠ e.name := by
    intro j z hz hzl
    obtain ⟨e', he', h₁, -, h₃⟩ := hS.entry hz
    rw [h₁]
    exact findName_eq_none hf (ho.bound _ _ _ he') he' (by simpa [hzl] using h₃)
  obtain ⟨C', hC', hst⟩ := hC.accepts_made (x := ⟨e.name, e.native, true, 1⟩) hnone hname rfl rfl hc
  have hh : holding (some e) none = some ⟨e.name, e.native, true, 1⟩ := by simp [holding, hr, hl]
  refine ⟨_, C', by rw [run_one]; exact hC', hS.settle (fun u q hq hk hj => absurd ⟨hk, hj⟩ (hfree u q hq))
    (fun q hq => by rw [hp] at hq; cases hq) nofun, ?_⟩
  rw [← hh] at hst
  exact hst

theorem stocked_closed (ho : Orderly s) (hS : Shows s S) (hC : Stocked s.kernel S C) (hp : s.pending t = none)
    (he : s.entry kind i = some e) (hr : e.references ≠ 0) (res : NamedResult) :
    ∃ S' C', run Catalogue.next C [.closed (kind, e.native)] = some C' ∧
      Shows (Named.settle t (s.setEntry kind i (some { e with references := e.references - 1 }), .inl res)) S' ∧
      Stocked s.kernel S' C' := by
  have hf := ho.free he (.inr hr)
  obtain ⟨C', hC', hst⟩ := hC.accepts_closed (hS.free_some hf he) (references_pred hr)
  exact ⟨_, C', by rw [run_one]; exact hC', hS.settle_call hp hf nofun, hst⟩

theorem stocked_unlinked (ho : Orderly s) (hS : Shows s S) (hC : Stocked s.kernel S C) (hp : s.pending t = none)
    (he : s.entry kind i = some e) (hl : e.unlinked = false) (hr : ∀ q, r = .inr q → q.kind = kind ∧ q.index = i ∧
      q.stage = .unlinkDelete) :
    ∃ S' C', run Catalogue.next C [.unlinked (kind, e.name)] = some C' ∧
      Shows (Named.settle t (s.setEntry kind i (some { e with unlinked := true }), r)) S' ∧ Stocked s.kernel S' C' := by
  have hf := ho.free he (.inl hl)
  obtain ⟨C', hC', hst⟩ := hC.accepts_unlinked (hS.free_some hf he) (by simp [hl])
  refine ⟨_, C', by rw [run_one]; exact hC', hS.settle_call hp hf fun q hq => ⟨(hr q hq).1, (hr q hq).2.1⟩, ?_⟩
  cases r with
  | inl r => exact hst
  | inr q =>
    rw [Sum.getRight?_inr, Option.map_some, (hr q rfl).2.2]
    exact hst

end Moves

/-- **One step** keeps the shelf and the catalogue in agreement. -/
theorem stocked_move (ho : Orderly s) (hS : Shows s S) (hC : Stocked s.kernel S C) (hu : Undisturbed s a)
    (hm : Move s a evs s') :
    ∃ S' C', run Catalogue.next C evs = some C' ∧ Shows s' S' ∧ Stocked s'.kernel S' C' := by
  cases hm with
  | refused errno hp => exact ⟨S, C, rfl, hS.refused hp _, hC⟩
  | reopened hp he hl hr => exact stocked_reopened ho hS hC hp he hl hr _
  | created hp hi he hr hl hf hc => exact stocked_created ho hS hC hp he hr hl hf hc _
  | closed hp he hr hd => exact stocked_closed ho hS hC hp he hr _
  | @closing t c kind i e hp he hr hd hl =>
    have hf := ho.free he (.inr hr)
    have h₁ := hS.settle_call (x := some { e with references := e.references - 1 })
      (r := .inr ⟨.closeDelete, kind, i, e.native⟩) hp hf (by rintro _ ⟨⟩; exact ⟨rfl, rfl⟩)
    refine ⟨S, C, rfl, ?_, hC⟩
    rwa [Shelf.set_self] at h₁
    rw [hS.free_some hf he, references_pred hr]
    rfl
  | unlinked hp he hl hr => exact stocked_unlinked ho hS hC hp he hl (by rintro _ ⟨⟩)
  | unlinking hp he hl hr => exact stocked_unlinked ho hS hC hp he hl (by rintro _ ⟨⟩; exact ⟨rfl, rfl, rfl⟩)
  | @closeDeleted t kind i h k hp hd =>
    obtain ⟨e, he, hl, hr, rfl, hx⟩ := hS.busy_some ho hp (by rintro ⟨⟩)
    obtain ⟨C₁, hC₁, h₁⟩ := hC.accepts_closed (m := 0) hx rfl
    obtain ⟨C₂, hC₂, h₂⟩ := h₁.accepts_deleted (x := ⟨e.name, e.native, false, 0⟩) (by rw [Shelf.set_apply, if_pos ⟨rfl, rfl⟩])
      rfl rfl hd
    refine ⟨_, C₂, ?_, hS.settle_stay ho hp (by rintro _ ⟨⟩; exact ⟨rfl, rfl⟩), ?_⟩
    · rw [run, hC₁]
      exact run_one.trans hC₂
    · rw [Shelf.set_set] at h₂
      exact h₂
  | @unlinkDeleted t kind i h k hp hd =>
    obtain ⟨e, he, hl, hr, rfl, hx⟩ := hS.busy_some ho hp (by rintro ⟨⟩)
    obtain ⟨C', hC', h₁⟩ := hC.accepts_deleted hx rfl rfl hd
    exact ⟨_, C', by rw [run_one]; exact hC', hS.settle_stay ho hp (by rintro _ ⟨⟩; exact ⟨rfl, rfl⟩), h₁⟩
  | @closeFailed t kind i h hp =>
    obtain ⟨e, he, hl, hr, rfl, hx⟩ := hS.busy_some ho hp (by rintro ⟨⟩)
    have h₁ := hS.settle_stay (k := s.kernel) (r := .inr ⟨.closeUndo, kind, i, e.native⟩) ho hp (by rintro _ ⟨⟩; exact ⟨rfl, rfl⟩)
    refine ⟨S, C, rfl, ?_, hC⟩
    rwa [Shelf.set_self] at h₁
    rw [hx, he]
    simp [holding, hl, hr, NamedStage.outstanding]
  | @unlinkFailed t kind i h hp hd =>
    obtain ⟨e, he, hl, hr, rfl, hx⟩ := hS.busy_some ho hp (by rintro ⟨⟩)
    have h₁ := hS.settle_stay (k := s.kernel) (r := .inl (.failed Posix.Errno.busy)) ho hp (by rintro _ ⟨⟩)
    refine ⟨S, C, rfl, ?_, hC⟩
    rwa [Shelf.set_self] at h₁
    rw [hx, he]
    simp [holding, hl, hr, NamedStage.outstanding]
  | @closeUndone t kind i h hp =>
    obtain ⟨e, he, hl, hr, rfl, hx⟩ := hS.busy_some ho hp (by rintro ⟨⟩)
    have h₁ := hS.settle_goOn (k := s.kernel) (r := .inl (.failed Posix.Errno.busy))
      (x := (s.entry kind i).map fun e => { e with references := 1 }) ho hp (by rintro _ ⟨⟩)
    refine ⟨S, C, rfl, ?_, hC⟩
    rwa [Shelf.set_self] at h₁
    rw [hx, he]
    simp [holding, hl, NamedStage.outstanding]
  | @cleared t kind i h hp =>
    have h₁ := hS.settle_goOn (k := s.kernel) (r := .inl .ok) (x := none) ho hp (by rintro _ ⟨⟩)
    refine ⟨S, C, rfl, ?_, hC⟩
    rwa [Shelf.set_self] at h₁
    exact hS.busy ho hp
  | other f =>
    refine ⟨S, C, rfl, hS, hC.kernel fun kind i x hx hl => ?_⟩
    obtain ⟨e, he, -, hn, -⟩ := hS.entry hx
    rw [hn] at hl ⊢
    exact hu f rfl kind i e he hl

/-! ### The law -/

/-- **The law of named objects**, against what has been observed of opens, closes, unlinks and deletions. -/
structure Lawful (s : Named) (C : NamedCatalogue) : Prop where
  /-- The references are the opens less the closes. A close that goes on has given its reference back before it returns. -/
  counted : ∀ kind i e o, s.entry kind i = some e → s.StageAt kind i o → o ≠ some .clear →
    ∃ y, C.item (kind, e.native) = some y ∧ y.linked = !e.unlinked ∧
      y.opens = y.closes + e.references.toNat + o.elim 0 NamedStage.outstanding
  /-- No two linked entries have the same name. -/
  distinct : ∀ kind i j e e', s.entry kind i = some e → s.entry kind j = some e' → e.unlinked = false →
    e'.unlinked = false → e.name = e'.name → i = j
  /-- The name of a linked entry is linked to its object. -/
  linked : ∀ kind i e, s.entry kind i = some e → e.unlinked = false → C.link (kind, e.name) = some (kind, e.native)
  /-- The object of a linked or referenced entry is live. -/
  live : ∀ kind i e, s.entry kind i = some e → e.unlinked = false ∨ e.references ≠ 0 → s.kernel.Live kind.objKind e.native
  /-- It is the object of no other such entry. -/
  apart : ∀ kind i j e e', s.entry kind i = some e → s.entry kind j = some e' → e.unlinked = false ∨ e.references ≠ 0 →
    e'.unlinked = false ∨ e'.references ≠ 0 → e.native = e'.native → i = j
  /-- A close finds the entry of a semaphore, -/
  pointer : ∀ i e, s.entry .sem i = some e → s.findPointer i = some (i, e)
  /-- and that of a queue, unless a task has deleted a queue and not yet cleared its entry. -/
  descriptor : ∀ i e, s.entry .mq i = some e → e.unlinked = false ∨ e.references ≠ 0 →
    (∀ t p, s.pending t = some p → p.stage ≠ .clear) → s.findDescriptor e.native = some (i, e)

/-- What a step does to objects: an open of a name that is not linked gives an object that was not live, and an entry with
references keeps its name and its object. -/
structure Steady (s : Named) (C : NamedCatalogue) (evs : List NamedEvent) (s' : Named) : Prop where
  new : ∀ kind n o, .opened (kind, n) o ∈ evs → C.link (kind, n) = none →
    o.1 = kind ∧ ¬ s.kernel.Live kind.objKind o.2 ∧ s'.kernel.Live kind.objKind o.2
  kept : ∀ kind i e, s.entry kind i = some e → e.references ≠ 0 →
    ∃ e', s'.entry kind i = some e' ∧ e'.name = e.name ∧ e'.native = e.native

omit cfg in
/-- An entry that is linked or has references is on the shelf. -/
theorem Shows.of_live [Config] (h : Shows s S) (ho : Orderly s) (he : s.entry kind i = some e)
    (hr : e.unlinked = false ∨ e.references ≠ 0) : S kind i = some ⟨e.name, e.native, !e.unlinked, e.references.toNat⟩ :=
  h.free_some (ho.free he hr) he

theorem findEntry_eq_of_unique {f : NamedEntry → Bool} (hi : i < cfg.maxCount kind.objKind) (he : s.entry kind i = some e)
    (hf : f e = true) (hu : ∀ j e', s.entry kind j = some e' → f e' = true → j = i) : s.findEntry kind f = some (i, e) := by
  cases h : s.findEntry kind f with
  | none =>
    rw [findEntry_eq_none h hi he] at hf
    cases hf
  | some x =>
    obtain ⟨j, e'⟩ := x
    obtain ⟨-, he', hf'⟩ := findEntry_eq_some h
    obtain rfl := hu j e' he' hf'
    rw [he] at he'
    cases he'
    rfl

/-- **The law holds** of entries that are orderly and agree with the catalogue. -/
theorem lawful (ho : Orderly s) (hS : Shows s S) (hC : Stocked s.kernel S C) : Lawful s C where
  counted kind i e o he hst hne := by
    have hx : S kind i = some ⟨e.name, e.native, !e.unlinked, e.references.toNat + o.elim 0 NamedStage.outstanding⟩ := by
      cases o with
      | none => exact hS.free_some hst he
      | some stage =>
        obtain ⟨t, p, hp, rfl, rfl, rfl⟩ := hst
        rw [hS.busy ho hp, he]
        cases hs : p.stage <;> first | rfl | exact absurd (congrArg some hs) hne
    obtain ⟨y, hy, hl, hc⟩ := hC.counted kind i _ hx
    exact ⟨y, hy, hl, hc.trans (Nat.add_assoc ..).symm⟩
  distinct := ho.distinct
  linked kind i e he hl := hC.linked kind i _ (hS.of_live ho he (.inl hl)) (by simp [hl])
  live kind i e he hr := hC.live kind i _ (hS.of_live ho he hr)
  apart kind i j e e' he he' hr hr' := hC.apart kind i j _ _ (hS.of_live ho he hr) (hS.of_live ho he' hr')
  pointer i e he := by
    have hi : i < cfg.maxCount .sem := ho.bound _ _ _ he
    unfold findPointer
    rw [if_pos hi, he]
    rfl
  descriptor i e he hr hcl := by
    refine findEntry_eq_of_unique (ho.bound _ _ _ he) he (decide_eq_true rfl) fun j e' he' hn => ?_
    have hn := of_decide_eq_true hn
    have hx := hS.of_live ho he hr
    obtain ⟨o, hst, hj⟩ := hS .mq j
    rw [he'] at hj
    cases o with
    | none => exact hC.apart .mq j i _ _ hj hx hn
    | some stage =>
      obtain ⟨t, p, hp, -, -, rfl⟩ := hst
      have hcl := hcl t p hp
      unfold holding at hj
      split at hj
      · rename_i hs
        exact absurd (Option.some_inj.mp hs) hcl
      · exact hC.apart .mq j i _ _ hj hx hn

/-- An entry with references keeps its name and its object. -/
theorem kept_move (ho : Orderly s) (hm : Move s a evs s') (he : s.entry kind i = some e) (hr : e.references ≠ 0) :
    ∃ e', s'.entry kind i = some e' ∧ e'.name = e.name ∧ e'.native = e.native := by
  have hset : ∀ {s₀ : Named} {kind' j} {e₀ e₁ : NamedEntry}, s₀.entry = s.entry → s.entry kind' j = some e₀ →
      e₁.name = e₀.name → e₁.native = e₀.native →
      ∃ e', (s₀.setEntry kind' j (some e₁)).entry kind i = some e' ∧ e'.name = e.name ∧ e'.native = e.native := by
    intro s₀ kind' j e₀ e₁ h₀ he₀ hn hv
    rw [setEntry_entry, h₀]
    split
    · rename_i hk
      obtain ⟨rfl, rfl⟩ := hk
      rw [he] at he₀
      cases he₀
      exact ⟨e₁, rfl, hn, hv⟩
    · exact ⟨e, he, rfl, rfl⟩
  -- the entry of a call that goes on has no references
  have hapart : ∀ {t p} {x : Option NamedEntry}, s.pending t = some p →
      ∃ e', (s.setEntry p.kind p.index x).entry kind i = some e' ∧ e'.name = e.name ∧ e'.native = e.native := by
    intro t p x hp
    rw [setEntry_entry, if_neg fun hk => ho.free he (.inr hr) t p hp ⟨hk.1.symm, hk.2.symm⟩]
    exact ⟨e, he, rfl, rfl⟩
  cases hm with
  | refused errno hp => exact ⟨e, by rw [settle_entry, he], rfl, rfl⟩
  | reopened hp he₀ hl hr =>
    rw [settle_entry]
    exact hset rfl he₀ rfl rfl
  | created hp hi hnone hr₀ hl hf hc =>
    rw [settle_entry, setEntry_entry, if_neg]
    · exact ⟨e, he, rfl, rfl⟩
    · rintro ⟨rfl, rfl⟩
      rw [he] at hnone
      cases hnone
  | closed hp he₀ hr hd =>
    rw [settle_entry]
    exact hset rfl he₀ rfl rfl
  | closing hp he₀ hr hd hl =>
    rw [settle_entry]
    exact hset rfl he₀ rfl rfl
  | unlinked hp he₀ hl hr =>
    rw [settle_entry]
    exact hset rfl he₀ rfl rfl
  | unlinking hp he₀ hl hr =>
    rw [settle_entry]
    exact hset rfl he₀ rfl rfl
  | closeDeleted | closeFailed | unlinkDeleted | unlinkFailed => exact ⟨e, by rw [settle_entry, he], rfl, rfl⟩
  | closeUndone hp =>
    rw [settle_entry]
    exact hapart hp
  | cleared hp =>
    rw [settle_entry]
    exact hapart hp
  | other f => exact ⟨e, he, rfl, rfl⟩

theorem steady (ho : Orderly s) (hS : Shows s S) (hC : Stocked s.kernel S C) (hm : Move s a evs s') :
    Steady s C evs s' where
  kept _ _ _ he hr := kept_move ho hm he hr
  new kind n o hmem hnone := by
    cases hm with
    | reopened hp he hl hr =>
      obtain ⟨⟨rfl, rfl⟩, rfl⟩ := by simpa using hmem
      rw [(lawful ho hS hC).linked _ _ _ he hl] at hnone
      cases hnone
    | created hp hi hi' hr hl hf hc =>
      obtain ⟨⟨rfl, rfl⟩, rfl⟩ := by simpa using hmem
      exact ⟨rfl, hc.fresh, by rw [settle_kernel]; exact hc.live⟩
    | _ => simp at hmem

/-- **Named objects**: the catalogue accepts what is observed of every run, its end is lawful, and every next step is
steady. -/
theorem named_of_path {k₀ : Kernel} {as : List NamedAct} (hp : Path (Next step) Undisturbed (init k₀) as s) :
    ∃ C, run Catalogue.next Catalogue.empty (trace step events (init k₀) as) = some C ∧ Lawful s C ∧
      ∀ a s', step s a = some s' → Steady s C (s.events a) s' := by
  have hR : ∀ s a s' C, (Orderly s ∧ ∃ S, Shows s S ∧ Stocked s.kernel S C) → Undisturbed s a → step s a = some s' →
      ∃ C', run Catalogue.next C (events s a) = some C' ∧ Orderly s' ∧ ∃ S, Shows s' S ∧ Stocked s'.kernel S C' := by
    rintro s a s' C ⟨ho, S, hS, hC⟩ hu hstep
    obtain ⟨S', C', hrun, hS', hC'⟩ := stocked_move ho hS hC hu (moves hstep)
    exact ⟨C', hrun, ho.move (moves hstep), S', hS', hC'⟩
  obtain ⟨C, hrun, ho, S, hS, hC⟩ := hp.simulates hR ⟨orderly_init k₀, _, shows_init k₀, Stocked.empty k₀⟩
  exact ⟨C, hrun, lawful ho hS hC, fun a s' hstep => steady ho hS hC (moves hstep)⟩

end Named

end Aixos

namespace Aixos.Named

open Transition

attribute [local instance] Config.default

def nameA : CString := ⟨[47, 97], by decide⟩

/-- Two tasks open a semaphore, its name is unlinked and opened again, and the first semaphore is closed; a queue goes the
same way. -/
def openedTwice : List NamedAct :=
  [.call 0 (.semOpen (some nameA) oCreat 1), .call 1 (.semOpen (some nameA) 0 0), .call 0 (.semUnlink (some nameA)),
    .call 0 (.semOpen (some nameA) oCreat 0), .call 0 (.semClose 0), .call 1 (.semClose 0), .goOn 1, .goOn 1,
    .call 0 (.mqOpen (some nameA) oCreat (some ⟨2, 4⟩) true), .call 1 (.mqClose ⟨0, 1⟩),
    .call 1 (.mqUnlink (some nameA)), .goOn 1, .goOn 1]

theorem openedTwice_lawful : ∃ s C, run step (init .init) openedTwice = some s ∧
    run Catalogue.next Catalogue.empty (trace step events (init .init) openedTwice) = some C ∧ Lawful s C ∧
    (∀ a s', step s a = some s' → Steady s C (s.events a) s') ∧ s.entry .sem 0 = none ∧
    s.entry .sem 1 = some ⟨nameA, ⟨1, 1⟩, 1, false⟩ := by
  obtain ⟨s, h, hp⟩ := exists_run step (init .init) openedTwice (fun s => decide (s.entry .sem 0 = none ∧
    s.entry .sem 1 = some ⟨nameA, ⟨1, 1⟩, 1, false⟩)) (by decide +kernel)
  obtain ⟨h₀, h₁⟩ := of_decide_eq_true hp
  -- the rest of the system does nothing
  have hpath := (path_iff_run.mpr h).both (P := fun a => ∀ f, a ≠ .other f) (by simp [openedTwice])
  obtain ⟨C, hrun, hl, hs⟩ := named_of_path (hpath.mono fun s a ha f e => absurd e (ha.2 f))
  exact ⟨s, C, h, hrun, hl, hs, h₀, h₁⟩

end Aixos.Named
