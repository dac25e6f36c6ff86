import Mathlib.Data.Nat.Notation
import Mathlib.Logic.Function.Basic

/-!
# Catalogues

Objects that are opened by name. A name is linked to an object by the open that makes it, and stays linked until it is
unlinked; the object stays as long as the name is linked to it or there are more opens of it than closes.

* `Catalogue` — which object each name is linked to, and how often each object has been opened and closed.
* `Catalogue.next` — an observed event, if it is one that may be.
-/

/-- An object that there is. -/
structure Catalogue.Item where
  /-- A name is linked to it. -/
  linked : Bool
  opens : ℕ
  closes : ℕ

/-- Names for objects. -/
structure Catalogue (N O : Type*) where
  link : N → Option O
  item : O → Option Catalogue.Item

namespace Catalogue

variable {N O : Type*} [DecidableEq N] [DecidableEq O]

/-- What is observed: which object an open of a name has given, that an object has been closed, that a name has been
unlinked, and that an object has been deleted. -/
inductive Event (N O : Type*) where
  | opened (n : N) (o : O)
  | closed (o : O)
  | unlinked (n : N)
  | deleted (o : O)

/-- No objects. -/
def empty : Catalogue N O where
  link := fun _ => none
  item := fun _ => none

/-- Accept an event. An open of a linked name gives the object that it is linked to; an open of another name makes an
object. There is no more than one close for an open, and an object that is deleted is neither linked nor open. -/
def next (C : Catalogue N O) : Event N O → Option (Catalogue N O)
  | .opened n o =>
    match C.link n, C.item o with
    | some o', some x =>
      if o = o' then some { C with item := Function.update C.item o (some { x with opens := x.opens + 1 }) } else none
    | none, none =>
      some { link := Function.update C.link n (some o)
             item := Function.update C.item o (some { linked := true, opens := 1, closes := 0 }) }
    | _, _ => none
  | .closed o =>
    match C.item o with
    | some x =>
      if x.closes < x.opens then some { C with item := Function.update C.item o (some { x with closes := x.closes + 1 }) }
      else none
    | none => none
  | .unlinked n =>
    match C.link n with
    | some o =>
      some { link := Function.update C.link n none
             item := Function.update C.item o ((C.item o).map fun x => { x with linked := false }) }
    | none => none
  | .deleted o =>
    match C.item o with
    | some x =>
      if !x.linked ∧ x.opens = x.closes then some { C with item := Function.update C.item o none } else none
    | none => none

section Rules

variable {C : Catalogue N O} {n : N} {o : O} {x : Item}

/-- An open of a linked name. -/
theorem next_opened_linked (hn : C.link n = some o) (ho : C.item o = some x) : C.next (.opened n o) =
    some { C with item := Function.update C.item o (some { x with opens := x.opens + 1 }) } := by
  simp [next, hn, ho]

/-- An open that makes an object. -/
theorem next_opened_new (hn : C.link n = none) (ho : C.item o = none) : C.next (.opened n o) =
    some { link := Function.update C.link n (some o)
           item := Function.update C.item o (some { linked := true, opens := 1, closes := 0 }) } := by
  simp [next, hn, ho]

theorem next_closed (ho : C.item o = some x) (hx : x.closes < x.opens) : C.next (.closed o) =
    some { C with item := Function.update C.item o (some { x with closes := x.closes + 1 }) } := by
  simp [next, ho, hx]

theorem next_unlinked (hn : C.link n = some o) (ho : C.item o = some x) : C.next (.unlinked n) =
    some { link := Function.update C.link n none
           item := Function.update C.item o (some { x with linked := false }) } := by
  simp [next, hn, ho]

theorem next_deleted (ho : C.item o = some x) (hl : x.linked = false) (hx : x.opens = x.closes) :
    C.next (.deleted o) = some { C with item := Function.update C.item o none } := by
  simp [next, ho, hl, hx]

end Rules

end Catalogue
