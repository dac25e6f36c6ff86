import Mathlib.Algebra.Notation.Defs
import Mathlib.Data.List.Basic

/-!
# Alarms

What a mechanism for timeouts is for: an alarm is set for a time, may be cleared before, and rings when the
clock ticks to that time, together with the others that are set for it, in the order in which they were set.

`Alarms.next` accepts what a mechanism does, event by event, if it is as it should be. The clock may wrap.
-/

/-- A clock with the alarms that are set, in the order in which they were set. -/
structure Alarms (α τ : Type*) where
  now : τ
  pending : List (α × τ)

namespace Alarms

/-- What is seen of a mechanism for timeouts. -/
inductive Event (α τ : Type*) where
  /-- An alarm is set for a time. -/
  | set (a : α) (time : τ)
  /-- An alarm is cleared, if it is set. -/
  | clear (a : α)
  /-- The clock ticks, and alarms ring. -/
  | tick (rung : List α)

/-- No alarm is set. -/
def idle {α τ : Type*} (now : τ) : Alarms α τ where
  now := now
  pending := []

variable {α τ : Type*} [DecidableEq α] [DecidableEq τ] [Add τ] [One τ]

/-- The alarms that are set for a time. -/
def due (A : Alarms α τ) (time : τ) : List α := (A.pending.filter fun p => p.2 = time).map Prod.fst

/-- The alarms that are set. -/
def armed (A : Alarms α τ) : List α := A.pending.map Prod.fst

/-- Accept an event: an alarm is set only once, and when the clock ticks exactly those ring that are due. -/
def next (A : Alarms α τ) : Event α τ → Option (Alarms α τ)
  | .set a time => if a ∈ A.armed then none else some { A with pending := A.pending ++ [(a, time)] }
  | .clear a => some { A with pending := A.pending.filter fun p => p.1 ≠ a }
  | .tick rung =>
    if rung = A.due (A.now + 1) then
      some { now := A.now + 1, pending := A.pending.filter fun p => p.2 ≠ A.now + 1 }
    else none

end Alarms
