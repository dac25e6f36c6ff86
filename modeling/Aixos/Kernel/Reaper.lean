import Aixos.Library.IntrusiveList

/-!
# Tasks that have deleted themselves

`reap_stopped_tasks` of `task.c`, which the idle task calls without an end, and the part of `aixos_task_delete` that
leaves a task to it. The idle task runs with interrupts enabled, so any other task may run between two of its accesses
of memory.

* `Reaper.step` — the idle task makes its next access; a task deletes itself, or is deleted or created by another.

What a task does to the list is done with interrupts disabled, and is one step. Whether its stack and its control block
were allocated is left out: `aixos_free` is called, or not.
-/

namespace Aixos

open IntrusiveList

/-- What has become of a task. -/
inductive TaskPhase where
  /-- Its control block is not in use. -/
  | gone
  | running
  /-- It has deleted itself. -/
  | stopped
  deriving DecidableEq

/-- Where the idle task is. `pos` and `n` are the variables of `AIXOS_LIST_FOR_EACH_SAFE`; a node is that of a task, or
`reap_list`. -/
inductive ReapPlace (τ : Type) where
  /-- before `pos = reap_list.next` -/
  | wait
  /-- before `n = pos->next` -/
  | first (pos : Option τ)
  /-- before the test of `pos`, and the load of `entry->prev` -/
  | test (pos : Option τ) (n : Option (Option τ))
  /-- before the load of `entry->next` -/
  | load (t : τ) (n p : Option (Option τ))
  /-- before `next->prev = prev` -/
  | unlinkNext (t : τ) (n p q : Option (Option τ))
  /-- before `prev->next = next` -/
  | unlinkPrev (t : τ) (n p q : Option (Option τ))
  /-- before `entry->next = NULL` -/
  | clearNext (t : τ) (n : Option (Option τ))
  /-- before `entry->prev = NULL` -/
  | clearPrev (t : τ) (n : Option (Option τ))
  /-- before `aixos_free(tcb->stack_alloc_base)` -/
  | freeStack (t : τ) (n : Option (Option τ))
  /-- before `aixos_free(tcb)` -/
  | freeTcb (t : τ) (n : Option (Option τ))
  deriving DecidableEq

/-- The tasks, and the idle task among them. -/
structure Reaper (τ : Type) where
  /-- `all_node` of every task, and `reap_list` -/
  links : Links (Option τ)
  phase : τ → TaskPhase
  place : ReapPlace τ

/-- What happens. -/
inductive ReapAct (τ : Type) where
  /-- The idle task makes its next access. -/
  | idle
  /-- A task deletes itself. -/
  | stop (t : τ)
  /-- A task is deleted by another. -/
  | delete (t : τ)
  /-- A task is created, with a control block that is not in use. -/
  | create (t : τ)
  deriving DecidableEq

namespace Reaper

variable {τ : Type} [DecidableEq τ]

/-- `aixos_task_init` -/
def init : Reaper τ where
  links := Links.init { next := fun _ => none, prev := fun _ => none } none
  phase _ := .gone
  place := .wait

/-- The idle task goes on. -/
def goto (s : Reaper τ) (p : ReapPlace τ) : Reaper τ := { s with place := p }

/-- The idle task makes its next access. An access through a null pointer is none. -/
def idle (s : Reaper τ) : Option (Reaper τ) :=
  match s.place with
  | .wait => (s.links.next none).map fun pos => s.goto (.first pos)
  | .first pos => some (s.goto (.test pos (s.links.next pos)))
  | .test none _ => some (s.goto .wait)
  | .test (some t) n => some (s.goto (.load t n (s.links.prev (some t))))
  | .load t n p => some (s.goto (.unlinkNext t n p (s.links.next (some t))))
  | .unlinkNext t n p q => some ({ s with links := s.links.setPrev q p }.goto (.unlinkPrev t n p q))
  | .unlinkPrev t n p q => some ({ s with links := s.links.setNext p q }.goto (.clearNext t n))
  | .clearNext t n => some ({ s with links := s.links.setNext (some (some t)) none }.goto (.clearPrev t n))
  | .clearPrev t n => some ({ s with links := s.links.setPrev (some (some t)) none }.goto (.freeStack t n))
  | .freeStack t n => some (s.goto (.freeTcb t n))
  | .freeTcb t n => n.map fun pos => { s with phase := Function.update s.phase t .gone }.goto (.first pos)

/-- One step. -/
def step (s : Reaper τ) : ReapAct τ → Option (Reaper τ)
  | .idle => s.idle
  | .stop t =>
    if s.phase t = .running then
      some { s with links := s.links.addTail (some t) none, phase := Function.update s.phase t .stopped }
    else none
  | .delete t => if s.phase t = .running then some { s with phase := Function.update s.phase t .gone } else none
  | .create t => if s.phase t = .gone then some { s with phase := Function.update s.phase t .running } else none

end Reaper

end Aixos
