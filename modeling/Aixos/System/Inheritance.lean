import Aixos.System.Membership
import Aixos.Core.Exact

/-!
# Priority inheritance over runs

Inheritance is exact in every state of every run in which the start of the scheduler
finds no ready task queued. A task that is queued twice can go on running while it
waits, and then changes its priority where nobody looks for it.
-/

namespace Aixos

open Transition Aixos.Core

variable [cfg : Config]

namespace Core

variable {c c' : Core}

omit cfg in
theorem inherited_init : Inherited init where
  exact t := .mk' le_rfl (fun w ⟨_, hm, _⟩ => by cases hm) (.inl rfl)
  ordered _ := List.Pairwise.nil

/-- Sequences of mild steps keep inheritance exact. -/
theorem path_mild_inherited (h : Sound c) (hi : Inherited c) {A : Core → Op → Prop} {ops : List Op}
    (hp : Path Step (fun c o => o.Mild ∧ A c o) c ops c') : Inherited c' := by
  induction hp with
  | nil => exact hi
  | cons hm hr _ ih =>
    obtain ⟨he, rfl⟩ := hr
    exact ih (hm.1.exec h he).1 (hi.exec h he)

end Core

namespace Sys

variable {s s' : Sys} {a : Act} {as : List Act}

theorem inherited_step (hs : Sound s.core) (hi : Inherited s.core) (h : s.step a = some s') :
    Inherited s'.core := by
  rcases step_core hs h with ⟨ops, hp⟩ | ⟨o, -, he, e⟩
  · exact path_mild_inherited hs hi hp
  · rw [e]
    exact hi.exec hs he

/-- **Priority inheritance is exact in every state reached**: every task has the greatest of its
base priority and of the priorities of those waiting for its mutexes, and the wait list of
every mutex is in the order of current priorities. -/
theorem inherited_of_path (hp : Path (Next step) StartsClean init as s) : Inherited s.core := by
  refine (hp.invariant (I := fun s => Sound s.core ∧ Inherited s.core) ?_ ⟨sound_init, inherited_init⟩).2
  rintro s a s' ⟨hs, hi⟩ hc h
  exact ⟨sound_step hs hc h, inherited_step hs hi h⟩

end Sys

end Aixos

namespace Aixos.Sys

open Transition Aixos.Core

attribute [local instance] Config.default

/-- The task of priority 3 holds the mutex that the task of priority 9 waits for; it has
inherited from it. -/
def boosted : List Act := boot [{ stackSize := 512, priority := 3 }, { stackSize := 512, priority := 9 }] true ++
  [.call .timerServiceWait, .switch, .call (.taskSleep 1), .switch, .call .mutexCreate,
    .call (.mutexLock ⟨0, 1⟩ forever), .isrEnter, .isr (.tick false), .isrExit, .switch, .resume,
    .call (.mutexLock ⟨0, 1⟩ forever)]

theorem boosted_inherited : ∃ s, run step init boosted = some s ∧ s.core.priority 0 = 9 ∧ Inherited s.core := by
  obtain ⟨s, h, hp⟩ := exists_run step init boosted
    (fun s => decide (s.core.priority 0 = 9)) (by decide +kernel)
  exact ⟨s, h, of_decide_eq_true hp, inherited_of_path (path_of_boot h).1⟩

/-- Task 0 is resumed before the start, so the start queues it twice. It goes on running while it
waits for the mutex of task 2, behind task 1; there it sleeps, which makes it forget the
list it is in, and raises its priority. -/
def forgotten : List Act :=
  [.call (.taskCreate { stackSize := 512, priority := 5 }), .call (.taskCreate { stackSize := 512, priority := 7 }),
    .call (.taskCreate { stackSize := 512, priority := 8 }), .call (.taskSuspend 0), .call (.taskResume 0),
    .start true, .call .timerServiceWait, .switch,
    .call .mutexCreate, .call (.mutexLock ⟨0, 1⟩ forever), .call (.taskSuspend 2), .switch,
    .call (.mutexLock ⟨0, 1⟩ forever), .switch,
    .call (.mutexLock ⟨0, 1⟩ forever), .switch,
    .resume, .call (.taskSleep 5), .switch, .resume, .call (.taskSetPriority 0 9)]

theorem forgotten_not_inherited : ∃ s, run step init forgotten = some s ∧
    s.core.waitLists (.mutex 0) = [1, 0] ∧ s.core.priority 1 = 7 ∧ s.core.priority 0 = 9 ∧ ¬ Inherited s.core := by
  obtain ⟨s, h, hp⟩ := exists_run step init forgotten
    (fun s => decide (s.core.waitLists (.mutex 0) = [1, 0] ∧ s.core.priority 1 = 7 ∧ s.core.priority 0 = 9))
    (by decide +kernel)
  obtain ⟨hl, h₁, h₀⟩ := of_decide_eq_true hp
  refine ⟨s, h, hl, h₁, h₀, fun hi => ?_⟩
  have ho := hi.ordered 0
  rw [hl] at ho
  have hle : s.core.priority 0 ≤ s.core.priority 1 := ho.le_head (by simp)
  rw [h₁, h₀] at hle
  omega

end Aixos.Sys
