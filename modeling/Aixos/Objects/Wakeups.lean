import Aixos.Library.WaitingRoom
import Aixos.System.Waiters

/-!
# Wakeups that are on the way

A task that waits in a list of a queue or a pipe goes on, when it is woken, with the loop it has
blocked in: it looks at the object again. Until then it is on the way.

* `Pending.Awaits` — the loop that waits in a list.
* `Sys.Woken` — a task that has been woken from a list and is on the way.
* `Sys.Placed` — who waits in a list is in the loop that waits there.
* `Sys.woken_kept`, `Sys.woken_of_wake` — who stays on the way, and who sets out.
-/

namespace Aixos

open Transition Aixos.Core WaitingRoom

variable [cfg : Config]

/-- What is left of the call is the loop that waits in the list. -/
def Pending.Awaits (c : Core) : Pending → WaitList → Prop
  | .mqSend h .., .mqSend i => c.objFromHandle .mq h = some i
  | .mqRecv h .., .mqRecv i => c.objFromHandle .mq h = some i
  | .pipeWrite h .., .pipeWrite i => c.objFromHandle .pipe h = some i
  | .pipeRead h .., .pipeRead i => c.objFromHandle .pipe h = some i
  | _, _ => False

namespace Sys

variable {s s' : Sys} {a : Act} {t u : TaskId} {l : WaitList} {k : ObjKind} {i : ℕ}

/-- Task `t` has been woken from the list, and has not gone on yet. -/
structure Woken (s : Sys) (l : WaitList) (t : TaskId) : Prop where
  /-- Its wait has ended with `AIXOS_OK`. -/
  granted : Granted s.core t
  /-- It has not been deleted. -/
  live : s.core.Live t
  /-- It is in the loop that waits there. -/
  frame : ∃ f, s.frame t = some f ∧ f.pending.Awaits s.core l

/-- Who waits in the list is in the loop that waits there. -/
def Placed (l : WaitList) (s : Sys) : Prop :=
  ∀ t ∈ s.core.waitLists l, ∃ f, s.frame t = some f ∧ f.pending.Awaits s.core l

/-- The waiting room of a list, when there is so much to be had. -/
def room (l : WaitList) (n : ℕ) (s : Sys) : Room TaskId where
  stock := n
  waiting := {t | t ∈ s.core.waitLists l}
  woken := {t | Woken s l t}

/-! ### The loop a task is in -/

/-- The slot the list belongs to does not change under those who wait in it. -/
theorem slot_of_list (hs : Sound s.core) (hs' : Sound s'.core) (h : s.step a = some s') (hl : l.object = some (k, i))
    (ht : t ∈ s'.core.waitLists l) : s'.core.slots k i = s.core.slots k i := by
  have hu' : (s'.core.slots k i).used = true := hs'.wf.listed l t k i ht hl
  have hu : (s.core.slots k i).used = true := by
    rcases joins_step hs h ((hs'.wf.filed l t).mp ht) with hw | ⟨-, hb⟩
    · exact hs.wf.listed l t k i ((hs.wf.filed l t).mpr hw) hl
    · exact hb.used l k i rfl hl
  exact slot_of_used hs hu hu' h

theorem awaits_kept {c c' : Core} {p : Pending} (h : p.Awaits c l)
    (hsl : ∀ k i, l.object = some (k, i) → c'.slots k i = c.slots k i) : p.Awaits c' l := by
  cases p with
  | mqSend x =>
    cases l with
    | mqSend i => exact handle_kept (hsl .mq i rfl) h
    | _ => exact h.elim
  | mqRecv x =>
    cases l with
    | mqRecv i => exact handle_kept (hsl .mq i rfl) h
    | _ => exact h.elim
  | pipeWrite x =>
    cases l with
    | pipeWrite i => exact handle_kept (hsl .pipe i rfl) h
    | _ => exact h.elim
  | pipeRead x =>
    cases l with
    | pipeRead i => exact handle_kept (hsl .pipe i rfl) h
    | _ => exact h.elim
  | _ => exact h.elim

theorem used_of_waits {l : WaitList} {k : ObjKind} (hs : Sound s.core) (hs' : Sound s'.core) (h : s.step a = some s')
    (hl : l.object = some (k, i)) (ht : t ∈ s'.core.waitLists l) : (s.core.slots k i).used = true := by
  rw [← slot_of_list hs hs' h hl ht]
  exact hs'.wf.listed l t k i ht hl

/-- Who goes on with the loop uses the list. -/
theorem usesList_of_woken (hw : Woken s l t) (hp : ¬ Paused t s a) : UsesList s a l := by
  obtain ⟨rfl, ht⟩ := not_not.mp hp
  obtain ⟨⟨p, ms⟩, hf, ha⟩ := hw.frame
  have goes : s.Resumes .resume p := ⟨rfl, t, ms, ht, hf⟩
  cases p with
  | mqSend h m p st tm =>
    cases l with
    | mqSend i => exact ⟨h, ha, .inr (.inr ⟨m, p, st, tm, goes⟩)⟩
    | _ => exact ha.elim
  | mqRecv h n st tm =>
    cases l with
    | mqRecv i => exact ⟨h, ha, .inr ⟨n, st, tm, goes⟩⟩
    | _ => exact ha.elim
  | pipeWrite h d st tm =>
    cases l with
    | pipeWrite i => exact ⟨h, ha, .inr (.inr ⟨d, st, tm, goes⟩)⟩
    | _ => exact ha.elim
  | pipeRead h n st tm =>
    cases l with
    | pipeRead i => exact ⟨h, ha, .inr ⟨n, st, tm, goes⟩⟩
    | _ => exact ha.elim
  | _ => exact ha.elim

/-- The action deletes task `t`: a call that is not refused. -/
def DeletesTask (s : Sys) (a : Act) (t : TaskId) : Prop :=
  a = .call (.taskDelete t) ∧ ∃ r, s.core.taskDelete t = .ok r

theorem core_of_refused (hd : ¬ DeletesTask s (.call (.taskDelete t)) t) (h : s.step (.call (.taskDelete t)) = some s') :
    s'.core = s.core := by
  have hk : s'.kernel = (s.kernel.taskDelete t).1 := (step_call_kernel h).symm
  unfold Kernel.taskDelete at hk
  cases hr : s.kernel.core.taskDelete t with
  | error e =>
    rw [hr] at hk
    exact congrArg Kernel.core hk
  | ok r => exact absurd ⟨rfl, r, hr⟩ hd

/-- **Who is on the way stays so** until it goes on, unless it is deleted. -/
theorem woken_kept (hs : Steady s) (hw : Woken s l t) (hp : Paused t s a) (hd : ¬ DeletesTask s a t)
    (hsl : ∀ k i, l.object = some (k, i) → s'.core.slots k i = s.core.slots k i) (h : s.step a = some s') :
    Woken s' l t := by
  obtain ⟨f, hf, ha⟩ := hw.frame
  have hi := hs.inCall hf hw.live
  have hkept : Granted s'.core t ∧ s'.core.Live t := by
    by_cases e : a = .call (.taskDelete t)
    · subst e
      rw [core_of_refused hd h]
      exact ⟨hw.granted, hw.live⟩
    · exact granted_step_kept hi hp h e hw.granted hw.live
  exact ⟨hkept.1, hkept.2, f, frame_kept hi hp h, awaits_kept ha hsl⟩

/-- **Who is woken sets out.** -/
theorem woken_of_wake (hs : Steady s) (hpl : Placed l s) (ht : t ∈ s.core.waitLists l) (hl : ∀ m, l ≠ .mutex m)
    (hsl : ∀ k i, l.object = some (k, i) → s'.core.slots k i = s.core.slots k i) (h : s.step a = some s')
    (e : s'.core = s.core.exec (.wake t Code.ok)) : Woken s' l t := by
  obtain ⟨f, hi⟩ := hs.frame ht
  have hwait := (hs.sound.wf.filed l t).mp ht
  have hp : Paused t s a := paused_of_wait hs.sound (by rw [hwait]; exact Option.some_ne_none _)
  obtain ⟨f', hf', ha⟩ := hpl t ht
  obtain rfl : f = f' := Option.some.inj (hi.frame.symm.trans hf')
  refine ⟨?_, ?_, f, frame_kept hi hp h, awaits_kept ha hsl⟩
  · rw [e]
    exact (waitLists_of_wake hs.sound hl ht).1
  · rw [e]
    have he : s.core.Enabled (.wake t Code.ok) := enabled_wake hs.sound hl ht
    refine (exec_live hs.sound he (by simp) hi.lt).mpr ⟨hs.sound.wf.live_of_wait ?_, by simp⟩
    rw [hwait]
    exact Option.some_ne_none _

/-! ### What an action does to a waiting room -/

/-- The action has run a function of the kernel, which has ended so. -/
def Ran (s s' : Sys) (r : Kernel × Outcome) : Prop :=
  s'.kernel = r.1 ∧ ∀ f, r.2 = .wait f → ∃ t, s.runningTask = some t ∧ s'.frame t = some f

theorem ran_call {x : Call} (h : s.step (.call x) = some s') : Ran s s' (s.kernel.call x) := by
  refine ⟨(step_call_kernel h).symm, fun f hf => ?_⟩
  rcases step_call h with ⟨t, ht, -, e⟩ | ⟨-, k, r, e, -⟩
  · obtain ⟨r, hr⟩ : ∃ r, s.kernel.call x = r := ⟨_, rfl⟩
    rw [hr] at e hf
    exact ⟨t, ht, by rw [e]; exact finish_wait s t hf⟩
  · rw [e] at hf
    cases hf

theorem ran_resume {f : Frame} (h : s.step .resume = some s') (ht : s.runningTask = some t) (hf : s.frame t = some f) :
    Ran s s' (s.kernel.resume t f) := by
  obtain ⟨u, g, hu, hg, e⟩ := step_resume h
  obtain rfl : t = u := Option.some.inj (ht.symm.trans hu)
  obtain rfl : f = g := Option.some.inj (hf.symm.trans hg)
  obtain ⟨r, hr⟩ : ∃ r, s.kernel.resume t f = r := ⟨_, rfl⟩
  rw [hr] at e ⊢
  rw [e]
  exact ⟨finish_kernel s t r, fun g hg => ⟨t, ht, finish_wait s t hg⟩⟩

/-- The running task has blocked in the list. -/
def Blocked (l : WaitList) (s s' : Sys) : Prop :=
  ∃ t f, s.runningTask = some t ∧ s'.frame t = some f ∧ f.pending.Awaits s.core l

/-- The first task in the list has been woken, if there is one, and nothing else has happened to
the tasks. -/
def WakesFirst (l : WaitList) (s s' : Sys) : Prop :=
  s.core.waitLists l = [] ∧ s'.core = s.core ∨ ∃ t ∈ s.core.waitLists l, s'.core = s.core.exec (.wake t Code.ok)

theorem wakesFirst_of_kernel {k : Kernel} (e : s'.kernel = k.wakeFirst l) (hk : k.core = s.core) : WakesFirst l s s' := by
  unfold Kernel.wakeFirst at e
  rw [hk] at e
  cases hw : s.core.waitLists l with
  | nil =>
    rw [hw] at e
    exact .inl ⟨hw, (congrArg Kernel.core e).trans hk⟩
  | cons t ts =>
    rw [hw] at e
    exact .inr ⟨t, by rw [hw]; exact List.mem_cons_self .., congrArg Kernel.core e⟩

/-- Whoever is on the way is not deleted while others wait. -/
def Spares (l : WaitList) (s : Sys) (a : Act) : Prop :=
  ∀ t, DeletesTask s a t → Woken s l t → s.core.waitLists l = []

/-- Nobody has come into the list. -/
def NoneJoins (l : WaitList) (s s' : Sys) : Prop := ∀ t ∈ s'.core.waitLists l, t ∈ s.core.waitLists l

theorem noneJoins_of_not_uses (hs : Sound s.core) (hs' : Sound s'.core) (h : s.step a = some s')
    (hn : ¬ UsesList s a l) : NoneJoins l s s' := by
  intro t ht
  rcases joins_step hs h ((hs'.wf.filed l t).mp ht) with hw | ⟨hu, -⟩
  · exact (hs.wf.filed l t).mpr hw
  · exact absurd hu hn

omit cfg in
theorem noneJoins_of_core (e : s'.core = s.core) : NoneJoins l s s' := by
  intro t ht
  rwa [e] at ht

theorem WakesFirst.noneJoins {l' : WaitList} (hs : Sound s.core) (hs' : Sound s'.core) (hl : ∀ m, l' ≠ .mutex m)
    (hw : WakesFirst l' s s') : NoneJoins l s s' := by
  rcases hw with ⟨-, e⟩ | ⟨w, hw, e⟩
  · exact noneJoins_of_core e
  · intro t ht
    have hwt := (hs'.wf.filed l t).mp ht
    rw [e] at hwt
    have hw₀ := exec_waits hs (enabled_wake hs hl hw) (by simp) t (by rw [hwt]; exact Option.some_ne_none _)
    exact (hs.wf.filed l t).mpr (hw₀.1.symm.trans hwt)

/-- Who is on the way from a list that the action does not use does not go on. -/
theorem paused_of_not_uses (hn : ¬ UsesList s a l) (hw : Woken s l t) : Paused t s a := by
  by_contra hp
  exact hn (usesList_of_woken hw hp)

omit cfg in
/-- At most one task goes on in an action. -/
theorem exists_looker (s : Sys) (a : Act) : ∃ t, ∀ u, u ≠ t → Paused u s a := by
  cases ht : s.runningTask with
  | none => exact ⟨0, fun u _ hp => by rw [ht] at hp; exact nomatch hp.2⟩
  | some t => exact ⟨t, fun u hu hp => hu (Option.some.inj (hp.2.symm.trans ht))⟩

theorem placed_step (hs : Steady s) (hs' : Sound s'.core) (h : s.step a = some s') (hp : Placed l s)
    (he : UsesList s a l → s'.core = s.core ∨ Blocked l s s' ∨ ∃ l', (∀ m, l' ≠ .mutex m) ∧ WakesFirst l' s s') :
    Placed l s' := by
  intro t ht
  have hsl : ∀ k i, l.object = some (k, i) → s'.core.slots k i = s.core.slots k i :=
    fun k i hl => slot_of_list hs.sound hs' h hl ht
  -- whoever has waited already is still in its loop
  have stays : t ∈ s.core.waitLists l → ∃ f, s'.frame t = some f ∧ f.pending.Awaits s'.core l := by
    intro ht
    obtain ⟨f, hf, ha⟩ := hp t ht
    have hw := (hs.sound.wf.filed l t).mp ht
    have hw : (s.core.tasks t).wait ≠ none := by rw [hw]; exact Option.some_ne_none _
    have hi := hs.inCall hf (hs.sound.wf.live_of_wait hw)
    exact ⟨f, frame_kept hi (paused_of_wait hs.sound hw) h, awaits_kept ha hsl⟩
  rcases joins_step hs.sound h ((hs'.wf.filed l t).mp ht) with hw | ⟨hu, hb⟩
  · exact stays ((hs.sound.wf.filed l t).mpr hw)
  · rcases he hu with e | ⟨u, f, hu', hf, ha⟩ | ⟨l', hl', hw⟩
    · exact stays (noneJoins_of_core e t ht)
    · obtain rfl : u = t := Option.some.inj ((runningTask_eq_some hu').1.symm.trans hb.cur)
      exact ⟨f, hf, awaits_kept ha hsl⟩
    · exact stays (hw.noneJoins hs.sound hs' hl' t ht)

/-- What every action that wakes nobody and lets nobody go on keeps. -/
theorem keeps_room {n n' : ℕ} (hs : Steady s) (hs' : Sound s'.core) (h : s.step a = some s') (hn : n' ≤ n)
    (hj : NoneJoins l s s') (hp : ∀ t, Woken s l t → Paused t s a) (hd : Spares l s a)
    (ht : t ∈ s'.core.waitLists l) : (room l n s).Keeps (room l n' s') where
  stock := hn
  waiting := hj
  woken u hu := by
    refine woken_kept hs hu (hp u hu) ?_ (fun k i hl => slot_of_list hs.sound hs' h hl ht) h
    intro e
    have := hj t ht
    rw [hd u e hu] at this
    cases this

/-- An action that fills the stock wakes a task, if one waits. -/
theorem wakes_room {n n' : ℕ} (hs : Steady s) (hs' : Sound s'.core) (h : s.step a = some s') (hpl : Placed l s)
    (hl : ∀ m, l ≠ .mutex m) (hn : n' ≤ n + 1) (hw : WakesFirst l s s') (hp : ∀ t, Woken s l t → Paused t s a)
    (hd : Spares l s a) (ht : t ∈ s'.core.waitLists l) : (room l n s).Wakes (room l n' s') := by
  have hsl : ∀ k i, l.object = some (k, i) → s'.core.slots k i = s.core.slots k i :=
    fun k i hl => slot_of_list hs.sound hs' h hl ht
  rcases hw with ⟨hnil, e⟩ | ⟨w, hw, e⟩
  · rw [e, hnil] at ht
    cases ht
  · refine ⟨hn, ⟨w, fun hwk => ?_, ?_⟩, ⟨w, hw⟩⟩
    · -- who waits has not been woken
      have := hwk.granted.1
      rw [(hs.sound.wf.filed l w).mp hw] at this
      cases this
    · refine Set.insert_subset (woken_of_wake hs hpl hw hl hsl h e) fun u hu => ?_
      refine woken_kept hs hu (hp u hu) (fun e => ?_) hsl h
      rw [hd u e hu] at hw
      cases hw

/-- An action that takes from the stock. -/
theorem takes_room {n n' : ℕ} (hs : Steady s) (hs' : Sound s'.core) (h : s.step a = some s') (hn : n' + 1 ≤ n)
    (hj : NoneJoins l s s') (hp : ∀ v, v ≠ u → Paused v s a) (hd : Spares l s a)
    (ht : t ∈ s'.core.waitLists l) : (room l n s).Takes (room l n' s') u where
  stock := hn
  waiting := hj
  woken v hv := by
    refine woken_kept hs hv.1 (hp v hv.2) ?_ (fun k i hl => slot_of_list hs.sound hs' h hl ht) h
    intro e
    have := hj t ht
    rw [hd v e hv.1] at this
    cases this

end Sys

end Aixos
