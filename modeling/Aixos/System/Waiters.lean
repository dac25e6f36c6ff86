import Aixos.System.Ownership

/-!
# Tasks that wait for an object

A task in the wait list of a semaphore, a queue, a pipe or an event group leaves it in one of two
ways: it is woken with `AIXOS_OK`, or its wait ends with an error.

* `WaitsIn`, `Lost` — it waits in a list; its wait has ended with an error. `Granted` is the third case.
* `Sys.waitsIn_step` — a waiting task goes on waiting, loses its wait, or is woken by the action.
* `Sys.UsesList`, `Sys.joins_step` — who comes into a list has blocked there, in the function that waits there.
-/

namespace Aixos

open Transition Aixos.Core

variable [cfg : Config]

namespace Core

variable {c c' : Core} {o : Op} {l : WaitList} {t : TaskId}

/-- Task `t` waits in the list. -/
def WaitsIn (c : Core) (l : WaitList) (t : TaskId) : Prop := (c.tasks t).wait = some (.list l)

/-- Its wait has ended with an error. -/
def Lost (c : Core) (t : TaskId) : Prop := (c.tasks t).wait = none ∧ (c.tasks t).waitResult ≠ Code.ok

omit cfg in
theorem Granted.not_lost (h : Granted c t) : ¬ Lost c t := fun hl => hl.2 h.2

/-- A task that waits goes on waiting, loses its wait, or is woken. -/
theorem waitsIn_exec (hs : Sound c) (he : c.Enabled o) (hf : Foreign c t o) (hlt : t < c.nextTask)
    (hl : ∀ m, l ≠ .mutex m) (h : WaitsIn c l t) : WaitsIn (c.exec o) l t ∨ Lost (c.exec o) t ∨
      o = .wake t Code.ok ∧ Granted (c.exec o) t := by
  rcases foreign_wait hs he hf with ⟨h₁, -⟩ | ⟨h₁, h₂⟩
  · exact .inl (h₁.trans h)
  · refine .inr ?_
    cases o with
    | wake u r =>
      obtain ⟨rfl, e, -⟩ := h₂
      by_cases hr : r = Code.ok
      · subst hr
        exact .inr ⟨rfl, h₁, e⟩
      · exact .inl ⟨h₁, by rw [e]; exact hr⟩
    | timeout u r =>
      obtain ⟨rfl, e, -⟩ := h₂
      refine .inl ⟨h₁, ?_⟩
      rw [e]
      refine hf.timeout r rfl fun hd => ?_
      have := (hs.wf.delayed t).mp hd
      rw [h] at this
      cases this
    | suspend u =>
      refine .inl ⟨h₁, ?_⟩
      rw [h₂.2.1]
      decide
    | delete u =>
      refine .inl ⟨h₁, ?_⟩
      rw [h₂.2]
      decide
    | release m u =>
      obtain ⟨⟨rest, hr⟩, -⟩ := h₂
      have hw : (c.tasks t).wait = some (.list (.mutex m)) :=
        (hs.wf.filed _ t).mp (by rw [hr]; exact List.mem_cons_self ..)
      rw [h] at hw
      cases hw
      exact absurd rfl (hl m)
    | create a => exact absurd h₂.1 (Nat.not_le.mpr hlt)
    | start memory => exact absurd rfl (hf.start memory)
    | _ => exact h₂.elim

/-- A wait that is lost stays lost. -/
theorem lost_exec (hs : Sound c) (he : c.Enabled o) (hf : Foreign c t o) (hlt : t < c.nextTask)
    (h : Lost c t) : Lost (c.exec o) t := by
  rcases foreign_wait hs he hf with ⟨h₁, h₂⟩ | ⟨h₁, h₂⟩
  · exact ⟨h₁.trans h.1, fun e => h.2 (h₂.symm.trans e)⟩
  · refine ⟨h₁, ?_⟩
    cases o with
    | wake u r | timeout u r | suspend u =>
      obtain ⟨rfl, -, hw⟩ := h₂
      exact absurd h.1 hw
    | delete u =>
      rw [h₂.2]
      decide
    | release m' u =>
      obtain ⟨⟨rest, hr⟩, -⟩ := h₂
      exact absurd (by rw [hr]; exact List.mem_cons_self ..) (hs.wf.not_mem_waitLists h.1 (.mutex m'))
    | create a => exact absurd h₂.1 (Nat.not_le.mpr hlt)
    | start memory => exact absurd rfl (hf.start memory)
    | _ => exact h₂.elim

/-- Only a deletion takes a grant away. -/
theorem granted_kept (hs : Sound c) (he : c.Enabled o) (hf : Foreign c t o) (hlt : t < c.nextTask)
    (h : Granted c t) (hl : c.Live t) (hd : o ≠ .delete t) : Granted (c.exec o) t ∧ (c.exec o).Live t := by
  have hl' := (exec_live hs he hf.start hlt).mpr ⟨hl, hd⟩
  exact ⟨(granted_exec hs he hf hlt h).resolve_right (not_not.mpr hl'), hl'⟩

end Core

/-- The object a call deletes. -/
def Call.deleted : Call → Option (ObjKind × Handle)
  | .semDelete h => some (.sem, h)
  | .mutexDelete h => some (.mutex, h)
  | .eventDelete h => some (.event, h)
  | .mqDelete h => some (.mq, h)
  | .pipeDelete h => some (.pipe, h)
  | _ => none

namespace Sys

variable {s s' : Sys} {a : Act} {as : List Act} {t : TaskId} {l : WaitList} {f : Frame}

/-- The task that runs goes on with `p`. -/
def Resumes (s : Sys) (a : Act) (p : Pending) : Prop :=
  a = .resume ∧ ∃ t ms, s.runningTask = some t ∧ s.frame t = some { pending := p, timeoutMs := ms }

/-- The action is the function that waits in the list. -/
def UsesList (s : Sys) (a : Act) : WaitList → Prop
  | .sem i => ∃ x ms, s.core.objFromHandle .sem x = some i ∧ a = .call (.semWait x ms)
  | .mutex m => ∃ x ms, s.core.objFromHandle .mutex x = some m ∧ a = .call (.mutexLock x ms)
  | .event i => ∃ x, s.core.objFromHandle .event x = some i ∧
      ((∃ f o ms, a = .call (.eventWait x f o ms)) ∨ ∃ f o st ms, s.Resumes a (.eventWait x f o st ms))
  | .mqSend i => ∃ x, s.core.objFromHandle .mq x = some i ∧ ((∃ m p ms, a = .call (.mqSend x m p ms)) ∨
      (∃ m, a = .isr (.mqSend x m)) ∨ ∃ m p st ms, s.Resumes a (.mqSend x m p st ms))
  | .mqRecv i => ∃ x, s.core.objFromHandle .mq x = some i ∧
      ((∃ n ms, a = .call (.mqRecv x n ms)) ∨ ∃ n st ms, s.Resumes a (.mqRecv x n st ms))
  | .pipeWrite i => ∃ x, s.core.objFromHandle .pipe x = some i ∧ ((∃ d ms, a = .call (.pipeWrite x d ms)) ∨
      (∃ d, a = .isr (.pipeWrite x d)) ∨ ∃ d st ms, s.Resumes a (.pipeWrite x d st ms))
  | .pipeRead i => ∃ x, s.core.objFromHandle .pipe x = some i ∧
      ((∃ n ms, a = .call (.pipeRead x n ms)) ∨ ∃ n st ms, s.Resumes a (.pipeRead x n st ms))
  | .service => a = .call .timerServiceWait

/-- The action deletes the object in slot `i`. -/
def Deletes (k : ObjKind) (i : ℕ) (s : Sys) (a : Act) : Prop :=
  ∃ x h, a = .call x ∧ x.deleted = some (k, h) ∧ s.core.objFromHandle k h = some i

/-- Who waits does not run. -/
theorem paused_of_wait (hs : Sound s.core) (hw : (s.core.tasks t).wait ≠ none) : Paused t s a := by
  rintro ⟨-, hrun⟩
  exact hw (hs.wf.wait_eq_none_of_isReady (.inr (runningTask_eq_some hrun).2.2.2))

/-- **A task that waits** goes on waiting, loses its wait, or is woken by the action. -/
theorem waitsIn_step (hi : InCall s t f) (h : s.step a = some s') (hl : ∀ m, l ≠ .mutex m) (hw : WaitsIn s.core l t) :
    WaitsIn s'.core l t ∨ Lost s'.core t ∨ Granted s'.core t ∧ s'.core.Live t ∧
      ∃ c, Sound c ∧ WaitsIn c l t ∧ a.Performs s c (.wake t Code.ok) := by
  have hp : Paused t s a := paused_of_wait hi.sound (by rw [hw]; exact Option.some_ne_none _)
  have key : ∀ {c o}, Sound c → c.Enabled o → Foreign c t o → t < c.nextTask → a.Performs s c o → WaitsIn c l t →
      WaitsIn (c.exec o) l t ∨ Lost (c.exec o) t ∨ Granted (c.exec o) t ∧ (c.exec o).Live t ∧
        ∃ c, Sound c ∧ WaitsIn c l t ∧ a.Performs s c (.wake t Code.ok) := by
    intro c o hs he hf hlt ho hw
    rcases waitsIn_exec hs he hf hlt hl hw with h | h | ⟨rfl, hg⟩
    · exact .inl h
    · exact .inr (.inl h)
    · have hlive := hs.wf.live_of_wait (t := t) (by rw [hw]; exact Option.some_ne_none _)
      exact .inr (.inr ⟨hg, (exec_live hs he hf.start hlt).mpr ⟨hlive, by simp⟩, c, hs, hw, ho⟩)
  rcases others_step hi hp h with ⟨ops, hpath⟩ | ⟨o, ho, he, hf, e⟩
  · refine hpath.invariant (I := fun c => WaitsIn c l t ∨ Lost c t ∨ Granted c t ∧ c.Live t ∧
      ∃ c, Sound c ∧ WaitsIn c l t ∧ a.Performs s c (.wake t Code.ok)) ?_ (.inl hw)
    rintro c o c' hc ⟨hs, hlt, hm, hf, ho⟩ ⟨he, rfl⟩
    rcases hc with hc | hc | ⟨hg, hlive, hx⟩
    · exact key hs he hf hlt ho hc
    · exact .inr (.inl (lost_exec hs he hf hlt hc))
    · have hd : o ≠ .delete t := by
        rintro rfl
        exact absurd hm (by simp [Op.Mild, Op.Calm, Op.Timely])
      obtain ⟨hg, hlive⟩ := granted_kept hs he hf hlt hg hlive hd
      exact .inr (.inr ⟨hg, hlive, hx⟩)
  · rw [e]
    exact key hi.sound he hf hi.lt ho hw

theorem lost_step (hi : InCall s t f) (hp : Paused t s a) (h : s.step a = some s') (hw : Lost s.core t) :
    Lost s'.core t := by
  rcases others_step hi hp h with ⟨ops, hpath⟩ | ⟨o, -, he, hf, e⟩
  · refine hpath.invariant (I := fun c => Lost c t) ?_ hw
    rintro c o c' hc ⟨hs, hlt, -, hf, -⟩ ⟨he, rfl⟩
    exact lost_exec hs he hf hlt hc
  · rw [e]
    exact lost_exec hi.sound he hf hi.lt hw

/-- Who is deleted has been named by the call. -/
theorem performs_delete {c : Core} (h : a.Performs s c (.delete t)) : a = .call (.taskDelete t) := by
  obtain ⟨x, rfl, hx⟩ := call_of_performs h trivial
  cases x with
  | taskDelete u =>
    cases hx
    rfl
  | _ => simp [Call.Performs, BlocksOn, WakesFrom, Names, SemPosts, EventWaits, MqSends, MqRecvs, PipeWrites,
      PipeReads, Notifies, MutexLocks, MutexUnlocks] at hx

/-- An object is given back by a call that names it. -/
theorem performs_free {c : Core} {k : ObjKind} {i : ℕ} (h : a.Performs s c (.free k i)) : Deletes k i s a := by
  obtain ⟨x, rfl, hx⟩ := call_of_performs h trivial
  cases x with
  | semDelete y | eventDelete y | mqDelete y | pipeDelete y =>
    obtain ⟨j, hj, e⟩ := hx
    cases e
    exact ⟨_, y, rfl, rfl, hj⟩
  | _ => simp [Call.Performs, BlocksOn, WakesFrom, Names, SemPosts, EventWaits, MqSends, MqRecvs, PipeWrites,
      PipeReads, Notifies, MutexLocks, MutexUnlocks] at hx

/-- **An object stays in use** until it is deleted. -/
theorem slot_step {k : ObjKind} {i : ℕ} (hs : Sound s.core) (hu : (s.core.slots k i).used = true)
    (hd : ¬ Deletes k i s a) (h : s.step a = some s') : s'.core.slots k i = s.core.slots k i := by
  have key : ∀ {c o}, Sound c → (c.slots k i).used = true → c.Enabled o → a.Performs s c o →
      (c.exec o).slots k i = c.slots k i := by
    intro c o hs hu he ho
    rw [exec_slots hs.wf.isFiled he]
    cases o with
    | alloc k' j =>
      by_cases hk : k = k'
      · subst hk
        -- a slot that is given out was free
        have hj : i ≠ j := by
          rintro rfl
          rw [(freeSlot_eq_some he.2).1] at hu
          cases hu
        simp [Op.slots, hj]
      · simp [Op.slots, hk]
    | allocMutex j =>
      by_cases hk : k = .mutex
      · subst hk
        have hj : i ≠ j := by
          rintro rfl
          rw [(freeSlot_eq_some he).1] at hu
          cases hu
        simp [Op.slots, hj]
      · simp [Op.slots, hk]
    | free k' j =>
      by_cases hk : k = k'
      · subst hk
        by_cases hj : i = j
        · subst hj
          exact absurd (performs_free ho) hd
        · simp [Op.slots, hj]
      · simp [Op.slots, hk]
    | destroy j =>
      by_cases hk : k = .mutex
      · subst hk
        by_cases hj : i = j
        · subst hj
          obtain ⟨x, e, hx⟩ := performs_destroy ho
          exact absurd ⟨_, x, e, rfl, hx⟩ hd
        · simp [Op.slots, hj]
      · simp [Op.slots, hk]
    | _ => rfl
  rcases step_core hs h with ⟨ops, hp⟩ | ⟨o, ho, he, e⟩
  · refine (hp.invariant (I := fun c => Sound c ∧ c.slots k i = s.core.slots k i) ?_ ⟨hs, rfl⟩).2
    rintro c o c' ⟨hs, e⟩ ⟨hm, ho⟩ ⟨he, rfl⟩
    exact ⟨(hm.exec hs he).1, (key hs (by rw [e]; exact hu) he ho).trans e⟩
  · rw [e]
    exact key hs hu he ho

/-- A deletion deletes, and nothing else. -/
theorem performs_of_deletes {c : Core} {o : Op} {k : ObjKind} {i : ℕ} (hd : Deletes k i s a) (h : a.Performs s c o) :
    (∃ k i, o = .free k i) ∨ ∃ m, o = .destroy m := by
  obtain ⟨x, y, rfl, e, -⟩ := hd
  cases x with
  | semDelete | eventDelete | mqDelete | pipeDelete =>
    obtain ⟨j, -, e⟩ := h
    exact .inl ⟨_, _, e⟩
  | mutexDelete =>
    obtain ⟨j, -, e⟩ := h
    exact .inr ⟨_, e⟩
  | _ => cases e

/-- An object that is in use before and after an action is the same. -/
theorem slot_of_used {k : ObjKind} {i : ℕ} (hs : Sound s.core) (hu : (s.core.slots k i).used = true)
    (hu' : (s'.core.slots k i).used = true) (h : s.step a = some s') : s'.core.slots k i = s.core.slots k i := by
  by_cases hd : Deletes k i s a
  · -- what has been given back is not in use
    have key : ∀ {c o}, Filed c → c.Enabled o → a.Performs s c o →
        (c.exec o).slots k i = c.slots k i ∨ ((c.exec o).slots k i).used = false := by
      intro c o hf he ho
      rw [exec_slots hf he]
      rcases performs_of_deletes hd ho with ⟨k', j, rfl⟩ | ⟨j, rfl⟩
      · by_cases hk : k = k'
        · subst hk
          by_cases hj : i = j
          · subst hj
            simp [Op.slots]
          · simp [Op.slots, hj]
        · simp [Op.slots, hk]
      · by_cases hk : k = .mutex
        · subst hk
          by_cases hj : i = j
          · subst hj
            simp [Op.slots]
          · simp [Op.slots, hj]
        · simp [Op.slots, hk]
    rcases step_core hs h with ⟨ops, hp⟩ | ⟨o, ho, he, e⟩
    · have hI := hp.invariant (I := fun c => Sound c ∧ (c.slots k i = s.core.slots k i ∨ (c.slots k i).used = false))
        ?_ ⟨hs, .inl rfl⟩
      · refine hI.2.resolve_right fun hf => ?_
        rw [hu'] at hf
        cases hf
      · rintro c o c' ⟨hs, hc⟩ ⟨hm, ho⟩ ⟨he, rfl⟩
        refine ⟨(hm.exec hs he).1, ?_⟩
        rcases key hs.wf.isFiled he ho with e | e
        · rw [e]
          exact hc
        · exact .inr e
    · rw [e] at hu' ⊢
      refine (key hs.wf.isFiled he ho).resolve_right fun hf => ?_
      rw [hu'] at hf
      cases hf
  · exact slot_step hs hu hd h

/-- What a task has been granted it keeps until it goes on, unless it is deleted. -/
theorem granted_step_kept (hi : InCall s t f) (hp : Paused t s a) (h : s.step a = some s')
    (hd : a ≠ .call (.taskDelete t)) (hg : Granted s.core t) (hl : s.core.Live t) :
    Granted s'.core t ∧ s'.core.Live t := by
  rcases others_step hi hp h with ⟨ops, hpath⟩ | ⟨o, ho, he, hf, e⟩
  · refine hpath.invariant (I := fun c => Granted c t ∧ c.Live t) ?_ ⟨hg, hl⟩
    rintro c o c' ⟨hg, hl⟩ ⟨hs, hlt, hm, hf, ho⟩ ⟨he, rfl⟩
    refine granted_kept hs he hf hlt hg hl ?_
    rintro rfl
    exact hd (performs_delete ho)
  · rw [e]
    refine granted_kept hi.sound he hf hi.lt hg hl ?_
    rintro rfl
    exact hd (performs_delete ho)

/-- A task blocks in a list in the function that waits there. -/
theorem usesList_of_block {c : Core} {ms : Word} (h : a.Performs s c (.block t (.list l) ms)) : UsesList s a l := by
  have blocks : ∀ {w}, c.BlocksOn w (.block t (.list l) ms) → w = .list l := by
    rintro w ⟨u, ms, -, e⟩
    cases e
    rfl
  have wakes : ∀ {l'}, ¬ c.WakesFrom l' (.block t (.list l) ms) := by
    rintro l' ⟨u, -, e⟩
    cases e
  cases a with
  | call y =>
    cases y with
    | semWait x ms =>
      obtain ⟨j, hj, h⟩ := h
      cases blocks h
      exact ⟨x, ms, hj, rfl⟩
    | mutexLock x ms =>
      obtain ⟨j, hj, h | ⟨u, -, h⟩ | ⟨n, -, h⟩⟩ := h
      · cases blocks h
        exact ⟨x, ms, hj, rfl⟩
      · cases h
      · cases h
    | eventWait x f o ms =>
      obtain ⟨j, hj, h⟩ := h
      cases blocks h
      exact ⟨x, hj, .inl ⟨f, o, ms, rfl⟩⟩
    | mqSend x m p ms =>
      obtain ⟨j, hj, h | h⟩ := h
      · cases blocks h
        exact ⟨x, hj, .inl ⟨m, p, ms, rfl⟩⟩
      · exact absurd h wakes
    | mqRecv x n ms =>
      obtain ⟨j, hj, h | h⟩ := h
      · cases blocks h
        exact ⟨x, hj, .inl ⟨n, ms, rfl⟩⟩
      · exact absurd h wakes
    | pipeWrite x d ms =>
      obtain ⟨j, hj, h | h⟩ := h
      · cases blocks h
        exact ⟨x, hj, .inl ⟨d, ms, rfl⟩⟩
      · exact absurd h wakes
    | pipeRead x n ms =>
      obtain ⟨j, hj, h | h⟩ := h
      · cases blocks h
        exact ⟨x, hj, .inl ⟨n, ms, rfl⟩⟩
      · exact absurd h wakes
    | timerServiceWait =>
      cases blocks h
      rfl
    | notifyWait | notifyTake => cases blocks h
    | taskSleep =>
      obtain h | h := h
      · cases h
      · cases blocks h
    | _ => simp [Act.Performs, Call.Performs, WakesFrom, Names, SemPosts, MutexUnlocks, Notifies] at h
  | isr y =>
    cases y with
    | tick pending =>
      obtain h | h | h | ⟨u, -, h⟩ := h
      · cases h
      · cases h
      · exact absurd h wakes
      · cases h
    | semPost x =>
      obtain ⟨j, hj, h⟩ := h
      exact absurd h wakes
    | mqSend x m =>
      obtain ⟨j, hj, h | h⟩ := h
      · cases blocks h
        exact ⟨x, hj, .inr (.inl ⟨m, rfl⟩)⟩
      · exact absurd h wakes
    | pipeWrite x d =>
      obtain ⟨j, hj, h | h⟩ := h
      · cases blocks h
        exact ⟨x, hj, .inr (.inl ⟨d, rfl⟩)⟩
      · exact absurd h wakes
    | notify => cases h.2
  | resume =>
    obtain ⟨u, ⟨p, ms'⟩, hu, hf, h⟩ := h
    have goes : s.Resumes .resume p := ⟨rfl, u, ms', hu, hf⟩
    cases p with
    | eventWait x f o st ms =>
      obtain ⟨j, hj, h⟩ := h
      cases blocks h
      exact ⟨x, hj, .inr ⟨f, o, st, ms, goes⟩⟩
    | mqSend x m p st ms =>
      obtain ⟨j, hj, h | h⟩ := h
      · cases blocks h
        exact ⟨x, hj, .inr (.inr ⟨m, p, st, ms, goes⟩)⟩
      · exact absurd h wakes
    | mqRecv x n st ms =>
      obtain ⟨j, hj, h | h⟩ := h
      · cases blocks h
        exact ⟨x, hj, .inr ⟨n, st, ms, goes⟩⟩
      · exact absurd h wakes
    | pipeWrite x d st ms =>
      obtain ⟨j, hj, h | h⟩ := h
      · cases blocks h
        exact ⟨x, hj, .inr (.inr ⟨d, st, ms, goes⟩)⟩
      · exact absurd h wakes
    | pipeRead x n st ms =>
      obtain ⟨j, hj, h | h⟩ := h
      · cases blocks h
        exact ⟨x, hj, .inr ⟨n, st, ms, goes⟩⟩
      · exact absurd h wakes
    | _ => exact h.elim
  | _ => cases h

/-- **Who comes into a list** has blocked there. -/
theorem joins_step (hs : Sound s.core) (h : s.step a = some s') (hw : WaitsIn s'.core l t) :
    WaitsIn s.core l t ∨ UsesList s a l ∧ s.core.MayBlock t (.list l) := by
  rcases step_core hs h with ⟨ops, hp⟩ | ⟨o, ho, he, e⟩
  · have hw₀ := path_mild_waits hs hp t (by rw [hw]; exact Option.some_ne_none _)
    exact .inl (hw₀.1.symm.trans hw)
  · rw [e] at hw
    by_cases hb : ∃ u w ms, o = .block u w ms
    · obtain ⟨u, w, ms, rfl⟩ := hb
      by_cases hu : t = u
      · subst hu
        have hself := (blockTask_self s.core t w ms).1
        have e : some w = some (.list l) := hself.symm.trans hw
        cases e
        exact .inr ⟨usesList_of_block ho, he⟩
      · exact .inl (((blockTask_waits hs he ms).2.2 t hu).1.symm.trans hw)
    · have hw₀ := exec_waits hs he (fun u w ms e => hb ⟨u, w, ms, e⟩) t (by rw [hw]; exact Option.some_ne_none _)
      exact .inl (hw₀.1.symm.trans hw)

/-- Who waits in the list of an object other than a mutex can be woken. -/
theorem enabled_wake {c : Core} (hs : Sound c) {w : TaskId} {r : Code} (hl : ∀ m, l ≠ .mutex m)
    (hw : w ∈ c.waitLists l) : c.Enabled (.wake w r) := by
  show (c.tasks w).waitMutex = none
  by_contra hne
  obtain ⟨m, hm⟩ := Option.ne_none_iff_exists'.mp hne
  have e := ((hs.wf.filed l w).mp hw).symm.trans (Tcb.waitMutex_eq_some.mp hm)
  cases e
  exact hl m rfl

/-- Who is woken leaves the list; nobody else does. -/
theorem waitLists_of_wake {c : Core} (hs : Sound c) {w : TaskId} (hl : ∀ m, l ≠ .mutex m)
    (hw : w ∈ c.waitLists l) : Granted (c.exec (.wake w Code.ok)) w ∧
      ∀ u, u ∈ (c.exec (.wake w Code.ok)).waitLists l ↔ u ∈ c.waitLists l ∧ u ≠ w := by
  have hwait := (hs.wf.filed l w).mp hw
  have he := enabled_wake (r := Code.ok) hs hl hw
  have hs' : Sound (c.exec (.wake w Code.ok)) := hs.exec he trivial
  have hg : Granted (c.exec (.wake w Code.ok)) w :=
    taskWake_self hs.wf.isFiled ((hs.wf.waiting w).mp (by rw [hwait]; exact Option.some_ne_none _)) _
  refine ⟨hg, fun u => ?_⟩
  rw [hs'.wf.filed, hs.wf.filed]
  by_cases hu : u = w
  · subst hu
    rw [hg.1]
    simp
  · rcases exec_ended hs he (by simp) u with ⟨e, -⟩ | ⟨-, e, -⟩
    · rw [e]
      exact ⟨fun h => ⟨h, hu⟩, fun h => h.1⟩
    · exact absurd e hu

/-- Nobody waits or is inside a call before the scheduler is started. -/
def Quiet (s : Sys) : Prop := s.core.running = false → (∀ l, s.core.waitLists l = []) ∧ ∀ t, s.frame t = none

theorem quiet_step (hs : Sound s.core) (hs' : Sound s'.core) (hq : Quiet s) (h : s.step a = some s') : Quiet s' := by
  intro hr
  have hr₀ : s.core.running = false := by
    by_contra hne
    rw [running_step hs (Bool.not_eq_false _ ▸ hne) h] at hr
    cases hr
  refine ⟨fun l => List.eq_nil_iff_forall_not_mem.mpr fun t ht => ?_, fun t => ?_⟩
  · rcases joins_step hs h ((hs'.wf.filed l t).mp ht) with hw | ⟨-, hb⟩
    · have := (hs.wf.filed l t).mpr hw
      rw [(hq hr₀).1 l] at this
      cases this
    · have := hb.cur
      rw [hs.wf.cur.none hr₀] at this
      cases this
  · have hno : s.runningTask = none := by
      unfold runningTask
      rw [hs.wf.cur.none hr₀]
    rw [← (hq hr₀).2 t]
    cases a with
    | call c =>
      rcases step_call h with ⟨u, hu, -⟩ | ⟨-, k, r, -, rfl⟩
      · rw [hno] at hu
        cases hu
      · rfl
    | resume =>
      obtain ⟨u, f, hu, -⟩ := step_resume h
      rw [hno] at hu
      cases hu
    | start memory =>
      obtain ⟨-, c, -, rfl⟩ := step_start h
      rfl
    | switch | isrEnter | isrExit | isr =>
      simp only [step] at h
      split at h
      · cases h
        rfl
      · cases h

/-- What is known of every state of a run with a clean start. -/
structure Steady (s : Sys) : Prop where
  sound : Sound s.core
  framed : Framed s
  quiet : Quiet s

theorem steady_init : Steady init := ⟨sound_init, fun _ ht => absurd rfl ht, fun _ => ⟨fun _ => rfl, fun _ => rfl⟩⟩

theorem Steady.step (h : Steady s) (hc : StartsClean s a) (hstep : s.step a = some s') : Steady s' :=
  ⟨sound_step h.sound hc hstep, framed_step h.framed h.sound hstep,
    quiet_step h.sound (sound_step h.sound hc hstep) h.quiet hstep⟩

theorem steady_path (hp : Path (Next step) StartsClean s as s') (h : Steady s) : Steady s' :=
  hp.invariant (I := Steady) (fun _ _ _ hs hc h => hs.step hc h) h

/-- Who has a frame is inside a call. -/
theorem Steady.inCall (h : Steady s) (hf : s.frame t = some f) (hl : s.core.Live t) : InCall s t f := by
  refine ⟨h.sound, ?_, hf, h.sound.wf.fresh t hl⟩
  by_contra hr
  rw [(h.quiet (Bool.not_eq_true _ ▸ hr)).2 t] at hf
  cases hf

/-- Who is in a wait list has a frame. -/
theorem Steady.frame (h : Steady s) (ht : t ∈ s.core.waitLists l) : ∃ f, InCall s t f := by
  have hw : (s.core.tasks t).wait ≠ none := by
    rw [(h.sound.wf.filed l t).mp ht]
    exact Option.some_ne_none _
  obtain ⟨f, hf, -⟩ := h.framed t hw
  exact ⟨f, h.inCall hf (h.sound.wf.live_of_wait hw)⟩

end Sys

end Aixos
