import Aixos.Objects.PipeStream
import Aixos.Objects.Wakeups

/-!
# The wakeups of a pipe

A write wakes one reader, however many bytes it stores, and a read wakes one writer. So a reader
that has been woken may leave bytes behind for others; nobody tells them.

* `LeavesBytes`, `LeavesSpace` — a woken task, the only one on the way, is done before the pipe is
  empty, or full.
* `PipeReadEffect`, `PipeWriteEffect` — what a round of the loops does.
* `Sys.pipeAttended_of_path` — nobody is left waiting while the pipe could serve it and nobody is on
  the way.
-/

namespace Aixos

open Transition Aixos.Core WaitingRoom

variable [cfg : Config]

namespace Kernel

variable {k : Kernel} {h : Handle} {i j : ℕ}

/-- A round of the reader's loop. -/
theorem pipeReadLoop_cases (k : Kernel) (i : ℕ) (h : Handle) (n : ℕ) (st ms rem : Word) :
    (k.pipes i).count = 0 ∧ ((∃ e, k.pipeReadLoop i h n st ms rem = k.code e) ∨
        (k.pipeReadLoop i h n st ms rem).1.pipes = k.pipes ∧
          (k.pipeReadLoop i h n st ms rem).2 = .wait { pending := .pipeRead h n st ms, timeoutMs := rem }) ∨
      ∃ p, (k.pipes i).count ≠ 0 ∧ p.count = (k.pipes i).count - n ∧ p.size = (k.pipes i).size ∧
        (n ≠ 0 ∧ (k.pipeReadLoop i h n st ms rem).1 = { k with pipes := Function.update k.pipes i p }.wakeFirst (.pipeWrite i) ∨
          n = 0 ∧ (k.pipeReadLoop i h n st ms rem).1 = { k with pipes := Function.update k.pipes i p }) := by
  unfold pipeReadLoop
  by_cases hc : (k.pipes i).count = 0
  · rw [if_pos hc]
    refine .inl ⟨hc, ?_⟩
    split
    · exact .inl ⟨_, rfl⟩
    · rcases k.block_cases (.list (.pipeRead i)) rem (.pipeRead h n st ms) with ⟨e, hb, -⟩ | ⟨t, -, -, hb⟩
      · exact .inl ⟨e, hb⟩
      · rw [hb]
        exact .inr ⟨rfl, rfl⟩
  · rw [if_neg hc]
    dsimp only
    have hlen : (pipeLoad (k.pipes i) n).2.length = min n (k.pipes i).count := by
      simp [pipeLoad]
    refine .inr ⟨(pipeLoad (k.pipes i) n).1, hc, ?_, rfl, ?_⟩
    · show (k.pipes i).count - min n (k.pipes i).count = _
      omega
    · by_cases hn : n = 0
      · refine .inr ⟨hn, ?_⟩
        rw [if_neg (by rw [hlen]; omega)]
      · refine .inl ⟨hn, ?_⟩
        rw [if_pos (by rw [hlen]; omega)]

/-- A round of the writer's loop. -/
theorem pipeWriteLoop_cases (k : Kernel) (i : ℕ) (h : Handle) (d : List UInt8) (st ms rem : Word) (isr : Bool) :
    (k.pipes i).size - (k.pipes i).count = 0 ∧ ((∃ e, k.pipeWriteLoop i h d st ms rem isr = k.code e) ∨
        (k.pipeWriteLoop i h d st ms rem isr).1.pipes = k.pipes ∧
          isr = false ∧ (k.pipeWriteLoop i h d st ms rem isr).2 = .wait { pending := .pipeWrite h d st ms, timeoutMs := rem }) ∨
      ∃ p, (k.pipes i).size - (k.pipes i).count ≠ 0 ∧ p.size - p.count = (k.pipes i).size - (k.pipes i).count - d.length ∧
        (k.pipes i).count ≤ p.count ∧
        (d ≠ [] ∧ (k.pipeWriteLoop i h d st ms rem isr).1 = { k with pipes := Function.update k.pipes i p }.wakeFirst (.pipeRead i) ∨
          d = [] ∧ p.count = (k.pipes i).count ∧
            (k.pipeWriteLoop i h d st ms rem isr).1 = { k with pipes := Function.update k.pipes i p }) := by
  unfold pipeWriteLoop
  by_cases hc : (k.pipes i).size - (k.pipes i).count = 0
  · rw [if_pos hc]
    refine .inl ⟨hc, ?_⟩
    split
    · exact .inl ⟨_, rfl⟩
    · rename_i hisr
      rcases k.block_cases (.list (.pipeWrite i)) rem (.pipeWrite h d st ms) with ⟨e, hb, -⟩ | ⟨t, -, -, hb⟩
      · exact .inl ⟨e, hb⟩
      · rw [hb]
        exact .inr ⟨rfl, by simpa using (not_or.mp hisr).1, rfl⟩
  · rw [if_neg hc]
    dsimp only
    have hlen : (pipeStore (k.pipes i) d).2 = min d.length ((k.pipes i).size - (k.pipes i).count) := rfl
    have hcount : (pipeStore (k.pipes i) d).1.count =
        (k.pipes i).count + min d.length ((k.pipes i).size - (k.pipes i).count) := rfl
    have hsize : (pipeStore (k.pipes i) d).1.size = (k.pipes i).size := rfl
    refine .inr ⟨(pipeStore (k.pipes i) d).1, hc, by rw [hcount, hsize]; omega, by rw [hcount]; omega, ?_⟩
    by_cases hd : d = []
    · have hz : d.length = 0 := by rw [hd]; rfl
      refine .inr ⟨hd, by rw [hcount, hz]; omega, ?_⟩
      rw [if_neg (by rw [hlen]; omega)]
      rfl
    · have hpos := List.length_pos_iff.mpr hd
      refine .inl ⟨hd, ?_⟩
      rw [if_pos (by rw [hlen]; omega)]
      rfl

/-- The loops leave other pipes alone. -/
theorem pipeReadLoop_other (k : Kernel) (hj : i ≠ j) (h : Handle) (n : ℕ) (st ms rem : Word) :
    (k.pipeReadLoop j h n st ms rem).1.pipes i = k.pipes i := by
  rcases k.pipeReadLoop_cases j h n st ms rem with ⟨-, ⟨e, h⟩ | ⟨h, -⟩⟩ | ⟨p, -, -, -, ⟨-, h⟩ | ⟨-, h⟩⟩
  · rw [h]
    rfl
  · rw [h]
  · rw [h, wakeFirst_pipes]
    exact Function.update_of_ne hj ..
  · rw [h]
    exact Function.update_of_ne hj ..

theorem pipeWriteLoop_other (k : Kernel) (hj : i ≠ j) (h : Handle) (d : List UInt8) (st ms rem : Word) (isr : Bool) :
    (k.pipeWriteLoop j h d st ms rem isr).1.pipes i = k.pipes i := by
  rcases k.pipeWriteLoop_cases j h d st ms rem isr with ⟨-, ⟨e, h⟩ | ⟨h, -⟩⟩ | ⟨p, -, -, -, ⟨-, h⟩ | ⟨-, -, h⟩⟩
  · rw [h]
    rfl
  · rw [h]
  · rw [h, wakeFirst_pipes]
    exact Function.update_of_ne hj ..
  · rw [h]
    exact Function.update_of_ne hj ..

theorem pipeWriteCommon_cases (k : Kernel) (h : Handle) (d : Option (List UInt8)) (ms : Word) (isr : Bool) :
    (∃ e, k.pipeWriteCommon h d ms isr = k.code e) ∨ ∃ i d' st, k.core.objFromHandle .pipe h = some i ∧
      k.pipeWriteCommon h d ms isr = k.pipeWriteLoop i h d' st ms ms isr := by
  unfold pipeWriteCommon
  cases d with
  | none => exact .inl ⟨_, rfl⟩
  | some d =>
    dsimp only
    split
    · exact .inl ⟨_, rfl⟩
    · split
      · exact .inl ⟨_, rfl⟩
      · split
        · exact .inl ⟨_, rfl⟩
        · split
          · exact .inl ⟨_, rfl⟩
          · rename_i i hi
            exact .inr ⟨i, d, _, hi, rfl⟩

end Kernel

namespace Sys

variable {s s' : Sys} {a : Act} {as : List Act} {t u : TaskId} {l : WaitList} {i : ℕ}

/-- Task `t` leaves those who are on the way: it goes on, or it is deleted. -/
structure Departs (l : WaitList) (s : Sys) (a : Act) (t : TaskId) : Prop where
  woken : Woken s l t
  leaves : ¬ Paused t s a ∨ DeletesTask s a t

/-- Somebody other than `t` is on the way, unless nobody waits. -/
def Relieved (l : WaitList) (s : Sys) (t : TaskId) : Prop :=
  s.core.waitLists l ≠ [] → ∃ u, u ≠ t ∧ Woken s l u

/-- At most one task departs in an action. -/
theorem Departs.unique (ht : Departs l s a t) (hu : Departs l s a u) : t = u := by
  rcases ht.leaves with hp | ⟨rfl, -⟩
  · obtain ⟨rfl, ht'⟩ := not_not.mp hp
    rcases hu.leaves with hu | hu
    · exact Option.some.inj (ht'.symm.trans (not_not.mp hu).2)
    · cases hu.1
  · rcases hu.leaves with hu | hu
    · exact nomatch (not_not.mp hu).1
    · cases hu.1
      rfl

/-- Somebody stays on the way, if whoever departs is relieved. -/
theorem attended_kept {n n' : ℕ} (hs : Steady s) (hs' : Sound s'.core) (h : s.step a = some s')
    (ha : (room l n s).Attended) (hn : n' ≤ n) (hj : NoneJoins l s s')
    (hd : ∀ t, Departs l s a t → n' ≠ 0 → Relieved l s t) : (room l n' s').Attended := by
  rintro ⟨t, ht⟩ hpos
  have hpos : 0 < n' := hpos
  have hsl : ∀ k i, l.object = some (k, i) → s'.core.slots k i = s.core.slots k i :=
    fun k i hl => slot_of_list hs.sound hs' h hl ht
  have stays : ∀ {u}, Woken s l u → ¬ Departs l s a u → Woken s' l u := by
    intro u hu hdep
    refine woken_kept hs hu ?_ (fun e => hdep ⟨hu, .inr e⟩) hsl h
    by_contra hp
    exact hdep ⟨hu, .inl hp⟩
  obtain ⟨u, hu⟩ := ha ⟨t, hj t ht⟩ (show 0 < n by omega)
  have hu : Woken s l u := hu
  by_cases hdep : Departs l s a u
  · obtain ⟨v, hne, hv⟩ := hd u hdep (by omega) (List.ne_nil_of_mem (hj t ht))
    exact ⟨v, stays hv fun hdep' => hne (hdep'.unique hdep)⟩
  · exact ⟨u, stays hu hdep⟩

/-- Whoever is woken is on the way. -/
theorem attended_of_wakesFirst {n' : ℕ} (hs : Steady s) (hs' : Sound s'.core) (h : s.step a = some s')
    (hpl : Placed l s) (hl : ∀ m, l ≠ .mutex m) (hw : WakesFirst l s s') : (room l n' s').Attended := by
  rintro ⟨t, ht⟩ -
  have ht : t ∈ s'.core.waitLists l := ht
  rcases hw with ⟨hnil, e⟩ | ⟨w, hw, e⟩
  · rw [e, hnil] at ht
    cases ht
  · exact ⟨w, woken_of_wake hs hpl hw hl (fun k i hl => slot_of_list hs.sound hs' h hl ht) h e⟩

/-! ### What the loops do -/

/-- A reader that has been woken reads less than is stored. -/
def LeavesBytes (i : ℕ) (s : Sys) (t : TaskId) : Prop :=
  ∃ x n st ms tm, s.frame t = some ⟨.pipeRead x n st ms, tm⟩ ∧ n < (s.kernel.pipes i).count

/-- A writer that has been woken writes less than is free. -/
def LeavesSpace (i : ℕ) (s : Sys) (t : TaskId) : Prop :=
  ∃ x d st ms tm, s.frame t = some ⟨.pipeWrite x d st ms, tm⟩ ∧
    d.length < (s.kernel.pipes i).size - (s.kernel.pipes i).count

/-- What an action does that reads from the pipe. -/
inductive PipeReadEffect (i : ℕ) (s s' : Sys) (a : Act) : Prop where
  /-- It returns without a byte. -/
  | same : s'.kernel = s.kernel → ((∀ t, Woken s (.pipeRead i) t → Paused t s a) ∨ (s.kernel.pipes i).count = 0) →
      PipeReadEffect i s s' a
  /-- It blocks. -/
  | blocks : Blocked (.pipeRead i) s s' → s'.kernel.pipes = s.kernel.pipes → (s.kernel.pipes i).count = 0 →
      PipeReadEffect i s s' a
  /-- It takes bytes. -/
  | takes (p : Pipe) : p.count ≤ (s.kernel.pipes i).count → p.size = (s.kernel.pipes i).size →
      s'.kernel.pipes = Function.update s.kernel.pipes i p →
      (∀ t, Woken s (.pipeRead i) t → ¬ Paused t s a → p.count ≠ 0 → LeavesBytes i s t) →
      (WakesFirst (.pipeWrite i) s s' ∨ s'.core = s.core ∧ p.count = (s.kernel.pipes i).count) → PipeReadEffect i s s' a

/-- What an action does that writes to the pipe. -/
inductive PipeWriteEffect (i : ℕ) (s s' : Sys) (a : Act) : Prop where
  /-- It returns without having stored a byte. -/
  | same : s'.kernel = s.kernel → ((∀ t, Woken s (.pipeWrite i) t → Paused t s a) ∨
      (s.kernel.pipes i).size - (s.kernel.pipes i).count = 0) → PipeWriteEffect i s s' a
  /-- It blocks. -/
  | blocks : Blocked (.pipeWrite i) s s' → s'.kernel.pipes = s.kernel.pipes →
      (s.kernel.pipes i).size - (s.kernel.pipes i).count = 0 → PipeWriteEffect i s s' a
  /-- It stores bytes. -/
  | stores (p : Pipe) : p.size - p.count ≤ (s.kernel.pipes i).size - (s.kernel.pipes i).count →
      s'.kernel.pipes = Function.update s.kernel.pipes i p →
      (∀ t, Woken s (.pipeWrite i) t → ¬ Paused t s a → p.size - p.count ≠ 0 → LeavesSpace i s t) →
      (WakesFirst (.pipeRead i) s s' ∨ s'.core = s.core ∧ p.count = (s.kernel.pipes i).count) → PipeWriteEffect i s s' a

theorem pipeRead_uses (h : s.step a = some s') (hu : UsesList s a (.pipeRead i)) : PipeReadEffect i s s' a := by
  have round : ∀ {x n st ms rem}, s.core.objFromHandle .pipe x = some i →
      Ran s s' (s.kernel.pipeReadLoop i x n st ms rem) →
      (∀ t, ¬ Paused t s a → ∃ tm, s.frame t = some ⟨.pipeRead x n st ms, tm⟩) → PipeReadEffect i s s' a := by
    intro x n st ms rem hx hr ha
    rcases s.kernel.pipeReadLoop_cases i x n st ms rem with ⟨hc, ⟨e, h⟩ | ⟨h₁, h₂⟩⟩ | ⟨p, hc, h₁, h₂, h₃⟩
    · refine .same ?_ (.inr hc)
      rw [hr.1, h]
      rfl
    · obtain ⟨t, ht, hf⟩ := hr.2 _ h₂
      exact .blocks ⟨t, _, ht, hf, hx⟩ (by rw [hr.1, h₁]) hc
    · have leaves : ∀ t, Woken s (.pipeRead i) t → ¬ Paused t s a → p.count ≠ 0 → LeavesBytes i s t := by
        intro t _ hp hne
        obtain ⟨tm, hf⟩ := ha t hp
        exact ⟨x, n, st, ms, tm, hf, by omega⟩
      rcases h₃ with ⟨hn, h₃⟩ | ⟨hn, h₃⟩
      · have e := hr.1.trans h₃
        refine .takes p (by omega) h₂ ?_ leaves (.inl (wakesFirst_of_kernel e rfl))
        rw [e, Kernel.wakeFirst_pipes]
      · have e := hr.1.trans h₃
        refine .takes p (by omega) h₂ (by rw [e]) leaves (.inr ⟨by rw [core, e], by omega⟩)
  obtain ⟨x, hx, ⟨n, ms, rfl⟩ | ⟨n, st, ms, rfl, t, tm, ht, hf⟩⟩ := hu
  · have notResume : ∀ t, Paused t s (.call (.pipeRead x n ms)) := by
      rintro _ ⟨⟨⟩, -⟩
    have hr := ran_call h
    have hc : s.kernel.call (.pipeRead x n ms) = s.kernel.pipeRead x n ms := rfl
    rw [hc] at hr
    unfold Kernel.pipeRead at hr
    split at hr
    · exact .same hr.1 (.inl fun t _ => notResume t)
    · split at hr
      · exact .same hr.1 (.inl fun t _ => notResume t)
      · rw [hx] at hr
        exact round hx hr fun t hp => absurd (notResume t) hp
  · have hr := ran_resume h ht hf
    unfold Kernel.resume at hr
    dsimp only at hr
    split at hr
    · rename_i hne
      refine .same hr.1 (.inl fun u hu hp => hne ?_)
      obtain rfl : t = u := Option.some.inj (ht.symm.trans hp.2)
      exact hu.granted.2
    · rw [hx] at hr
      refine round hx hr fun u hp => ⟨tm, ?_⟩
      obtain rfl : t = u := Option.some.inj (ht.symm.trans (not_not.mp hp).2)
      exact hf

theorem pipeWrite_uses (h : s.step a = some s') (hu : UsesList s a (.pipeWrite i)) : PipeWriteEffect i s s' a := by
  have round : ∀ {x d st ms rem isr r}, s.core.objFromHandle .pipe x = some i → s'.kernel = r.1 →
      (isr = false → ∀ f, r.2 = .wait f → ∃ t, s.runningTask = some t ∧ s'.frame t = some f) →
      r = s.kernel.pipeWriteLoop i x d st ms rem isr →
      (∀ t, ¬ Paused t s a → ∃ tm, s.frame t = some ⟨.pipeWrite x d st ms, tm⟩) → PipeWriteEffect i s s' a := by
    rintro x d st ms rem isr r hx hk hf rfl ha
    rcases s.kernel.pipeWriteLoop_cases i x d st ms rem isr with ⟨hc, ⟨e, h⟩ | ⟨h₁, h₂, h₃⟩⟩ | ⟨p, hc, h₁, h₂, h₃⟩
    · refine .same ?_ (.inr hc)
      rw [hk, h]
      rfl
    · obtain ⟨t, ht, hf⟩ := hf h₂ _ h₃
      exact .blocks ⟨t, _, ht, hf, hx⟩ (by rw [hk, h₁]) hc
    · have leaves : ∀ t, Woken s (.pipeWrite i) t → ¬ Paused t s a → p.size - p.count ≠ 0 → LeavesSpace i s t := by
        intro t _ hp hne
        obtain ⟨tm, hf⟩ := ha t hp
        exact ⟨x, d, st, ms, tm, hf, by omega⟩
      rcases h₃ with ⟨hd, h₃⟩ | ⟨hd, hz, h₃⟩
      · have e := hk.trans h₃
        refine .stores p (by omega) ?_ leaves (.inl (wakesFirst_of_kernel e rfl))
        rw [e, Kernel.wakeFirst_pipes]
      · have e := hk.trans h₃
        exact .stores p (by omega) (by rw [e]) leaves (.inr ⟨by rw [core, e], hz⟩)
  have error : ∀ {e}, s'.kernel = (s.kernel.code e).1 → a ≠ .resume → PipeWriteEffect i s s' a :=
    fun e ha => .same e (.inl fun t _ hp => ha hp.1)
  obtain ⟨x, hx, ⟨d, ms, rfl⟩ | ⟨d, rfl⟩ | ⟨d, st, ms, rfl, t, tm, ht, hf⟩⟩ := hu
  · have hr := ran_call h
    have hc : s.kernel.call (.pipeWrite x d ms) = s.kernel.pipeWrite x d ms := rfl
    rw [hc] at hr
    unfold Kernel.pipeWrite at hr
    split at hr
    · exact error hr.1 (by simp)
    · rcases s.kernel.pipeWriteCommon_cases x d ms false with ⟨e, he⟩ | ⟨j, d', st, hj, he⟩
      · rw [he] at hr
        exact error hr.1 (by simp)
      · obtain rfl : i = j := Option.some.inj (hx.symm.trans hj)
        exact round hx hr.1 (fun _ => hr.2) he fun t hp => absurd (by rintro ⟨⟨⟩, -⟩) hp
  · have hk : s'.kernel = (s.kernel.pipeWriteFromIsr x d).1 := (step_isr_kernel h).symm
    unfold Kernel.pipeWriteFromIsr at hk
    split at hk
    · exact error hk (by simp)
    · rcases s.kernel.pipeWriteCommon_cases x d 0 true with ⟨e, he⟩ | ⟨j, d', st, hj, he⟩
      · rw [he] at hk
        exact error hk (by simp)
      · obtain rfl : i = j := Option.some.inj (hx.symm.trans hj)
        exact round hx hk (by simp) he fun t hp => absurd (by rintro ⟨⟨⟩, -⟩) hp
  · have hr := ran_resume h ht hf
    unfold Kernel.resume at hr
    dsimp only at hr
    split at hr
    · rename_i hne
      refine .same hr.1 (.inl fun u hu hp => hne ?_)
      obtain rfl : t = u := Option.some.inj (ht.symm.trans hp.2)
      exact hu.granted.2
    · rw [hx] at hr
      refine round hx hr.1 (fun _ => hr.2) rfl fun u hp => ⟨tm, ?_⟩
      obtain rfl : t = u := Option.some.inj (ht.symm.trans (not_not.mp hp).2)
      exact hf

/-- Other actions leave a pipe alone, or make it. -/
theorem pipes_step (hw : ¬ UsesList s a (.pipeWrite i)) (hr : ¬ UsesList s a (.pipeRead i)) (h : s.step a = some s') :
    s'.kernel.pipes i = s.kernel.pipes i ∨ (s.core.slots .pipe i).used = false ∧ (s'.kernel.pipes i).count = 0 := by
  by_cases hst : a.stores s ≠ some .pipe
  · exact .inl (congrFun (step_keeps h hst) i)
  · -- a call on another pipe, or on one that is being made
    have write : ∀ {x d ms isr}, (s.core.objFromHandle .pipe x = some i → False) →
        (s.kernel.pipeWriteCommon x d ms isr).1.pipes i = s.kernel.pipes i := by
      intro x d ms isr hx
      rcases s.kernel.pipeWriteCommon_cases x d ms isr with ⟨e, he⟩ | ⟨j, d', st, hj, he⟩
      · rw [he]
        rfl
      · rw [he]
        refine s.kernel.pipeWriteLoop_other ?_ ..
        rintro rfl
        exact hx hj
    cases a with
    | call c =>
      rw [← step_call_kernel h]
      cases c with
      | pipeCreate size mem =>
        show (s.kernel.pipeCreate size mem).1.pipes i = _ ∨ _ ∧ ((s.kernel.pipeCreate size mem).1.pipes i).count = 0
        unfold Kernel.pipeCreate
        split
        · exact .inl rfl
        · unfold Kernel.createObject
          split
          · exact .inl rfl
          · rename_i j hj
            by_cases hne : i = j
            · subst hne
              refine .inr ⟨(freeSlot_eq_some hj).1, ?_⟩
              dsimp only
              rw [Function.update_self]
            · exact .inl (Function.update_of_ne hne ..)
      | pipeWrite x d ms =>
        left
        show (s.kernel.pipeWrite x d ms).1.pipes i = _
        unfold Kernel.pipeWrite
        split
        · rfl
        · exact write fun hx => hw ⟨x, hx, .inl ⟨d, ms, rfl⟩⟩
      | pipeRead x n ms =>
        left
        show (s.kernel.pipeRead x n ms).1.pipes i = _
        unfold Kernel.pipeRead
        split
        · rfl
        · split
          · rfl
          · cases hj : s.core.objFromHandle .pipe x with
            | none => rfl
            | some j =>
              refine s.kernel.pipeReadLoop_other ?_ ..
              rintro rfl
              exact hr ⟨x, hj, .inl ⟨n, ms, rfl⟩⟩
      | _ => exact absurd (by simp [Act.stores, Call.stores]) hst
    | isr c =>
      rw [← step_isr_kernel h]
      cases c with
      | pipeWrite x d =>
        left
        show (s.kernel.pipeWriteFromIsr x d).1.pipes i = _
        unfold Kernel.pipeWriteFromIsr
        split
        · rfl
        · exact write fun hx => hw ⟨x, hx, .inr (.inl ⟨d, rfl⟩)⟩
      | _ => exact absurd (by simp [Act.stores, IsrCall.stores]) hst
    | resume =>
      obtain ⟨t, f, ht, hf, -⟩ := step_resume h
      rw [(ran_resume h ht hf).1]
      obtain ⟨p, tm⟩ := f
      have goes : s.Resumes .resume p := ⟨rfl, t, tm, ht, hf⟩
      simp only [Act.stores, ht, hf, Option.bind_some] at hst
      unfold Kernel.resume
      dsimp only
      cases p with
      | pipeWrite x d st ms =>
        left
        dsimp only
        split
        · rfl
        · cases hj : s.core.objFromHandle .pipe x with
          | none => rfl
          | some j =>
            refine s.kernel.pipeWriteLoop_other ?_ ..
            rintro rfl
            exact hw ⟨x, hj, .inr (.inr ⟨d, st, ms, goes⟩)⟩
      | pipeRead x n st ms =>
        left
        dsimp only
        split
        · rfl
        · cases hj : s.core.objFromHandle .pipe x with
          | none => rfl
          | some j =>
            refine s.kernel.pipeReadLoop_other ?_ ..
            rintro rfl
            exact hr ⟨x, hj, .inr ⟨n, st, ms, goes⟩⟩
      | _ => exact absurd (by simp [Pending.stores]) hst
    | _ => exact absurd (by simp [Act.stores]) hst

/-! ### The law -/

/-- Whoever departs with something left over for others is relieved. -/
structure PipeServes (i : ℕ) (s : Sys) (a : Act) : Prop where
  clean : StartsClean s a
  /-- A reader that goes on and leaves bytes. -/
  read : ∀ t, Woken s (.pipeRead i) t → ¬ Paused t s a → LeavesBytes i s t → Relieved (.pipeRead i) s t
  /-- A writer that goes on and leaves space. -/
  write : ∀ t, Woken s (.pipeWrite i) t → ¬ Paused t s a → LeavesSpace i s t → Relieved (.pipeWrite i) s t
  /-- A reader that is deleted before it has read. -/
  readDeleted : ∀ t, Woken s (.pipeRead i) t → DeletesTask s a t → (s.kernel.pipes i).count ≠ 0 →
    Relieved (.pipeRead i) s t
  /-- A writer that is deleted before it has written. -/
  writeDeleted : ∀ t, Woken s (.pipeWrite i) t → DeletesTask s a t →
    (s.kernel.pipes i).size - (s.kernel.pipes i).count ≠ 0 → Relieved (.pipeWrite i) s t

/-- The readers of the pipe, and its bytes. -/
def readRoom (i : ℕ) (s : Sys) : Room TaskId := room (.pipeRead i) (s.kernel.pipes i).count s

/-- The writers of the pipe, and its space. -/
def writeRoom (i : ℕ) (s : Sys) : Room TaskId :=
  room (.pipeWrite i) ((s.kernel.pipes i).size - (s.kernel.pipes i).count) s

/-- The invariant of the pipe. -/
structure PipeOk (i : ℕ) (s : Sys) : Prop where
  steady : Steady s
  readPlaced : Placed (.pipeRead i) s
  writePlaced : Placed (.pipeWrite i) s
  /-- A reader is on the way, if bytes are stored and readers wait. -/
  read : (readRoom i s).Attended
  /-- A writer is on the way, if there is space and writers wait. -/
  write : (writeRoom i s).Attended

/-- **The readers at one action.** -/
theorem readRoom_step (hk : PipeOk i s) (hc : PipeServes i s a) (hs' : Sound s'.core) (h : s.step a = some s') :
    (readRoom i s').Attended := by
  have keeps : (s'.kernel.pipes i).count ≤ (s.kernel.pipes i).count → NoneJoins (.pipeRead i) s s' →
      (∀ t, Woken s (.pipeRead i) t → ¬ Paused t s a → (s'.kernel.pipes i).count ≠ 0 → LeavesBytes i s t) →
      (readRoom i s').Attended := by
    intro hn hj hl
    refine attended_kept hk.steady hs' h hk.read hn hj fun t ht hne => ?_
    rcases ht.leaves with hp | hd
    · exact hc.read t ht.woken hp (hl t ht.woken hp hne)
    · exact hc.readDeleted t ht.woken hd (by omega)
  by_cases hr : UsesList s a (.pipeRead i)
  · cases pipeRead_uses h hr with
    | same e hp =>
      refine keeps (by rw [e]) (noneJoins_of_core (congrArg Kernel.core e)) fun t ht hnp hne => ?_
      rcases hp with hp | hz
      · exact absurd (hp t ht) hnp
      · rw [e] at hne
        exact absurd hz hne
    | blocks _ e hz =>
      rintro - hpos
      have hpos : 0 < (s'.kernel.pipes i).count := hpos
      rw [e, hz] at hpos
      omega
    | takes p hle _ e hl hw =>
      have hcount : (s'.kernel.pipes i).count = p.count := by rw [e, Function.update_self]
      have hj : NoneJoins (.pipeRead i) s s' := by
        rcases hw with hw | ⟨hw, -⟩
        · exact hw.noneJoins hk.steady.sound hs' (by simp)
        · exact noneJoins_of_core hw
      rw [← hcount] at hle hl
      exact keeps hle hj hl
  · have hj := noneJoins_of_not_uses hk.steady.sound hs' h hr
    have hp : ∀ t, Woken s (.pipeRead i) t → ¬ Paused t s a → (s'.kernel.pipes i).count ≠ 0 → LeavesBytes i s t :=
      fun t ht hnp => absurd (paused_of_not_uses hr ht) hnp
    by_cases hw : UsesList s a (.pipeWrite i)
    · cases pipeWrite_uses h hw with
      | same e => exact keeps (by rw [e]) hj hp
      | blocks _ e => exact keeps (by rw [e]) hj hp
      | stores p _ e _ hwk =>
        rcases hwk with hwk | ⟨-, hz⟩
        · exact attended_of_wakesFirst hk.steady hs' h hk.readPlaced (by simp) hwk
        · refine keeps ?_ hj hp
          rw [e, Function.update_self, hz]
    · rcases pipes_step hw hr h with e | ⟨-, e⟩
      · exact keeps (by rw [e]) hj hp
      · rintro - hpos
        exact absurd e (Nat.pos_iff_ne_zero.mp hpos)

/-- **The writers at one action.** -/
theorem writeRoom_step (hk : PipeOk i s) (hc : PipeServes i s a) (hs' : Sound s'.core) (h : s.step a = some s') :
    (writeRoom i s').Attended := by
  have keeps : (s'.kernel.pipes i).size - (s'.kernel.pipes i).count ≤ (s.kernel.pipes i).size - (s.kernel.pipes i).count →
      NoneJoins (.pipeWrite i) s s' → (∀ t, Woken s (.pipeWrite i) t → ¬ Paused t s a →
        (s'.kernel.pipes i).size - (s'.kernel.pipes i).count ≠ 0 → LeavesSpace i s t) → (writeRoom i s').Attended := by
    intro hn hj hl
    refine attended_kept hk.steady hs' h hk.write hn hj fun t ht hne => ?_
    rcases ht.leaves with hp | hd
    · exact hc.write t ht.woken hp (hl t ht.woken hp hne)
    · exact hc.writeDeleted t ht.woken hd (by omega)
  by_cases hw : UsesList s a (.pipeWrite i)
  · cases pipeWrite_uses h hw with
    | same e hp =>
      refine keeps (by rw [e]) (noneJoins_of_core (congrArg Kernel.core e)) fun t ht hnp hne => ?_
      rcases hp with hp | hz
      · exact absurd (hp t ht) hnp
      · rw [e] at hne
        exact absurd hz hne
    | blocks _ e hz =>
      rintro - hpos
      have hpos : 0 < (s'.kernel.pipes i).size - (s'.kernel.pipes i).count := hpos
      rw [e, hz] at hpos
      omega
    | stores p hle e hl hwk =>
      have hspace : s'.kernel.pipes i = p := by rw [e, Function.update_self]
      have hj : NoneJoins (.pipeWrite i) s s' := by
        rcases hwk with hwk | ⟨hwk, -⟩
        · exact hwk.noneJoins hk.steady.sound hs' (by simp)
        · exact noneJoins_of_core hwk
      rw [← hspace] at hle hl
      exact keeps hle hj hl
  · have hj := noneJoins_of_not_uses hk.steady.sound hs' h hw
    have hp : ∀ t, Woken s (.pipeWrite i) t → ¬ Paused t s a →
        (s'.kernel.pipes i).size - (s'.kernel.pipes i).count ≠ 0 → LeavesSpace i s t :=
      fun t ht hnp => absurd (paused_of_not_uses hw ht) hnp
    by_cases hr : UsesList s a (.pipeRead i)
    · cases pipeRead_uses h hr with
      | same e => exact keeps (by rw [e]) hj hp
      | blocks _ e => exact keeps (by rw [e]) hj hp
      | takes p _ hsize e _ hwk =>
        rcases hwk with hwk | ⟨-, hz⟩
        · exact attended_of_wakesFirst hk.steady hs' h hk.writePlaced (by simp) hwk
        · refine keeps ?_ hj hp
          rw [e, Function.update_self, hz, hsize]
    · rintro ⟨t, ht⟩
      have hu := used_of_waits hk.steady.sound hs' h rfl ht
      rcases pipes_step hw hr h with e | ⟨hf, -⟩
      · exact keeps (by rw [e]) hj hp ⟨t, ht⟩
      · rw [hu] at hf
        cases hf

theorem pipeOk_step (hk : PipeOk i s) (hc : PipeServes i s a) (h : s.step a = some s') : PipeOk i s' := by
  have hst := hk.steady.step hc.clean h
  refine ⟨hst, ?_, ?_, readRoom_step hk hc hst.sound h, writeRoom_step hk hc hst.sound h⟩
  · refine placed_step hk.steady hst.sound h hk.readPlaced fun hu => ?_
    cases pipeRead_uses h hu with
    | same e => exact .inl (congrArg Kernel.core e)
    | blocks hb => exact .inr (.inl hb)
    | takes p _ _ _ _ hw => exact hw.elim (fun hw => .inr (.inr ⟨_, by simp, hw⟩)) fun hw => .inl hw.1
  · refine placed_step hk.steady hst.sound h hk.writePlaced fun hu => ?_
    cases pipeWrite_uses h hu with
    | same e => exact .inl (congrArg Kernel.core e)
    | blocks hb => exact .inr (.inl hb)
    | stores p _ _ _ hw => exact hw.elim (fun hw => .inr (.inr ⟨_, by simp, hw⟩)) fun hw => .inl hw.1

theorem pipeOk_init (i : ℕ) : PipeOk i init where
  steady := steady_init
  readPlaced t ht := by cases ht
  writePlaced t ht := by cases ht
  read := by
    rintro ⟨t, ht⟩
    cases ht
  write := by
    rintro ⟨t, ht⟩
    cases ht

/-- Nobody is left waiting while the pipe could serve it and nobody is on the way. -/
structure PipeAttended (i : ℕ) (s : Sys) : Prop where
  /-- If bytes are stored and a reader waits, a reader has been woken and has not gone on yet. -/
  readers : (s.kernel.pipes i).count ≠ 0 → s.core.waitLists (.pipeRead i) ≠ [] → ∃ t, Woken s (.pipeRead i) t
  /-- If there is space and a writer waits, a writer has been woken and has not gone on yet. -/
  writers : (s.kernel.pipes i).count < (s.kernel.pipes i).size → s.core.waitLists (.pipeWrite i) ≠ [] →
    ∃ t, Woken s (.pipeWrite i) t

/-- **No wakeup of a pipe is lost** in every run in which whoever leaves bytes or space behind is not the
only one on the way. -/
theorem pipeAttended_of_path (hp : Path (Next step) (PipeServes i) init as s) : PipeAttended i s := by
  have hk : PipeOk i s := hp.invariant (I := PipeOk i) (fun _ _ _ hk hc h => pipeOk_step hk hc h) (pipeOk_init i)
  constructor
  · intro hn hw
    obtain ⟨t, ht⟩ := List.exists_mem_of_ne_nil _ hw
    exact hk.read ⟨t, ht⟩ (Nat.pos_of_ne_zero hn)
  · intro hn hw
    obtain ⟨t, ht⟩ := List.exists_mem_of_ne_nil _ hw
    exact hk.write ⟨t, ht⟩ (Nat.sub_pos_of_lt hn)

end Sys

end Aixos

namespace Aixos.Sys

open Transition Aixos.Core

attribute [local instance] Config.default

/-- Task 2 and then task 1 read from an empty pipe, up to `n` and up to 4 bytes, and task 0 writes 2. -/
def awaitedBytes (n : ℕ) : List Act :=
  boot [{ stackSize := 512, priority := 3 }, { stackSize := 512, priority := 7 }, { stackSize := 512, priority := 9 }] true ++
  [.call .timerServiceWait, .switch, .call (.pipeCreate 4 true), .call (.pipeRead ⟨0, 1⟩ n forever), .switch,
    .call (.pipeRead ⟨0, 1⟩ 4 forever), .switch, .call (.pipeWrite ⟨0, 1⟩ (some [1, 2]) forever)]

theorem awaitedBytes_pipeAttended : ∃ s, run step init (awaitedBytes 4) = some s ∧ (s.kernel.pipes 0).count = 2 ∧
    s.core.waitLists (.pipeRead 0) = [1] ∧ PipeAttended 0 s := by
  obtain ⟨s, h, hp⟩ := exists_run step init (awaitedBytes 4) (fun s => decide ((s.kernel.pipes 0).count = 2 ∧
    s.core.waitLists (.pipeRead 0) = [1])) (by decide +kernel)
  obtain ⟨h₁, h₂⟩ := of_decide_eq_true hp
  -- nobody goes on after a wait, and nobody is deleted
  have hpath := (path_of_boot h).1.both (P := fun a => a ≠ .resume ∧ ∀ t, a ≠ .call (.taskDelete t)) (by simp [boot])
  refine ⟨s, h, h₁, h₂, pipeAttended_of_path (hpath.mono fun s a ha => ⟨ha.1, ?_, ?_, ?_, ?_⟩)⟩
  · exact fun t _ hp => absurd (fun hp => ha.2.1 hp.1) hp
  · exact fun t _ hp => absurd (fun hp => ha.2.1 hp.1) hp
  · exact fun t _ e => absurd e.1 (ha.2.2 t)
  · exact fun t _ e => absurd e.1 (ha.2.2 t)

/-- Task 2, which is woken, reads one byte; it leaves the other, and task 1 goes on waiting for it. -/
theorem awaitedBytes_not_pipeAttended : ∃ s, run step init (awaitedBytes 1 ++ [.switch, .resume]) = some s ∧
    s.ret 2 = some (.data [1]) ∧ ¬ PipeAttended 0 s := by
  obtain ⟨s, h, hp⟩ := exists_run step init (awaitedBytes 1 ++ [.switch, .resume]) (fun s =>
    decide (s.ret 2 = some (.data [1]) ∧ (s.kernel.pipes 0).count ≠ 0 ∧ s.core.waitLists (.pipeRead 0) ≠ [] ∧
      ∀ t < s.core.nextTask, s.frame t = none ∨ (s.core.tasks t).wait ≠ none)) (by decide +kernel)
  obtain ⟨h₁, hn, hw, hall⟩ := of_decide_eq_true hp
  refine ⟨s, h, h₁, fun hm => ?_⟩
  obtain ⟨t, ht⟩ := hm.readers hn hw
  have hs : Sound s.core := by
    rw [awaitedBytes, List.append_assoc] at h
    exact sound_path (path_of_boot h).1 sound_init
  rcases hall t (hs.wf.fresh t ht.live) with hf | hf
  · obtain ⟨f, hf', -⟩ := ht.frame
    rw [hf] at hf'
    cases hf'
  · exact hf ht.granted.1

end Aixos.Sys
