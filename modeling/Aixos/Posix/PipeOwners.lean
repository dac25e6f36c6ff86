import Aixos.Kernel.Descriptors
import Aixos.Objects.Natives
import Aixos.System.Membership
import Aixos.System.Waiters
import Mathlib.Data.Finset.Insert

/-!
# Who owns a pipe

The pipe of a descriptor is to be deleted with the last descriptor that refers to it. `aixos_posix_close` gives the descriptor
up first and then tries to delete the pipe; if a task waits for the pipe this fails, and nobody refers to the pipe any more.

* `PipeLedger.next` — the pipes that have been made and not deleted.
* `Owning` — the invariant: they are those of the used descriptors, and of the closes that are about to delete one.
* `Descriptors.PipesOwned` — the property.
* `Descriptors.DeletesIdle` — the condition: nobody waits for a pipe that a close comes to delete.
* `Descriptors.pipesOwned_of_path` — every run that meets the condition has the property in the end, and a step that does
  not meet it breaks the property.
-/

namespace Aixos

open Transition Aixos.Core

/-- A pipe has been made, or deleted. -/
inductive PipeNews where
  | made (h : Handle)
  | deleted (h : Handle)
  deriving DecidableEq

/-- The pipes that have been made and not deleted. -/
abbrev PipeLedger := Finset Handle

/-- Accept what is observed. -/
def PipeLedger.next (L : PipeLedger) : PipeNews → Option PipeLedger
  | .made h => if h ∈ L then none else some (insert h L)
  | .deleted h => if h ∈ L then some (L.erase h) else none

namespace Descriptors

variable [cfg : Config] [pcfg : PosixConfig]

/-- What is observed of a step. -/
def events (s : Descriptors) : DescriptorAct → List PipeNews
  | .call c =>
    match s.sys.runningTask with
    | none => []
    | some t =>
      match s.call t c with
      | (s', .inl (.opened r _)) => [.made (s'.table r).pipe]
      | _ => []
  | .goOn =>
    match s.sys.runningTask.bind s.pending with
    | some (.delete h) => if (s.sys.kernel.pipeDelete h).2 = .ret (.code Code.ok) then [.deleted h] else []
    | _ => []
  | .sys _ => []

omit pcfg in
/-- **Nobody waits for a pipe** that a close comes to delete. -/
def DeletesIdle (s : Descriptors) (a : DescriptorAct) : Prop := ∀ t h, a = .goOn → s.sys.runningTask = some t →
  s.pending t = some (.delete h) → ∀ l ∈ objLists .pipe h.index, s.sys.core.waitLists l = []

/-- The pipes of this file, whose handles it does not give away, are not deleted by other means. -/
def Undisturbed (s : Descriptors) (a : DescriptorAct) : Prop := ∀ b, a = .sys b →
  (∀ i, (s.table i).used = true → ¬ Sys.Deletes .pipe (s.table i).pipe.index s.sys b) ∧
    ∀ t h, s.pending t = some (.delete h) → ¬ Sys.Deletes .pipe h.index s.sys b

/-- The condition on a step. -/
def Meets (s : Descriptors) (a : DescriptorAct) : Prop := Undisturbed s a ∧ DeletesIdle s a

/-- The running task `t` makes a call in `s` and has returned from it in `s'`; all steps after the first meet `C`. -/
def Returns (C : Descriptors → DescriptorAct → Prop) (s : Descriptors) (t : TaskId) (c : DescriptorCall) (s' : Descriptors)
    (r : DescriptorResult) : Prop :=
  s.sys.runningTask = some t ∧ ∃ s₁, s.step (.call c) = some s₁ ∧ s'.result t = some r ∧
    (s' = s₁ ∨ ∃ bs s₂, Path (Next step) (fun s a => C s a ∧ ∀ c', a = .call c' → s.sys.runningTask ≠ some t) s₁ bs s₂ ∧
      C s₂ .goOn ∧ s₂.sys.runningTask = some t ∧ s₂.step .goOn = some s')

/-- **Descriptors own their pipes.** -/
structure PipesOwned (C : Descriptors → DescriptorAct → Prop) (s : Descriptors) (L : PipeLedger) : Prop where
  /-- A pipe that has been made and not deleted is that of a used descriptor, or of a close that is about to delete it. -/
  referenced : ∀ h ∈ L, (∃ i, (s.table i).used = true ∧ (s.table i).pipe = h) ∨ ∃ t, s.pending t = some (.delete h)
  /-- A used descriptor has a pipe, which is live. -/
  refers : ∀ i, (s.table i).used = true → (s.table i).pipe ∈ L ∧ s.sys.kernel.Live .pipe (s.table i).pipe
  /-- A close that returns -1 leaves the descriptor as it was. -/
  kept : ∀ t d s' errno, Returns C s t (.close d) s' (.failed errno) → ∀ i, index d = some i → s'.table i = s.table i

/-! ### The system -/

section System

variable {y y' : Sys} {a : Act} {c : Call} {h : Handle} {kind : ObjKind} {s : Descriptors} {t : TaskId}

omit pcfg in
/-- A handle keeps its object until that is deleted. -/
theorem live_step (hs : Sound y.core) (hl : y.kernel.Live kind h) (hd : ¬ Sys.Deletes kind h.index y a)
    (hy : y.step a = some y') : y'.kernel.Live kind h := by
  obtain ⟨hlt, hu, hg⟩ := Kernel.live_iff.mp hl
  have hslot := Sys.slot_step hs hu hd hy
  exact Kernel.live_iff.mpr ⟨hlt, by rw [hslot]; exact hu, by rw [hslot]; exact hg⟩

omit pcfg in
theorem native_step (ht : s.sys.runningTask = some t) (hf : s.sys.frame t = none) (c : Call) :
    s.sys.step (.call c) = some (s.native t c).1.sys := by
  have hr := (Sys.runningTask_eq_some ht).2.1
  rw [Sys.step, if_pos hr]
  simp [ht, hf, native]

omit pcfg in
/-- The system stays sound and runs on. -/
theorem sound_running_step (hs : Sound y.core) (hr : y.core.running = true) (hy : y.step a = some y') :
    Sound y'.core ∧ y'.core.running = true := by
  refine ⟨Sys.sound_step hs ?_ hy, Sys.running_step hs hr hy⟩
  rintro memory rfl
  rw [(Sys.step_start hy).1] at hr
  cases hr

end System

/-! ### The invariant -/

/-- The used descriptors and the closes that are about to delete a pipe own the pipes of the ledger. -/
structure Owning (s : Descriptors) (L : PipeLedger) : Prop where
  sound : Sound s.sys.core
  running : s.sys.core.running = true
  bound : ∀ i, (s.table i).used = true → i < pcfg.openMax
  refers : ∀ i, (s.table i).used = true → (s.table i).pipe ∈ L
  live : ∀ h ∈ L, s.sys.kernel.Live .pipe h
  closing : ∀ t h, s.pending t = some (.delete h) → h ∈ L ∧ ∀ i, (s.table i).used = true → (s.table i).pipe ≠ h
  one : ∀ t u h, s.pending t = some (.delete h) → s.pending u = some (.delete h) → t = u
  owned : ∀ h ∈ L, (∃ i, (s.table i).used = true ∧ (s.table i).pipe = h) ∨ ∃ t, s.pending t = some (.delete h)

namespace Owning

variable {s s' : Descriptors} {L : PipeLedger} {t : TaskId} {h : Handle} {i : ℕ}

/-- Nothing happens to descriptors and closes. -/
theorem quiet (ho : Owning s L) (hs : Sound s'.sys.core ∧ s'.sys.core.running = true) (ht : s'.table = s.table)
    (hp : ∀ t h, s'.pending t = some (.delete h) ↔ s.pending t = some (.delete h))
    (hl : ∀ h ∈ L, s.sys.kernel.Live .pipe h → s'.sys.kernel.Live .pipe h) : Owning s' L where
  sound := hs.1
  running := hs.2
  bound := by rw [ht]; exact ho.bound
  refers := by rw [ht]; exact ho.refers
  live h hm := hl h hm (ho.live h hm)
  closing t h hp' := by rw [ht]; exact ho.closing t h ((hp t h).mp hp')
  one t u h h₁ h₂ := ho.one t u h ((hp t h).mp h₁) ((hp u h).mp h₂)
  owned h hm := by
    rw [ht]
    exact (ho.owned h hm).imp_right fun ⟨t, h'⟩ => ⟨t, (hp t h).mpr h'⟩

/-- A pipe is made for two descriptors. -/
theorem opened (ho : Owning s L) (hs : Sound s'.sys.core ∧ s'.sys.core.running = true) {r w : ℕ}
    (hr : r < pcfg.openMax) (hw : w < pcfg.openMax)
    (ht : ∀ i, (i = r ∨ i = w) ∧ (s'.table i).used = true ∧ (s'.table i).pipe = h ∨
      i ≠ r ∧ i ≠ w ∧ s'.table i = s.table i)
    (hu : (s.table r).used = false ∧ (s.table w).used = false)
    (hp : ∀ t h, s'.pending t = some (.delete h) ↔ s.pending t = some (.delete h)) (hfresh : h ∉ L)
    (hl : ∀ h' ∈ L, s.sys.kernel.Live .pipe h' → s'.sys.kernel.Live .pipe h') (hlive : s'.sys.kernel.Live .pipe h) :
    Owning s' (insert h L) where
  sound := hs.1
  running := hs.2
  bound i hi := by
    rcases ht i with ⟨rfl | rfl, -⟩ | ⟨-, -, e⟩
    · exact hr
    · exact hw
    · exact ho.bound i (by rwa [e] at hi)
  refers i hi := by
    rcases ht i with ⟨-, -, e⟩ | ⟨-, -, e⟩
    · rw [e]
      exact Finset.mem_insert_self h L
    · rw [e] at hi ⊢
      exact Finset.mem_insert_of_mem (ho.refers i hi)
  live h' hm := by
    rcases Finset.mem_insert.mp hm with rfl | hm
    · exact hlive
    · exact hl h' hm (ho.live h' hm)
  closing t h' hp' := by
    obtain ⟨hm, hno⟩ := ho.closing t h' ((hp t h').mp hp')
    refine ⟨Finset.mem_insert_of_mem hm, fun i hi => ?_⟩
    rcases ht i with ⟨-, -, e⟩ | ⟨-, -, e⟩
    · rw [e]
      rintro rfl
      exact hfresh hm
    · rw [e] at hi ⊢
      exact hno i hi
  one t u h' h₁ h₂ := ho.one t u h' ((hp t h').mp h₁) ((hp u h').mp h₂)
  owned h' hm := by
    rcases Finset.mem_insert.mp hm with rfl | hm
    · rcases ht r with ⟨-, h₁, h₂⟩ | ⟨hne, -⟩
      · exact .inl ⟨r, h₁, h₂⟩
      · exact absurd rfl hne
    · rcases ho.owned h' hm with ⟨i, hi, e⟩ | ⟨t, h₁⟩
      · refine .inl ⟨i, ?_⟩
        rcases ht i with ⟨rfl | rfl, -⟩ | ⟨-, -, e'⟩
        · rw [hu.1] at hi
          cases hi
        · rw [hu.2] at hi
          cases hi
        · rw [e']
          exact ⟨hi, e⟩
      · exact .inr ⟨t, (hp t h').mpr h₁⟩

/-- A descriptor is given up, and another one refers to its pipe. -/
theorem closed (ho : Owning s L) (hs : s'.sys = s.sys) (ht : ∀ j, j ≠ i → s'.table j = s.table j)
    (hi : (s'.table i).used = false) (hp : ∀ t h, s'.pending t = some (.delete h) ↔ s.pending t = some (.delete h))
    (hother : ∃ j, (s'.table j).used = true ∧ (s'.table j).pipe = (s.table i).pipe) : Owning s' L := by
  have hused : ∀ j, (s'.table j).used = true → j ≠ i ∧ s'.table j = s.table j := by
    intro j hj
    have hne : j ≠ i := by
      rintro rfl
      rw [hi] at hj
      cases hj
    exact ⟨hne, ht j hne⟩
  refine ⟨by rw [hs]; exact ho.sound, by rw [hs]; exact ho.running, fun j hj => ?_, fun j hj => ?_,
    by rw [hs]; exact ho.live, fun t h hp' => ?_, fun t u h h₁ h₂ => ho.one t u h ((hp t h).mp h₁) ((hp u h).mp h₂),
    fun h hm => ?_⟩
  · obtain ⟨-, e⟩ := hused j hj
    exact ho.bound j (by rwa [e] at hj)
  · obtain ⟨-, e⟩ := hused j hj
    rw [e] at hj ⊢
    exact ho.refers j hj
  · obtain ⟨hm, hno⟩ := ho.closing t h ((hp t h).mp hp')
    refine ⟨hm, fun j hj => ?_⟩
    obtain ⟨-, e⟩ := hused j hj
    rw [e] at hj ⊢
    exact hno j hj
  · rcases ho.owned h hm with ⟨j, hj, e⟩ | ⟨t, h₁⟩
    · by_cases hji : j = i
      · obtain ⟨l, hl, hpipe⟩ := hother
        exact .inl ⟨l, hl, by rw [hpipe, ← hji, e]⟩
      · exact .inl ⟨j, by rw [ht j hji]; exact ⟨hj, e⟩⟩
    · exact .inr ⟨t, (hp t h).mpr h₁⟩

/-- The last descriptor of a pipe is given up, by a close that is about to delete the pipe. -/
theorem closedLast (ho : Owning s L) (hs : s'.sys = s.sys) (ht : ∀ j, j ≠ i → s'.table j = s.table j)
    (hu : (s.table i).used = true) (hi : (s'.table i).used = false) (hnone : s.pending t = none)
    (hp : s'.pending = Function.update s.pending t (some (.delete (s.table i).pipe)))
    (hlast : ∀ j, (s'.table j).used = true → (s'.table j).pipe ≠ (s.table i).pipe) : Owning s' L := by
  have hused : ∀ j, (s'.table j).used = true → s'.table j = s.table j := by
    intro j hj
    refine ht j ?_
    rintro rfl
    rw [hi] at hj
    cases hj
  have hpend : ∀ u h, s'.pending u = some (.delete h) → u = t ∧ h = (s.table i).pipe ∨
      u ≠ t ∧ s.pending u = some (.delete h) := by
    intro u h hu
    rw [hp, Function.update_apply] at hu
    split at hu
    · cases hu
      exact .inl ⟨‹_›, rfl⟩
    · exact .inr ⟨‹_›, hu⟩
  -- no other close is about to delete the pipe, which was the pipe of a used descriptor
  have hfirst : ∀ u h, s.pending u = some (.delete h) → h ≠ (s.table i).pipe := by
    rintro u h hp' rfl
    exact (ho.closing u _ hp').2 i hu rfl
  refine ⟨by rw [hs]; exact ho.sound, by rw [hs]; exact ho.running, fun j hj => ?_, fun j hj => ?_,
    by rw [hs]; exact ho.live, fun u h hp' => ?_, fun u v h h₁ h₂ => ?_, fun h hm => ?_⟩
  · exact ho.bound j (by rwa [hused j hj] at hj)
  · have e := hused j hj
    rw [e] at hj ⊢
    exact ho.refers j hj
  · rcases hpend u h hp' with ⟨-, rfl⟩ | ⟨-, h₁⟩
    · exact ⟨ho.refers i hu, hlast⟩
    · obtain ⟨hm, hno⟩ := ho.closing u h h₁
      refine ⟨hm, fun j hj => ?_⟩
      have e := hused j hj
      rw [e] at hj ⊢
      exact hno j hj
  · rcases hpend u h h₁ with ⟨rfl, rfl⟩ | ⟨-, h₁⟩
    · rcases hpend v _ h₂ with ⟨rfl, -⟩ | ⟨-, h₂⟩
      · rfl
      · exact absurd rfl (hfirst v _ h₂)
    · rcases hpend v h h₂ with ⟨-, rfl⟩ | ⟨-, h₂⟩
      · exact absurd rfl (hfirst u _ h₁)
      · exact ho.one u v h h₁ h₂
  · rcases ho.owned h hm with ⟨j, hj, e⟩ | ⟨u, h₁⟩
    · by_cases hji : j = i
      · exact .inr ⟨t, by rw [hp, Function.update_self, ← hji, e]⟩
      · exact .inl ⟨j, by rw [ht j hji]; exact ⟨hj, e⟩⟩
    · refine .inr ⟨u, ?_⟩
      rw [hp, Function.update_of_ne]
      · exact h₁
      · rintro rfl
        rw [hnone] at h₁
        cases h₁

/-- A close has deleted its pipe. -/
theorem deleted (ho : Owning s L) (hs : Sound s'.sys.core ∧ s'.sys.core.running = true) (ht : s'.table = s.table)
    (hdel : s.pending t = some (.delete h)) (hp : s'.pending = Function.update s.pending t none)
    (hl : ∀ h' ∈ L, h' ≠ h → s.sys.kernel.Live .pipe h' → s'.sys.kernel.Live .pipe h') : Owning s' (L.erase h) := by
  have hpend : ∀ u h', s'.pending u = some (.delete h') → u ≠ t ∧ s.pending u = some (.delete h') := by
    intro u h' hu
    rw [hp, Function.update_apply] at hu
    split at hu
    · cases hu
    · exact ⟨‹_›, hu⟩
  obtain ⟨-, hno⟩ := ho.closing t h hdel
  refine ⟨hs.1, hs.2, by rw [ht]; exact ho.bound, fun i hi => ?_, fun h' hm => ?_, fun u h' hu => ?_,
    fun u v h' h₁ h₂ => ho.one u v h' (hpend u h' h₁).2 (hpend v h' h₂).2, fun h' hm => ?_⟩
  · rw [ht] at hi ⊢
    exact Finset.mem_erase.mpr ⟨hno i hi, ho.refers i hi⟩
  · obtain ⟨hne, hm⟩ := Finset.mem_erase.mp hm
    exact hl h' hm hne (ho.live h' hm)
  · obtain ⟨hne, h₁⟩ := hpend u h' hu
    obtain ⟨hm, hno'⟩ := ho.closing u h' h₁
    refine ⟨Finset.mem_erase.mpr ⟨?_, hm⟩, by rw [ht]; exact hno'⟩
    rintro rfl
    exact hne (ho.one u t h' h₁ hdel)
  · obtain ⟨hne, hm⟩ := Finset.mem_erase.mp hm
    rw [ht]
    refine (ho.owned h' hm).imp_right fun ⟨u, h₁⟩ => ⟨u, ?_⟩
    rw [hp, Function.update_of_ne]
    · exact h₁
    · rintro rfl
      rw [hdel] at h₁
      cases h₁
      exact hne rfl

end Owning

/-! ### Steps -/

section Steps

variable {s s' : Descriptors} {L : PipeLedger} {t u : TaskId} {h : Handle} {i : ℕ} {c : Call} {a : DescriptorAct}
  {p : DescriptorResult ⊕ DescriptorStage}

omit cfg pcfg in
@[simp] theorem settle_table : (settle t (s, p)).table = s.table := by cases p <;> rfl

omit cfg pcfg in
@[simp] theorem settle_sys : (settle t (s, p)).sys = s.sys := by cases p <;> rfl

omit cfg pcfg in
theorem settle_pending : (settle t (s, p)).pending = Function.update s.pending t p.getRight? := by cases p <;> rfl

omit cfg pcfg in
theorem settle_result : (settle t (s, p)).result t = p.getLeft? := by cases p <;> simp [settle]

omit cfg pcfg in
/-- A task begins, goes on or returns, and neither before nor after it is about to delete a pipe. -/
theorem pending_quiet (h₀ : ∀ h, s.pending t ≠ some (.delete h)) (hp : ∀ h, p ≠ .inr (.delete h)) (u : TaskId) (h : Handle) :
    (settle t (s, p)).pending u = some (.delete h) ↔ s.pending u = some (.delete h) := by
  rw [settle_pending, Function.update_apply]
  split
  · rename_i e
    rw [e]
    refine iff_of_false (fun e' => ?_) (h₀ h)
    exact hp h (Sum.getRight?_eq_some_iff.mp e')
  · rfl

omit pcfg in
theorem not_deletes {y : Sys} {kind : ObjKind} {i : ℕ} (hc : c.deleted = none) : ¬ Sys.Deletes kind i y (.call c) := by
  rintro ⟨x, h, e, hx, -⟩
  cases e
  rw [hc] at hx
  cases hx

omit cfg in
theorem allocate_eq_some {table : ℕ → Descriptor} (ha : allocateDescriptor table = some i) :
    i < pcfg.openMax ∧ (table i).used = false :=
  ⟨List.mem_range.mp (List.mem_of_find?_eq_some ha), by simpa using List.find?_some ha⟩

omit pcfg in
theorem native_eq {k : Kernel} {o : Outcome} (e : s.sys.kernel.call c = (k, o)) : s.native t c = ((s.native t c).1, o) := by
  unfold native
  dsimp only
  rw [e]

/-- How `aixos_posix_pipe_open` ends. -/
theorem pipeOpen_cases (s : Descriptors) (t : TaskId) (result memory : Bool) :
    (∃ s₁ errno, s.pipeOpen t result memory = (s₁, .inl (.failed errno)) ∧ s₁.table = s.table ∧ s₁.pending = s.pending ∧
      (s₁.sys = s.sys ∨ s₁.sys = (s.native t (.pipeCreate posixPipeCapacity memory)).1.sys)) ∨
    ∃ s₁ r w h, s.pipeOpen t result memory = (s₁, .inl (.opened r w)) ∧
      s.sys.kernel.Created (s.sys.kernel.pipeCreate posixPipeCapacity memory).1 .pipe h ∧
      s₁.sys = (s.native t (.pipeCreate posixPipeCapacity memory)).1.sys ∧ s₁.pending = s.pending ∧
      r < pcfg.openMax ∧ w < pcfg.openMax ∧ (s.table r).used = false ∧ (s.table w).used = false ∧
      (s₁.table r).pipe = h ∧ ∀ i, (i = r ∨ i = w) ∧ (s₁.table i).used = true ∧ (s₁.table i).pipe = h ∨
        i ≠ r ∧ i ≠ w ∧ s₁.table i = s.table i := by
  unfold pipeOpen
  split
  · exact .inl ⟨s, _, rfl, rfl, rfl, .inl rfl⟩
  · split
    · exact .inl ⟨s, _, rfl, rfl, rfl, .inl rfl⟩
    · rename_i r hr
      obtain ⟨hr, hur⟩ := allocate_eq_some hr
      have hback : Function.update (Function.update s.table r { s.table r with used := true }) r
          { Function.update s.table r { s.table r with used := true } r with used := false } = s.table := by
        rw [Function.update_idem, Function.update_self]
        conv_rhs => rw [← Function.update_eq_self r s.table]
        congr 1
        cases hd : s.table r
        simp_all
      dsimp only
      split
      · exact .inl ⟨_, _, rfl, hback, rfl, .inl rfl⟩
      · rename_i w hw
        obtain ⟨hw, huw⟩ := allocate_eq_some hw
        have hne : w ≠ r := by
          rintro rfl
          simp at huw
        rw [Function.update_of_ne hne] at huw
        rcases Kernel.creates_pipeCreate posixPipeCapacity memory s.sys.kernel with hc | ⟨k, h, hc, hcr⟩
        · rw [native_eq (c := .pipeCreate posixPipeCapacity memory) hc]
          exact .inl ⟨_, _, rfl, hback, rfl, .inr rfl⟩
        · rw [native_eq (c := .pipeCreate posixPipeCapacity memory) hc]
          refine .inr ⟨_, r, w, h, rfl, by rw [show s.sys.kernel.pipeCreate posixPipeCapacity memory = _ from hc]; exact hcr,
            rfl, rfl, hr, hw, hur, huw, ?_, fun i => ?_⟩
          · simp [Function.update_of_ne (Ne.symm hne)]
          · by_cases hiw : i = w
            · subst hiw
              exact .inl ⟨.inr rfl, by simp, by simp⟩
            · by_cases hir : i = r
              · subst hir
                exact .inl ⟨.inl rfl, by simp [Function.update_of_ne hiw], by simp [Function.update_of_ne hiw]⟩
              · exact .inr ⟨hir, hiw, by simp [Function.update_of_ne hiw, Function.update_of_ne hir]⟩

omit cfg in
/-- How `aixos_posix_close` begins. -/
theorem close_cases (s : Descriptors) (d : ℤ) :
    (∃ errno, s.close d = (s, .inl (.failed errno))) ∨
    ∃ i s₁, index d = some i ∧ (s.table i).used = true ∧ s₁.sys = s.sys ∧ s₁.pending = s.pending ∧
      (s₁.table i).used = false ∧ (∀ j, j ≠ i → s₁.table j = s.table j) ∧
      (s.close d = (s₁, .inl .ok) ∧ (∃ j, (s₁.table j).used = true ∧ (s₁.table j).pipe = (s.table i).pipe) ∨
        s.close d = (s₁, .inr (.delete (s.table i).pipe)) ∧
          ∀ j < pcfg.openMax, (s₁.table j).used = true → (s₁.table j).pipe ≠ (s.table i).pipe) := by
  unfold close
  split
  · exact .inl ⟨_, rfl⟩
  · rename_i i hi
    split
    · exact .inl ⟨_, rfl⟩
    · rename_i hu
      refine .inr ⟨i, { s with table := Function.update s.table i (s.table i).release }, hi, by simpa using hu, rfl, rfl,
        by simp [Descriptor.release], fun j hj => Function.update_of_ne hj .., ?_⟩
      dsimp only
      split
      · rename_i hr
        refine .inr ⟨rfl, fun j hj hju e => ?_⟩
        have := List.countP_eq_zero.mp hr j (List.mem_range.mpr hj)
        simp [hju, e] at this
      · rename_i hr
        refine .inl ⟨rfl, ?_⟩
        obtain ⟨j, -, hj⟩ := List.countP_pos_iff.mp (Nat.pos_of_ne_zero hr)
        rw [Bool.and_eq_true] at hj
        exact ⟨j, hj.1, of_decide_eq_true hj.2⟩

/-- The system takes a step with which no pipe of the ledger is deleted. -/
theorem Owning.live_sys (ho : Owning s L) {b : Act} {y : Sys} (hy : s.sys.step b = some y)
    (hd : ∀ h ∈ L, ¬ Sys.Deletes .pipe h.index s.sys b) : ∀ h ∈ L, s.sys.kernel.Live .pipe h → y.kernel.Live .pipe h :=
  fun h hm hl => live_step ho.sound hl (hd h hm) hy

/-- **A call begins.** -/
theorem Owning.begins (ho : Owning s L) (ht : s.sys.runningTask = some t) (hp : s.pending t = none)
    (hf : s.sys.frame t = none) (c : DescriptorCall) :
    ∃ L', run PipeLedger.next L (events s (.call c)) = some L' ∧ Owning (settle t (s.call t c)) L' := by
  have hquiet : ∀ {s₁ : Descriptors} {q : DescriptorResult ⊕ DescriptorStage}, s₁.pending = s.pending →
      (∀ h, q ≠ .inr (.delete h)) → ∀ u h, (settle t (s₁, q)).pending u = some (.delete h) ↔ s.pending u = some (.delete h) := by
    intro s₁ q e hq u h
    have := pending_quiet (s := s₁) (t := t) (p := q) (by rw [e, hp]; exact nofun) hq u h
    rw [e] at this
    exact this
  have hsame : ∀ {c : DescriptorCall} {q : DescriptorResult ⊕ DescriptorStage}, s.call t c = (s, q) →
      (∀ h, q ≠ .inr (.delete h)) → (∀ r w, q ≠ .inl (.opened r w)) →
      ∃ L', run PipeLedger.next L (events s (.call c)) = some L' ∧ Owning (settle t (s.call t c)) L' := by
    intro c q e hq hq'
    have hev : events s (.call c) = [] := by
      unfold events
      rw [ht]
      dsimp only
      rw [e]
      split
      · rename_i e'
        cases e'
        exact absurd rfl (hq' _ _)
      · rfl
    rw [hev, e]
    exact ⟨L, rfl, ho.quiet (by rw [settle_sys]; exact ⟨ho.sound, ho.running⟩) settle_table (hquiet rfl hq)
      (by rw [settle_sys]; exact fun h _ hl => hl)⟩
  cases c with
  | pipeOpen result memory =>
    have hstep := native_step ht hf (.pipeCreate posixPipeCapacity memory)
    have hsr := sound_running_step ho.sound ho.running hstep
    have hlive := ho.live_sys hstep fun h _ => not_deletes rfl
    rcases pipeOpen_cases s t result memory with ⟨s₁, errno, e, h₁, h₂, h₃⟩ | ⟨s₁, r, w, h, e, hc, hsys, h₂, hr, hw, hur, huw, hpipe, htab⟩
    · have hev : events s (.call (.pipeOpen result memory)) = [] := by simp [events, ht, call, e]
      rw [hev]
      refine ⟨L, rfl, ?_⟩
      rw [call, e]
      rcases h₃ with h₃ | h₃
      · exact ho.quiet (by rw [settle_sys, h₃]; exact ⟨ho.sound, ho.running⟩) (by rw [settle_table, h₁]) (hquiet h₂ nofun)
          (by rw [settle_sys, h₃]; exact fun h _ hl => hl)
      · exact ho.quiet (by rw [settle_sys, h₃]; exact hsr) (by rw [settle_table, h₁]) (hquiet h₂ nofun)
          (by rw [settle_sys, h₃]; exact hlive)
    · have hev : events s (.call (.pipeOpen result memory)) = [.made h] := by simp [events, ht, call, e, hpipe]
      have hfresh : h ∉ L := fun hm => hc.fresh (ho.live h hm)
      have hk : s₁.sys.kernel = (s.sys.kernel.pipeCreate posixPipeCapacity memory).1 := by
        rw [hsys]
        exact Sys.finish_kernel _ _ _
      refine ⟨insert h L, by rw [hev, run_one, PipeLedger.next, if_neg hfresh], ?_⟩
      rw [call, e]
      refine ho.opened (by rw [settle_sys, hsys]; exact hsr) hr hw (by rw [settle_table]; exact htab) ⟨hur, huw⟩
        (hquiet h₂ nofun) hfresh (by rw [settle_sys, hsys]; exact hlive) ?_
      rw [settle_sys, hk]
      exact hc.live
  | read d n =>
    have hread : ∃ q, s.read d n = (s, q) ∧ (∀ h, q ≠ .inr (.delete h)) ∧ ∀ r w, q ≠ .inl (.opened r w) := by
      unfold read
      split
      · exact ⟨_, rfl, nofun, nofun⟩
      · split
        · exact ⟨_, rfl, nofun, nofun⟩
        · exact ⟨_, rfl, nofun, nofun⟩
    obtain ⟨q, e, hq, hq'⟩ := hread
    exact hsame e hq hq'
  | write d data =>
    have hwrite : ∃ q, s.write d data = (s, q) ∧ (∀ h, q ≠ .inr (.delete h)) ∧ ∀ r w, q ≠ .inl (.opened r w) := by
      unfold write
      split
      · exact ⟨_, rfl, nofun, nofun⟩
      · split
        · exact ⟨_, rfl, nofun, nofun⟩
        · exact ⟨_, rfl, nofun, nofun⟩
    obtain ⟨q, e, hq, hq'⟩ := hwrite
    exact hsame e hq hq'
  | close d =>
    rcases close_cases s d with ⟨errno, e⟩ | ⟨i, s₁, hi, hu, hsys, hpend, hui, htab, ⟨e, hother⟩ | ⟨e, hlast⟩⟩
    · exact hsame e nofun nofun
    · have hev : events s (.call (.close d)) = [] := by simp [events, ht, call, e]
      rw [hev]
      refine ⟨L, rfl, ?_⟩
      rw [call, e]
      exact ho.closed (i := i) (by rw [settle_sys, hsys]) (by rw [settle_table]; exact htab) (by rw [settle_table]; exact hui)
        (hquiet hpend nofun) (by rw [settle_table]; exact hother)
    · have hev : events s (.call (.close d)) = [] := by simp [events, ht, call, e]
      rw [hev]
      refine ⟨L, rfl, ?_⟩
      rw [call, e]
      refine ho.closedLast (t := t) (by rw [settle_sys, hsys]) (by rw [settle_table]; exact htab) hu
        (by rw [settle_table]; exact hui) hp (by rw [settle_pending, hpend]; rfl) fun j hj => ?_
      rw [settle_table] at hj ⊢
      refine hlast j (ho.bound j ?_) hj
      rw [← htab j]
      · exact hj
      · rintro rfl
        rw [hui] at hj
        cases hj

/-- A close that comes to delete a pipe that nobody waits for deletes it. -/
theorem Owning.deletes (ho : Owning s L) (ht : s.sys.runningTask = some t) (hp : s.pending t = some (.delete h))
    (hidle : DeletesIdle s .goOn) :
    ∃ k, s.sys.kernel.call (.pipeDelete h) = (k, .ret (.code Code.ok)) ∧ s.sys.kernel.Deleted k .pipe h := by
  have hd : s.sys.kernel.Deletable .pipe h := by
    refine ⟨?_, ho.live h (ho.closing t h hp).1, hidle t h rfl ht hp⟩
    simp [Core.inIsr, (Sys.runningTask_eq_some ht).2.2.1]
  rcases Kernel.deleteObject_cases s.sys.kernel .pipe h with ⟨-, k, hk, hdd⟩ | ⟨hn, -⟩
  · exact ⟨k, hk, hdd⟩
  · exact absurd hd hn

omit pcfg in
theorem goOn_delete {k : Kernel} (hk : s.sys.kernel.call (.pipeDelete h) = (k, .ret (.code Code.ok))) :
    s.goOn t (.delete h) = some ((s.native t (.pipeDelete h)).1, .inl .ok) := by
  rw [goOn, native_eq hk]
  simp

/-- **A call goes on.** -/
theorem Owning.goesOn (ho : Owning s L) (ht : s.sys.runningTask = some t) (hf : s.sys.frame t = none)
    {stage : DescriptorStage} (hp : s.pending t = some stage) {x : Descriptors × (DescriptorResult ⊕ DescriptorStage)}
    (hx : s.goOn t stage = some x) (hidle : DeletesIdle s .goOn) :
    ∃ L', run PipeLedger.next L (events s .goOn) = some L' ∧ Owning (settle t x) L' := by
  have hdel : ∀ {h}, stage = .delete h → events s .goOn =
      if (s.sys.kernel.pipeDelete h).2 = .ret (.code Code.ok) then [.deleted h] else [] := by
    rintro h rfl
    simp [events, ht, hp]
  have hev : (∀ h, stage ≠ .delete h) → events s .goOn = [] := by
    intro hne
    unfold events
    rw [ht, Option.bind_some, hp]
    cases stage with
    | delete h => exact absurd rfl (hne h)
    | _ => rfl
  -- a call of the kernel that deletes nothing
  have hkernel : ∀ {c : Call} {q : DescriptorResult ⊕ DescriptorStage}, c.deleted = none → (∀ h, stage ≠ .delete h) →
      (∀ h, q ≠ .inr (.delete h)) → Owning (settle t ((s.native t c).1, q)) L := by
    intro c q hc hne hq
    have hstep := native_step ht hf c
    refine ho.quiet (by rw [settle_sys]; exact sound_running_step ho.sound ho.running hstep) (by rw [settle_table]; rfl)
      (fun u h => ?_) (by rw [settle_sys]; exact ho.live_sys hstep fun h _ => not_deletes hc)
    refine pending_quiet (s := (s.native t c).1) (fun h e => ?_) hq u h
    rw [show (s.native t c).1.pending = s.pending from rfl, hp] at e
    exact hne h (Option.some_inj.mp e)
  have hreturn : ∀ {q : DescriptorResult}, (∀ h, stage ≠ .delete h) → Owning (settle t (s, .inl q)) L := by
    intro q hne
    refine ho.quiet (by rw [settle_sys]; exact ⟨ho.sound, ho.running⟩) settle_table (fun u h => ?_)
      (by rw [settle_sys]; exact fun h _ hl => hl)
    refine pending_quiet (fun h e => ?_) (by rintro h ⟨⟩) u h
    rw [hp] at e
    exact hne h (Option.some_inj.mp e)
  cases stage with
  | reading i n =>
    cases hx
    rw [hev nofun]
    exact ⟨L, rfl, hkernel rfl nofun nofun⟩
  | writing i data =>
    cases hx
    rw [hev nofun]
    exact ⟨L, rfl, hkernel rfl nofun nofun⟩
  | inRead | inWrite =>
    obtain ⟨r, -, rfl⟩ := Option.map_eq_some_iff.mp hx
    rw [hev nofun]
    exact ⟨L, rfl, hreturn nofun⟩
  | delete h =>
    obtain ⟨hm, -⟩ := ho.closing t h hp
    obtain ⟨k, hk, hdd⟩ := ho.deletes ht hp hidle
    have hstep := native_step ht hf (.pipeDelete h)
    have hkernel' : (s.native t (.pipeDelete h)).1.sys.kernel = k :=
      (Sys.finish_kernel _ _ _).trans (congrArg Prod.fst hk)
    have hok : (s.sys.kernel.pipeDelete h).2 = .ret (.code Code.ok) := congrArg Prod.snd hk
    rw [goOn_delete hk, Option.some_inj] at hx
    subst hx
    refine ⟨L.erase h, ?_, ?_⟩
    · rw [hdel rfl, if_pos hok, run_one, PipeLedger.next, if_pos hm]
    · refine ho.deleted (by rw [settle_sys]; exact sound_running_step ho.sound ho.running hstep)
        (by rw [settle_table]; rfl) hp (by rw [settle_pending]; rfl) fun h' _ hne hl => ?_
      rw [settle_sys, hkernel']
      exact hdd.keeps _ _ hl fun e => hne e.2

/-- What a step is. -/
theorem step_cases (h : s.step a = some s') :
    (∃ c t, a = .call c ∧ s.sys.runningTask = some t ∧ s.pending t = none ∧ s.sys.frame t = none ∧
      s' = settle t (s.call t c)) ∨
    (∃ t stage x, a = .goOn ∧ s.sys.runningTask = some t ∧ s.sys.frame t = none ∧ s.pending t = some stage ∧
      s.goOn t stage = some x ∧ s' = settle t x) ∨
    ∃ b y, a = .sys b ∧ s.sys.step b = some y ∧ s' = { s with sys := y } := by
  cases a with
  | call c =>
    rw [step] at h
    split at h
    · cases h
    · rename_i t ht
      split at h
      · rename_i hc
        cases h
        exact .inl ⟨c, t, rfl, ht, hc.1, hc.2, rfl⟩
      · cases h
  | goOn =>
    rw [step] at h
    split at h
    · cases h
    · rename_i t ht
      split at h
      · rename_i hf
        obtain ⟨x, hx, rfl⟩ := Option.map_eq_some_iff.mp h
        obtain ⟨stage, hp, hx⟩ := Option.bind_eq_some_iff.mp hx
        exact .inr (.inl ⟨t, stage, x, rfl, ht, hf, hp, hx, rfl⟩)
      · cases h
  | sys b =>
    refine .inr (.inr ⟨b, ?_⟩)
    cases b with
    | call c =>
      rw [step] at h
      split at h
      · obtain ⟨y, hy, rfl⟩ := Option.map_eq_some_iff.mp h
        exact ⟨y, rfl, hy, rfl⟩
      · cases h
    | _ =>
      change ((s.sys.step _).map fun y => ({ s with sys := y } : Descriptors)) = some s' at h
      obtain ⟨y, hy, rfl⟩ := Option.map_eq_some_iff.mp h
      exact ⟨y, rfl, hy, rfl⟩

/-- **One step.** -/
theorem Owning.next (ho : Owning s L) (hm : Meets s a) (h : s.step a = some s') :
    ∃ L', run PipeLedger.next L (events s a) = some L' ∧ Owning s' L' := by
  rcases step_cases h with ⟨c, t, rfl, ht, hp, hf, rfl⟩ | ⟨t, stage, x, rfl, ht, hf, hp, hx, rfl⟩ | ⟨b, y, rfl, hy, rfl⟩
  · exact ho.begins ht hp hf c
  · exact ho.goesOn ht hf hp hx hm.2
  · obtain ⟨h₁, h₂⟩ := hm.1 b rfl
    refine ⟨L, rfl, ho.quiet (sound_running_step ho.sound ho.running hy) rfl (fun _ _ => Iff.rfl)
      (ho.live_sys hy fun h hmem => ?_)⟩
    rcases ho.owned h hmem with ⟨i, hi, rfl⟩ | ⟨t, ht⟩
    · exact h₁ i hi
    · exact h₂ t h ht

theorem call_pending (s : Descriptors) (t : TaskId) (c : DescriptorCall) : (s.call t c).1.pending = s.pending := by
  cases c with
  | pipeOpen result memory =>
    rcases pipeOpen_cases s t result memory with ⟨s₁, errno, e, -, h, -⟩ | ⟨s₁, r, w, h, e, -, -, h₂, -⟩
    · rw [call, e, h]
    · rw [call, e, h₂]
  | read d n =>
    unfold call read
    dsimp only
    split
    · rfl
    · split <;> rfl
  | write d data =>
    unfold call write
    dsimp only
    split
    · rfl
    · split <;> rfl
  | close d =>
    rcases close_cases s d with ⟨errno, e⟩ | ⟨i, s₁, -, -, -, hpend, -, -, ⟨e, -⟩ | ⟨e, -⟩⟩
    · rw [call, e]
    · rw [call, e, hpend]
    · rw [call, e, hpend]

omit pcfg in
theorem goOn_pending {stage : DescriptorStage} {x : Descriptors × (DescriptorResult ⊕ DescriptorStage)}
    (h : s.goOn t stage = some x) : x.1.pending = s.pending := by
  cases stage with
  | reading | writing =>
    cases h
    rfl
  | inRead | inWrite =>
    obtain ⟨r, -, rfl⟩ := Option.map_eq_some_iff.mp h
    rfl
  | delete native =>
    rw [goOn] at h
    dsimp only at h
    split at h <;> cases h <;> rfl

/-- A step that another task takes leaves a task where it is in a call. -/
theorem pending_step (h : s.step a = some s') (ha : (∀ b, a ≠ .sys b) → s.sys.runningTask ≠ some t) :
    s'.pending t = s.pending t := by
  have hsettle : ∀ {u x}, s.sys.runningTask = some u → s.sys.runningTask ≠ some t → x.1.pending = s.pending →
      (settle u x).pending t = s.pending t := by
    rintro u ⟨x, q⟩ hu ht hx
    rw [settle_pending, Function.update_of_ne, hx]
    rintro rfl
    exact ht hu
  rcases step_cases h with ⟨c, u, rfl, hu, -, -, rfl⟩ | ⟨u, stage, x, rfl, hu, -, -, hx, rfl⟩ | ⟨b, y, rfl, hy, rfl⟩
  · exact hsettle hu (ha (by rintro b ⟨⟩)) (call_pending s u c)
  · exact hsettle hu (ha (by rintro b ⟨⟩)) (goOn_pending hx)
  · rfl

/-- A task in a close is about to delete a pipe, as long as it is in the close. -/
theorem closing_step (h : s.step a = some s') (ha : ∀ c, a = .call c → s.sys.runningTask ≠ some t)
    (hp : ∀ stage, s.pending t = some stage → ∃ h, stage = .delete h) :
    ∀ stage, s'.pending t = some stage → ∃ h, stage = .delete h := by
  by_cases hb : ∀ b, a ≠ .sys b
  · by_cases ht : s.sys.runningTask = some t
    · rcases step_cases h with ⟨c, u, rfl, -⟩ | ⟨u, stage, x, rfl, hu, -, hpu, hx, rfl⟩ | ⟨b, -, rfl, -⟩
      · exact absurd ht (ha c rfl)
      · rw [ht] at hu
        cases hu
        obtain ⟨h₀, rfl⟩ := hp stage hpu
        intro stage' hs'
        rw [goOn] at hx
        dsimp only at hx
        split at hx
        · cases hx
          simp [fail, settle_pending] at hs'
        · cases hx
          simp [settle_pending] at hs'
      · exact absurd rfl (hb b)
    · rw [pending_step h fun _ => ht]
      exact hp
  · rw [pending_step h fun h => absurd h hb]
    exact hp

/-- **A close that returns -1** leaves its descriptor as it was. -/
theorem Owning.kept (ho : Owning s L) {d : ℤ} {errno : Posix.Errno} (h : Returns Meets s t (.close d) s' (.failed errno)) :
    s'.table = s.table := by
  obtain ⟨ht, s₁, hs₁, hr, hs'⟩ := h
  rcases step_cases hs₁ with ⟨c, u, e, hu, hpu, hf, e₁⟩ | ⟨u, stage, x, e, -⟩ | ⟨b, y, e, -⟩
  · cases e
    rw [ht] at hu
    cases hu
    rcases hs' with rfl | ⟨bs, s₂, hp, hm, ht₂, hgo⟩
    · rw [e₁] at hr ⊢
      rcases close_cases s d with ⟨errno, e⟩ | ⟨i, s₁, -, -, -, -, -, -, ⟨e, -⟩ | ⟨e, -⟩⟩
      · rw [call, e, settle_table]
      · rw [call, e, settle_result] at hr
        cases hr
      · rw [call, e, settle_result] at hr
        cases hr
    · -- the call has gone on, so it is about to delete the pipe; but then it succeeds
      have h₁ : ∀ stage, s₁.pending t = some stage → ∃ h, stage = .delete h := by
        intro stage hst
        rw [e₁] at hst
        rcases close_cases s d with ⟨errno, e⟩ | ⟨i, s₁, -, -, -, -, -, -, ⟨e, -⟩ | ⟨e, -⟩⟩
        · rw [call, e, settle_pending, Function.update_self] at hst
          cases hst
        · rw [call, e, settle_pending, Function.update_self] at hst
          cases hst
        · rw [call, e, settle_pending, Function.update_self] at hst
          cases hst
          exact ⟨_, rfl⟩
      have hcall : Meets s (.call (.close d)) := ⟨nofun, nofun⟩
      obtain ⟨L₁, -, ho₁⟩ := ho.next hcall hs₁
      obtain ⟨⟨L₂, ho₂⟩, h₂⟩ := hp.invariant
        (I := fun s => (∃ L, Owning s L) ∧ ∀ stage, s.pending t = some stage → ∃ h, stage = .delete h)
        (fun s a s' ⟨⟨L, ho⟩, h⟩ ha hstep =>
          ⟨(ho.next ha.1 hstep).imp fun _ h => h.2, closing_step hstep ha.2 h⟩) ⟨⟨L₁, ho₁⟩, h₁⟩
      rcases step_cases hgo with ⟨c, u, e, -⟩ | ⟨u, stage, x, -, hu, hf, hp₂, hx, rfl⟩ | ⟨b, y, e, -⟩
      · cases e
      · rw [ht₂] at hu
        cases hu
        obtain ⟨h, rfl⟩ := h₂ stage hp₂
        obtain ⟨k, hk, -⟩ := ho₂.deletes ht₂ hp₂ hm.2
        rw [goOn_delete hk, Option.some_inj] at hx
        subst hx
        rw [settle_result] at hr
        cases hr
      · cases e
  · cases e
  · cases e

/-- A close that comes to delete a pipe that somebody waits for leaves a pipe that nobody refers to. -/
theorem Owning.lost (ho : Owning s L) (hn : ¬ DeletesIdle s a) (h : s.step a = some s') :
    events s a = [] ∧ ∃ h ∈ L, ¬ ((∃ i, (s'.table i).used = true ∧ (s'.table i).pipe = h) ∨
      ∃ t, s'.pending t = some (.delete h)) := by
  unfold DeletesIdle at hn
  push Not at hn
  obtain ⟨t, h₀, rfl, ht, hp, l, hl, hw⟩ := hn
  obtain ⟨hm, hno⟩ := ho.closing t h₀ hp
  rcases Kernel.deleteObject_cases s.sys.kernel .pipe h₀ with ⟨hd, -⟩ | ⟨-, r, hr, hk⟩
  · exact absurd (hd.idle l hl) hw
  · have hk : s.sys.kernel.call (.pipeDelete h₀) = (s.sys.kernel, .ret (.code r)) := hk
    have hne : Outcome.ret (.code r) ≠ .ret (.code Code.ok) := by simpa using hr
    have hgo : s.goOn t (.delete h₀) = some ((s.native t (.pipeDelete h₀)).1.fail Posix.Errno.busy) := by
      rw [goOn, native_eq hk]
      simp [hr]
    rw [Descriptors.step, ht] at h
    dsimp only at h
    split at h
    · rw [hp, Option.bind_some, hgo, Option.map_some, Option.some_inj] at h
      subst h
      refine ⟨?_, h₀, hm, ?_⟩
      · have hsnd : (s.sys.kernel.pipeDelete h₀).2 = .ret (.code r) := congrArg Prod.snd hk
        simp [events, ht, hp, hsnd, hr]
      · rintro (⟨i, hi, e⟩ | ⟨u, hu⟩)
        · exact hno i hi e
        · rw [fail, settle_pending, Function.update_apply] at hu
          split at hu
          · cases hu
          · rename_i hut
            exact hut (ho.one u t h₀ hu hp)
    · cases h

omit cfg pcfg in
theorem owning_init [Config] [PosixConfig] {s₀ : Sys} (hs : Sound s₀.core) (hr : s₀.core.running = true) :
    Owning (init s₀) ∅ := by
  have hused : ∀ i, ((init s₀).table i).used ≠ true := fun i => Bool.false_ne_true
  exact ⟨hs, hr, fun i hi => absurd hi (hused i), fun i hi => absurd hi (hused i), fun h hm => absurd hm (Finset.notMem_empty h),
    nofun, nofun, fun h hm => absurd hm (Finset.notMem_empty h)⟩

omit pcfg in
/-- A system that has been started is sound and runs. -/
theorem sound_boot {tasks : List CreateArgs} {memory : Bool} {s₀ : Sys}
    (h₀ : run Sys.step Sys.init (Sys.boot tasks memory) = some s₀) : Sound s₀.core ∧ s₀.core.running = true := by
  have h₁ : run Sys.step Sys.init (Sys.boot tasks memory ++ []) = some s₀ := by
    rw [List.append_nil]
    exact h₀
  obtain ⟨hp, hr⟩ := Sys.path_of_boot h₁
  exact ⟨Sys.sound_path hp sound_init, hr⟩

/-- **Descriptors own their pipes**, after every run of a system that has been started in which nobody waits for a pipe
that a close comes to delete; a step in which somebody does loses the pipe. -/
theorem pipesOwned_of_path {tasks : List CreateArgs} {memory : Bool} {s₀ : Sys} {as : List DescriptorAct}
    (h₀ : run Sys.step Sys.init (Sys.boot tasks memory) = some s₀) (hp : Path (Next step) Meets (init s₀) as s) :
    ∃ L, run PipeLedger.next ∅ (trace step events (init s₀) as) = some L ∧ PipesOwned Meets s L ∧
      ∀ a s', ¬ DeletesIdle s a → step s a = some s' → events s a = [] ∧ ¬ PipesOwned Meets s' L := by
  have hs₀ := sound_boot h₀
  have hR : ∀ s a s' L, Owning s L → Meets s a → step s a = some s' →
      ∃ L', run PipeLedger.next L (events s a) = some L' ∧ Owning s' L' := fun s a s' L ho hm h => ho.next hm h
  obtain ⟨L, hrun, ho⟩ := hp.simulates hR (owning_init hs₀.1 hs₀.2)
  refine ⟨L, hrun, ⟨ho.owned, fun i hi => ⟨ho.refers i hi, ho.live _ (ho.refers i hi)⟩,
    fun t d s' errno h i _ => congrFun (ho.kept h) i⟩, fun a s' hn h => ?_⟩
  obtain ⟨hev, h₁, hm, hlost⟩ := ho.lost hn h
  exact ⟨hev, fun hown => hlost (hown.referenced h₁ hm)⟩

end Steps

end Descriptors

end Aixos

namespace Aixos.Descriptors

open Transition Aixos.Core

attribute [local instance] Config.default PosixConfig.default

/-- Three tasks, the last of which runs first. -/
def threeTasks : List CreateArgs :=
  [{ stackSize := 512, priority := 3 }, { stackSize := 512, priority := 7 }, { stackSize := 512, priority := 9 }]

/-- Task 2 opens a pipe and closes it, and opens another one. -/
def reopened : List DescriptorAct :=
  [.sys (.call .timerServiceWait), .sys .switch, .call (.pipeOpen true true), .call (.close 0), .call (.close 1), .goOn,
    .call (.close 1), .call (.pipeOpen true true)]

/-- Task 2 opens a pipe and reads from it, and task 1 closes both descriptors; it is about to delete the pipe. -/
def abandoned : List DescriptorAct :=
  [.sys (.call .timerServiceWait), .sys .switch, .call (.pipeOpen true true), .call (.read 0 4), .goOn, .sys .switch,
    .call (.close 0), .call (.close 1)]

instance [Config] (s : Descriptors) (a : DescriptorAct) : Decidable (DeletesIdle s a) :=
  match a with
  | .goOn => decidable_of_iff (s.sys.runningTask.all (fun t => (s.pending t).all fun
      | .delete h => (objLists .pipe h.index).all fun l => decide (s.sys.core.waitLists l = [])
      | _ => true) = true) (by
        constructor
        · rintro h t h₀ - ht hp l hl
          rw [ht, Option.all_some, hp, Option.all_some] at h
          exact of_decide_eq_true (List.all_eq_true.mp h l hl)
        · intro h
          rw [Option.all_eq_true]
          intro t ht
          rw [Option.all_eq_true]
          rintro (_ | _ | _ | _ | h₀) hp
          · rfl
          · rfl
          · rfl
          · rfl
          · exact List.all_eq_true.mpr fun l hl => decide_eq_true (h t h₀ rfl ht hp l hl))
  | .call _ | .sys _ => isTrue (by rintro t h ⟨⟩)

/-- A step of the system that deletes nothing. -/
theorem undisturbed_of [Config] [PosixConfig] {s : Descriptors} {a : DescriptorAct}
    (h : ∀ c, a = .sys (.call c) → c.deleted = none) : Undisturbed s a := by
  rintro b rfl
  have hb : ∀ i, ¬ Sys.Deletes .pipe i s.sys b := by
    rintro i ⟨x, h₀, rfl, hx, -⟩
    rw [h x rfl] at hx
    cases hx
  exact ⟨fun _ _ => hb _, fun _ _ _ => hb _⟩

theorem reopened_pipesOwned : ∃ s₀ s L, run Sys.step Sys.init (Sys.boot threeTasks true) = some s₀ ∧
    Path (Next step) Meets (init s₀) reopened s ∧ run PipeLedger.next ∅ (trace step events (init s₀) reopened) = some L ∧
    PipesOwned Meets s L ∧ (s.table 1).used = true ∧ s.result 2 = some (.opened 0 1) := by
  obtain ⟨s₀, h₀, hs₀⟩ := exists_run Sys.step Sys.init (Sys.boot threeTasks true) (fun s₀ =>
    ((runIf step DeletesIdle (init s₀) reopened).map fun s =>
      decide ((s.table 1).used = true ∧ s.result 2 = some (.opened 0 1))) == some true) (by decide +kernel)
  obtain ⟨s, hp, hs⟩ := exists_path step DeletesIdle (init s₀) reopened _ (beq_iff_eq.mp hs₀)
  obtain ⟨h₁, h₂⟩ := of_decide_eq_true hs
  have hp : Path (Next step) Meets (init s₀) reopened s :=
    (hp.both (P := fun a => ∀ c, a = .sys (.call c) → c.deleted = none) (by simp [reopened, Call.deleted])).mono
      fun s a h => ⟨undisturbed_of h.2, h.1⟩
  obtain ⟨L, hL, hown, -⟩ := pipesOwned_of_path h₀ hp
  exact ⟨s₀, s, L, h₀, hp, hL, hown, h₁, h₂⟩

/-- The close fails, as task 2 waits for the pipe; no descriptor refers to the pipe any more. -/
theorem abandoned_not_pipesOwned : ∃ s₀ s L, run Sys.step Sys.init (Sys.boot threeTasks true) = some s₀ ∧
    run step (init s₀) (abandoned ++ [.goOn]) = some s ∧
    run PipeLedger.next ∅ (trace step events (init s₀) (abandoned ++ [.goOn])) = some L ∧
    s.result 1 = some (.failed Posix.Errno.busy) ∧ (s.table 1).used = false ∧ ¬ PipesOwned (fun _ _ => True) s L := by
  obtain ⟨s₀, h₀, hs₀⟩ := exists_run Sys.step Sys.init (Sys.boot threeTasks true) (fun s₀ =>
    ((runIf step DeletesIdle (init s₀) abandoned).map fun s => decide (¬ DeletesIdle s .goOn ∧
      ((step s .goOn).map fun s => decide (s.result 1 = some (.failed Posix.Errno.busy) ∧ (s.table 1).used = false)) = some true))
        == some true) (by decide +kernel)
  obtain ⟨m, hp, hm⟩ := exists_path step DeletesIdle (init s₀) abandoned _ (beq_iff_eq.mp hs₀)
  obtain ⟨hn, hstep⟩ := of_decide_eq_true hm
  obtain ⟨s, hs, hres⟩ := Option.map_eq_some_iff.mp hstep
  obtain ⟨hr, hu⟩ := of_decide_eq_true hres
  have hp : Path (Next step) Meets (init s₀) abandoned m :=
    (hp.both (P := fun a => ∀ c, a = .sys (.call c) → c.deleted = none) (by simp [abandoned, Call.deleted])).mono
      fun s a h => ⟨undisturbed_of h.2, h.1⟩
  obtain ⟨L, hL, ho⟩ := hp.simulates (fun s a s' L ho hm h => Owning.next ho hm h)
    (owning_init (sound_boot h₀).1 (sound_boot h₀).2)
  obtain ⟨hev, h, hmem, hlost⟩ := ho.lost hn hs
  refine ⟨s₀, s, L, h₀, ?_, ?_, hr, hu, fun hown => hlost (hown.referenced h hmem)⟩
  · rw [run_append, hp.run_eq]
    exact run_one.trans hs
  · rw [trace_append hp.run_eq, run_append, hL, Option.bind_some]
    simp [trace, hs, hev, run]

end Aixos.Descriptors
