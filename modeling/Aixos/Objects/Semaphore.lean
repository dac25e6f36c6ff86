import Aixos.Objects.Stores
import Aixos.System.Waiters

/-!
# The tokens of a semaphore

A token is stored in the count, or handed to a task that waits. What the count has gained and
lost, and whom tokens were handed to, is read off the calls.

* `semPosts`, `semTaken`, `semHandedTo` — the posts that succeed, the waits granted at once, and
  the token an action hands to a waiting task.
* `Sys.SemLaw` — what holds of a semaphore after so many posts and grants.
* `Sys.semLaw_of_path` — it holds in every state of every run with a clean start, as long as the
  semaphore is not deleted.
-/

namespace Aixos

open Transition Aixos.Core

variable [cfg : Config]

namespace Kernel

variable {k : Kernel} {h : Handle} {i : ℕ}

/-- What a post does. -/
theorem semPostCommon_cases (hi : k.core.objFromHandle .sem h = some i) :
    (∃ w rest, k.core.waitLists (.sem i) = w :: rest ∧
        k.semPostCommon h = { k with core := k.core.taskWake w Code.ok }.code Code.ok) ∨
      k.core.waitLists (.sem i) = [] ∧ (k.semPostCommon h = k.code Code.overflow ∨ k.semCount i ≠ semMaxCount ∧
        k.semPostCommon h = { k with semCount := Function.update k.semCount i (k.semCount i + 1) }.code Code.ok) := by
  unfold semPostCommon
  rw [hi]
  dsimp only
  cases hw : k.core.waitLists (.sem i) with
  | cons w rest =>
    refine .inl ⟨w, rest, rfl, ?_⟩
    rw [if_pos (List.cons_ne_nil w rest)]
    unfold wakeFirst
    rw [hw]
  | nil =>
    refine .inr ⟨rfl, ?_⟩
    rw [if_neg (by simp)]
    split
    · exact .inl rfl
    · rename_i hne
      exact .inr ⟨hne, rfl⟩

/-- What a wait does. -/
theorem semWait_cases (hi : k.core.objFromHandle .sem h = some i) (ms : Word) :
    (∃ e, k.semWait h ms = k.code e ∧ e ≠ Code.ok) ∨
      0 < k.semCount i ∧
        k.semWait h ms = { k with semCount := Function.update k.semCount i (k.semCount i - 1) }.code Code.ok ∨
      k.semCount i = 0 ∧ ∃ t, k.core.cur = some t ∧ k.semWait h ms =
        ({ k with core := k.core.blockTask t (.list (.sem i)) ms }, .wait { pending := .result, timeoutMs := ms }) := by
  unfold semWait
  split
  · exact .inl ⟨_, rfl, by decide⟩
  · rw [hi]
    dsimp only
    split
    · rename_i hc
      exact .inr (.inl ⟨hc, rfl⟩)
    · rename_i hc
      split
      · exact .inl ⟨_, rfl, by decide⟩
      · rcases k.block_cases (.list (.sem i)) ms .result with h | ⟨t, ht, -, h⟩
        · exact .inl h
        · exact .inr (.inr ⟨Nat.eq_zero_of_not_pos hc, t, ht, h⟩)

end Kernel

namespace Sys

variable {s s' : Sys} {a : Act} {as : List Act} {t : TaskId} {i : ℕ} {x : Handle}

/-- The action posts to the semaphore. -/
def PostsTo (i : ℕ) (s : Sys) (a : Act) : Prop :=
  ∃ x, s.core.objFromHandle .sem x = some i ∧ (a = .call (.semPost x) ∨ a = .isr (.semPost x))

/-- The posts to the semaphore that return `AIXOS_OK`. -/
def semPosts (i : ℕ) (s : Sys) : Act → ℕ
  | .call (.semPost x) => if s.core.objFromHandle .sem x = some i ∧ (s.kernel.semPost x).2.isOk then 1 else 0
  | .isr (.semPost x) => if s.core.objFromHandle .sem x = some i ∧ (s.kernel.semPostFromIsr x).2.isOk then 1 else 0
  | _ => 0

/-- The waits for the semaphore that return `AIXOS_OK` at once. -/
def semTaken (i : ℕ) (s : Sys) : Act → ℕ
  | .call (.semWait x ms) => if s.core.objFromHandle .sem x = some i ∧ (s.kernel.semWait x ms).2.isOk then 1 else 0
  | _ => 0

/-- Task `t` leaves the list of the semaphore at a post that succeeds. -/
def semHandedTo (i : ℕ) (s : Sys) (a : Act) (t : TaskId) : ℕ :=
  match s.step a with
  | some s' => if t ∈ s.core.waitLists (.sem i) ∧ t ∉ s'.core.waitLists (.sem i) then semPosts i s a else 0
  | none => 0

/-- The waits that are granted by an action: at once, or to tasks that wait. -/
def semGrants (i : ℕ) (s : Sys) (a : Act) : ℕ :=
  semTaken i s a + ((s.core.waitLists (.sem i)).map (semHandedTo i s a)).sum

/-! ### One action -/

theorem semPosts_pos (h : semPosts i s a ≠ 0) : PostsTo i s a := by
  unfold semPosts at h
  split at h
  · rename_i x
    by_cases hx : s.core.objFromHandle .sem x = some i
    · exact ⟨x, hx, .inl rfl⟩
    · exact absurd (if_neg fun e => hx e.1) h
  · rename_i x
    by_cases hx : s.core.objFromHandle .sem x = some i
    · exact ⟨x, hx, .inr rfl⟩
    · exact absurd (if_neg fun e => hx e.1) h
  · exact absurd rfl h

/-- What a post to the semaphore does. -/
inductive PostEffect (i : ℕ) (s s' : Sys) (a : Act) : Prop where
  /-- It fails. -/
  | refused : s'.core = s.core → s'.kernel.semCount i = s.kernel.semCount i → semPosts i s a = 0 → PostEffect i s s' a
  /-- It wakes the first task. -/
  | hands (w : TaskId) (rest : List TaskId) : s.core.waitLists (.sem i) = w :: rest →
      s'.core = s.core.exec (.wake w Code.ok) → s'.kernel.semCount i = s.kernel.semCount i → semPosts i s a = 1 →
      PostEffect i s s' a
  /-- It counts. -/
  | counts : s.core.waitLists (.sem i) = [] → s'.core = s.core → s.kernel.semCount i ≠ semMaxCount →
      s'.kernel.semCount i = s.kernel.semCount i + 1 → semPosts i s a = 1 → PostEffect i s s' a

theorem post_step (hp : PostsTo i s a) (h : s.step a = some s') : PostEffect i s s' a := by
  -- a post made where it may not be returns at once
  have key : ∀ {x r}, s.core.objFromHandle .sem x = some i → r = s.kernel.code Code.context ∨ r = s.kernel.semPostCommon x →
      s'.kernel = r.1 → semPosts i s a = (if r.2.isOk then 1 else 0) → PostEffect i s s' a := by
    rintro x r hx hr hk hn
    have hcore : s'.core = r.1.core := congrArg Kernel.core hk
    rcases hr with rfl | rfl
    · exact .refused hcore (by rw [hk]; rfl) hn
    · rcases Kernel.semPostCommon_cases hx with ⟨w, rest, hw, e⟩ | ⟨hw, e | ⟨hne, e⟩⟩
      · rw [e] at hcore hk hn
        exact .hands w rest hw hcore (by rw [hk]; rfl) hn
      · rw [e] at hcore hk hn
        exact .refused hcore (by rw [hk]; rfl) hn
      · rw [e] at hcore hk hn
        refine .counts hw hcore hne ?_ hn
        rw [hk]
        exact Function.update_self ..
  obtain ⟨x, hx, rfl | rfl⟩ := hp
  · refine key (r := s.kernel.semPost x) hx ?_ (step_call_kernel h).symm (by simp [semPosts, hx])
    unfold Kernel.semPost
    split
    · exact .inl rfl
    · exact .inr rfl
  · refine key (r := s.kernel.semPostFromIsr x) hx ?_ (step_isr_kernel h).symm (by simp [semPosts, hx])
    unfold Kernel.semPostFromIsr
    split
    · exact .inl rfl
    · exact .inr rfl

/-- A task is woken from the list of the semaphore by a post to it. -/
theorem postsTo_of_wake {c : Core} (hs : Sound c) (hw : WaitsIn c (.sem i) t) (h : a.Performs s c (.wake t Code.ok)) :
    PostsTo i s a := by
  -- each function wakes from lists of one kind
  have wakes : ∀ {l}, c.WakesFrom l (.wake t Code.ok) → l = .sem i := by
    rintro l ⟨u, hu, e⟩
    cases e
    have e := ((hs.wf.filed l t).mp hu).symm.trans hw
    cases e
    rfl
  have notifies : ∀ {u}, ¬ Notifies u c (.wake t Code.ok) := by
    rintro u ⟨hn, e⟩
    cases e
    rw [hw] at hn
    cases hn
  have blocks : ∀ {w}, ¬ c.BlocksOn w (.wake t Code.ok) := by
    rintro w ⟨u, ms, -, e⟩
    cases e
  cases a with
  | call y =>
    cases y with
    | semPost x =>
      obtain ⟨j, hj, h⟩ := h
      cases wakes h
      exact ⟨x, hj, .inl rfl⟩
    | eventSet x f =>
      obtain ⟨j, -, h⟩ := h
      cases wakes h
    | mqSend | mqRecv | pipeWrite | pipeRead =>
      obtain ⟨j, -, h | h⟩ := h
      · exact absurd h blocks
      · cases wakes h
    | notify => exact absurd h notifies
    | _ => simp [Act.Performs, Call.Performs, BlocksOn, Names, EventWaits, MutexLocks, MutexUnlocks] at h
  | isr y =>
    cases y with
    | tick pending =>
      obtain h | h | h | ⟨u, -, h⟩ := h
      · cases h
      · cases h
      · cases wakes h
      · cases h
    | semPost x =>
      obtain ⟨j, hj, h⟩ := h
      cases wakes h
      exact ⟨x, hj, .inr rfl⟩
    | mqSend | pipeWrite =>
      obtain ⟨j, -, h | h⟩ := h
      · exact absurd h blocks
      · cases wakes h
    | notify => exact absurd h notifies
  | resume =>
    obtain ⟨u, f, -, -, h⟩ := h
    cases hf : f.pending with
    | mqSend | mqRecv | pipeWrite | pipeRead =>
      rw [hf] at h
      obtain ⟨j, -, h | h⟩ := h
      · exact absurd h blocks
      · cases wakes h
    | eventWait =>
      rw [hf] at h
      obtain ⟨j, -, h⟩ := h
      exact absurd h blocks
    | _ =>
      rw [hf] at h
      exact h.elim
  | _ => cases h

/-- Other actions leave the count alone. -/
theorem semCount_step (hu : (s.core.slots .sem i).used = true) (hp : ¬ PostsTo i s a) (hw : ¬ UsesList s a (.sem i))
    (h : s.step a = some s') : s'.kernel.semCount i = s.kernel.semCount i := by
  by_cases hst : a.stores s ≠ some .sem
  · exact congrFun (step_keeps h hst) i
  · -- a call on another semaphore, or on one that is being made
    have post : ∀ {x r}, s.core.objFromHandle .sem x ≠ some i → r = s.kernel.code Code.context ∨ r = s.kernel.semPostCommon x →
        r.1.semCount i = s.kernel.semCount i := by
      rintro x r hx (rfl | rfl)
      · rfl
      · cases hj : s.core.objFromHandle .sem x with
        | none =>
          unfold Kernel.semPostCommon
          rw [hj]
          rfl
        | some j =>
          have hne : i ≠ j := by
            rintro rfl
            exact hx hj
          rcases Kernel.semPostCommon_cases hj with ⟨w, rest, -, e⟩ | ⟨-, e | ⟨-, e⟩⟩
          · rw [e]
            rfl
          · rw [e]
            rfl
          · rw [e]
            exact Function.update_of_ne hne ..
    cases a with
    | call c =>
      rw [← step_call_kernel h]
      cases c with
      | semCreate n =>
        show (s.kernel.semCreate n).1.semCount i = _
        unfold Kernel.semCreate
        split
        · rfl
        · unfold Kernel.createObject
          split
          · rfl
          · rename_i j hj
            have hne : i ≠ j := by
              rintro rfl
              rw [(freeSlot_eq_some hj).1] at hu
              cases hu
            exact Function.update_of_ne hne ..
      | semWait x ms =>
        show (s.kernel.semWait x ms).1.semCount i = _
        cases hj : s.core.objFromHandle .sem x with
        | none =>
          unfold Kernel.semWait
          rw [hj]
          split <;> rfl
        | some j =>
          have hne : i ≠ j := by
            rintro rfl
            exact hw ⟨x, ms, hj, rfl⟩
          rcases Kernel.semWait_cases hj ms with ⟨e, h, -⟩ | ⟨-, h⟩ | ⟨-, t, -, h⟩
          · rw [h]
            rfl
          · rw [h]
            exact Function.update_of_ne hne ..
          · rw [h]
      | semPost x =>
        refine post (fun hx => hp ⟨x, hx, .inl rfl⟩) (r := s.kernel.semPost x) ?_
        unfold Kernel.semPost
        split
        · exact .inl rfl
        · exact .inr rfl
      | _ => exact absurd (by simp [Act.stores, Call.stores]) hst
    | isr c =>
      rw [← step_isr_kernel h]
      cases c with
      | semPost x =>
        refine post (fun hx => hp ⟨x, hx, .inr rfl⟩) (r := s.kernel.semPostFromIsr x) ?_
        unfold Kernel.semPostFromIsr
        split
        · exact .inl rfl
        · exact .inr rfl
      | _ => exact absurd (by simp [Act.stores, IsrCall.stores]) hst
    | resume =>
      obtain ⟨t, f, ht, hf, -⟩ := step_resume h
      obtain ⟨p, ms⟩ := f
      simp only [Act.stores, ht, hf, Option.bind_some] at hst
      cases p <;> exact absurd (by simp [Pending.stores]) hst
    | _ => exact absurd (by simp [Act.stores]) hst

/-- What holds of the count at any time. -/
structure SemOk (i : ℕ) (s : Sys) : Prop where
  /-- It is bounded. -/
  bounded : s.kernel.semCount i ≤ semMaxCount
  /-- Nobody waits while there are tokens. -/
  idle : 0 < s.kernel.semCount i → s.core.waitLists (.sem i) = []

/-- No token is handed to a task without a post. -/
theorem semHandedTo_eq_zero (h : semPosts i s a = 0) (t : TaskId) : semHandedTo i s a t = 0 := by
  unfold semHandedTo
  split
  · split
    · exact h
    · rfl
  · rfl

theorem semGrants_of_posts_eq_zero (h : semPosts i s a = 0) : semGrants i s a = semTaken i s a := by
  unfold semGrants
  rw [List.sum_eq_zero, Nat.add_zero]
  intro n hn
  obtain ⟨t, -, rfl⟩ := List.mem_map.mp hn
  exact semHandedTo_eq_zero h t

/-- **One action** on a semaphore in use: the count and the grants change as the posts say. -/
theorem sem_step (hs : Steady s) (hc : StartsClean s a) (hu : (s.core.slots .sem i).used = true) (hok : SemOk i s)
    (h : s.step a = some s') :
    SemOk i s' ∧ s'.kernel.semCount i + semGrants i s a = s.kernel.semCount i + semPosts i s a := by
  have hs' := (hs.step hc h).sound
  have taken : ¬ UsesList s a (.sem i) → semTaken i s a = 0 := by
    intro hn
    unfold semTaken
    split
    · rename_i x ms
      exact if_neg fun e => hn ⟨x, ms, e.1, rfl⟩
    · rfl
  -- nobody comes into the list but in a wait for the semaphore
  have idle : ¬ UsesList s a (.sem i) → s.core.waitLists (.sem i) = [] → s'.core.waitLists (.sem i) = [] := by
    intro hn hl
    refine List.eq_nil_iff_forall_not_mem.mpr fun t ht => ?_
    rcases joins_step hs.sound h ((hs'.wf.filed _ t).mp ht) with hw | ⟨hw, -⟩
    · have := (hs.sound.wf.filed _ t).mpr hw
      rw [hl] at this
      cases this
    · exact hn hw
  by_cases hp : PostsTo i s a
  · have hn : ¬ UsesList s a (.sem i) := by
      rintro ⟨x, ms, -, rfl⟩
      obtain ⟨y, -, e | e⟩ := hp <;> cases e
    cases post_step hp h with
    | refused e₁ e₂ e₃ =>
      rw [semGrants_of_posts_eq_zero e₃, taken hn, e₂, e₃]
      exact ⟨⟨by rw [e₂]; exact hok.bounded, by rw [e₂, e₁]; exact hok.idle⟩, rfl⟩
    | hands w rest hw e₁ e₂ e₃ =>
      have hmem : w ∈ s.core.waitLists (.sem i) := by
        rw [hw]
        exact List.mem_cons_self ..
      obtain ⟨-, hl⟩ := waitLists_of_wake hs.sound (by simp) hmem
      have hto : ∀ t, semHandedTo i s a t = if t = w then 1 else 0 := by
        intro t
        unfold semHandedTo
        simp only [h, e₁, hl, e₃]
        by_cases ht : t = w
        · subst ht
          simp [hmem]
        · simp only [ht, not_false_eq_true, and_true, ne_eq, if_false]
          rw [if_neg (by simp)]
      have hnd := hs.sound.wf.nodup (.sem i)
      rw [hw] at hnd
      have hrest : (rest.map (semHandedTo i s a)).sum = 0 := by
        refine List.sum_eq_zero fun n hn => ?_
        obtain ⟨t, ht, rfl⟩ := List.mem_map.mp hn
        rw [hto, if_neg]
        rintro rfl
        exact (List.nodup_cons.mp hnd).1 ht
      have hsum : ((s.core.waitLists (.sem i)).map (semHandedTo i s a)).sum = 1 := by
        rw [hw, List.map_cons, List.sum_cons, hto, if_pos rfl, hrest]
      have hcount : s.kernel.semCount i = 0 := by
        by_contra hne
        have := hok.idle (Nat.pos_of_ne_zero hne)
        rw [hw] at this
        cases this
      refine ⟨⟨by rw [e₂]; exact hok.bounded, fun hpos => by omega⟩, ?_⟩
      rw [semGrants, taken hn, hsum, e₂, e₃, Nat.zero_add]
    | counts hw e₁ hmax e₂ e₃ =>
      have hsum : semGrants i s a = 0 := by
        rw [semGrants, taken hn, hw]
        rfl
      refine ⟨⟨?_, fun _ => by rw [e₁]; exact hw⟩, by rw [hsum, e₂, e₃]⟩
      have := hok.bounded
      omega
  · have hposts : semPosts i s a = 0 := by
      by_contra hne
      exact hp (semPosts_pos hne)
    rw [semGrants_of_posts_eq_zero hposts, hposts]
    by_cases hn : UsesList s a (.sem i)
    · obtain ⟨x, ms, hx, rfl⟩ := hn
      have hk : (s.kernel.semWait x ms).1 = s'.kernel := step_call_kernel h
      have hcore : s'.core = (s.kernel.semWait x ms).1.core := congrArg Kernel.core hk.symm
      rcases Kernel.semWait_cases hx ms with ⟨e, hw, hne⟩ | ⟨hpos, hw⟩ | ⟨hz, t, -, hw⟩
      · have ht : semTaken i s (.call (.semWait x ms)) = 0 := by
          refine if_neg fun ⟨_, e'⟩ => ?_
          rw [hw] at e'
          exact hne (by simpa [Outcome.isOk, Kernel.code] using e')
        rw [ht, ← hk, hw]
        refine ⟨⟨?_, ?_⟩, rfl⟩
        · rw [← hk, hw]
          exact hok.bounded
        · rw [hcore, ← hk, hw]
          exact hok.idle
      · have ht : semTaken i s (.call (.semWait x ms)) = 1 := by
          refine if_pos ⟨hx, ?_⟩
          rw [hw]
          rfl
        have hcount : s'.kernel.semCount i = s.kernel.semCount i - 1 := by
          rw [← hk, hw]
          exact Function.update_self ..
        refine ⟨⟨?_, fun _ => ?_⟩, ?_⟩
        · have := hok.bounded
          omega
        · rw [hcore, hw]
          exact hok.idle hpos
        · omega
      · have ht : semTaken i s (.call (.semWait x ms)) = 0 := by
          refine if_neg fun ⟨_, e'⟩ => ?_
          rw [hw] at e'
          cases e'
        have hcount : s'.kernel.semCount i = 0 := by
          rw [← hk, hw]
          exact hz
        exact ⟨⟨by omega, by omega⟩, by omega⟩
    · have hcount := semCount_step hu hp hn h
      rw [taken hn, hcount]
      exact ⟨⟨by rw [hcount]; exact hok.bounded, fun hpos => idle hn (hok.idle (by rwa [← hcount]))⟩, rfl⟩

/-! ### From the wait to the return -/

/-- A token is handed only to who waits. -/
theorem semHandedTo_of_wait (hs : Sound s.core) (hw : (s.core.tasks t).wait = none) : semHandedTo i s a t = 0 := by
  unfold semHandedTo
  split
  · exact if_neg fun e => hs.wf.not_mem_waitLists hw _ e.1
  · rfl

/-- **A waiting task at one action**: it is handed a token exactly if its wait ends well. -/
theorem handed_step {f : Frame} (hi : InCall s t f) (h : s.step a = some s') (hw : WaitsIn s.core (.sem i) t) :
    WaitsIn s'.core (.sem i) t ∧ semHandedTo i s a t = 0 ∨ Lost s'.core t ∧ semHandedTo i s a t = 0 ∨
      Granted s'.core t ∧ semHandedTo i s a t = 1 := by
  have hs := hi.sound
  have hs' := (inCall_step hi (paused_of_wait hs (by rw [hw]; exact Option.some_ne_none _)) h).sound
  have hmem : t ∈ s.core.waitLists (.sem i) := (hs.wf.filed _ t).mpr hw
  -- what a post does to the task
  have post : PostsTo i s a → semPosts i s a = 0 ∧ WaitsIn s'.core (.sem i) t ∨ WaitsIn s'.core (.sem i) t ∨
      semPosts i s a = 1 ∧ Granted s'.core t := by
    intro hp
    cases post_step hp h with
    | refused e _ e₃ =>
      refine .inl ⟨e₃, ?_⟩
      rw [e]
      exact hw
    | hands w rest hl e _ e₃ =>
      have hwm : w ∈ s.core.waitLists (.sem i) := by
        rw [hl]
        exact List.mem_cons_self ..
      obtain ⟨hg, hm⟩ := waitLists_of_wake hs (by simp) hwm
      by_cases ht : t = w
      · refine .inr (.inr ⟨e₃, ?_⟩)
        rw [e, ht]
        exact hg
      · exact .inr (.inl ((hs'.wf.filed _ t).mp (by rw [e, hm]; exact ⟨hmem, ht⟩)))
    | counts hl =>
      rw [hl] at hmem
      cases hmem
  rcases waitsIn_step hi h (by simp) hw with hw' | hl | ⟨hg, -, c, hc, hcw, ho⟩
  · refine .inl ⟨hw', ?_⟩
    unfold semHandedTo
    rw [h]
    exact if_neg fun e => e.2 ((hs'.wf.filed _ t).mpr hw')
  · refine .inr (.inl ⟨hl, semHandedTo_eq_zero ?_ t⟩)
    by_contra hne
    have notWaits : ¬ WaitsIn s'.core (.sem i) t := by
      rw [WaitsIn, hl.1]
      exact fun e => nomatch e
    rcases post (semPosts_pos hne) with ⟨e, -⟩ | e | ⟨-, e⟩
    · exact hne e
    · exact notWaits e
    · exact e.not_lost hl
  · refine .inr (.inr ⟨hg, ?_⟩)
    have notWaits : ¬ WaitsIn s'.core (.sem i) t := by
      rw [WaitsIn, hg.1]
      exact fun e => nomatch e
    rcases post (postsTo_of_wake hc hcw ho) with ⟨-, e⟩ | e | ⟨e, -⟩
    · exact absurd e notWaits
    · exact absurd e notWaits
    · unfold semHandedTo
      rw [h]
      dsimp only
      rw [if_pos ⟨hmem, fun hm => notWaits ((hs'.wf.filed _ t).mp hm)⟩, e]

/-- The tokens a run hands to task `t`. -/
def semTokens (i : ℕ) (t : TaskId) (s : Sys) (as : List Act) : ℕ :=
  (trace step (fun s a => [semHandedTo i s a t]) s as).sum

theorem semTokens_cons {s₁ : Sys} (h : s.step a = some s₁) :
    semTokens i t s (a :: as) = semHandedTo i s a t + semTokens i t s₁ as := by
  simp [semTokens, trace, h]

/-- Who waits no longer is handed nothing. -/
theorem semTokens_of_wait {f : Frame} (hi : InCall s t f)
    (hw : Lost s.core t ∨ Granted s.core t ∨ ¬ s.core.Live t) (hp : Path (Next step) (Paused t) s as s') :
    (Lost s.core t → Lost s'.core t) ∧ (Granted s.core t ∨ ¬ s.core.Live t → Granted s'.core t ∨ ¬ s'.core.Live t) ∧
      semTokens i t s as = 0 := by
  induction hp with
  | nil => exact ⟨id, id, rfl⟩
  | @cons s s₁ s' a as hc hr hp ih =>
    have hr : s.step a = some s₁ := hr
    have hnone : (s.core.tasks t).wait = none := by
      rcases hw with h | h | h
      · exact h.1
      · exact h.1
      · by_contra hne
        exact h (hi.sound.wf.live_of_wait hne)
    have hl : Lost s.core t → Lost s₁.core t := lost_step hi hc hr
    have hg : Granted s.core t ∨ ¬ s.core.Live t → Granted s₁.core t ∨ ¬ s₁.core.Live t := granted_step hi hc hr
    obtain ⟨h₁, h₂, h₃⟩ := ih (inCall_step hi hc hr) (hw.imp hl hg)
    refine ⟨fun h => h₁ (hl h), fun h => h₂ (hg h), ?_⟩
    rw [semTokens_cons hr, semHandedTo_of_wait hi.sound hnone, h₃]

/-- **A task that waits for a token** is handed one on the way, and then granted its wait, or none. -/
theorem semTokens_path {f : Frame} (hi : InCall s t f) (hw : WaitsIn s.core (.sem i) t)
    (hp : Path (Next step) (Paused t) s as s') :
    WaitsIn s'.core (.sem i) t ∨ Lost s'.core t ∧ semTokens i t s as = 0 ∨
      (Granted s'.core t ∨ ¬ s'.core.Live t) ∧ semTokens i t s as = 1 := by
  induction hp with
  | nil => exact .inl hw
  | @cons s s₁ s' a as hc hr hp ih =>
    have hr : s.step a = some s₁ := hr
    have hi' := inCall_step hi hc hr
    rw [semTokens_cons hr]
    rcases handed_step hi hr hw with ⟨hw', e⟩ | ⟨hl, e⟩ | ⟨hg, e⟩
    · rw [e, Nat.zero_add]
      exact ih hi' hw'
    · obtain ⟨h₁, -, h₃⟩ := semTokens_of_wait (i := i) hi' (.inl hl) hp
      exact .inr (.inl ⟨h₁ hl, by rw [e, h₃]⟩)
    · obtain ⟨-, h₂, h₃⟩ := semTokens_of_wait (i := i) hi' (.inr (.inl hg)) hp
      exact .inr (.inr ⟨h₂ (.inl hg), by rw [e, h₃]⟩)

/-- **A blocked wait returns `AIXOS_OK`** exactly if its task was handed a token. -/
theorem semReturns {ms : Word} {s₁ s₂ s₃ : Sys} (hs : Sound s.core) (ht : s.runningTask = some t)
    (hx : s.core.objFromHandle .sem x = some i) (h : s.step (.call (.semWait x ms)) = some s₁)
    (hf : s₁.frame t ≠ none) (hp : Path (Next step) (Paused t) s₁ as s₂) (ht₂ : s₂.runningTask = some t)
    (h₂ : s₂.step .resume = some s₃) :
    semTokens i t s₁ as = if s₃.ret t = some (.code Code.ok) then 1 else 0 := by
  have hcur := (runningTask_eq_some ht).1
  have hblock : (∃ v, (s.kernel.semWait x ms).2 = .ret v) ∨ s.kernel.semWait x ms =
      ({ s.kernel with core := s.core.blockTask t (.list (.sem i)) ms },
        .wait { pending := .result, timeoutMs := ms }) := by
    rcases Kernel.semWait_cases hx ms with ⟨e, h, -⟩ | ⟨-, h⟩ | ⟨-, u, hu, h⟩
    · exact .inl ⟨_, congrArg Prod.snd h⟩
    · exact .inl ⟨_, congrArg Prod.snd h⟩
    · cases hcur.symm.trans hu
      exact .inr h
  obtain ⟨hi, hw⟩ := inCall_of_call hs ht h hf hblock
  have hi₂ := inCall_path hi hp
  -- the call returns the result of the wait
  have hret : s₃.ret t = some (.code (s₂.core.tasks t).waitResult) := by
    obtain ⟨u, g, hu, hg, rfl⟩ := step_resume h₂
    obtain rfl : t = u := Option.some.inj (ht₂.symm.trans hu)
    rw [hi₂.frame] at hg
    cases hg
    exact (finish_ret s₂ t rfl).2
  have hst := (runningTask_eq_some ht₂).2.2.2
  rw [hret]
  rcases semTokens_path hi hw hp with h | ⟨hl, e⟩ | ⟨hg | hl, e⟩
  · have hnone := hi₂.sound.wf.wait_eq_none_of_isReady (.inr hst)
    rw [WaitsIn, hnone] at h
    cases h
  · rw [e, if_neg]
    intro e
    exact hl.2 (by simpa using e)
  · rw [e, hg.2, if_pos rfl]
  · exact absurd (by simp [Live, hst]) hl

/-! ### The law -/

/-- What holds of a semaphore that began with `initial` tokens, after so many posts and grants. -/
structure SemLaw (i : ℕ) (s : Sys) (initial : ℤ) (posts grants : ℕ) : Prop where
  /-- The count is bounded. -/
  bounded : s.kernel.semCount i ≤ semMaxCount
  /-- Nobody waits while there are tokens. -/
  idle : 0 < s.kernel.semCount i → s.core.waitLists (.sem i) = []
  /-- Every token is in the count or has been granted. -/
  conserved : (s.kernel.semCount i : ℤ) + grants = initial + posts
  /-- A wait that returns something else than `AIXOS_OK` at once takes no token. -/
  refused : ∀ x ms t s', s.runningTask = some t → s.core.objFromHandle .sem x = some i →
    s.step (.call (.semWait x ms)) = some s' → s'.frame t = none → s'.ret t ≠ some (.code Code.ok) →
    s'.kernel.semCount i = s.kernel.semCount i
  /-- A wait that has blocked returns `AIXOS_OK` if its task has been handed a token, just one, and
  something else if it has been handed none. -/
  returns : ∀ x ms t s₁ as s₂ s₃, s.runningTask = some t → s.core.objFromHandle .sem x = some i →
    s.step (.call (.semWait x ms)) = some s₁ → s₁.frame t ≠ none → Path (Next step) (Paused t) s₁ as s₂ →
    s₂.runningTask = some t → s₂.step .resume = some s₃ →
    semTokens i t s₁ as = if s₃.ret t = some (.code Code.ok) then 1 else 0
  /-- A post wakes at most one task. -/
  wakesOne : ∀ a s' t u, PostsTo i s a → s.step a = some s' → t ∈ s.core.waitLists (.sem i) →
    u ∈ s.core.waitLists (.sem i) → t ∉ s'.core.waitLists (.sem i) → u ∉ s'.core.waitLists (.sem i) → t = u

theorem semRefused {ms : Word} (ht : s.runningTask = some t) (hx : s.core.objFromHandle .sem x = some i)
    (h : s.step (.call (.semWait x ms)) = some s') (hf : s'.frame t = none)
    (hr : s'.ret t ≠ some (.code Code.ok)) : s'.kernel.semCount i = s.kernel.semCount i := by
  rcases step_call h with ⟨u, hu, -, e⟩ | ⟨hn, -⟩
  · obtain rfl : t = u := Option.some.inj (ht.symm.trans hu)
    have e : s' = s.finish t (s.kernel.semWait x ms) := e
    rcases Kernel.semWait_cases hx ms with ⟨v, hw, -⟩ | ⟨-, hw⟩ | ⟨-, v, -, hw⟩
    · rw [e, finish_kernel, hw]
      rfl
    · rw [e, hw] at hr
      exact absurd (finish_ret s t rfl).2 hr
    · rw [e, hw, finish_wait s t rfl] at hf
      cases hf
  · rw [(runningTask_eq_some ht).2.1] at hn
    cases hn

theorem semWakesOne {u : TaskId} (hs : Sound s.core) (hp : PostsTo i s a) (h : s.step a = some s')
    (ht : t ∈ s.core.waitLists (.sem i)) (hu : u ∈ s.core.waitLists (.sem i))
    (ht' : t ∉ s'.core.waitLists (.sem i)) (hu' : u ∉ s'.core.waitLists (.sem i)) : t = u := by
  cases post_step hp h with
  | refused e =>
    rw [e] at ht'
    exact absurd ht ht'
  | hands w rest hl e =>
    obtain ⟨-, hm⟩ := waitLists_of_wake hs (by simp) (by rw [hl]; exact List.mem_cons_self .. : w ∈ s.core.waitLists (.sem i))
    rw [e, hm, not_and_or, not_not] at ht' hu'
    exact (ht'.resolve_left (not_not.mpr ht)).trans (hu'.resolve_left (not_not.mpr hu)).symm
  | counts _ e =>
    rw [e] at ht'
    exact absurd ht ht'

/-- A semaphore that has just been made. -/
theorem semOk_of_create (hs : Sound s.core) {n : ℤ} {y : Handle} (h : s.step (.call (.semCreate n)) = some s')
    (hy : (s.kernel.semCreate n).2 = .ret (.handle (some y))) :
    SemOk y.index s' ∧ (s'.core.slots .sem y.index).used = true ∧ (s'.kernel.semCount y.index : ℤ) = n := by
  have hk : s'.kernel = (s.kernel.semCreate n).1 := (step_call_kernel h).symm
  have hcore : s'.core = (s.kernel.semCreate n).1.core := congrArg Kernel.core hk
  unfold Kernel.semCreate at hy hk hcore
  split at hy
  · cases hy
  · rename_i hn
    push Not at hn
    rw [if_neg (by push Not; exact hn)] at hk hcore
    unfold Kernel.createObject at hy hk hcore
    cases hj : s.core.freeSlot .sem with
    | none =>
      rw [hj] at hy
      cases hy
    | some j =>
      rw [hj] at hy hk hcore
      cases hy
      have hcore : s'.core = s.core.exec (.alloc .sem j) := hcore
      have he : s.core.Enabled (.alloc .sem j) := ⟨by simp, hj⟩
      have hs' : Sound s'.core := by
        rw [hcore]
        exact hs.exec he trivial
      have hcount : s'.kernel.semCount j = n.toNat := by
        rw [hk]
        exact Function.update_self ..
      refine ⟨⟨?_, fun _ => ?_⟩, ?_, ?_⟩
      · show s'.kernel.semCount j ≤ _
        rw [hcount]
        omega
      · -- nobody waits for what was not in use
        refine List.eq_nil_iff_forall_not_mem.mpr fun t ht => ?_
        have hw := (hs'.wf.filed _ t).mp ht
        rw [hcore] at hw
        have hw₀ := exec_waits hs he (by simp) t (by rw [hw]; exact Option.some_ne_none _)
        have := hs.wf.listed _ t .sem j ((hs.wf.filed _ t).mpr (hw₀.1.symm.trans hw)) rfl
        rw [(freeSlot_eq_some hj).1] at this
        cases this
      · show (s'.core.slots .sem j).used = true
        rw [hcore, exec_slots hs.wf.isFiled he]
        simp [Op.slots]
      · show (s'.kernel.semCount j : ℤ) = n
        rw [hcount]
        omega

/-- **Conservation of tokens**: in every run in which the start finds no ready task queued, from its
creation and until it is deleted, a semaphore has each of its tokens in its count or has granted it. -/
theorem semLaw_of_path {s₀ s₁ : Sys} {bs : List Act} {n : ℤ} {y : Handle}
    (hp : Path (Next step) StartsClean init as s₀) (hc : s₀.step (.call (.semCreate n)) = some s₁)
    (hy : (s₀.kernel.semCreate n).2 = .ret (.handle (some y)))
    (hq : Path (Next step) (fun s a => StartsClean s a ∧ ¬ Deletes .sem y.index s a) s₁ bs s) :
    SemLaw y.index s n (trace step (fun s a => [semPosts y.index s a]) s₁ bs).sum
      (trace step (fun s a => [semGrants y.index s a]) s₁ bs).sum := by
  have hst₀ := steady_path hp steady_init
  have hst₁ := hst₀.step (fun memory e => by cases e) hc
  obtain ⟨hok, hu, hn⟩ := semOk_of_create hst₀.sound hc hy
  -- what each step keeps, summed up
  have key : Steady s ∧ (s.core.slots .sem y.index).used = true ∧ SemOk y.index s ∧
      s.kernel.semCount y.index + (trace step (fun s a => [semGrants y.index s a]) s₁ bs).sum =
        s₁.kernel.semCount y.index + (trace step (fun s a => [semPosts y.index s a]) s₁ bs).sum := by
    clear hn hc hp hy hst₀
    induction hq with
    | nil => exact ⟨hst₁, hu, hok, rfl⟩
    | @cons s₁ s₂ s₃ a bs hcond hr _ ih =>
      have hr : s₁.step a = some s₂ := hr
      obtain ⟨hok₂, e⟩ := sem_step hst₁ hcond.1 hu hok hr
      obtain ⟨h₁, h₂, h₃, h₄⟩ := ih (hst₁.step hcond.1 hr) hok₂ (by rw [slot_step hst₁.sound hu hcond.2 hr]; exact hu)
      refine ⟨h₁, h₂, h₃, ?_⟩
      simp only [trace, hr, List.sum_append, List.sum_singleton]
      omega
  obtain ⟨hst, -, hok, hsum⟩ := key
  exact {
    bounded := hok.bounded
    idle := hok.idle
    conserved := by omega
    refused := fun _ _ _ _ ht hx h hf hr => semRefused ht hx h hf hr
    returns := fun _ _ _ _ _ _ _ ht hx h hf hp ht₂ h₂ => semReturns hst.sound ht hx h hf hp ht₂ h₂
    wakesOne := fun _ _ _ _ hp h ht hu ht' hu' => semWakesOne hst.sound hp h ht hu ht' hu' }

end Sys

end Aixos

namespace Aixos.Sys

open Transition Aixos.Core

attribute [local instance] Config.default

/-- Task 1, of priority 9, runs; task 0 has priority 3. -/
def posed : List Act := boot [{ stackSize := 512, priority := 3 }, { stackSize := 512, priority := 9 }] true ++
  [.call .timerServiceWait, .switch]

/-- Task 1 takes the token there is, then waits, and task 0 posts. -/
def exchanged : List Act :=
  [.call (.semWait ⟨0, 1⟩ 10), .call (.semWait ⟨0, 1⟩ 10), .switch, .call (.semPost ⟨0, 1⟩), .switch, .resume]

theorem exchanged_semLaw : ∃ s₀ s₁ s, run step init posed = some s₀ ∧ s₀.step (.call (.semCreate 1)) = some s₁ ∧
    run step s₁ exchanged = some s ∧ s.kernel.semCount 0 = 0 ∧ s.ret 1 = some (.code Code.ok) ∧ SemLaw 0 s 1
      (trace step (fun s a => [semPosts 0 s a]) s₁ exchanged).sum
      (trace step (fun s a => [semGrants 0 s a]) s₁ exchanged).sum := by
  obtain ⟨s₀, h, hp⟩ := exists_run step init posed (fun s₀ : Sys =>
    decide ((s₀.kernel.semCreate 1).2 = .ret (.handle (some ⟨0, 1⟩))) &&
    (s₀.step (.call (.semCreate 1))).any fun s₁ : Sys => (run step s₁ exchanged).any fun s : Sys =>
      decide (s.kernel.semCount 0 = 0 ∧ s.ret 1 = some (.code Code.ok))) (by decide +kernel)
  obtain ⟨hy, hp⟩ := (Bool.and_eq_true _ _).mp hp
  obtain ⟨s₁, e₁, hp⟩ := Option.any_eq_true _ _ |>.mp hp
  obtain ⟨s, e₂, hp⟩ := Option.any_eq_true _ _ |>.mp hp
  obtain ⟨h₀, h₁⟩ := of_decide_eq_true hp
  obtain ⟨hclean, hr⟩ := path_of_boot h
  have hs₀ := sound_path hclean sound_init
  have hs₁ : Sound s₁.core := sound_step hs₀ (fun memory e => by cases e) e₁
  have hclean' := startsClean_of_running hs₁ (running_step hs₀ hr e₁) (path_iff_run.mpr e₂)
  refine ⟨s₀, s₁, s, h, e₁, e₂, h₀, h₁, semLaw_of_path hclean e₁ (of_decide_eq_true hy) ?_⟩
  refine (hclean'.both (P := fun a => ∀ h, a ≠ .call (.semDelete h)) (by simp [exchanged])).mono fun s a ha => ⟨ha.1, ?_⟩
  rintro ⟨x, h, rfl, e, -⟩
  cases x <;> simp [Call.deleted] at e
  exact ha.2 _ rfl

/-- Task 0, resumed before the start, is queued twice. -/
def resumedTwice : List Act :=
  [.call (.taskCreate { stackSize := 512, priority := 5 }), .call (.taskSuspend 0), .call (.taskResume 0),
    .start true, .call .timerServiceWait, .switch]

/-- Task 0 waits for a semaphore without tokens, is run again, and returns `AIXOS_OK`; nobody has
posted. -/
theorem resumedTwice_not_semLaw : ∃ s₀ s₁, run step init resumedTwice = some s₀ ∧
    s₀.step (.call (.semCreate 0)) = some s₁ ∧ (s₀.kernel.semCreate 0).2 = .ret (.handle (some ⟨0, 1⟩)) ∧
    ¬ SemLaw 0 s₁ 0 0 0 := by
  obtain ⟨s₀, h, hp⟩ := exists_run step init resumedTwice (fun s₀ : Sys =>
    decide ((s₀.kernel.semCreate 0).2 = .ret (.handle (some ⟨0, 1⟩))) &&
    (s₀.step (.call (.semCreate 0))).any fun s₁ : Sys =>
      decide (s₁.runningTask = some 0 ∧ s₁.core.objFromHandle .sem ⟨0, 1⟩ = some 0) &&
      (s₁.step (.call (.semWait ⟨0, 1⟩ forever))).any fun s₂ : Sys => decide ((s₂.frame 0).isSome) &&
        (s₂.step .switch).any fun s₃ : Sys => decide (s₃.runningTask = some 0 ∧ semTokens 0 0 s₂ [.switch] = 0) &&
          (s₃.step .resume).any fun s₄ : Sys => decide (s₄.ret 0 = some (.code Code.ok))) (by decide +kernel)
  obtain ⟨hy, hp⟩ := (Bool.and_eq_true _ _).mp hp
  obtain ⟨s₁, e₁, hp⟩ := Option.any_eq_true _ _ |>.mp hp
  obtain ⟨h₁, hp⟩ := (Bool.and_eq_true _ _).mp hp
  obtain ⟨s₂, e₂, hp⟩ := Option.any_eq_true _ _ |>.mp hp
  obtain ⟨h₂, hp⟩ := (Bool.and_eq_true _ _).mp hp
  obtain ⟨s₃, e₃, hp⟩ := Option.any_eq_true _ _ |>.mp hp
  obtain ⟨h₃, hp⟩ := (Bool.and_eq_true _ _).mp hp
  obtain ⟨s₄, e₄, h₄⟩ := Option.any_eq_true _ _ |>.mp hp
  obtain ⟨ht, hx⟩ := of_decide_eq_true h₁
  obtain ⟨ht₃, htok⟩ := of_decide_eq_true h₃
  refine ⟨s₀, s₁, h, e₁, of_decide_eq_true hy, fun hl => ?_⟩
  have hf : s₂.frame 0 ≠ none := Option.isSome_iff_ne_none.mp (of_decide_eq_true h₂)
  have := hl.returns ⟨0, 1⟩ forever 0 s₂ [.switch] s₃ s₄ ht hx e₂ hf (.single (by simp [Paused]) e₃) ht₃ e₄
  rw [htok, if_pos (of_decide_eq_true h₄)] at this
  cases this

end Aixos.Sys
