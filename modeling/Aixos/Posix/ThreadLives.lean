import Aixos.Library.Transition
import Aixos.Posix.ThreadBlocks

/-!
# The life of a thread

Every step of the threads is a move that deals with one block, and leaves the others alone.

* `Threads.Orderly` — when a block may be taken over to be freed.
* `Threads.Inv.step` — every step that is in order keeps all blocks as they should be.
-/

namespace Aixos.Posix

open Transition Parties

namespace Threads

variable {τ β : Type} [DecidableEq τ] [DecidableEq β] {s s' x : Threads τ β} {t u : τ} {b c : β}
  {p : ThreadPlace β} {m : LifeMove}

/-- Nobody frees a block while `aixos_pthread_create` has not returned, nor while its thread has not posted. -/
def Orderly (s : Threads τ β) : ThreadAct τ β → Prop
  | .waitOk t => ∀ b, s.place t = .wait b → ∀ u, s.place u ≠ .output b
  | .detach _ u => ∀ b, s.find u = some b → (s.block b).completed ∧ ¬ ((s.block b).detached ∨ (s.block b).joining) →
      ∀ v, s.place v ≠ .output b ∧ s.place v ≠ .post b false
  | .complete t => ∀ b, (s.place t).block = some b → (s.block b).detached →
      ∀ u, s.place u ≠ .link b ∧ s.place u ≠ .output b
  | _ => True

instance [Fintype τ] [Fintype β] : ∀ (s : Threads τ β) (a : ThreadAct τ β), Decidable (s.Orderly a)
  | s, .waitOk t => inferInstanceAs (Decidable (∀ b, s.place t = .wait b → ∀ u, s.place u ≠ .output b))
  | s, .detach _ u => inferInstanceAs (Decidable (∀ b, s.find u = some b →
      (s.block b).completed ∧ ¬ ((s.block b).detached ∨ (s.block b).joining) →
      ∀ v, s.place v ≠ .output b ∧ s.place v ≠ .post b false))
  | s, .complete t => inferInstanceAs (Decidable (∀ b, (s.place t).block = some b → (s.block b).detached →
      ∀ u, s.place u ≠ .link b ∧ s.place u ≠ .output b))
  | _, .create .. | _, .semCreate .. | _, .taskCreate .. | _, .link _ | _, .output _ | _, .join .. | _, .waitFail _ |
    _, .unjoin _ | _, .joined _ | _, .returns .. | _, .exit .. | _, .post _ | _, .remove _ | _, .semDelete _ |
    _, .free _ => .isTrue trivial

/-! ### The steps -/

omit [DecidableEq τ] in
theorem place_of_link (h : s.lifePlace b u = .link) : s.place u = .link b := by
  unfold lifePlace at h
  split at h
  · rename_i hb
    cases hp : s.place u <;> simp_all [ThreadPlace.block, ThreadPlace.life]
    split at h <;> cases h
  · split at h <;> cases h

omit [DecidableEq τ] in
theorem place_of_output (h : s.lifePlace b u = .output) : s.place u = .output b := by
  unfold lifePlace at h
  split at h
  · rename_i hb
    cases hp : s.place u <;> simp_all [ThreadPlace.block, ThreadPlace.life]
    split at h <;> cases h
  · split at h <;> cases h

omit [DecidableEq τ] in
theorem place_of_post (h : s.lifePlace b u = .post) : s.place u = .post b false := by
  unfold lifePlace at h
  split at h
  · rename_i hb
    cases hp : s.place u <;> simp_all [ThreadPlace.block, ThreadPlace.life]
  · split at h <;> cases h

omit [DecidableEq τ] in
theorem facts_modify_of_ne (s : Threads τ β) (f : ThreadBlock τ → ThreadBlock τ) (h : b ≠ c) :
    (s.modify c f).facts b = s.facts b := by
  have e : (s.modify c f).block b = s.block b := Function.update_of_ne h _ _
  unfold facts
  rw [e]
  rfl

omit [DecidableEq τ] in
theorem modify_block_of_ne (s : Threads τ β) (f : ThreadBlock τ → ThreadBlock τ) (h : b ≠ c) :
    (s.modify c f).block b = s.block b := Function.update_of_ne h ..

omit [DecidableEq β] in
theorem goto_block (s : Threads τ β) (t : τ) (p : ThreadPlace β) (b : β) : (s.goto t p).block b = s.block b := rfl

omit [DecidableEq τ] in
theorem modify_block_self (s : Threads τ β) (c : β) (f : ThreadBlock τ → ThreadBlock τ) :
    (s.modify c f).block c = f (s.block c) := Function.update_self ..

omit [DecidableEq τ] in
/-- A block is written to, but for its thread. -/
theorem edits_modify (h : Inv s) (hf : ∀ k : ThreadBlock τ, (f k).thread = k.thread) (hpre : m.pre (s.facts c))
    (he : (s.modify c f).facts c = m.effect (s.facts c)) : Edits s (s.modify c f) c m where
  place := rfl
  entry := rfl
  thread b _ := by
    by_cases e : b = c
    · rw [e, modify_block_self, hf]
    · exact congrArg ThreadBlock.thread (Function.update_of_ne e _ _)
  listed b hb := .inl hb
  nodup := h.named.nodup
  frame b hb := facts_modify_of_ne s f hb
  pre := hpre
  effect := he

omit [DecidableEq τ] in
/-- Nothing is written. -/
theorem edits_none (h : Inv s) (hpre : m.pre (s.facts c)) (he : s.facts c = m.effect (s.facts c)) : Edits s s c m where
  place := rfl
  entry := rfl
  thread _ _ := rfl
  listed _ hb := .inl hb
  nodup := h.named.nodup
  frame _ _ := rfl
  pre := hpre
  effect := he

omit [DecidableEq τ] in
/-- What the place of a task says of its block. -/
theorem Inv.fits (h : Inv s) (hc : (s.place t).block = some c) : (s.place t).life.fits (s.facts c) :=
  lifePlace_of_block hc ▸ (h.blocks c).fits t

omit [DecidableEq τ] in
/-- A block is taken out of the list. -/
theorem edits_unlink (h : Inv s) (hpre : m.pre (s.facts c))
    (he : m.effect (s.facts c) = { s.facts c with listed := false }) : Edits s (s.unlink c) c m where
  place := rfl
  entry := rfl
  thread _ _ := rfl
  listed _ hb := .inl (List.mem_of_mem_erase hb)
  nodup := h.named.nodup.erase _
  frame b hb := by
    have e : b ∈ s.threads.erase c ↔ b ∈ s.threads := List.mem_erase_of_ne hb
    show LifeFacts.mk _ _ (decide (b ∈ s.threads.erase c)) _ _ _ _ = _
    rw [decide_eq_decide.mpr e]
    rfl
  pre := hpre
  effect := by
    rw [he]
    show LifeFacts.mk _ _ (decide (c ∈ s.threads.erase c)) _ _ _ _ = _
    rw [decide_eq_false h.named.nodup.not_mem_erase]
    rfl

omit [DecidableEq τ] in
/-- What is known of a block that is written to. -/
theorem facts_modify (s : Threads τ β) (c : β) (f : ThreadBlock τ → ThreadBlock τ) :
    (s.modify c f).facts c =
      ⟨s.live c, (f (s.block c)).completion.isSome, decide (c ∈ s.threads), (f (s.block c)).detached,
        (f (s.block c)).completed, (f (s.block c)).joining, decide (0 < (f (s.block c)).completion.getD 0)⟩ := by
  unfold facts
  rw [modify_block_self]
  rfl

/-- **`aixos_sem_create`** -/
theorem Inv.step_semCreate {ok : Bool} (h : Inv s) (hs : s.step (.semCreate t ok) = some s') : Inv s' := by
  simp only [step] at hs
  split at hs
  · rename_i b detached hat
    cases ok with
    | true =>
      cases hs
      exact h.advance (m := .semCreate true) hat rfl (edits_modify h (fun _ => rfl) rfl (facts_modify ..))
        ⟨rfl, .inl ⟨rfl, rfl⟩, by simp, by simp, by simp [ThreadPlace.ended]⟩ fun _ _ => rfl
    | false =>
      cases hs
      exact h.advance (m := .semCreate false) hat rfl (edits_none h rfl rfl)
        ⟨rfl, .inl ⟨rfl, rfl⟩, by simp, by simp, by simp [ThreadPlace.ended]⟩ fun _ _ => rfl
  · cases hs

/-- **The critical section of `aixos_pthread_create`** -/
theorem Inv.step_link (h : Inv s) (hs : s.step (.link t) = some s') : Inv s' := by
  simp only [step] at hs
  split at hs
  · rename_i b hat
    cases hs
    have hnot : b ∉ s.threads := by
      have hfit : LifePlace.link.fits (s.facts b) := by
        have := h.fits (t := t) (c := b) (by rw [hat]; rfl)
        rwa [hat] at this
      intro hm
      simp [LifePlace.fits, facts, hm] at hfit
    refine h.advance (x := { s with threads := b :: s.threads }) (m := .link) hat rfl
      ⟨rfl, rfl, fun _ _ => rfl, ?_, List.nodup_cons.mpr ⟨hnot, h.named.nodup⟩, fun c hc => ?_, rfl, ?_⟩
      ⟨rfl, .inl ⟨rfl, rfl⟩, by simp, by simp, by simp [ThreadPlace.ended]⟩ fun _ _ => rfl
    · intro c hc
      rcases List.mem_cons.mp hc with rfl | hc
      · exact .inr ⟨t, hat⟩
      · exact .inl hc
    · simp [facts, hc]
    · simp [facts, LifeMove.effect]
  · cases hs

/-- **`*thread_out = thread->thread`** -/
theorem Inv.step_output (h : Inv s) (hs : s.step (.output t) = some s') : Inv s' := by
  simp only [step] at hs
  split at hs
  · rename_i b hat
    cases hs
    exact h.advance (m := .output) hat rfl (edits_none h rfl rfl)
      ⟨rfl, .inr ⟨rfl, rfl⟩, by simp, by simp, by simp [ThreadPlace.ended]⟩ fun _ _ => rfl
  · cases hs

/-- **`aixos_sem_wait`** succeeds. -/
theorem Inv.step_waitOk (h : Inv s) (ho : s.Orderly (.waitOk t))
    (hs : s.step (.waitOk t) = some s') : Inv s' := by
  simp only [step] at hs
  split at hs
  · rename_i b hat
    split at hs
    · rename_i n hn
      cases hs
      refine h.advance (m := .waitOk (decide (0 < n))) hat rfl
        (edits_modify h (fun _ => rfl) (by simp [LifeMove.pre, facts, hn]) ?_)
        ⟨rfl, .inl ⟨rfl, rfl⟩, by simp, by simp, by simp [ThreadPlace.ended]⟩ fun u _ => ?_
      · rw [facts_modify]
        simp [facts, LifeMove.effect, hn]
      · refine decide_eq_true fun e => ?_
        exact ho b hat u (place_of_output e)
    · cases hs
  · cases hs

/-- **`aixos_sem_wait`** fails. -/
theorem Inv.step_waitFail (h : Inv s) (hs : s.step (.waitFail t) = some s') : Inv s' := by
  simp only [step] at hs
  split at hs
  · rename_i b hat
    cases hs
    exact h.advance (m := .waitFail) hat rfl (edits_none h rfl rfl)
      ⟨rfl, .inl ⟨rfl, rfl⟩, by simp, by simp, by simp [ThreadPlace.ended]⟩ fun _ _ => rfl
  · cases hs

/-- **`thread->joining = 0U`** -/
theorem Inv.step_unjoin (h : Inv s) (hs : s.step (.unjoin t) = some s') : Inv s' := by
  simp only [step] at hs
  split at hs
  · rename_i b hat
    cases hs
    exact h.advance (m := .unjoin) hat rfl (edits_modify h (fun _ => rfl) rfl (facts_modify ..))
      ⟨rfl, .inr ⟨rfl, rfl⟩, by simp, by simp, by simp [ThreadPlace.ended]⟩ fun _ _ => rfl
  · cases hs

/-- **`*value = thread->result`** -/
theorem Inv.step_joined (h : Inv s) (hs : s.step (.joined t) = some s') : Inv s' := by
  simp only [step] at hs
  split at hs
  · rename_i b hat
    cases hs
    exact h.advance (m := .joined) hat rfl (edits_none h rfl rfl)
      ⟨rfl, .inl ⟨rfl, rfl⟩, by simp, by simp, by simp [ThreadPlace.ended]⟩ fun _ _ => rfl
  · cases hs

/-- **`thread_remove`** -/
theorem Inv.step_remove (h : Inv s) (hs : s.step (.remove t) = some s') : Inv s' := by
  simp only [step] at hs
  split at hs
  · rename_i b leaving hat
    cases hs
    refine h.advance (m := .remove) hat rfl (edits_unlink h rfl rfl)
      ⟨rfl, .inl ⟨rfl, rfl⟩, by simp, by simp, ?_⟩ fun _ _ => rfl
    cases leaving <;> simp [ThreadPlace.ended]
  · cases hs

/-- **`aixos_sem_delete`** -/
theorem Inv.step_semDelete (h : Inv s) (hs : s.step (.semDelete t) = some s') : Inv s' := by
  simp only [step] at hs
  split at hs
  · rename_i b leaving hat
    cases hs
    refine h.advance (m := .semDelete) hat rfl (edits_modify h (fun _ => rfl) rfl (facts_modify ..))
      ⟨rfl, .inl ⟨rfl, rfl⟩, by simp, by simp, ?_⟩ fun _ _ => rfl
    cases leaving <;> simp [ThreadPlace.ended]
  · cases hs

/-- **`aixos_free`** -/
theorem Inv.step_free (h : Inv s) (hs : s.step (.free t) = some s') : Inv s' := by
  simp only [step] at hs
  split at hs
  · rename_i b leaving hat
    cases hs
    refine h.advance (x := { s with live := Function.update s.live b false }) (m := .free) hat rfl
      ⟨rfl, rfl, fun _ _ => rfl, fun _ hb => .inl hb, h.named.nodup, fun c hc => ?_, rfl, ?_⟩
      ⟨rfl, .inr ?_, ?_, ?_, ?_⟩ fun _ _ => rfl
    · simp [facts, hc]
    · simp [facts, LifeMove.effect]
    all_goals cases leaving <;> simp [ThreadPlace.ended, after, ThreadPlace.block, LifeMove.dst]
  · cases hs

/-- **The critical section of `thread_complete`** -/
theorem Inv.step_complete (h : Inv s) (ho : s.Orderly (.complete t))
    (hs : s.step (.complete t) = some s') : Inv s' := by
  simp only [step] at hs
  split at hs
  · rename_i b r hat
    cases hs
    refine h.advance (m := .complete (s.block b).detached) hat rfl (edits_modify h (fun k => ?_) (decide_eq_true rfl) ?_)
      ⟨rfl, .inl ⟨rfl, ?_⟩, by simp, by simp, by simp [ThreadPlace.ended]⟩ fun u _ => ?_
    · split <;> rfl
    · rw [facts_modify]
      split <;> simp_all [facts, LifeMove.effect]
    · rfl
    · cases hd : (s.block b).detached with
      | false => rfl
      | true =>
        have hne := ho b (by rw [hat]; rfl) hd u
        show (!(s.lifePlace b u).creates) = true
        cases e : s.lifePlace b u <;> first | rfl | skip
        · exact absurd (place_of_link e) hne.1
        · exact absurd (place_of_output e) hne.2
  · cases hs

/-- **`aixos_sem_post`** -/
theorem Inv.step_post (h : Inv s) (hs : s.step (.post t) = some s') : Inv s' := by
  simp only [step] at hs
  split at hs
  · rename_i b detached hat
    cases hs
    have hedits : ∀ m : LifeMove, m = .post ∨ m = .lastPost →
        Edits s (s.modify b fun c => { c with completion := c.completion.map (· + 1) }) b m := by
      intro m hm
      have heffect : ∀ d, m.effect d = { d with posted := d.sem } := by
        rcases hm with rfl | rfl <;> exact fun _ => rfl
      refine edits_modify h (fun _ => rfl) (by rcases hm with rfl | rfl <;> rfl) ?_
      rw [facts_modify, heffect]
      cases hc : (s.block b).completion <;> simp [facts, hc]
    cases detached with
    | true =>
      exact h.advance hat rfl (hedits .lastPost (.inr rfl))
        ⟨rfl, .inl ⟨rfl, rfl⟩, by simp, by simp, by simp [ThreadPlace.ended]⟩ fun _ _ => rfl
    | false =>
      exact h.advance hat rfl (hedits .post (.inl rfl))
        ⟨rfl, .inr ⟨rfl, rfl⟩, by simp, by simp, by simp [ThreadPlace.ended]⟩ fun _ _ => rfl
  · cases hs

/-- **`aixos_pthread_create`** is called. -/
theorem Inv.step_create {detached : Bool} (h : Inv s) (hs : s.step (.create t b detached) = some s') : Inv s' := by
  simp only [step] at hs
  split at hs
  · rename_i hc
    obtain ⟨ht, hlive⟩ := hc
    cases hs
    -- nobody knows the block
    have hidle : ∀ u, s.lifePlace b u = .idle := by
      intro u
      have hf := (h.blocks b).fits u
      cases e : s.lifePlace b u <;> first | rfl | skip
      all_goals
        rw [e] at hf
        simp [lives, LifePlace.fits, facts, hlive] at hf
    have hentry : ∀ u, s.entry u ≠ some b := by
      intro u he
      have := hidle u
      rw [lifePlace_of_ne fun hb => h.named.apart u b hb he, if_pos he] at this
      cases this
    have hlinked : ¬ s.Linked b := by
      rintro (hm | ⟨u, hu⟩)
      · have := (h.blocks b).sane
        simp [lives, facts, hm, hlive] at this
      · have := hidle u
        rw [lifePlace_of_block (by rw [hu]; rfl), hu] at this
        cases this
    refine h.enter (m := .create) ht ⟨rfl, rfl, fun c hc => ?_, fun _ hc => .inl hc, h.named.nodup, fun c hc => ?_, ?_, ?_⟩
      rfl (fun _ _ => rfl) (hentry t) (by simp) rfl rfl
    · refine congrArg ThreadBlock.thread (Function.update_of_ne ?_ _ _)
      rintro rfl
      rcases hc with hc | ⟨u, hu⟩
      · exact hlinked hc
      · exact hentry u hu
    · rw [facts_modify_of_ne _ _ hc]
      simp [facts, hc]
    · simp [LifeMove.pre, facts, hlive]
    · rw [facts_modify]
      have hm : b ∉ s.threads := fun hm => hlinked (.inl hm)
      simp [LifeMove.effect, hm]
  · cases hs

omit [DecidableEq β] in
theorem mem_of_find (hf : s.find u = some b) : b ∈ s.threads ∧ (s.block b).thread = some u :=
  ⟨List.mem_of_find?_eq_some hf, by simpa using List.find?_some hf⟩

/-- **`aixos_pthread_join`** -/
theorem Inv.step_join (h : Inv s) (hs : s.step (.join t u) = some s') : Inv s' := by
  simp only [step] at hs
  split at hs
  · rename_i ht
    split at hs
    · cases hs
      exact h
    · rename_i hne
      split at hs
      · cases hs
        exact h
      · rename_i b hf
        obtain ⟨hm, hthread⟩ := mem_of_find hf
        split at hs
        · cases hs
          exact h
        · rename_i hfree
          rw [not_or, Bool.not_eq_true, Bool.not_eq_true] at hfree
          cases hs
          refine h.enter (m := .join) ht
            (edits_modify h (fun _ => rfl) (by simp [LifeMove.pre, facts, hm, hfree]) (facts_modify ..)) rfl
            (fun _ _ => rfl) (fun he => hne ?_) (by simp) rfl rfl
          exact Option.some.inj (hthread.symm.trans (h.named.entry t b he))
  · cases hs

omit [DecidableEq β] in
theorem goto_same {p : ThreadPlace β} (h : s.place t = p) : s.goto t p = s := by
  unfold goto
  rw [← h, Function.update_eq_self]

/-- **`aixos_pthread_detach`** -/
theorem Inv.step_detach (h : Inv s) (ho : s.Orderly (.detach t u)) (hs : s.step (.detach t u) = some s') : Inv s' := by
  simp only [step] at hs
  split at hs
  · rename_i ht
    split at hs
    · cases hs
      exact h
    · rename_i b hf
      obtain ⟨hm, hthread⟩ := mem_of_find hf
      split at hs
      · cases hs
        exact h
      · rename_i hrefused
        have hfree := hrefused
        rw [not_or, Bool.not_eq_true, Bool.not_eq_true] at hfree
        split at hs
        · rename_i hcompleted
          cases hs
          have hown : s.entry t ≠ some b := by
            intro he
            have hfit := (h.blocks b).fits t
            rw [lifePlace_of_ne (by rw [ht]; simp [ThreadPlace.block]), if_pos he] at hfit
            simp [lives, LifePlace.fits, facts, hcompleted] at hfit
          refine h.enter (m := .reclaim) ht ⟨rfl, rfl, fun c hc => ?_, fun c hc => .inl (List.mem_of_mem_erase hc),
            h.named.nodup.erase _, fun c hc => ?_, by simp [LifeMove.pre, facts, hm, hfree, hcompleted], ?_⟩ rfl
            (fun v _ => ?_) hown (by simp) rfl rfl
          · by_cases e : c = b
            · rw [e]
              show ((s.modify b fun k => { k with detached := true }).block b).thread = _
              rw [modify_block_self]
            · exact congrArg ThreadBlock.thread (Function.update_of_ne e _ _)
          · rw [← facts_modify_of_ne s (fun k => { k with detached := true }) hc]
            have e : c ∈ s.threads.erase b ↔ c ∈ s.threads := List.mem_erase_of_ne hc
            show LifeFacts.mk _ _ (decide (c ∈ s.threads.erase b)) _ _ _ _ = _
            rw [decide_eq_decide.mpr e]
            rfl
          · show LifeFacts.mk _ _ (decide (b ∈ s.threads.erase b)) _ _ _ _ = _
            rw [decide_eq_false h.named.nodup.not_mem_erase]
            unfold unlink
            rw [modify_block_self]
            rfl
          · have hne := ho b hf ⟨hcompleted, hrefused⟩ v
            show (decide (s.lifePlace b v ≠ .output) && decide (s.lifePlace b v ≠ .post)) = true
            rw [Bool.and_eq_true, decide_eq_true_iff, decide_eq_true_iff]
            exact ⟨fun e => hne.1 (place_of_output e), fun e => hne.2 (place_of_post e)⟩
        · rename_i hcompleted
          rw [Bool.not_eq_true] at hcompleted
          cases hs
          rw [← goto_same (s := s.modify b fun c => { c with detached := true }) ht]
          refine h.goto (m := .detach (decide (s.entry t = some b)))
            (edits_modify h (fun _ => rfl) (by simp [LifeMove.pre, facts, hm, hfree, hcompleted]) (facts_modify ..))
            (fun c hc => ?_) ?_ (fun _ _ => rfl) (by simp) (by simp) (fun hv => ?_) (fun c hc => ?_) ?_
          · rw [ht] at hc
            cases hc
          · rw [lifePlace_of_ne (by rw [ht]; simp [ThreadPlace.block])]
            simp [LifeMove.src]
          · rw [ht] at hv
            cases hv
          · cases hc
          · simp [LifeMove.dst, ThreadPlace.block]
  · cases hs

/-! ### The thread of a block -/

omit [DecidableEq β] in
theorem Named.leave (h : Named s) (hp : p = .exited ∨ ∃ b r, p = .completing b r) :
    Named ({ s with entry := Function.update s.entry t none }.goto t p) := by
  have hended : p.ended := by
    rcases hp with rfl | ⟨b, r, rfl⟩ <;> rfl
  have hplace : ∀ u, u ≠ t → ({ s with entry := Function.update s.entry t none }.goto t p).place u = s.place u :=
    fun u hu => goto_place_of_ne _ _ hu
  have hself : ({ s with entry := Function.update s.entry t none }.goto t p).place t = p := goto_place_self ..
  have hentry : ∀ u b, ({ s with entry := Function.update s.entry t none }.goto t p).entry u = some b →
      u ≠ t ∧ s.entry u = some b := by
    intro u b hu
    change Function.update s.entry t none u = some b at hu
    by_cases e : u = t
    · rw [e, Function.update_self] at hu
      cases hu
    · rw [Function.update_of_ne e] at hu
      exact ⟨e, hu⟩
  refine ⟨fun u b hu => h.entry u b (hentry u b hu).2, fun b u hb hu => ?_, fun u hu => ?_, fun u b hb hu => ?_, h.nodup⟩
  · by_cases e : u = t
    · rw [e, hself]
      exact .inr hended
    · have hb : s.Linked b := by
        rcases hb with hb | ⟨v, hv⟩
        · exact .inl hb
        · by_cases ev : v = t
          · rw [ev, hself] at hv
            rcases hp with rfl | ⟨c, r, rfl⟩ <;> cases hv
          · rw [hplace v ev] at hv
            exact .inr ⟨v, hv⟩
      rw [hplace u e]
      rcases h.thread b u hb hu with he | ho
      · exact .inl ((Function.update_of_ne e _ _).trans he)
      · exact .inr ho
  · by_cases e : u = t
    · rw [e]
      exact Function.update_self ..
    · rw [hplace u e] at hu
      exact (Function.update_of_ne e _ _).trans (h.unborn u hu)
  · obtain ⟨e, hu⟩ := hentry u b hu
    rw [hplace u e] at hb
    exact h.apart u b hb hu

/-- **A start routine is over.** -/
theorem Inv.leave (h : Inv s) (ht : s.place t = .user) (hc : s.entry t = some c)
    (hp : (p = .exited ∧ m = .exit) ∨ ∃ r, p = .completing c r ∧ m = .returns) :
    Inv ({ s with entry := Function.update s.entry t none }.goto t p) := by
  have hself : ({ s with entry := Function.update s.entry t none }.goto t p).place t = p := goto_place_self ..
  have hnone : ({ s with entry := Function.update s.entry t none }.goto t p).entry t = none := Function.update_self ..
  have hsrc : s.lifePlace c t = .own := by
    rw [lifePlace_of_ne (by rw [ht]; simp [ThreadPlace.block]), if_pos hc]
  refine ⟨Moves.holds (s := s) (t := t) (c := c) (m := m) ⟨fun u hu b => ?_, fun b hb => ⟨?_, rfl⟩, ?_, ?_, ?_, ?_, ?_⟩
    h.blocks, h.named.leave ?_⟩
  · exact lifePlace_congr (goto_place_of_ne _ _ hu) (Function.update_of_ne hu _ _)
  · have hne : p.block ≠ some b := by
      rcases hp with ⟨rfl, -⟩ | ⟨r, rfl, -⟩
      · simp [ThreadPlace.block]
      · exact fun e => hb (Option.some.inj e).symm
    rw [lifePlace_of_ne (by rwa [hself]), hnone, lifePlace_of_ne (by rw [ht]; simp [ThreadPlace.block]), hc,
      if_neg (by simp), if_neg fun e => hb (Option.some.inj e).symm]
  · rcases hp with ⟨-, rfl⟩ | ⟨r, -, rfl⟩ <;> exact hsrc
  · rcases hp with ⟨-, rfl⟩ | ⟨r, -, rfl⟩ <;> exact fun _ _ => rfl
  · rcases hp with ⟨-, rfl⟩ | ⟨r, -, rfl⟩ <;> rfl
  · unfold lifePlace
    rw [hself, hnone]
    rcases hp with ⟨rfl, rfl⟩ | ⟨r, rfl, rfl⟩
    · simp [ThreadPlace.block, LifeMove.dst]
    · simp [ThreadPlace.block, LifeMove.dst, ThreadPlace.life]
  · rcases hp with ⟨-, rfl⟩ | ⟨r, -, rfl⟩ <;> rfl
  · rcases hp with ⟨rfl, -⟩ | ⟨r, rfl, -⟩
    · exact .inl rfl
    · exact .inr ⟨c, r, rfl⟩

/-- A task exits that is no thread. -/
theorem Inv.quit (h : Inv s) (ht : s.place t = .user) (hc : s.entry t = none) : Inv (s.goto t .exited) := by
  have he : Function.update s.entry t none = s.entry := by rw [← hc, Function.update_eq_self]
  have hnamed := h.named.leave (t := t) (p := .exited) (.inl rfl)
  rw [he] at hnamed
  refine ⟨fun b => ?_, hnamed⟩
  have e : (s.goto t .exited).lifePlace b = s.lifePlace b := by
    funext u
    by_cases hu : u = t
    · rw [hu, lifePlace_of_ne (by rw [goto_place_self]; simp [ThreadPlace.block]),
        lifePlace_of_ne (by rw [ht]; simp [ThreadPlace.block])]
      rfl
    · exact lifePlace_congr (goto_place_of_ne _ _ hu) rfl
  rw [e]
  exact h.blocks b

/-- **The start routine returns.** -/
theorem Inv.step_returns {r : Word} (h : Inv s) (hs : s.step (.returns t r) = some s') : Inv s' := by
  simp only [step] at hs
  split at hs
  · rename_i b he
    split at hs
    · rename_i ht
      cases hs
      exact h.leave (m := .returns) ht he (.inr ⟨r, rfl, rfl⟩)
    · cases hs
  · cases hs

/-- **`aixos_pthread_exit`** -/
theorem Inv.step_exit {r : Word} (h : Inv s) (hs : s.step (.exit t r) = some s') : Inv s' := by
  simp only [step] at hs
  split at hs
  · rename_i ht
    split at hs
    · rename_i b hf
      cases hs
      obtain ⟨hm, hthread⟩ := mem_of_find hf
      rcases h.named.thread b t (.inl hm) hthread with he | ho
      · exact h.leave (m := .returns) ht he (.inr ⟨r, rfl, rfl⟩)
      · rw [ht] at ho
        cases ho
    · cases hs
      cases he : s.entry t with
      | none =>
        have e : Function.update s.entry t none = s.entry := by rw [← he, Function.update_eq_self]
        rw [e]
        exact h.quit ht he
      | some b => exact h.leave (m := .exit) ht he (.inl ⟨rfl, rfl⟩)
  · cases hs

section Born

variable {detached : Bool}

/-- A new task runs `thread_entry`. -/
def born (s : Threads τ β) (t u : τ) (b : β) (detached : Bool) : Threads τ β :=
  (({ s with entry := Function.update s.entry u (some b) }.modify b fun c =>
    { c with detached, thread := some u }).goto u .user).goto t (.link b)

theorem born_place (v : τ) : (s.born t u b detached).place v =
    if v = t then .link b else if v = u then .user else s.place v := by
  by_cases e : v = t
  · rw [if_pos e, e]
    exact goto_place_self ..
  · rw [if_neg e]
    refine (goto_place_of_ne _ _ e).trans ?_
    by_cases eu : v = u
    · rw [if_pos eu, eu]
      exact goto_place_self ..
    · rw [if_neg eu]
      exact goto_place_of_ne _ _ eu

theorem born_entry_of_ne {v : τ} (h : v ≠ u) : (s.born t u b detached).entry v = s.entry v :=
  Function.update_of_ne h ..

theorem born_entry_self : (s.born t u b detached).entry u = some b := Function.update_self ..

omit [DecidableEq τ] in
/-- While its thread is being created, a block is nobody else's. -/
theorem Inv.alone (h : Inv s) (hat : s.place t = .taskCreate b detached) {v : τ} (hv : v ≠ t) :
    s.lifePlace b v = .idle := by
  have hc := (h.blocks b).compat t v (Ne.symm hv)
  rw [lifePlace_of_block (by rw [hat]; rfl), hat] at hc
  cases e : s.lifePlace b v <;> first | rfl | skip
  all_goals
    rw [e] at hc
    cases hc

theorem Inv.entry_ne (h : Inv s) (hat : s.place t = .taskCreate b detached) (v : τ) : s.entry v ≠ some b := by
  intro he
  by_cases e : v = t
  · rw [e] at he
    exact h.named.apart t b (by rw [hat]; rfl) he
  · have := h.alone hat e
    rw [lifePlace_of_ne fun hb => h.named.apart v b hb he, if_pos he] at this
    cases this

theorem Inv.born_lives (h : Inv s) (hat : s.place t = .taskCreate b detached) (hu : s.place u = .unborn) (c : β) :
    lives.Holds ((s.born t u b detached).lifePlace c) ((s.born t u b detached).facts c) := by
  have hne : u ≠ t := by
    rintro rfl
    rw [hat] at hu
    cases hu
  have hunborn := h.named.unborn u hu
  by_cases hc : c = b
  · subst hc
    have hfit : LifePlace.taskCreate.fits (s.facts c) := by
      have := h.fits (t := t) (c := c) (by rw [hat]; rfl)
      rwa [hat] at this
    have hsrc : s.lifePlace c t = .taskCreate := by
      rw [lifePlace_of_block (by rw [hat]; rfl), hat]
      rfl
    -- first the creator goes on, then the thread is there
    have h₁ : lives.Holds (Function.update (s.lifePlace c) t .link) { s.facts c with detached } := by
      refine (h.blocks c).move (g := LifePlace.anywhere) (fun _ _ => rfl) ?_
      rw [hsrc]
      exact LifeMove.sound (.taskCreate detached true) _ rfl
    have h₂ : lives.Holds (Function.update (Function.update (s.lifePlace c) t .link) u .own)
        { s.facts c with detached } := by
      refine h₁.move (g := LifePlace.alone) (fun v hv => ?_) ?_
      · by_cases e : v = t
        · rw [e, Function.update_self]
          rfl
        · rw [Function.update_of_ne e, h.alone hat e]
          rfl
      · rw [Function.update_of_ne hne, h.alone hat hne]
        refine LifeMove.sound .born _ ?_
        revert hfit
        simp only [LifePlace.fits, LifeMove.pre, Bool.and_eq_true]
        tauto
    have e : (s.born t u c detached).lifePlace c =
        Function.update (Function.update (s.lifePlace c) t .link) u .own := by
      funext v
      by_cases ev : v = u
      · rw [ev, Function.update_self, lifePlace_of_ne (by rw [born_place, if_neg hne, if_pos rfl]; simp
          [ThreadPlace.block]), born_entry_self, if_pos rfl]
      · rw [Function.update_of_ne ev]
        by_cases et : v = t
        · have hp : (s.born t u c detached).place t = .link c := by rw [born_place, if_pos rfl]
          rw [et, Function.update_self, lifePlace_of_block (by rw [hp]; rfl), hp]
          rfl
        · rw [Function.update_of_ne et]
          exact lifePlace_congr (by rw [born_place, if_neg et, if_neg ev]) (born_entry_of_ne ev)
    have hf : (s.born t u c detached).facts c = { s.facts c with detached } :=
      facts_modify s c fun k => { k with detached, thread := some u }
    rw [e, hf]
    exact h₂
  · have e : (s.born t u b detached).lifePlace c = s.lifePlace c := by
      funext v
      by_cases et : v = t
      · have hp : (s.born t u b detached).place t = .link b := by rw [born_place, if_pos rfl]
        rw [et, lifePlace_of_ne (by rw [hp]; exact fun e => hc (Option.some.inj e).symm),
          born_entry_of_ne (Ne.symm hne), lifePlace_of_ne (by rw [hat]; exact fun e => hc (Option.some.inj e).symm)]
      · by_cases ev : v = u
        · have hp : (s.born t u b detached).place u = .user := by rw [born_place, if_neg hne, if_pos rfl]
          rw [ev, lifePlace_of_ne (by rw [hp]; simp [ThreadPlace.block]), born_entry_self,
            if_neg fun e => hc (Option.some.inj e).symm, lifePlace_of_ne (by rw [hu]; simp [ThreadPlace.block]), hunborn,
            if_neg (by simp)]
        · exact lifePlace_congr (by rw [born_place, if_neg et, if_neg ev]) (born_entry_of_ne ev)
    have hf : (s.born t u b detached).facts c = s.facts c :=
      facts_modify_of_ne s (fun k => { k with detached, thread := some u }) hc
    rw [e, hf]
    exact h.blocks c

theorem Inv.born_named (h : Inv s) (hat : s.place t = .taskCreate b detached) (hu : s.place u = .unborn) :
    Named (s.born t u b detached) := by
  have hne : u ≠ t := by
    rintro rfl
    rw [hat] at hu
    cases hu
  have hunborn := h.named.unborn u hu
  have hthread : ∀ c, c ≠ b → ((s.born t u b detached).block c).thread = (s.block c).thread :=
    fun c hc => congrArg ThreadBlock.thread (Function.update_of_ne hc _ _)
  have hself : ((s.born t u b detached).block b).thread = some u := by
    show (Function.update s.block b _ b).thread = _
    rw [Function.update_self]
  refine ⟨fun v c hv => ?_, fun c v hc hv => ?_, fun v hv => ?_, fun v c hv => ?_, h.named.nodup⟩
  · by_cases e : v = u
    · rw [e, born_entry_self] at hv
      rw [e, ← Option.some.inj hv]
      exact hself
    · rw [born_entry_of_ne e] at hv
      rw [hthread c (by rintro rfl; exact h.entry_ne hat v hv)]
      exact h.named.entry v c hv
  · by_cases e : c = b
    · rw [e, hself] at hv
      rw [e, ← Option.some.inj hv]
      exact .inl born_entry_self
    · have hlinked : s.Linked c := by
        rcases hc with hc | ⟨w, hw⟩
        · exact .inl hc
        · rw [born_place] at hw
          split at hw
          · exact absurd (ThreadPlace.link.inj hw).symm e
          · split at hw
            · cases hw
            · exact .inr ⟨w, hw⟩
      rw [hthread c e] at hv
      rcases h.named.thread c v hlinked hv with he | ho
      · have hvu : v ≠ u := by
          rintro rfl
          rw [hunborn] at he
          cases he
        exact .inl ((born_entry_of_ne hvu).trans he)
      · rw [born_place]
        refine .inr ?_
        rw [if_neg, if_neg]
        · exact ho
        · rintro rfl
          rw [hu] at ho
          cases ho
        · rintro rfl
          rw [hat] at ho
          cases ho
  · rw [born_place] at hv
    split at hv
    · cases hv
    · split at hv
      · cases hv
      · rename_i e
        exact (born_entry_of_ne e).trans (h.named.unborn v hv)
  · rw [born_place] at hv
    split at hv
    · rename_i e
      rw [e, born_entry_of_ne (Ne.symm hne)]
      exact h.named.apart t c (by rw [hat]; exact hv)
    · split at hv
      · cases hv
      · rename_i e
        rw [born_entry_of_ne e]
        exact h.named.apart v c hv

end Born

/-- **`aixos_task_create`** -/
theorem Inv.step_taskCreate {v : Option τ} (h : Inv s) (hs : s.step (.taskCreate t v) = some s') : Inv s' := by
  simp only [step] at hs
  split at hs
  · rename_i b detached hat
    split at hs
    · cases hs
      exact h.advance (m := .taskCreate detached false) hat rfl (edits_modify h (fun _ => rfl) rfl (facts_modify ..))
        ⟨rfl, .inl ⟨rfl, rfl⟩, by simp, by simp, by simp [ThreadPlace.ended]⟩ fun _ _ => rfl
    · rename_i u
      split at hs
      · rename_i hu
        cases hs
        exact ⟨h.born_lives hat hu, h.born_named hat hu⟩
      · cases hs
  · cases hs

/-- **Every step keeps it.** -/
theorem Inv.step {a : ThreadAct τ β} (h : Inv s) (ho : s.Orderly a) (hs : s.step a = some s') : Inv s' := by
  cases a with
  | create t b detached => exact h.step_create hs
  | semCreate t ok => exact h.step_semCreate hs
  | taskCreate t u => exact h.step_taskCreate hs
  | link t => exact h.step_link hs
  | output t => exact h.step_output hs
  | join t u => exact h.step_join hs
  | waitOk t => exact h.step_waitOk ho hs
  | waitFail t => exact h.step_waitFail hs
  | unjoin t => exact h.step_unjoin hs
  | joined t => exact h.step_joined hs
  | detach t u => exact h.step_detach ho hs
  | returns t r => exact h.step_returns hs
  | exit t r => exact h.step_exit hs
  | complete t => exact h.step_complete ho hs
  | post t => exact h.step_post hs
  | remove t => exact h.step_remove hs
  | semDelete t => exact h.step_semDelete hs
  | free t => exact h.step_free hs

omit [DecidableEq τ] in
theorem inv_init (tasks : τ → Bool) : Inv (init tasks : Threads τ β) := by
  have hplace : ∀ t, (init tasks : Threads τ β).place t = .user ∨ (init tasks : Threads τ β).place t = .unborn := by
    intro t
    show (if tasks t then _ else _) = _ ∨ (if tasks t then _ else _) = _
    split
    · exact .inl rfl
    · exact .inr rfl
  have hblock : ∀ t, ((init tasks : Threads τ β).place t).block = none := by
    intro t
    rcases hplace t with e | e <;> rw [e] <;> rfl
  refine ⟨fun b => ?_, ⟨fun t b he => ?_, fun b u hb _ => ?_, fun _ _ => rfl, fun t b hb => ?_, List.nodup_nil⟩⟩
  · have e : (init tasks : Threads τ β).lifePlace b = fun _ => .idle := by
      funext t
      rw [lifePlace_of_ne (by rw [hblock]; simp)]
      rfl
    rw [e]
    refine ⟨fun _ => rfl, fun _ _ _ => rfl, rfl, fun n hn hd => ?_⟩
    revert n
    show ∀ n ∈ lives.duties, n.1 ⟨false, false, false, false, false, false, false⟩ → _
    simp [lives]
  · cases he
  · rcases hb with hb | ⟨t, ht⟩
    · cases hb
    · rcases hplace t with e | e <;> rw [e] at ht <;> cases ht
  · rw [hblock] at hb
    cases hb

end Threads

end Aixos.Posix
