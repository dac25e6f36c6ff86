import Aixos.Posix.ThreadReclaim

/-!
# What threads return

What has been seen of the threads tells how each of them ended (`Threads.Told`), and so it does what is joined
(`Threads.joined_results`).
-/

namespace Aixos.Posix

open Transition Parties

namespace Threads

variable {τ β : Type} [DecidableEq τ] [DecidableEq β] {s s' x : Threads τ β} {t u : τ} {b c : β} {p : ThreadPlace β}
  {f : ThreadBlock τ → ThreadBlock τ} {es es' : List (ThreadEvent τ)} {a : ThreadAct τ β}

/-! ### What is joined -/

/-- What has been seen tells the results of the threads. -/
structure Told (s : Threads τ β) (es : List (ThreadEvent τ)) : Prop where
  completing : ∀ t b r, s.place t = .completing b r → (s.block b).thread = some t ∧ .ended t r ∈ es
  completed : ∀ b u, s.live b → (s.block b).completed → (s.block b).thread = some u → .ended u (s.block b).result ∈ es

/-- Two blocks have the same thread, and the same result of it. -/
def Same (k l : ThreadBlock τ) : Prop := k.thread = l.thread ∧ k.completed = l.completed ∧ k.result = l.result

omit [DecidableEq τ] in
theorem same_modify (hf : ∀ k, Same (f k) k) (b : β) : Same ((s.modify c f).block b) (s.block b) := by
  by_cases e : b = c
  · rw [e, modify_block_self]
    exact hf _
  · rw [show (s.modify c f).block b = s.block b from Function.update_of_ne e _ _]
    exact ⟨rfl, rfl, rfl⟩

omit [DecidableEq τ] [DecidableEq β] in
/-- Results stay what they are. -/
theorem Told.congr (h : Told s es) (hplace : ∀ t b r, s'.place t = .completing b r → s.place t = .completing b r)
    (hthread : ∀ t b r, s.place t = .completing b r → (s'.block b).thread = (s.block b).thread)
    (hblock : ∀ b, s'.live b → s.live b ∧ Same (s'.block b) (s.block b) ∨ (s'.block b).completed = false) :
    Told s' es := by
  refine ⟨fun t b r ht => ?_, fun b u hb hc hu => ?_⟩
  · have ht := hplace t b r ht
    obtain ⟨h₁, he⟩ := h.completing t b r ht
    exact ⟨(hthread t b r ht).trans h₁, he⟩
  · rcases hblock b hb with ⟨hl, h₁, h₂, h₃⟩ | hn
    · rw [h₃]
      exact h.completed b u hl (h₂ ▸ hc) (h₁ ▸ hu)
    · rw [hn] at hc
      cases hc

omit [DecidableEq τ] [DecidableEq β] in
theorem Told.mono (h : Told s es) (hes : es ⊆ es') : Told s es' :=
  ⟨fun t b r ht => ⟨(h.completing t b r ht).1, hes (h.completing t b r ht).2⟩,
    fun b u hb hc hu => hes (h.completed b u hb hc hu)⟩

omit [DecidableEq β] in
/-- A step to a place that is not before the critical section of `thread_complete`. -/
theorem Told.goto (h : Told s es) (hx : x.place = s.place) (hl : ∀ b, x.live b → s.live b)
    (hp : ∀ b r, p ≠ .completing b r) (hsame : ∀ b, Same (x.block b) (s.block b)) : Told (x.goto t p) es := by
  refine h.congr (fun u b r hu => ?_) (fun u b r _ => (hsame b).1) fun b hb => .inl ⟨hl b hb, hsame b⟩
  by_cases e : u = t
  · rw [e, goto_place_self] at hu
    exact absurd hu (hp b r)
  · rw [goto_place_of_ne _ _ e, hx] at hu
    exact hu

omit [DecidableEq β] in
/-- A start routine is over. -/
theorem Told.ended {r : Word} {e : τ → Option β} (h : Told s es) (hthread : (s.block c).thread = some t) :
    Told ({ s with entry := e }.goto t (.completing c r)) (es ++ [.ended t r]) := by
  refine ⟨fun u b q hu => ?_, fun b u hb hc hu => List.mem_append_left _ (h.completed b u hb hc hu)⟩
  by_cases hut : u = t
  · rw [hut, goto_place_self] at hu
    cases hu
    exact ⟨hut ▸ hthread, by rw [hut]; simp⟩
  · rw [goto_place_of_ne _ _ hut] at hu
    obtain ⟨h₁, h₂⟩ := h.completing u b q hu
    exact ⟨h₁, List.mem_append_left _ h₂⟩

/-- **What is seen tells the results.** -/
theorem Told.step (hi : Inv s) (h : Told s es) (hs : s.step a = some s') : Told s' (es ++ s.observe a) := by
  have hmono : ∀ s'' : Threads τ β, Told s'' es → Told s'' (es ++ s.observe a) :=
    fun s'' h => h.mono (List.subset_append_left ..)
  have hsame : ∀ k : ThreadBlock τ, Same k k := fun _ => ⟨rfl, rfl, rfl⟩
  cases a with
  | create t b detached =>
    simp only [step] at hs
    split at hs
    · rename_i hc
      cases hs
      refine hmono _ (h.congr (fun u c r hu => ?_) (fun u c r hu => ?_) fun c hc' => ?_)
      · by_cases e : u = t
        · rw [e, goto_place_self] at hu
          cases hu
        · rwa [goto_place_of_ne _ _ e] at hu
      · have hl := hi.sound.held u c (.inl (by rw [hu]; rfl))
        refine congrArg ThreadBlock.thread (Function.update_of_ne ?_ _ _)
        rintro rfl
        rw [hc.2] at hl
        cases hl
      · by_cases e : c = b
        · rw [e]
          refine .inr ?_
          rw [goto_block, modify_block_self]
        · refine .inl ⟨(Function.update_of_ne e _ _).symm.trans hc', ?_⟩
          rw [goto_block, modify_block_of_ne _ _ e]
          exact hsame _
    · cases hs
  | semCreate t ok =>
    simp only [step] at hs
    split at hs
    · split at hs
      · cases hs
        exact hmono _ (h.goto rfl (fun _ hb => hb) (by simp) (same_modify fun _ => ⟨rfl, rfl, rfl⟩))
      · cases hs
        exact hmono _ (h.goto rfl (fun _ hb => hb) (by simp) fun _ => hsame _)
    · cases hs
  | taskCreate t v =>
    simp only [step] at hs
    split at hs
    · rename_i b detached hat
      split at hs
      · cases hs
        exact hmono _ (h.goto rfl (fun _ hb => hb) (by simp) (same_modify fun _ => ⟨rfl, rfl, rfl⟩))
      · split at hs
        · rename_i u hu
          cases hs
          refine hmono (s.born t u b detached) (h.congr (fun v c r hv => ?_) (fun v c r hv => ?_) fun c hc => ?_)
          · rw [born_place] at hv
            split at hv
            · cases hv
            · split at hv
              · cases hv
              · exact hv
          · refine congrArg ThreadBlock.thread (Function.update_of_ne ?_ _ _)
            rintro rfl
            have hvt : v ≠ t := by
              rintro rfl
              rw [hat] at hv
              cases hv
            have := hi.alone hat hvt
            rw [lifePlace_of_block (by rw [hv]; rfl), hv] at this
            cases this
          · by_cases e : c = b
            · have hfit := hi.fits (t := t) (c := b) (by rw [hat]; rfl)
              rw [hat] at hfit
              have hn : (s.block b).completed = false := by
                simp only [ThreadPlace.life, LifePlace.fits, facts, Bool.and_eq_true, Bool.not_eq_true'] at hfit
                tauto
              rw [e]
              refine .inr ?_
              unfold born
              rw [goto_block, goto_block, modify_block_self]
              exact hn
            · refine .inl ⟨hc, ?_⟩
              unfold born
              rw [goto_block, goto_block, modify_block_of_ne _ _ e]
              exact hsame _
        · cases hs
    · cases hs
  | complete t =>
    simp only [step] at hs
    split at hs
    · rename_i b r hat
      cases hs
      obtain ⟨hthread, he⟩ := h.completing t b r hat
      have hn : (s.block b).completed = false := by
        have hfit := hi.fits (t := t) (c := b) (by rw [hat]; rfl)
        rw [hat] at hfit
        simp only [ThreadPlace.life, LifePlace.fits, facts, Bool.and_eq_true, Bool.not_eq_true'] at hfit
        tauto
      have hblock : (s.modify b fun c => if c.completed then c else { c with result := r, completed := true }).block b =
          { s.block b with result := r, completed := true } := by
        rw [modify_block_self, if_neg (by simp [hn])]
      refine hmono _ ⟨fun u c q hu => ?_, fun c u hc hcompleted hu => ?_⟩
      · have hut : u ≠ t := by
          rintro rfl
          rw [goto_place_self] at hu
          cases hu
        rw [goto_place_of_ne _ _ hut] at hu
        obtain ⟨h₁, h₂⟩ := h.completing u c q hu
        refine ⟨?_, h₂⟩
        rw [goto_block]
        by_cases e : c = b
        · rw [e] at h₁ ⊢
          rw [hblock]
          exact h₁
        · rw [modify_block_of_ne _ _ e]
          exact h₁
      · rw [goto_block] at hcompleted hu ⊢
        by_cases e : c = b
        · rw [e, hblock] at hu ⊢
          rw [← Option.some.inj (hthread.symm.trans hu)]
          exact he
        · rw [modify_block_of_ne _ _ e] at hcompleted hu ⊢
          exact h.completed c u hc hcompleted hu
    · cases hs
  | returns t r =>
    simp only [step] at hs
    split at hs
    · rename_i b he
      split at hs
      · cases hs
        exact h.ended (hi.named.entry t b he)
      · cases hs
    · cases hs
  | exit t r =>
    simp only [step] at hs
    split at hs
    · split at hs
      · rename_i b hf
        cases hs
        exact h.ended (mem_of_find hf).2
      · cases hs
        have h' : Told ({ s with entry := Function.update s.entry t none }.goto t .exited) es :=
          h.goto rfl (fun _ hb => hb) (by simp) fun _ => hsame _
        exact hmono _ h'
    · cases hs
  | join t u =>
    simp only [step] at hs
    split at hs
    · split at hs
      · cases hs
        exact hmono _ h
      · split at hs
        · cases hs
          exact hmono _ h
        · split at hs
          · cases hs
            exact hmono _ h
          · cases hs
            exact hmono _ (h.goto rfl (fun _ hb => hb) (by simp) (same_modify fun _ => ⟨rfl, rfl, rfl⟩))
    · cases hs
  | detach t u =>
    simp only [step] at hs
    split at hs
    · rename_i ht
      split at hs
      · cases hs
        exact hmono _ h
      · rename_i b hf
        split at hs
        · cases hs
          exact hmono _ h
        · split at hs
          · cases hs
            exact hmono _ (h.goto rfl (fun _ hb => hb) (by simp)
              (same_modify (s := s) (c := b) (f := fun c => { c with detached := true }) fun _ => ⟨rfl, rfl, rfl⟩))
          · cases hs
            rw [← goto_same (s := s.modify b fun c => { c with detached := true }) ht]
            exact hmono _ (h.goto rfl (fun _ hb => hb) (by simp) (same_modify fun _ => ⟨rfl, rfl, rfl⟩))
    · cases hs
  | free t =>
    simp only [step] at hs
    split at hs
    · rename_i b leaving hat
      cases hs
      refine hmono _ (h.goto (x := { s with live := Function.update s.live b false }) rfl (fun c hc => ?_) ?_
        fun _ => hsame _)
      · by_cases e : c = b
        · rw [e] at hc
          exact absurd ((Function.update_self ..).symm.trans hc) (by simp)
        · exact (Function.update_of_ne e _ _).symm.trans hc
      · intro c r
        unfold after
        split <;> simp
    · cases hs
  | post t =>
    simp only [step] at hs
    split at hs
    · rename_i b detached hat
      cases hs
      refine hmono _ (h.goto rfl (fun _ hb => hb) ?_ (same_modify fun _ => ⟨rfl, rfl, rfl⟩))
      intro c r
      split <;> simp
    · cases hs
  | waitOk t =>
    simp only [step] at hs
    split at hs
    · split at hs
      · cases hs
        exact hmono _ (h.goto rfl (fun _ hb => hb) (by simp) (same_modify fun _ => ⟨rfl, rfl, rfl⟩))
      · cases hs
    · cases hs
  | unjoin t =>
    simp only [step] at hs
    split at hs
    · cases hs
      exact hmono _ (h.goto rfl (fun _ hb => hb) (by simp) (same_modify fun _ => ⟨rfl, rfl, rfl⟩))
    · cases hs
  | semDelete t =>
    simp only [step] at hs
    split at hs
    · cases hs
      exact hmono _ (h.goto rfl (fun _ hb => hb) (by simp) (same_modify fun _ => ⟨rfl, rfl, rfl⟩))
    · cases hs
  | link t =>
    simp only [step] at hs
    split at hs
    · rename_i b hat
      cases hs
      exact hmono _ (h.goto (x := { s with threads := b :: s.threads }) rfl (fun _ hb => hb) (by simp) fun _ => hsame _)
    · cases hs
  | remove t =>
    simp only [step] at hs
    split at hs
    · rename_i b leaving hat
      cases hs
      exact hmono _ (h.goto (x := s.unlink b) rfl (fun _ hb => hb) (by simp) fun _ => hsame _)
    · cases hs
  | output t | waitFail t | joined t =>
    simp only [step] at hs
    split at hs
    · cases hs
      exact hmono _ (h.goto rfl (fun _ hb => hb) (by simp) fun _ => hsame _)
    · cases hs

/-- What `aixos_pthread_join` stores, a thread has ended with. -/
theorem Told.joined {r : Word} (hi : Inv s) (h : Told s es) (he : .joined t u r ∈ s.observe a) : .ended u r ∈ es := by
  cases a with
  | joined v =>
    simp only [observe] at he
    split at he
    · rename_i b hat
      have hfit := hi.fits (t := v) (c := b) (by rw [hat]; rfl)
      rw [hat] at hfit
      have hb : s.live b ∧ (s.block b).completed := by
        simp only [ThreadPlace.life, LifePlace.fits, facts, Bool.and_eq_true] at hfit
        tauto
      rw [Option.mem_toList, Option.map_eq_some_iff] at he
      obtain ⟨w, hw, e⟩ := he
      cases e
      exact h.completed b u hb.1 hb.2 hw
    · cases he
  | join v w =>
    simp only [observe] at he
    split at he
    · simp at he
    · split at he
      · simp at he
      · split at he <;> simp at he
  | detach v w =>
    simp only [observe] at he
    split at he
    · simp at he
    · split at he <;> simp at he
  | returns v r => simp [observe] at he
  | exit v r => simp [observe] at he
  | _ => cases he

/-- Every value that has been joined, a thread has ended with before. -/
def Earned (es : List (ThreadEvent τ)) : Prop :=
  ∀ pre t u r post, es = pre ++ .joined t u r :: post → .ended u r ∈ pre

omit [DecidableEq τ] in
theorem Earned.append (h : Earned es) (he : ∀ t u r, .joined t u r ∈ es' → .ended u r ∈ es) : Earned (es ++ es') := by
  intro pre t u r post heq
  rcases List.append_eq_append_iff.mp heq with ⟨as, rfl, h'⟩ | ⟨as, rfl, h'⟩
  · exact List.mem_append_left _ (he t u r (h' ▸ by simp))
  · cases as with
    | nil =>
      have := he t u r (by rw [← List.nil_append es', ← h']; simp)
      rwa [List.append_nil] at this
    | cons e as =>
      cases h'
      exact h pre t u r as rfl

theorem earned_of_path {as : List (ThreadAct τ β)} (hp : Path (Next step) Orderly s as s') (hi : Inv s)
    (ht : Told s es) (he : Earned es) : Earned (es ++ trace step observe s as) := by
  induction hp generalizing es with
  | nil => rwa [trace, List.append_nil]
  | @cons s m s' a as ho hs _ ih =>
    have hs : s.step a = some m := hs
    simp only [trace, hs]
    rw [← List.append_assoc]
    exact ih (hi.step ho hs) (ht.step hi hs) (he.append fun t u r hj => ht.joined hi hj)

/-- **`aixos_pthread_join` stores the result of the thread**: that has returned, or called `aixos_pthread_exit`, with the
value before. -/
theorem joined_results {tasks : τ → Bool} {as : List (ThreadAct τ β)}
    (hp : Path (Next step) Orderly (init tasks) as s) : Earned (trace step observe (init tasks) as) := by
  show Earned ([] ++ trace step observe (init tasks) as)
  refine earned_of_path hp (inv_init tasks) ⟨fun t b r ht => ?_, fun b u hb => ?_⟩ fun pre t u r post h => ?_
  · change (if tasks t then ThreadPlace.user else .unborn) = _ at ht
    split at ht <;> cases ht
  · cases hb
  · exact absurd h.symm (by simp)

end Threads

theorem joined_results_seven : ∃ s : Threads (Fin 3) (Fin 2),
    Path (Next Threads.step) Threads.Orderly (Threads.init fun t => t = 0) joinedAndDetached s ∧
      Threads.Earned (trace Threads.step Threads.observe (Threads.init fun t => t = 0) joinedAndDetached) ∧
      .joined 0 1 7 ∈ trace Threads.step Threads.observe (Threads.init fun t => t = 0) joinedAndDetached := by
  obtain ⟨s, hp, -⟩ := exists_path Threads.step Threads.Orderly (Threads.init fun t => t = 0) joinedAndDetached
    (fun _ => true) (by decide)
  exact ⟨s, hp, Threads.joined_results hp, by decide⟩

end Aixos.Posix
