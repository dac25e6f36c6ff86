import Aixos.Posix.ThreadLives

/-!
# Threads are reclaimed

A block is freed once, and not used afterwards, if nobody takes it over too early (`Threads.threads_sound`); and who takes
it over too early may free it under the hands of another task (`Threads.orderly_iff_sound`).
-/

namespace Aixos.Posix

open Transition Parties

namespace Threads

variable {τ β : Type} [DecidableEq τ] [DecidableEq β] {s s' x : Threads τ β} {t : τ} {b : β}

/-! ### What that means -/

/-- A task is about to free block `b`. -/
def Frees (s : Threads τ β) (t : τ) (b : β) : Prop := (s.place t).block = some b ∧ (s.place t).life.ends

/-- A block is used while it is allocated, and freed when it is done with. -/
structure Sound (s : Threads τ β) : Prop where
  /-- What a task has a pointer to is allocated. -/
  held : ∀ t b, (s.place t).block = some b ∨ s.entry t = some b → s.live b
  /-- So is what is in the list. -/
  listed : ∀ b ∈ s.threads, s.live b
  nodup : s.threads.Nodup
  /-- A semaphore that is waited for, posted or deleted exists. -/
  sem : ∀ t b, s.place t = .wait b ∨ (∃ x, s.place t = .post b x) ∨ (∃ x, s.place t = .semDelete b x) →
    (s.block b).completion.isSome
  /-- No two tasks free one block. -/
  once : ∀ t u b, s.Frees t b → s.Frees u b → t = u
  /-- A block that no function deals with can be found, and will be freed: if its thread has completed, nobody has detached
  it, and `aixos_pthread_join` need not wait. -/
  reclaimed : ∀ b, s.live b → (∀ t, (s.place t).block ≠ some b) → b ∈ s.threads ∧ (s.block b).joining = false ∧
    ((s.block b).completed → (s.block b).detached = false ∧ 0 < (s.block b).completion.getD 0)

theorem fits_live {l : LifePlace} {d : LifeFacts} (h : l.fits d) (hl : l ≠ .idle) : d.live := by
  cases l <;> simp_all [LifePlace.fits]

theorem Inv.sound (h : Inv s) : s.Sound := by
  have hlife : ∀ t b, (s.place t).block = some b → (s.place t).life ≠ .idle := by
    intro t b hb
    cases hp : s.place t <;> simp_all [ThreadPlace.block, ThreadPlace.life]
    split <;> simp
  refine ⟨fun t b hb => ?_, fun b hb => ?_, h.named.nodup, fun t b ht => ?_, fun t u b ht hu => ?_, fun b hb hn => ?_⟩
  · by_cases hp : (s.place t).block = some b
    · exact fits_live (h.fits hp) (hlife t b hp)
    · have he := hb.resolve_left hp
      have hfit : LifePlace.own.fits (s.facts b) := by
        have := (h.blocks b).fits t
        rwa [lifePlace_of_ne hp, if_pos he] at this
      exact fits_live hfit (by simp)
  · have := (h.blocks b).sane
    simp only [lives, facts, decide_eq_true hb, Bool.not_true, Bool.false_or, Bool.and_eq_true] at this
    exact this.1.1
  · have hfit : ∀ p, s.place t = p → p.block = some b → p.life.fits (s.facts b) := by
      rintro p rfl hp
      exact h.fits hp
    rcases ht with hp | ⟨x, hp⟩ | ⟨x, hp⟩
    · have := hfit _ hp rfl
      simp only [ThreadPlace.life, LifePlace.fits, facts, Bool.and_eq_true] at this
      tauto
    · have := hfit _ hp rfl
      cases x <;> simp only [ThreadPlace.life, LifePlace.fits, facts, Bool.and_eq_true, if_true, if_false,
        Bool.false_eq_true] at this <;> tauto
    · have := hfit _ hp rfl
      simp only [ThreadPlace.life, LifePlace.fits, facts, Bool.and_eq_true] at this
      tauto
  · by_contra hne
    have hc := (h.blocks b).compat t u hne
    rw [lifePlace_of_block ht.1, lifePlace_of_block hu.1] at hc
    revert hc
    have hends := ht.2
    have hends' := hu.2
    generalize (s.place t).life = l at hends
    generalize (s.place u).life = m at hends'
    revert l m
    decide
  · -- the start routine of its thread meets no duty
    have hplace : ∀ t, s.lifePlace b t = .idle ∨ s.lifePlace b t = .own := by
      intro t
      rw [lifePlace_of_ne (hn t)]
      split
      · exact .inr rfl
      · exact .inl rfl
    have hduty : ∀ n ∈ lives.duties, n.2 .idle = false → n.2 .own = false → n.1 (s.facts b) = false := by
      intro n hm hi ho
      by_contra hd
      obtain ⟨t, ht⟩ := (h.blocks b).met n hm (by simpa using hd)
      rcases hplace t with e | e <;> rw [e] at ht
      · rw [hi] at ht
        cases ht
      · rw [ho] at ht
        cases ht
    simp only [lives, List.forall_mem_cons, List.not_mem_nil, false_implies, implies_true, and_true] at hduty
    obtain ⟨h₁, h₂, h₃, h₄, -⟩ := hduty
    have h₁ := h₁ rfl rfl
    have h₂ := h₂ rfl rfl
    have h₃ := h₃ rfl rfl
    have h₄ := h₄ rfl rfl
    simp only [facts, hb, Bool.true_and, Bool.not_eq_false', decide_eq_true_eq] at h₁ h₂ h₃ h₄
    refine ⟨h₃, h₂, fun hc => ?_⟩
    simp only [hc, Bool.true_and, Bool.not_eq_false', decide_eq_true_eq] at h₁ h₄
    exact ⟨h₁, h₄⟩

/-! ### What happens otherwise -/

/-- Task `t` can go on until block `b` is freed, while the others stay where they are. -/
def CanFree (s : Threads τ β) (t : τ) (b : β) : Prop :=
  ∃ as s', Path (Next step) Orderly s as s' ∧ s'.live b = false ∧ ∀ u, u ≠ t → s'.place u = s.place u

theorem CanFree.cons {a : ThreadAct τ β} (ho : s.Orderly a) (hs : s.step a = some x)
    (hx : ∀ u, u ≠ t → x.place u = s.place u) (h : x.CanFree t b) : s.CanFree t b := by
  obtain ⟨as, s', hp, hl, hu⟩ := h
  exact ⟨a :: as, s', .cons ho hs hp, hl, fun u hne => (hu u hne).trans (hx u hne)⟩

theorem canFree_of_free {leaving : Bool} (h : s.place t = .free b leaving) : s.CanFree t b := by
  have hs : s.step (.free t) = some ({ s with live := Function.update s.live b false }.goto t (after leaving)) := by
    simp only [step, h]
  exact ⟨[.free t], _, .single (a := ThreadAct.free t) trivial hs, Function.update_self ..,
    fun u hu => goto_place_of_ne _ _ hu⟩

theorem canFree_of_semDelete {leaving : Bool} (h : s.place t = .semDelete b leaving) : s.CanFree t b :=
  .cons (a := .semDelete t) (x := (s.modify b fun c => { c with completion := none }).goto t (.free b leaving)) trivial
    (by simp only [step, h]) (fun _ hu => goto_place_of_ne _ _ hu) (canFree_of_free (goto_place_self ..))

theorem canFree_of_remove {leaving : Bool} (h : s.place t = .remove b leaving) : s.CanFree t b :=
  .cons (a := .remove t) (x := (s.unlink b).goto t (.semDelete b leaving)) trivial
    (by simp only [step, h]) (fun _ hu => goto_place_of_ne _ _ hu) (canFree_of_semDelete (goto_place_self ..))

theorem canFree_of_joined (h : s.place t = .joined b) : s.CanFree t b :=
  .cons (a := .joined t) (x := s.goto t (.remove b false)) trivial (by simp only [step, h])
    (fun _ hu => goto_place_of_ne _ _ hu) (canFree_of_remove (goto_place_self ..))

theorem canFree_of_post (h : s.place t = .post b true) : s.CanFree t b :=
  .cons (a := .post t) (x := (s.modify b fun c => { c with completion := c.completion.map (· + 1) }).goto t
    (.remove b true)) trivial (by simp only [step, h, if_true]) (fun _ hu => goto_place_of_ne _ _ hu)
    (canFree_of_remove (goto_place_self ..))

/-- A step out of order frees nothing yet. -/
theorem live_of_disorder {a : ThreadAct τ β} (hs : s.step a = some s') (hn : ¬ s.Orderly a) : s'.live = s.live := by
  cases a with
  | waitOk | detach | complete =>
    simp only [step] at hs
    repeat' split at hs
    all_goals cases hs <;> rfl
  | _ => exact absurd trivial hn

/-- Who makes a step out of order can go on until it has freed a block that another task has a pointer to, and had
before. -/
theorem canFree_of_disorder {a : ThreadAct τ β} (hs : s.step a = some s') (hn : ¬ s.Orderly a) :
    ∃ t b v, v ≠ t ∧ s'.CanFree t b ∧ (s'.place v).block = some b ∧ (s.place v).block = some b := by
  cases a with
  | waitOk t =>
    obtain ⟨b, hn⟩ := not_forall.mp hn
    obtain ⟨ht, hn⟩ := Classical.not_imp.mp hn
    obtain ⟨v, hv⟩ := not_forall.mp hn
    rw [not_not] at hv
    have hvt : v ≠ t := by
      rintro rfl
      rw [ht] at hv
      cases hv
    simp only [step, ht] at hs
    split at hs
    · cases hs
      refine ⟨t, b, v, hvt, canFree_of_joined (goto_place_self ..), ?_⟩
      rw [goto_place_of_ne _ _ hvt]
      exact ⟨hv ▸ rfl, hv ▸ rfl⟩
    · cases hs
  | detach t u =>
    obtain ⟨b, hn⟩ := not_forall.mp hn
    obtain ⟨hf, hn⟩ := Classical.not_imp.mp hn
    obtain ⟨⟨hcompleted, hfree⟩, hn⟩ := Classical.not_imp.mp hn
    obtain ⟨v, hv⟩ := not_forall.mp hn
    have hvb : (s.place v).block = some b := by
      rcases not_and_or.mp hv with hv | hv <;> rw [not_not] at hv <;> rw [hv] <;> rfl
    simp only [step, hf, hcompleted, if_true, if_neg hfree] at hs
    split at hs
    · rename_i ht
      have hvt : v ≠ t := by
        rintro rfl
        rw [ht] at hvb
        cases hvb
      cases hs
      refine ⟨t, b, v, hvt, canFree_of_semDelete (goto_place_self ..), ?_⟩
      rw [goto_place_of_ne _ _ hvt]
      exact ⟨hvb, hvb⟩
    · cases hs
  | complete t =>
    obtain ⟨b, hn⟩ := not_forall.mp hn
    obtain ⟨hb, hn⟩ := Classical.not_imp.mp hn
    obtain ⟨hd, hn⟩ := Classical.not_imp.mp hn
    obtain ⟨v, hv⟩ := not_forall.mp hn
    have hvb : (s.place v).block = some b ∧ ∀ c r, s.place v ≠ .completing c r := by
      rcases not_and_or.mp hv with hv | hv <;> rw [not_not] at hv <;> rw [hv] <;> exact ⟨rfl, by simp⟩
    simp only [step] at hs
    split at hs
    · rename_i c r ht
      rw [ht] at hb
      cases hb
      have hvt : v ≠ t := by
        rintro rfl
        exact hvb.2 _ _ ht
      cases hs
      refine ⟨t, b, v, hvt, canFree_of_post (by rw [goto_place_self, hd]), ?_⟩
      rw [goto_place_of_ne _ _ hvt]
      exact ⟨hvb.1, hvb.1⟩
    · cases hs
  | _ => exact absurd trivial hn

/-- **Threads are reclaimed, once and in time**, if nobody frees a block while `aixos_pthread_create` has not returned, nor
while its thread has not posted. -/
theorem threads_sound {tasks : τ → Bool} {as : List (ThreadAct τ β)}
    (hp : Path (Next step) Orderly (init tasks) as s) : s.Sound :=
  (hp.invariant (fun _ _ _ hI hc hs => hI.step hc hs) (inv_init tasks)).sound

/-- **And only then**: in every state that is reached in order, a step is in order if and only if whatever follows it in
order is sound; and one that is not can be followed by steps of one task that free a block which another task still has
a pointer to. -/
theorem orderly_iff_sound {tasks : τ → Bool} {as : List (ThreadAct τ β)} {a : ThreadAct τ β}
    (hp : Path (Next step) Orderly (init tasks) as s) (hs : s.step a = some s') :
    (s.Orderly a ↔ ∀ bs s'', Path (Next step) Orderly s' bs s'' → s''.Sound) ∧
      (¬ s.Orderly a → ∃ t b v, v ≠ t ∧ s'.live b ∧ s'.CanFree t b ∧ (s'.place v).block = some b) := by
  have hinv := hp.invariant (fun _ _ _ hI hc hs => hI.step hc hs) (inv_init tasks)
  refine ⟨⟨fun ho bs s'' hp' => ?_, fun hsound => ?_⟩, fun hn => ?_⟩
  · exact (hp'.invariant (fun _ _ _ hI hc hs => hI.step hc hs) (hinv.step ho hs)).sound
  · by_contra hn
    obtain ⟨t, b, v, hvt, ⟨bs, s'', hp', hfreed, hstays⟩, hv, -⟩ := canFree_of_disorder hs hn
    have hlive := (hsound bs s'' hp').held v b (.inl ((hstays v hvt).symm ▸ hv))
    rw [hfreed] at hlive
    cases hlive
  · obtain ⟨t, b, v, hvt, hfree, hv, hv₀⟩ := canFree_of_disorder hs hn
    refine ⟨t, b, v, hvt, ?_, hfree, hv⟩
    rw [live_of_disorder hs hn]
    exact hinv.sound.held v b (.inl hv₀)

end Threads

/-- A thread is created and joined, another is created detached and completes. -/
def joinedAndDetached : List (ThreadAct (Fin 3) (Fin 2)) :=
  [.create 0 0 false, .semCreate 0 true, .taskCreate 0 (some 1), .link 0, .output 0, .create 0 1 true,
   .semCreate 0 true, .taskCreate 0 (some 2), .link 0, .output 0, .join 0 1, .returns 1 7, .exit 2 8, .complete 1,
   .complete 2, .post 2, .post 1, .waitOk 0, .remove 2, .joined 0, .semDelete 2, .remove 0, .free 2, .semDelete 0,
   .free 0]

theorem threads_sound_once : ∃ s : Threads (Fin 3) (Fin 2),
    Path (Next Threads.step) Threads.Orderly (Threads.init fun t => t = 0) joinedAndDetached s ∧ s.Sound ∧
      s.live 0 = false ∧ s.live 1 = false := by
  obtain ⟨s, hp, h⟩ := exists_path Threads.step Threads.Orderly (Threads.init fun t => t = 0) joinedAndDetached
    (fun s => decide (s.live 0 = false ∧ s.live 1 = false)) (by decide)
  exact ⟨s, hp, Threads.threads_sound hp, of_decide_eq_true h⟩

/-- A detached thread returns before its block is in the list. -/
def earlyReturn : List (ThreadAct (Fin 2) (Fin 1)) :=
  [.create 0 0 true, .semCreate 0 true, .taskCreate 0 (some 1), .returns 1 7]

theorem orderly_iff_sound_early : ∃ s s' : Threads (Fin 2) (Fin 1),
    Path (Next Threads.step) Threads.Orderly (Threads.init fun t => t = 0) earlyReturn s ∧
      s.step (.complete 1) = some s' ∧
      (¬ ∀ bs s'', Path (Next Threads.step) Threads.Orderly s' bs s'' → s''.Sound) ∧
      ∃ t b v, v ≠ t ∧ s'.live b ∧ s'.CanFree t b ∧ (s'.place v).block = some b := by
  obtain ⟨s, hp, h⟩ := exists_path Threads.step Threads.Orderly (Threads.init fun t => t = 0) earlyReturn
    (fun s => (s.step (.complete 1)).isSome && !decide (s.Orderly (.complete 1))) (by decide)
  rw [Bool.and_eq_true, Bool.not_eq_true'] at h
  obtain ⟨s', hs⟩ := Option.isSome_iff_exists.mp h.1
  obtain ⟨hiff, hfree⟩ := Threads.orderly_iff_sound hp hs
  have hn : ¬ s.Orderly (.complete 1) := of_decide_eq_false h.2
  exact ⟨s, s', hp, hs, fun hsound => hn (hiff.mpr hsound), hfree hn⟩

end Aixos.Posix
