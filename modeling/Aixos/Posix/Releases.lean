import Aixos.Posix.Barriers

/-!
# Whom a barrier releases

* `releases_of_path` — when a generation is complete the threads that have waited for it find
  their tokens, and one thread for each generation is told that it has completed it; as long as
  no thread of the open generation takes a token that is meant for one of them.
-/

open Transition TokenRoom Census

namespace Aixos.Posix

/-- The generation that a thread at this place has completed, and has not told about. -/
def BarrierPlace.completes (c : BarrierPlace) : Option ℕ :=
  match c with
  | .released g | .serial g _ => some g
  | .entry | .locked | .arrive | .arrived _ | .loop _ | .waited _ | .failed _ | .leave => none

/-- What a thread returns. -/
def Outcome.returned {κ γ : Type} (n : Outcome κ γ) : Option Errno :=
  match n with
  | .done r => some r
  | .goto _ | .call .. => none

/-- The generation that a thread has completed. -/
def Place.completes (p : Place Unit BarrierPlace) : Option ℕ := p.after.bind BarrierPlace.completes

namespace Monitor

/-- It waits for a generation that is complete. -/
def behind (s : BarrierState) (t : Thread) : Bool := decide (∃ g ∈ (s.place t).generation, g ≠ s.data.generation)

/-- How many threads have completed the generation, and have not returned. -/
def completing (g : ℕ) (s : BarrierState) : ℕ := census (fun p => decide (p.completes = some g)) s.place

/-- Who compares its generation with the open one does not take another for its own. -/
def NotLapped (s : BarrierState) (a : Action Unit) : Prop :=
  ∀ t ∈ a.runner, ∀ g r, s.place t = .program (.loop g) r → s.data.Current g → g = s.data.generation

/-- Who takes a token leaves enough of them for those that are behind, unless it is one of them. -/
def LeavesTokens (s : BarrierState) (a : Action Unit) : Prop :=
  ∀ t ∈ a.runner, (s.room ()).stage t = .ready → (s.room ()).tokens ≠ 0 → s.behind t = false →
    (s.room ()).coming s.behind < (s.room ()).tokens

/-- Who broadcasts finds room in the semaphore. -/
def FindsRoom (s : BarrierState) (a : Action Unit) : Prop :=
  ∀ t ∈ a.runner, ∀ c, s.place t = .broadcast () c → (s.room ()).tokens + (s.room ()).waiters ≤ semMaxCount

/-- What is asked of every step. -/
def Fair (s : BarrierState) (a : Action Unit) : Prop := NotLapped s a ∧ LeavesTokens s a ∧ FindsRoom s a

/-- `AIXOS_PTHREAD_BARRIER_SERIAL_THREAD` is returned: the generation that the thread has completed. -/
def serialReturns (s : BarrierState) (a : Action Unit) : List (Option ℕ) :=
  match a with
  | .run t _ =>
    match s.place t with
    | .program c r => if (barrierWait c t r s.data).2.returned = some serialThread then [c.completes] else []
    | _ => []
  | .call .. | .expire _ | .suspend _ | .resume _ => []

/-- A broadcast is under way. -/
def Broadcasting (s : BarrierState) : Prop := ∃ t c, s.place t = .broadcast () c

/-- A thread does not stay blocked. -/
structure Released (s : BarrierState) (t : Thread) : Prop where
  /-- It does not wait at the semaphore. -/
  awake : (s.place t).awaits () = true → s.Broadcasting
  /-- If it comes there, it finds a token. -/
  token : ((s.room ()).stage t).coming = true → s.Broadcasting ∨ (s.room ()).coming s.behind ≤ (s.room ()).tokens
  /-- If it waits for the mutex, the owner does not wait. -/
  mutex : (s.place t).awaitsMutex = true → ∃ u, s.Owns u ∧ (s.place u).awaitsMutex = false ∧
    (s.place u).awaits () = false ∧ ∀ r, s.place u ≠ .idle r

end Monitor

/-- What a thread at this place has been told. -/
structure Place.Truthful (p : Place Unit BarrierPlace) : Prop where
  program : ∀ c r, p = .program c r → r ≠ serialThread
  released : ∀ g, p.after = some (.released g) → p = .broadcast () (.released g) ∨ p = .program (.released g) 0
  serial : ∀ g result, p.after = some (.serial g result) → result = 0
  failed : ∀ result, p.after = some (.failed result) → result ≠ serialThread

/-- A function is called, after which the thread knows no more than before. -/
theorem Place.truthful_call {f : Call Unit} {c : BarrierPlace} {r : Errno}
    (hr : ∀ g, c = .released g → f = .broadcast ()) (hs : ∀ g result, c = .serial g result → result = 0)
    (hf : ∀ result, c = .failed result → result ≠ serialThread) : ((Outcome.call f c).place r).Truthful := by
  have hafter : ((Outcome.call f c).place r).after = some c := Outcome.after_place (.call f c) r
  refine ⟨fun c' r' h => ?_, fun g h => ?_, fun g result h => ?_, fun result h => ?_⟩
  · cases f <;> cases h
  · rw [hafter] at h
    have hc := Option.some.inj h
    rw [hr g hc, hc]
    exact .inl rfl
  · rw [hafter] at h
    exact hs g result (Option.some.inj h)
  · rw [hafter] at h
    exact hf result (Option.some.inj h)

theorem Place.truthful_goto {c : BarrierPlace} {r : Errno} (h : r ≠ serialThread) (hr : ∀ g, c ≠ .released g)
    (hs : ∀ g result, c ≠ .serial g result) (hf : ∀ result, c ≠ .failed result) :
    (Place.program c r : Place Unit BarrierPlace).Truthful := by
  refine ⟨fun c' r' h' => ?_, fun g h' => ?_, fun g result h' => ?_, fun result h' => ?_⟩
  · cases h'
    exact h
  · exact absurd (Option.some.inj h') (hr g)
  · exact absurd (Option.some.inj h') (hs g result)
  · exact absurd (Option.some.inj h') (hf result)

theorem Place.truthful_idle (r : Errno) : (Place.idle r : Place Unit BarrierPlace).Truthful := ⟨nofun, nofun, nofun, nofun⟩

/-- A step of the barrier. -/
theorem truthful_next {c : BarrierPlace} {t : Thread} {r : Errno} {b : Barrier}
    (h : (Place.program c r : Place Unit BarrierPlace).Truthful) : ((barrierWait c t r b).2.place r).Truthful := by
  have hr := h.program c r rfl
  cases c with
  | entry =>
    simp only [barrierWait]
    split
    · exact Place.truthful_idle _
    · exact Place.truthful_call (by rintro _ ⟨⟩) (by rintro _ _ ⟨⟩) (by rintro _ ⟨⟩)
  | locked =>
    simp only [barrierWait]
    split
    · exact Place.truthful_idle _
    · exact Place.truthful_goto hr (by rintro _ ⟨⟩) (by rintro _ _ ⟨⟩) (by rintro _ ⟨⟩)
  | arrive => exact Place.truthful_goto hr (by rintro _ ⟨⟩) (by rintro _ _ ⟨⟩) (by rintro _ ⟨⟩)
  | arrived g =>
    simp only [barrierWait]
    split
    · exact Place.truthful_call (fun _ _ => rfl) (by rintro _ _ ⟨⟩) (by rintro _ ⟨⟩)
    · exact Place.truthful_goto hr (by rintro _ ⟨⟩) (by rintro _ _ ⟨⟩) (by rintro _ ⟨⟩)
  | released g =>
    refine Place.truthful_call (by rintro _ ⟨⟩) (fun g' result hc => ?_) (by rintro _ ⟨⟩)
    cases hc
    rcases h.released g rfl with hp | hp
    · cases hp
    · cases hp
      rfl
  | serial g result => exact Place.truthful_idle _
  | loop g =>
    simp only [barrierWait]
    split <;> exact Place.truthful_call (by simp) (by rintro _ _ ⟨⟩) (by simp)
  | waited g =>
    simp only [barrierWait]
    split
    · refine Place.truthful_call (by rintro _ ⟨⟩) (by rintro _ _ ⟨⟩) fun result hc => ?_
      cases hc
      exact hr
    · exact Place.truthful_goto hr (by rintro _ ⟨⟩) (by rintro _ _ ⟨⟩) (by rintro _ ⟨⟩)
  | failed result => exact Place.truthful_idle _
  | leave => exact Place.truthful_idle _

namespace Monitor

variable {s s' : BarrierState} {a : Action Unit} {as : List (Action Unit)} {t : Thread} {n : Word} {es : List (Option ℕ)}

/-- Inside the functions nobody learns anything wrong. -/
theorem truthful_aside (hg : s.Guarded barrierMutex) (hr : FindsRoom s a) (hs : step barrier s a = some s') (ha : Aside s s')
    (h : (s.place t).Truthful) : (s'.place t).Truthful := by
  refine ⟨fun c r hp => ?_, fun g hp => ?_, fun g result hp => ?_, fun result hp => ?_⟩
  · rcases returned_step hg hs ha hp with h' | h'
    · exact h.program c r h'
    · exact h'
  · rcases h.released g ((ha.after t).symm.trans hp) with hb | hb
    · by_cases ht : t ∈ a.runner
      · cases a with
        | run u env =>
          cases ht
          simp only [step] at hs
          split at hs
          case isTrue => cases hs
          case isFalse => exact .inr (broadcast_ok hb (hr t rfl _ hb) hs)
        | _ => cases ht
      · exact .inl ((place_step hs ht (by rw [hb]; rfl)).trans hb)
    · exact .inr (ha.program t _ _ hb)
  · exact h.serial g result ((ha.after t).symm.trans hp)
  · exact h.failed result ((ha.after t).symm.trans hp)

/-- What every step keeps; `es` are the generations that the threads have been told to have completed. -/
structure Releases (s : BarrierState) (es : List (Option ℕ)) : Prop extends Ordered s where
  held : s.Held
  sound : Sound semMaxCount 0 (s.room ())
  truthful : ∀ t, (s.place t).Truthful
  enters : ∀ t, (s.place t).enters = true → s.behind t = false
  provided : s.Broadcasting ∨ Provided s.behind (s.room ())
  told : ∀ g, es.count (some g) + s.completing g = if g < s.data.generation then 1 else 0
  honest : none ∉ es

theorem behind_congr {u : Thread} (h : (s'.place u).after = (s.place u).after)
    (hd : s'.data.generation = s.data.generation) : s'.behind u = s.behind u := by
  rw [behind, behind, Place.generation, Place.generation, h, hd]

/-- Only who has arrived last opens another generation. -/
theorem generation_advance {c : BarrierPlace} {r : Errno} {b : Barrier} :
    (barrierWait c t r b).1.generation = b.generation ∨ ∃ g, c = .arrived g ∧ b.count = b.threshold := by
  cases c with
  | arrived g =>
    by_cases hc : b.count = b.threshold
    · exact .inr ⟨g, rfl, hc⟩
    · exact .inl (by simp [barrierWait, hc])
  | _ => exact .inl rfl

/-- A step of the barrier begins to wait only in the loop. -/
theorem enters_next {c : BarrierPlace} {r : Errno} {b : Barrier} (h : ((barrierWait c t r b).2.place r).enters = true) :
    ∃ g, c = .loop g ∧ b.Current g ∧ (barrierWait c t r b).2.after = some (.waited g) := by
  cases c with
  | loop g =>
    by_cases hc : b.Current g
    · exact ⟨g, rfl, hc, by simp [barrierWait, hc, Outcome.after]⟩
    · simp [barrierWait, hc, Outcome.place, Call.place, Place.enters] at h
  | released g | serial g result | failed result | leave | arrive => simp [barrierWait, Outcome.place, Call.place, Place.enters] at h
  | entry | locked | arrived g | waited g =>
    simp only [barrierWait] at h
    split at h <;> simp [Outcome.place, Call.place, Place.enters] at h

/-- What a step of the program does to the number of those who have completed a generation. -/
theorem completing_advance {c : BarrierPlace} {r : Errno} (g : ℕ) (hp : s.place t = .program c r) :
    (s.advance barrier t c r).completing g + (decide (c.completes = some g)).toNat =
      s.completing g + (decide ((barrierWait c t r s.data).2.after.bind BarrierPlace.completes = some g)).toNat := by
  have h := census_update (fun p : Place Unit BarrierPlace => decide (p.completes = some g)) s.place t
    ((barrierWait c t r s.data).2.place r)
  have hafter : ((barrierWait c t r s.data).2.place r).completes =
      (barrierWait c t r s.data).2.after.bind BarrierPlace.completes := by
    rw [Place.completes, Outcome.after_place]
  rw [hp, hafter] at h
  exact h

/-- What the step of a thread in the program tells. -/
theorem serialReturns_run {env : Env} {c : BarrierPlace} {r : Errno} (hp : s.place t = .program c r) :
    serialReturns s (.run t env) =
      if (barrierWait c t r s.data).2.returned = some serialThread then [c.completes] else [] := by
  simp only [serialReturns, hp]

/-- A step that completes no generation, and tells of none. -/
theorem Releases.told_same {c : BarrierPlace} {r : Errno} (h : s.Releases es) (hp : s.place t = .program c r)
    (hgen : (barrierWait c t r s.data).1.generation = s.data.generation)
    (hc : (barrierWait c t r s.data).2.after.bind BarrierPlace.completes = c.completes) (g : ℕ) :
    es.count (some g) + (s.advance barrier t c r).completing g =
      if g < (s.advance barrier t c r).data.generation then 1 else 0 := by
  have hdata : (s.advance barrier t c r).data.generation = s.data.generation := hgen
  have hstep := completing_advance g hp
  have := h.told g
  rw [hc] at hstep
  rw [hdata]
  omega

/-- Each generation is told once. -/
theorem Releases.told_advance {c : BarrierPlace} {r : Errno} (h : s.Releases es) (env : Env)
    (hp : s.place t = .program c r) :
    (∀ g, (es ++ serialReturns s (.run t env)).count (some g) + (s.advance barrier t c r).completing g =
      if g < (s.advance barrier t c r).data.generation then 1 else 0) ∧ none ∉ es ++ serialReturns s (.run t env) := by
  have htrue := h.truthful t
  rw [hp] at htrue
  have hr := htrue.program c r rfl
  rw [serialReturns_run hp]
  cases c with
  | entry =>
    have hn : (barrierWait .entry t r s.data).2.returned ≠ some serialThread := by
      simp only [barrierWait]
      split <;> simp [Outcome.returned, serialThread, Errno.inval]
    rw [if_neg hn, List.append_nil]
    refine ⟨h.told_same hp rfl ?_, h.honest⟩
    simp only [barrierWait]
    split <;> rfl
  | locked =>
    have hn : (barrierWait .locked t r s.data).2.returned ≠ some serialThread := by
      simp only [barrierWait]
      split <;> simp [Outcome.returned, hr]
    rw [if_neg hn, List.append_nil]
    refine ⟨h.told_same hp rfl ?_, h.honest⟩
    simp only [barrierWait]
    split <;> rfl
  | arrive =>
    rw [if_neg (by rintro ⟨⟩), List.append_nil]
    exact ⟨h.told_same hp rfl rfl, h.honest⟩
  | arrived g₀ =>
    obtain ⟨rfl, -⟩ := h.arrived t g₀ (by rw [hp]; rfl)
    by_cases hc : s.data.count = s.data.threshold
    · rw [if_neg (by rw [barrierWait_complete hc]; rintro ⟨⟩), List.append_nil]
      refine ⟨fun g => ?_, h.honest⟩
      have hdata : (s.advance barrier t (.arrived s.data.generation) r).data.generation = s.data.generation + 1 :=
        congrArg (fun x => x.1.generation) (barrierWait_complete hc)
      have hstep := completing_advance g hp
      rw [barrierWait_complete hc] at hstep
      simp only [Outcome.after, Option.bind_some, BarrierPlace.completes, Option.some.injEq] at hstep
      have htold := h.told g
      rw [hdata]
      by_cases hg : s.data.generation = g
      · subst hg
        simp at hstep htold ⊢
        omega
      · have hiff : g < s.data.generation + 1 ↔ g < s.data.generation := by omega
        simp [hg] at hstep
        simp only [hiff]
        omega
    · have hb : barrierWait (.arrived s.data.generation) t r s.data = (s.data, .goto (.loop s.data.generation)) := by
        simp [barrierWait, hc]
      rw [if_neg (by rw [hb]; rintro ⟨⟩), List.append_nil]
      exact ⟨h.told_same hp (by rw [hb]) (by rw [hb]; rfl), h.honest⟩
  | released g₀ =>
    rw [if_neg (by rintro ⟨⟩), List.append_nil]
    exact ⟨h.told_same hp rfl rfl, h.honest⟩
  | serial g₀ result =>
    obtain rfl := htrue.serial g₀ result rfl
    have hret : (barrierWait (.serial g₀ 0) t r s.data).2.returned = some serialThread := rfl
    rw [if_pos hret]
    refine ⟨fun g => ?_, by simpa [BarrierPlace.completes] using h.honest⟩
    have hstep := completing_advance g hp
    simp only [barrierWait, Outcome.after, Option.bind_none, BarrierPlace.completes, Option.some.injEq] at hstep
    have htold := h.told g
    have hdata : (s.advance barrier t (.serial g₀ 0) r).data.generation = s.data.generation := rfl
    rw [hdata, List.count_append, BarrierPlace.completes]
    by_cases hg : g₀ = g
    · subst hg
      simp at hstep ⊢
      omega
    · simp [hg] at hstep ⊢
      omega
  | loop g₀ =>
    have hn : (barrierWait (.loop g₀) t r s.data).2.returned ≠ some serialThread := by
      simp only [barrierWait]
      split <;> rintro ⟨⟩
    rw [if_neg hn, List.append_nil]
    refine ⟨h.told_same hp rfl ?_, h.honest⟩
    simp only [barrierWait]
    split <;> rfl
  | waited g₀ =>
    have hn : (barrierWait (.waited g₀) t r s.data).2.returned ≠ some serialThread := by
      simp only [barrierWait]
      split <;> rintro ⟨⟩
    rw [if_neg hn, List.append_nil]
    refine ⟨h.told_same hp rfl ?_, h.honest⟩
    simp only [barrierWait]
    split <;> rfl
  | failed result =>
    have hn : (barrierWait (.failed result) t r s.data).2.returned ≠ some serialThread := by
      simp [barrierWait, Outcome.returned, htrue.failed result rfl]
    rw [if_neg hn, List.append_nil]
    exact ⟨h.told_same hp rfl rfl, h.honest⟩
  | leave =>
    have hn : (barrierWait .leave t r s.data).2.returned ≠ some serialThread := by
      simp [barrierWait, Outcome.returned, hr]
    rw [if_neg hn, List.append_nil]
    exact ⟨h.told_same hp rfl rfl, h.honest⟩

/-- A step of the program leaves nobody behind without a token. -/
theorem Releases.provided_advance {c : BarrierPlace} {r : Errno} (h : s.Releases es) (hp : s.place t = .program c r) :
    (s.advance barrier t c r).Broadcasting ∨
      Provided (s.advance barrier t c r).behind ((s.advance barrier t c r).room ()) := by
  rcases generation_advance (c := c) (t := t) (r := r) (b := s.data) with hd | ⟨g, rfl, hc⟩
  · rcases h.provided with ⟨v, c', hv⟩ | hprov
    · refine .inl ⟨v, c', ?_⟩
      rw [place_advance (by rintro rfl; rw [hv] at hp; cases hp)]
      exact hv
    · refine .inr ?_
      rw [room_advance hp]
      refine hprov.congr fun u hu ho => ?_
      have hut : u ≠ t := by
        rintro rfl
        exact ho (stage_of hp rfl)
      rwa [behind_congr (by rw [place_advance hut]) hd] at hu
  · obtain ⟨rfl, -⟩ := h.arrived t g (by rw [hp]; rfl)
    refine .inl ⟨t, .released s.data.generation, ?_⟩
    have hn : (barrier.next (.arrived s.data.generation) t r s.data).2 =
        .call (.broadcast ()) (.released s.data.generation) := congrArg Prod.snd (barrierWait_complete (t := t) (r := r) hc)
    rw [advance, place_goto_self, hn]
    rfl

/-- Who comes to wait has arrived in the open generation. -/
theorem Releases.enters_advance {c : BarrierPlace} {r : Errno} (h : s.Releases es) (hp : s.place t = .program c r)
    (hlap : ∀ g, c = .loop g → s.data.Current g → g = s.data.generation) (u : Thread)
    (hu : ((s.advance barrier t c r).place u).enters = true) : (s.advance barrier t c r).behind u = false := by
  by_cases hut : u = t
  · subst hut
    rw [advance, place_goto_self] at hu
    obtain ⟨g, rfl, hcur, hafter⟩ := enters_next hu
    obtain rfl := hlap g rfl hcur
    have hgen : ((s.advance barrier u (.loop s.data.generation) r).place u).generation = some s.data.generation := by
      rw [Place.generation, after_advance, if_pos rfl, hafter]
      rfl
    have hdata : (s.advance barrier u (.loop s.data.generation) r).data = s.data := rfl
    simp [behind, hgen, hdata]
  · rw [place_advance hut] at hu
    rcases generation_advance (c := c) (t := t) (r := r) (b := s.data) with hd | ⟨g, rfl, hc⟩
    · rw [behind_congr (by rw [place_advance hut]) hd]
      exact h.enters u hu
    · -- it owns the mutex, as does the thread that completes the generation
      exact absurd ((owns_of_enters h.guarded hu).eq (owns_of_guarded h.guarded hp rfl)) hut

/-- Inside the functions, who is behind finds a token. -/
theorem Releases.provided_aside (h : s.Releases es) (hf : LeavesTokens s a) (hs : step barrier s a = some s')
    (ha : Aside s s') : s'.Broadcasting ∨ Provided s'.behind (s'.room ()) := by
  have hbehind : s'.behind = s.behind := funext fun u => behind_congr (ha.after u) (by rw [ha.data])
  rw [hbehind]
  rcases h.provided with ⟨v, c, hv⟩ | hprov
  · by_cases hr : v ∈ a.runner
    · cases a with
      | run u env =>
        cases hr
        simp only [step] at hs
        split at hs
        case isTrue => cases hs
        case isFalse => exact .inr (.start card_le_semMaxCount h.sound (exec_broadcast hv hs).2 s.behind)
      | _ => cases hr
    · exact .inl ⟨v, c, (place_step hs hr (by rw [hv]; rfl)).trans hv⟩
  · have hm := room_step hs ()
    refine .inr (hprov.move (fun ho he => h.enters _ ?_) (fun hi ho hk hb => ?_) hm.move)
    · have hb := hm.begins ho he
      cases hp : s.place a.thread with
      | wait k timeout c => rfl
      | _ => simp [hp, Place.begins] at hb
    · exact hf _ (runner_of_out hs (by rw [hi]; rintro ⟨⟩) ho) hi hk hb

/-- Inside the functions nothing is returned. -/
theorem serialReturns_aside (hn : ∀ t ∈ a.runner, ∀ c r, s.place t ≠ .program c r) : serialReturns s a = [] := by
  cases a with
  | run t env =>
    simp only [serialReturns]
    split
    case h_1 c r hp => exact absurd hp (hn t rfl c r)
    case h_2 => rfl
  | _ => rfl

theorem Releases.step (h : s.Releases es) (hf : Fair s a) (hs : step barrier s a = some s') :
    s'.Releases (es ++ serialReturns s a) := by
  obtain ⟨hlap, htok, hroom⟩ := hf
  have ho := h.toOrdered.step hs
  have hheld := held_step h.held hs
  have hsound : Sound semMaxCount 0 (s'.room ()) :=
    sound_step h.sound (fun u _ hr => absurd hr (not_refused h.guarded)) hs
  rcases step_cases hs with ⟨t, env, c, r, rfl, hp, rfl⟩ | ⟨t, op, r, rfl, hp, rfl⟩ | ⟨ha, hn⟩
  · obtain ⟨htold, hhonest⟩ := h.told_advance env hp
    refine ⟨ho, hheld, hsound, fun u => ?_, h.enters_advance hp fun g hc => ?_, h.provided_advance hp, htold, hhonest⟩
    · by_cases hu : u = t
      · subst hu
        rw [advance, place_goto_self]
        have htrue := h.truthful u
        rw [hp] at htrue
        exact truthful_next (t := u) htrue
      · rw [place_advance hu]
        exact h.truthful u
    · exact hlap t rfl g r (by rw [hp, hc])
  · have hbehind : (s.goto t (.program (barrier.start op) 0)).behind = s.behind := by
      funext u
      rw [behind, behind, generation_call hp]
      rfl
    have hplace : ∀ u, u ≠ t → (s.goto t (.program (barrier.start op) 0)).place u = s.place u :=
      fun u hu => Function.update_of_ne hu _ _
    have hreturns : serialReturns s (.call t op) = [] := rfl
    rw [hreturns, List.append_nil]
    refine ⟨ho, hheld, hsound, fun u => ?_, fun u hu => ?_, ?_, fun g => ?_, h.honest⟩
    · by_cases hu : u = t
      · subst hu
        rw [place_goto_self]
        exact Place.truthful_goto (by decide) (by rintro _ ⟨⟩) (by rintro _ _ ⟨⟩) (by rintro _ ⟨⟩)
      · rw [hplace u hu]
        exact h.truthful u
    · rw [hbehind]
      by_cases hut : u = t
      · subst hut
        rw [place_goto_self] at hu
        cases hu
      · rw [hplace u hut] at hu
        exact h.enters u hu
    · rw [hbehind, room_goto_of_eq (by rw [hp]; rfl)]
      refine h.provided.imp (Exists.imp fun v => Exists.imp fun c hv => ?_) id
      rw [hplace v (by rintro rfl; rw [hv] at hp; cases hp)]
      exact hv
    · have hcomp : (s.goto t (.program (barrier.start op) 0)).completing g = s.completing g := by
        refine census_congr fun u => ?_
        by_cases hu : u = t
        · subst hu
          rw [place_goto_self, hp]
          rfl
        · rw [hplace u hu]
      rw [hcomp]
      exact h.told g
  · rw [serialReturns_aside hn, List.append_nil]
    refine ⟨ho, hheld, hsound, fun u => truthful_aside h.guarded hroom hs ha (h.truthful u), fun u hu => ?_,
      h.provided_aside htok hs ha, fun g => ?_, h.honest⟩
    · rw [behind_congr (ha.after u) (by rw [ha.data])]
      exact h.enters u (enters_step hs hn hu)
    · have hcomp : s'.completing g = s.completing g :=
        census_congr fun u => by rw [Place.completes, Place.completes, ha.after u]
      rw [hcomp, ha.data]
      exact h.told g

theorem releases_init : (init .normal (Barrier.init n) : BarrierState).Releases [] := by
  refine ⟨ordered_init, held_init .normal _, sound_init, fun _ => Place.truthful_idle 0, nofun, .inr ⟨fun _ _ => nofun, ?_⟩,
    fun g => ?_, nofun⟩
  · exact (census_eq_zero_iff.mpr fun _ => by simp [behind, init, Place.generation, Place.after]).le
  · have : (init .normal (Barrier.init n) : BarrierState).completing g = 0 := census_eq_zero_iff.mpr fun _ => rfl
    rw [this]
    rfl

/-- **Every complete generation is released**: while no thread takes a token that is meant for one that is behind, a
thread whose generation is complete is woken, or finds a token, or waits for an owner of the mutex that goes on; and
each complete generation has been told to one thread, or there is one thread that is about to be told. -/
theorem releases_of_path (hp : Path (Next (step barrier)) Fair (init .normal (Barrier.init n)) as s) :
    (∀ t, s.behind t = true → s.Released t) ∧
      (∀ g, (trace (step barrier) serialReturns (init .normal (Barrier.init n)) as).count (some g) + s.completing g =
        if g < s.data.generation then 1 else 0) ∧
      none ∉ trace (step barrier) serialReturns (init .normal (Barrier.init n)) as := by
  have h : s.Releases ([] ++ trace (step barrier) serialReturns (init .normal (Barrier.init n)) as) :=
    hp.traced (fun _ _ _ _ h hc hs => h.step hc hs) releases_init
  rw [List.nil_append] at h
  refine ⟨fun t ht => ⟨fun hb => ?_, fun hc => h.provided.imp id Provided.tokens, fun hb => ?_⟩, h.told, h.honest⟩
  · rcases h.provided with hbc | hprov
    · exact hbc
    · exact absurd (Place.awaits_iff.mp hb) (hprov.awake t ht)
  · obtain ⟨u, hown, hm, hst, hidle⟩ := h.guarded.released h.held hb
    refine ⟨u, hown, hm, ?_, hidle⟩
    exact Bool.eq_false_of_not_eq_true fun ha => hst () (Place.awaits_iff.mp ha)

end Monitor

end Aixos.Posix

namespace Aixos.Posix.Monitor

open Transition

/-- Thread 0 comes to wait. Thread 1 completes the generation, returns, comes again and takes the token. -/
def comeAgain : List (Action Unit) :=
  [.call 0 ()] ++ onward 0 11 ++ [.call 1 ()] ++ onward 1 12 ++ [.call 1 ()] ++ onward 1 21 ++ onward 0 1

/-- Thread 0 comes to wait. Thread 1 completes the generation, and both return. -/
def comeOnce : List (Action Unit) := [.call 0 ()] ++ onward 0 11 ++ [.call 1 ()] ++ onward 1 12 ++ onward 0 9

/-- Thread 0 has waited for a generation that is complete. It waits for ever, and nobody is on the way. -/
theorem comeAgain_not_released : ∃ s, run (step barrier) barrierOfTwo comeAgain = some s ∧
    s.behind 0 = true ∧ (s.place 0).awaits () = true ∧ (∀ t, (s.place t).rests = true) ∧ ¬ s.Released 0 := by
  obtain ⟨s, hs, hp⟩ := exists_run (step barrier) barrierOfTwo comeAgain
    (fun s => decide (s.behind 0 = true ∧ (s.place 0).awaits () = true ∧ ∀ t, (s.place t).rests = true)) (by decide +kernel)
  obtain ⟨hb, ha, hr⟩ := of_decide_eq_true hp
  refine ⟨s, hs, hb, ha, hr, fun h => ?_⟩
  obtain ⟨t, c, hc⟩ := h.awake ha
  have := hr t
  rw [hc] at this
  cases this

/-- The generation that the thread is about to compare with the open one. -/
def compares (p : Place Unit BarrierPlace) : Option ℕ :=
  match p with
  | .program (.loop g) _ => some g
  | _ => none

theorem compares_eq {p : Place Unit BarrierPlace} {g : ℕ} : compares p = some g ↔ ∃ r, p = .program (.loop g) r := by
  unfold compares
  split
  · simp
  · simp_all

instance (s : BarrierState) (a : Action Unit) : Decidable (NotLapped s a) :=
  decidable_of_iff (∀ t ∈ a.runner, ∀ g ∈ compares (s.place t), s.data.Current g → g = s.data.generation)
    ⟨fun h t ht g r hp => h t ht g (compares_eq.mpr ⟨r, hp⟩), fun h t ht g hg =>
      have ⟨r, hp⟩ := compares_eq.mp hg
      h t ht g r hp⟩

instance (s : BarrierState) (a : Action Unit) : Decidable (LeavesTokens s a) :=
  inferInstanceAs (Decidable (∀ t ∈ a.runner, (s.room ()).stage t = .ready → (s.room ()).tokens ≠ 0 → s.behind t = false →
    (s.room ()).coming s.behind < (s.room ()).tokens))

def comesToBroadcast (p : Place Unit BarrierPlace) : Bool :=
  match p with
  | .broadcast .. => true
  | _ => false

theorem comesToBroadcast_iff {p : Place Unit BarrierPlace} : comesToBroadcast p = true ↔ ∃ c, p = .broadcast () c := by
  cases p <;> simp [comesToBroadcast]

instance (s : BarrierState) (a : Action Unit) : Decidable (FindsRoom s a) :=
  decidable_of_iff (∀ t ∈ a.runner, comesToBroadcast (s.place t) = true →
      (s.room ()).tokens + (s.room ()).waiters ≤ semMaxCount)
    ⟨fun h t ht c hc => h t ht (comesToBroadcast_iff.mpr ⟨c, hc⟩), fun h t ht hb =>
      have ⟨c, hc⟩ := comesToBroadcast_iff.mp hb
      h t ht c hc⟩

instance (s : BarrierState) (a : Action Unit) : Decidable (Fair s a) :=
  inferInstanceAs (Decidable (NotLapped s a ∧ LeavesTokens s a ∧ FindsRoom s a))

theorem comeOnce_released : ∃ s, Path (Next (step barrier)) Fair barrierOfTwo comeOnce s ∧
    ((∀ t, s.behind t = true → s.Released t) ∧
      (∀ g, (trace (step barrier) serialReturns barrierOfTwo comeOnce).count (some g) + s.completing g =
        if g < s.data.generation then 1 else 0) ∧
      none ∉ trace (step barrier) serialReturns barrierOfTwo comeOnce) := by
  obtain ⟨s, hs, -⟩ := exists_path (step barrier) Fair barrierOfTwo comeOnce (fun _ => true) (by decide +kernel)
  exact ⟨s, hs, releases_of_path hs⟩

end Aixos.Posix.Monitor
