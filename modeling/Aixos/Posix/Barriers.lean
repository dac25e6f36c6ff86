import Aixos.Kernel.Barrier
import Aixos.Posix.Programs
import Aixos.Posix.CondWaits

/-!
# Who a barrier counts, and whom it releases

* `counts_of_path` — the count of a barrier is the number of the threads that wait for the open
  generation, as long as no wait for it ends with an error.
-/

open Transition TokenRoom Census

namespace Aixos.Posix

/-- Where a thread holds the mutex of the barrier. -/
def barrierMutex : Discipline BarrierPlace where
  guarded c r :=
    match c with
    | .locked | .waited _ => r = 0
    | .arrive | .arrived _ | .released _ | .loop _ => true
    | .entry | .serial .. | .failed _ | .leave => false
  may c r :=
    match c with
    | .locked => r = 0
    | .arrive | .arrived _ | .released _ | .loop _ | .waited _ => true
    | .entry | .serial .. | .failed _ | .leave => false
  retakes := False

theorem barrier_disciplined : Disciplined barrier barrierMutex := by
  refine ⟨fun _ => rfl, fun c t r b => ?_⟩
  simp only [barrier]
  cases c with
  | entry =>
    simp only [barrierWait]
    split
    · exact rfl
    · exact ⟨rfl, fun r hr => by simpa [barrierMutex] using hr, rfl⟩
  | locked =>
    simp only [barrierWait]
    split
    case isTrue h => simpa [Discipline.Allows, barrierMutex] using h
    case isFalse h => simpa [Discipline.Allows, barrierMutex] using h
  | arrive => exact ⟨fun _ => rfl, fun _ => rfl⟩
  | arrived g =>
    simp only [barrierWait]
    split
    · exact ⟨fun _ _ => rfl, fun _ _ => rfl⟩
    · exact ⟨fun _ => rfl, fun _ => rfl⟩
  | released g => exact fun _ => rfl
  | serial g result => exact rfl
  | loop g =>
    simp only [barrierWait]
    split
    · exact ⟨rfl, fun r hr => .inl (by simpa [barrierMutex] using hr), fun _ => rfl⟩
    · exact fun _ => rfl
  | waited g =>
    simp only [barrierWait]
    split
    · exact fun _ => rfl
    case isFalse h => exact ⟨fun _ => by simpa [barrierMutex] using h, fun _ => rfl⟩
  | failed result => exact rfl
  | leave => exact rfl

/-- The generation that a thread at this place has arrived in, and has not left. -/
def BarrierPlace.generation (c : BarrierPlace) : Option ℕ :=
  match c with
  | .arrived g | .loop g | .waited g => some g
  | .entry | .locked | .arrive | .released _ | .serial .. | .failed _ | .leave => none

/-- The generation that a thread is inside of. -/
def Place.generation (p : Place Unit BarrierPlace) : Option ℕ := p.after.bind BarrierPlace.generation

abbrev BarrierState := Monitor Unit Barrier BarrierPlace

namespace Monitor

/-- The threads inside the barrier that wait for the generation. -/
def waitingFor (g : ℕ) (s : BarrierState) : ℕ := census (fun p => decide (p.generation = some g)) s.place

/-- Who leaves with an error does not leave the open generation. -/
def NoneGivesUp (s : BarrierState) (a : Action Unit) : Prop :=
  ∀ t ∈ a.runner, ∀ g r, s.place t = .program (.waited g) r → r ≠ 0 → g ≠ s.data.generation

/-- Nobody is ahead of the open generation. -/
structure Ordered (s : BarrierState) : Prop where
  guarded : s.Guarded barrierMutex
  past : ∀ t g, (s.place t).generation = some g → g ≤ s.data.generation
  /-- Who has just arrived is in the open generation. -/
  arrived : ∀ t g, (s.place t).after = some (.arrived g) →
    g = s.data.generation ∧ ∃ r, s.place t = .program (.arrived g) r

/-- The barrier counts those who are there. -/
structure Counts (s : BarrierState) : Prop extends Ordered s where
  count : s.data.count.toNat = s.waitingFor s.data.generation

variable {s s' : BarrierState} {a : Action Unit} {as : List (Action Unit)} {t : Thread} {n : Word}

theorem waitingFor_congr {g : ℕ} (h : ∀ u, (s'.place u).after = (s.place u).after) : s'.waitingFor g = s.waitingFor g :=
  census_congr fun u => by rw [Place.generation, Place.generation, h u]

theorem generation_place (n : Outcome Unit BarrierPlace) (r : Errno) :
    (n.place r).generation = n.after.bind BarrierPlace.generation := by
  rw [Place.generation, Outcome.after_place]

/-- What a step of the program does to the number of those who wait. -/
theorem waitingFor_advance {c : BarrierPlace} {r : Errno} (g : ℕ) (hp : s.place t = .program c r) :
    (s.advance barrier t c r).waitingFor g + (decide (c.generation = some g)).toNat =
      s.waitingFor g + (decide ((barrierWait c t r s.data).2.after.bind BarrierPlace.generation = some g)).toNat := by
  have h := census_update (fun p : Place Unit BarrierPlace => decide (p.generation = some g)) s.place t
    ((barrierWait c t r s.data).2.place r)
  rw [hp, generation_place] at h
  exact h

theorem waitingFor_le_card {g : ℕ} : s.waitingFor g ≤ 256 := by
  have h : s.waitingFor g ≤ Fintype.card Thread := census_le_card
  rwa [Fintype.card_fin] at h

theorem after_advance {c : BarrierPlace} {r : Errno} (u : Thread) :
    ((s.advance barrier t c r).place u).after =
      if u = t then (barrierWait c t r s.data).2.after else (s.place u).after := by
  by_cases hu : u = t
  · subst hu
    simp [advance, goto, barrier]
  · simp [advance, goto, hu]

theorem place_advance {c : BarrierPlace} {r : Errno} {u : Thread} (hu : u ≠ t) :
    (s.advance barrier t c r).place u = s.place u := by
  simp [advance, goto, hu]

/-- A step of the program that leaves the generation. -/
theorem Ordered.advance_same {c : BarrierPlace} {r : Errno} (h : s.Ordered)
    (hg : (s.advance barrier t c r).Guarded barrierMutex)
    (hgen : (barrierWait c t r s.data).1.generation = s.data.generation)
    (hpast : ∀ g, (barrierWait c t r s.data).2.after.bind BarrierPlace.generation = some g → g ≤ s.data.generation)
    (harr : ∀ g, (barrierWait c t r s.data).2.after = some (.arrived g) →
      g = s.data.generation ∧ (barrierWait c t r s.data).2 = .goto (.arrived g)) :
    (s.advance barrier t c r).Ordered := by
  have hdata : (s.advance barrier t c r).data.generation = s.data.generation := hgen
  refine ⟨hg, fun u g hu => ?_, fun u g hu => ?_⟩
  · rw [hdata]
    rw [Place.generation, after_advance] at hu
    split at hu
    · exact hpast g hu
    · exact h.past u g hu
  · rw [hdata]
    rw [after_advance] at hu
    split at hu
    case isTrue hut =>
      obtain ⟨hgen, hgo⟩ := harr g hu
      refine ⟨hgen, r, ?_⟩
      rw [hut]
      simp [advance, goto, barrier, hgo, Outcome.place]
    case isFalse hut =>
      rw [place_advance hut]
      exact h.arrived u g hu

/-- The last thread of a generation opens the next one. -/
theorem barrierWait_complete {r : Errno} (hc : s.data.count = s.data.threshold) :
    barrierWait (.arrived s.data.generation) t r s.data =
      ({ s.data with count := 0, generation := s.data.generation + 1 },
        .call (.broadcast ()) (.released s.data.generation)) := by
  simp [barrierWait, hc]

/-- Nobody has arrived in the generation that has just been opened. -/
theorem Ordered.past_complete {r : Errno} (h : s.Ordered) (hc : s.data.count = s.data.threshold) (u : Thread) (g : ℕ)
    (hu : ((s.advance barrier t (.arrived s.data.generation) r).place u).generation = some g) : g ≤ s.data.generation := by
  rw [Place.generation, after_advance, barrierWait_complete hc] at hu
  split at hu
  · cases hu
  · exact h.past u g hu

theorem Ordered.complete {r : Errno} (h : s.Ordered) (hp : s.place t = .program (.arrived s.data.generation) r)
    (hc : s.data.count = s.data.threshold)
    (hg : (s.advance barrier t (.arrived s.data.generation) r).Guarded barrierMutex) :
    (s.advance barrier t (.arrived s.data.generation) r).Ordered := by
  have hdata : (s.advance barrier t (.arrived s.data.generation) r).data.generation = s.data.generation + 1 :=
    congrArg (fun x => x.1.generation) (barrierWait_complete hc)
  refine ⟨hg, fun u g hu => ?_, fun u g hu => ?_⟩
  · rw [hdata]
    exact (h.past_complete hc u g hu).trans (Nat.le_succ _)
  · -- another thread that has just arrived would hold the mutex as well
    rw [after_advance, barrierWait_complete hc] at hu
    split at hu
    · cases hu
    case isFalse hut =>
      obtain ⟨-, r', hr'⟩ := h.arrived u g hu
      exact absurd (h.guarded.eq hr' hp rfl rfl) hut

theorem Ordered.advance {c : BarrierPlace} {r : Errno} (h : s.Ordered) (hp : s.place t = .program c r)
    (hg : (s.advance barrier t c r).Guarded barrierMutex) : (s.advance barrier t c r).Ordered := by
  have hgen := h.past t
  rw [hp] at hgen
  cases c with
  | entry =>
    refine h.advance_same hg rfl ?_ ?_ <;> simp only [barrierWait] <;> split <;>
      simp [Outcome.after, BarrierPlace.generation]
  | locked =>
    refine h.advance_same hg rfl ?_ ?_ <;> simp only [barrierWait] <;> split <;>
      simp [Outcome.after, BarrierPlace.generation]
  | arrive =>
    refine h.advance_same hg rfl (fun g hg => (Option.some.inj hg).symm.le) fun g hg => ?_
    cases hg
    exact ⟨rfl, rfl⟩
  | arrived g =>
    obtain ⟨rfl, -⟩ := h.arrived t g (by rw [hp]; rfl)
    by_cases hc : s.data.count = s.data.threshold
    · exact h.complete hp hc hg
    · have hb : barrierWait (.arrived s.data.generation) t r s.data = (s.data, .goto (.loop s.data.generation)) := by
        simp [barrierWait, hc]
      refine h.advance_same hg ?_ ?_ ?_ <;> rw [hb]
      · exact fun g hg => (Option.some.inj hg).symm.le
      · nofun
  | released g => exact h.advance_same hg rfl nofun nofun
  | serial g result => exact h.advance_same hg rfl nofun nofun
  | loop g =>
    refine h.advance_same hg rfl ?_ ?_ <;> simp only [barrierWait] <;> split
    · exact hgen
    · nofun
    · nofun
    · nofun
  | waited g =>
    refine h.advance_same hg rfl ?_ ?_ <;> simp only [barrierWait] <;> split
    · nofun
    · exact hgen
    · nofun
    · nofun
  | failed result => exact h.advance_same hg rfl nofun nofun
  | leave => exact h.advance_same hg rfl nofun nofun

theorem Ordered.aside (h : s.Ordered) (hg : s'.Guarded barrierMutex) (ha : Aside s s') : s'.Ordered := by
  have hgen : ∀ u, (s'.place u).generation = (s.place u).generation := fun u => by
    rw [Place.generation, Place.generation, ha.after u]
  refine ⟨hg, fun u g hu => ?_, fun u g hu => ?_⟩
  · rw [ha.data]
    exact h.past u g ((hgen u).symm.trans hu)
  · rw [ha.data]
    obtain ⟨h₁, r, h₂⟩ := h.arrived u g ((ha.after u).symm.trans hu)
    exact ⟨h₁, r, ha.program u _ r h₂⟩

/-- A thread that comes to the barrier is not in any generation. -/
theorem generation_call {op : Unit} {r : Errno} (hp : s.place t = .idle r) (u : Thread) :
    ((s.goto t (.program (barrier.start op) 0)).place u).generation = (s.place u).generation := by
  by_cases hu : u = t
  · subst hu
    rw [hp]
    simp [goto, Place.generation, Place.after, barrier, BarrierPlace.generation]
  · simp [goto, hu]

theorem Ordered.call {op : Unit} {r : Errno} (h : s.Ordered) (hp : s.place t = .idle r)
    (hg : (s.goto t (.program (barrier.start op) 0)).Guarded barrierMutex) :
    (s.goto t (.program (barrier.start op) 0)).Ordered := by
  refine ⟨hg, fun u g hu => h.past u g ((generation_call hp u).symm.trans hu), fun u g hu => ?_⟩
  by_cases hut : u = t
  · subst hut
    simp [goto, Place.after, barrier] at hu
  · simp only [goto, Function.update_of_ne hut] at hu ⊢
    exact h.arrived u g hu

theorem Ordered.step (h : s.Ordered) (hs : step barrier s a = some s') : s'.Ordered := by
  have hg := guarded_step barrier_disciplined h.guarded False.elim hs
  rcases step_cases hs with ⟨t, env, c, r, rfl, hp, rfl⟩ | ⟨t, op, r, rfl, hp, rfl⟩ | ⟨ha, hn⟩
  · exact h.advance hp hg
  · exact h.call hp hg
  · exact h.aside hg ha

theorem ordered_init : (init .normal (Barrier.init n) : BarrierState).Ordered := ⟨guarded_init _, nofun, nofun⟩

/-- A step of the program that leaves the data, or only counts an arrival. -/
theorem Counts.advance_same {c : BarrierPlace} {r : Errno} (h : s.Counts) (hp : s.place t = .program c r)
    (hgen : (barrierWait c t r s.data).1.generation = s.data.generation)
    (hcount : (barrierWait c t r s.data).1.count.toNat + (decide (c.generation = some s.data.generation)).toNat =
      s.data.count.toNat +
        (decide ((barrierWait c t r s.data).2.after.bind BarrierPlace.generation = some s.data.generation)).toNat) :
    (s.advance barrier t c r).data.count.toNat =
      (s.advance barrier t c r).waitingFor (s.advance barrier t c r).data.generation := by
  have hdata : (s.advance barrier t c r).data.generation = s.data.generation := hgen
  have hw := waitingFor_advance s.data.generation hp
  have hc : (s.advance barrier t c r).data.count = (barrierWait c t r s.data).1.count := rfl
  have := h.count
  rw [hdata, hc]
  omega

/-- The last thread of a generation opens the next one, which nobody has arrived in. -/
theorem Counts.complete {r : Errno} (h : s.Counts) (hc : s.data.count = s.data.threshold) :
    (s.advance barrier t (.arrived s.data.generation) r).data.count.toNat =
      (s.advance barrier t (.arrived s.data.generation) r).waitingFor
        (s.advance barrier t (.arrived s.data.generation) r).data.generation := by
  have hdata : (s.advance barrier t (.arrived s.data.generation) r).data =
      { s.data with count := 0, generation := s.data.generation + 1 } := congrArg Prod.fst (barrierWait_complete hc)
  rw [hdata]
  refine (census_eq_zero_iff.mpr fun u => ?_).symm
  rw [decide_eq_false_iff_not]
  intro hu
  exact absurd (h.past_complete hc u _ hu) (Nat.not_succ_le_self _)

theorem Counts.advance {c : BarrierPlace} {r : Errno} (h : s.Counts) (hp : s.place t = .program c r)
    (hup : ∀ g, c = .waited g → r ≠ 0 → g ≠ s.data.generation) :
    (s.advance barrier t c r).data.count.toNat =
      (s.advance barrier t c r).waitingFor (s.advance barrier t c r).data.generation := by
  cases c with
  | entry =>
    refine h.advance_same hp rfl ?_
    simp only [barrierWait]
    split <;> simp [Outcome.after, BarrierPlace.generation]
  | locked =>
    refine h.advance_same hp rfl ?_
    simp only [barrierWait]
    split <;> simp [Outcome.after, BarrierPlace.generation]
  | arrive =>
    refine h.advance_same hp rfl ?_
    -- the thread is counted twice over: in the count, and among those who are inside
    have hw := waitingFor_advance s.data.generation hp
    have hle : (s.advance barrier t .arrive r).waitingFor s.data.generation ≤ 256 := waitingFor_le_card
    have hcount := h.count
    simp only [barrierWait, Outcome.after, BarrierPlace.generation, Option.bind_some] at hw ⊢
    simp at hw ⊢
    bv_omega
  | arrived g =>
    obtain ⟨rfl, -⟩ := h.arrived t g (by rw [hp]; rfl)
    by_cases hc : s.data.count = s.data.threshold
    · exact h.complete hc
    · have hb : barrierWait (.arrived s.data.generation) t r s.data = (s.data, .goto (.loop s.data.generation)) := by
        simp [barrierWait, hc]
      refine h.advance_same hp ?_ ?_ <;> rw [hb]
      rfl
  | released g => exact h.advance_same hp rfl rfl
  | serial g result => exact h.advance_same hp rfl rfl
  | loop g =>
    by_cases hc : s.data.Current g
    · have hb : barrierWait (.loop g) t r s.data = (s.data, .call (.wait ()) (.waited g)) := by
        simp [barrierWait, hc]
      refine h.advance_same hp ?_ ?_ <;> rw [hb]
      rfl
    · have hb : barrierWait (.loop g) t r s.data = (s.data, .call .unlock .leave) := by
        simp [barrierWait, hc]
      have hne : g ≠ s.data.generation := by
        rintro rfl
        exact hc rfl
      refine h.advance_same hp ?_ ?_ <;> rw [hb]
      simp [Outcome.after, BarrierPlace.generation, hne]
  | waited g =>
    by_cases hr : r = 0
    · have hb : barrierWait (.waited g) t r s.data = (s.data, .goto (.loop g)) := by
        simp [barrierWait, hr]
      refine h.advance_same hp ?_ ?_ <;> rw [hb]
      rfl
    · have hb : barrierWait (.waited g) t r s.data = (s.data, .call .unlock (.failed r)) := by
        simp [barrierWait, hr]
      refine h.advance_same hp ?_ ?_ <;> rw [hb]
      simp [Outcome.after, BarrierPlace.generation, hup g rfl hr]
  | failed result => exact h.advance_same hp rfl rfl
  | leave => exact h.advance_same hp rfl rfl

theorem Counts.step (h : s.Counts) (hup : NoneGivesUp s a) (hs : step barrier s a = some s') : s'.Counts := by
  refine ⟨h.toOrdered.step hs, ?_⟩
  rcases step_cases hs with ⟨t, env, c, r, rfl, hp, rfl⟩ | ⟨t, op, r, rfl, hp, rfl⟩ | ⟨ha, hn⟩
  · exact h.advance hp fun g hc hr => hup t rfl g r (hp.trans (by rw [hc])) hr
  · exact h.count.trans (census_congr fun u => by rw [generation_call hp u]; rfl)
  · rw [ha.data, waitingFor_congr ha.after]
    exact h.count

theorem counts_init : (init .normal (Barrier.init n) : BarrierState).Counts :=
  ⟨ordered_init, (census_eq_zero_iff.mpr fun _ => rfl).symm⟩

/-- **The barrier counts those who are there**: as long as nobody leaves the open generation with an error, the count is
the number of the threads that wait for it, and it completes when as many wait for it as the threshold says. -/
theorem counts_of_path (hp : Path (Next (step barrier)) NoneGivesUp (init .normal (Barrier.init n)) as s) :
    s.data.count.toNat = s.waitingFor s.data.generation ∧
      ∀ a s', step barrier s a = some s' → s'.data.generation ≠ s.data.generation →
        s.waitingFor s.data.generation = s.data.threshold.toNat := by
  have h : s.Counts := hp.invariant (I := Counts) (fun _ _ _ h hc hs => h.step hc hs) counts_init
  refine ⟨h.count, fun a s' hs hne => ?_⟩
  have hsame : ∀ {c : BarrierPlace} {t : Thread} {r : Errno}, (barrierWait c t r s.data).1.generation ≠ s.data.generation →
      s.data.count = s.data.threshold := by
    intro c t r hne
    cases c with
    | arrived g =>
      by_contra hc
      simp [barrierWait, hc] at hne
    | _ => exact absurd rfl hne
  rcases step_cases hs with ⟨t, env, c, r, rfl, hp, rfl⟩ | ⟨t, op, r, rfl, hp, rfl⟩ | ⟨ha, hn⟩
  · rw [← h.count, hsame hne]
  · exact absurd rfl hne
  · exact absurd (congrArg Barrier.generation ha.data) hne

end Monitor

end Aixos.Posix

namespace Aixos.Posix.Monitor

open Transition

/-- The thread goes on `n` times; nobody has to be woken. -/
def onward (t : Thread) (n : ℕ) : List (Action Unit) := List.replicate n (.run t ⟨⟨0, 0⟩, false, []⟩)

def barrierOfTwo : BarrierState := init .normal (Barrier.init 2)

/-- Thread 0 waits at the barrier and is suspended. Its wait ends with an error. Thread 1 arrives. -/
def suspendAndArrive : List (Action Unit) :=
  [.call 0 ()] ++ onward 0 12 ++ [.suspend 0, .resume 0] ++ onward 0 8 ++ [.call 1 ()] ++ onward 1 6

/-- Both threads arrive. -/
def bothArrive : List (Action Unit) := [.call 0 ()] ++ onward 0 12 ++ [.call 1 ()] ++ onward 1 6

/-- Nobody but thread 1 is inside, and its arrival completes the generation. -/
theorem suspendAndArrive_still_counted : ∃ s s', run (step barrier) barrierOfTwo suspendAndArrive = some s ∧
    step barrier s (.run 1 ⟨⟨0, 0⟩, false, []⟩) = some s' ∧ s.waitingFor s.data.generation = 1 ∧
    s.data.count = 2 ∧ s'.data.generation = s.data.generation + 1 := by
  obtain ⟨s, s', hs, hs', hp⟩ := exists_run_step (step barrier) barrierOfTwo suspendAndArrive (.run 1 ⟨⟨0, 0⟩, false, []⟩)
    (fun s s' => decide (s.waitingFor s.data.generation = 1 ∧ s.data.count = 2 ∧
      s'.data.generation = s.data.generation + 1)) (by decide +kernel)
  exact ⟨s, s', hs, hs', of_decide_eq_true hp⟩

/-- The generation that the thread has waited for, and the result of its wait. -/
def hasWaited (p : Place Unit BarrierPlace) : Option (ℕ × Errno) :=
  match p with
  | .program (.waited g) r => some (g, r)
  | _ => none

theorem hasWaited_eq {p : Place Unit BarrierPlace} {g : ℕ} {r : Errno} :
    hasWaited p = some (g, r) ↔ p = .program (.waited g) r := by
  unfold hasWaited
  split
  · simp
  · simp_all

instance (s : BarrierState) (a : Action Unit) : Decidable (NoneGivesUp s a) :=
  decidable_of_iff (∀ t ∈ a.runner, ∀ x ∈ hasWaited (s.place t), x.2 ≠ 0 → x.1 ≠ s.data.generation)
    ⟨fun h t ht g r hp => h t ht (g, r) (hasWaited_eq.mpr hp), fun h t ht x hx => h t ht x.1 x.2 (hasWaited_eq.mp hx)⟩

theorem bothArrive_counted : ∃ s, Path (Next (step barrier)) NoneGivesUp barrierOfTwo bothArrive s ∧
    (s.data.count.toNat = s.waitingFor s.data.generation ∧
      ∀ a s', step barrier s a = some s' → s'.data.generation ≠ s.data.generation →
        s.waitingFor s.data.generation = s.data.threshold.toNat) := by
  obtain ⟨s, hs, -⟩ := exists_path (step barrier) NoneGivesUp barrierOfTwo bothArrive (fun _ => true) (by decide +kernel)
  exact ⟨s, hs, counts_of_path hs⟩

end Aixos.Posix.Monitor
