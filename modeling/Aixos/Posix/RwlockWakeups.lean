import Aixos.Posix.Rwlocks
import Aixos.Posix.CondWaits

/-!
# Who wakes those that wait for a read-write lock

* `wakes_of_path` — nobody waits for a lock that it could have while all others wait as well; as
  long as no writer that gives up is the last that holds readers back.

Readers that could go on have a token each, or somebody is about to broadcast. If a writer could go
on, there is a token for a writer, or somebody is about to signal, or another writer is on its way to
take the lock.
-/

open Transition TokenRoom Census

namespace Aixos.Posix

variable {n : ℕ}

/-- Counted in `waiting_writers`. -/
def RwlockPlace.writing (c : RwlockPlace n) : Bool :=
  match c with
  | .wrLoop _ | .wrWaited _ | .wrGiveUp _ | .wrGiveUpStore .. | .wrTake => true
  | _ => false

/-- Behind a wait for the condition variable. -/
def RwlockPlace.awaited (c : RwlockPlace n) (k : RwlockCond) : Bool :=
  match c, k with
  | .rdWaited .., .readers | .wrWaited _, .writers => true
  | _, _ => false

/-- A writer that is going to see whether it can take the lock. -/
def Place.comes (p : Place RwlockCond (RwlockPlace n)) : Bool :=
  match p with
  | .program (.wrWaited _) r => r = 0
  | .program (.wrLoop _) _ | .program .wrTake _ => true
  | p => p.retaking && (p.after.map fun c => c.awaited .writers).getD false

/-- Somebody that is going to wake those who wait for the condition variable. -/
def Place.wakes (p : Place RwlockCond (RwlockPlace n)) (k : RwlockCond) : Bool :=
  match p, k with
  | .program .unWake _, _ | .signal .writers _, .writers | .broadcast .readers _, .readers => true
  | _, _ => false

theorem Place.comes_cases {p : Place RwlockCond (RwlockPlace n)} (h : p.comes = true) :
    (∃ c r, p = .program c r) ∨ p.retaking = true ∧ ∃ c, p.after = some c ∧ c.awaited .writers = true := by
  cases hp : p with
  | program c r => exact .inl ⟨c, r, rfl⟩
  | idle r =>
    rw [hp] at h
    cases h
  | _ =>
    subst hp
    exact .inr (by simpa [Place.comes, Place.after] using h)

theorem Place.comes_of_retaking {p : Place RwlockCond (RwlockPlace n)} {c : RwlockPlace n} (h : p.retaking = true)
    (ha : p.after = some c) (hc : c.awaited .writers = true) : p.comes = true := by
  cases p with
  | idle r | program c r => cases h
  | _ => simpa [Place.comes, ha, hc] using h

theorem Place.comes_of_awaited {c : RwlockPlace n} (hc : c.awaited .writers = true) :
    (Place.program c 0 : Place RwlockCond (RwlockPlace n)).comes = true := by
  cases c with
  | wrWaited => rfl
  | _ => cases hc

theorem Place.wakes_cases {p : Place RwlockCond (RwlockPlace n)} {k : RwlockCond} (h : p.wakes k = true) :
    (∃ r, p = .program .unWake r) ∨ (k = .writers ∧ ∃ c, p = .signal .writers c) ∨
      k = .readers ∧ ∃ c, p = .broadcast .readers c := by
  unfold Place.wakes at h
  split at h
  case h_1 => exact .inl ⟨_, rfl⟩
  case h_2 c => exact .inr (.inl ⟨rfl, c, rfl⟩)
  case h_3 c => exact .inr (.inr ⟨rfl, c, rfl⟩)
  case h_4 => cases h

namespace Monitor

variable {s s' : RwlockState n} {a : Action RwlockOp} {as : List (Action RwlockOp)} {t : Thread} {k : RwlockCond}

/-- Readers could go on: no writer has the lock, and none waits. -/
def Open (s : RwlockState n) : Prop := s.data.writer = none ∧ s.data.waitingWriters = 0

/-- A writer could go on: nobody has the lock. -/
def Free (s : RwlockState n) : Prop := s.data.writer = none ∧ s.data.readers = 0

/-- A writer that gives up, and is the last to hold readers back, finds that a token is there for each of them. -/
def LeavesNobody (s : RwlockState n) (a : Action RwlockOp) : Prop :=
  ∀ t ∈ a.runner, ∀ result w r, s.place t = .program (.wrGiveUpStore result w) r → w = 1 → s.data.writer = none →
    Provided (fun _ => true) (s.room .readers)

/-- What is asked of every step. -/
def Heeded (s : RwlockState n) (a : Action RwlockOp) : Prop := Retakes s a ∧ LeavesNobody s a

/-- How many writers are counted. -/
def writing (s : RwlockState n) : ℕ := census (fun p => (p.after.map RwlockPlace.writing).getD false) s.place

/-- Somebody is about to wake those who wait for the condition variable. -/
def Waking (k : RwlockCond) (s : RwlockState n) : Prop := ∃ t, (s.place t).wakes k = true

/-- What every step keeps. -/
structure Attends (s : RwlockState n) : Prop where
  tested : s.Tested true
  held : s.Held
  sound : ∀ k, Sound semMaxCount 0 (s.room k)
  counted : s.data.waitingWriters.toNat = s.writing
  /-- The counter that a thread has read has not changed. -/
  loaded : ∀ t result w, (s.place t).after = some (.wrGiveUpStore result w) →
    (∃ r, s.place t = .program (.wrGiveUpStore result w) r) ∧ w = s.data.waitingWriters
  /-- Readers wait for one condition variable, and writers for the other. -/
  waits : ∀ t k, (s.place t).waitsFor = some k → ∃ c, (s.place t).after = some c ∧ c.awaited k = true
  /-- Who comes to wait has to. -/
  enters : ∀ t, (s.place t).enters = true →
    ((s.place t).waitsFor = some .readers → ¬ s.Open) ∧ ((s.place t).waitsFor = some .writers → ¬ s.Free)
  readers : s.Open → s.Waking .readers ∨ Provided (fun _ => true) (s.room .readers)
  writers : s.Free → (∃ t, ((s.room .writers).stage t).waiting = true) →
    s.Waking .writers ∨ (s.room .writers).tokens ≠ 0 ∨ ∃ t, (s.place t).comes = true

theorem attends_init : (init .normal (Rwlock.init n) : RwlockState n).Attends where
  tested := tested_init true
  held := held_init .normal _
  sound _ := sound_init
  counted := (census_eq_zero_iff.mpr fun _ => rfl).symm
  loaded := nofun
  waits := nofun
  enters := nofun
  readers _ := .inr ⟨fun _ _ => nofun, (census_eq_zero_iff.mpr fun _ => rfl).le⟩
  writers _ := by
    rintro ⟨t, ht⟩
    cases ht

/-- A step of the program that changes the lock is made with the mutex held. -/
theorem data_next (c : RwlockPlace n) (t : Thread) (r : Errno) (lock : Rwlock n) :
    (rwlockNext c t r lock).1 = lock ∨ ∀ r', (rwlockMutex n true).guarded c r' = true := by
  cases c with
  | rdTake | wrArrive | wrGiveUpStore | wrTake | unWrite | unRead => exact .inr fun _ => rfl
  | _ => exact .inl rfl

/-- A thread has just read the counter. -/
theorem loaded_next {c : RwlockPlace n} {r result : Errno} {w : Word} {lock : Rwlock n}
    (h : (rwlockNext c t r lock).2.after = some (.wrGiveUpStore result w)) :
    (rwlockNext c t r lock).2 = .goto (.wrGiveUpStore result w) ∧ w = (rwlockNext c t r lock).1.waitingWriters := by
  cases c with
  | wrGiveUp result' =>
    cases h
    exact ⟨rfl, rfl⟩
  | rdLocked | rdTry | rdLoop | rdWaited | rdCheck | wrLocked | wrOwn | wrTry | wrLoop | wrWaited | unLocked =>
    simp only [rwlockNext] at h
    split at h <;> cases h
  | rdSlot | unWake =>
    simp only [rwlockNext] at h
    split at h
    · cases h
    · split at h <;> cases h
  | unDecide =>
    simp only [rwlockNext] at h
    split at h
    · cases h
    · split at h
      · cases h
      · split at h <;> cases h
  | _ => cases h

theorem waitsFor_waitCall {absolute : Option Timespec} {k' : RwlockCond} {c : RwlockPlace n}
    (h : ((waitCall k' absolute).place c).waitsFor = some k) : k = k' := by
  cases absolute <;> cases h <;> rfl

/-- Only the loops wait, and only while they have to. -/
theorem waits_next {c : RwlockPlace n} {r : Errno} {lock : Rwlock n}
    (h : ((rwlockNext c t r lock).2.place r).waitsFor = some k) :
    (∃ c', (rwlockNext c t r lock).2.after = some c' ∧ c'.awaited k = true) ∧
      (k = .readers → ¬ (lock.writer = none ∧ lock.waitingWriters = 0)) ∧
      (k = .writers → ¬ (lock.writer = none ∧ lock.readers = 0)) := by
  cases c with
  | rdLoop absolute slot =>
    simp only [rwlockNext] at h ⊢
    split at h
    case isTrue hb =>
      obtain rfl := waitsFor_waitCall h
      rw [if_pos hb]
      refine ⟨⟨_, rfl, rfl⟩, fun _ ho => ?_, (by rintro ⟨⟩)⟩
      rcases hb with hw | hw
      · exact hw ho.1
      · exact hw.1 ho.2
    case isFalse => cases h
  | wrLoop absolute =>
    simp only [rwlockNext] at h ⊢
    split at h
    case isTrue hb =>
      obtain rfl := waitsFor_waitCall h
      rw [if_pos hb]
      refine ⟨⟨_, rfl, rfl⟩, (by rintro ⟨⟩), fun _ ho => ?_⟩
      rcases hb with hw | hw
      · exact hw ho.1
      · exact hw ho.2
    case isFalse => cases h
  | rdLocked | rdTry | rdWaited | rdCheck | wrLocked | wrOwn | wrTry | wrWaited | unLocked =>
    simp only [rwlockNext] at h
    split at h <;> cases h
  | rdSlot | unWake =>
    simp only [rwlockNext] at h
    split at h
    · cases h
    · split at h <;> cases h
  | unDecide =>
    simp only [rwlockNext] at h
    split at h
    · cases h
    · split at h
      · cases h
      · split at h <;> cases h
  | _ => cases h

/-- The counter counts the writers. -/
theorem counted_next {c : RwlockPlace n} {r : Errno} {lock : Rwlock n}
    (hload : ∀ result w, c = .wrGiveUpStore result w → w = lock.waitingWriters)
    (hpos : c.writing = true → 0 < lock.waitingWriters.toNat) (hlt : lock.waitingWriters.toNat ≤ 256) :
    (rwlockNext c t r lock).1.waitingWriters.toNat + c.writing.toNat =
      lock.waitingWriters.toNat + (((rwlockNext c t r lock).2.after.map RwlockPlace.writing).getD false).toNat := by
  have hsub : 0 < lock.waitingWriters.toNat → (lock.waitingWriters - 1).toNat + 1 = lock.waitingWriters.toNat := by
    intro h
    bv_omega
  cases c with
  | wrArrive absolute =>
    have : (lock.waitingWriters + 1).toNat = lock.waitingWriters.toNat + 1 := by bv_omega
    exact this
  | wrGiveUpStore result w =>
    obtain rfl := hload result w rfl
    exact hsub (hpos rfl)
  | wrTake => exact hsub (hpos rfl)
  | rdLocked | rdTry | rdLoop | rdWaited | rdCheck | wrLocked | wrOwn | wrTry | wrLoop | wrWaited | unLocked =>
    simp only [rwlockNext]
    split <;> rfl
  | rdSlot | unWake =>
    simp only [rwlockNext]
    split
    · rfl
    · split <;> rfl
  | unDecide =>
    simp only [rwlockNext]
    split
    · rfl
    · split
      · rfl
      · split <;> rfl
  | _ => rfl

theorem writing_le (s : RwlockState n) : s.writing ≤ 256 := by
  have h : s.writing ≤ Fintype.card Thread := census_le_card
  rwa [Fintype.card_fin] at h

/-- What a step of the program does to the number of writers. -/
theorem writing_advance {c : RwlockPlace n} {r : Errno} (hp : s.place t = .program c r) :
    (s.advance (rwlock n) t c r).writing + c.writing.toNat =
      s.writing + (((rwlockNext c t r s.data).2.after.map RwlockPlace.writing).getD false).toNat := by
  have h := census_update (fun p : Place RwlockCond (RwlockPlace n) => (p.after.map RwlockPlace.writing).getD false) s.place t
    ((rwlockNext c t r s.data).2.place r)
  rw [hp, Outcome.after_place] at h
  exact h

theorem Attends.writing_pos {c : RwlockPlace n} (h : s.Attends) (hp : (s.place t).after = some c) (hc : c.writing = true) :
    0 < s.data.waitingWriters.toNat := by
  rw [h.counted]
  exact census_pos t (by simp [hp, hc])

/-- Somebody else is still about to wake. -/
theorem Waking.advance {c : RwlockPlace n} {r : Errno} (h : s.Waking k) (hp : s.place t = .program c r)
    (hc : (Place.program c r : Place RwlockCond (RwlockPlace n)).wakes k = false) :
    (s.advance (rwlock n) t c r).Waking k := by
  obtain ⟨v, hv⟩ := h
  refine ⟨v, ?_⟩
  rwa [place_advance_of_ne]
  rintro rfl
  rw [hp, hc] at hv
  cases hv

/-- The thread itself is about to wake. -/
theorem waking_advance {c : RwlockPlace n} {r : Errno} {m : Outcome RwlockCond (RwlockPlace n)}
    (hc : (rwlockNext c t r s.data).2 = m) (hm : (m.place r).wakes k = true) : (s.advance (rwlock n) t c r).Waking k := by
  refine ⟨t, ?_⟩
  rw [advance, place_goto_self, show ((rwlock n).next c t r s.data).2 = m from hc]
  exact hm

theorem Attends.readers_advance {c : RwlockPlace n} {r : Errno} (h : s.Attends) (hp : s.place t = .program c r)
    (hleave : ∀ result w, c = .wrGiveUpStore result w → w = 1 → s.data.writer = none →
      Provided (fun _ => true) (s.room .readers))
    (ho : (s.advance (rwlock n) t c r).Open) :
    (s.advance (rwlock n) t c r).Waking .readers ∨
      Provided (fun _ => true) ((s.advance (rwlock n) t c r).room .readers) := by
  rw [room_advance hp]
  cases c with
  | wrArrive absolute =>
    have hle := h.counted ▸ s.writing_le
    have h₀ : s.data.waitingWriters + 1 = 0 := ho.2
    bv_omega
  | wrGiveUpStore result w =>
    have h₀ : w - 1 = 0 := ho.2
    exact .inr (hleave result w rfl (by bv_omega) ho.1)
  | wrTake => exact absurd ho.1 (by rintro ⟨⟩)
  | unWrite => exact .inl (waking_advance (m := .goto .unWake) rfl rfl)
  | unRead slot => exact .inl (waking_advance (m := .goto .unWake) rfl rfl)
  | unWake =>
    refine .inl (waking_advance (m := .call (.broadcast .readers) .unWoken) ?_ rfl)
    have ho : s.Open := ho
    simp only [rwlockNext]
    exact (if_neg fun hw => hw.2.2 ho.2).trans (if_pos ho)
  | _ => exact (h.readers ho).imp (fun hw => hw.advance hp rfl) id

theorem Attends.writers_advance {c : RwlockPlace n} {r : Errno} (h : s.Attends) (hp : s.place t = .program c r)
    (hf : (s.advance (rwlock n) t c r).Free)
    (hw : ∃ u, (((s.advance (rwlock n) t c r).room .writers).stage u).waiting = true) :
    (s.advance (rwlock n) t c r).Waking .writers ∨ ((s.advance (rwlock n) t c r).room .writers).tokens ≠ 0 ∨
      ∃ u, ((s.advance (rwlock n) t c r).place u).comes = true := by
  rw [room_advance hp] at hw ⊢
  have hcome : (Place.program c r : Place RwlockCond (RwlockPlace n)).comes = false → (∃ u, (s.place u).comes = true) →
      ∃ u, ((s.advance (rwlock n) t c r).place u).comes = true := by
    rintro hc ⟨u, hu⟩
    refine ⟨u, ?_⟩
    rwa [place_advance_of_ne]
    rintro rfl
    rw [hp, hc] at hu
    cases hu
  have hself : ∀ m, (rwlockNext c t r s.data).2 = m → (m.place r).comes = true →
      ∃ u, ((s.advance (rwlock n) t c r).place u).comes = true := by
    intro m hm hc
    refine ⟨t, ?_⟩
    rw [advance, place_goto_self, show ((rwlock n).next c t r s.data).2 = m from hm]
    exact hc
  cases c with
  | rdTake slot =>
    have h₀ : s.data.readers + 1 = 0 := hf.2
    have hfit := (h.tested.fits_program hp rfl).2.1
    have := Rwlock.toNat_succ hfit
    rw [h₀] at this
    cases this
  | wrTake => exact absurd hf.1 (by rintro ⟨⟩)
  | unWrite => exact .inl (waking_advance (m := .goto .unWake) rfl rfl)
  | unRead slot => exact .inl (waking_advance (m := .goto .unWake) rfl rfl)
  | unWake =>
    -- a writer that waits is counted
    obtain ⟨u, hu⟩ := hw
    have hf : s.Free := hf
    have hstage : (s.place u).stage .writers ≠ .out := by
      intro h₀
      have hu : ((s.place u).stage .writers).waiting = true := hu
      rw [h₀] at hu
      cases hu
    obtain ⟨c, hc, hk⟩ := h.waits u _ (Place.waitsFor_of_stage hstage)
    have hpos := h.writing_pos hc (by cases c <;> first | rfl | cases hk)
    refine .inl (waking_advance (m := .call (.signal .writers) .unWoken) ?_ rfl)
    simp only [rwlockNext]
    exact if_pos ⟨hf.1, hf.2, by bv_omega⟩
  | wrLoop absolute =>
    have hf : s.Free := hf
    refine .inr (.inr (hself (.goto .wrTake) ?_ rfl))
    simp only [rwlockNext]
    exact if_neg fun hb => hb.elim (fun hb => hb hf.1) fun hb => hb hf.2
  | wrWaited absolute =>
    by_cases hr : r = 0
    · refine .inr (.inr (hself (.goto (.wrLoop absolute)) ?_ rfl))
      simp only [rwlockNext]
      exact if_neg (not_not.mpr hr)
    · exact (h.writers hf hw).imp (fun hw => hw.advance hp rfl) (Or.imp id (hcome (by simp [Place.comes, hr])))
  | _ => exact (h.writers hf hw).imp (fun hw => hw.advance hp rfl) (Or.imp id (hcome rfl))

/-- Inside the functions a writer stays on its way. -/
theorem comes_aside {u : Thread} (hg : s.Guarded (rwlockMutex n true)) (hr : Retakes s a) (hs : step (rwlock n) s a = some s')
    (ha : Aside s s') (hn : ∀ t ∈ a.runner, ∀ c r, s.place t ≠ .program c r) (h : (s.place u).comes = true) :
    (s'.place u).comes = true := by
  rcases Place.comes_cases h with ⟨c, r, hp⟩ | ⟨hret, c, hafter, hc⟩
  · rw [ha.program u c r hp]
    rwa [hp] at h
  · have hafter' := (ha.after u).trans hafter
    rcases retaking_step hg hr hs hn hret with h' | ⟨c', hp⟩
    · exact Place.comes_of_retaking h' hafter' hc
    · rw [hp] at hafter' ⊢
      cases hafter'
      exact Place.comes_of_awaited hc

/-- Who begins to wait has to. -/
theorem Attends.begins (h : s.Attends) (hs : step (rwlock n) s a = some s')
    (ho : (s.room k).stage a.thread = .out) (he : (s'.room k).stage a.thread = .entering) :
    (k = .readers → ¬ s.Open) ∧ (k = .writers → ¬ s.Free) := by
  have hb := (room_step hs k).begins ho he
  cases hp : s.place a.thread with
  | wait k' timeout c =>
    obtain rfl : k' = k := by simpa [hp, Place.begins] using hb
    have henters := h.enters a.thread (by rw [hp]; rfl)
    rw [hp] at henters
    exact ⟨fun hk => henters.1 (congrArg some hk), fun hk => henters.2 (congrArg some hk)⟩
  | _ => simp [hp, Place.begins] at hb

theorem Attends.readers_aside (h : s.Attends) (hs : step (rwlock n) s a = some s') (ha : Aside s s') (ho : s.Open) :
    s'.Waking .readers ∨ Provided (fun _ => true) (s'.room .readers) := by
  rcases h.readers ho with ⟨v, hv⟩ | hprov
  · rcases Place.wakes_cases hv with ⟨r, hp⟩ | ⟨hk, -⟩ | ⟨-, c, hp⟩
    · exact .inl ⟨v, by rw [ha.program v _ r hp]; rfl⟩
    · cases hk
    · by_cases hr : v ∈ a.runner
      · cases a with
        | run u env =>
          cases hr
          simp only [step] at hs
          split at hs
          case isTrue => cases hs
          case isFalse => exact .inr (.start card_le_semMaxCount (h.sound .readers) (exec_broadcast hp hs).2 _)
        | _ => cases hr
      · exact .inl ⟨v, by rw [place_step hs hr (by rw [hp]; rfl)]; exact hv⟩
  · exact .inr (hprov.move (fun hout he => absurd ho ((h.begins hs hout he).1 rfl)) (by rintro _ _ _ ⟨⟩) (room_step hs .readers).move)

/-- A writer that gets a token is on its way. -/
theorem Attends.comes_of_out {u : Thread} (h : s.Attends) (hs : step (rwlock n) s a = some s') (ha : Aside s s')
    (hn : ∀ t ∈ a.runner, ∀ c r, s.place t ≠ .program c r)
    (hi : (s.room .writers).stage u = .ready ∨ (s.room .writers).stage u = .blocked)
    (ho : (s'.room .writers).stage u = .out) : (s'.place u).comes = true := by
  obtain ⟨c, hp⟩ := wakened_step hs hn hi ho
  have hne : (s.place u).stage .writers ≠ .out := by
    rcases hi with hi | hi <;> exact ne_of_eq_of_ne hi (by rintro ⟨⟩)
  obtain ⟨c', hc', hk⟩ := h.waits u _ (Place.waitsFor_of_stage hne)
  refine Place.comes_of_retaking (by rw [hp]; rfl) ((ha.after u).trans hc') hk

theorem Attends.writers_aside (h : s.Attends) (hr : Retakes s a) (hs : step (rwlock n) s a = some s') (ha : Aside s s')
    (hn : ∀ t ∈ a.runner, ∀ c r, s.place t ≠ .program c r) (hf : s.Free)
    (hw : ∃ u, ((s'.room .writers).stage u).waiting = true) :
    s'.Waking .writers ∨ (s'.room .writers).tokens ≠ 0 ∨ ∃ u, (s'.place u).comes = true := by
  have hmove := (room_step hs .writers).move
  have hsound := h.sound .writers
  obtain ⟨u₀, hu₀⟩ := hw
  have hwait : ((s.room .writers).stage u₀).waiting = true := by
    rcases hmove.waiting hu₀ with hw | ⟨-, ho, he⟩
    · exact hw
    · exact absurd hf ((h.begins hs ho he).2 rfl)
  rcases h.writers hf ⟨u₀, hwait⟩ with ⟨v, hv⟩ | hk | ⟨u, hu⟩
  · rcases Place.wakes_cases hv with ⟨r, hp⟩ | ⟨-, c, hp⟩ | ⟨hk, -⟩
    · exact .inl ⟨v, by rw [ha.program v _ r hp]; rfl⟩
    · by_cases hrun : v ∈ a.runner
      case neg => exact .inl ⟨v, by rw [place_step hs hrun (by rw [hp]; rfl)]; exact hv⟩
      refine .inr ?_
      have hposts : Posts semMaxCount (min 1 (s.room .writers).waiters)
          { s.room .writers with waiters := (s.room .writers).waiters - min 1 (s.room .writers).waiters }
          (s'.room .writers) := by
        cases a with
        | run t env =>
          cases hrun
          simp only [step] at hs
          split at hs
          case isTrue => cases hs
          case isFalse => exact (exec_signal hp hs).2
        | _ => cases hrun
      rcases Served.start card_le_semMaxCount hsound hposts with hwoken | hnone | ⟨hk, -⟩
      · obtain ⟨u, hu, ho⟩ := Watch.woken_start_next hwoken
        refine .inr ⟨u, h.comes_of_out hs ha hn ?_ ho⟩
        rcases hposts.stage_eq u with he | ⟨hb, -⟩
        · rw [ho] at he
          rw [← he] at hu
          cases hu
        · exact .inr hb
      · have hstill : ((Watch.start (s.room .writers)).next (s'.room .writers)).still u₀ = true :=
          Bool.and_eq_true_iff.mpr ⟨hwait, hu₀⟩
        rw [hnone u₀] at hstill
        cases hstill
      · exact .inl hk
    · cases hk
  · refine .inr ?_
    rcases hmove.of_tokens (hsound.idle hk) hk with ⟨ho, he⟩ | ⟨hi, hroom⟩ | ⟨hle, -⟩
    · exact absurd hf ((h.begins hs ho he).2 rfl)
    · refine .inr ⟨a.thread, h.comes_of_out hs ha hn (.inl hi) ?_⟩
      rw [hroom, Room.stage_setStage]
    · exact .inl (by omega)
  · exact .inr (.inr ⟨u, comes_aside h.tested.guarded hr hs ha hn hu⟩)

theorem Attends.advance {c : RwlockPlace n} {r : Errno} (h : s.Attends) (hp : s.place t = .program c r)
    (ht : (s.advance (rwlock n) t c r).Tested true) (hh : (s.advance (rwlock n) t c r).Held)
    (hleave : ∀ result w, c = .wrGiveUpStore result w → w = 1 → s.data.writer = none →
      Provided (fun _ => true) (s.room .readers)) : (s.advance (rwlock n) t c r).Attends := by
  have hself : (s.advance (rwlock n) t c r).place t = (rwlockNext c t r s.data).2.place r := place_goto_self ..
  have hafter : ((s.advance (rwlock n) t c r).place t).after = (rwlockNext c t r s.data).2.after := by
    rw [hself, Outcome.after_place]
  have hother : ∀ u, u ≠ t → s.Owns u → (s.advance (rwlock n) t c r).data = s.data := by
    intro u hu hown
    rcases data_next c t r s.data with hd | hg
    · exact hd
    · exact absurd (hown.eq (owns_of_guarded h.tested.guarded hp (hg r))) hu
  refine ⟨ht, hh, fun k => by rw [room_advance hp]; exact h.sound k, ?_, fun u result w hu => ?_, fun u k hu => ?_,
    fun u hu => ?_, fun ho => h.readers_advance hp hleave ho, fun hf hw => h.writers_advance hp hf hw⟩
  · have hw := writing_advance hp
    have hc := counted_next (t := t) (r := r) (c := c) (fun result w hc => (h.loaded t result w (by rw [hp, hc]; rfl)).2)
      (fun hc => h.writing_pos (by rw [hp]; rfl) hc) (h.counted ▸ s.writing_le)
    have := h.counted
    change (rwlockNext c t r s.data).1.waitingWriters.toNat = _
    omega
  · by_cases hut : u = t
    · subst hut
      rw [hafter] at hu
      obtain ⟨hgo, hw⟩ := loaded_next hu
      exact ⟨⟨r, by rw [hself, hgo]; rfl⟩, hw⟩
    · rw [place_advance_of_ne hut] at hu ⊢
      obtain ⟨⟨r', hp'⟩, hw⟩ := h.loaded u result w hu
      rw [hother u hut (owns_of_guarded h.tested.guarded hp' rfl)]
      exact ⟨⟨r', hp'⟩, hw⟩
  · by_cases hut : u = t
    · subst hut
      rw [hself] at hu
      rw [hafter]
      exact (waits_next hu).1
    · rw [place_advance_of_ne hut] at hu ⊢
      exact h.waits u k hu
  · by_cases hut : u = t
    · subst hut
      rw [hself] at hu ⊢
      have hdata : ((rwlockNext c u r s.data).2.place r).enters = true → (rwlockNext c u r s.data).1 = s.data := by
        intro hu
        cases c with
        | rdTake | wrArrive | wrGiveUpStore | wrTake | unWrite | unRead => cases hu
        | _ => rfl
      have hd : (s.advance (rwlock n) u c r).data = s.data := hdata hu
      refine ⟨fun hk ho => ?_, fun hk hf => ?_⟩
      · rw [Open, hd] at ho
        exact (waits_next hk).2.1 rfl ho
      · rw [Free, hd] at hf
        exact (waits_next hk).2.2 rfl hf
    · rw [place_advance_of_ne hut] at hu ⊢
      rw [Open, Free, hother u hut (owns_of_enters h.tested.guarded hu)]
      exact h.enters u hu

theorem Attends.call {op : RwlockOp} {r : Errno} (h : s.Attends) (hp : s.place t = .idle r)
    (ht : (s.goto t (.program ((rwlock n).start op) 0)).Tested true) (hh : (s.goto t (.program ((rwlock n).start op) 0)).Held) :
    (s.goto t (.program ((rwlock n).start op) 0)).Attends := by
  have hplace : ∀ u, u ≠ t → (s.goto t (.program ((rwlock n).start op) 0)).place u = s.place u :=
    fun u hu => Function.update_of_ne hu _ _
  have hroom : ∀ k, (s.goto t (.program ((rwlock n).start op) 0)).room k = s.room k :=
    fun k => room_goto_of_eq (by rw [hp]; rfl)
  have hkeep : ∀ (p : Place RwlockCond (RwlockPlace n) → Bool), p (.idle r) = false → (∃ u, p (s.place u) = true) →
      ∃ u, p ((s.goto t (.program ((rwlock n).start op) 0)).place u) = true := by
    rintro p hidle ⟨u, hu⟩
    refine ⟨u, ?_⟩
    rwa [hplace]
    rintro rfl
    rw [hp, hidle] at hu
    cases hu
  have hstart : (op.start : RwlockPlace n).writing = false ∧ ∀ result w, (op.start : RwlockPlace n) ≠ .wrGiveUpStore result w := by
    cases op with
    | timedrdlock absolute => cases absolute <;> exact ⟨rfl, nofun⟩
    | timedwrlock absolute => cases absolute <;> exact ⟨rfl, nofun⟩
    | _ => exact ⟨rfl, nofun⟩
  refine ⟨ht, hh, fun k => by rw [hroom]; exact h.sound k, ?_, fun u result w hu => ?_, fun u k hu => ?_, fun u hu => ?_,
    fun ho => ?_, fun hf hw => ?_⟩
  · refine h.counted.trans (census_congr fun u => ?_)
    by_cases hut : u = t
    · subst hut
      rw [place_goto_self, hp]
      exact hstart.1.symm
    · rw [hplace u hut]
  · by_cases hut : u = t
    · subst hut
      rw [place_goto_self] at hu
      exact absurd (Option.some.inj hu) (hstart.2 result w)
    · rw [hplace u hut] at hu ⊢
      exact h.loaded u result w hu
  · by_cases hut : u = t
    · subst hut
      rw [place_goto_self] at hu
      cases hu
    · rw [hplace u hut] at hu ⊢
      exact h.waits u k hu
  · by_cases hut : u = t
    · subst hut
      rw [place_goto_self] at hu
      cases hu
    · rw [hplace u hut] at hu ⊢
      exact h.enters u hu
  · rw [hroom]
    exact (h.readers ho).imp (hkeep (fun p => p.wakes .readers) rfl) id
  · rw [hroom] at hw ⊢
    exact (h.writers hf hw).imp (hkeep (fun p => p.wakes .writers) rfl) (Or.imp id (hkeep Place.comes rfl))

theorem Attends.step (h : s.Attends) (hk : Heeded s a) (hs : step (rwlock n) s a = some s') : s'.Attends := by
  have ht := tested_step h.tested (fun _ => hk.1) hs
  have hh := held_step h.held hs
  have hsound : ∀ k, Sound semMaxCount 0 (s'.room k) := fun k =>
    sound_step (h.sound k) (fun u _ hr => absurd hr (not_refused h.tested.guarded)) hs
  rcases step_cases hs with ⟨t, env, c, r, rfl, hp, rfl⟩ | ⟨t, op, r, rfl, hp, rfl⟩ | ⟨ha, hn⟩
  · exact h.advance hp ht hh fun result w hc => hk.2 t rfl result w r (hp.trans (by rw [hc]))
  · exact h.call hp ht hh
  · refine ⟨ht, hh, hsound, ?_, fun u result w hu => ?_, fun u k hu => ?_, fun u hu => ?_, fun ho => ?_, fun hf hw => ?_⟩
    · rw [ha.data]
      exact h.counted.trans (census_congr fun u => by rw [ha.after u])
    · obtain ⟨⟨r, hp⟩, hw⟩ := h.loaded u result w ((ha.after u).symm.trans hu)
      rw [ha.data]
      exact ⟨⟨r, ha.program u _ r hp⟩, hw⟩
    · rw [ha.after u]
      exact h.waits u k (waitsFor_step hs hn hu)
    · rw [Open, Free, ha.data]
      obtain ⟨h₁, h₂⟩ := h.enters u (enters_step hs hn hu)
      exact ⟨fun hk => h₁ (waitsFor_step hs hn hk), fun hk => h₂ (waitsFor_step hs hn hk)⟩
    · rw [Open, ha.data] at ho
      exact h.readers_aside hs ha ho
    · rw [Free, ha.data] at hf
      exact h.writers_aside hk.1 hs ha hn hf hw

theorem rests_of_wakes {p : Place RwlockCond (RwlockPlace n)} (h : p.wakes k = true) : p.rests = false := by
  rcases Place.wakes_cases h with ⟨r, rfl⟩ | ⟨-, c, rfl⟩ | ⟨-, c, rfl⟩ <;> rfl

/-- Who is on its way is not blocked, or the owner of the mutex is not. -/
theorem Attends.not_rests (h : s.Attends) (hc : (s.place t).comes = true) : ∃ u, (s.place u).rests = false := by
  by_cases hm : (s.place t).awaitsMutex = true
  · obtain ⟨u, -, hm, hst, hidle⟩ := h.tested.guarded.released h.held hm
    refine ⟨u, ?_⟩
    cases hp : s.place u with
    | idle r => exact absurd hp (hidle r)
    | mutexBlocked timeout ret =>
      rw [hp] at hm
      cases hm
    | semBlocked k timeout c => exact absurd (by rw [hp]; exact if_pos rfl) (hst k)
    | _ => rfl
  · refine ⟨t, ?_⟩
    rcases Place.comes_cases hc with ⟨c, r, hp⟩ | ⟨hret, -⟩
    · rw [hp]
      rfl
    · cases hp : s.place t with
      | mutexBlocked timeout ret =>
        rw [hp] at hm
        exact absurd rfl hm
      | idle r =>
        rw [hp] at hret
        cases hret
      | semBlocked k timeout c =>
        rw [hp] at hret
        cases hret
      | _ => rfl

/-- **Nobody waits in vain**: in every run whose writers leave no reader behind, when a thread waits for a lock that it
could have, there is a thread inside the functions of the lock that does not wait. -/
theorem wakes_of_path (hp : Path (Next (step (rwlock n))) Heeded (init .normal (Rwlock.init n)) as s)
    (hb : (s.place t).awaits .readers = true ∧ s.Open ∨ (s.place t).awaits .writers = true ∧ s.Free) :
    ∃ u, (s.place u).rests = false := by
  have h : s.Attends := hp.invariant (I := Attends) (fun _ _ _ h hk hs => h.step hk hs) attends_init
  rcases hb with ⟨hb, ho⟩ | ⟨hb, hf⟩
  · have hst := Place.awaits_iff.mp hb
    rcases h.readers ho with ⟨u, hu⟩ | hprov
    · exact ⟨u, rests_of_wakes hu⟩
    · exact absurd hst (hprov.awake t rfl)
  · have hst : (s.room .writers).stage t = .blocked := Place.awaits_iff.mp hb
    rcases h.writers hf ⟨t, by rw [hst]; rfl⟩ with ⟨u, hu⟩ | hk | ⟨u, hu⟩
    · exact ⟨u, rests_of_wakes hu⟩
    · exact absurd hst ((h.sound .writers).idle hk t)
    · exact h.not_rests hu

end Monitor

end Aixos.Posix

namespace Aixos.Posix.Monitor

open Transition TokenRoom

variable {n : ℕ}

instance (s : RwlockState n) : Decidable s.Open :=
  inferInstanceAs (Decidable (s.data.writer = none ∧ s.data.waitingWriters = 0))

instance (s : RwlockState n) : Decidable s.Free :=
  inferInstanceAs (Decidable (s.data.writer = none ∧ s.data.readers = 0))

/-- Thread 0 reads, thread 1 waits to write for some time, and thread 2 waits because of it. When the time has passed, thread
0 gives the lock up, and thread 1 returns. -/
def giveUpLast : List (Action RwlockOp) :=
  callRwlock 0 .rdlock 13 ++ callRwlock 1 (.timedwrlock (some ⟨1, 0⟩)) 14 ++ callRwlock 2 .rdlock 11 ++ [.expire 1] ++
    callRwlock 0 .unlock 13 ++ List.replicate 10 (.run 1 ⟨⟨0, 0⟩, false, []⟩)

/-- Thread 0 reads, thread 1 waits to write, and thread 0 gives the lock up. -/
def giveUpRead : List (Action RwlockOp) := callRwlock 0 .rdlock 13 ++ callRwlock 1 .wrlock 13 ++ callRwlock 0 .unlock 7

/-- Nobody has the lock and no writer waits. Thread 2 waits to read it for ever. -/
theorem giveUpLast_left : ∃ s, run (step (rwlock 4)) (init .normal (Rwlock.init 4)) giveUpLast = some s ∧
    (s.place 2).awaits .readers = true ∧ s.Open ∧ s.Free ∧ ∀ u, (s.place u).rests = true := by
  obtain ⟨s, hs, hp⟩ := exists_run (step (rwlock 4)) (init .normal (Rwlock.init 4)) giveUpLast
    (fun s => decide ((s.place 2).awaits .readers = true ∧ s.Open ∧ s.Free ∧ ∀ u, (s.place u).rests = true))
    (by decide +kernel)
  exact ⟨s, hs, of_decide_eq_true hp⟩

/-- The result with which the thread comes back from the mutex after a wait. -/
def relocks (p : Place RwlockCond (RwlockPlace n)) : Option Code :=
  match p with
  | .locked result (.wait ..) => some result
  | _ => none

theorem relocks_eq {p : Place RwlockCond (RwlockPlace n)} {result : Code} :
    relocks p = some result ↔ ∃ waited c, p = .locked result (.wait waited c) := by
  unfold relocks
  split
  · simp
  case h_2 h =>
    refine ⟨nofun, ?_⟩
    rintro ⟨waited, c, rfl⟩
    exact absurd rfl (h result waited c)

instance (s : RwlockState n) (a : Action RwlockOp) : Decidable (Retakes s a) :=
  decidable_of_iff (∀ t ∈ a.runner, ∀ result ∈ relocks (s.place t), result = Code.ok)
    ⟨fun h t ht result waited c hp => h t ht result (relocks_eq.mpr ⟨waited, c, hp⟩), fun h t ht result hr =>
      have ⟨waited, c, hp⟩ := relocks_eq.mp hr
      h t ht result waited c hp⟩

/-- A writer gives up that has found no other. -/
def givesUpLast (p : Place RwlockCond (RwlockPlace n)) : Bool :=
  match p with
  | .program (.wrGiveUpStore _ w) _ => w = 1
  | _ => false

theorem givesUpLast_iff {p : Place RwlockCond (RwlockPlace n)} :
    givesUpLast p = true ↔ ∃ result r, p = .program (.wrGiveUpStore result 1) r := by
  unfold givesUpLast
  split
  · simp
  case h_2 h =>
    refine ⟨nofun, ?_⟩
    rintro ⟨result, r, rfl⟩
    exact absurd rfl (h result 1 r)

instance (group : Thread → Bool) (r : Room Thread) : Decidable (Provided group r) :=
  decidable_of_iff ((∀ i, group i = true → r.stage i ≠ .blocked) ∧ r.coming group ≤ r.tokens)
    ⟨fun h => ⟨h.1, h.2⟩, fun h => ⟨h.awake, h.tokens⟩⟩

instance (s : RwlockState n) (a : Action RwlockOp) : Decidable (LeavesNobody s a) :=
  decidable_of_iff (∀ t ∈ a.runner, givesUpLast (s.place t) = true → s.data.writer = none →
      Provided (fun _ => true) (s.room .readers))
    ⟨fun h t ht result w r hp hw => h t ht (givesUpLast_iff.mpr ⟨result, r, by rw [hp, hw]⟩), fun h t ht hl =>
      have ⟨result, r, hp⟩ := givesUpLast_iff.mp hl
      h t ht result 1 r hp rfl⟩

instance (s : RwlockState n) (a : Action RwlockOp) : Decidable (Heeded s a) :=
  inferInstanceAs (Decidable (Retakes s a ∧ LeavesNobody s a))

theorem giveUpRead_wakes : ∃ s, Path (Next (step (rwlock 4))) Heeded (init .normal (Rwlock.init 4)) giveUpRead s ∧
    ((s.place 1).awaits .writers = true ∧ s.Free) ∧ ∃ u, (s.place u).rests = false := by
  obtain ⟨s, hs, hp⟩ := exists_path (step (rwlock 4)) Heeded (init .normal (Rwlock.init 4)) giveUpRead
    (fun s => decide ((s.place 1).awaits .writers = true ∧ s.Free)) (by decide +kernel)
  have hb := of_decide_eq_true hp
  exact ⟨s, hs, hb, wakes_of_path hs (.inr hb)⟩

end Aixos.Posix.Monitor
