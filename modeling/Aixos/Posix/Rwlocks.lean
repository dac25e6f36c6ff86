import Aixos.Kernel.Rwlock
import Aixos.Posix.Programs
import Mathlib.Algebra.BigOperators.Fin

/-!
# Who holds a read-write lock

* `excludes_of_path` — a writer excludes readers and other writers, the counters and the slots of
  the lock are what its threads hold, and an unlock by a thread that holds nothing changes nothing.

What the threads hold is read off the run: `Ledger` is the account of the steps in which they take
the lock and give it up.
-/

open Transition

namespace Aixos.Posix

variable {n : ℕ}

/-- Where a thread holds the mutex of the lock; `retakes` says that who has waited has always taken it again. -/
def rwlockMutex (n : ℕ) (retakes : Bool) : Discipline (RwlockPlace n) where
  guarded c r :=
    match c with
    | .rdLocked .. | .wrLocked .. | .unLocked => r = 0
    | .rdWaited .. | .wrWaited _ => retakes || r = 0
    | .wrGiveUp _ | .wrGiveUpStore .. => retakes
    | .rdTry .. | .rdLoop .. | .rdCheck | .rdSlot | .rdTake _ | .wrOwn .. | .wrTry .. | .wrArrive _ | .wrLoop _ | .wrTake
    | .unDecide | .unWrite | .unRead _ | .unWake | .unWoken => true
    | .rdEntry .. | .wrEntry .. | .unEntry | .unLeave _ | .failed _ | .leave => false
  may c r :=
    match c with
    | .rdLocked .. | .wrLocked .. | .unLocked => r = 0
    | .rdTry .. | .rdLoop .. | .rdWaited .. | .rdCheck | .rdSlot | .rdTake _ | .wrOwn .. | .wrTry .. | .wrArrive _ | .wrLoop _
    | .wrWaited _ | .wrGiveUp _ | .wrGiveUpStore .. | .wrTake | .unDecide | .unWrite | .unRead _ | .unWake | .unWoken => true
    | .rdEntry .. | .wrEntry .. | .unEntry | .unLeave _ | .failed _ | .leave => false
  retakes := retakes = true

theorem allows_waitCall {γ : Type} {D : Discipline γ} {k : RwlockCond} {absolute : Option Timespec} {c c' : γ} {r : Errno}
    (hg : D.guarded c r = true) (h : D.AfterWait c') : D.Allows c r (.call (waitCall k absolute) c') := by
  cases absolute <;> exact ⟨hg, h⟩

theorem rwlock_disciplined (retakes : Bool) : Disciplined (rwlock n) (rwlockMutex n retakes) := by
  refine ⟨fun op => ?_, fun c t r lock => ?_⟩
  · change (rwlockMutex n retakes).guarded op.start 0 = false
    cases op with
    | timedrdlock absolute => cases absolute <;> rfl
    | timedwrlock absolute => cases absolute <;> rfl
    | _ => rfl
  have hwait : ∀ c' : RwlockPlace n, (∀ r, (rwlockMutex n retakes).guarded c' r = (retakes || decide (r = 0))) →
      (∀ r, (rwlockMutex n retakes).may c' r = true) → (rwlockMutex n retakes).AfterWait c' := by
    intro c' hg hm
    refine ⟨fun r hr => ?_, hm⟩
    rw [hg, Bool.or_eq_true, decide_eq_true_eq] at hr
    exact hr.symm
  have hlock : ∀ c' : RwlockPlace n, (∀ r, (rwlockMutex n retakes).guarded c' r = decide (r = 0)) →
      (rwlockMutex n retakes).may c' 0 = true → (rwlockMutex n retakes).AfterLock c' :=
    fun c' hg hm => ⟨fun r hr => by rw [hg] at hr; exact of_decide_eq_true hr, hm⟩
  have hdone : ∀ c' : RwlockPlace n, (∀ r, (rwlockMutex n retakes).may c' r = decide (r = 0)) → r ≠ 0 →
      (rwlockMutex n retakes).may c' r = false := fun c' hm hr => by rw [hm, decide_eq_false hr]
  simp only [rwlock]
  cases c with
  | rdEntry absolute tryOnly => exact ⟨rfl, hlock _ (fun _ => rfl) rfl⟩
  | wrEntry absolute tryOnly => exact ⟨rfl, hlock _ (fun _ => rfl) rfl⟩
  | unEntry => exact ⟨rfl, hlock _ (fun _ => rfl) rfl⟩
  | rdLocked absolute tryOnly =>
    simp only [rwlockNext]
    split
    case isTrue h => exact hdone _ (fun _ => rfl) h
    case isFalse h => exact ⟨fun _ => decide_eq_true (not_not.mp h), fun _ => rfl⟩
  | wrLocked absolute tryOnly =>
    simp only [rwlockNext]
    split
    case isTrue h => exact hdone _ (fun _ => rfl) h
    case isFalse h => exact ⟨fun _ => decide_eq_true (not_not.mp h), fun _ => rfl⟩
  | unLocked =>
    simp only [rwlockNext]
    split
    case isTrue h => exact hdone _ (fun _ => rfl) h
    case isFalse h => exact ⟨fun _ => decide_eq_true (not_not.mp h), fun _ => rfl⟩
  | rdTry absolute tryOnly slot =>
    simp only [rwlockNext]
    split
    · exact fun _ => rfl
    · exact ⟨fun _ => rfl, fun _ => rfl⟩
  | rdLoop absolute slot =>
    simp only [rwlockNext]
    split
    · exact allows_waitCall rfl (hwait _ (fun _ => rfl) fun _ => rfl)
    · exact ⟨fun _ => rfl, fun _ => rfl⟩
  | rdWaited absolute slot =>
    simp only [rwlockNext]
    split
    · exact fun _ => rfl
    case isFalse h => exact ⟨fun _ => by simpa [rwlockMutex] using .inr (not_not.mp h), fun _ => rfl⟩
  | rdCheck =>
    simp only [rwlockNext]
    split
    · exact fun _ => rfl
    · exact ⟨fun _ => rfl, fun _ => rfl⟩
  | rdSlot =>
    simp only [rwlockNext]
    split
    · exact fun _ => rfl
    · split
      · exact fun _ => rfl
      · exact ⟨fun _ => rfl, fun _ => rfl⟩
  | rdTake slot => exact fun _ => rfl
  | wrOwn absolute tryOnly =>
    simp only [rwlockNext]
    split
    · exact fun _ => rfl
    · exact ⟨fun _ => rfl, fun _ => rfl⟩
  | wrTry absolute tryOnly =>
    simp only [rwlockNext]
    split
    · exact fun _ => rfl
    · exact ⟨fun _ => rfl, fun _ => rfl⟩
  | wrArrive absolute => exact ⟨fun _ => rfl, fun _ => rfl⟩
  | wrLoop absolute =>
    simp only [rwlockNext]
    split
    · exact allows_waitCall rfl (hwait _ (fun _ => rfl) fun _ => rfl)
    · exact ⟨fun _ => rfl, fun _ => rfl⟩
  | wrWaited absolute =>
    simp only [rwlockNext]
    split
    · exact ⟨fun h => by simpa [rwlockMutex] using .inl h, fun _ => rfl⟩
    case isFalse h => exact ⟨fun _ => by simpa [rwlockMutex] using .inr (not_not.mp h), fun _ => rfl⟩
  | wrGiveUp result => exact ⟨id, id⟩
  | wrGiveUpStore result waitingWriters => exact fun _ => rfl
  | wrTake => exact fun _ => rfl
  | unDecide =>
    simp only [rwlockNext]
    split
    · exact ⟨fun _ => rfl, fun _ => rfl⟩
    · split
      · exact fun _ => rfl
      · split
        · exact ⟨fun _ => rfl, fun _ => rfl⟩
        · exact fun _ => rfl
  | unWrite => exact ⟨fun _ => rfl, fun _ => rfl⟩
  | unRead slot => exact ⟨fun _ => rfl, fun _ => rfl⟩
  | unWake =>
    simp only [rwlockNext]
    split
    · exact ⟨fun _ _ => rfl, fun _ _ => rfl⟩
    · split
      · exact ⟨fun _ _ => rfl, fun _ _ => rfl⟩
      · exact ⟨fun _ => rfl, fun _ => rfl⟩
  | unWoken => exact fun _ => rfl
  | unLeave result => exact rfl
  | failed result => exact rfl
  | leave => exact rfl

/-- What a thread does with the lock. -/
inductive RwlockEvent where
  | read (t : Thread)
  | write (t : Thread)
  | unread (t : Thread)
  | unwrite (t : Thread)

/-- What the threads hold. -/
structure Ledger where
  /-- How many read locks. -/
  reads : Thread → ℕ
  /-- The write lock. -/
  writes : Thread → Bool

def Ledger.next (L : Ledger) (e : RwlockEvent) : Ledger :=
  match e with
  | .read t => { L with reads := Function.update L.reads t (L.reads t + 1) }
  | .write t => { L with writes := Function.update L.writes t true }
  | .unread t => { L with reads := Function.update L.reads t (L.reads t - 1) }
  | .unwrite t => { L with writes := Function.update L.writes t false }

/-- What the threads hold after these events. -/
def ledger (es : List RwlockEvent) : Ledger := es.foldl Ledger.next ⟨fun _ => 0, fun _ => false⟩

theorem ledger_append (es es' : List RwlockEvent) : ledger (es ++ es') = es'.foldl Ledger.next (ledger es) :=
  List.foldl_append

namespace Rwlock

variable {lock : Rwlock n} {t u : Thread} {i j : Fin n} {L : Ledger}

theorem readerSlot_false : lock.readerSlot t false = none ↔ ∀ i, lock.readerThreads i ≠ some t := by
  unfold readerSlot
  split
  case h_1 i h =>
    have := List.find?_some h
    simp only [decide_eq_true_eq] at this
    exact ⟨nofun, fun hn => absurd this (hn i)⟩
  case h_2 h =>
    rw [List.find?_eq_none] at h
    exact ⟨fun _ i hi => h i (List.mem_finRange i) (decide_eq_true hi), fun _ => rfl⟩

/-- A slot is the thread's, or it is free and the thread has none. -/
theorem readerSlot_some {allocate : Bool} (h : lock.readerSlot t allocate = some i) :
    lock.readerThreads i = some t ∨ allocate = true ∧ lock.readerThreads i = none ∧ ∀ j, lock.readerThreads j ≠ some t := by
  unfold readerSlot at h
  split at h
  case h_1 j hj =>
    cases h
    have := List.find?_some hj
    exact .inl (of_decide_eq_true this)
  case h_2 hn =>
    rw [List.find?_eq_none] at hn
    split at h
    case isTrue ha =>
      have := List.find?_some h
      exact .inr ⟨ha, of_decide_eq_true this, fun j hj => hn j (List.mem_finRange j) (decide_eq_true hj)⟩
    case isFalse => cases h

/-- The lock is as the ledger says. -/
structure Keeps (lock : Rwlock n) (L : Ledger) : Prop where
  writer : ∀ t, L.writes t = true ↔ lock.writer = some t
  exclusive : lock.writer ≠ none → lock.readers = 0
  sum : lock.readers.toNat = ∑ i, (lock.readerCounts i).toNat
  /-- The slots with a count that is not zero are those of threads. -/
  used : ∀ i, lock.readerCounts i = 0 ↔ lock.readerThreads i = none
  /-- A thread has one slot. -/
  single : ∀ i j t, lock.readerThreads i = some t → lock.readerThreads j = some t → i = j
  /-- A slot counts the read locks of its thread. -/
  counts : ∀ i t, lock.readerThreads i = some t → L.reads t = (lock.readerCounts i).toNat
  /-- Who has no slot has no read lock. -/
  none : ∀ t, (∀ i, lock.readerThreads i ≠ some t) → L.reads t = 0

theorem keeps_init : (Rwlock.init n).Keeps (ledger []) where
  writer t := ⟨nofun, nofun⟩
  exclusive h := absurd rfl h
  sum := by simp [Rwlock.init]
  used i := ⟨fun _ => rfl, fun _ => rfl⟩
  single i j t h := by cases h
  counts i t h := by cases h
  none t _ := rfl

theorem sum_update (f : Fin n → Word) (i : Fin n) (w : Word) :
    ∑ j, (Function.update f i w j).toNat + (f i).toNat = ∑ j, (f j).toNat + w.toNat := by
  have hu : (fun j => (Function.update f i w j).toNat) = Function.update (fun j => (f j).toNat) i w.toNat := by
    funext j
    by_cases hj : j = i
    · subst hj
      simp
    · simp [hj]
  rw [hu, Finset.sum_update_of_mem (Finset.mem_univ i)]
  have := Finset.sum_eq_add_sum_sdiff_singleton_of_mem (Finset.mem_univ i) fun j => (f j).toNat
  omega

theorem Keeps.count_le (h : lock.Keeps L) (i : Fin n) : (lock.readerCounts i).toNat ≤ lock.readers.toNat := by
  rw [h.sum]
  exact Finset.single_le_sum (f := fun i => (lock.readerCounts i).toNat) (fun _ _ => Nat.zero_le _) (Finset.mem_univ i)

/-- A writer excludes readers. -/
theorem Keeps.no_reads (h : lock.Keeps L) (hw : lock.writer ≠ .none) (t : Thread) : L.reads t = 0 := by
  refine h.none t fun i hi => ?_
  have hle := h.count_le i
  rw [h.exclusive hw] at hle
  have : lock.readerCounts i = 0 := by bv_omega
  rw [(h.used i).mp this] at hi
  cases hi

theorem toNat_succ {w : Word} (h : w ≠ uint32Max) : (w + 1).toNat = w.toNat + 1 := by
  have : w.toNat ≠ 2 ^ 32 - 1 := fun hw => h (BitVec.eq_of_toNat_eq (by simpa [uint32Max] using hw))
  bv_omega

/-- A reader takes the lock. -/
theorem Keeps.read (h : lock.Keeps L) (hw : lock.writer = .none) (hr : lock.readers ≠ uint32Max)
    (hs : lock.readerSlot t true = some i) (hc : lock.readerCounts i ≠ uint32Max) :
    (lock.read t i).Keeps (L.next (.read t)) := by
  have hslot := readerSlot_some hs
  have hcount : L.reads t = (lock.readerCounts i).toNat := by
    rcases hslot with hi | ⟨-, hi, hn⟩
    · exact h.counts i t hi
    · rw [h.none t hn, (h.used i).mpr hi]
      rfl
  have hother : ∀ j u, j ≠ i → lock.readerThreads j = some u → u ≠ t := by
    rintro j u hj hju rfl
    rcases hslot with hi | ⟨-, -, hn⟩
    · exact hj (h.single j i u hju hi)
    · exact hn j hju
  have hthread : ∀ j, (lock.read t i).readerThreads j = if j = i then some t else lock.readerThreads j :=
    fun j => Function.update_apply ..
  have hcounts : ∀ j, (lock.read t i).readerCounts j = if j = i then lock.readerCounts i + 1 else lock.readerCounts j :=
    fun j => Function.update_apply ..
  have hreads : ∀ u, (L.next (.read t)).reads u = if u = t then L.reads t + 1 else L.reads u := fun u => Function.update_apply ..
  refine ⟨h.writer, fun hne => absurd hw hne, ?_, fun j => ?_, fun j k u hj hk => ?_, fun j u hj => ?_, fun u hu => ?_⟩
  · have := sum_update lock.readerCounts i (lock.readerCounts i + 1)
    have hsum := h.sum
    rw [toNat_succ hc] at this
    change (lock.readers + 1).toNat = ∑ j, (Function.update lock.readerCounts i (lock.readerCounts i + 1) j).toNat
    rw [toNat_succ hr]
    omega
  · rw [hthread, hcounts]
    split
    · have := toNat_succ hc
      exact ⟨fun h₀ => by rw [h₀] at this; simp at this, nofun⟩
    · exact h.used j
  · rw [hthread] at hj hk
    split at hj <;> split at hk
    case isTrue.isTrue h₁ h₂ => rw [h₁, h₂]
    case isTrue.isFalse h₁ h₂ =>
      cases hj
      exact absurd rfl (hother k t h₂ hk)
    case isFalse.isTrue h₁ h₂ =>
      cases hk
      exact absurd rfl (hother j t h₁ hj)
    case isFalse.isFalse => exact h.single j k u hj hk
  · rw [hthread] at hj
    rw [hcounts, hreads]
    split at hj
    case isTrue h₁ =>
      cases hj
      rw [if_pos rfl, if_pos h₁, toNat_succ hc, hcount]
    case isFalse h₁ =>
      rw [if_neg (hother j u h₁ hj), if_neg h₁]
      exact h.counts j u hj
  · have hut : u ≠ t := by
      rintro rfl
      exact hu i (by rw [hthread, if_pos rfl])
    rw [hreads, if_neg hut]
    refine h.none u fun j hj => ?_
    by_cases hji : j = i
    · subst hji
      rcases hslot with hi | ⟨-, hi, -⟩
      · exact hut (Option.some.inj (hj.symm.trans hi))
      · rw [hi] at hj
        cases hj
    · exact hu j (by rw [hthread, if_neg hji, hj])

/-- A reader gives the lock up. -/
theorem Keeps.unread (h : lock.Keeps L) (hi : lock.readerThreads i = some t) (hc : lock.readerCounts i ≠ 0) :
    (lock.unread i).Keeps (L.next (.unread t)) := by
  have hsub : (lock.readerCounts i - 1).toNat = (lock.readerCounts i).toNat - 1 := by bv_omega
  have hpos : (lock.readerCounts i).toNat ≠ 0 := by bv_omega
  have hle := h.count_le i
  have hw : lock.writer = .none := by
    by_contra hw
    rw [h.exclusive hw] at hle
    exact hpos (by simpa using hle)
  have hcount := h.counts i t hi
  have hthread : ∀ j, (lock.unread i).readerThreads j =
      if j = i ∧ lock.readerCounts i - 1 = 0 then .none else lock.readerThreads j := by
    intro j
    simp only [Rwlock.unread]
    split
    case isTrue h₀ => simp only [Function.update_apply, h₀, and_true]
    case isFalse h₀ => simp only [h₀, and_false, if_false]
  have hcounts : ∀ j, (lock.unread i).readerCounts j = if j = i then lock.readerCounts i - 1 else lock.readerCounts j :=
    fun j => Function.update_apply ..
  have hreads : ∀ u, (L.next (.unread t)).reads u = if u = t then L.reads t - 1 else L.reads u := fun u => Function.update_apply ..
  have hsome : ∀ j u, (lock.unread i).readerThreads j = some u → lock.readerThreads j = some u := by
    intro j u hj
    rw [hthread] at hj
    split at hj
    · cases hj
    · exact hj
  refine ⟨h.writer, fun hne => absurd hw hne, ?_, fun j => ?_,
    fun j k u hj hk => h.single j k u (hsome j u hj) (hsome k u hk), fun j u hj => ?_, fun u hu => ?_⟩
  · have := sum_update lock.readerCounts i (lock.readerCounts i - 1)
    have hsum := h.sum
    rw [hsub] at this
    change (lock.readers - 1).toNat = ∑ j, (Function.update lock.readerCounts i (lock.readerCounts i - 1) j).toNat
    have hr : (lock.readers - 1).toNat = lock.readers.toNat - 1 := by bv_omega
    omega
  · rw [hthread, hcounts]
    by_cases hji : j = i
    · subst hji
      rw [if_pos rfl]
      split
      case isTrue h₀ => exact ⟨fun _ => rfl, fun _ => h₀.2⟩
      case isFalse h₀ => exact ⟨fun h₁ => absurd ⟨rfl, h₁⟩ h₀, fun h₁ => by rw [hi] at h₁; cases h₁⟩
    · rw [if_neg hji, if_neg fun h₀ => hji h₀.1]
      exact h.used j
  · have hj' := hsome j u hj
    rw [hcounts, hreads]
    by_cases hji : j = i
    · subst hji
      obtain rfl : t = u := Option.some.inj (hi.symm.trans hj')
      rw [if_pos rfl, if_pos rfl, hsub, hcount]
    · have hut : u ≠ t := by
        rintro rfl
        exact hji (h.single j i u hj' hi)
      rw [if_neg hut, if_neg hji]
      exact h.counts j u hj'
  · rw [hreads]
    split
    case isTrue hut =>
      -- the slot is given up with the last of the locks
      subst hut
      have h₀ : lock.readerCounts i - 1 = 0 := by
        by_contra h₀
        exact hu i (by rw [hthread, if_neg fun h₁ => h₀ h₁.2, hi])
      rw [hcount]
      rw [h₀] at hsub
      simpa using hsub.symm
    case isFalse hut =>
      refine h.none u fun j hj => ?_
      have hji : j ≠ i := by
        rintro rfl
        exact hut (Option.some.inj (hj.symm.trans hi))
      exact hu j (by rw [hthread, if_neg fun h₀ => hji h₀.1, hj])

/-- A writer takes the lock. -/
theorem Keeps.write (h : lock.Keeps L) (hw : lock.writer = .none) (hr : lock.readers = 0) (w : Word) :
    ({ lock with waitingWriters := w, writer := some t } : Rwlock n).Keeps (L.next (.write t)) := by
  refine ⟨fun u => ?_, fun _ => hr, h.sum, h.used, h.single, h.counts, h.none⟩
  have hu := h.writer u
  rw [hw] at hu
  simp only [Ledger.next, Function.update_apply, Option.some.injEq]
  split
  case isTrue hut => simp [hut]
  case isFalse hut => exact ⟨fun h' => absurd (hu.mp h') nofun, fun h' => absurd h'.symm hut⟩

/-- A writer gives the lock up. -/
theorem Keeps.unwrite (h : lock.Keeps L) (hw : lock.writer = some t) :
    ({ lock with writer := .none } : Rwlock n).Keeps (L.next (.unwrite t)) := by
  refine ⟨fun u => ?_, fun hne => absurd rfl hne, h.sum, h.used, h.single, h.counts, h.none⟩
  have hu := h.writer u
  rw [hw] at hu
  simp only [Ledger.next, Function.update_apply]
  split
  · exact ⟨nofun, nofun⟩
  case isFalse hut => exact ⟨fun h' => absurd (Option.some.inj (hu.mp h')).symm hut, nofun⟩

end Rwlock

namespace RwlockPlace

/-- Between a test and what it is made for. -/
def acts (c : RwlockPlace n) : Bool :=
  match c with
  | .rdCheck | .rdSlot | .rdTake _ | .wrTake | .unWrite | .unRead _ => true
  | _ => false

/-- What the tests have shown to the thread. -/
def Fits (c : RwlockPlace n) (t : Thread) (lock : Rwlock n) : Prop :=
  match c with
  | .rdCheck => lock.writer = none
  | .rdSlot => lock.writer = none ∧ lock.readers ≠ uint32Max
  | .rdTake slot => lock.writer = none ∧ lock.readers ≠ uint32Max ∧ lock.readerSlot t true = some slot ∧
      lock.readerCounts slot ≠ uint32Max
  | .wrTake => lock.writer = none ∧ lock.readers = 0
  | .unWrite => lock.writer = some t
  | .unRead slot => lock.readerThreads slot = some t ∧ lock.readerCounts slot ≠ 0
  | _ => True

/-- What the thread does to its locks here. -/
def event (c : RwlockPlace n) (t : Thread) : List RwlockEvent :=
  match c with
  | .rdTake _ => [.read t]
  | .wrTake => [.write t]
  | .unRead _ => [.unread t]
  | .unWrite => [.unwrite t]
  | _ => []

end RwlockPlace

/-- A thread has tested what it is to test. -/
theorem fits_next {c c' : RwlockPlace n} {t : Thread} {r : Errno} {lock : Rwlock n} (h : c.acts = true → c.Fits t lock)
    (ha : (rwlockNext c t r lock).2.after = some c') (hc : c'.acts = true) :
    (rwlockNext c t r lock).2 = .goto c' ∧ c'.Fits t (rwlockNext c t r lock).1 := by
  cases c with
  | rdLoop absolute slot =>
    simp only [rwlockNext] at ha ⊢
    split at ha
    case isTrue => cases ha; cases hc
    case isFalse hb =>
      cases ha
      exact ⟨if_neg hb, not_not.mp fun hw => hb (.inl hw)⟩
  | rdCheck =>
    simp only [rwlockNext] at ha ⊢
    split at ha
    case isTrue => cases ha; cases hc
    case isFalse hr =>
      cases ha
      exact ⟨if_neg hr, h rfl, hr⟩
  | rdSlot =>
    obtain ⟨hw, hr⟩ := h rfl
    simp only [rwlockNext] at ha ⊢
    split at ha
    case h_1 => cases ha; cases hc
    case h_2 slot hs =>
      split at ha
      case isTrue => cases ha; cases hc
      case isFalse hm =>
        cases ha
        exact ⟨if_neg hm, hw, hr, hs, hm⟩
  | wrLoop absolute =>
    simp only [rwlockNext] at ha ⊢
    split at ha
    case isTrue => cases ha; cases hc
    case isFalse hb =>
      cases ha
      exact ⟨if_neg hb, not_not.mp fun hw => hb (.inl hw), not_not.mp fun hr => hb (.inr hr)⟩
  | unDecide =>
    simp only [rwlockNext] at ha ⊢
    split at ha
    case isTrue hw =>
      cases ha
      exact ⟨if_pos hw, hw⟩
    case isFalse hw =>
      rw [if_neg hw]
      split at ha
      case h_1 => cases ha; cases hc
      case h_2 slot hs =>
        split at ha
        case isTrue hn =>
          cases ha
          rcases Rwlock.readerSlot_some hs with hi | ⟨hf, -⟩
          · exact ⟨if_pos hn, hi, hn⟩
          · cases hf
        case isFalse => cases ha; cases hc
  | rdLocked absolute tryOnly | rdTry absolute tryOnly slot | rdWaited absolute slot | wrLocked absolute tryOnly
  | wrOwn absolute tryOnly | wrTry absolute tryOnly | wrWaited absolute | unLocked =>
    simp only [rwlockNext] at ha
    split at ha <;> cases ha <;> cases hc
  | unWake =>
    simp only [rwlockNext] at ha
    split at ha
    · cases ha
      cases hc
    · split at ha <;> cases ha <;> cases hc
  | rdEntry absolute tryOnly | wrEntry absolute tryOnly | unEntry | rdTake slot | wrArrive absolute | wrGiveUp result
  | wrGiveUpStore result w | wrTake | unWrite | unRead slot | unWoken => cases ha; cases hc
  | unLeave result | failed result | leave => cases ha

/-- A step that changes more than `waiting_writers` is made with the mutex held. -/
theorem next_data (c : RwlockPlace n) (t : Thread) (r : Errno) (lock : Rwlock n) :
    (c.acts = true ∧ ∀ b r', (rwlockMutex n b).guarded c r' = true) ∨
      c.event t = [] ∧ ∃ w, (rwlockNext c t r lock).1 = { lock with waitingWriters := w } := by
  cases c with
  | rdCheck | rdSlot => exact .inr ⟨rfl, lock.waitingWriters, rfl⟩
  | rdTake | wrTake | unWrite | unRead => exact .inl ⟨rfl, fun _ _ => rfl⟩
  | wrArrive => exact .inr ⟨rfl, _, rfl⟩
  | wrGiveUpStore => exact .inr ⟨rfl, _, rfl⟩
  | _ => exact .inr ⟨rfl, lock.waitingWriters, rfl⟩

theorem guarded_of_acts {c : RwlockPlace n} (h : c.acts = true) (b : Bool) (r : Errno) :
    (rwlockMutex n b).guarded c r = true := by
  cases c <;> first | rfl | cases h

/-- The lock stays as the ledger says. -/
theorem keeps_next {c : RwlockPlace n} {t : Thread} {r : Errno} {lock : Rwlock n} {L : Ledger} (h : lock.Keeps L)
    (hf : c.acts = true → c.Fits t lock) : (rwlockNext c t r lock).1.Keeps ((c.event t).foldl Ledger.next L) := by
  rcases next_data c t r lock with ⟨ha, -⟩ | ⟨he, w, hw⟩
  · have hf := hf ha
    cases c with
    | rdCheck | rdSlot => exact h
    | rdTake slot => exact h.read hf.1 hf.2.1 hf.2.2.1 hf.2.2.2
    | wrTake => exact h.write hf.1 hf.2 _
    | unWrite => exact h.unwrite hf
    | unRead slot => exact h.unread hf.1 hf.2
    | _ => cases ha
  · rw [he, hw]
    exact ⟨h.writer, h.exclusive, h.sum, h.used, h.single, h.counts, h.none⟩

abbrev RwlockState (n : ℕ) := Monitor RwlockCond (Rwlock n) (RwlockPlace n)

namespace Monitor

variable {s s' : RwlockState n} {a : Action RwlockOp} {as bs : List (Action RwlockOp)} {t : Thread} {es : List RwlockEvent}

/-- What a step does to the locks of its thread. -/
def events (s : RwlockState n) (a : Action RwlockOp) : List RwlockEvent :=
  match a with
  | .run t _ =>
    match s.place t with
    | .program c _ => c.event t
    | _ => []
  | .call .. | .expire _ | .suspend _ | .resume _ => []

/-- Every thread has tested what it is about to do. -/
structure Tested (b : Bool) (s : RwlockState n) : Prop where
  guarded : s.Guarded (rwlockMutex n b)
  fits : ∀ t c, (s.place t).after = some c → c.acts = true → (∃ r, s.place t = .program c r) ∧ c.Fits t s.data

theorem tested_init (b : Bool) : (init .normal (Rwlock.init n) : RwlockState n).Tested b := ⟨guarded_init _, nofun⟩

theorem Tested.fits_program {b : Bool} {c : RwlockPlace n} {r : Errno} (h : s.Tested b) (hp : s.place t = .program c r)
    (hc : c.acts = true) : c.Fits t s.data := (h.fits t c (by rw [hp]; rfl) hc).2

theorem place_advance_of_ne {c : RwlockPlace n} {r : Errno} {u : Thread} (hu : u ≠ t) :
    (s.advance (rwlock n) t c r).place u = s.place u := Function.update_of_ne hu _ _

theorem tested_step {b : Bool} (h : s.Tested b) (hr : b = true → Retakes s a) (hs : step (rwlock n) s a = some s') :
    s'.Tested b := by
  refine ⟨guarded_step (rwlock_disciplined b) h.guarded hr hs, fun u c' hu hc' => ?_⟩
  rcases step_cases hs with ⟨t, env, c, r, rfl, hp, rfl⟩ | ⟨t, op, r, rfl, hp, rfl⟩ | ⟨ha, hn⟩
  · by_cases hut : u = t
    · subst hut
      rw [advance, place_goto_self] at hu ⊢
      rw [Outcome.after_place] at hu
      obtain ⟨hgo, hfit⟩ := fits_next (h.fits_program hp) hu hc'
      exact ⟨⟨r, by rw [show ((rwlock n).next c u r s.data).2 = .goto c' from hgo]; rfl⟩, hfit⟩
    · rw [place_advance_of_ne hut] at hu ⊢
      obtain ⟨⟨r', hp'⟩, hfit⟩ := h.fits u c' hu hc'
      refine ⟨⟨r', hp'⟩, ?_⟩
      rcases next_data c t r s.data with ⟨-, hg⟩ | ⟨-, w, hw⟩
      · exact absurd (h.guarded.eq hp' hp (guarded_of_acts hc' b r') (hg b r)) hut
      · change c'.Fits u (rwlockNext c t r s.data).1
        rw [hw]
        cases c' <;> exact hfit
  · by_cases hut : u = t
    · subst hut
      rw [place_goto_self] at hu
      cases op with
      | timedrdlock absolute => cases absolute <;> cases hu <;> cases hc'
      | timedwrlock absolute => cases absolute <;> cases hu <;> cases hc'
      | _ => cases hu; cases hc'
    · rw [show (s.goto t (.program ((rwlock n).start op) 0)).place u = s.place u from Function.update_of_ne hut _ _] at hu ⊢
      exact h.fits u c' hu hc'
  · obtain ⟨⟨r, hp⟩, hfit⟩ := h.fits u c' ((ha.after u).symm.trans hu) hc'
    rw [ha.data]
    exact ⟨⟨r, ha.program u c' r hp⟩, hfit⟩

/-- Inside the functions nothing happens to the lock. -/
theorem events_aside (hn : ∀ t ∈ a.runner, ∀ c r, s.place t ≠ .program c r) : events s a = [] := by
  cases a with
  | run t env =>
    simp only [events]
    split
    case h_1 c r hp => exact absurd hp (hn t rfl c r)
    case h_2 => rfl
  | _ => rfl

theorem keeps_step {b : Bool} (h : s.Tested b) (hk : s.data.Keeps (ledger es)) (hs : step (rwlock n) s a = some s') :
    s'.data.Keeps (ledger (es ++ events s a)) := by
  rw [ledger_append]
  rcases step_cases hs with ⟨t, env, c, r, rfl, hp, rfl⟩ | ⟨t, op, r, rfl, hp, rfl⟩ | ⟨ha, hn⟩
  · rw [show events s (.run t env) = c.event t by simp only [events, hp]]
    exact keeps_next hk (h.fits_program hp)
  · exact hk
  · rw [events_aside hn, ha.data]
    exact hk

end Monitor

/-- Where a thread that holds nothing is while it tries to unlock. -/
def RwlockPlace.Refuses (c : RwlockPlace n) : Prop :=
  match c with
  | .unEntry | .unLocked | .unDecide => True
  | .failed result => result ≠ 0
  | _ => False

/-- Such a thread does nothing to the lock. -/
theorem refuses_next {c : RwlockPlace n} {t : Thread} {r : Errno} {lock : Rwlock n} {L : Ledger} (h : c.Refuses)
    (hk : lock.Keeps L) (hr : L.reads t = 0) (hw : L.writes t = false) :
    (rwlockNext c t r lock).1 = lock ∧ c.event t = [] ∧
      (∀ c', (rwlockNext c t r lock).2.after = some c' → c'.Refuses) ∧
      ∀ r', (rwlockNext c t r lock).2.place r = .idle r' → r' ≠ 0 := by
  cases c with
  | unEntry =>
    refine ⟨rfl, rfl, fun c' hc => ?_, nofun⟩
    cases hc
    exact trivial
  | unLocked =>
    refine ⟨rfl, rfl, ?_, ?_⟩ <;> simp only [rwlockNext] <;> split
    · nofun
    · rintro c' ⟨⟩
      exact trivial
    case isTrue h₀ =>
      rintro r' ⟨⟩
      exact h₀
    · nofun
  | unDecide =>
    have hn : lock.writer ≠ some t := fun h' => by
      rw [(hk.writer t).mpr h'] at hw
      cases hw
    have hslot : lock.readerSlot t false = none := by
      rw [Rwlock.readerSlot_false]
      intro i hi
      have hc := hk.counts i t hi
      rw [hr] at hc
      have h₀ : lock.readerCounts i = 0 := by bv_omega
      rw [(hk.used i).mp h₀] at hi
      cases hi
    have hnext : rwlockNext .unDecide t r lock = (lock, .call .unlock (.failed Errno.perm)) := by
      simp only [rwlockNext, if_neg hn, hslot]
    rw [hnext]
    refine ⟨rfl, rfl, fun c' hc => ?_, nofun⟩
    cases hc
    exact (by decide : Errno.perm ≠ 0)
  | failed result =>
    refine ⟨rfl, rfl, nofun, fun r' hr' => ?_⟩
    cases hr'
    exact h
  | _ => exact h.elim

/-- What a thread does leaves what another one holds. -/
theorem event_other {c : RwlockPlace n} {t u : Thread} {L : Ledger} (h : t ≠ u) :
    ((c.event u).foldl Ledger.next L).reads t = L.reads t ∧ ((c.event u).foldl Ledger.next L).writes t = L.writes t := by
  cases c with
  | rdTake slot => exact ⟨Function.update_of_ne h _ _, rfl⟩
  | unRead slot => exact ⟨Function.update_of_ne h _ _, rfl⟩
  | wrTake => exact ⟨rfl, Function.update_of_ne h _ _⟩
  | unWrite => exact ⟨rfl, Function.update_of_ne h _ _⟩
  | _ => exact ⟨rfl, rfl⟩

namespace Monitor

variable {s s' s₁ s₂ : RwlockState n} {a : Action RwlockOp} {as bs : List (Action RwlockOp)} {t : Thread}
  {es : List RwlockEvent}

/-- The thread holds nothing, and is unlocking or has been told that it cannot. -/
structure Refused (t : Thread) (s : RwlockState n) (es : List RwlockEvent) : Prop where
  tested : s.Tested false
  keeps : s.data.Keeps (ledger es)
  reads : (ledger es).reads t = 0
  writes : (ledger es).writes t = false
  place : ∀ c, (s.place t).after = some c → c.Refuses
  result : ∀ r, s.place t = .idle r → r ≠ 0

theorem Place.eq_idle {p : Place RwlockCond (RwlockPlace n)} (h : p.after = none) : ∃ r, p = .idle r := by
  cases p with
  | idle r => exact ⟨r, rfl⟩
  | _ => cases h

/-- Who is outside has been there. -/
theorem idle_aside {r : Errno} (hs : step (rwlock n) s a = some s') (ha : Aside s s')
    (hn : ∀ u ∈ a.runner, ∀ c r, s.place u ≠ .program c r) (h : s'.place t = .idle r) : s.place t = .idle r := by
  obtain ⟨r', hr'⟩ := Place.eq_idle ((ha.after t).symm.trans (by rw [h]; rfl))
  rcases aside_place hs hn t with ⟨-, hf⟩ | hst
  · rw [hr'] at hf
    cases hf
  · rw [h, hr'] at hst
    cases hst
    exact hr'

theorem refused_step (h : Refused t s es) (hn : ∀ op, a ≠ .call t op) (hs : step (rwlock n) s a = some s') :
    Refused t s' (es ++ events s a) := by
  have htested := tested_step h.tested nofun hs
  have hkeeps := keeps_step h.tested h.keeps hs
  have hmake : ∀ L, L = ledger (es ++ events s a) → L.reads t = 0 → L.writes t = false →
      (∀ c, (s'.place t).after = some c → c.Refuses) → (∀ r, s'.place t = .idle r → r ≠ 0) →
      Refused t s' (es ++ events s a) := by
    rintro L rfl hr hw hp hres
    exact ⟨htested, hkeeps, hr, hw, hp, hres⟩
  rcases step_cases hs with ⟨u, env, c, r, rfl, hp, rfl⟩ | ⟨u, op, r, rfl, hp, rfl⟩ | ⟨ha, hn'⟩
  · have hev : (c.event u).foldl Ledger.next (ledger es) = ledger (es ++ events s (.run u env)) := by
      rw [ledger_append, show events s (.run u env) = c.event u by simp only [events, hp]]
    by_cases htu : t = u
    · subst htu
      obtain ⟨-, he, hafter, hidle⟩ :=
        refuses_next (r := r) (h.place c (by rw [hp]; rfl)) h.keeps h.reads h.writes
      rw [he] at hev
      refine hmake _ hev h.reads h.writes (fun c' hc => hafter c' ?_) fun r' hr' => hidle r' ?_
      · rw [advance, place_goto_self, Outcome.after_place] at hc
        exact hc
      · rw [advance, place_goto_self] at hr'
        exact hr'
    · obtain ⟨hr, hw⟩ := event_other (c := c) (L := ledger es) htu
      refine hmake _ hev (hr.trans h.reads) (hw.trans h.writes) (fun c' hc => ?_) fun r' hr' => ?_
      · rw [place_advance_of_ne htu] at hc
        exact h.place c' hc
      · rw [place_advance_of_ne htu] at hr'
        exact h.result r' hr'
  · have htu : t ≠ u := by
      rintro rfl
      exact hn op rfl
    have hpt : (s.goto u (.program ((rwlock n).start op) 0)).place t = s.place t := Function.update_of_ne htu _ _
    refine hmake (ledger es) (by rw [show events s (.call u op) = [] from rfl, List.append_nil]) h.reads h.writes ?_ ?_ <;>
      rw [hpt]
    · exact h.place
    · exact h.result
  · refine hmake (ledger es) (by rw [events_aside hn', List.append_nil]) h.reads h.writes (fun c hc => ?_) fun r hr => ?_
    · exact h.place c ((ha.after t).symm.trans hc)
    · exact h.result r (idle_aside hs ha hn' hr)

/-- What the threads hold after a run. -/
def holdings (n : ℕ) (as : List (Action RwlockOp)) : Ledger :=
  ledger (trace (step (rwlock n)) events (init .normal (Rwlock.init n)) as)

/-- **Exclusion**: in every run the lock is as the ledger says, so that who holds the write lock is the only one who
holds anything; and while a thread that holds nothing tries to unlock, it changes nothing and is told so. -/
theorem excludes_of_path (hp : Path (Next (step (rwlock n))) (fun _ _ => True) (init .normal (Rwlock.init n)) as s) :
    s.data.Keeps (holdings n as) ∧
      (∀ t, (holdings n as).writes t = true →
        ∀ u, (holdings n as).reads u = 0 ∧ ((holdings n as).writes u = true → u = t)) ∧
      ∀ t, (holdings n as).reads t = 0 → (holdings n as).writes t = false →
        ∀ s₁, step (rwlock n) s (.call t .unlock) = some s₁ →
          ∀ bs s₂, Path (Next (step (rwlock n))) (fun _ a => ∀ op, a ≠ .call t op) s₁ bs s₂ →
            (∀ r, s₂.place t = .idle r → r ≠ 0) ∧
              ∀ env s₃, step (rwlock n) s₂ (.run t env) = some s₃ → s₃.data = s₂.data := by
  have h : s.Tested false ∧ s.data.Keeps (ledger ([] ++ trace (step (rwlock n)) events (init .normal (Rwlock.init n)) as)) :=
    hp.traced (I := fun s es => s.Tested false ∧ s.data.Keeps (ledger es))
      (fun _ _ _ _ h _ hs => ⟨tested_step (b := false) h.1 nofun hs, keeps_step h.1 h.2 hs⟩) ⟨tested_init _, Rwlock.keeps_init⟩
  rw [List.nil_append] at h
  obtain ⟨htested, hkeeps⟩ := h
  change s.data.Keeps (holdings n as) at hkeeps
  refine ⟨hkeeps, fun t ht u => ?_, fun t hr hw s₁ hcall bs s₂ hq => ?_⟩
  · have hwt := (hkeeps.writer t).mp ht
    refine ⟨hkeeps.no_reads (by rw [hwt]; nofun) u, fun hu => ?_⟩
    exact Option.some.inj (((hkeeps.writer u).mp hu).symm.trans hwt)
  · simp only [holdings] at hkeeps hr hw
    generalize trace (step (rwlock n)) events (init .normal (Rwlock.init n)) as = es at hkeeps hr hw
    have htested' := tested_step htested nofun hcall
    have hkeeps' := keeps_step htested hkeeps hcall
    rw [show events s (.call t .unlock) = [] from rfl, List.append_nil] at hkeeps'
    have hs₁ : Refused t s₁ es := by
      refine ⟨htested', hkeeps', hr, hw, fun c hc => ?_, fun r hr => ?_⟩ <;> simp only [step] at hcall <;> split at hcall
      · split at hcall <;> cases hcall
        rw [place_goto_self] at hc
        cases hc
        exact trivial
      · cases hcall
      · split at hcall <;> cases hcall
        rw [place_goto_self] at hr
        cases hr
      · cases hcall
    have hs₂ : Refused t s₂ (es ++ trace (step (rwlock n)) events s₁ bs) :=
      hq.traced (I := Refused t) (fun _ _ _ _ h hn hs => refused_step h hn hs) hs₁
    refine ⟨hs₂.result, fun env s₃ hs => ?_⟩
    rcases step_cases hs with ⟨u, env, c, r, hu, hpu, rfl⟩ | ⟨u, op, r, hu, -, -⟩ | ⟨ha, -⟩
    · cases hu
      exact (refuses_next (r := r) (hs₂.place c (by rw [hpu]; rfl)) hs₂.keeps hs₂.reads hs₂.writes).1
    · cases hu
    · exact ha.data

/-- The thread calls a function, and takes its next `k` steps; nobody has to be woken. -/
def callRwlock (t : Thread) (op : RwlockOp) (k : ℕ) : List (Action RwlockOp) :=
  .call t op :: List.replicate k (.run t ⟨⟨0, 0⟩, false, []⟩)

/-- Thread 0 reads twice over. Thread 1 waits to write. -/
def readTwice : List (Action RwlockOp) := callRwlock 0 .rdlock 13 ++ callRwlock 0 .rdlock 13 ++ callRwlock 1 .wrlock 13

theorem readTwice_excludes : ∃ s, Path (Next (step (rwlock 1))) (fun _ _ => True) (init .normal (Rwlock.init 1)) readTwice s ∧
    (s.data.Keeps (holdings 1 readTwice) ∧
      (∀ t, (holdings 1 readTwice).writes t = true →
        ∀ u, (holdings 1 readTwice).reads u = 0 ∧ ((holdings 1 readTwice).writes u = true → u = t)) ∧
      ∀ t, (holdings 1 readTwice).reads t = 0 → (holdings 1 readTwice).writes t = false →
        ∀ s₁, step (rwlock 1) s (.call t .unlock) = some s₁ →
          ∀ bs s₂, Path (Next (step (rwlock 1))) (fun _ a => ∀ op, a ≠ .call t op) s₁ bs s₂ →
            (∀ r, s₂.place t = .idle r → r ≠ 0) ∧
              ∀ env s₃, step (rwlock 1) s₂ (.run t env) = some s₃ → s₃.data = s₂.data) ∧
    s.data.readers = 2 ∧ (s.place 1).awaits .writers = true := by
  obtain ⟨s, hs, hp⟩ := exists_path (step (rwlock 1)) (fun _ _ => True) (init .normal (Rwlock.init 1)) readTwice
    (fun s => decide (s.data.readers = 2 ∧ (s.place 1).awaits .writers = true)) (by decide +kernel)
  exact ⟨s, hs, excludes_of_path hs, of_decide_eq_true hp⟩

end Monitor

end Aixos.Posix
