import Aixos.System.Ownership

/-!
# A locked mutex stays locked

From the moment a lock call has made a task the owner of a mutex until the unlock that matches it,
only a deletion takes the mutex away.

* `DeletesOwned` — the call that does: it deletes a mutex that is owned and not waited for.
* `lockEvents` — the lock and unlock calls of a task on a mutex that have succeeded.
* `Unmatched` — in no part of a run has the task unlocked the mutex as often as it has locked it.
* `Sys.staysLocked_of_path` — the owner, the object and the handle stay, and every unlock succeeds.
-/

namespace Aixos

open Transition Aixos.Core

variable [cfg : Config]

namespace Kernel

variable {k : Kernel} {h : Handle} {m : ℕ} {t u : TaskId}

/-- A lock call on a mutex that is owned: the owner locks it once more, or nothing happens to it. -/
theorem mutexLock_owned (hm : k.core.objFromHandle .mutex h = some m) (ho : (k.core.mutexes m).owner = some t)
    (hcur : k.core.cur = some u) (ms : Word) :
    (k.mutexLock h ms).1.core.slots = k.core.slots ∧
      ((k.mutexLock h ms).1.core.mutexes m = k.core.mutexes m ∧ (u = t → (k.mutexLock h ms).2.isOk = false) ∨
        u = t ∧ (k.mutexLock h ms).2.isOk = true ∧ (k.mutexLock h ms).1.core.mutexes m =
          { k.core.mutexes m with lockCount := (k.core.mutexes m).lockCount + 1 }) := by
  unfold mutexLock
  rw [hcur]
  dsimp only
  rw [hm]
  split
  · exact ⟨rfl, .inl ⟨rfl, fun _ => rfl⟩⟩
  · dsimp only
    rw [if_neg (by simp [ho])]
    split
    · rename_i e
      split
      · exact ⟨rfl, .inl ⟨rfl, fun _ => rfl⟩⟩
      · exact ⟨rfl, .inr ⟨Option.some.inj (e.symm.trans ho), rfl, Function.update_self ..⟩⟩
    · rename_i hne
      have hne : u ≠ t := fun e => hne (by rw [e, ho])
      split
      · exact ⟨rfl, .inl ⟨rfl, fun e => absurd e hne⟩⟩
      · rcases k.block_cases (.list (.mutex m)) ms .result with ⟨e, h, -⟩ | ⟨v, hv, -, h⟩
        · rw [h]
          exact ⟨rfl, .inl ⟨rfl, fun e => absurd e hne⟩⟩
        · cases hcur.symm.trans hv
          rw [h]
          have hs := SameTables.blockTask k.core u (.list (.mutex m)) ms
          exact ⟨hs.slots, .inl ⟨congrFun hs.mutexes m, fun e => absurd e hne⟩⟩

/-- An unlock call on a mutex that is owned: the owner unlocks it once, or nothing happens to it. -/
theorem mutexUnlock_owned (hm : k.core.objFromHandle .mutex h = some m)
    (ho : (k.core.mutexes m).owner = some t) (hcur : k.core.cur = some u) (hisr : k.core.isrNesting = 0) :
    u ≠ t ∧ k.mutexUnlock h = k.code Code.inval ∨ u = t ∧ (k.mutexUnlock h).2.isOk = true ∧
      ((k.core.mutexes m).lockCount - 1 ≠ 0 → (k.mutexUnlock h).1.core = k.core.setMutex m fun b =>
        { b with lockCount := b.lockCount - 1 }) := by
  unfold mutexUnlock
  rw [hcur]
  dsimp only
  rw [if_neg (by simp [inIsr, hisr]), hm]
  dsimp only
  rw [ho]
  split
  · rename_i hne
    exact .inl ⟨fun e => hne (by rw [e]), rfl⟩
  · rename_i e
    refine .inr ⟨(Option.some.inj (not_not.mp e)).symm, ?_⟩
    split
    · exact ⟨rfl, fun _ => rfl⟩
    · rename_i hn
      exact ⟨rfl, fun h => absurd h hn⟩

end Kernel

namespace Sys

variable {s s' : Sys} {a : Act} {as : List Act} {t : TaskId} {m : ℕ} {x : Handle}

omit cfg in
theorem running_of_runningTask (h : s.runningTask = some t) : s.core.running = true := (runningTask_eq_some h).2.1

/-- The action is a call on the mutex. -/
def Touches (m : ℕ) (s : Sys) (a : Act) : Prop :=
  ∃ x, s.core.objFromHandle .mutex x = some m ∧
    ((∃ ms, a = .call (.mutexLock x ms)) ∨ a = .call (.mutexUnlock x) ∨ a = .call (.mutexDelete x))

/-- A mutex that is owned and not waited for is deleted. -/
def DeletesOwned (s : Sys) (a : Act) : Prop :=
  ∃ x m, a = .call (.mutexDelete x) ∧ s.core.objFromHandle .mutex x = some m ∧
    (s.core.mutexes m).owner ≠ none ∧ s.core.waitLists (.mutex m) = []

/-- What task `t` has done to the mutex: 1 for a lock, -1 for an unlock. -/
def lockEvents (m : ℕ) (t : TaskId) (s : Sys) : Act → List ℤ
  | .call (.mutexLock x ms) =>
    if s.runningTask = some t ∧ s.core.objFromHandle .mutex x = some m ∧ (s.kernel.mutexLock x ms).2.isOk then [1]
    else []
  | .call (.mutexUnlock x) =>
    if s.runningTask = some t ∧ s.core.objFromHandle .mutex x = some m ∧ (s.kernel.mutexUnlock x).2.isOk then [-1]
    else []
  | _ => []

/-- Task `t`, which has locked the mutex `n` times at first, has not unlocked it as often at any
point of the run. -/
def Unmatched (m : ℕ) (t : TaskId) (n : ℤ) (s : Sys) (as : List Act) : Prop :=
  ∀ bs, bs <+: as → 0 < n + (trace step (lockEvents m t) s bs).sum

theorem Unmatched.cons {n : ℤ} {s₁ : Sys} (hu : Unmatched m t n s (a :: as)) (h : s.step a = some s₁) :
    0 < n + (lockEvents m t s a).sum ∧ Unmatched m t (n + (lockEvents m t s a).sum) s₁ as := by
  constructor
  · simpa [trace, h] using hu [a] (List.cons_prefix_cons.mpr ⟨rfl, List.nil_prefix⟩)
  · intro bs hb
    have := hu (a :: bs) (List.cons_prefix_cons.mpr ⟨rfl, hb⟩)
    simpa [trace, h, add_assoc] using this

/-! ### One action -/

/-- Other actions leave a mutex in use alone. -/
theorem untouched_step (hs : Sound s.core) (hu : (s.core.slots .mutex m).used = true) (hn : ¬ Touches m s a)
    (h : s.step a = some s') :
    s'.core.mutexes m = s.core.mutexes m ∧ s'.core.slots .mutex m = s.core.slots .mutex m := by
  have key : ∀ {c o}, Sound c → (c.slots .mutex m).used = true → c.Enabled o → a.Performs s c o →
      (c.exec o).mutexes m = c.mutexes m ∧ (c.exec o).slots .mutex m = c.slots .mutex m := by
    intro c o hs hu he ho
    rcases mutex_kept hs.wf.isFiled he hu with e | ⟨t, rfl⟩ | ⟨n, rfl⟩ | ⟨t, rfl⟩ | rfl
    · exact e
    · obtain ⟨x, ms, e, hx, -⟩ := performs_acquire ho
      exact absurd ⟨x, hx, .inl ⟨ms, e⟩⟩ hn
    · obtain ⟨-, x, hx, e⟩ := performs_relock ho
      exact absurd ⟨x, hx, e.imp_right .inl⟩ hn
    · obtain ⟨x, e, hx, -⟩ := performs_release ho
      exact absurd ⟨x, hx, .inr (.inl e)⟩ hn
    · obtain ⟨x, e, hx⟩ := performs_destroy ho
      exact absurd ⟨x, hx, .inr (.inr e)⟩ hn
  rcases step_core hs h with ⟨ops, hp⟩ | ⟨o, ho, he, e⟩
  · refine (hp.invariant (I := fun c => Sound c ∧ c.mutexes m = s.core.mutexes m ∧
      c.slots .mutex m = s.core.slots .mutex m) ?_ ⟨hs, rfl, rfl⟩).2
    rintro c o c' ⟨hs, e₁, e₂⟩ ⟨hm, ho⟩ ⟨he, rfl⟩
    obtain ⟨h₁, h₂⟩ := key hs (by rw [e₂]; exact hu) he ho
    exact ⟨(hm.exec hs he).1, h₁.trans e₁, h₂.trans e₂⟩
  · rw [e]
    exact key hs hu he ho

/-- **An action while task `t` owns the mutex**: unless it deletes the mutex, or is the last unlock of
the task, the task goes on owning it, and has locked it as often as its calls say. -/
theorem owned_step (hs : Sound s.core) (ho : Owns m t s) (hd : ¬ DeletesOwned s a) (h : s.step a = some s') :
    s'.core.slots .mutex m = s.core.slots .mutex m ∧
      (Owns m t s' ∧ ((s'.core.mutexes m).lockCount : ℤ) = (s.core.mutexes m).lockCount + (lockEvents m t s a).sum ∨
        (s.core.mutexes m).lockCount - 1 = 0 ∧ lockEvents m t s a = [-1]) := by
  have same : s'.core.mutexes m = s.core.mutexes m → lockEvents m t s a = [] → Owns m t s' ∧
      ((s'.core.mutexes m).lockCount : ℤ) = (s.core.mutexes m).lockCount + (lockEvents m t s a).sum := by
    intro e₁ e₂
    rw [Owns, e₁, e₂]
    exact ⟨ho, by simp⟩
  by_cases ht : Touches m s a
  · obtain ⟨x, hx, ⟨ms, rfl⟩ | rfl | rfl⟩ := ht
    · have hk : s'.core = (s.kernel.mutexLock x ms).1.core := congrArg Kernel.core (step_call_kernel h).symm
      rcases step_call h with ⟨u, hu, -, -⟩ | ⟨hr, -⟩
      · obtain ⟨hsl, ⟨hm, hok⟩ | ⟨rfl, hok, hm⟩⟩ := Kernel.mutexLock_owned hx ho (runningTask_eq_some hu).1 ms
        · rw [← hk] at hsl hm
          refine ⟨by rw [hsl], .inl (same hm ?_)⟩
          refine if_neg ?_
          rintro ⟨e, -, hk⟩
          rw [hok (Option.some.inj (hu.symm.trans e))] at hk
          cases hk
        · rw [← hk] at hsl hm
          refine ⟨by rw [hsl], .inl ⟨?_, ?_⟩⟩
          · rw [Owns, hm]
            exact ho
          · rw [hm, lockEvents, if_pos ⟨hu, hx, hok⟩]
            simp
      · -- before the start there is no current task
        have hk' : s'.core = s.core := by
          rw [hk]
          unfold Kernel.mutexLock
          rw [hs.wf.cur.none hr]
          rfl
        rw [hk'] at same ⊢
        exact ⟨rfl, .inl (same rfl (if_neg fun e => absurd (running_of_runningTask e.1) (by rw [hr]; decide)))⟩
    · have hk : s'.core = (s.kernel.mutexUnlock x).1.core := congrArg Kernel.core (step_call_kernel h).symm
      rcases step_call h with ⟨u, hu, -, -⟩ | ⟨hr, -⟩
      · obtain ⟨hcur, -, hisr, -⟩ := runningTask_eq_some hu
        rcases Kernel.mutexUnlock_owned hx ho hcur hisr with ⟨hne, e⟩ | ⟨rfl, hok, hm⟩
        · have hk' : s'.core = s.core := by rw [hk, e]; rfl
          rw [hk'] at same ⊢
          exact ⟨rfl, .inl (same rfl (if_neg fun e => hne (Option.some.inj (hu.symm.trans e.1))))⟩
        · have hev : lockEvents m u s (.call (.mutexUnlock x)) = [-1] := if_pos ⟨hu, hx, hok⟩
          by_cases hn : (s.core.mutexes m).lockCount - 1 = 0
          · refine ⟨?_, .inr ⟨hn, hev⟩⟩
            rw [hk, mutexUnlock_last hx hcur hisr ho hn, (mutexRelease_tables hs.wf.isFiled m u).2.1]
          · have hm := hm hn
            rw [← hk] at hm
            have hm' : s'.core.mutexes m =
                { s.core.mutexes m with lockCount := (s.core.mutexes m).lockCount - 1 } := by
              rw [hm]
              exact Function.update_self ..
            refine ⟨by rw [hm]; rfl, .inl ⟨?_, ?_⟩⟩
            · rw [Owns, hm']
              exact ho
            · rw [hm', hev, List.sum_singleton]
              push_cast [show 1 ≤ (s.core.mutexes m).lockCount by omega]
              rfl
      · have hk' : s'.core = s.core := by
          rw [hk]
          unfold Kernel.mutexUnlock
          rw [hs.wf.cur.none hr]
          rfl
        rw [hk'] at same ⊢
        exact ⟨rfl, .inl (same rfl (if_neg fun e => absurd (running_of_runningTask e.1) (by rw [hr]; decide)))⟩
    · -- who is waited for is not deleted, and nobody deletes what is owned and not waited for
      have hw : s.core.waitLists (.mutex m) ≠ [] :=
        fun hw => hd ⟨x, m, rfl, hx, by rw [ho]; exact Option.some_ne_none _, hw⟩
      have hk' : s'.core = s.core := by
        rw [show s'.core = (s.kernel.mutexDelete x).1.core from congrArg Kernel.core (step_call_kernel h).symm]
        unfold Kernel.mutexDelete
        split
        · rfl
        · rw [hx]
          dsimp only
          rw [if_pos hw]
          rfl
      rw [hk'] at same ⊢
      exact ⟨rfl, .inl (same rfl rfl)⟩
  · obtain ⟨e₁, e₂⟩ := untouched_step hs (hs.wf.owner_used m (by rw [ho]; exact Option.some_ne_none _)) ht h
    refine ⟨e₂, .inl (same e₁ ?_)⟩
    unfold lockEvents
    split
    · rename_i x ms
      exact if_neg fun hx => ht ⟨x, hx.2.1, .inl ⟨ms, rfl⟩⟩
    · rename_i x
      exact if_neg fun hx => ht ⟨x, hx.2.1, .inr (.inl rfl)⟩
    · rfl

/-! ### From the lock to the unlock -/

/-- The start finds no ready task queued, and nobody deletes a mutex that is owned. -/
def Heeds (s : Sys) (a : Act) : Prop := StartsClean s a ∧ ¬ DeletesOwned s a

theorem owned_path (hs : Sound s.core) (ho : Owns m t s) {n : ℤ} (hn : ((s.core.mutexes m).lockCount : ℤ) = n)
    (hp : Path (Next step) Heeds s as s') (hu : Unmatched m t n s as) : Owns m t s' ∧
      s'.core.slots .mutex m = s.core.slots .mutex m ∧
      ((s'.core.mutexes m).lockCount : ℤ) = n + (trace step (lockEvents m t) s as).sum := by
  induction hp generalizing n with
  | nil => exact ⟨ho, rfl, by simp [trace, hn]⟩
  | @cons s₁ s₂ s₃ a as hc hr _ ih =>
    have hr : s₁.step a = some s₂ := hr
    obtain ⟨hpos, hu'⟩ := hu.cons hr
    obtain ⟨hsl, ⟨ho', hn'⟩ | ⟨hlast, he⟩⟩ := owned_step hs ho hc.2 hr
    · obtain ⟨h₁, h₂, h₃⟩ := ih (sound_step hs hc.1 hr) ho' (by rw [hn', hn]) hu'
      refine ⟨h₁, h₂.trans hsl, ?_⟩
      simp only [trace, hr, List.sum_append]
      rw [h₃, add_assoc]
    · -- its last unlock is the one that matches
      rw [he, List.sum_singleton] at hpos
      omega

/-- Who waits for a mutex and then owns it has locked it once, and the object has stayed. -/
theorem granted_locked {f : Frame} (hi : InCall s t f) (hw : Waiting s.core m t)
    (hp : Path (Next step) (fun s a => Heeds s a ∧ Waiting s.core m t) s as s') (ho : Owns m t s') :
    (s'.core.mutexes m).lockCount = 1 ∧ s'.core.slots .mutex m = s.core.slots .mutex m := by
  induction hp with
  | nil s =>
    exact absurd ho (hi.sound.wf.contested m t ((hi.sound.wf.filed _ t).mpr hw)).2
  | @cons s₁ s₂ s₃ a as hc hr hp ih =>
    obtain ⟨⟨-, hd⟩, -⟩ := hc
    have hpause : Paused t s₁ a := by
      rintro ⟨-, hrun⟩
      have := hi.sound.wf.wait_eq_none_of_isReady (.inr (runningTask_eq_some hrun).2.2.2)
      rw [show (s₁.core.tasks t).wait = _ from hw] at this
      cases this
    have hi' := inCall_step hi hpause hr
    -- another task owns it meanwhile
    obtain ⟨hne, -⟩ := hi.sound.wf.contested m t ((hi.sound.wf.filed _ t).mpr hw)
    obtain ⟨u, hu⟩ := Option.ne_none_iff_exists'.mp hne
    have hsl := (owned_step hi.sound hu hd hr).1
    rcases waiting_step hi hpause hr hw with hw' | hw' | ⟨hg, -, hn⟩
    · obtain ⟨h₁, h₂⟩ := ih hi' hw' ho
      exact ⟨h₁, h₂.trans hsl⟩
    · cases hp with
      | nil => exact absurd ho hw'.2.2
      | cons hc =>
        have := hc.2
        rw [Waiting, hw'.1] at this
        cases this
    · cases hp with
      | nil => exact ⟨hn, hsl⟩
      | cons hc =>
        have := hc.2
        rw [Waiting, hg.1] at this
        cases this

/-- A lock call of a task that does not own the mutex. -/
theorem mutexLock_enters {k : Kernel} (hm : k.core.objFromHandle .mutex x = some m) (hcur : k.core.cur = some t)
    (hno : (k.core.mutexes m).owner ≠ some t) (ms : Word) : (k.mutexLock x ms).1.core = k.core ∨
      (k.mutexLock x ms).1.core = k.core.mutexAcquire m t ∨
      ∃ f, (k.mutexLock x ms).2 = .wait f ∧ (k.mutexLock x ms).1.core.slots = k.core.slots := by
  unfold Kernel.mutexLock
  rw [hcur]
  dsimp only
  rw [hm]
  split
  · exact .inl rfl
  · dsimp only
    split
    · exact .inr (.inl rfl)
    · split
      · exact .inl rfl
      · rcases k.block_cases (.list (.mutex m)) ms .result with ⟨e, h, -⟩ | ⟨u, hu, -, h⟩
        · rw [h]
          exact .inl rfl
        · cases hcur.symm.trans hu
          rw [h]
          exact .inr (.inr ⟨_, rfl, (SameTables.blockTask k.core t (.list (.mutex m)) ms).slots⟩)

/-- **Becoming the owner**: when a lock call has made its task the owner, at once or after a wait, the
task has locked the mutex once, and the handle it was called with still names it. -/
theorem locked_of_lock (hs : Sound s.core) (ht : s.runningTask = some t) (hx : s.core.objFromHandle .mutex x = some m)
    (hno : ¬ Owns m t s) {ms : Word} {s₁ : Sys} (hl : s.step (.call (.mutexLock x ms)) = some s₁)
    (hp : Path (Next step) (fun s a => Heeds s a ∧ Waiting s.core m t) s₁ as s') (ho : Owns m t s') :
    (s'.core.mutexes m).lockCount = 1 ∧ s'.core.objFromHandle .mutex x = some m := by
  obtain ⟨hcur, hrun, -, hst⟩ := runningTask_eq_some ht
  have hs₁ : Sound s₁.core := by
    refine sound_step hs ?_ hl
    rintro memory e
    cases e
  have hk : s₁.core = (s.kernel.mutexLock x ms).1.core := congrArg Kernel.core (step_call_kernel hl).symm
  rcases mutexLock_enters (k := s.kernel) hx hcur hno ms with e | e | ⟨f, e, hsl⟩
  · -- an error: the task neither owns the mutex nor waits
    have e : s₁.core = s.core := hk.trans e
    cases hp with
    | nil => exact absurd (by rw [Owns, ← e]; exact ho) hno
    | cons hc =>
      have hw := hc.2
      rw [Waiting, e, hs.wf.wait_eq_none_of_isReady (.inr hst)] at hw
      cases hw
  · have e : s₁.core = s.core.mutexAcquire m t := hk.trans e
    have hm : s₁.core.mutexes m = { owner := some t, lockCount := 1 } := by
      rw [e]
      exact Function.update_self ..
    cases hp with
    | nil => exact ⟨by rw [hm], handle_kept (by rw [e]; rfl) hx⟩
    | cons hc =>
      have := (hs₁.wf.contested m t ((hs₁.wf.filed _ t).mpr hc.2)).2
      rw [hm] at this
      exact absurd rfl this
  · have hf : s₁.frame t ≠ none := by
      rcases step_call hl with ⟨u, hu, -, rfl⟩ | ⟨hr, -⟩
      · obtain rfl : t = u := Option.some.inj (ht.symm.trans hu)
        have e' : (s.kernel.call (.mutexLock x ms)).2 = .wait f := e
        rw [finish_wait s t e']
        exact Option.some_ne_none f
      · rw [hrun] at hr
        cases hr
    obtain ⟨hi, hw⟩ := waiting_of_lock hs ht hx hl hf
    obtain ⟨hn, hsl'⟩ := granted_locked hi hw hp ho
    exact ⟨hn, handle_kept (hsl'.trans (by rw [hk, hsl])) hx⟩

/-- What holds while task `t` has the mutex locked, with the handle `x`. -/
structure StaysLocked (s : Sys) (m : ℕ) (t : TaskId) (x : Handle) (depth : ℤ) : Prop where
  /-- It owns the mutex. -/
  owns : Owns m t s
  /-- The handle names the mutex. -/
  handle : s.core.objFromHandle .mutex x = some m
  /-- The lock count is the number of locks not matched by an unlock. -/
  lockCount : ((s.core.mutexes m).lockCount : ℤ) = depth
  /-- If the task unlocks the mutex, the call succeeds. -/
  unlocks : s.runningTask = some t → s.frame t = none →
    ∃ s', s.step (.call (.mutexUnlock x)) = some s' ∧ s'.ret t = some (.code Code.ok)

theorem unlock_succeeds (ht : s.runningTask = some t) (hf : s.frame t = none)
    (hx : s.core.objFromHandle .mutex x = some m) (ho : Owns m t s) :
    ∃ s', s.step (.call (.mutexUnlock x)) = some s' ∧ s'.ret t = some (.code Code.ok) := by
  obtain ⟨hcur, hrun, hisr, -⟩ := runningTask_eq_some ht
  refine ⟨s.finish t (s.kernel.call (.mutexUnlock x)), ?_, ?_⟩
  · simp [step, hrun, ht, hf]
  · rcases Kernel.mutexUnlock_owned (k := s.kernel) hx ho hcur hisr with ⟨hne, -⟩ | ⟨-, hok, -⟩
    · exact absurd rfl hne
    · have hok : (s.kernel.call (.mutexUnlock x)).2.isOk = true := hok
      unfold Outcome.isOk at hok
      split at hok
      · rename_i r hr
        rw [(finish_ret s t hr).2, of_decide_eq_true hok]
      · cases hok

/-- **A locked mutex stays locked**: in every run in which the start finds no ready task queued and
nobody deletes a mutex that is owned, the mutex a lock call has made a task the owner of stays its own,
and in use under its handle, until the unlock that matches; and each unlock of the task succeeds. -/
theorem staysLocked_of_path {s₁ s₂ s₃ : Sys} {bs cs : List Act} {ms : Word} (hp : Path (Next step) Heeds init as s)
    (ht : s.runningTask = some t) (hx : s.core.objFromHandle .mutex x = some m) (hno : ¬ Owns m t s)
    (hl : s.step (.call (.mutexLock x ms)) = some s₁)
    (hw : Path (Next step) (fun s a => Heeds s a ∧ Waiting s.core m t) s₁ bs s₂) (ho : Owns m t s₂)
    (hq : Path (Next step) Heeds s₂ cs s₃) (hu : Unmatched m t 1 s₂ cs) :
    StaysLocked s₃ m t x (1 + (trace step (lockEvents m t) s₂ cs).sum) := by
  have hs := sound_path (hp.mono fun _ _ h => h.1) sound_init
  have hs₁ : Sound s₁.core := by
    refine sound_step hs ?_ hl
    rintro memory e
    cases e
  have hs₂ : Sound s₂.core := sound_path (hw.mono fun _ _ h => h.1.1) hs₁
  obtain ⟨hn, hx₂⟩ := locked_of_lock hs ht hx hno hl hw ho
  obtain ⟨ho₃, hsl, hn₃⟩ := owned_path hs₂ ho (by rw [hn]; rfl) hq hu
  have hx₃ := handle_kept hsl hx₂
  exact ⟨ho₃, hx₃, hn₃, fun ht hf => unlock_succeeds ht hf hx₃ ho₃⟩

/-- Runs without deletions of mutexes. -/
theorem heeds_of_forall (hp : Path (Next step) StartsClean s as s')
    (hd : ∀ a ∈ as, ∀ x, a ≠ .call (.mutexDelete x)) : Path (Next step) Heeds s as s' :=
  (hp.both hd).mono fun _ _ h => ⟨h.1, fun ⟨x, _, e, _⟩ => h.2 x e⟩

/-- A run without lock and unlock calls of the task. -/
theorem unmatched_of_forall {n : ℤ} (hn : 0 < n) (h : ∀ a ∈ as, ∀ s, lockEvents m t s a = []) :
    Unmatched m t n s as := by
  intro bs hb
  rw [trace_eq_nil fun a ha => h a (hb.subset ha)]
  simpa using hn

end Sys

end Aixos

namespace Aixos.Sys

open Transition Aixos.Core

attribute [local instance] Config.default

/-- Task 0, of priority 3, has made a mutex while task 1, of priority 9, sleeps. -/
def made : List Act := boot [{ stackSize := 512, priority := 3 }, { stackSize := 512, priority := 9 }] true ++
  [.call .timerServiceWait, .switch, .call (.taskSleep 1), .switch, .call .mutexCreate]

/-- Task 1 goes on. -/
def awoken : List Act := [.isrEnter, .isr (.tick false), .isrExit, .switch, .resume]

theorem made_staysLocked : ∃ s s₁ s₂, run step init made = some s ∧
    s.step (.call (.mutexLock ⟨0, 1⟩ forever)) = some s₁ ∧ run step s₁ awoken = some s₂ ∧
    s₂.runningTask = some 1 ∧ StaysLocked s₂ 0 0 ⟨0, 1⟩ 1 := by
  obtain ⟨s, h, hp⟩ := exists_run step init made (fun s : Sys =>
    decide (s.runningTask = some 0 ∧ s.core.objFromHandle .mutex ⟨0, 1⟩ = some 0 ∧ (s.core.mutexes 0).owner = none) &&
    (s.step (.call (.mutexLock ⟨0, 1⟩ forever))).any fun s₁ : Sys => decide ((s₁.core.mutexes 0).owner = some 0) &&
      (run step s₁ awoken).any fun s₂ : Sys => decide (s₂.runningTask = some 1)) (by decide +kernel)
  obtain ⟨h₀, hp⟩ := (Bool.and_eq_true _ _).mp hp
  obtain ⟨s₁, e₁, hp⟩ := Option.any_eq_true _ _ |>.mp hp
  obtain ⟨h₁, hp⟩ := (Bool.and_eq_true _ _).mp hp
  obtain ⟨s₂, e₂, h₂⟩ := Option.any_eq_true _ _ |>.mp hp
  obtain ⟨ht, hx, hno⟩ := of_decide_eq_true h₀
  have ho : (s₁.core.mutexes 0).owner = some 0 := of_decide_eq_true h₁
  obtain ⟨hclean, hr⟩ := path_of_boot h
  have hs := sound_path hclean sound_init
  have hs₁ : Sound s₁.core := by
    refine sound_step hs ?_ e₁
    rintro memory e
    cases e
  have hclean' := startsClean_of_running hs₁ (running_step hs hr e₁) (path_iff_run.mpr e₂)
  have hl := staysLocked_of_path (heeds_of_forall hclean (by simp [boot])) ht hx
    (by rw [Owns, hno]; rintro ⟨⟩) e₁ (.nil s₁) ho
    (heeds_of_forall hclean' (by simp [awoken])) (unmatched_of_forall Int.one_pos (by simp [awoken, lockEvents]))
  refine ⟨s, s₁, s₂, h, e₁, e₂, of_decide_eq_true h₂, ?_⟩
  rwa [trace_eq_nil (by simp [awoken, lockEvents])] at hl

/-- Task 1 deletes the mutex that task 0 has locked, and sleeps again. -/
def deleted : List Act := awoken ++ [.call (.mutexDelete ⟨0, 1⟩), .call (.taskSleep 1), .switch]

theorem deleted_not_staysLocked : ∃ s s₁ s₂ s₃, run step init made = some s ∧
    s.step (.call (.mutexLock ⟨0, 1⟩ forever)) = some s₁ ∧ Owns 0 0 s₁ ∧ run step s₁ deleted = some s₂ ∧
    Unmatched 0 0 1 s₁ deleted ∧ ¬ Owns 0 0 s₂ ∧ s₂.core.objFromHandle .mutex ⟨0, 1⟩ = none ∧
    s₂.step (.call (.mutexUnlock ⟨0, 1⟩)) = some s₃ ∧ s₃.ret 0 = some (.code Code.inval) := by
  obtain ⟨s, h, hp⟩ := exists_run step init made (fun s : Sys =>
    (s.step (.call (.mutexLock ⟨0, 1⟩ forever))).any fun s₁ : Sys => decide ((s₁.core.mutexes 0).owner = some 0) &&
      (run step s₁ deleted).any fun s₂ : Sys => decide ((s₂.core.mutexes 0).owner ≠ some 0 ∧
        s₂.core.objFromHandle .mutex ⟨0, 1⟩ = none) &&
        (s₂.step (.call (.mutexUnlock ⟨0, 1⟩))).any fun s₃ : Sys => decide (s₃.ret 0 = some (.code Code.inval)))
    (by decide +kernel)
  obtain ⟨s₁, e₁, hp⟩ := Option.any_eq_true _ _ |>.mp hp
  obtain ⟨h₁, hp⟩ := (Bool.and_eq_true _ _).mp hp
  obtain ⟨s₂, e₂, hp⟩ := Option.any_eq_true _ _ |>.mp hp
  obtain ⟨h₂, hp⟩ := (Bool.and_eq_true _ _).mp hp
  obtain ⟨s₃, e₃, h₃⟩ := Option.any_eq_true _ _ |>.mp hp
  obtain ⟨hno, hx⟩ := of_decide_eq_true h₂
  have ho : (s₁.core.mutexes 0).owner = some 0 := of_decide_eq_true h₁
  exact ⟨s, s₁, s₂, s₃, h, e₁, ho, e₂,
    unmatched_of_forall Int.one_pos (by simp [deleted, awoken, lockEvents]), hno, hx, e₃, of_decide_eq_true h₃⟩

end Aixos.Sys
