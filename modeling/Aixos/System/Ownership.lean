import Aixos.System.Sources
import Aixos.System.Inheritance

/-!
# Mutex ownership over runs

Who owns a mutex, how it passes from one task to the next, and what a blocked lock call
returns.

* `Counted` — the lock count of an owned mutex is not 0.
* `Waiting`, `Granted`, `Refused` — the cases of a task that is inside a lock call.
* `Sys.MutexLaw` — what holds of the mutexes in a state and in what can follow it.
* `Sys.mutexLaw_of_path` — it holds in every state of every run with a clean start.
-/

namespace Aixos

open Transition Aixos.Core

variable [cfg : Config]

namespace Core

variable {c c' : Core} {o : Op} {m : ℕ} {t : TaskId}

/-- An owned mutex is locked at least once. -/
def Counted (c : Core) : Prop := ∀ m, (c.mutexes m).owner ≠ none → 0 < (c.mutexes m).lockCount

omit cfg in
theorem counted_init : Counted init := fun _ h => absurd rfl h

theorem Counted.exec (h : Counted c) (hf : Filed c) (he : c.Enabled o) (hn : ∀ m n, o = .relock m n → 0 < n) :
    Counted (c.exec o) := by
  intro m
  rw [exec_mutexes hf he]
  have update : ∀ i b, (b.owner ≠ none → 0 < b.lockCount) →
      (Function.update c.mutexes i b m).owner ≠ none → 0 < (Function.update c.mutexes i b m).lockCount := by
    intro i b hb
    rw [Function.update_apply]
    split
    · exact hb
    · exact h m
  cases o with
  | allocMutex i => exact update i _ fun hne => absurd rfl hne
  | acquire i t => exact update i _ fun _ => Nat.one_pos
  | relock i n => exact update i _ fun _ => hn i n rfl
  | release i t =>
    refine update i _ fun hne => ?_
    revert hne
    split
    · exact fun _ => Nat.one_pos
    · exact fun hne => absurd rfl hne
  | destroy i => exact update i _ fun hne => absurd rfl hne
  | _ => exact h m

/-- **How a task becomes the owner**: it locks a free mutex, or is the first waiter at an unlock. -/
theorem owner_exec (hf : Filed c) (he : c.Enabled o) (h : ((c.exec o).mutexes m).owner = some t) :
    (c.mutexes m).owner = some t ∨ o = .acquire m t ∨
      ∃ u rest, o = .release m u ∧ c.waitLists (.mutex m) = t :: rest := by
  rw [exec_mutexes hf he] at h
  cases o with
  | allocMutex i =>
    simp only [Op.mutexes, Function.update_apply] at h
    split at h
    · cases h
    · exact .inl h
  | acquire i u =>
    simp only [Op.mutexes, Function.update_apply] at h
    split at h
    · rename_i e
      cases h
      rw [e]
      exact .inr (.inl rfl)
    · exact .inl h
  | relock i n =>
    simp only [Op.mutexes, Function.update_apply] at h
    split at h
    · rename_i e
      rw [e]
      exact .inl h
    · exact .inl h
  | release i u =>
    simp only [Op.mutexes, Function.update_apply] at h
    split at h
    · rename_i e
      subst e
      cases hw : c.waitLists (.mutex m) with
      | nil =>
        rw [hw] at h
        cases h
      | cons next rest =>
        rw [hw] at h
        cases h
        exact .inr (.inr ⟨u, rest, rfl, rfl⟩)
    · exact .inl h
  | destroy i =>
    simp only [Op.mutexes, Function.update_apply] at h
    split at h
    · cases h
    · exact .inl h
  | _ => exact .inl h

/-- **What changes a mutex in use**: it is locked, unlocked or destroyed. -/
theorem mutex_kept (hf : Filed c) (he : c.Enabled o) (hu : (c.slots .mutex m).used = true) :
    ((c.exec o).mutexes m = c.mutexes m ∧ (c.exec o).slots .mutex m = c.slots .mutex m) ∨
      (∃ t, o = .acquire m t) ∨ (∃ n, o = .relock m n) ∨ (∃ t, o = .release m t) ∨ o = .destroy m := by
  rw [exec_mutexes hf he, exec_slots hf he]
  cases o with
  | alloc k i => exact .inl ⟨rfl, by simp [Op.slots, Function.update_of_ne (Ne.symm he.1)]⟩
  | allocMutex i =>
    -- a slot that is given out was free
    have hi : m ≠ i := by
      rintro rfl
      rw [(freeSlot_eq_some he).1] at hu
      cases hu
    exact .inl ⟨Function.update_of_ne hi .., by simp [Op.slots, hi]⟩
  | free k i => exact .inl ⟨rfl, by simp [Op.slots, Function.update_of_ne (Ne.symm he.1)]⟩
  | acquire i t =>
    by_cases hi : m = i
    · exact .inr (.inl ⟨t, by rw [hi]⟩)
    · exact .inl ⟨Function.update_of_ne hi .., rfl⟩
  | relock i n =>
    by_cases hi : m = i
    · exact .inr (.inr (.inl ⟨n, by rw [hi]⟩))
    · exact .inl ⟨Function.update_of_ne hi .., rfl⟩
  | release i t =>
    by_cases hi : m = i
    · exact .inr (.inr (.inr (.inl ⟨t, by rw [hi]⟩)))
    · exact .inl ⟨Function.update_of_ne hi .., rfl⟩
  | destroy i =>
    by_cases hi : m = i
    · exact .inr (.inr (.inr (.inr (by rw [hi]))))
    · exact .inl ⟨Function.update_of_ne hi .., by simp [Op.slots, hi]⟩
  | _ => exact .inl ⟨rfl, rfl⟩

/-! ### A task inside a lock call -/

/-- It waits for the mutex. -/
def Waiting (c : Core) (m : ℕ) (t : TaskId) : Prop := (c.tasks t).wait = some (.list (.mutex m))

/-- Its wait has ended well. -/
def Granted (c : Core) (t : TaskId) : Prop := (c.tasks t).wait = none ∧ (c.tasks t).waitResult = Code.ok

/-- Its wait has ended otherwise, and the mutex is not its own. -/
def Refused (c : Core) (m : ℕ) (t : TaskId) : Prop :=
  (c.tasks t).wait = none ∧ (c.tasks t).waitResult ≠ Code.ok ∧ (c.mutexes m).owner ≠ some t

/-- A task that waits goes on waiting, is made the owner, or is refused. -/
theorem waiting_exec (hs : Sound c) (he : c.Enabled o) (hf : Foreign c t o) (hlt : t < c.nextTask)
    (h : Waiting c m t) : Waiting (c.exec o) m t ∨ Refused (c.exec o) m t ∨
      (∃ u, o = .release m u) ∧ Granted (c.exec o) t ∧ ((c.exec o).mutexes m).owner = some t := by
  have hmem : t ∈ c.waitLists (.mutex m) := (hs.wf.filed _ t).mpr h
  have hown : (c.mutexes m).owner ≠ some t := (hs.wf.contested m t hmem).2
  rcases foreign_wait hs he hf with ⟨h₁, -⟩ | ⟨h₁, h₂⟩
  · exact .inl (h₁.trans h)
  · refine .inr ?_
    -- who has not been handed the mutex does not own it
    have refused : (∀ u, o ≠ .release m u) → ((c.exec o).tasks t).waitResult ≠ Code.ok → Refused (c.exec o) m t := by
      intro hr hx
      refine ⟨h₁, hx, fun e => ?_⟩
      rcases owner_exec hs.wf.isFiled he e with e | e | ⟨u, rest, e, -⟩
      · exact hown e
      · exact hf.acquire m e
      · exact hr u e
    cases o with
    | wake u r =>
      obtain ⟨rfl, -, -⟩ := h₂
      have hw : (c.tasks t).waitMutex = none := he
      rw [Tcb.waitMutex_eq_some.mpr h] at hw
      cases hw
    | timeout u r =>
      obtain ⟨rfl, e, -⟩ := h₂
      refine .inl (refused (by simp) ?_)
      rw [e]
      refine hf.timeout r rfl fun hd => ?_
      have := (hs.wf.delayed t).mp hd
      rw [h] at this
      cases this
    | suspend u =>
      obtain ⟨rfl, e, -⟩ := h₂
      refine .inl (refused (by simp) ?_)
      rw [e]
      decide
    | delete u =>
      obtain ⟨rfl, e⟩ := h₂
      refine .inl (refused (by simp) ?_)
      rw [e]
      decide
    | release m' u =>
      obtain ⟨⟨rest, hr⟩, e⟩ := h₂
      have hw : (c.tasks t).wait = some (.list (.mutex m')) :=
        (hs.wf.filed _ t).mp (by rw [hr]; exact List.mem_cons_self ..)
      rw [h] at hw
      cases hw
      refine .inr ⟨⟨u, rfl⟩, ⟨h₁, e⟩, ?_⟩
      rw [exec_mutexes hs.wf.isFiled he]
      simp only [Op.mutexes, Function.update_self, hr]
    | create a => exact absurd h₂.1 (Nat.not_le.mpr hlt)
    | start memory => exact absurd rfl (hf.start memory)
    | _ => exact h₂.elim

/-- The new owner has locked it once. -/
theorem lockCount_of_release {u : TaskId} (hf : Filed c) (he : c.Enabled (.release m u))
    (ho : ((c.exec (.release m u)).mutexes m).owner = some t) :
    ((c.exec (.release m u)).mutexes m).lockCount = 1 := by
  rw [exec_mutexes hf he] at ho ⊢
  simp only [Op.mutexes, Function.update_self] at ho ⊢
  cases hw : c.waitLists (.mutex m) with
  | nil =>
    rw [hw] at ho
    cases ho
  | cons next rest => rfl

/-- What has been granted is not taken back from a live task. -/
theorem granted_exec (hs : Sound c) (he : c.Enabled o) (hf : Foreign c t o) (hlt : t < c.nextTask)
    (h : Granted c t) : Granted (c.exec o) t ∨ ¬ (c.exec o).Live t := by
  rcases foreign_wait hs he hf with ⟨h₁, h₂⟩ | ⟨h₁, h₂⟩
  · exact .inl ⟨h₁.trans h.1, h₂.trans h.2⟩
  · cases o with
    | wake u r | timeout u r | suspend u =>
      obtain ⟨rfl, -, hw⟩ := h₂
      exact absurd h.1 hw
    | delete u =>
      obtain ⟨rfl, -⟩ := h₂
      refine .inr fun hl => ?_
      exact ((exec_live hs he (by simp) hlt).mp hl).2 rfl
    | release m' u =>
      obtain ⟨⟨rest, hr⟩, -⟩ := h₂
      have hw : (c.tasks t).wait = some (.list (.mutex m')) :=
        (hs.wf.filed _ t).mp (by rw [hr]; exact List.mem_cons_self ..)
      rw [h.1] at hw
      cases hw
    | create a => exact absurd h₂.1 (Nat.not_le.mpr hlt)
    | start memory => exact absurd rfl (hf.start memory)
    | _ => exact h₂.elim

/-- Who has been refused is not made the owner. -/
theorem refused_exec (hs : Sound c) (he : c.Enabled o) (hf : Foreign c t o) (hlt : t < c.nextTask)
    (h : Refused c m t) : Refused (c.exec o) m t := by
  have hnot : ∀ m', t ∉ c.waitLists (.mutex m') := fun m' => hs.wf.not_mem_waitLists h.1 _
  have hown : ((c.exec o).mutexes m).owner ≠ some t := by
    intro e
    rcases owner_exec hs.wf.isFiled he e with e | e | ⟨u, rest, -, hr⟩
    · exact h.2.2 e
    · exact hf.acquire m e
    · exact hnot m (by rw [hr]; exact List.mem_cons_self ..)
  rcases foreign_wait hs he hf with ⟨h₁, h₂⟩ | ⟨h₁, h₂⟩
  · exact ⟨h₁.trans h.1, fun e => h.2.1 (h₂.symm.trans e), hown⟩
  · refine ⟨h₁, ?_, hown⟩
    cases o with
    | wake u r | timeout u r | suspend u =>
      obtain ⟨rfl, -, hw⟩ := h₂
      exact absurd h.1 hw
    | delete u =>
      rw [h₂.2]
      decide
    | release m' u =>
      obtain ⟨⟨rest, hr⟩, -⟩ := h₂
      exact absurd (by rw [hr]; exact List.mem_cons_self ..) (hnot m')
    | create a => exact absurd h₂.1 (Nat.not_le.mpr hlt)
    | start memory => exact absurd rfl (hf.start memory)
    | _ => exact h₂.elim

end Core

namespace Sys

variable {s s' : Sys} {a : Act} {as : List Act} {t : TaskId} {m : ℕ} {f : Frame}

/-- Task `t` owns the mutex. -/
def Owns (m : ℕ) (t : TaskId) (s : Sys) : Prop := (s.core.mutexes m).owner = some t

/-! ### What an action does to a task inside a lock call -/

theorem waiting_step (hi : InCall s t f) (hp : Paused t s a) (h : s.step a = some s') (hw : Waiting s.core m t) :
    Waiting s'.core m t ∨ Refused s'.core m t ∨
      Granted s'.core t ∧ Owns m t s' ∧ (s'.core.mutexes m).lockCount = 1 := by
  rcases others_step hi hp h with ⟨ops, hpath⟩ | ⟨o, -, he, hf, e⟩
  · -- nobody unlocks on such a path
    have := hpath.invariant (I := fun c => Waiting c m t ∨ Refused c m t) ?_ (.inl hw)
    · exact this.imp_right .inl
    · rintro c o c' hc ⟨hs, hlt, hm, hf, -⟩ ⟨he, rfl⟩
      rcases hc with hc | hc
      · rcases waiting_exec hs he hf hlt hc with hc | hc | ⟨⟨u, rfl⟩, -⟩
        · exact .inl hc
        · exact .inr hc
        · exact absurd hm (by simp [Op.Mild, Op.Calm, Op.Timely])
      · exact .inr (refused_exec hs he hf hlt hc)
  · rw [Owns, e]
    rcases waiting_exec hi.sound he hf hi.lt hw with hc | hc | hc
    · exact .inl hc
    · exact .inr (.inl hc)
    · obtain ⟨⟨u, rfl⟩, hg, ho⟩ := hc
      exact .inr (.inr ⟨hg, ho, lockCount_of_release hi.sound.wf.isFiled he ho⟩)

theorem refused_step (hi : InCall s t f) (hp : Paused t s a) (h : s.step a = some s') (hw : Refused s.core m t) :
    Refused s'.core m t := by
  rcases others_step hi hp h with ⟨ops, hpath⟩ | ⟨o, -, he, hf, e⟩
  · refine hpath.invariant (I := fun c => Refused c m t) ?_ hw
    rintro c o c' hc ⟨hs, hlt, -, hf, -⟩ ⟨he, rfl⟩
    exact refused_exec hs he hf hlt hc
  · rw [e]
    exact refused_exec hi.sound he hf hi.lt hw

theorem granted_step (hi : InCall s t f) (hp : Paused t s a) (h : s.step a = some s')
    (hw : Granted s.core t ∨ ¬ s.core.Live t) : Granted s'.core t ∨ ¬ s'.core.Live t := by
  have key : ∀ c o, Sound c → t < c.nextTask → c.Enabled o → Foreign c t o → Granted c t ∨ ¬ c.Live t →
      Granted (c.exec o) t ∨ ¬ (c.exec o).Live t := by
    rintro c o hs hlt he hf (hc | hc)
    · exact granted_exec hs he hf hlt hc
    · exact .inr fun hl => hc ((exec_live hs he hf.start hlt).mp hl).1
  rcases others_step hi hp h with ⟨ops, hpath⟩ | ⟨o, -, he, hf, e⟩
  · refine hpath.invariant (I := fun c => Granted c t ∨ ¬ c.Live t) ?_ hw
    rintro c o c' hc ⟨hs, hlt, -, hf, -⟩ ⟨he, rfl⟩
    exact key c o hs hlt he hf hc
  · rw [e]
    exact key _ o hi.sound hi.lt he hf hw

/-! ### From the wait to the return -/

theorem inCall_path (hi : InCall s t f) (hp : Path (Next step) (Paused t) s as s') : InCall s' t f :=
  hp.invariant (I := fun s => InCall s t f) (fun _ _ _ hi hp h => inCall_step hi hp h) hi

theorem refused_path (hi : InCall s t f) (hw : Refused s.core m t) (hp : Path (Next step) (Paused t) s as s') :
    Refused s'.core m t ∧ ¬ Visits step (Owns m t) s as := by
  induction hp with
  | nil => exact ⟨hw, hw.2.2⟩
  | cons hc hr _ ih =>
    obtain ⟨h₁, h₂⟩ := ih (inCall_step hi hc hr) (refused_step hi hc hr hw)
    refine ⟨h₁, ?_⟩
    rw [visits_cons hr, not_or]
    exact ⟨hw.2.2, h₂⟩

theorem granted_path (hi : InCall s t f) (hw : Granted s.core t ∨ ¬ s.core.Live t)
    (hp : Path (Next step) (Paused t) s as s') : Granted s'.core t ∨ ¬ s'.core.Live t := by
  induction hp with
  | nil => exact hw
  | cons hc hr _ ih => exact ih (inCall_step hi hc hr) (granted_step hi hc hr hw)

/-- **A task that waits for a mutex** is made its owner on the way, and then granted it, or not. -/
theorem waiting_path (hi : InCall s t f) (hw : Waiting s.core m t) (hp : Path (Next step) (Paused t) s as s') :
    Waiting s'.core m t ∨ (Refused s'.core m t ∧ ¬ Visits step (Owns m t) s as) ∨
      ((Granted s'.core t ∨ ¬ s'.core.Live t) ∧ Visits step (Owns m t) s as) := by
  induction hp with
  | nil => exact .inl hw
  | @cons s₁ s₂ s₃ a as hc hr hp ih =>
    have hi' := inCall_step hi hc hr
    have hne : ¬ Owns m t s₁ := (hi.sound.wf.contested m t ((hi.sound.wf.filed _ t).mpr hw)).2
    rw [visits_cons hr]
    rcases waiting_step hi hc hr hw with hw' | hw' | ⟨hg, ho, -⟩
    · rcases ih hi' hw' with h | ⟨h, hv⟩ | ⟨h, hv⟩
      · exact .inl h
      · exact .inr (.inl ⟨h, fun hv' => hv'.elim hne hv⟩)
      · exact .inr (.inr ⟨h, .inr hv⟩)
    · obtain ⟨h, hv⟩ := refused_path hi' hw' hp
      exact .inr (.inl ⟨h, fun hv' => hv'.elim hne hv⟩)
    · refine .inr (.inr ⟨granted_path hi' (.inl hg) hp, .inr ?_⟩)
      cases as with
      | nil => exact ho
      | cons b bs => exact .inl ho

/-- A lock call returns at once, or waits. -/
theorem mutexLock_cases {k : Kernel} {h : Handle} (hm : k.core.objFromHandle .mutex h = some m)
    (hcur : k.core.cur = some t) (ms : Word) : (∃ r, (k.mutexLock h ms).2 = .ret r) ∨
      k.mutexLock h ms = ({ k with core := k.core.blockTask t (.list (.mutex m)) ms },
        .wait { pending := .result, timeoutMs := ms }) := by
  unfold Kernel.mutexLock
  rw [hcur]
  dsimp only
  rw [hm]
  split
  · exact .inl ⟨_, rfl⟩
  · dsimp only
    split
    · exact .inl ⟨_, rfl⟩
    · split
      · split
        · exact .inl ⟨_, rfl⟩
        · exact .inl ⟨_, rfl⟩
      · split
        · exact .inl ⟨_, rfl⟩
        · rcases k.block_cases (.list (.mutex m)) ms .result with ⟨e, h, -⟩ | ⟨u, hu, -, h⟩
          · rw [h]
            exact .inl ⟨_, rfl⟩
          · cases hcur.symm.trans hu
            exact .inr h

/-- The last unlock of a mutex by its owner. -/
theorem mutexUnlock_last {k : Kernel} {h : Handle} (hm : k.core.objFromHandle .mutex h = some m)
    (hcur : k.core.cur = some t) (hisr : k.core.isrNesting = 0) (ho : (k.core.mutexes m).owner = some t)
    (hn : (k.core.mutexes m).lockCount - 1 = 0) : (k.mutexUnlock h).1.core = k.core.mutexRelease m t := by
  unfold Kernel.mutexUnlock
  rw [hcur]
  dsimp only
  rw [if_neg (by simp [inIsr, hisr]), hm]
  dsimp only
  rw [if_neg (by simp [ho]), if_neg (by simp [hn])]
  rfl

/-! ### The law -/

/-- What holds of the mutexes in a state, and in what can follow it. -/
structure MutexLaw (s : Sys) : Prop where
  /-- A mutex is locked exactly if its owner resolves to a live task that holds it once, and it is
  locked at least once. -/
  locked_iff : ∀ m, (s.core.mutexes m).owner ≠ none ↔ ∃ t, s.core.tcbFromHandle (s.core.mutexes m).owner = some t ∧
    (s.core.tasks t).heldMutexes.count m = 1 ∧ 1 ≤ (s.core.mutexes m).lockCount
  /-- An unlocked mutex has no waiters. -/
  unlocked : ∀ m, (s.core.mutexes m).owner = none → s.core.waitLists (.mutex m) = []
  /-- The last unlock of a mutex that is waited for makes exactly one waiter the owner. -/
  handOver : ∀ x m t s', s.runningTask = some t → s.core.objFromHandle .mutex x = some m → Owns m t s →
    (s.core.mutexes m).lockCount = 1 → s.core.waitLists (.mutex m) ≠ [] →
    s.step (.call (.mutexUnlock x)) = some s' → ∃ w ∈ s.core.waitLists (.mutex m), Owns m w s' ∧
      ∀ u, u ∈ s'.core.waitLists (.mutex m) ↔ u ∈ s.core.waitLists (.mutex m) ∧ u ≠ w
  /-- A lock call that has blocked returns `AIXOS_OK` exactly if its task became the owner. -/
  lockReturns : ∀ x ms m t s₁ as s₂ s₃, s.runningTask = some t → s.core.objFromHandle .mutex x = some m →
    s.step (.call (.mutexLock x ms)) = some s₁ → s₁.frame t ≠ none → Path (Next step) (Paused t) s₁ as s₂ →
    s₂.runningTask = some t → s₂.step .resume = some s₃ →
    (s₃.ret t = some (.code Code.ok) ↔ Visits step (Owns m t) s₁ as)

theorem handOver_of_sound (hs : Sound s.core) {x : Handle} (ht : s.runningTask = some t)
    (hm : s.core.objFromHandle .mutex x = some m) (ho : Owns m t s) (hn : (s.core.mutexes m).lockCount = 1)
    (hw : s.core.waitLists (.mutex m) ≠ []) (h : s.step (.call (.mutexUnlock x)) = some s') :
    ∃ w ∈ s.core.waitLists (.mutex m), Owns m w s' ∧
      ∀ u, u ∈ s'.core.waitLists (.mutex m) ↔ u ∈ s.core.waitLists (.mutex m) ∧ u ≠ w := by
  obtain ⟨hcur, hrun, hisr, -⟩ := runningTask_eq_some ht
  have he : s.core.Enabled (.release m t) := ⟨hcur, ho⟩
  have hc : s'.core = s.core.exec (.release m t) := by
    rw [core, ← step_call_kernel h]
    exact mutexUnlock_last hm hcur hisr ho (by rw [hn])
  have hs' : Sound s'.core := by
    rw [hc]
    exact hs.exec he trivial
  cases hl : s.core.waitLists (.mutex m) with
  | nil => exact absurd hl hw
  | cons w rest =>
    have hmw : (s'.core.mutexes m).owner = some w := by
      rw [hc, exec_mutexes hs.wf.isFiled he]
      simp only [Op.mutexes, Function.update_self, hl]
    refine ⟨w, List.mem_cons_self .., hmw, fun u => ?_⟩
    rw [← hl, hs'.wf.filed, hs.wf.filed, hc]
    rcases exec_ended hs he (by simp) u with ⟨e, -⟩ | ⟨e, ⟨r, hr⟩, -⟩
    · rw [e]
      refine ⟨fun hu => ⟨hu, ?_⟩, fun hu => hu.1⟩
      -- the new owner waits for it no longer
      rintro rfl
      refine (hs'.wf.contested m u ((hs'.wf.filed _ u).mpr ?_)).2 hmw
      rw [hc, e]
      exact hu
    · rw [hl] at hr
      cases hr
      simp [e]

/-- A lock call that does not return at once waits. -/
theorem waiting_of_lock (hs : Sound s.core) {x : Handle} {ms : Word} {s₁ : Sys} (ht : s.runningTask = some t)
    (hm : s.core.objFromHandle .mutex x = some m) (h : s.step (.call (.mutexLock x ms)) = some s₁)
    (hf : s₁.frame t ≠ none) : InCall s₁ t { pending := .result, timeoutMs := ms } ∧ Waiting s₁.core m t :=
  inCall_of_call hs ht h hf (mutexLock_cases hm (runningTask_eq_some ht).1 ms)

theorem lockReturns_of_sound (hs : Sound s.core) {x : Handle} {ms : Word} {s₁ s₂ s₃ : Sys}
    (ht : s.runningTask = some t) (hm : s.core.objFromHandle .mutex x = some m)
    (h : s.step (.call (.mutexLock x ms)) = some s₁) (hf : s₁.frame t ≠ none)
    (hp : Path (Next step) (Paused t) s₁ as s₂) (ht₂ : s₂.runningTask = some t) (h₂ : s₂.step .resume = some s₃) :
    s₃.ret t = some (.code Code.ok) ↔ Visits step (Owns m t) s₁ as := by
  obtain ⟨hi, hw⟩ := waiting_of_lock hs ht hm h hf
  have hi₂ := inCall_path hi hp
  -- the call returns the result of the wait
  have hret : s₃.ret t = some (.code (s₂.core.tasks t).waitResult) := by
    obtain ⟨u, g, hu, hg, rfl⟩ := step_resume h₂
    obtain rfl : t = u := Option.some.inj (ht₂.symm.trans hu)
    rw [hi₂.frame] at hg
    cases hg
    exact (finish_ret s₂ t rfl).2
  obtain ⟨-, -, -, hst₂⟩ := runningTask_eq_some ht₂
  have hlive : s₂.core.Live t := by simp [Live, hst₂]
  rw [hret]
  rcases waiting_path hi hw hp with h | ⟨h, hv⟩ | ⟨h, hv⟩
  · have := hi₂.sound.wf.wait_eq_none_of_isReady (.inr hst₂)
    rw [show (s₂.core.tasks t).wait = _ from h] at this
    cases this
  · refine ⟨fun e => absurd ?_ h.2.1, fun hv' => absurd hv' hv⟩
    simpa using e
  · rcases h with h | h
    · refine ⟨fun _ => hv, fun _ => ?_⟩
      rw [h.2]
    · exact absurd hlive h

theorem counted_step (hs : Sound s.core) (hc : Counted s.core) (h : s.step a = some s') : Counted s'.core := by
  rcases step_core hs h with ⟨ops, hp⟩ | ⟨o, ho, he, e⟩
  · refine (hp.invariant (I := fun c => Sound c ∧ Counted c) ?_ ⟨hs, hc⟩).2
    rintro c o c' ⟨hs, hc⟩ ⟨hm, ho⟩ ⟨he, rfl⟩
    refine ⟨(hm.exec hs he).1, hc.exec hs.wf.isFiled he ?_⟩
    rintro m n rfl
    exact (performs_relock ho).1
  · rw [e]
    refine hc.exec hs.wf.isFiled he ?_
    rintro m n rfl
    exact (performs_relock ho).1

theorem counted_path (hp : Path (Next step) StartsClean init as s) : Counted s.core := by
  refine (hp.invariant (I := fun s => Sound s.core ∧ Counted s.core) ?_ ⟨sound_init, counted_init⟩).2
  rintro s a s' ⟨hs, hc⟩ hclean h
  exact ⟨sound_step hs hclean h, counted_step hs hc h⟩

/-- An owner is live, and holds the mutex once. -/
theorem locked_iff_of_sound (hs : Sound s.core) (hc : Counted s.core) (m : ℕ) :
    (s.core.mutexes m).owner ≠ none ↔ ∃ t, s.core.tcbFromHandle (s.core.mutexes m).owner = some t ∧
      (s.core.tasks t).heldMutexes.count m = 1 ∧ 1 ≤ (s.core.mutexes m).lockCount := by
  constructor
  · intro h
    obtain ⟨t, ht⟩ := Option.ne_none_iff_exists'.mp h
    refine ⟨t, ?_, ?_, hc m h⟩
    · rw [ht]
      exact Option.filter_eq_some_iff.mpr ⟨rfl, decide_eq_true (hs.wf.owner_live m t ht)⟩
    · exact List.count_eq_one_of_mem (hs.wf.heldNodup t) ((hs.wf.held t m).mpr ht)
  · rintro ⟨t, ht, -⟩ h
    rw [h] at ht
    cases ht

/-- An unlocked mutex has no waiters. -/
theorem unlocked_of_sound (hs : Sound s.core) (m : ℕ) (h : (s.core.mutexes m).owner = none) :
    s.core.waitLists (.mutex m) = [] :=
  List.eq_nil_iff_forall_not_mem.mpr fun t ht => (hs.wf.contested m t ht).1 h

/-- **The law of mutexes** holds in every state of every run in which the start finds no ready
task queued. -/
theorem mutexLaw_of_path (hp : Path (Next step) StartsClean init as s) : MutexLaw s := by
  have hs := sound_path hp sound_init
  exact {
    locked_iff := locked_iff_of_sound hs (counted_path hp)
    unlocked := unlocked_of_sound hs
    handOver := fun _ _ _ _ ht hm ho hn hw h => handOver_of_sound hs ht hm ho hn hw h
    lockReturns := fun _ _ _ _ _ _ _ _ ht hm h hf hp ht₂ h₂ => lockReturns_of_sound hs ht hm h hf hp ht₂ h₂ }

end Sys

end Aixos

namespace Aixos.Sys

open Transition Aixos.Core

attribute [local instance] Config.default

theorem boosted_mutexLaw : ∃ s, run step init boosted = some s ∧ Owns 0 0 s ∧
    s.core.waitLists (.mutex 0) = [1] ∧ MutexLaw s := by
  obtain ⟨s, h, hp⟩ := exists_run step init boosted (fun s => decide ((s.core.mutexes 0).owner = some 0 ∧
    s.core.waitLists (.mutex 0) = [1])) (by decide +kernel)
  obtain ⟨ho, hw⟩ := of_decide_eq_true hp
  exact ⟨s, h, ho, hw, mutexLaw_of_path (path_of_boot h).1⟩

/-- The same as in `forgotten`, up to where task 0 is about to lock the mutex of task 2. -/
def doubled : List Act :=
  [.call (.taskCreate { stackSize := 512, priority := 5 }), .call (.taskCreate { stackSize := 512, priority := 7 }),
    .call (.taskCreate { stackSize := 512, priority := 8 }), .call (.taskSuspend 0), .call (.taskResume 0),
    .start true, .call .timerServiceWait, .switch,
    .call .mutexCreate, .call (.mutexLock ⟨0, 1⟩ forever), .call (.taskSuspend 2), .switch,
    .call (.mutexLock ⟨0, 1⟩ forever), .switch]

/-- Task 0 blocks in its lock call, is run again and returns `AIXOS_OK`, and task 2 has owned the
mutex all the time. -/
theorem doubled_not_mutexLaw : ∃ s, run step init doubled = some s ∧ ¬ MutexLaw s := by
  -- the three actions that follow, with what is seen after each
  obtain ⟨s, h, hp⟩ := exists_run step init doubled (fun s : Sys =>
    decide (s.runningTask = some 0 ∧ s.core.objFromHandle .mutex ⟨0, 1⟩ = some 0) &&
    (s.step (.call (.mutexLock ⟨0, 1⟩ forever))).any fun s₁ : Sys =>
      decide ((s₁.frame 0).isSome ∧ s₁.runningTask = none ∧ (s₁.core.mutexes 0).owner = some 2) &&
      (s₁.step .switch).any fun s₂ : Sys =>
        decide (s₂.runningTask = some 0 ∧ (s₂.core.mutexes 0).owner = some 2) &&
        (s₂.step .resume).any fun s₃ : Sys => decide (s₃.ret 0 = some (.code Code.ok))) (by decide +kernel)
  refine ⟨s, h, fun hl => ?_⟩
  obtain ⟨h₀, hp⟩ := (Bool.and_eq_true _ _).mp hp
  obtain ⟨s₁, e₁, hp⟩ := Option.any_eq_true _ _ |>.mp hp
  obtain ⟨h₁, hp⟩ := (Bool.and_eq_true _ _).mp hp
  obtain ⟨s₂, e₂, hp⟩ := Option.any_eq_true _ _ |>.mp hp
  obtain ⟨h₂, hp⟩ := (Bool.and_eq_true _ _).mp hp
  obtain ⟨s₃, e₃, h₃⟩ := Option.any_eq_true _ _ |>.mp hp
  obtain ⟨ht, hm⟩ := of_decide_eq_true h₀
  obtain ⟨hf, hn, ho₁⟩ := of_decide_eq_true h₁
  obtain ⟨ht₂, ho₂⟩ := of_decide_eq_true h₂
  have hpath : Path (Next step) (Paused 0) s₁ [.switch] s₂ := .single (by simp [Paused]) e₂
  have hv := (hl.lockReturns ⟨0, 1⟩ forever 0 0 s₁ [.switch] s₂ s₃ ht hm e₁ (Option.isSome_iff_ne_none.mp hf) hpath
    ht₂ e₃).mp (of_decide_eq_true h₃)
  rcases (visits_cons e₂).mp hv with ho | ho
  · rw [Owns, ho₁] at ho
    cases ho
  · have ho : (s₂.core.mutexes 0).owner = some 0 := ho
    rw [ho₂] at ho
    cases ho

end Aixos.Sys
