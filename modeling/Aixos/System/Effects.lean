import Aixos.Kernel.System
import Aixos.Core.Invariant

/-!
# What the calls do to the core

A call, or what is left of one after a wait, changes the core in one of three ways: by
calm steps, which end waits but begin none; by blocking the current task; or by one step
of another kind.

* `Effect` — the three ways.
* `Call.Performs`, `Pending.Performs` — the steps that can be.
* `Kernel.call_does`, `Kernel.resume_does`, `Kernel.isrCall_path` — every call of the
  native interface, every resumed one and everything interrupts do is of these.
-/

namespace Aixos

open Transition Aixos.Core

variable [cfg : Config]

/-- The steps that begin no wait, end no wait for a mutex, and change no base priority. -/
def Core.Op.Calm : Op → Prop
  | .wake .. | .yield | .resume _ | .lock | .unlock => True
  | .alloc .. | .allocMutex _ | .free .. | .acquire .. | .relock .. | .destroy _ => True
  | _ => False

/-- The steps a task makes on others, or on itself, that are not calm. -/
def Core.Op.Single : Op → Prop
  | .suspend _ | .setPriority .. | .create _ | .delete _ | .release .. => True
  | _ => False

namespace Core

/-- The current task begins to wait for `w`. -/
def BlocksOn (c : Core) (w : Wait) (o : Op) : Prop := ∃ t ms, c.cur = some t ∧ o = .block t w ms

/-- The wait of a task in the list `l` ends, with `AIXOS_OK`. -/
def WakesFrom (c : Core) (l : WaitList) (o : Op) : Prop := ∃ t ∈ c.waitLists l, o = .wake t Code.ok

/-- The handle `h` names an object that meets `P`. -/
def Names (k : Core) (kind : ObjKind) (h : Handle) (P : ℕ → Prop) : Prop :=
  ∃ i, k.objFromHandle kind h = some i ∧ P i

/-! The steps that functions make, in a state `c` on the way from the state `k` they begin in. -/

/-- `sem_post_common` -/
def SemPosts (k : Core) (h : Handle) (c : Core) (o : Op) : Prop :=
  k.Names .sem h fun i => c.WakesFrom (.sem i) o

/-- `aixos_event_wait` -/
def EventWaits (k : Core) (h : Handle) (c : Core) (o : Op) : Prop :=
  k.Names .event h fun i => c.BlocksOn (.list (.event i)) o

/-- `mq_send_common` -/
def MqSends (k : Core) (h : Handle) (c : Core) (o : Op) : Prop :=
  k.Names .mq h fun i => c.BlocksOn (.list (.mqSend i)) o ∨ c.WakesFrom (.mqRecv i) o

/-- `aixos_mq_recv_priority` -/
def MqRecvs (k : Core) (h : Handle) (c : Core) (o : Op) : Prop :=
  k.Names .mq h fun i => c.BlocksOn (.list (.mqRecv i)) o ∨ c.WakesFrom (.mqSend i) o

/-- `pipe_write_common` -/
def PipeWrites (k : Core) (h : Handle) (c : Core) (o : Op) : Prop :=
  k.Names .pipe h fun i => c.BlocksOn (.list (.pipeWrite i)) o ∨ c.WakesFrom (.pipeRead i) o

/-- `pipe_read_common` -/
def PipeReads (k : Core) (h : Handle) (c : Core) (o : Op) : Prop :=
  k.Names .pipe h fun i => c.BlocksOn (.list (.pipeRead i)) o ∨ c.WakesFrom (.pipeWrite i) o

/-- `notify_common` -/
def Notifies (t : TaskId) (c : Core) (o : Op) : Prop :=
  (c.tasks t).wait = some .notify ∧ o = .wake t Code.ok

/-- `aixos_mutex_lock` -/
def MutexLocks (k : Core) (h : Handle) (c : Core) (o : Op) : Prop :=
  k.Names .mutex h fun m => c.BlocksOn (.list (.mutex m)) o ∨ (∃ t, c.cur = some t ∧ o = .acquire m t) ∨
    ∃ n, 0 < n ∧ o = .relock m n

/-- `aixos_mutex_unlock` -/
def MutexUnlocks (k : Core) (h : Handle) (c : Core) (o : Op) : Prop :=
  k.Names .mutex h fun m => (∃ t, c.cur = some t ∧ (k.mutexes m).lockCount - 1 = 0 ∧ o = .release m t) ∨
    ∃ n, 0 < n ∧ o = .relock m n

end Core

/-- How a critical section that makes only steps of `A` changes the core. -/
inductive Effect (A : Core → Op → Prop) (c : Core) : Core → Outcome → Prop where
  /-- by calm steps -/
  | calm {c' : Core} {ops : List Op} {r : Outcome} :
      Path Step (fun c o => o.Calm ∧ A c o) c ops c' → Effect A c c' r
  /-- by blocking the current task, which will go on in the frame it leaves -/
  | block {t : TaskId} {w : Wait} {ms : Word} {p : Pending} : A c (.block t w ms) →
      MayBlock c t w → Effect A c (c.blockTask t w ms) (.wait { pending := p, timeoutMs := ms })
  /-- by one other step -/
  | single {o : Op} {r : Outcome} : A c o → o.Single → c.Enabled o → Effect A c (c.exec o) r

/-- The effect of a function of the kernel that has returned `r`. -/
def Kernel.Does (k : Kernel) (A : Core → Op → Prop) (r : Kernel × Outcome) : Prop :=
  Effect A k.core r.1.core r.2

/-- The steps a call makes, in a state on the way from `k`. -/
def Call.Performs (k : Core) : Call → Core → Op → Prop
  | .taskCreate a, _, o => o = .create a
  | .taskDelete t, _, o => o = .delete t
  | .taskSleep _, c, o => o = .yield ∨ c.BlocksOn .delay o
  | .taskYield, _, o => o = .yield
  | .taskSuspend t, _, o => o = .suspend t
  | .taskResume t, _, o => o = .resume t
  | .taskSetPriority t p, _, o => o = .setPriority t p.toNat
  | .schedLock, _, o => o = .lock
  | .schedUnlock, _, o => o = .unlock
  | .semCreate _, _, o => ∃ i, o = .alloc .sem i
  | .semWait h _, c, o => k.Names .sem h fun i => c.BlocksOn (.list (.sem i)) o
  | .semPost h, c, o => k.SemPosts h c o
  | .semDelete h, _, o => k.Names .sem h fun i => o = .free .sem i
  | .mutexCreate, _, o => ∃ i, o = .allocMutex i
  | .mutexLock h _, c, o => k.MutexLocks h c o
  | .mutexUnlock h, c, o => k.MutexUnlocks h c o
  | .mutexDelete h, _, o => k.Names .mutex h fun m => o = .destroy m
  | .eventCreate, _, o => ∃ i, o = .alloc .event i
  | .eventWait h .., c, o => k.EventWaits h c o
  | .eventSet h _, c, o => k.Names .event h fun i => c.WakesFrom (.event i) o
  | .eventClear .., _, _ => False
  | .eventDelete h, _, o => k.Names .event h fun i => o = .free .event i
  | .mqCreate .., _, o => ∃ i, o = .alloc .mq i
  | .mqSend h .., c, o => k.MqSends h c o
  | .mqRecv h .., c, o => k.MqRecvs h c o
  | .mqDelete h, _, o => k.Names .mq h fun i => o = .free .mq i
  | .pipeCreate .., _, o => ∃ i, o = .alloc .pipe i
  | .pipeWrite h .., c, o => k.PipeWrites h c o
  | .pipeRead h .., c, o => k.PipeReads h c o
  | .pipeDelete h, _, o => k.Names .pipe h fun i => o = .free .pipe i
  | .notify t .., c, o => Notifies t c o
  | .notifyWait .., c, o => c.BlocksOn .notify o
  | .notifyTake .., c, o => c.BlocksOn .notify o
  | .timerServiceWait, c, o => c.BlocksOn (.list .service) o

/-- The steps that what is left of a call makes, in a state on the way from `k`. -/
def Pending.Performs (k : Core) : Pending → Core → Op → Prop
  | .eventWait h .., c, o => k.EventWaits h c o
  | .mqSend h .., c, o => k.MqSends h c o
  | .mqRecv h .., c, o => k.MqRecvs h c o
  | .pipeWrite h .., c, o => k.PipeWrites h c o
  | .pipeRead h .., c, o => k.PipeReads h c o
  | .result, _, _ | .notifyWait .., _, _ | .notifyTake .., _, _ | .never, _, _ => False

/-- The current task may run: outside interrupts it is RUNNING, if there is one. -/
def Core.Runs (c : Core) : Prop :=
  c.isrNesting = 0 → ∀ t, c.cur = some t → (c.tasks t).state = .running

namespace Effect

variable {A B : Core → Op → Prop} {c c' : Core} {r : Outcome}

theorem refl : Effect A c c r := .calm (.nil c)

theorem one {o : Op} (ho : o.Calm) (hA : A c o) (he : c.Enabled o) : Effect A c (c.exec o) r :=
  .calm (.single ⟨ho, hA⟩ ⟨he, rfl⟩)

theorem mono (h : Effect A c c' r) (hAB : ∀ c o, A c o → B c o) : Effect B c c' r := by
  cases h with
  | calm hp => exact .calm (hp.mono fun c o h => ⟨h.1, hAB c o h.2⟩)
  | block hA hb => exact .block (hAB _ _ hA) hb
  | single hA hs he => exact .single (hAB _ _ hA) hs he

end Effect

namespace Core

variable {c : Core} {t u : TaskId} {k : ObjKind} {i : ℕ} {h : Handle}

theorem objFromHandle_eq_some (hi : c.objFromHandle k h = some i) :
    i = h.index ∧ (c.slots k i).used = true ∧ (c.slots k i).generation = h.generation := by
  unfold objFromHandle at hi
  split at hi
  · rename_i hc
    cases hi
    exact ⟨rfl, hc.2⟩
  · cases hi

/-- Waking a task leaves the waits of the others alone. -/
theorem taskWake_other (hf : Filed c) (r : Code) (hu : u ≠ t) :
    ((c.taskWake t r).tasks u).wait = (c.tasks u).wait := by
  have hd := taskDetachWaitLocked_detached hf t r
  unfold taskWake
  split
  · obtain ⟨a, b, e⟩ := schedRequestPreemption_eq
      (((c.taskDetachWaitLocked t r).setTask t fun b => { b with state := .ready }).schedAddTask t)
    dsimp only
    rw [e]
    dsimp only
    rw [schedAddTask_tasks, setTask_ne _ _ _ hu, hd.other u hu]
  · rfl

end Core

namespace Kernel

variable {k : Kernel} {A : Core → Op → Prop} {h : Handle} {i : ℕ}

/-- Only what objects store has changed. -/
theorem does_of_core {k' : Kernel} (e : k'.core = k.core) (r : Outcome) : k.Does A (k', r) := by
  show Effect A k.core k'.core r
  rw [e]
  exact .refl

/-- Blocking; only what objects store may have changed before. -/
theorem does_block {k' : Kernel} (e : k'.core = k.core) (hr : k.core.Runs) {w : Wait} {ms : Word} {p : Pending}
    (hA : ∀ t, k.core.cur = some t → A k.core (.block t w ms))
    (hused : ∀ l ki i, w = .list l → l.object = some (ki, i) → (k.core.slots ki i).used = true)
    (hown : ∀ t m, k.core.cur = some t → w = .list (.mutex m) →
      (k.core.mutexes m).owner ≠ none ∧ (k.core.mutexes m).owner ≠ some t) :
    k.Does A (k'.block w ms p) := by
  unfold Does block taskBlockCurrent
  rw [e]
  cases ht : k.core.cur with
  | none => exact does_of_core e _
  | some t =>
    dsimp only
    by_cases h₁ : k.core.inIsr
    · simp only [h₁, if_true]
      exact does_of_core e _
    · by_cases h₂ : k.core.schedIsLocked
      · simp only [h₁, h₂, if_true]
        exact does_of_core e _
      · simp only [h₁, h₂]
        have hisr : k.core.isrNesting = 0 := by simpa [inIsr] using h₁
        have hlock : k.core.schedLock = 0 := by simpa [schedIsLocked] using h₂
        exact .block (hA t ht) ⟨ht, hr hisr t ht, hisr, hlock, hused, fun m => hown t m ht⟩

/-- Blocking on an object that is not a mutex. -/
theorem does_block_list {k' : Kernel} (e : k'.core = k.core) (hr : k.core.Runs) {l : WaitList} {ms : Word} {p : Pending}
    (hA : ∀ o, k.core.BlocksOn (.list l) o → A k.core o)
    (hused : ∀ ki i, l.object = some (ki, i) → (k.core.slots ki i).used = true)
    (hm : ∀ m, l ≠ .mutex m) : k.Does A (k'.block (.list l) ms p) := by
  refine does_block e hr (fun t ht => hA _ ⟨t, ms, ht, rfl⟩) ?_ ?_
  · rintro l' ki i ⟨⟩ hobj
    exact hused ki i hobj
  · rintro t m - e
    exact absurd (by simpa using e) (hm m)

/-- Waking the first task of a list that is not that of a mutex. -/
theorem does_wakeFirst {k' : Kernel} (e : k'.core = k.core) (hf : Filed k.core) {l : WaitList}
    (hA : ∀ o, k.core.WakesFrom l o → A k.core o) (hm : ∀ m, l ≠ .mutex m) (r : Outcome) :
    k.Does A (k'.wakeFirst l, r) := by
  unfold Does wakeFirst
  rw [e]
  cases hw : k.core.waitLists l with
  | nil => exact does_of_core e r
  | cons t ts =>
    refine .one (o := .wake t Code.ok) trivial (hA _ ⟨t, hw ▸ List.mem_cons_self .., rfl⟩) ?_
    show (k.core.tasks t).waitMutex = none
    rw [Option.eq_none_iff_forall_not_mem]
    intro m hm'
    have h₁ := Tcb.waitMutex_eq_some.mp hm'
    rw [hf l t (hw ▸ List.mem_cons_self ..)] at h₁
    exact hm m (by simpa using h₁)

/-- Making an object that is not a mutex. -/
theorem does_createObject {kind : ObjKind} {fill : Kernel → ℕ → Kernel} (hk : kind ≠ .mutex)
    (hfill : ∀ k i, (fill k i).core = k.core) :
    k.Does (fun _ o => ∃ i, o = .alloc kind i) (k.createObject kind fill) := by
  unfold Does createObject
  cases hs : k.core.freeSlot kind with
  | none => exact .refl
  | some i =>
    dsimp only
    rw [hfill]
    exact .one (o := .alloc kind i) trivial ⟨i, rfl⟩ ⟨hk, hs⟩

theorem does_deleteObject {kind : ObjKind} (hk : kind ≠ .mutex) (h : Handle) :
    k.Does (fun _ o => k.core.Names kind h fun i => o = .free kind i) (k.deleteObject kind h) := by
  unfold Does deleteObject
  split
  · exact .refl
  · split
    · exact .refl
    · rename_i i hi
      split
      · rename_i hl
        refine .one (o := .free kind i) trivial ⟨i, hi, rfl⟩ ⟨hk, fun l hmem => ?_⟩
        exact List.isEmpty_iff.mp (List.all_eq_true.mp hl l hmem)
      · exact .refl

/-! ### Tasks and the scheduler -/

theorem does_taskCreate (a : CreateArgs) : k.Does (fun _ o => o = .create a) (k.taskCreate a) := by
  have : (k.taskCreate a).1.core = k.core.exec (.create a) := by
    unfold taskCreate
    dsimp only
    split <;> rfl
  unfold Does
  rw [this]
  exact .single rfl trivial trivial

theorem does_taskDelete (t : TaskId) : k.Does (fun _ o => o = .delete t) (k.taskDelete t) := by
  unfold Does taskDelete Core.taskDelete
  by_cases h₁ : ¬ k.core.Live t
  · rw [if_pos h₁]
    exact .refl
  rw [if_neg h₁]
  by_cases h₂ : (k.core.tasks t).heldMutexes ≠ []
  · rw [if_pos h₂]
    exact .refl
  rw [if_neg h₂]
  by_cases h₃ : k.core.cur = some t ∧ k.core.schedIsLocked
  · rw [if_pos h₃]
    exact .refl
  rw [if_neg h₃]
  have hd : ∀ r, Effect (fun _ o => o = .delete t) k.core (k.core.deleteTask t) r :=
    fun r => .single (o := .delete t) rfl trivial ⟨not_not.mp h₁, not_not.mp h₂, h₃⟩
  by_cases h₄ : k.core.cur = some t
  · simp only [h₄, decide_true]
    exact hd _
  · simp only [h₄, decide_false]
    exact hd _

theorem does_taskSuspend (t : TaskId) : k.Does (fun _ o => o = .suspend t) (k.coreCall (k.core.taskSuspend t)) := by
  unfold Does coreCall taskSuspend
  split
  · exact .refl
  · split
    · exact .refl
    · split
      · exact .refl
      · rename_i h₂ h₃
        exact .single (o := .suspend t) rfl trivial ⟨fun e => h₂ (.inl e), h₃⟩

theorem does_taskResume (t : TaskId) : k.Does (fun _ o => o = .resume t) (k.coreCall (k.core.taskResume t)) := by
  unfold Does coreCall taskResume
  split
  · exact .refl
  · split
    · exact .refl
    · rename_i h₂
      exact .one (o := .resume t) trivial rfl (not_not.mp h₂)

theorem does_taskSetPriority (t : TaskId) (p : ℤ) :
    k.Does (fun _ o => o = .setPriority t p.toNat) (k.coreCall (k.core.taskSetPriority t p)) := by
  unfold Does coreCall taskSetPriority
  split
  · exact .refl
  · split
    · exact .refl
    · rename_i h₁ h₂
      rw [not_or] at h₁
      refine .single (o := .setPriority t p.toNat) rfl trivial ⟨not_not.mp h₂, ?_⟩
      omega

theorem does_schedLock : k.Does (fun _ o => o = .lock) (k.coreCall k.core.schedLockTask) :=
  .one (o := .lock) trivial rfl trivial

theorem does_schedUnlock : k.Does (fun _ o => o = .unlock) (k.coreCall k.core.schedUnlockTask) :=
  .one (o := .unlock) trivial rfl trivial

theorem does_taskYield : k.Does (fun _ o => o = .yield) k.taskYield := by
  unfold Does taskYield
  split
  · exact .refl
  · exact .one (o := .yield) trivial rfl trivial

theorem does_taskSleep (hr : k.core.Runs) (ms : Word) :
    k.Does (fun c o => o = .yield ∨ c.BlocksOn .delay o) (k.taskSleep ms) := by
  unfold taskSleep
  split
  · exact .refl
  · split
    · exact does_taskYield.mono fun _ _ h => .inl h
    · refine does_block (by rfl) hr ?_ ?_ ?_
      · exact fun t ht => .inr ⟨t, ms, ht, rfl⟩
      · rintro l ki i ⟨⟩
      · rintro t m - ⟨⟩

theorem does_timerServiceWait (hr : k.core.Runs) :
    k.Does (fun c o => c.BlocksOn (.list .service) o) k.timerServiceWait := by
  refine does_block_list (by rfl) hr (fun _ h => h) ?_ ?_
  · rintro ki i ⟨⟩
  · rintro m ⟨⟩

/-! ### Semaphores and mutexes -/

theorem does_semCreate (n : ℤ) : k.Does (fun _ o => ∃ i, o = .alloc .sem i) (k.semCreate n) := by
  unfold semCreate
  split
  · exact .refl
  · exact does_createObject (by simp) fun _ _ => rfl

theorem does_semWait (hr : k.core.Runs) (h : Handle) (ms : Word) :
    k.Does (fun c o => k.core.Names .sem h fun i => c.BlocksOn (.list (.sem i)) o) (k.semWait h ms) := by
  unfold semWait
  split
  · exact .refl
  · split
    · exact .refl
    · split
      · exact .refl
      · split
        · exact .refl
        · rename_i i hi _ _
          refine does_block_list (by rfl) hr (fun o ho => ⟨i, hi, ho⟩) ?_ (by simp)
          rintro ki j ⟨⟩
          exact (objFromHandle_eq_some hi).2.1

theorem does_semPostCommon (hf : Filed k.core) (h : Handle) : k.Does (k.core.SemPosts h) (k.semPostCommon h) := by
  unfold semPostCommon
  split
  · exact .refl
  · rename_i i hi
    split
    · exact does_wakeFirst (by rfl) hf (fun o ho => ⟨i, hi, ho⟩) (by simp) _
    · split
      · exact .refl
      · exact .refl

theorem does_mutexCreate : k.Does (fun _ o => ∃ i, o = .allocMutex i) k.mutexCreate := by
  unfold Does mutexCreate createObject
  split
  · exact .refl
  · cases hs : k.core.freeSlot .mutex with
    | none => exact .refl
    | some i => exact .one (o := .allocMutex i) trivial ⟨i, rfl⟩ hs

theorem does_mutexLock (hr : k.core.Runs) (h : Handle) (ms : Word) :
    k.Does (k.core.MutexLocks h) (k.mutexLock h ms) := by
  unfold mutexLock
  split
  · exact .refl
  · rename_i self hself
    split
    · exact .refl
    · rename_i hisr
      split
      · exact .refl
      · rename_i m hm
        have hused := (objFromHandle_eq_some hm).2.1
        split
        · rename_i ho
          have hl : k.core.Live self := by simp [Core.Live, hr (by simpa [inIsr] using hisr) self hself]
          exact .one (o := .acquire m self) trivial ⟨m, hm, .inr (.inl ⟨self, hself, rfl⟩)⟩ ⟨hused, ho, hl⟩
        · split
          · split
            · exact .refl
            · exact .one (o := .relock m _) trivial ⟨m, hm, .inr (.inr ⟨_, Nat.succ_pos _, rfl⟩)⟩ trivial
          · split
            · exact .refl
            · rename_i ho hs _
              refine does_block (by rfl) hr ?_ ?_ ?_
              · exact fun t ht => ⟨m, hm, .inl ⟨t, ms, ht, rfl⟩⟩
              · rintro l ki i ⟨⟩ ⟨⟩
                exact hused
              · rintro t m' ht ⟨⟩
                rw [hself] at ht
                cases ht
                exact ⟨ho, hs⟩

theorem does_mutexUnlock (h : Handle) : k.Does (k.core.MutexUnlocks h) (k.mutexUnlock h) := by
  unfold mutexUnlock
  split
  · exact .refl
  · rename_i self hself
    split
    · exact .refl
    · split
      · exact .refl
      · rename_i m hm
        split
        · exact .refl
        · rename_i ho
          split
          · rename_i hn
            exact .one (o := .relock m _) trivial ⟨m, hm, .inr ⟨_, Nat.pos_of_ne_zero hn, rfl⟩⟩ trivial
          · rename_i hlast
            exact .single (o := .release m self) ⟨m, hm, .inl ⟨self, hself, not_not.mp hlast, rfl⟩⟩ trivial
              ⟨hself, not_not.mp ho⟩

theorem does_mutexDelete (h : Handle) :
    k.Does (fun _ o => k.core.Names .mutex h fun m => o = .destroy m) (k.mutexDelete h) := by
  unfold mutexDelete
  split
  · exact .refl
  · split
    · exact .refl
    · split
      · exact .refl
      · rename_i m hm hw
        exact .one (o := .destroy m) trivial ⟨m, hm, rfl⟩ (not_not.mp hw)

/-! ### Event groups -/

theorem does_eventCreate : k.Does (fun _ o => ∃ i, o = .alloc .event i) k.eventCreate := by
  unfold eventCreate
  split
  · exact .refl
  · exact does_createObject (by simp) fun _ _ => rfl

theorem does_eventWaitLoop (hr : k.core.Runs) (h : Handle) (mask : Word) (mode : BitVec 8)
    (start ms remaining : Word) : k.Does (k.core.EventWaits h) (k.eventWaitLoop h mask mode start ms remaining) := by
  unfold eventWaitLoop
  split
  · exact .refl
  · rename_i i hi
    dsimp only
    split
    · unfold Does
      dsimp only
      split <;> exact .refl
    · split
      · exact .refl
      · split
        · exact .refl
        · rename_i self _
          refine does_block_list (by rfl) hr (fun o ho => ⟨i, hi, ho⟩) ?_ (by simp)
          rintro ki j ⟨⟩
          exact (objFromHandle_eq_some hi).2.1

theorem does_eventWait (hr : k.core.Runs) (h : Handle) (mask : Word) (mode : BitVec 8) (ms : Word) :
    k.Does (k.core.EventWaits h) (k.eventWait h mask mode ms) := by
  unfold eventWait
  split
  · exact .refl
  · split
    · exact .refl
    · exact does_eventWaitLoop hr ..

/-- Tasks in the list of an event are woken by calm steps. -/
theorem eventSetLoop_path (hs : Sound k.core) (i : ℕ) (ts : List TaskId) (hnd : ts.Nodup)
    (ht : ∀ t ∈ ts, t ∈ k.core.waitLists (.event i)) :
    ∃ ops, Path Step (fun c o => o.Calm ∧ c.WakesFrom (.event i) o) k.core ops (eventSetLoop i k ts).core := by
  induction ts generalizing k with
  | nil => exact ⟨[], .nil _⟩
  | cons t ts ih =>
    rw [List.nodup_cons] at hnd
    rw [eventSetLoop]
    have hts : ∀ u ∈ ts, u ∈ k.core.waitLists (.event i) := fun u hu => ht u (List.mem_cons_of_mem _ hu)
    dsimp only
    split
    · -- the bits are taken first, then the task is woken
      generalize hk' : (if (k.pend t).mode &&& eventClearMode ≠ 0 then _ else k : Kernel) = k'
      have hc : k'.core = k.core := by
        rw [← hk']
        split <;> rfl
      rw [hc]
      have hmem := ht t (List.mem_cons_self ..)
      obtain ⟨ops, hp⟩ := ih (k := { k' with
          pend := Function.update k'.pend t
            { k'.pend t with result := eventMatch (k.eventFlags i) (k.pend t).mask (k.pend t).mode }
          core := k.core.taskWake t Code.ok }) (hs.taskWake t Code.ok) hnd.2 fun u hu => by
        -- the others stay in the list
        have hut : u ≠ t := by
          rintro rfl
          exact hnd.1 hu
        have h' := hs.taskWake t Code.ok
        rw [h'.wf.filed, taskWake_other hs.wf.isFiled Code.ok hut]
        exact (hs.wf.filed _ u).mp (hts u hu)
      refine ⟨.wake t Code.ok :: ops, .cons ⟨trivial, t, hmem, rfl⟩ ⟨?_, rfl⟩ hp⟩
      show (k.core.tasks t).waitMutex = none
      unfold Tcb.waitMutex
      rw [hs.wf.isFiled _ t hmem]
    · exact ih hs hnd.2 hts

theorem does_eventSet (hs : Sound k.core) (h : Handle) (flags : Word) :
    k.Does (fun c o => k.core.Names .event h fun i => c.WakesFrom (.event i) o) (k.eventSet h flags) := by
  unfold eventSet
  split
  · exact .refl
  · split
    · exact .refl
    · rename_i i hi
      obtain ⟨ops, hp⟩ := eventSetLoop_path (k := { k with
          eventFlags := Function.update k.eventFlags i (k.eventFlags i ||| flags) }) hs i
        (k.core.waitLists (.event i)) (hs.wf.nodup _) fun t ht => ht
      exact .calm (hp.mono fun _ _ h => ⟨h.1, i, hi, h.2⟩)

theorem does_eventClear (h : Handle) (flags : Word) : k.Does A (k.eventClear h flags) := by
  unfold eventClear
  split
  · exact .refl
  · split
    · exact .refl
    · exact .refl

/-! ### Message queues and pipes -/

theorem does_mqCreate (n size : ℕ) (st mem : Bool) :
    k.Does (fun _ o => ∃ i, o = .alloc .mq i) (k.mqCreate n size st mem) := by
  unfold mqCreate
  split
  · exact .refl
  · exact does_createObject (by simp) fun _ _ => rfl

theorem does_mqSendLoop (hr : k.core.Runs) (hf : Filed k.core) (hi : k.core.objFromHandle .mq h = some i)
    (message : List UInt8) (priority : ℕ) (start ms remaining : Word) (isr : Bool) :
    k.Does (k.core.MqSends h) (k.mqSendLoop i h message priority start ms remaining isr) := by
  unfold mqSendLoop
  split
  · split
    · exact .refl
    · refine does_block_list (by rfl) hr (fun o ho => ⟨i, hi, .inl ho⟩) ?_ (by simp)
      rintro ki j ⟨⟩
      exact (objFromHandle_eq_some hi).2.1
  · split
    · exact .refl
    · rename_i q _
      exact does_wakeFirst (by rfl) hf (fun o ho => ⟨i, hi, .inr ho⟩) (by simp) _

theorem does_mqSendCommon (hr : k.core.Runs) (hf : Filed k.core) (h : Handle)
    (message : Option (List UInt8)) (priority : ℕ) (ms : Word) (isr : Bool) :
    k.Does (k.core.MqSends h) (k.mqSendCommon h message priority ms isr) := by
  unfold mqSendCommon
  split
  · exact .refl
  · split
    · exact .refl
    · split
      · exact .refl
      · split
        · exact .refl
        · rename_i i hi
          split
          · exact .refl
          · exact does_mqSendLoop hr hf hi ..

theorem does_mqRecvLoop (hr : k.core.Runs) (hf : Filed k.core) (hi : k.core.objFromHandle .mq h = some i)
    (capacity : ℕ) (start ms remaining : Word) :
    k.Does (k.core.MqRecvs h) (k.mqRecvLoop i h capacity start ms remaining) := by
  unfold mqRecvLoop
  dsimp only
  split
  · split
    · exact .refl
    · refine does_block_list (by rfl) hr (fun o ho => ⟨i, hi, .inl ho⟩) ?_ (by simp)
      rintro ki j ⟨⟩
      exact (objFromHandle_eq_some hi).2.1
  · split
    · exact .refl
    · exact does_wakeFirst (by rfl) hf (fun o ho => ⟨i, hi, .inr ho⟩) (by simp) _

theorem does_pipeCreate (size : ℕ) (mem : Bool) :
    k.Does (fun _ o => ∃ i, o = .alloc .pipe i) (k.pipeCreate size mem) := by
  unfold pipeCreate
  split
  · exact .refl
  · exact does_createObject (by simp) fun _ _ => rfl

theorem does_pipeWriteLoop (hr : k.core.Runs) (hf : Filed k.core) (hi : k.core.objFromHandle .pipe h = some i)
    (data : List UInt8) (start ms remaining : Word) (isr : Bool) :
    k.Does (k.core.PipeWrites h) (k.pipeWriteLoop i h data start ms remaining isr) := by
  unfold pipeWriteLoop
  split
  · split
    · exact .refl
    · refine does_block_list (by rfl) hr (fun o ho => ⟨i, hi, .inl ho⟩) ?_ (by simp)
      rintro ki j ⟨⟩
      exact (objFromHandle_eq_some hi).2.1
  · dsimp only
    split
    · exact does_wakeFirst (by rfl) hf (fun o ho => ⟨i, hi, .inr ho⟩) (by simp) _
    · exact .refl

theorem does_pipeWriteCommon (hr : k.core.Runs) (hf : Filed k.core) (h : Handle)
    (data : Option (List UInt8)) (ms : Word) (isr : Bool) :
    k.Does (k.core.PipeWrites h) (k.pipeWriteCommon h data ms isr) := by
  unfold pipeWriteCommon
  split
  · exact .refl
  · split
    · exact .refl
    · split
      · exact .refl
      · split
        · exact .refl
        · split
          · exact .refl
          · rename_i i hi
            exact does_pipeWriteLoop hr hf hi ..

theorem does_pipeReadLoop (hr : k.core.Runs) (hf : Filed k.core) (hi : k.core.objFromHandle .pipe h = some i)
    (length : ℕ) (start ms remaining : Word) :
    k.Does (k.core.PipeReads h) (k.pipeReadLoop i h length start ms remaining) := by
  unfold pipeReadLoop
  split
  · split
    · exact .refl
    · refine does_block_list (by rfl) hr (fun o ho => ⟨i, hi, .inl ho⟩) ?_ (by simp)
      rintro ki j ⟨⟩
      exact (objFromHandle_eq_some hi).2.1
  · dsimp only
    split
    · exact does_wakeFirst (by rfl) hf (fun o ho => ⟨i, hi, .inr ho⟩) (by simp) _
    · exact .refl

/-! ### Notifications -/

theorem does_notifyCommon (t : TaskId) (value : Word) (action : NotifyAction) :
    k.Does (Notifies t) (k.notifyCommon t value action) := by
  unfold notifyCommon
  split
  · exact .refl
  · split
    · exact .refl
    · dsimp only
      split
      · rename_i hw
        refine .one (o := .wake t Code.ok) trivial ⟨hw.2, rfl⟩ ?_
        show (k.core.tasks t).waitMutex = none
        unfold Tcb.waitMutex
        rw [hw.2]
      · exact .refl

theorem does_notifyWait (hr : k.core.Runs) (entry exit ms : Word) (take : Option Bool) :
    k.Does (fun c o => c.BlocksOn .notify o) (k.notifyWait entry exit ms take) := by
  unfold notifyWait
  split
  · exact .refl
  · split
    · exact .refl
    · dsimp only
      split
      · exact .refl
      · split
        · exact .refl
        · refine does_block (by rfl) hr ?_ ?_ ?_
          · exact fun t ht => ⟨t, ms, ht, rfl⟩
          · rintro l ki i ⟨⟩
          · rintro t m - ⟨⟩

/-! ### All calls -/

theorem does_semPost (hf : Filed k.core) (h : Handle) : k.Does (k.core.SemPosts h) (k.semPost h) := by
  unfold semPost
  split
  · exact .refl
  · exact does_semPostCommon hf h

theorem does_mqSend (hr : k.core.Runs) (hf : Filed k.core) (h : Handle) (message : Option (List UInt8))
    (priority : ℕ) (ms : Word) : k.Does (k.core.MqSends h) (k.mqSend h message priority ms) := by
  unfold mqSend
  split
  · exact .refl
  · exact does_mqSendCommon hr hf ..

theorem does_mqRecv (hr : k.core.Runs) (hf : Filed k.core) (h : Handle) (capacity : ℕ) (ms : Word) :
    k.Does (k.core.MqRecvs h) (k.mqRecv h capacity ms) := by
  unfold mqRecv
  split
  · exact .refl
  · split
    · exact .refl
    · rename_i i hi
      exact does_mqRecvLoop hr hf hi ..

theorem does_pipeWrite (hr : k.core.Runs) (hf : Filed k.core) (h : Handle) (data : Option (List UInt8))
    (ms : Word) : k.Does (k.core.PipeWrites h) (k.pipeWrite h data ms) := by
  unfold pipeWrite
  split
  · exact .refl
  · exact does_pipeWriteCommon hr hf ..

theorem does_pipeRead (hr : k.core.Runs) (hf : Filed k.core) (h : Handle) (length : ℕ) (ms : Word) :
    k.Does (k.core.PipeReads h) (k.pipeRead h length ms) := by
  unfold pipeRead
  split
  · exact .refl
  · split
    · exact .refl
    · split
      · exact .refl
      · rename_i i hi
        exact does_pipeReadLoop hr hf hi ..

theorem does_notify (t : TaskId) (value : Word) (action : NotifyAction) :
    k.Does (Notifies t) (k.notify t value action) := by
  unfold notify
  split
  · exact .refl
  · exact does_notifyCommon t value action

/-- **Every call** changes the core in one of the three ways. -/
theorem call_does (hs : Sound k.core) (hr : k.core.Runs) (c : Call) : k.Does (c.Performs k.core) (k.call c) := by
  have hf := hs.wf.isFiled
  cases c with
  | taskCreate a => exact does_taskCreate a
  | taskDelete t => exact does_taskDelete t
  | taskSleep ms => exact does_taskSleep hr ms
  | taskYield => exact does_taskYield
  | taskSuspend t => exact does_taskSuspend t
  | taskResume t => exact does_taskResume t
  | taskSetPriority t p => exact does_taskSetPriority t p
  | schedLock => exact does_schedLock
  | schedUnlock => exact does_schedUnlock
  | semCreate n => exact does_semCreate n
  | semWait h ms => exact does_semWait hr h ms
  | semPost h => exact does_semPost hf h
  | semDelete h => exact does_deleteObject (by simp) h
  | mutexCreate => exact does_mutexCreate
  | mutexLock h ms => exact does_mutexLock hr h ms
  | mutexUnlock h => exact does_mutexUnlock h
  | mutexDelete h => exact does_mutexDelete h
  | eventCreate => exact does_eventCreate
  | eventWait h mask mode ms => exact does_eventWait hr h mask mode ms
  | eventSet h flags => exact does_eventSet hs h flags
  | eventClear h flags => exact does_eventClear h flags
  | eventDelete h => exact does_deleteObject (by simp) h
  | mqCreate n size st mem => exact does_mqCreate n size st mem
  | mqSend h message priority ms => exact does_mqSend hr hf h message priority ms
  | mqRecv h capacity ms => exact does_mqRecv hr hf h capacity ms
  | mqDelete h => exact does_deleteObject (by simp) h
  | pipeCreate size mem => exact does_pipeCreate size mem
  | pipeWrite h data ms => exact does_pipeWrite hr hf h data ms
  | pipeRead h length ms => exact does_pipeRead hr hf h length ms
  | pipeDelete h => exact does_deleteObject (by simp) h
  | notify t value action => exact does_notify t value action
  | notifyWait entry exit ms => exact does_notifyWait hr entry exit ms none
  | notifyTake clear ms => exact does_notifyWait hr 0 0 ms (some clear)
  | timerServiceWait => exact does_timerServiceWait hr

/-- **What is left of a call after a wait** does, too. -/
theorem resume_does (hs : Sound k.core) (hr : k.core.Runs) (self : TaskId) (f : Frame) :
    k.Does (f.pending.Performs k.core) (k.resume self f) := by
  have hf := hs.wf.isFiled
  obtain ⟨p, ms⟩ := f
  unfold resume
  dsimp only
  split
  · exact .refl
  · split
    · exact .refl
    · exact does_eventWaitLoop hr ..
  · split
    · exact .refl
    · split
      · exact .refl
      · rename_i i hi
        exact does_mqSendLoop hr hf hi ..
  · split
    · exact .refl
    · split
      · exact .refl
      · rename_i i hi
        exact does_mqRecvLoop hr hf hi ..
  · split
    · exact .refl
    · split
      · exact .refl
      · rename_i i hi
        exact does_pipeWriteLoop hr hf hi ..
  · split
    · exact .refl
    · split
      · exact .refl
      · rename_i i hi
        exact does_pipeReadLoop hr hf hi ..
  · split
    · exact .refl
    · exact .refl
  · exact .refl
  · exact .refl

end Kernel

end Aixos
