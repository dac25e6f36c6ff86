import Aixos.Core.Undisturbed
import Aixos.Library.RoundRobin
import Aixos.System.Membership

/-!
# Who runs, and for how long

`aixos_schedule` takes the first task of the highest priority. As long as the ready tasks and their priorities stay
the same, the tasks of that priority take turns as in `Library.RoundRobin`.

* `Chosen` — what `aixos_schedule` makes the current task.
* `TopQueue` — the tasks of the highest priority, in the order of their queue.
* `Settled` — the ready tasks stay the same, nobody changes the order of a queue, and a switch that has been requested
  is taken before the next tick.
* `Sys.turns_of_path` — whom the ticks of a settled run fall to.
-/

namespace Aixos

open Transition Aixos.Core Sched

variable [cfg : Config]

/-- A ready task of the highest priority, or none if no task is ready. -/
def Chosen (c : Core) : Option TaskId → Prop
  | none => ∀ t, ¬ (c.tasks t).isReady
  | some t => (c.tasks t).isReady ∧ ∀ u, (c.tasks u).isReady → c.priority u ≤ c.priority t

/-- The tasks of the highest priority, in the order of their queue. -/
def TopQueue (c : Core) (L : List TaskId) : Prop :=
  ∃ q p, c.sched.Holds q ∧ (∀ t a, t ∈ q a ↔ (c.tasks t).isReady ∧ c.priority t = a) ∧ q p = L ∧
    (∀ a, q a ≠ [] → a ≤ p) ∧ (L = [] → ∀ a, q a = [])

/-- The order in which they will run: the current task is in its turn, unless a switch is pending. -/
def turnOrder (c : Core) (L : List TaskId) : List TaskId :=
  if c.SwitchPending then L
  else match c.cur with
    | none => L
    | some t => t :: L.erase t

/-- The ticks after which the slice of a task ends: the tick handler counts down to zero. -/
def ticksLeft (c : Core) (t : TaskId) : ℕ := max 1 (c.tasks t).timeSlice

/-- `aixos_schedule` has made one of them the current task, or is to be called. -/
def InCharge (c : Core) (L : List TaskId) : Prop :=
  c.SwitchPending ∨ (∀ t, c.cur = some t → t ∈ L) ∧ (c.cur = none → L = [])

variable {c c' : Core} {L : List TaskId} {t u : TaskId}

namespace TopQueue

theorem mem_iff (h : TopQueue c L) : t ∈ L ↔ Chosen c (some t) := by
  obtain ⟨q, p, hq, hmem, rfl, hmax, hnil⟩ := h
  rw [hmem]
  constructor
  · rintro ⟨hr, rfl⟩
    refine ⟨hr, fun u hu => hmax _ (List.ne_nil_of_mem ((hmem u _).mpr ⟨hu, rfl⟩))⟩
  · rintro ⟨hr, hall⟩
    refine ⟨hr, Nat.le_antisymm (hmax _ (List.ne_nil_of_mem ((hmem t _).mpr ⟨hr, rfl⟩))) ?_⟩
    cases hL : q p with
    | nil => exact absurd ((hmem t _).mpr ⟨hr, rfl⟩) (by rw [hnil hL]; exact List.not_mem_nil)
    | cons u us =>
      obtain ⟨hu, hp⟩ := (hmem u p).mp (hL ▸ List.mem_cons_self ..)
      rw [← hp]
      exact hall u hu

theorem nodup (h : TopQueue c L) : L.Nodup := by
  obtain ⟨q, p, hq, -, rfl, -⟩ := h
  exact hq.nodup p

theorem isReady (h : TopQueue c L) (ht : t ∈ L) : (c.tasks t).isReady := (h.mem_iff.mp ht).1

theorem eq_nil (h : TopQueue c L) (hL : L = []) (t : TaskId) : ¬ (c.tasks t).isReady := by
  obtain ⟨q, p, -, hmem, rfl, -, hnil⟩ := h
  intro hr
  have := (hmem t _).mpr ⟨hr, rfl⟩
  rw [hnil hL] at this
  exact List.not_mem_nil this

/-- **The scan** finds the first of them. -/
theorem findHighest_eq (h : TopQueue c L) : c.sched.findHighest = L.head? := by
  obtain ⟨q, p, hq, -, rfl, hmax, hnil⟩ := h
  cases hf : c.sched.findHighest with
  | none => rw [hq.findHighest_eq_none hf, List.head?_nil]
  | some t =>
    obtain ⟨a, ha, hall⟩ := hq.findHighest_eq_some hf
    have hne : q a ≠ [] := by
      intro e
      rw [e] at ha
      cases ha
    have hp : q p ≠ [] := fun e => hne (hnil e a)
    rw [Nat.le_antisymm (hall p hp) (hmax a hne), ha]

/-- The ready structure, the ready tasks and their priorities are the same. -/
theorem congr (h : TopQueue c L) (hs : c'.sched = c.sched) (hk : ReadyKept c c') : TopQueue c' L := by
  obtain ⟨q, p, hq, hmem, hL, hmax, hnil⟩ := h
  refine ⟨q, p, hs ▸ hq, fun t a => ?_, hL, hmax, hnil⟩
  rw [hmem, (hk t).1]
  refine and_congr_right fun hr => ?_
  rw [(hk t).2 hr]

/-- The current task goes behind the others. -/
theorem rotate (h : TopQueue c L) (ht : t ∈ L) (hs : c'.sched = c.sched.rotate t (c.priority t)) (hk : ReadyKept c c') :
    TopQueue c' (L.erase t ++ [t]) := by
  obtain ⟨q, p, hq, hmem, rfl, hmax, hnil⟩ := h
  have hp : c.priority t = p := ((hmem t p).mp ht).2
  have hrot : Holds.rotated q t p p = (q p).erase t ++ [t] ∧ ∀ a ≠ p, Holds.rotated q t p a = q a := by
    unfold Holds.rotated
    split
    · rename_i hlen
      obtain ⟨u, hu⟩ := List.length_eq_one_iff.mp (Nat.le_antisymm hlen (List.length_pos_of_mem ht))
      rw [hu, List.mem_singleton] at ht
      refine ⟨?_, fun a _ => rfl⟩
      rw [hu, ht]
      simp
    · exact ⟨Function.update_self .., fun a ha => Function.update_of_ne ha ..⟩
  have hiff : ∀ u a, u ∈ Holds.rotated q t p a ↔ u ∈ q a := by
    intro u a
    by_cases ha : a = p
    · rw [ha, hrot.1]
      by_cases hu : u = t
      · simp [hu, ht]
      · simp [hu, List.mem_erase_of_ne hu]
    · rw [hrot.2 a ha]
  refine ⟨Holds.rotated q t p, p, ?_, fun u a => ?_, hrot.1, fun a ha => ?_, fun e => ?_⟩
  · rw [hs, hp]
    exact hq.rotate ht
  · rw [hiff, hmem, (hk u).1]
    refine and_congr_right fun hr => ?_
    rw [(hk u).2 hr]
  · refine hmax a fun e => ha ?_
    rw [List.eq_nil_iff_forall_not_mem]
    intro u hu
    rw [hiff, e] at hu
    exact List.not_mem_nil hu
  · simp at e

end TopQueue

/-- Once the scheduler runs, there is such a queue. -/
theorem exists_topQueue {q : ℕ → List TaskId} (hq : c.sched.Holds q)
    (hmem : ∀ t a, t ∈ q a ↔ (c.tasks t).isReady ∧ c.priority t = a) : ∃ L, TopQueue c L := by
  cases hf : c.sched.findHighest with
  | none =>
    have hnil := hq.findHighest_eq_none hf
    exact ⟨[], q, 0, hq, hmem, hnil 0, fun a ha => absurd (hnil a) ha, fun _ => hnil⟩
  | some t =>
    obtain ⟨p, hp, hall⟩ := hq.findHighest_eq_some hf
    refine ⟨q p, q, p, hq, hmem, rfl, hall, fun e => ?_⟩
    rw [e] at hp
    cases hp

/-- **`aixos_schedule`** makes a ready task of the highest priority the current one. -/
theorem schedule_chosen (h : TopQueue c L) : c.schedule.cur = L.head? ∧ Chosen c c.schedule.cur := by
  have hcur : c.schedule.cur = L.head? := by
    rw [← h.findHighest_eq]
    unfold schedule
    split
    · rename_i hf
      exact hf.symm
    · rename_i t hf
      exact hf.symm
  refine ⟨hcur, ?_⟩
  rw [hcur]
  cases L with
  | nil => exact h.eq_nil rfl
  | cons t ts => exact h.mem_iff.mp (List.mem_cons_self ..)

/-! ### Settled steps -/

/-- The calls that are about the order of a queue. -/
def Call.Reorders : Call → Prop
  | .taskYield | .taskSetPriority .. => True
  | .taskSleep ms => ms = 0
  | _ => False

/-- A step of a task on one task. -/
theorem single_undisturbed (h : Sound c) (hr : c.running = true) (hcur : CurReady c) {o : Op} (ho : o.Single)
    (he : c.Enabled o) (hp : ∀ t p, o ≠ .setPriority t p) (hk : ReadyKept c (c.exec o)) : Undisturbed c (c.exec o) := by
  cases o with
  | suspend t => exact suspendTask_undisturbed h.unqueued he.1 hcur hk
  | create a => exact taskCreateCommon_undisturbed h hr a hk
  | delete t => exact deleteTask_undisturbed h.unqueued he.1 hcur hk
  | release m t =>
    have hlt : t < c.nextTask := h.wf.fresh t (Tcb.isReady_live (hcur t he.1))
    exact mutexRelease_undisturbed h hlt m hk
  | setPriority t p => exact absurd rfl (hp t p)
  | _ => exact absurd ho (by simp [Op.Single])

/-- A critical section that neither yields nor sets a priority. -/
theorem Effect.undisturbed {A : Core → Op → Prop} {r : Outcome} (he : Effect A c c' r) (h : Sound c)
    (hr : c.running = true) (hcur : CurReady c) (hA : ∀ c o, A c o → o.Calm → o.Still)
    (hp : ∀ c t p, ¬ A c (.setPriority t p)) (hk : ReadyKept c c') : Undisturbed c c' := by
  cases he with
  | calm hpath =>
    have hstill := still_path (hpath.mono fun c o ho => hA c o ho.2 ho.1)
    exact hstill.2 fun t => (hk t).1.mp
  | block _ hb => exact absurd hk (not_readyKept_of_block h hb)
  | single ho hs he =>
    refine single_undisturbed h hr hcur hs he ?_ hk
    rintro t p rfl
    exact hp _ _ _ ho

/-- Only a yield rotates a queue, only deleting a mutex takes it from its owner. -/
theorem Call.still_of_performs {k : Core} {x : Call} {o : Op} (hA : x.Performs k c o) (ho : o.Calm)
    (hy : x ≠ .taskYield) (hs : ∀ ms, x ≠ .taskSleep ms) (hd : ∀ h, x ≠ .mutexDelete h) : o.Still := by
  cases o with
  | yield => cases x <;> simp [Call.Performs, BlocksOn, WakesFrom, Names, SemPosts, EventWaits, MqSends, MqRecvs,
      PipeWrites, PipeReads, Notifies, MutexLocks, MutexUnlocks] at hA hy hs
  | destroy m => cases x <;> simp [Call.Performs, BlocksOn, WakesFrom, Names, SemPosts, EventWaits, MqSends, MqRecvs,
      PipeWrites, PipeReads, Notifies, MutexLocks, MutexUnlocks] at hA hd
  | _ => trivial

theorem Call.not_performs_setPriority {k : Core} {x : Call} {p : ℕ} (hx : ∀ t p, x ≠ .taskSetPriority t p) :
    ¬ x.Performs k c (.setPriority t p) := by
  intro hA
  cases x <;> simp [Call.Performs, BlocksOn, WakesFrom, Names, SemPosts, EventWaits, MqSends, MqRecvs,
    PipeWrites, PipeReads, Notifies, MutexLocks, MutexUnlocks] at hA hx

theorem Pending.still_of_performs {k : Core} {x : Pending} {o : Op} (hA : x.Performs k c o) :
    (o.Calm → o.Still) ∧ ∀ t p, o ≠ .setPriority t p := by
  cases o with
  | yield | destroy | setPriority =>
    cases x <;> simp [Pending.Performs, BlocksOn, WakesFrom, Names, EventWaits, MqSends, MqRecvs, PipeWrites,
      PipeReads] at hA
  | _ => exact ⟨fun ho => by trivial, by simp⟩

namespace Kernel

variable {k : Kernel}

theorem mutexDelete_core (k : Kernel) (h : Handle) :
    (k.mutexDelete h).1.core = k.core ∨ ∃ m, (k.mutexDelete h).1.core = k.core.mutexDestroy m := by
  unfold mutexDelete
  split
  · exact .inl rfl
  · split
    · exact .inl rfl
    · split
      · exact .inl rfl
      · exact .inr ⟨_, rfl⟩

/-- A call after which the ready tasks and their priorities are the same. -/
theorem call_undisturbed (h : Sound k.core) (hr : k.core.running = true) (hrun : k.core.Runs) (hcur : CurReady k.core)
    {x : Call} (hx : ¬ x.Reorders) (hk : ReadyKept k.core (k.call x).1.core) : Undisturbed k.core (k.call x).1.core := by
  by_cases hs : ∃ ms, x = .taskSleep ms
  · obtain ⟨ms, rfl⟩ := hs
    have he : k.Does (fun c o => c.BlocksOn .delay o) (k.call (.taskSleep ms)) := by
      show k.Does _ (k.taskSleep ms)
      unfold taskSleep
      rw [if_neg (show ¬ ms = 0 from hx)]
      split
      · exact .refl
      · exact does_block rfl hrun (fun t ht => ⟨t, ms, ht, rfl⟩) nofun nofun
    refine Effect.undisturbed he h hr hcur ?_ ?_ hk
    · rintro c o ⟨t, ms, -, rfl⟩ ho
      exact absurd ho (by simp [Op.Calm])
    · rintro c t p ⟨t', ms, -, e⟩
      cases e
  by_cases hd : ∃ m, x = .mutexDelete m
  · obtain ⟨m, rfl⟩ := hd
    rw [show k.call (.mutexDelete m) = k.mutexDelete m from rfl] at hk ⊢
    rcases k.mutexDelete_core m with e | ⟨i, e⟩
    · rw [e]
      exact .refl _
    · rw [e] at hk ⊢
      exact mutexDestroy_undisturbed h i hk
  · refine Effect.undisturbed (call_does h hrun x) h hr hcur (fun c o hA ho => ?_) (fun c t p => ?_) hk
    · refine Call.still_of_performs hA ho ?_ (fun ms e => hs ⟨ms, e⟩) (fun m e => hd ⟨m, e⟩)
      rintro rfl
      exact hx trivial
    · refine Call.not_performs_setPriority ?_
      rintro t p rfl
      exact hx trivial

theorem resume_undisturbed (h : Sound k.core) (hr : k.core.running = true) (hrun : k.core.Runs) (hcur : CurReady k.core)
    {f : Frame} (hk : ReadyKept k.core (k.resume t f).1.core) : Undisturbed k.core (k.resume t f).1.core :=
  Effect.undisturbed (resume_does h hrun t f) h hr hcur (fun _ _ hA => (Pending.still_of_performs hA).1)
    (fun _ t p hA => (Pending.still_of_performs hA).2 t p rfl) hk

end Kernel

/-! ### The tick -/

/-- What the tick has done before it looks at the slice. -/
def Core.ticked (c : Core) (pending : Bool) : Core :=
  (c.countTick.taskTick c.countTick.getTick).timerServiceWake pending

/-- The timeouts that the tick has ended. -/
theorem ticked_undisturbed (h : Sound c) {pending : Bool} (hk : ReadyKept c (c.ticked pending)) :
    Undisturbed c.countTick (c.ticked pending) := by
  have h₁ := h.countTick
  obtain ⟨ops₁, hp₁⟩ := taskTickLoop_path h₁ c.countTick.getTick c.countTick.timeoutList _ fun _ => rfl
  obtain ⟨ops₂, hp₂⟩ := timerServiceWake_path (path_mild h₁ hp₁) pending
  have hs₁ : Path Step (fun _ o => o.Still) _ ops₁ _ := hp₁.mono fun d o ⟨_, t, _, e⟩ => by
    rw [e]
    trivial
  have hs₂ : Path Step (fun _ o => o.Still) _ ops₂ _ := hp₂.mono fun d o ⟨_, t, _, e⟩ => by
    rw [e]
    trivial
  refine (still_path (hs₁.append hs₂)).2 fun t ht => ?_
  exact ((countTick_kept c).1 t).1.mpr ((hk t).1.mp ht)

/-! ### Taking turns -/

/-- The tasks of the highest priority take turns as `R` says. -/
structure InTurn (c : Core) (R : RoundRobin TaskId) : Prop where
  queue : ∃ L, TopQueue c L ∧ InCharge c L ∧ R.order = turnOrder c L
  left : ∀ t ∈ R.order, R.left t = ticksLeft c t

variable {R : RoundRobin TaskId}

omit cfg in
theorem mem_turnOrder (h : InCharge c L) : t ∈ turnOrder c L ↔ t ∈ L := by
  unfold turnOrder
  split
  · rfl
  · rename_i hp
    obtain ⟨h₁, -⟩ := h.resolve_left hp
    split
    · rfl
    · rename_i u hu
      by_cases htu : t = u
      · simp [htu, h₁ u hu]
      · simp [htu]

theorem InTurn.isReady (h : InTurn c R) (ht : t ∈ R.order) : (c.tasks t).isReady := by
  obtain ⟨L, hL, hc, ho⟩ := h.queue
  rw [ho, mem_turnOrder hc] at ht
  exact hL.isReady ht

/-- **Nothing is noticed**: everyone's turn is as before. -/
theorem InTurn.undisturbed (h : InTurn c R) (hs : Sound c) (hu : Undisturbed c c') (hk : ReadyKept c c') :
    InTurn c' R := by
  obtain ⟨L, hL, hc, ho⟩ := h.queue
  have hready := fun t (ht : t ∈ R.order) => h.isReady ht
  obtain ⟨hsched, hcur, hpend, -, hslice⟩ := hu
  have hord : turnOrder c' L = turnOrder c L := by
    unfold turnOrder
    simp only [hpend, hcur]
  refine ⟨⟨L, hL.congr hsched hk, ?_, ho.trans hord.symm⟩, fun t ht => ?_⟩
  · unfold InCharge
    rwa [hpend, hcur]
  · rw [h.left t ht]
    unfold ticksLeft
    rw [hslice t (hs.wf.fresh t (Tcb.isReady_live (hready t ht)))]

/-- **The switch**: the first in the order runs. -/
theorem InTurn.contextSwitch (h : InTurn c R) (hp : c.SwitchPending) (hk : ReadyKept c c.contextSwitch) :
    InTurn c.contextSwitch R := by
  obtain ⟨L, hL, hc, ho⟩ := h.queue
  have hL₀ : TopQueue { c with switchRequested := false } L :=
    hL.congr rfl fun _ => ⟨Iff.rfl, fun _ => rfl⟩
  obtain ⟨hcur, -⟩ := schedule_chosen hL₀
  have hsched : c.contextSwitch.sched = c.sched := schedule_sched _
  have hslice : ∀ t, (c.contextSwitch.tasks t).timeSlice = (c.tasks t).timeSlice := schedule_slice _
  rw [turnOrder, if_pos hp] at ho
  have hord : turnOrder c.contextSwitch L = L := by
    unfold turnOrder
    split
    · rfl
    · rw [show c.contextSwitch.cur = L.head? from hcur]
      cases L with
      | nil => rfl
      | cons t ts => simp
  refine ⟨⟨L, hL.congr hsched hk, .inr ⟨fun t ht => ?_, fun e => ?_⟩, ho.trans hord.symm⟩, fun t ht => ?_⟩
  · exact List.mem_of_mem_head? (hcur.symm.trans ht)
  · exact List.head?_eq_none_iff.mp (hcur.symm.trans e)
  · rw [h.left t ht]
    unfold ticksLeft
    rw [hslice]

/-- **The tick** falls to the current task, whose turn it is. -/
theorem InTurn.tickHandler (h : InTurn c R) (hs : Sound c) (hp : ¬ c.SwitchPending) {pending : Bool}
    (hk : ReadyKept c (c.tickHandler pending)) :
    c.cur = R.order.head? ∧ InTurn (c.tickHandler pending) (R.tick cfg.timeSliceTicks) := by
  obtain ⟨L, hL, hc, ho⟩ := h.queue
  obtain ⟨hmem, hnil⟩ := hc.resolve_left hp
  have he : c.tickHandler pending = (c.ticked pending).sliceExpire := rfl
  have hkd : ReadyKept c (c.ticked pending) := by
    intro t
    have h₁ := sliceExpire_kept (c.ticked pending) t
    have h₂ := hk t
    rw [he] at h₂
    refine ⟨h₁.1.symm.trans h₂.1, fun hr => ?_⟩
    rw [← h₂.2 hr, h₁.2 (h₁.1.mp (h₂.1.mpr hr))]
  obtain ⟨-, hsched₁, hcur₁, hpend₁, hnext₁⟩ := countTick_kept c
  obtain ⟨hsched, hcur, hpend, -, hslice⟩ := ticked_undisturbed hs hkd
  rw [hsched₁] at hsched
  rw [hcur₁] at hcur
  rw [hpend₁] at hpend
  rw [hnext₁] at hslice
  set d := c.ticked pending with hd
  rw [turnOrder, if_neg hp] at ho
  rw [he]
  cases hcc : c.cur with
  | none =>
    rw [hcc] at ho
    have hLnil := hnil hcc
    dsimp only at ho
    rw [hLnil] at ho
    refine ⟨by rw [ho]; rfl, ?_⟩
    have htick : R.tick cfg.timeSliceTicks = R := by simp [RoundRobin.tick, ho]
    rw [htick, sliceExpire_of_none (hcur.trans hcc)]
    have hpd : ¬ d.SwitchPending := fun h => hp (hpend.mp h)
    refine ⟨⟨[], hLnil ▸ hL.congr hsched hkd, .inr ⟨fun t ht => ?_, fun _ => rfl⟩, ?_⟩, fun t ht => ?_⟩
    · rw [hcur, hcc] at ht
      cases ht
    · rw [ho, turnOrder, if_neg hpd, hcur, hcc]
    · rw [ho] at ht
      cases ht
  | some t =>
    rw [hcc] at ho
    dsimp only at ho
    have ht := hmem t hcc
    have hlt : ∀ u ∈ L, u < c.nextTask := fun u hu => hs.wf.fresh u (Tcb.isReady_live (hL.isReady hu))
    have hself : (d.tasks t).timeSlice = (c.tasks t).timeSlice - 1 := by
      rw [hslice t (hlt t ht), countTick_slice_self hcc]
    have hother : ∀ u ∈ L, u ≠ t → (d.tasks u).timeSlice = (c.tasks u).timeSlice := by
      intro u hu hut
      rw [hslice u (hlt u hu), countTick_slice_other]
      rw [hcc]
      exact fun e => hut (Option.some.inj e).symm
    have hleft := h.left t (ho ▸ List.mem_cons_self ..)
    have hmemL : ∀ u ∈ L.erase t, u ∈ L ∧ u ≠ t := fun u hu =>
      ⟨List.mem_of_mem_erase hu, fun e => (hL.nodup.not_mem_erase) (e ▸ hu)⟩
    have hcurd : d.cur = some t := hcur.trans hcc
    refine ⟨by rw [ho]; rfl, ?_⟩
    by_cases hz : (d.tasks t).timeSlice = 0
    · have hl1 : R.left t ≤ 1 := by
        rw [hleft, ticksLeft]
        omega
      have htick : R.tick cfg.timeSliceTicks =
          { order := L.erase t ++ [t], left := Function.update R.left t cfg.timeSliceTicks } := by
        simp [RoundRobin.tick, ho, hl1]
      obtain ⟨hs', hp', hc', ht'⟩ := sliceExpire_of_eq hcurd hz
      rw [htick]
      have hpt : d.priority t = c.priority t := (hkd t).2 (hL.isReady ht)
      rw [hsched, hpt] at hs'
      refine ⟨⟨L.erase t ++ [t], hL.rotate ht hs' hk, .inl hp', ?_⟩, fun u hu => ?_⟩
      · rw [turnOrder, if_pos hp']
      · dsimp only at hu ⊢
        unfold ticksLeft
        rw [ht']
        rcases List.mem_append.mp hu with hu | hu
        · obtain ⟨huL, hut⟩ := hmemL u hu
          rw [Function.update_of_ne hut, setTask_ne _ _ _ hut, hother u huL hut,
            h.left u (ho ▸ List.mem_cons_of_mem _ hu)]
          rfl
        · rw [List.mem_singleton] at hu
          rw [hu, Function.update_self, setTask_self]
          have := cfg.timeSliceTicks_pos
          dsimp only
          omega
    · have hl1 : ¬ R.left t ≤ 1 := by
        rw [hleft, ticksLeft]
        omega
      have htick : R.tick cfg.timeSliceTicks = { R with left := Function.update R.left t (R.left t - 1) } := by
        simp [RoundRobin.tick, ho, hl1]
      have hpd : ¬ d.SwitchPending := fun h => hp (hpend.mp h)
      rw [htick, sliceExpire_of_ne hcurd hz]
      refine ⟨⟨L, hL.congr hsched hkd, .inr ⟨fun u hu => ?_, fun e => ?_⟩, ?_⟩, fun u hu => ?_⟩
      · rw [hcurd] at hu
        cases hu
        exact ht
      · rw [hcurd] at e
        cases e
      · rw [turnOrder, if_neg hpd, hcurd]
        exact ho
      · dsimp only at hu ⊢
        rw [ho] at hu
        rcases List.mem_cons.mp hu with rfl | hu
        · rw [Function.update_self, hleft, ticksLeft, ticksLeft, hself]
          omega
        · obtain ⟨huL, hut⟩ := hmemL u hu
          rw [Function.update_of_ne hut, h.left u (ho ▸ List.mem_cons_of_mem _ hu), ticksLeft, ticksLeft,
            hother u huL hut]

namespace Sys

variable {s s' : Sys} {a : Act} {as : List Act}

/-- Whom a tick falls to. -/
def charges (s : Sys) : Act → List (Option TaskId)
  | .isr (.tick _) => [s.core.cur]
  | _ => []

/-- A settled step: the ready tasks and their priorities stay the same, no task asks for another order, and the tick
does not arrive before the switch that has been requested. -/
structure Settled (s : Sys) (a : Act) : Prop where
  kept : ∀ s', s.step a = some s' → ReadyKept s.core s'.core
  order : ∀ x, a = .call x → ¬ x.Reorders
  switched : ∀ pending, a = .isr (.tick pending) → ¬ s.core.SwitchPending

omit cfg in
theorem curReady_of_runningTask (h : s.runningTask = some t) : CurReady s.core := by
  obtain ⟨hcur, -, -, hst⟩ := runningTask_eq_some h
  intro u hu
  rw [hcur] at hu
  cases hu
  exact .inr hst

/-- Interrupts make tasks ready, or are not noticed. -/
theorem isrCall_undisturbed {k : Kernel} (h : Sound k.core) (hi : k.core.isrNesting ≠ 0) {x : IsrCall}
    (hx : ∀ pending, x ≠ .tick pending) (hk : ReadyKept k.core (k.isrCall x).core) :
    Undisturbed k.core (k.isrCall x).core := by
  obtain ⟨ops, hp⟩ := Kernel.isrCall_path h hi x
  have hs : Path Step (fun _ o => o.Still) _ ops _ := hp.mono fun d o ho => by
    obtain ⟨ho, hA⟩ := ho
    cases x with
    | tick pending => exact absurd rfl (hx pending)
    | semPost hd =>
      obtain ⟨i, -, t, -, rfl⟩ := hA
      trivial
    | mqSend hd message =>
      obtain ⟨i, -, ⟨t, ms, -, rfl⟩ | ⟨t, -, rfl⟩⟩ := hA
      · exact absurd ho (by simp [Op.Mild, Op.Calm, Op.Timely])
      · trivial
    | pipeWrite hd data =>
      obtain ⟨i, -, ⟨t, ms, -, rfl⟩ | ⟨t, -, rfl⟩⟩ := hA
      · exact absurd ho (by simp [Op.Mild, Op.Calm, Op.Timely])
      · trivial
    | notify t value action =>
      obtain ⟨-, rfl⟩ := hA
      trivial
  exact (still_path hs).2 fun t => (hk t).1.mp

omit cfg in
theorem isrExit_undisturbed (c : Core) : Undisturbed c c.isrExit := by
  unfold isrExit
  split
  · exact .refl c
  · dsimp only
    split
    · rename_i hp
      exact .of_eq rfl rfl (iff_of_true (.inl rfl) (.inr hp.2.2)) rfl fun _ => rfl
    · exact .of_eq rfl rfl Iff.rfl rfl fun _ => rfl

/-- **A settled step** gives the tick to the one whose turn it is, and leaves the turns as they are or passes on the
turn. -/
theorem inTurn_step (hs : Sound s.core) (hr : s.core.running = true) (h : InTurn s.core R) (hc : Settled s a)
    (hstep : s.step a = some s') :
    ∃ R', run (RoundRobin.next cfg.timeSliceTicks) R (s.charges a) = some R' ∧ InTurn s'.core R' := by
  have hk := hc.kept s' hstep
  have same : s.charges a = [] → Undisturbed s.core s'.core →
      ∃ R', run (RoundRobin.next cfg.timeSliceTicks) R (s.charges a) = some R' ∧ InTurn s'.core R' := by
    intro e hu
    rw [e]
    exact ⟨R, rfl, h.undisturbed hs hu hk⟩
  cases a with
  | call x =>
    rcases step_call hstep with ⟨t, ht, -, rfl⟩ | ⟨hr', -⟩
    · rw [finish_core] at hk
      refine same rfl ?_
      rw [finish_core]
      exact Kernel.call_undisturbed hs hr (runs_of_runningTask ht) (curReady_of_runningTask ht) (hc.order x rfl) hk
    · rw [hr] at hr'
      cases hr'
  | start memory =>
    rw [(step_start hstep).1] at hr
    cases hr
  | resume =>
    obtain ⟨t, f, ht, -, rfl⟩ := step_resume hstep
    rw [finish_core] at hk
    refine same rfl ?_
    rw [finish_core]
    exact Kernel.resume_undisturbed hs hr (runs_of_runningTask ht) (curReady_of_runningTask ht) hk
  | switch =>
    simp only [step] at hstep
    split at hstep
    · rename_i hsw
      cases hstep
      exact ⟨R, rfl, h.contextSwitch (.inl hsw.2.2) hk⟩
    · cases hstep
  | isrEnter =>
    rw [step, if_pos hr] at hstep
    cases hstep
    exact same rfl (.of_eq rfl rfl Iff.rfl rfl fun _ => rfl)
  | isrExit =>
    simp only [step] at hstep
    split at hstep
    · cases hstep
      exact same rfl (isrExit_undisturbed _)
    · cases hstep
  | isr x =>
    simp only [step] at hstep
    split at hstep
    · rename_i hi
      cases hstep
      by_cases hx : ∃ pending, x = .tick pending
      · obtain ⟨pending, rfl⟩ := hx
        obtain ⟨e, hR⟩ := h.tickHandler hs (hc.switched pending rfl) hk
        refine ⟨_, ?_, hR⟩
        rw [charges, run, RoundRobin.next, if_pos e]
        rfl
      · have hx : ∀ pending, x ≠ .tick pending := fun pending e => hx ⟨pending, e⟩
        refine same ?_ (isrCall_undisturbed hs hi hx hk)
        cases x with
        | tick pending => exact absurd rfl (hx pending)
        | _ => rfl
    · cases hstep

theorem startsClean_of_step (hr : s.core.running = true) (hstep : s.step a = some s') : StartsClean s a := by
  rintro memory rfl
  rw [(step_start hstep).1] at hr
  cases hr

theorem inTurn_path (hs : Sound s.core) (hr : s.core.running = true) (h : InTurn s.core R)
    (hp : Path (Next step) Settled s as s') :
    ∃ R', run (RoundRobin.next cfg.timeSliceTicks) R (trace step charges s as) = some R' ∧ InTurn s'.core R' := by
  obtain ⟨R', h₁, -, -, h₂⟩ := hp.simulates
    (R := fun s R => Sound s.core ∧ s.core.running = true ∧ InTurn s.core R)
    (fun s a s' R ⟨hs, hr, h⟩ hc hstep => by
      have hclean := startsClean_of_step hr hstep
      obtain ⟨R', h₁, h₂⟩ := inTurn_step hs hr h hc hstep
      exact ⟨R', h₁, sound_step hs hclean hstep, running_step hs hr hstep, h₂⟩)
    ⟨hs, hr, h⟩
  exact ⟨R', h₁, h₂⟩

/-- **Taking turns.** In every state after a clean start, `aixos_schedule` makes a ready task of the highest priority
the current one. From then on the ticks of a settled run fall to the tasks of that priority in the order of their queue:
first what is left of the slice of each, then, over and over, a whole slice for each. -/
theorem turns_of_path {s₀ : Sys} (h₀ : Path (Next step) StartsClean init as s₀) (hr : s₀.core.running = true) :
    (∃ L, TopQueue s₀.core L ∧ s₀.core.schedule.cur = L.head? ∧ Chosen s₀.core s₀.core.schedule.cur) ∧
    ∀ L T, TopQueue s₀.core L → InCharge s₀.core L → T = turnOrder s₀.core L →
      (∀ t, t ∈ T ↔ Chosen s₀.core (some t)) ∧ T.Nodup ∧ (1 < T.length → ∀ i, T[i % T.length]? ≠ T[(i + 1) % T.length]?) ∧
      ∀ bs s n, Path (Next step) Settled s₀ bs s → (trace step charges s₀ bs).length = n →
        trace step charges s₀ bs = ((T.flatMap fun t => List.replicate (ticksLeft s₀.core t) (some t)) ++
          (List.range n).map fun j => T[j / cfg.timeSliceTicks % T.length]?).take n := by
  have hs := sound_path h₀ sound_init
  obtain ⟨q, hq, hmem⟩ := hs.readyQueues hr
  constructor
  · obtain ⟨L, hL⟩ := exists_topQueue hq hmem
    exact ⟨L, hL, schedule_chosen hL⟩
  · rintro L T hL hc rfl
    have hnodup : (turnOrder s₀.core L).Nodup := by
      unfold turnOrder
      split
      · exact hL.nodup
      · split
        · exact hL.nodup
        · exact List.nodup_cons.mpr ⟨hL.nodup.not_mem_erase, hL.nodup.erase _⟩
    refine ⟨fun t => (mem_turnOrder hc).trans hL.mem_iff, hnodup, fun h => RoundRobin.turn_ne hnodup h, ?_⟩
    rintro bs s n hp rfl
    have hR : InTurn s₀.core { order := turnOrder s₀.core L, left := ticksLeft s₀.core } :=
      ⟨⟨L, hL, hc, rfl⟩, fun _ _ => rfl⟩
    obtain ⟨R', hrun, -⟩ := inTurn_path hs hr hR hp
    have hserved := RoundRobin.eq_served_of_run hrun
    rw [RoundRobin.served_eq cfg.timeSliceTicks_pos hnodup fun t _ => Nat.lt_of_lt_of_le Nat.one_pos (Nat.le_max_left ..)]
      at hserved
    exact hserved

/-! ### Testing a run -/

/-- A step keeps the ready tasks and their priorities, among those that have been created. -/
def keepsReady (s : Sys) (a : Act) : Bool :=
  match s.step a with
  | none => true
  | some s' => decide (∀ t < max s.core.nextTask s'.core.nextTask,
      ((s'.core.tasks t).isReady ↔ (s.core.tasks t).isReady) ∧
        ((s.core.tasks t).isReady → s'.core.priority t = s.core.priority t))

theorem readyKept_of_keepsReady (hs : Sound s.core) (hr : s.core.running = true) (h : s.keepsReady a = true)
    (hstep : s.step a = some s') : ReadyKept s.core s'.core := by
  have hs' := sound_step hs (startsClean_of_step hr hstep) hstep
  unfold keepsReady at h
  rw [hstep] at h
  have h := of_decide_eq_true h
  intro t
  by_cases ht : t < max s.core.nextTask s'.core.nextTask
  · exact h t ht
  · have h₁ : ¬ (s.core.tasks t).isReady := fun hr => ht (lt_max_of_lt_left (hs.wf.fresh t (Tcb.isReady_live hr)))
    have h₂ : ¬ (s'.core.tasks t).isReady := fun hr => ht (lt_max_of_lt_right (hs'.wf.fresh t (Tcb.isReady_live hr)))
    exact ⟨iff_of_false h₂ h₁, fun hr => absurd hr h₁⟩

/-- A run that keeps them at every step. -/
theorem path_of_keepsReady {D : Sys → Act → Prop} (hs : Sound s.core) (hr : s.core.running = true)
    (hp : Path (Next step) (fun s a => s.keepsReady a = true ∧ D s a) s as s') :
    Path (Next step) (fun s a => (∀ s', s.step a = some s' → ReadyKept s.core s'.core) ∧ D s a) s as s' := by
  have hi := hp.withInvariant (I := fun s => Sound s.core ∧ s.core.running = true) (fun s a s' ⟨hs, hr⟩ _ hstep =>
    ⟨sound_step hs (startsClean_of_step hr hstep) hstep, running_step hs hr hstep⟩) ⟨hs, hr⟩
  exact hi.mono fun s a ⟨⟨hs, hr⟩, hk, hD⟩ => ⟨fun s' hstep => readyKept_of_keepsReady hs hr hk hstep, hD⟩

theorem chosen_of_lt {c : Core} (hs : Sound c) {t : TaskId} (ht : (c.tasks t).isReady)
    (h : ∀ u < c.nextTask, (c.tasks u).isReady → c.priority u ≤ c.priority t) : Chosen c (some t) :=
  ⟨ht, fun u hu => h u (hs.wf.fresh u (Tcb.isReady_live hu)) hu⟩

end Sys

end Aixos

namespace Aixos.Sys

open Transition Aixos.Core

attribute [local instance] Config.default

/-- Three tasks have the same priority, and the first of them runs. -/
def threeEquals : List Act := boot [{ stackSize := 512, priority := 5 }, { stackSize := 512, priority := 5 },
    { stackSize := 512, priority := 5 }] true ++ [.call .timerServiceWait, .switch]

/-- Some ticks in one interrupt, and the switch. -/
def tickAndSwitch (n : ℕ) : List Act :=
  .isrEnter :: List.replicate n (.isr (.tick false)) ++ [.isrExit, .switch]

/-- No task makes a call, and ticks arrive when no switch is pending. -/
def onlyTicks (s : Sys) : Act → Bool
  | .call _ => false
  | .isr (.tick _) => decide (¬ s.core.SwitchPending)
  | _ => true

theorem threeEquals_turns : ∃ s₀ bs s L, run step init threeEquals = some s₀ ∧ TopQueue s₀.core L ∧
    InCharge s₀.core L ∧ Path (Next step) Settled s₀ bs s ∧
    trace step charges s₀ bs = [some 0, some 1, some 2, some 0] ∧
    trace step charges s₀ bs =
      (((turnOrder s₀.core L).flatMap fun t => List.replicate (ticksLeft s₀.core t) (some t)) ++
        (List.range 4).map fun j => (turnOrder s₀.core L)[j / 1 % (turnOrder s₀.core L).length]?).take 4 := by
  obtain ⟨s₀, h₀, hp⟩ := exists_run step init threeEquals (fun s => decide (s.core.cur = some 0 ∧
    (s.core.tasks 0).isReady ∧ (∀ u < s.core.nextTask, (s.core.tasks u).isReady → s.core.priority u ≤ s.core.priority 0) ∧
    trace step charges s (List.replicate 4 (tickAndSwitch 1)).flatten = [some 0, some 1, some 2, some 0] ∧
    (runIf step (fun s a => s.keepsReady a = true ∧ s.onlyTicks a = true) s
      (List.replicate 4 (tickAndSwitch 1)).flatten).isSome)) (by decide +kernel)
  obtain ⟨hcur, hready, hall, htrace, hrun⟩ := of_decide_eq_true hp
  obtain ⟨s, hs⟩ := Option.isSome_iff_exists.mp hrun
  obtain ⟨hpath, hr⟩ := path_of_boot h₀
  have hsound := sound_path hpath sound_init
  obtain ⟨L, hL, -⟩ := (turns_of_path hpath hr).1
  have hc : InCharge s₀.core L := by
    refine .inr ⟨fun t ht => ?_, fun e => ?_⟩
    · rw [hcur] at ht
      cases ht
      exact hL.mem_iff.mpr (chosen_of_lt hsound hready hall)
    · rw [hcur] at e
      cases e
  have hsettled : Path (Next step) Settled s₀ _ s :=
    (path_of_keepsReady hsound hr (path_of_runIf hs)).mono fun s a ⟨hk, ho⟩ => by
      refine ⟨hk, ?_, ?_⟩
      · rintro x rfl
        cases ho
      · rintro pending rfl
        exact of_decide_eq_true ho
  refine ⟨s₀, _, s, L, h₀, hL, hc, hsettled, htrace, ?_⟩
  exact ((turns_of_path hpath hr).2 L _ hL hc rfl).2.2.2 _ s 4 hsettled (by rw [htrace]; rfl)

/-- The ready tasks and their priorities stay the same, nobody yields, and the scheduler is not locked. -/
structure Unchanged (s : Sys) (a : Act) : Prop where
  kept : ∀ s', s.step a = some s' → ReadyKept s.core s'.core
  yields : a ≠ .call .taskYield ∧ a ≠ .call (.taskSleep 0)
  unlocked : s.core.schedLock = 0

/-- What can be tested of that. -/
def unchanged (s : Sys) : Act → Bool
  | .call .taskYield | .call (.taskSleep _) => false
  | _ => decide (s.core.schedLock = 0)

theorem path_unchanged {s₀ s : Sys} {as bs : List Act} (h₀ : Path (Next step) StartsClean init as s₀)
    (hr : s₀.core.running = true)
    (h : runIf step (fun s a => s.keepsReady a = true ∧ s.unchanged a = true) s₀ bs = some s) :
    Path (Next step) Unchanged s₀ bs s :=
  (path_of_keepsReady (sound_path h₀ sound_init) hr (path_of_runIf h)).mono fun s a ⟨hk, hu⟩ => by
    refine ⟨hk, ⟨?_, ?_⟩, ?_⟩
    · rintro rfl
      cases hu
    · rintro rfl
      cases hu
    · unfold unchanged at hu
      split at hu
      · cases hu
      · cases hu
      · exact of_decide_eq_true hu

/-- The task of priority 5 has a mutex that one of priority 7 waits for, and suspends that task. -/
def suspendsWaiter : List Act := boot [{ stackSize := 512, priority := 5 }, { stackSize := 512, priority := 7 },
    { stackSize := 512, priority := 6 }] true ++
  ([.call .timerServiceWait, .switch, .call .mutexCreate, .call (.taskSleep 1), .switch, .call (.taskSleep 5), .switch,
    .call (.mutexLock ⟨0, 1⟩ forever)] ++ tickAndSwitch 1 ++ [.resume, .call (.mutexLock ⟨0, 1⟩ forever), .switch] ++
    tickAndSwitch 4 ++ [.call (.taskSuspend 1)])

/-- Before each tick, the priority of task 1 is set to what it is. -/
def setsPriority : List Act :=
  (List.replicate 4 (Act.call (.taskSetPriority 1 5) :: tickAndSwitch 1)).flatten

/-- A run in which nothing changes, whose ticks fall to `ts`. -/
def FallsTo (s₀ : Sys) (bs : List Act) (ts : List (Option TaskId)) : Prop :=
  ∃ s, Path (Next step) Unchanged s₀ bs s ∧ trace step charges s₀ bs = ts

theorem exists_fallsTo (as bs : List Act) (us : List TaskId) (ts : List (Option TaskId)) (p : Sys → Bool)
    (hboot : ∃ tasks cs, as = boot tasks true ++ cs) (h : (run step init as).map (fun s => p s &&
      us.all (fun t => (s.core.tasks t).isReady && (List.range s.core.nextTask).all fun u =>
        !(s.core.tasks u).isReady || decide (s.core.priority u ≤ s.core.priority t)) &&
      decide (trace step charges s bs = ts) &&
      (runIf step (fun s a => s.keepsReady a = true ∧ s.unchanged a = true) s bs).isSome) = some true) :
    ∃ s₀, run step init as = some s₀ ∧ p s₀ = true ∧ (∀ t ∈ us, Chosen s₀.core (some t)) ∧ FallsTo s₀ bs ts := by
  obtain ⟨tasks, cs, rfl⟩ := hboot
  obtain ⟨s₀, h₀, hp⟩ := Option.map_eq_some_iff.mp h
  simp only [Bool.and_eq_true, List.all_eq_true, List.mem_range, Bool.or_eq_true, Bool.not_eq_true',
    decide_eq_true_eq, decide_eq_false_iff_not] at hp
  obtain ⟨⟨⟨hp, hall⟩, htrace⟩, hrun⟩ := hp
  obtain ⟨s, hs⟩ := Option.isSome_iff_exists.mp hrun
  obtain ⟨hpath, hr⟩ := path_of_boot h₀
  refine ⟨s₀, h₀, hp, fun t ht => ?_, s, path_unchanged hpath hr hs, htrace⟩
  obtain ⟨h₁, h₂⟩ := hall t ht
  exact chosen_of_lt (sound_path hpath sound_init) h₁ fun u hu hur => (h₂ u hu).resolve_left fun h => h hur

/-- Slices are one tick long. Two ticks in one interrupt make turns of two ticks; a task whose priority is set to what
it is before each tick is skipped; and after the last step of `suspendsWaiter` a tick falls to a task that is not of
the highest priority. -/
theorem unchanged_noTurns : Config.timeSliceTicks = 1 ∧
    (∃ s₀, run step init threeEquals = some s₀ ∧ (∀ t ∈ [0, 1, 2], Chosen s₀.core (some t)) ∧
      FallsTo s₀ (tickAndSwitch 2 ++ tickAndSwitch 2) [some 0, some 0, some 1, some 1]) ∧
    (∃ s₀, run step init threeEquals = some s₀ ∧ (∀ t ∈ [0, 1, 2], Chosen s₀.core (some t)) ∧
      FallsTo s₀ setsPriority [some 0, some 2, some 0, some 2]) ∧
    ∃ s₀, run step init suspendsWaiter = some s₀ ∧ Chosen s₀.core (some 2) ∧ ¬ Chosen s₀.core (some 0) ∧
      FallsTo s₀ (tickAndSwitch 1) [some 0] := by
  refine ⟨rfl, ?_, ?_, ?_⟩
  · obtain ⟨s₀, h₀, -, h₁, h₂⟩ := exists_fallsTo threeEquals (tickAndSwitch 2 ++ tickAndSwitch 2) [0, 1, 2]
      [some 0, some 0, some 1, some 1] (fun _ => true) ⟨_, _, rfl⟩ (by decide +kernel)
    exact ⟨s₀, h₀, h₁, h₂⟩
  · obtain ⟨s₀, h₀, -, h₁, h₂⟩ := exists_fallsTo threeEquals setsPriority [0, 1, 2]
      [some 0, some 2, some 0, some 2] (fun _ => true) ⟨_, _, rfl⟩ (by decide +kernel)
    exact ⟨s₀, h₀, h₁, h₂⟩
  · obtain ⟨s₀, h₀, hp, h₁, h₂⟩ := exists_fallsTo suspendsWaiter (tickAndSwitch 1) [2] [some 0]
      (fun s => decide (s.core.priority 0 < s.core.priority 2)) ⟨_, _, rfl⟩ (by decide +kernel)
    have h₁ := h₁ 2 (List.mem_singleton_self 2)
    exact ⟨s₀, h₀, h₁, fun h => absurd (h.2 2 h₁.1) (Nat.not_le.mpr (of_decide_eq_true hp)), h₂⟩

end Aixos.Sys
