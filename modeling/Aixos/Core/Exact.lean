import Aixos.Core.Inherit

/-!
# Inheritance stays exact

Every step of the core keeps `Inherited`. A step that touches what inheritance depends on
leaves at most one task off, from which it walks; `recompute_settles` does the rest.
-/

namespace Aixos

namespace Core

open OrderedQueue Propagation

variable [cfg : Config]

variable {c c' d : Core} {t u o : TaskId} {r : Code} {m : ℕ}

/-! ### Ending a wait -/

omit cfg in
theorem waitUnlink_self (c : Core) (l : WaitList) (t : TaskId) :
    (c.waitUnlink l t).waitLists l = (c.waitLists l).erase t := Function.update_self ..

omit cfg in
theorem waitUnlink_ne (c : Core) {l l' : WaitList} (h : l' ≠ l) (t : TaskId) :
    (c.waitUnlink l t).waitLists l' = c.waitLists l' := Function.update_of_ne h ..

omit cfg in
/-- Taking a task off the list of a mutex matters to the owner of the mutex only. -/
theorem waitUnlink_waits {l : WaitList} {y w : TaskId} (hy : ∀ m, l = .mutex m → m ∉ (c.tasks y).heldMutexes) :
    (c.waitUnlink l t).Waits w y ↔ c.Waits w y := by
  refine exists_congr fun m => and_congr_right fun hm => ?_
  rw [waitUnlink_ne c (fun e => hy m e.symm hm)]

omit cfg in
theorem waitUnlink_ordered (h : MutexOrdered c) (l : WaitList) (t : TaskId) :
    MutexOrdered (c.waitUnlink l t) := by
  intro m
  by_cases hl : WaitList.mutex m = l
  · subst hl
    rw [waitUnlink_self]
    exact (h m).erase t
  · rw [waitUnlink_ne c hl]
    exact h m

/-- What taking a task off its list does to inheritance. -/
theorem detachWaitNode_inherited (h : Wf c) (hi : Inherited c) (t : TaskId) :
    Inherited (c.detachWaitNode t) := by
  unfold detachWaitNode
  cases hw : (c.tasks t).waitList with
  | none => exact hi
  | some l =>
    have hmem : t ∈ c.waitLists l := (h.filed l t).mpr (Tcb.waitList_eq_some.mp hw)
    dsimp only
    rw [if_pos hmem]
    unfold mutexWaiterChanged
    have hc : Chained (c.waitUnlink l t) := by
      have hsub : ∀ {l' u}, u ∈ (c.waitUnlink l t).waitLists l' → u ∈ c.waitLists l' := by
        intro l' u hu
        rw [waitUnlink_filed h.isFiled (Tcb.waitList_eq_some.mp hw)] at hu
        exact List.mem_of_mem_erase hu
      refine chained_of (fun m u hu => (h.filed _ u).mp (hsub hu)) (fun m => ?_)
        (fun u m => (h.held u m).mp) h.owner_live fun m u hu => (h.contested m u (hsub hu)).2
      rw [waitUnlink_filed h.isFiled (Tcb.waitList_eq_some.mp hw)]
      exact (h.nodup _).erase t
    have hord := waitUnlink_ordered hi.ordered l t
    cases hm : ((c.waitUnlink l t).tasks t).waitMutex with
    | none =>
      -- not the list of a mutex: nobody inherits through it
      have hl : ∀ m, l ≠ .mutex m := by
        rintro m rfl
        rw [show ((c.waitUnlink _ t).tasks t).waitMutex = some m from
          Tcb.waitMutex_eq_some.mpr (Tcb.waitList_eq_some.mp hw)] at hm
        cases hm
      exact ⟨fun y => (hi.exact y).congr rfl (fun w => waitUnlink_waits fun m e => absurd e (hl m)) rfl
        fun _ _ => rfl, hord⟩
    | some m =>
      have hl : l = .mutex m := by
        have h₁ := Tcb.waitMutex_eq_some.mp hm
        rw [show ((c.waitUnlink l t).tasks t).wait = some (.list l) from Tcb.waitList_eq_some.mp hw] at h₁
        simpa using h₁
      subst hl
      obtain ⟨o, ho⟩ := Option.ne_none_iff_exists'.mp (h.contested m t hmem).1
      have hx : (c.waitUnlink (.mutex m) t).tcbFromHandle (c.mutexes m).owner = some o :=
        tcbFromHandle_eq_some.mpr ⟨ho, h.owner_live m o ho⟩
      dsimp only
      rw [show ((c.waitUnlink (.mutex m) t).mutexes m).owner = (c.mutexes m).owner from rfl, hx]
      refine recompute_settles hc h.pooled hord fun y hy => ?_
      have hyo : y ≠ o := by
        rintro rfl
        exact hy 0 rfl
      refine (hi.exact y).congr rfl (fun w => waitUnlink_waits ?_) rfl fun _ _ => rfl
      rintro m' ⟨⟩ hm'
      rw [(h.held y m).mp hm'] at ho
      exact hyo (Option.some.inj ho)

/-- What follows the removal from the wait list does not matter. -/
theorem taskDetachWaitLocked_twin (c : Core) (t : TaskId) (r : Code) :
    Twin (c.detachWaitNode t) (c.taskDetachWaitLocked t r) :=
  .of_setTask (t := t) (f := fun b => { b with wait := none, waitResult := r }) rfl rfl rfl rfl rfl

omit cfg in
theorem rescheduleRequest_twin (c : Core) : Twin c c.rescheduleRequest := by
  obtain ⟨a, b, e⟩ := rescheduleRequest_eq c
  rw [e]
  exact .of_eq rfl rfl

theorem schedRequestPreemption_twin (c : Core) : Twin c c.schedRequestPreemption := by
  obtain ⟨a, b, e⟩ := schedRequestPreemption_eq c
  rw [e]
  exact .of_eq rfl rfl

omit cfg in
theorem requestIfCur_twin (c : Core) (t : TaskId) :
    Twin c (if c.cur = some t then c.rescheduleRequest else c) := by
  split
  · exact rescheduleRequest_twin c
  · exact .refl c

/-- Waking a task that waits is detaching it, for inheritance. -/
theorem taskWake_twin (hw : (c.tasks t).state = .blocked ∨ (c.tasks t).state = .delayed) (r : Code) :
    Twin (c.detachWaitNode t) (c.taskWake t r) := by
  unfold taskWake
  rw [if_pos hw]
  have h₁ := taskDetachWaitLocked_twin c t r
  have h₂ : Twin (c.taskDetachWaitLocked t r)
      (((c.taskDetachWaitLocked t r).setTask t fun b => { b with state := .ready }).schedAddTask t) :=
    .of_setTask (t := t) (f := fun b => { b with state := .ready }) rfl rfl rfl rfl rfl
  exact (h₁.trans h₂).trans (schedRequestPreemption_twin _)

theorem Inherited.taskWake (hi : Inherited c) (h : Wf c) (t : TaskId) (r : Code) :
    Inherited (c.taskWake t r) := by
  by_cases hw : (c.tasks t).state = .blocked ∨ (c.tasks t).state = .delayed
  · exact (detachWaitNode_inherited h hi t).same (taskWake_twin hw r)
  · unfold Core.taskWake
    rw [if_neg hw]
    exact hi

/-- Taking a task out of the ready structure changes neither lists nor priorities. -/
theorem schedRemoveTask_wf (h : Wf c) (t : TaskId) : Wf (c.schedRemoveTask t) :=
  h.similar ⟨rfl, fun _ => Alike.refl _, fun _ => .refl _⟩ h.bounded (h.cur.congr rfl rfl rfl fun _ hu => hu)

theorem Inherited.suspendTask (hi : Inherited c) (h : Wf c) (t : TaskId) : Inherited (c.suspendTask t) := by
  have hi₁ : Inherited (c.schedRemoveTask t) := hi.same (.of_eq rfl rfl)
  have hd := detachWaitNode_inherited (schedRemoveTask_wf h t) hi₁ t
  unfold Core.suspendTask
  dsimp only
  refine Inherited.same ?_ (.trans (.setTask rfl rfl rfl) (requestIfCur_twin _ t))
  split
  · exact hd.same (taskDetachWaitLocked_twin _ t Code.intr)
  · exact hi₁

theorem Inherited.deleteTask (hi : Inherited c) (h : Wf c) (t : TaskId) : Inherited (c.deleteTask t) := by
  have hi₁ : Inherited (c.schedRemoveTask t) := hi.same (.of_eq rfl rfl)
  have hd := (detachWaitNode_inherited (schedRemoveTask_wf h t) hi₁ t).same
    (taskDetachWaitLocked_twin _ t Code.intr)
  unfold Core.deleteTask
  dsimp only
  refine Inherited.same ?_ (requestIfCur_twin _ t)
  exact hd.same (.of_setTask (t := t) (f := fun b => { b with state := .stop }) rfl rfl rfl rfl rfl)

/-! ### Beginning a wait -/

theorem Inherited.blockTask (hi : Inherited c) (h : Sound c) {w : Wait} (hb : MayBlock c t w) (ms : Word) :
    Inherited (c.blockTask t w ms) := by
  have hs := h.blockLink hb
  obtain ⟨wl, e, hin, hout⟩ := blockLink_eq c t w
  have hsame : ∀ u, ((c.blockLink t w).tasks u).priority = (c.tasks u).priority ∧
      ((c.blockLink t w).tasks u).basePriority = (c.tasks u).basePriority ∧
      ((c.blockLink t w).tasks u).heldMutexes = (c.tasks u).heldMutexes := by
    intro u
    rw [e]
    by_cases hu : u = t
    · rw [hu]
      simp
    · simp [hu]
  have hlists : (c.blockLink t w).waitLists = wl := by rw [e]
  have hprio : (c.blockLink t w).priority = c.priority := funext fun u => (hsame u).1
  have hord : MutexOrdered (c.blockLink t w) := by
    intro m
    rw [hprio, hlists]
    by_cases hw : w = .list (.mutex m)
    · rw [hin _ hw]
      exact (hi.ordered m).insertByKey
    · rw [hout _ hw]
      exact hi.ordered m
  -- only the owner of the mutex that `t` waits for now may be off
  have hsettled : ∀ y, (∀ m, w = .list (.mutex m) → (c.mutexes m).owner ≠ some y) →
      Settled (c.blockLink t w).base (c.blockLink t w).Waits (c.blockLink t w).priority y := by
    intro y hy
    refine (hi.exact y).congr (hsame y).2.1 (fun v => ?_) (hsame y).1 fun v _ => (hsame v).1
    unfold Waits
    rw [(hsame y).2.2, hlists]
    refine exists_congr fun m => and_congr_right fun hm => ?_
    rw [hout _ fun hw => hy m hw ((h.wf.held y m).mp hm)]
  have key : Inherited ((c.blockLink t w).mutexWaiterChanged t) := by
    have hself : ((c.blockLink t w).tasks t).wait = some w := by
      rw [e]
      simp
    unfold mutexWaiterChanged
    cases hm : ((c.blockLink t w).tasks t).waitMutex with
    | none =>
      refine ⟨fun y => hsettled y ?_, hord⟩
      rintro m rfl
      rw [Tcb.waitMutex_eq_some.mpr hself] at hm
      cases hm
    | some m =>
      have hw : w = .list (.mutex m) := by
        rw [Tcb.waitMutex_eq_some, hself] at hm
        exact Option.some.inj hm
      have hown := hs.wf.contested m t ((hs.wf.filed _ t).mpr (hw ▸ hself))
      obtain ⟨o, ho⟩ := Option.ne_none_iff_exists'.mp hown.1
      dsimp only
      rw [tcbFromHandle_eq_some.mpr ⟨ho, hs.wf.owner_live m o ho⟩]
      refine recompute_settles hs.wf.chained hs.wf.pooled hord fun y hy => hsettled y ?_
      rintro m' hw' hy'
      rw [hw] at hw'
      cases hw'
      rw [show (c.blockLink t w).mutexes = c.mutexes by rw [e]; rfl, hy'] at ho
      exact hy 0 (by rw [← ho]; rfl)
  rw [blockTask_eq]
  refine key.same (.trans ?_ (rescheduleRequest_twin _))
  unfold timeoutStart
  split
  · exact .refl _
  · exact .of_setTask (t := t) (f := fun b => { b with wakeTick := _ }) rfl rfl rfl rfl rfl

/-! ### Owners -/

omit cfg in
/-- For a task that neither gets nor loses a mutex, and owns none whose list has changed, nothing
has changed. -/
theorem settled_of_held {y : TaskId} (h : Settled c.base c.Waits c.priority y)
    (hp : c'.priority = c.priority) (hb : c'.base y = c.base y)
    (hh : (c'.tasks y).heldMutexes = (c.tasks y).heldMutexes)
    (hl : ∀ m ∈ (c.tasks y).heldMutexes, c'.waitLists (.mutex m) = c.waitLists (.mutex m)) :
    Settled c'.base c'.Waits c'.priority y := by
  rw [hp]
  refine h.congr hb (fun w => ?_) rfl fun _ _ => rfl
  unfold Waits
  rw [hh]
  exact exists_congr fun m => and_congr_right fun hm => by rw [hl m hm]

/-- The walk from a task that is exact and leads nowhere changes nothing. -/
theorem recompute_of_stop (ho : MutexOrdered c) (hs : Settled c.base c.Waits c.priority t)
    (hn : c.chainNext t = none) : c.recompute (some t) = c := by
  show recomputeChain 255 (c.recomputeOne t) (c.chainNext t) = c
  rw [recomputeOne_of_settled ho hs, hn]
  rfl

omit cfg in
theorem handOver_tasks (c : Core) (m : ℕ) {t next : TaskId} (hne : next ≠ t) (u : TaskId) :
    (c.handOver m t next).tasks u = { c.tasks u with
      heldMutexes := if u = next then (c.tasks u).heldMutexes ++ [m]
        else if u = t then (c.tasks u).heldMutexes.erase m else (c.tasks u).heldMutexes } := by
  unfold handOver mutexAcquire
  rw [setTask_apply]
  by_cases hu : u = next
  · subst hu
    simp [setMutex, hne]
  · simp only [hu, if_false, setMutex]
    rw [setTask_apply]
    split
    · rename_i e
      rw [e]
    · rfl

section HandOver

variable {next : TaskId} {rest : List TaskId}

/-- The new owner leaves the list, and inherits nothing it does not have already. -/
theorem handOver_detach (h : Sound c) (hi : Inherited c) (hm : (c.mutexes m).owner = some t)
    (hw : c.waitLists (.mutex m) = next :: rest) :
    MutexOrdered ((c.handOver m t next).detachWaitNode next) ∧
    ∀ y, y ≠ t → Settled ((c.handOver m t next).detachWaitNode next).base
      ((c.handOver m t next).detachWaitNode next).Waits
      ((c.handOver m t next).detachWaitNode next).priority y := by
  have hin : next ∈ c.waitLists (.mutex m) := hw ▸ List.mem_cons_self ..
  have hne : next ≠ t := by
    rintro rfl
    exact (h.wf.contested m next hin).2 hm
  have htasks := c.handOver_tasks m hne
  obtain ⟨hl, -, -, -⟩ := h.handOver hm hin
  set e := c.handOver m t next with he
  have helists : ∀ l, e.waitLists l = c.waitLists l := fun _ => rfl
  have heown : (e.mutexes m).owner = some next := by
    rw [he]
    simp [handOver, mutexAcquire, setMutex]
  have hwait : (e.tasks next).wait = some (.list (.mutex m)) := (hl.filed _ next).mp hin
  set g := e.waitUnlink (.mutex m) next with hg
  have hgm : g.waitLists (.mutex m) = rest := by
    rw [hg, waitUnlink_self, helists, hw, List.erase_cons_head]
  have hgl : ∀ m', m' ≠ m → g.waitLists (.mutex m') = c.waitLists (.mutex m') := by
    intro m' hm'
    rw [hg, waitUnlink_ne e (by simpa using hm')]
    rfl
  have hgp : g.priority = c.priority := by
    funext u
    show (e.tasks u).priority = _
    rw [htasks]
    rfl
  have hgb : g.base = c.base := by
    funext u
    show (e.tasks u).basePriority = _
    rw [htasks]
    rfl
  have hord : MutexOrdered g := by
    intro m'
    rw [hgp]
    by_cases hm' : m' = m
    · subst hm'
      have ho := hi.ordered m'
      rw [hw] at ho
      rw [hgm]
      exact ho.sublist (List.sublist_cons_self ..)
    · rw [hgl m' hm']
      exact hi.ordered m'
  have hset : ∀ y, y ≠ t → Settled g.base g.Waits g.priority y := by
    intro y hy
    by_cases hyn : y = next
    · subst hyn
      have hheld : (g.tasks y).heldMutexes = (c.tasks y).heldMutexes ++ [m] := by
        show (e.tasks y).heldMutexes = _
        rw [htasks]
        simp
      have hmy : m ∉ (c.tasks y).heldMutexes := by
        intro hmem
        rw [(h.wf.held y m).mp hmem] at hm
        exact hy (Option.some.inj hm)
      unfold Settled
      rw [hgp, hgb]
      refine .mk' (hi.exact y).floor_le ?_ ((hi.exact y).eq_or.imp_right ?_)
      · rintro w ⟨m', hm', hwm⟩
        rw [hheld, List.mem_append, List.mem_singleton] at hm'
        rcases hm' with hm' | rfl
        · have hne' : m' ≠ m := by
            rintro rfl
            exact hmy hm'
          rw [hgl m' hne'] at hwm
          exact (hi.exact y).le ⟨m', hm', hwm⟩
        · -- the first of the list has the highest priority of it
          rw [hgm] at hwm
          have ho := hi.ordered m'
          rw [hw] at ho
          exact ho.le_head (List.mem_cons_of_mem _ hwm)
      · rintro ⟨w, ⟨m', hm', hwm⟩, e'⟩
        have hne' : m' ≠ m := by
          rintro rfl
          exact hmy hm'
        refine ⟨w, ⟨m', ?_, ?_⟩, e'⟩
        · rw [hheld]
          exact List.mem_append_left _ hm'
        · rw [hgl m' hne']
          exact hwm
    · refine settled_of_held (hi.exact y) hgp (congrFun hgb y) ?_ fun m' hm' => hgl m' ?_
      · show (e.tasks y).heldMutexes = _
        rw [htasks]
        simp [hyn, hy]
      · rintro rfl
        rw [(h.wf.held y m').mp hm'] at hm
        exact hy (Option.some.inj hm)
  have hdetach : e.detachWaitNode next = g := by
    unfold detachWaitNode
    rw [Tcb.waitList_eq_some.mpr hwait]
    dsimp only
    rw [if_pos ((hl.filed _ next).mpr hwait), ← hg]
    unfold mutexWaiterChanged
    have hgw : (g.tasks next).waitMutex = some m := Tcb.waitMutex_eq_some.mpr hwait
    rw [hgw]
    dsimp only
    have hgo : (g.mutexes m).owner = some next := heown
    have hx : g.tcbFromHandle (some next) = some next :=
      tcbFromHandle_eq_some.mpr ⟨rfl, hl.owner_live m next heown⟩
    rw [hgo, hx]
    refine recompute_of_stop hord (hset next hne) ?_
    unfold chainNext
    rw [hgw]
    dsimp only
    rw [hgo, hx]
    simp
  rw [hdetach]
  exact ⟨hord, hset⟩

/-- **Unlocking keeps inheritance exact**: only the task that gives up the mutex is off, and the
walk from it puts that right. -/
theorem Inherited.mutexRelease (hi : Inherited c) (h : Sound c) (hm : (c.mutexes m).owner = some t) :
    Inherited (c.mutexRelease m t) := by
  rw [mutexRelease_eq]
  cases hw : c.waitLists (.mutex m) with
  | nil =>
    have hwf := h.wf.dropOwner (b := { c.mutexes m with owner := none, lockCount := 0 }) hm rfl hw
    have hprio := setTask_priority c t (fun b => { b with heldMutexes := b.heldMutexes.erase m }) rfl
    refine recompute_settles hwf.chained hwf.pooled (fun m' => ?_) fun y hy => ?_
    · exact (hi.ordered m').congr fun u _ => congrFun hprio u
    · have hyt : y ≠ t := by
        rintro rfl
        exact hy 0 rfl
      have hty := setTask_ne c t (fun b => { b with heldMutexes := b.heldMutexes.erase m }) hyt
      exact settled_of_held (hi.exact y) hprio (congrArg Tcb.basePriority hty)
        (congrArg Tcb.heldMutexes hty) fun _ _ => rfl
  | cons next rest =>
    have hin : next ∈ c.waitLists (.mutex m) := hw ▸ List.mem_cons_self ..
    obtain ⟨hs, -⟩ := h.handOver_wake hm hin
    obtain ⟨-, -, hst, -⟩ := h.handOver hm hin
    obtain ⟨hord, hset⟩ := handOver_detach h hi hm hw
    have htwin := taskWake_twin hst Code.ok
    refine recompute_settles hs.wf.chained hs.wf.pooled (htwin.ordered hord) fun y hy => ?_
    refine htwin.settled (hset y ?_)
    rintro rfl
    exact hy 0 rfl

end HandOver

omit cfg in
/-- A task is given a mutex nobody waits for, or rid of one: nobody inherits through it. -/
theorem Inherited.ownership (hi : Inherited c) (t : TaskId) (ms : List ℕ) (hw : c.waitLists (.mutex m) = [])
    (hms : ∀ m', m' ≠ m → (m' ∈ ms ↔ m' ∈ (c.tasks t).heldMutexes)) :
    Inherited (c.setTask t fun b => { b with heldMutexes := ms }) := by
  have hprio := setTask_priority c t (fun b => { b with heldMutexes := ms }) rfl
  refine ⟨fun y => ?_, fun m' => ?_⟩
  · rw [hprio]
    by_cases hy : y = t
    · subst hy
      refine (hi.exact y).congr ?_ (fun w => ?_) rfl fun _ _ => rfl
      · simp [base]
      · unfold Waits
        rw [setTask_self]
        refine exists_congr fun m' => and_congr_left fun hm' => hms m' ?_
        rintro rfl
        rw [setTask_waitLists, hw] at hm'
        cases hm'
    · refine (hi.exact y).congr ?_ (fun w => ?_) rfl fun _ _ => rfl
      · simp [base, hy]
      · simp [Waits, hy]
  · rw [hprio]
    exact hi.ordered m'

theorem Inherited.mutexAcquire (hi : Inherited c) (h : Wf c) (hm : (c.mutexes m).owner = none) (t : TaskId) :
    Inherited (c.mutexAcquire m t) := by
  have hw : c.waitLists (.mutex m) = [] := by
    rw [List.eq_nil_iff_forall_not_mem]
    exact fun u hu => (h.contested m u hu).1 hm
  have hi₁ : Inherited (c.setMutex m fun _ => { owner := some t, lockCount := 1 }) := hi.same (.of_eq rfl rfl)
  refine hi₁.ownership t ((c.tasks t).heldMutexes ++ [m]) hw fun m' hne => ?_
  rw [List.mem_append, List.mem_singleton]
  exact or_iff_left hne

theorem Inherited.mutexDestroy (hi : Inherited c) (hw : c.waitLists (.mutex m) = []) :
    Inherited (c.mutexDestroy m) := by
  have htwin : ∀ d : Core, Twin d ((d.slotFree .mutex m).setMutex m fun _ => {}) := fun d => .of_eq rfl rfl
  refine Inherited.same ?_ (htwin _)
  split
  · exact hi
  · rename_i o ho
    split
    · have hd := hi.ownership o ((c.tasks o).heldMutexes.erase m) hw fun m' hne => List.mem_erase_of_ne hne
      exact (recompute_of_inherited hd (some o)).symm ▸ hd
    · exact hi

/-! ### Priorities -/

/-- The walk does not put off a task that it does not visit. -/
theorem recompute_settled (hc : Chained c) (ho : MutexOrdered c) {x : Option TaskId} {y : TaskId}
    (hy : ∀ i, c.chain x i ≠ some y) (hs : Settled c.base c.Waits c.priority y) :
    Settled (c.recompute x).base (c.recompute x).Waits (c.recompute x).priority y := by
  have r := recompute_reprio c x
  refine hs.congr (r.base y) (fun w => r.waits w y) (recompute_frame hc ho hy) fun w hw => ?_
  refine recompute_frame hc ho fun i hi => hy (i + 1) ?_
  rw [chain, hi]
  exact hc.edge w y hw

omit cfg in
/-- Where the walks lead does not depend on priorities. -/
theorem Reprio.chain (r : Reprio c c') (x : Option TaskId) (i : ℕ) : c'.chain x i = c.chain x i := by
  induction i with
  | zero => rfl
  | succ i ih =>
    rw [Core.chain, Core.chain, ih, funext r.chainNext]

/-- Two walks, from the owner of the mutex a task waits for and from the task itself. -/
theorem recompute_twice (hc : Chained c) (hp : Pooled c) (ho : MutexOrdered c) {x : Option TaskId}
    (hx : x = none ∨ x = c.chainNext t)
    (hs : ∀ y, (∀ i, c.chain (some t) i ≠ some y) → Settled c.base c.Waits c.priority y) :
    Inherited ((c.recompute x).recompute (some t)) := by
  have r := recompute_reprio c x
  have hord : MutexOrdered (c.recompute x) := by
    rw [show c.recompute x = (walkStep^[taskHandleLimit] (c, x)).1 from recomputeChain_eq ..]
    exact walk_ordered hc ho x _
  have hpool : Pooled (c.recompute x) := by
    intro m'
    rw [r.mutexes]
    exact hp m'
  refine recompute_settles (hc.reprio r) hpool hord fun y hy => ?_
  have hy' : ∀ i, c.chain (some t) i ≠ some y := by
    intro i
    rw [← r.chain]
    exact hy i
  refine recompute_settled hc ho (fun i hi => ?_) (hs y hy')
  rcases hx with rfl | rfl
  · have hn : ∀ i, c.chain none i = none := by
      intro i
      induction i with
      | zero => rfl
      | succ i ih => rw [chain, ih]; rfl
    rw [hn] at hi
    cases hi
  · refine hy (i + 1) ?_
    rw [r.chain, chain_succ', Option.bind_some]
    exact hi

theorem Inherited.setPriorityTask (hi : Inherited c) (h : Wf c) (t : TaskId) (p : ℕ) :
    Inherited (c.setPriorityTask t p) := by
  unfold Core.setPriorityTask
  dsimp only
  set d := (c.setTask t fun b => { b with basePriority := p, priority := p }).schedRequeueTask t (c.priority t)
    with hd
  have hne : ∀ u, u ≠ t → d.tasks u = c.tasks u := fun u hu => Function.update_of_ne hu ..
  have hself : d.tasks t = { c.tasks t with basePriority := p, priority := p } :=
    Function.update_self ..
  have hprio : ∀ u, u ≠ t → d.priority u = c.priority u := fun u hu => by rw [priority, hne u hu]; rfl
  have hwait : ∀ u, (d.tasks u).wait = (c.tasks u).wait := by
    intro u
    by_cases hu : u = t
    · rw [hu, hself]
    · rw [hne u hu]
  have hheld : ∀ u, (d.tasks u).heldMutexes = (c.tasks u).heldMutexes := by
    intro u
    by_cases hu : u = t
    · rw [hu, hself]
    · rw [hne u hu]
  have hlive : ∀ m o, (c.mutexes m).owner = some o → d.Live o := by
    intro m o ho
    have := h.owner_live m o ho
    by_cases hu : o = t
    · rw [hu] at this ⊢
      rw [Live, hself]
      exact this
    · rw [Live, hne o hu]
      exact this
  have hc : Chained d := chained_of (fun m u hu => by rw [hwait]; exact (h.filed _ u).mp hu) (fun _ => h.nodup _)
    (fun u m hm => by rw [hheld] at hm; exact (h.held u m).mp hm) hlive fun m u hu => (h.contested m u hu).2
  refine Inherited.same ?_ (schedRequestPreemption_twin _)
  -- the task moves in the list of the mutex it waits for
  obtain ⟨wl, e, hperm, hout, hin⟩ := d.taskWaiterPriorityChanged_eq t
  have r := d.taskWaiterPriorityChanged_reprio t
  have hord : MutexOrdered (d.taskWaiterPriorityChanged t) := by
    intro m
    rw [e]
    show Ordered d.priority (wl (.mutex m))
    by_cases hm : (d.tasks t).waitList = some (.mutex m) ∧ t ∈ d.waitLists (.mutex m)
    · rw [hin _ hm.1 hm.2]
      refine Ordered.insertByKey (Ordered.congr ((hi.ordered m).erase t) fun u hu => hprio u ?_)
      exact ((h.nodup (.mutex m)).mem_erase_iff.mp hu).1
    · rw [not_and] at hm
      rw [hout _ hm]
      refine (hi.ordered m).congr fun u hu => hprio u ?_
      rintro rfl
      refine hm ?_ hu
      rw [Tcb.waitList_eq_some, hwait]
      exact (h.filed _ u).mp hu
  unfold mutexTaskPriorityChanged
  dsimp only
  have hpool : Pooled (d.taskWaiterPriorityChanged t) := by
    intro m
    rw [r.mutexes]
    exact h.pooled m
  have hset : ∀ y, (∀ i, (d.taskWaiterPriorityChanged t).chain (some t) i ≠ some y) →
      Settled (d.taskWaiterPriorityChanged t).base (d.taskWaiterPriorityChanged t).Waits
        (d.taskWaiterPriorityChanged t).priority y := by
    intro y hy
    have hyt : y ≠ t := by
      rintro rfl
      exact hy 0 rfl
    have hdp : (d.taskWaiterPriorityChanged t).priority = d.priority := by rw [e]; rfl
    rw [hdp]
    refine (hi.exact y).congr ?_ (fun w => ?_) (hprio y hyt) fun w hw => hprio w ?_
    · rw [r.base, base, hne y hyt]
      rfl
    · rw [r.waits, Waits, hheld]
      rfl
    · -- `t` waits for no mutex of `y`, or the walk would get there
      rintro rfl
      refine hy 1 ?_
      rw [chain, chain, Option.bind_some, r.chainNext]
      refine hc.edge w y ?_
      rw [Waits, hheld]
      exact hw
  have hdc := hc.reprio r
  split
  · exact recompute_twice (x := none) hdc hpool hord (.inl rfl) hset
  · rename_i m hm
    split
    · rename_i hmem
      refine recompute_twice hdc hpool hord (.inr ?_) hset
      -- the owner is where the walk from `t` goes on
      have hmem : t ∈ c.waitLists (.mutex m) := r.mem.mp hmem
      obtain ⟨hn, hno⟩ := h.contested m t hmem
      unfold chainNext
      rw [hm]
      obtain ⟨o, ho⟩ := Option.ne_none_iff_exists'.mp hn
      have hx : (d.taskWaiterPriorityChanged t).tcbFromHandle ((d.taskWaiterPriorityChanged t).mutexes m).owner
          = some o := by
        rw [r.tcbFromHandle, r.mutexes]
        exact tcbFromHandle_eq_some.mpr ⟨ho, hlive m o ho⟩
      dsimp only
      rw [hx]
      have hot : o ≠ t := by
        rintro rfl
        exact hno ho
      simp [Option.filter, hot]
    · exact recompute_twice (x := none) hdc hpool hord (.inl rfl) hset

/-! ### The other steps -/

theorem Inherited.taskCreateCommon (hi : Inherited c) (h : Wf c) (a : CreateArgs) :
    Inherited (c.taskCreateCommon a).1 := by
  rcases taskCreateCommon_eq c a with ⟨e, -⟩ | ⟨-, e, -⟩
  · rw [e]
    exact hi
  rw [e]
  refine Inherited.same (c := c.newTask a) ?_ (by split <;> exact .of_eq rfl rfl)
  -- nobody waits for what the new task holds, and it is in no list
  have hdead := h.not_live_nextTask
  have hheld : (c.tasks c.nextTask).heldMutexes = [] := by
    rw [List.eq_nil_iff_forall_not_mem]
    exact fun m hm => hdead (h.owner_live m _ ((h.held _ m).mp hm))
  have hin : ∀ m w, w ∈ c.waitLists (.mutex m) → w ≠ c.nextTask := by
    rintro m w hw rfl
    have hwait := (h.filed _ _).mp hw
    have hstate := (h.waiting c.nextTask).mp (by rw [hwait]; exact Option.some_ne_none _)
    refine hdead ?_
    rcases hstate with e | e <;> simp [Live, e]
  have hprio := fun u => c.newTask_priority_ne (u := u) a
  refine ⟨fun y => ?_, fun m => (hi.ordered m).congr fun u hu => hprio u (hin m u hu)⟩
  by_cases hy : y = c.nextTask
  · subst hy
    refine .mk' ?_ ?_ (.inl ?_)
    · simp [base, priority, newTcb]
    · rintro w ⟨m, hm, -⟩
      rw [newTask_self] at hm
      cases hm
    · simp [base, priority, newTcb]
  · refine (hi.exact y).congr ?_ (fun w => ?_) (hprio y hy) ?_
    · rw [base, c.newTask_ne a hy]
      rfl
    · rw [Waits, c.newTask_ne a hy]
      rfl
    · rintro w ⟨m, -, hw⟩
      exact hprio w (hin m w hw)

omit cfg in
theorem preempt_twin (c : Core) : Twin c c.preempt := by
  unfold Core.preempt
  split
  · exact .refl c
  · refine .setTask ?_ ?_ ?_ <;> split <;> rfl

theorem schedule_twin (ht : d.tasks = c.tasks) (hl : d.waitLists = c.waitLists) : Twin c d.schedule := by
  refine .trans (.of_eq ht hl) ?_
  unfold Core.schedule
  refine (preempt_twin d).trans ?_
  split
  · exact .of_eq rfl rfl
  · exact .of_setTask (f := fun b => { b with state := .running }) rfl rfl rfl rfl rfl

omit cfg in
theorem schedRotateCurrent_twin (c : Core) : Twin c c.schedRotateCurrent := by
  unfold Core.schedRotateCurrent
  split
  · exact .refl c
  · exact .of_eq rfl rfl

theorem Inherited.start (hi : Inherited c) (h : Sound c) (hr : c.running = false) {memory : Bool}
    (e : c.start memory = some c') : Inherited c' := by
  obtain ⟨c₂, e₂, rfl⟩ := start_eq_some hr e
  have h₁ := h.taskCreateCommon (idleArgs memory)
  have hi₂ := (hi.taskCreateCommon h.wf (idleArgs memory)).taskCreateCommon h₁.wf (timerArgs memory)
  rw [← e₂] at hi₂
  obtain ⟨s, es⟩ := addReadyTasks_rest c₂.allTasks c₂
  rw [es]
  exact hi₂.same (schedule_twin rfl rfl)

/-- **Every step of the core keeps inheritance exact.** -/
theorem Inherited.exec (hi : Inherited c) (h : Sound c) {o : Op} (he : c.Enabled o) : Inherited (c.exec o) := by
  cases o with
  | wake t r => exact hi.taskWake h.wf t r
  | timeout t r => exact hi.taskWake h.wf t r
  | block t w ms => exact hi.blockTask h he ms
  | yield => exact hi.same ((schedRotateCurrent_twin c).trans (rescheduleRequest_twin _))
  | countTick =>
    refine hi.same ?_
    show Twin c c.countTick
    unfold Core.countTick
    dsimp only
    split
    · exact .of_eq rfl rfl
    · exact .of_setTask (f := fun b => { b with timeSlice := b.timeSlice - 1 }) rfl rfl rfl rfl rfl
  | sliceExpire =>
    refine hi.same ?_
    show Twin c c.sliceExpire
    unfold Core.sliceExpire
    split
    · exact .refl c
    · split
      · refine .trans ?_ ((schedRotateCurrent_twin _).trans (rescheduleRequest_twin _))
        exact .setTask rfl rfl rfl
      · exact .refl c
  | suspend t => exact hi.suspendTask h.wf t
  | resume t =>
    refine hi.same (.trans ?_ (schedRequestPreemption_twin _))
    exact .of_setTask (t := t) (f := fun b => { b with state := .ready }) rfl rfl rfl rfl rfl
  | setPriority t p => exact hi.setPriorityTask h.wf t p
  | create a => exact hi.taskCreateCommon h.wf a
  | delete t => exact hi.deleteTask h.wf t
  | start memory =>
    obtain ⟨hr, he⟩ := he
    obtain ⟨c', e⟩ := Option.isSome_iff_exists.mp he
    rw [Core.exec, e]
    exact hi.start h hr e
  | switch => exact hi.same (schedule_twin (d := { c with switchRequested := false }) rfl rfl)
  | isrEnter => exact hi.same (.of_eq rfl rfl)
  | isrExit =>
    refine hi.same ?_
    show Twin c c.isrExit
    unfold Core.isrExit
    dsimp only
    split
    · exact .refl c
    · split <;> exact .of_eq rfl rfl
  | lock =>
    refine hi.same ?_
    show Twin c c.schedLockTask.1
    unfold Core.schedLockTask
    split <;> exact .of_eq rfl rfl
  | unlock =>
    refine hi.same ?_
    show Twin c c.schedUnlockTask.1
    unfold Core.schedUnlockTask
    dsimp only
    split
    · exact .refl c
    · split
      · exact .refl c
      · split <;> exact .of_eq rfl rfl
  | alloc k i =>
    rw [Core.exec, slotAlloc_eq h.wf.toLists (freeSlot_eq_some he.2).1]
    exact hi.same (.of_eq rfl rfl)
  | allocMutex i =>
    rw [Core.exec, slotAlloc_eq h.wf.toLists (freeSlot_eq_some he).1]
    exact hi.same (.of_eq rfl rfl)
  | free k i => exact hi.same (.of_eq rfl rfl)
  | acquire m t => exact hi.mutexAcquire h.wf he.2.1 t
  | relock m n => exact hi.same (.of_eq rfl rfl)
  | release m t => exact hi.mutexRelease h he.2
  | destroy m => exact hi.mutexDestroy he

end Core

end Aixos
