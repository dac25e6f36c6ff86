import Aixos.System.Timeouts
import Aixos.Time.Wheel
import Mathlib.Order.OrderDual

/-!
# When timeouts end

A task that blocks or sleeps with a finite timeout sets an alarm; the timeout list is compared with the alarms of
`Library.Alarms`. The difference of two wrapping counters orders times that are all less than half the range ahead.

* `OnClock` — the timeout list has the tasks with an alarm, in the order of the time that remains.
* `Sys.timeoutEvents` — what is seen of timeouts in a step of the system.
* `Sys.punctual_of_path` — in runs with a clean start every alarm rings in time.
-/

namespace Aixos

open Transition Aixos.Core OrderedQueue

variable [cfg : Config]

/-- The ticks until the timeout of a task ends. -/
def remaining (c : Core) (t : TaskId) : ℕ := ((c.tasks t).wakeTick - c.getTick).toNat

/-- The tasks for which the loop of `aixos_task_tick` calls `aixos_task_wake`. -/
def taskTickWakes (now : Word) : Core → List TaskId → List TaskId
  | _, [] => []
  | c, t :: ts =>
    if tickReached now (c.tasks t).wakeTick then
      t :: taskTickWakes now (c.taskWake t (if (c.tasks t).state = .delayed then Code.ok else Code.timeout)) ts
    else []

/-- The timeout list has the tasks whose alarm is set, those with less time left first, and of those with as much
time left the one that came first. -/
structure OnClock (c : Core) (A : Alarms TaskId Word) : Prop where
  now : c.getTick = A.now
  nodup : A.armed.Nodup
  time : ∀ p ∈ A.pending, (c.tasks p.1).wakeTick = p.2
  /-- All times are less than half the range ahead. -/
  near : ∀ p ∈ A.pending, 0 < (p.2 - A.now).toNat ∧ (p.2 - A.now).toNat ≤ timeoutMaxTicks
  ordered : c.timeoutList.Pairwise fun t u => remaining c t ≤ remaining c u
  ties : ∀ w, (c.timeoutList.filter fun t => (c.tasks t).wakeTick = w) = A.due w

variable {c c' : Core} {A : Alarms TaskId Word} {t u : TaskId} {now v w : Word} {ts : List TaskId}

/-! ### Wrapping counters -/

omit cfg in
/-- Of two times less than half the range ahead, the signed difference says which is the earlier. -/
theorem msb_sub_iff (hw : (w - now).toNat ≤ timeoutMaxTicks) (hv : (v - now).toNat ≤ timeoutMaxTicks) :
    (w - v).msb = true ↔ (w - now).toNat < (v - now).toNat := by
  have e : w - v = (w - now) - (v - now) := by bv_omega
  rw [e]
  generalize w - now = a at *
  generalize v - now = b at *
  rw [BitVec.msb_eq_decide, decide_eq_true_eq, BitVec.toNat_sub]
  unfold timeoutMaxTicks at hw hv
  omega

omit cfg in
/-- A time less than half the range ahead is reached exactly at its tick. -/
theorem tickReached_iff (h₀ : 0 < (w - now).toNat) (hw : (w - now).toNat ≤ timeoutMaxTicks) :
    tickReached (now + 1) w = true ↔ w = now + 1 := by
  rw [← toNat_sub_eq_one, tickReached, BitVec.msb_eq_decide, Bool.not_eq_true', decide_eq_false_iff_not]
  unfold timeoutMaxTicks at hw
  have e : (now + 1) - w = 1 - (w - now) := by bv_omega
  rw [e]
  generalize w - now = a at *
  rw [BitVec.toNat_sub]
  show ¬ _ ≤ (2 ^ 32 - a.toNat + 1) % 2 ^ 32 ↔ _
  omega

/-- A finite timeout is less than half the range, and at least a tick. -/
theorem msToTicks_near {ms : Word} (h₀ : ms ≠ 0) (hf : ms ≠ forever) :
    0 < (msToTicks ms).toNat ∧ (msToTicks ms).toNat ≤ timeoutMaxTicks := by
  unfold msToTicks
  rw [if_neg hf]
  dsimp only
  generalize (ms.toNat * cfg.systickHz + 999) / 1000 = n
  rw [BitVec.toNat_ofNat]
  unfold timeoutMaxTicks
  by_cases hn : n = 0
  · rw [show (if n = 0 ∧ ms ≠ 0 then 1 else n) = 1 from if_pos ⟨hn, h₀⟩]
    decide
  · rw [show (if n = 0 ∧ ms ≠ 0 then 1 else n) = n from if_neg fun h => hn h.1]
    split <;> omega

/-! ### The list and the alarms -/

namespace OnClock

omit cfg in
theorem mem_pending (h : OnClock c A) (ht : t ∈ c.timeoutList) : (t, (c.tasks t).wakeTick) ∈ A.pending := by
  have hm : t ∈ A.due (c.tasks t).wakeTick := by
    rw [← h.ties]
    exact List.mem_filter.mpr ⟨ht, by simp⟩
  obtain ⟨p, hp, rfl⟩ := List.mem_map.mp hm
  obtain ⟨hp, hq⟩ := List.mem_filter.mp hp
  rwa [← of_decide_eq_true hq]

omit cfg in
theorem mem_armed (h : OnClock c A) : t ∈ A.armed ↔ t ∈ c.timeoutList := by
  constructor
  · intro ht
    obtain ⟨p, hp, rfl⟩ := List.mem_map.mp ht
    have hm : p.1 ∈ A.due p.2 := List.mem_map_of_mem (List.mem_filter.mpr ⟨hp, by simp⟩)
    rw [← h.ties] at hm
    exact List.mem_of_mem_filter hm
  · exact fun ht => List.mem_map_of_mem (h.mem_pending ht)

omit cfg in
theorem remaining_near (h : OnClock c A) (ht : t ∈ c.timeoutList) :
    0 < remaining c t ∧ remaining c t ≤ timeoutMaxTicks := by
  unfold remaining
  rw [h.now]
  exact h.near _ (h.mem_pending ht)

omit cfg in
theorem idle (hc : c.timeoutList = []) : OnClock c (.idle c.getTick) where
  now := rfl
  nodup := List.nodup_nil
  time _ hp := nomatch hp
  near _ hp := nomatch hp
  ordered := by
    rw [hc]
    exact List.Pairwise.nil
  ties w := by
    rw [hc]
    rfl

omit cfg in
/-- Some timeouts are taken off the list, and `k` ticks go by before which no other ends. -/
theorem thin (h : OnClock c A) {gone : List TaskId} (hlist : c'.timeoutList = c.timeoutList.filter (· ∉ gone))
    (hwake : ∀ t ∈ c.timeoutList, (c'.tasks t).wakeTick = (c.tasks t).wakeTick) (k : ℕ)
    (hk : ∀ p ∈ A.pending, p.1 ∉ gone →
      k < (p.2 - A.now).toNat ∧ (p.2 - c'.getTick).toNat = (p.2 - A.now).toNat - k) :
    OnClock c' { now := c'.getTick, pending := A.pending.filter fun p => p.1 ∉ gone } := by
  have hmem : ∀ p ∈ A.pending.filter fun p => p.1 ∉ gone, p ∈ A.pending ∧ p.1 ∉ gone := by
    intro p hp
    obtain ⟨hp, hg⟩ := List.mem_filter.mp hp
    exact ⟨hp, of_decide_eq_true hg⟩
  have hrem : ∀ t ∈ c'.timeoutList, remaining c' t = remaining c t - k := by
    intro t ht
    rw [hlist, List.mem_filter] at ht
    have := hk _ (h.mem_pending ht.1) (of_decide_eq_true ht.2)
    rw [remaining, hwake t ht.1, this.2, remaining, h.now]
  constructor
  · rfl
  · exact h.nodup.sublist (List.filter_sublist.map _)
  · intro p hp
    obtain ⟨hp, -⟩ := hmem p hp
    rw [hwake p.1 (h.mem_armed.mp (List.mem_map_of_mem hp)), h.time p hp]
  · intro p hp
    obtain ⟨hp, hg⟩ := hmem p hp
    have h₁ := h.near p hp
    have h₂ := hk p hp hg
    dsimp only
    omega
  · have hsub : c'.timeoutList.Sublist c.timeoutList := by
      rw [hlist]
      exact List.filter_sublist
    refine (h.ordered.sublist hsub).imp_of_mem fun {t u} ht hu htu => ?_
    rw [hrem t ht, hrem u hu]
    exact Nat.sub_le_sub_right htu k
  · intro w
    have e : (c'.timeoutList.filter fun t => (c'.tasks t).wakeTick = w) =
        (c.timeoutList.filter fun t => (c.tasks t).wakeTick = w).filter (· ∉ gone) := by
      rw [hlist, List.filter_filter, List.filter_filter]
      refine List.filter_congr fun t ht => ?_
      rw [hwake t ht, Bool.and_comm]
    rw [e, h.ties]
    exact Timed.filter_map_fst A.pending _ _

omit cfg in
/-- Nothing about timeouts has changed. -/
theorem same (h : OnClock c A) (hnow : c'.getTick = c.getTick) (hlist : c'.timeoutList = c.timeoutList)
    (hwake : ∀ t ∈ c.timeoutList, (c'.tasks t).wakeTick = (c.tasks t).wakeTick) : OnClock c' A := by
  have hfilter : c'.timeoutList = c.timeoutList.filter (· ∉ ([] : List TaskId)) := by
    rw [hlist]
    simp
  have hthin := h.thin hfilter hwake 0 fun p hp _ => by
    rw [hnow, h.now]
    exact ⟨(h.near p hp).1, rfl⟩
  simpa [hnow, h.now] using hthin

omit cfg in
/-- A timeout is put in the list: before the first that ends later. -/
theorem insert (h : OnClock c A) (ht : t ∉ c.timeoutList) (hnow : c'.getTick = c.getTick)
    (hwake : ∀ u ≠ t, (c'.tasks u).wakeTick = (c.tasks u).wakeTick) (hw : (c'.tasks t).wakeTick = w)
    (hnear : 0 < (w - A.now).toNat ∧ (w - A.now).toNat ≤ timeoutMaxTicks)
    (hlist : c'.timeoutList = insertBefore (fun u => (w - (c'.tasks u).wakeTick).msb) t c.timeoutList) :
    OnClock c' { A with pending := A.pending ++ [(t, w)] } := by
  have hne : ∀ u ∈ c.timeoutList, u ≠ t := fun u hu e => ht (e ▸ hu)
  have hrem : ∀ u ∈ c.timeoutList, remaining c' u = remaining c u := by
    intro u hu
    rw [remaining, hwake u (hne u hu), hnow, remaining]
  have hself : remaining c' t = (w - A.now).toNat := by rw [remaining, hw, hnow, h.now]
  -- the list is kept in order by the time that remains, and the test compares just that
  set key : TaskId → OrderDual ℕ := fun u => OrderDual.toDual (remaining c' u) with hkey
  have hkeys : c'.timeoutList = insertByKey key t c.timeoutList := by
    rw [hlist, insertByKey]
    refine insertBefore_congr fun u hu => ?_
    have h₁ := h.near _ (h.mem_pending hu)
    rw [Bool.eq_iff_iff, decide_eq_true_eq, hwake u (hne u hu), msb_sub_iff hnear.2 h₁.2, hkey, OrderDual.toDual_lt_toDual,
      hself, hrem u hu, remaining, h.now]
  have hord : Ordered key c.timeoutList := by
    refine h.ordered.imp_of_mem fun {a b} ha hb hab => ?_
    rw [hkey, OrderDual.toDual_le_toDual, hrem a ha, hrem b hb]
    exact hab
  have htime : ∀ u ∈ c'.timeoutList, ∀ v, (c'.tasks u).wakeTick = v ↔ key u = OrderDual.toDual (v - A.now).toNat := by
    intro u _ v
    rw [hkey, OrderDual.toDual_inj, remaining, hnow, h.now, BitVec.toNat_inj, BitVec.sub_left_inj]
  constructor
  · exact hnow.trans h.now
  · rw [Alarms.armed, List.map_append, List.nodup_append]
    refine ⟨h.nodup, List.nodup_singleton _, ?_⟩
    rintro u hu v hv rfl
    rw [List.map_singleton, List.mem_singleton] at hv
    exact ht (h.mem_armed.mp ((show u = t from hv) ▸ hu))
  · intro p hp
    rcases List.mem_append.mp hp with hp | hp
    · rw [hwake p.1 (hne _ (h.mem_armed.mp (List.mem_map_of_mem hp))), h.time p hp]
    · rw [List.mem_singleton.mp hp, hw]
  · intro p hp
    rcases List.mem_append.mp hp with hp | hp
    · exact h.near p hp
    · rw [List.mem_singleton.mp hp]
      exact hnear
  · rw [hkeys]
    exact hord.insertByKey.imp fun hab => hab
  · intro v
    have e₁ : (c'.timeoutList.filter fun u => (c'.tasks u).wakeTick = v) =
        c'.timeoutList.filter fun u => key u = OrderDual.toDual (v - A.now).toNat :=
      List.filter_congr fun u hu => decide_eq_decide.mpr (htime u hu v)
    have e₂ : (c.timeoutList.filter fun u => key u = OrderDual.toDual (v - A.now).toNat) =
        c.timeoutList.filter fun u => (c.tasks u).wakeTick = v := by
      refine List.filter_congr fun u hu => decide_eq_decide.mpr ?_
      rw [← htime u (by rw [hkeys]; exact mem_insertBefore.mpr (.inr hu)) v, hwake u (hne u hu)]
    rw [e₁, hkeys, hord.filter_insertByKey, e₂, h.ties]
    have e₃ : key t = OrderDual.toDual (v - A.now).toNat ↔ w = v := by
      rw [← htime t (by rw [hkeys]; exact mem_insertBefore.mpr (.inl rfl)) v, hw]
    simp only [e₃, Alarms.due, List.filter_append, List.map_append, List.append_cancel_left_eq]
    by_cases hv : w = v <;> simp [hv]

end OnClock

/-! ### The tick -/

section Tick

open Timed

omit cfg in
/-- If no time has come, nobody is woken. -/
theorem rung_of_not_due (h : ∀ t ∈ ts, tickReached now (c.tasks t).wakeTick = false) : Rung now ts c c := by
  refine ⟨rfl, fun _ => rfl, fun _ _ => ⟨rfl, rfl⟩, fun u hu hd => ?_⟩
  rw [h u hu] at hd
  cases hd

/-- **The loop of `aixos_task_tick`** wakes those whose time has come, in the order of the list, if they come first. -/
theorem taskTickLoop_rung (hn : ts.Nodup) (hw : ∀ t ∈ ts, Waiting c t)
    (hd : ts.Pairwise fun t u =>
      tickReached now (c.tasks u).wakeTick = true → tickReached now (c.tasks t).wakeTick = true) :
    Rung now ts c (taskTickLoop now c ts) ∧
      taskTickWakes now c ts = ts.filter fun t => tickReached now (c.tasks t).wakeTick := by
  induction ts generalizing c with
  | nil => exact ⟨.nil now c, rfl⟩
  | cons t ts ih =>
    rw [List.nodup_cons] at hn
    rw [List.pairwise_cons] at hd
    rw [taskTickLoop, taskTickWakes]
    by_cases hdt : tickReached now (c.tasks t).wakeTick = true
    · have hwt := hw t (List.mem_cons_self ..)
      have hwoken := taskWake_wokenUp hwt (if (c.tasks t).state = .delayed then Code.ok else Code.timeout)
      rw [if_pos hdt, if_pos hdt, List.filter_cons_of_pos (by exact hdt)]
      have ih := ih (c := c.taskWake t (if (c.tasks t).state = .delayed then Code.ok else Code.timeout)) hn.2
        (fun u hu => by
          unfold Timed.Waiting
          rw [(hwoken.other u fun e => hn.1 (e ▸ hu)).1]
          exact hw u (List.mem_cons_of_mem _ hu))
        (by simpa only [hwoken.wakeTick] using hd.2)
      refine ⟨.cons_due hn.1 hwt hdt ih.1, ?_⟩
      rw [ih.2]
      simp only [hwoken.wakeTick]
    · have hno : ∀ u ∈ t :: ts, tickReached now (c.tasks u).wakeTick = false := by
        intro u hu
        rw [← Bool.not_eq_true]
        rcases List.mem_cons.mp hu with rfl | hu
        · exact hdt
        · exact fun hdu => hdt (hd.1 u hu hdu)
      rw [if_neg hdt, if_neg hdt]
      refine ⟨rung_of_not_due hno, (List.filter_eq_nil_iff.mpr fun u hu => ?_).symm⟩
      rw [hno u hu]
      exact Bool.false_ne_true

/-- The end of the tick handler leaves those alone who do not wait. -/
theorem tick_end (hf : Filed c) (hwait : ∀ t, (c.tasks t).wait ≠ none ↔ Waiting c t) (ht : ¬ Waiting c t) (pending : Bool) :
    ((c.timerServiceWake pending).sliceExpire.tasks t).state = (c.tasks t).state ∧
      ((c.timerServiceWake pending).sliceExpire.tasks t).waitResult = (c.tasks t).waitResult := by
  have hslice : ∀ d : Core, (d.sliceExpire.tasks t).state = (d.tasks t).state ∧
      (d.sliceExpire.tasks t).waitResult = (d.tasks t).waitResult := by
    intro d
    have hrot : ∀ d : Core, d.schedRotateCurrent.rescheduleRequest.tasks = d.tasks := by
      intro d
      obtain ⟨a, b, e⟩ := rescheduleRequest_eq d.schedRotateCurrent
      rw [e]
      unfold schedRotateCurrent
      split <;> rfl
    unfold sliceExpire
    split
    · exact ⟨rfl, rfl⟩
    · split
      · rw [hrot, setTask_apply]
        split
        · rename_i e
          rw [e]
          exact ⟨rfl, rfl⟩
        · exact ⟨rfl, rfl⟩
      · exact ⟨rfl, rfl⟩
  obtain ⟨h₁, h₂⟩ := hslice (c.timerServiceWake pending)
  rw [h₁, h₂]
  unfold timerServiceWake
  split
  · rename_i u us hu
    have hwu : Waiting c u := by
      rw [← hwait, hf .service u (hu ▸ List.mem_cons_self ..)]
      exact Option.some_ne_none _
    exact (taskWake_wokenUp hwu Code.ok).other t fun e => ht (e ▸ hwu)
  · exact ⟨rfl, rfl⟩

end Tick

/-! ### The system -/

namespace Sys

open Timed

/-- Before anything is created, at some tick. -/
def initAt (ticks : BitVec 64) : Sys :=
  { init with kernel := { Kernel.init with core := { Core.init with totalTicks := ticks } } }

/-- The tasks whose wait has ended. -/
def waitsEnded (c c' : Core) : List TaskId := (List.range c.nextTask).filter fun t => Waiting c t ∧ ¬ Waiting c' t

/-- The tasks that have begun to wait. -/
def waitsBegun (c c' : Core) : List TaskId := (List.range c'.nextTask).filter fun t => ¬ Waiting c t ∧ Waiting c' t

/-- The alarm that a task sets which begins to wait: after its timeout, if that is finite. -/
def alarmSet (s s' : Sys) (t : TaskId) : List (Alarms.Event TaskId Word) :=
  match s'.frame t with
  | none => []
  | some f =>
    if msToTicks f.timeoutMs = forever then [] else [.set t (s.core.getTick + msToTicks f.timeoutMs)]

/-- What is seen of timeouts in a step: the tasks that the tick wakes, those whose wait has ended, and those that
have begun to wait. -/
def timeoutEvents (s : Sys) (a : Act) : List (Alarms.Event TaskId Word) :=
  match s.step a with
  | none => []
  | some s' =>
    (match a with
      | .isr (.tick _) => [.tick (taskTickWakes s.core.countTick.getTick s.core.countTick s.core.countTick.timeoutList)]
      | _ => []) ++
    (waitsEnded s.core s'.core).map .clear ++ (waitsBegun s.core s'.core).flatMap (alarmSet s s')

/-- The state agrees with the alarms, and the next tick will ring them. -/
structure Punctual (s : Sys) (A : Alarms TaskId Word) : Prop where
  /-- The tasks with an alarm are those that wait with a finite timeout. -/
  armed : ∀ t, t ∈ A.armed ↔ Waiting s.core t ∧ ∃ f, s.frame t = some f ∧ f.timeoutMs ≠ forever
  /-- They are in the timeout list, in order. -/
  clock : OnClock s.core A
  /-- The next tick wakes exactly those that are due, with the result of a timeout, or of a sleep. -/
  rings : ∀ pending s', s.step (.isr (.tick pending)) = some s' →
    taskTickWakes s.core.countTick.getTick s.core.countTick s.core.countTick.timeoutList = A.due (A.now + 1) ∧
    ∀ t ∈ A.due (A.now + 1), (s'.core.tasks t).state = .ready ∧
      (s'.core.tasks t).waitResult = if (s.core.tasks t).state = .delayed then Code.ok else Code.timeout

variable {s s' : Sys} {a : Act} {as : List Act}

theorem mem_waitsEnded (hs : Sound c) : t ∈ waitsEnded c c' ↔ Waiting c t ∧ ¬ Waiting c' t := by
  unfold waitsEnded
  rw [List.mem_filter, List.mem_range, decide_eq_true_eq]
  refine and_iff_right_of_imp fun h => hs.wf.fresh t fun e => ?_
  rcases h.1 with hw | hw
  · cases e.symm.trans hw
  · cases e.symm.trans hw

theorem waiting_iff (hs : Sound c) : Waiting c t ↔ (c.tasks t).wait ≠ none := (hs.wf.waiting t).symm

/-- The tasks whose wait has ended have left the timeout list, and no others. -/
theorem timeoutList_eq (hs : Sound c) (hs' : Sound c') (hsub : c'.timeoutList.Sublist c.timeoutList)
    (hw : WaitsKept c c') : c'.timeoutList = c.timeoutList.filter (· ∉ waitsEnded c c') := by
  refine sublist_eq_filter hsub hs.wf.timedNodup fun t ht => ?_
  have hwait : Waiting c t := (waiting_iff hs).mpr (hs.wf.timed t ht)
  rw [decide_eq_true_eq, mem_waitsEnded hs, not_and, not_not, waiting_iff hs']
  constructor
  · exact fun ht' _ => hs'.wf.timed t ht'
  · exact fun h => (hw t (h hwait)).2.mpr ht

/-- If only waits end, none begins. -/
theorem waitsBegun_eq_nil (hs : Sound c) (hs' : Sound c') (hw : WaitsKept c c') : waitsBegun c c' = [] := by
  refine List.filter_eq_nil_iff.mpr fun t _ => ?_
  rw [decide_eq_true_eq, waiting_iff hs, waiting_iff hs']
  rintro ⟨h₁, h₂⟩
  rw [(hw t h₂).1] at h₂
  exact h₁ h₂

/-- A task that blocks is the only one that begins to wait, and no wait ends. -/
theorem waits_of_block {w : Wait} {ms : Word} (hs : Sound c) (hb : MayBlock c t w) (hs' : Sound (c.blockTask t w ms)) :
    waitsBegun c (c.blockTask t w ms) = [t] ∧ waitsEnded c (c.blockTask t w ms) = [] := by
  obtain ⟨hself, -, hother⟩ := blockTask_waits hs hb ms
  have hw : (c.tasks t).wait = none := hs.wf.wait_eq_none_of_isReady (.inr hb.state)
  have hbegin : ∀ u, ¬ Waiting c u ∧ Waiting (c.blockTask t w ms) u ↔ u = t := by
    intro u
    rw [waiting_iff hs, waiting_iff hs']
    constructor
    · rintro ⟨h₁, h₂⟩
      by_contra hu
      rw [(hother u hu).1] at h₂
      exact h₁ h₂
    · rintro rfl
      rw [hw, hself]
      simp
  have hlt : t < (c.blockTask t w ms).nextTask := by
    refine hs'.wf.fresh t fun e => ?_
    rcases ((hbegin t).mpr rfl).2 with hw | hw
    · cases e.symm.trans hw
    · cases e.symm.trans hw
  constructor
  · refine List.perm_singleton.mp ((List.perm_ext_iff_of_nodup (List.nodup_range.filter _) (List.nodup_singleton t)).mpr
      fun u => ?_)
    rw [List.mem_filter, List.mem_range, decide_eq_true_eq, hbegin, List.mem_singleton]
    refine and_iff_right_of_imp ?_
    rintro rfl
    exact hlt
  · refine List.filter_eq_nil_iff.mpr fun u _ => ?_
    rw [decide_eq_true_eq, waiting_iff hs, waiting_iff hs']
    rintro ⟨h₁, h₂⟩
    by_cases hu : u = t
    · rw [hu] at h₁
      exact h₁ hw
    · rw [(hother u hu).1] at h₂
      exact h₂ h₁

/-! ### One step -/

omit cfg in
/-- Counting the tick changes nothing else that matters. -/
theorem countTick_keeps (c : Core) : c.countTick.timeoutList = c.timeoutList ∧ c.countTick.getTick = c.getTick + 1 ∧
    c.countTick.nextTask = c.nextTask ∧ ∀ t, (c.countTick.tasks t).wakeTick = (c.tasks t).wakeTick ∧
      (c.countTick.tasks t).state = (c.tasks t).state ∧ (c.countTick.tasks t).wait = (c.tasks t).wait := by
  have hticks : c.countTick.totalTicks = c.totalTicks + 1 := by
    unfold countTick
    dsimp only
    split <;> rfl
  refine ⟨?_, ?_, ?_, fun t => ?_⟩
  · unfold countTick
    dsimp only
    split <;> rfl
  · rw [← getTick_ticked, getTick, hticks]
    rfl
  · unfold countTick
    dsimp only
    split <;> rfl
  · unfold countTick
    dsimp only
    split
    · exact ⟨rfl, rfl, rfl⟩
    · rw [setTask_apply]
      split
      · rename_i e
        rw [e]
        exact ⟨rfl, rfl, rfl⟩
      · exact ⟨rfl, rfl, rfl⟩

/-- **The tick rings the alarms**: it wakes those that are due, in the order in which they were set. -/
theorem tick_rings (hs : Sound c) (h : OnClock c A) (pending : Bool) :
    taskTickWakes c.countTick.getTick c.countTick c.countTick.timeoutList = A.due (A.now + 1) ∧
    ∀ t ∈ A.due (A.now + 1), ((c.tickHandler pending).tasks t).state = .ready ∧
      ((c.tickHandler pending).tasks t).waitResult = if (c.tasks t).state = .delayed then Code.ok else Code.timeout := by
  obtain ⟨hlist, hnow, -, htask⟩ := countTick_keeps c
  rw [h.now] at hnow
  have hdue : ∀ t ∈ c.timeoutList,
      tickReached (A.now + 1) (c.countTick.tasks t).wakeTick = true ↔ (c.tasks t).wakeTick = A.now + 1 := by
    intro t ht
    obtain ⟨h₁, h₂⟩ := h.near _ (h.mem_pending ht)
    rw [(htask t).1]
    exact tickReached_iff h₁ h₂
  have hsorted : c.timeoutList.Pairwise fun t u => tickReached (A.now + 1) (c.countTick.tasks u).wakeTick = true →
      tickReached (A.now + 1) (c.countTick.tasks t).wakeTick = true := by
    refine h.ordered.imp_of_mem fun {t u} ht hu htu hd => ?_
    rw [hdue u hu] at hd
    rw [hdue t ht, ← toNat_sub_eq_one]
    have h₁ := h.remaining_near ht
    have h₂ := toNat_sub_eq_one.mpr hd
    unfold remaining at htu h₁
    rw [h.now] at htu h₁
    omega
  have hwait : ∀ t ∈ c.timeoutList, Waiting c.countTick t := by
    intro t ht
    unfold Timed.Waiting
    rw [(htask t).2.1]
    exact (waiting_iff hs).mpr (hs.wf.timed t ht)
  obtain ⟨hrung, hwakes⟩ := taskTickLoop_rung hs.wf.timedNodup hwait hsorted
  have hfilter : (c.timeoutList.filter fun t => tickReached (A.now + 1) (c.countTick.tasks t).wakeTick) =
      A.due (A.now + 1) := by
    rw [← h.ties]
    refine List.filter_congr fun t ht => ?_
    rw [Bool.eq_iff_iff, decide_eq_true_eq]
    exact hdue t ht
  rw [hnow, hlist, hwakes]
  refine ⟨hfilter, fun t ht => ?_⟩
  rw [← hfilter, List.mem_filter] at ht
  obtain ⟨h₁, h₂⟩ := hrung.ready t ht.1 ht.2
  rw [(htask t).2.1] at h₂
  unfold tickHandler taskTick
  dsimp only
  rw [hnow, hlist]
  have hs₂ : Sound (taskTickLoop (A.now + 1) c.countTick c.timeoutList) := by
    obtain ⟨ops, hp⟩ := taskTickLoop_path hs.countTick (A.now + 1) c.timeoutList _ fun _ => rfl
    exact path_mild hs.countTick hp
  have hnot : ¬ Waiting (taskTickLoop (A.now + 1) c.countTick c.timeoutList) t := by
    rintro (e | e)
    · cases h₁.symm.trans e
    · cases h₁.symm.trans e
  obtain ⟨h₃, h₄⟩ := tick_end hs₂.wf.isFiled (fun t => (waiting_iff hs₂).symm) hnot pending
  exact ⟨h₃.trans h₁, h₄.trans h₂⟩

omit cfg in
/-- A tick that has rung those that were due, and the end of some waits. -/
theorem run_tick {gone : List TaskId} (hdue : ∀ t ∈ A.due (A.now + 1), t ∈ gone) :
    run Alarms.next A (.tick (A.due (A.now + 1)) :: gone.map .clear) =
      some { now := A.now + 1, pending := A.pending.filter fun p => p.1 ∉ gone } := by
  rw [run, Alarms.next, if_pos rfl, Option.bind_some, run_clear]
  dsimp only
  rw [List.filter_filter]
  congr 2
  refine List.filter_congr fun p hp => ?_
  rw [Bool.eq_iff_iff, Bool.and_eq_true, decide_eq_true_eq, decide_eq_true_eq]
  refine and_iff_left_of_imp fun hg e => hg (hdue p.1 (List.mem_map_of_mem (List.mem_filter.mpr ⟨hp, ?_⟩)))
  exact decide_eq_true e

/-- **One step**: the alarms accept what is seen of it, and agree with the state again. -/
theorem onClock_step (hs : Sound s.core) (hs' : Sound s'.core) (h : OnClock s.core A) (hstep : s.step a = some s') :
    ∃ A', run Alarms.next A (s.timeoutEvents a) = some A' ∧ OnClock s'.core A' := by
  by_cases ha : ∃ pending, a = .isr (.tick pending)
  · obtain ⟨pending, rfl⟩ := ha
    obtain ⟨hcore, hw, hto, hsub, -, hwake⟩ := tick_times hs hstep
    obtain ⟨hlist, hnow, hnext, htask⟩ := countTick_keeps s.core
    obtain ⟨hrung, hready⟩ := tick_rings hs h pending
    rw [← hcore] at hready
    rw [hlist] at hsub
    have hnow' : s'.core.getTick = A.now + 1 := by rw [getTick, hto, ← getTick, hnow, h.now]
    have hdue : ∀ t ∈ A.due (A.now + 1), t ∈ waitsEnded s.core s'.core := by
      intro t ht
      rw [mem_waitsEnded hs]
      have hm : t ∈ s.core.timeoutList := by
        rw [← h.ties] at ht
        exact List.mem_of_mem_filter ht
      refine ⟨(waiting_iff hs).mpr (hs.wf.timed t hm), ?_⟩
      rintro (e | e)
      · cases (hready t ht).1.symm.trans e
      · cases (hready t ht).1.symm.trans e
    have hevents : s.timeoutEvents (.isr (.tick pending)) =
        .tick (A.due (A.now + 1)) :: (waitsEnded s.core s'.core).map .clear := by
      unfold timeoutEvents
      rw [hstep]
      dsimp only
      rw [hrung, waitsBegun_eq_nil hs hs' hw]
      simp
    rw [hevents, run_tick hdue]
    refine ⟨_, rfl, ?_⟩
    rw [← hnow']
    refine h.thin (timeoutList_eq hs hs' hsub hw) (fun t ht => ?_) 1 fun p hp hg => ?_
    · have hlive : s.core.Live t := by
        intro e
        rcases (hs.wf.waiting t).mp (hs.wf.timed t ht) with hw | hw
        · cases e.symm.trans hw
        · cases e.symm.trans hw
      rw [hwake t (hnext ▸ hs.wf.fresh t hlive), (htask t).1]
    · have hne : p.2 ≠ A.now + 1 := by
        intro e
        refine hg (hdue p.1 (List.mem_map_of_mem (List.mem_filter.mpr ⟨hp, ?_⟩)))
        exact decide_eq_true e
      have h₁ := h.near p hp
      have h₂ : (p.2 - A.now).toNat ≠ 1 := fun e => hne (toNat_sub_eq_one.mp e)
      have h₃ : p.2 ≠ A.now := by
        intro e
        rw [e] at h₁
        simp at h₁
      rw [hnow', toNat_sub_add_one h₃]
      omega
  · have hno : ∀ pending, a ≠ .isr (.tick pending) := fun pending e => ha ⟨pending, e⟩
    have hevents : s.timeoutEvents a =
        (waitsEnded s.core s'.core).map .clear ++ (waitsBegun s.core s'.core).flatMap (alarmSet s s') := by
      unfold timeoutEvents
      rw [hstep]
      dsimp only
      split
      · rename_i pending
        exact absurd rfl (hno pending)
      · rfl
    rw [hevents]
    rcases step_times hs hno hstep with ⟨⟨hto, hsub, -, hwake⟩, hw⟩ | ⟨t, w, f, hb, hcore, hf, hms⟩
    · rw [waitsBegun_eq_nil hs hs' hw, List.flatMap_nil, List.append_nil, run_clear]
      refine ⟨_, rfl, ?_⟩
      have hnow' : s'.core.getTick = A.now := by rw [getTick, hto, ← getTick, h.now]
      have hthin := h.thin (timeoutList_eq hs hs' hsub hw) (fun t ht => ?_) 0 fun p hp hg => ?_
      · rwa [hnow'] at hthin
      · refine hwake t (hs.wf.fresh t fun e => ?_)
        rcases (hs.wf.waiting t).mp (hs.wf.timed t ht) with hw | hw
        · cases e.symm.trans hw
        · cases e.symm.trans hw
      · rw [hnow']
        exact ⟨(h.near p hp).1, rfl⟩
    · obtain ⟨hbegun, hended⟩ := waits_of_block hs hb (hcore ▸ hs')
      obtain ⟨hto, hother, hself, hlist⟩ := blockTask_times s.core t w f.timeoutMs
      rw [hcore, hbegun, hended, List.map_nil, List.nil_append, List.flatMap_singleton, alarmSet, hf]
      dsimp only
      have hnow : (s.core.blockTask t w f.timeoutMs).getTick = s.core.getTick := by rw [getTick, hto, getTick]
      have hout : t ∉ s.core.timeoutList :=
        hs.wf.not_mem_timeoutList (hs.wf.wait_eq_none_of_isReady (.inr hb.state))
      by_cases hfin : msToTicks f.timeoutMs = forever
      · rw [if_pos hfin] at hlist ⊢
        exact ⟨A, rfl, h.same hnow hlist fun u hu => hother u fun e => hout (e ▸ hu)⟩
      · rw [if_neg hfin] at hlist ⊢
        rw [run, Alarms.next, if_neg (by rwa [h.mem_armed])]
        refine ⟨_, rfl, h.insert hout hnow hother (hself hfin) ?_ hlist⟩
        rw [h.now, show A.now + msToTicks f.timeoutMs - A.now = msToTicks f.timeoutMs by bv_omega]
        exact msToTicks_near hms fun e => hfin (msToTicks_eq_forever.mpr e)

/-- **Timeouts end in time.** From any tick on, in every run with a clean start, the alarms accept all that is seen
of timeouts, and every state reached agrees with them. -/
theorem punctual_of_path {ticks : BitVec 64} (hp : Path (Next step) StartsClean (initAt ticks) as s) :
    ∃ A, run Alarms.next (.idle (initAt ticks).core.getTick) (trace step timeoutEvents (initAt ticks) as) = some A ∧
      Punctual s A := by
  obtain ⟨A, hrun, hs, hf, hc⟩ := hp.simulates
    (R := fun s A => Sound s.core ∧ Framed s ∧ OnClock s.core A)
    (fun s a s' A ⟨hs, hf, hc⟩ hclean hstep => by
      have hs' := sound_step hs hclean hstep
      obtain ⟨A', h₁, h₂⟩ := onClock_step hs hs' hc hstep
      exact ⟨A', h₁, hs', framed_step hf hs hstep, h₂⟩)
    (A := .idle (initAt ticks).core.getTick)
    ⟨sound_init.flags, fun _ ht => absurd rfl ht, .idle rfl⟩
  refine ⟨A, hrun, fun t => ?_, hc, fun pending s' hstep => ?_⟩
  · rw [hc.mem_armed]
    constructor
    · intro ht
      have hw := hs.wf.timed t ht
      obtain ⟨f, h₁, h₂⟩ := hf t hw
      exact ⟨(waiting_iff hs).mpr hw, f, h₁, h₂.mp ht⟩
    · rintro ⟨hw, f, h₁, h₂⟩
      obtain ⟨f', h₁', h₂'⟩ := hf t ((waiting_iff hs).mp hw)
      rw [h₁] at h₁'
      cases h₁'
      exact h₂'.mpr h₂
  · rw [(tick_times hs hstep).1]
    exact tick_rings hs hc pending

end Sys

end Aixos

namespace Aixos.Sys

open Transition Aixos.Core

attribute [local instance] Config.default

/-- From the last tick but one before the counter wraps, a task waits for a semaphore and another sleeps, both for
three ticks. -/
def acrossWrap : List Act := boot [{ stackSize := 512, priority := 5 }, { stackSize := 512, priority := 7 }] true ++
  [.call .timerServiceWait, .switch, .call (.semCreate 0), .call (.semWait ⟨0, 1⟩ 3), .switch, .call (.taskSleep 3),
    .switch, .isrEnter, .isr (.tick false), .isr (.tick false), .isr (.tick false)]

theorem acrossWrap_punctual : ∃ s, run step (initAt (2 ^ 32 - 2)) acrossWrap = some s ∧
    (s.core.tasks 0).waitResult = Code.ok ∧ (s.core.tasks 1).waitResult = Code.timeout ∧ s.core.getTick = 1 ∧
    ∃ A, run Alarms.next (.idle (initAt (2 ^ 32 - 2)).core.getTick)
      (trace step timeoutEvents (initAt (2 ^ 32 - 2)) acrossWrap) = some A ∧ Punctual s A := by
  obtain ⟨s, h, hp⟩ := exists_run step (initAt (2 ^ 32 - 2)) acrossWrap (fun s => decide (
    (s.core.tasks 0).waitResult = Code.ok ∧ (s.core.tasks 1).waitResult = Code.timeout ∧ s.core.getTick = 1))
    (by decide +kernel)
  obtain ⟨h₁, h₂, h₃⟩ := of_decide_eq_true hp
  have hs₀ : Sound (initAt (2 ^ 32 - 2)).core := sound_init.flags
  exact ⟨s, h, h₁, h₂, h₃, punctual_of_path (path_of_boot_from hs₀ startOk_init h).1⟩

/-- A task that has been queued twice sleeps for ten ticks, and the processor switches. -/
def sleepTwice : List Act := resumedEarly ++ [.call .timerServiceWait, .switch, .call (.taskSleep 10), .switch]

/-- The task runs on at once, and ten ticks later the tick finds it in the timeout list. -/
theorem sleepTwice_early : (∃ s, run step (initAt 0) sleepTwice = some s ∧ s.runningTask = some 0 ∧
      s.core.getTick = 0 ∧ (s.core.tasks 0).wakeTick = 10 ∧ s.core.timeoutList = [0]) ∧
    run Alarms.next (.idle (initAt 0).core.getTick) (trace step timeoutEvents (initAt 0)
      (sleepTwice ++ .isrEnter :: List.replicate 10 (.isr (.tick false)))) = none := by
  constructor
  · obtain ⟨s, h, hp⟩ := exists_run step (initAt 0) sleepTwice (fun s => decide (s.runningTask = some 0 ∧
      s.core.getTick = 0 ∧ (s.core.tasks 0).wakeTick = 10 ∧ s.core.timeoutList = [0])) (by decide +kernel)
    exact ⟨s, h, of_decide_eq_true hp⟩
  · decide +kernel

end Aixos.Sys
