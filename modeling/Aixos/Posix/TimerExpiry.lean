import Aixos.Posix.TimerLinks

/-!
# POSIX timers do not fire early

A POSIX timer fires when the timer service takes its native timer from the list of those that are pending. Starting a native
timer does not take it out of that list, so one that expires again between being taken and being started again is taken a
second time, before its time.

* `TimerEvent`, `PosixTimers.events` — what is seen of the timers: they are set, they fire, and their functions are called.
* `Schedule` — what may be seen: a timer fires when its deadline has been reached, and its function is called after that.
* `PosixTimers.careful` — the steps that do not go wrong.
* `PosixTimers.Keeps`, `keeps_step` — the native timers of a run of such steps are on time.
* `PosixTimers.never_early` — what is seen of such a run follows the schedule.
-/

namespace Aixos.Posix

open Transition

/-- What is seen of the timers. -/
inductive TimerEvent (ε : Type) where
  /-- Timer `i` is set: it will expire at tick `deadline`, and then every `interval` ticks, unless that is 0. -/
  | arm (i deadline interval : ℕ)
  /-- Timer `i` is stopped or deleted. -/
  | disarm (i : ℕ)
  /-- `posix_timer_expired` goes on at tick `t`, with this `overrun`. -/
  | fire (i t overrun : ℕ)
  /-- The event function is called at tick `t`. -/
  | call (i t : ℕ) (function : ε)
  deriving DecidableEq

/-- What the timers are to do. -/
structure Schedule where
  /-- The next deadline of every timer that is set, and its interval. -/
  armed : ℕ → Option (ℕ × ℕ)
  /-- The timer that has fired last, and the deadline it has fired for, if its function may still be called. -/
  due : Option (ℕ × ℕ)

namespace Schedule

/-- No timer is set. -/
def init : Schedule where
  armed := fun _ => none
  due := none

/-- A timer fires when its deadline has been reached; the next one is an interval later. Its function is called once. -/
def next {ε : Type} (A : Schedule) : TimerEvent ε → Option Schedule
  | .arm i deadline interval => some { A with armed := Function.update A.armed i (some (deadline, interval)) }
  | .disarm i => some { A with armed := Function.update A.armed i none }
  | .fire i t _ =>
    match A.armed i with
    | none => none
    | some (deadline, interval) =>
      if deadline ≤ t then
        some {
          armed := Function.update A.armed i (if interval = 0 then none else some (t + interval, interval))
          due := some (i, deadline) }
      else none
  | .call i t _ =>
    match A.due with
    | none => none
    | some (k, deadline) => if k = i ∧ deadline ≤ t then some { A with due := none } else none

end Schedule

namespace PosixTimers

variable {ε : Type}

/-- The timer that the service has taken and not yet started again. -/
def inFlight (p : PosixTimers ε) : Option ℕ :=
  match p.phase with
  | .taken i => some i
  | .restart i ms _ => if ms ≠ 0 then some i else none
  | _ => none

variable [cfg : Config] [pcfg : PosixTimerConfig]

/-- What is seen of a step. -/
def events (p : PosixTimers ε) : TimerStep ε → List (TimerEvent ε)
  | .settime h flags value =>
    match p.settimeTicks flags value, p.timerFromHandle h with
    | some (ms, ticks, interval), some i =>
      if ms ≠ 0 then [.arm i (p.ticks + ticks.toNat) interval.toNat] else [.disarm i]
    | _, _ => []
  | .delete h =>
    match p.timerFromHandle h with
    | some i => [.disarm i]
    | none => []
  | .serve =>
    match p.phase with
    | .taken i =>
      match p.expired i with
      | some (q, _) => [.fire i p.ticks (q.timers i).overrun]
      | none => []
    | .call i event =>
      match event.function with
      | some f => if event.notify = sigevThread then [.call i p.ticks f] else []
      | none => []
    | _ => []
  | _ => []

variable [ocfg : ObjectConfig]

/-- While the service has a periodic timer in flight, its native timer does not expire, and the timer is not set; and no timer
is set to an interval that is too long to be started again. -/
def careful (p : PosixTimers ε) : TimerStep ε → Bool
  | .settime h flags value =>
    match p.settimeTicks flags value, p.timerFromHandle h with
    | some (ms, _, interval), some i => ms = 0 ∨ (p.inFlight ≠ some i ∧ ticksToMs interval ≠ forever)
    | _, _ => true
  | .tick =>
    match p.inFlight with
    | none => true
    | some i =>
      match p.nativeOf i with
      | none => true
      | some j => !(p.timers i).active ∨ (p.timers i).intervalTicks = 0 ∨ !(p.natives.timers j).active ∨
          !tickReached (.ofNat 32 (p.ticks + 1)) (p.natives.timers j).deadline
  | _ => true

/-! ### Times -/

omit cfg pcfg ocfg in
theorem ofNat_add (a : ℕ) (w : Word) : (BitVec.ofNat 32 a : Word) + w = .ofNat 32 (a + w.toNat) := by
  rw [BitVec.ofNat_add, BitVec.ofNat_toNat, BitVec.setWidth_eq]

omit cfg pcfg ocfg in
/-- A deadline that is found reached has been reached, if it is not too far away. -/
theorem le_of_tickReached {t n : ℕ} (h : tickReached (.ofNat 32 t) (.ofNat 32 n) = true) (hn : n ≤ t + 2 ^ 31) : n ≤ t := by
  by_contra hlt
  rw [tickReached, BitVec.msb_eq_decide, Bool.not_eq_true', decide_eq_false_iff_not] at h
  refine h ?_
  rw [BitVec.toNat_sub, BitVec.toNat_ofNat, BitVec.toNat_ofNat]
  omega

omit pcfg ocfg in
/-- The milliseconds for which a periodic timer is started again last an interval, unless there are too many. -/
theorem ticksToMs_round {n : Word} (h₀ : n ≠ 0) (hn : n.toNat ≤ timeoutMaxTicks) (hf : ticksToMs n ≠ forever) :
    ticksToMs n ≠ 0 ∧ n.toNat ≤ (msToTicks (ticksToMs n)).toNat := by
  have hpos : 0 < n.toNat := Nat.pos_of_ne_zero fun e => h₀ (BitVec.eq_of_toNat_eq e)
  unfold ticksToMs at hf ⊢
  dsimp only at hf ⊢
  split at hf
  · exact absurd rfl hf
  · rename_i hle
    rw [if_neg hle]
    have hlt : (n.toNat * 1000 + cfg.systickHz - 1) / cfg.systickHz < 2 ^ 32 - 1 := by
      refine lt_of_le_of_ne (Nat.le_of_not_lt hle) fun e => hf ?_
      rw [e]
      rfl
    obtain ⟨hm, hround, -⟩ := msToTicks_round hpos hn rfl hlt
    refine ⟨fun e => hm ?_, hround⟩
    have := congrArg BitVec.toNat e
    rw [BitVec.toNat_ofNat, Nat.mod_eq_of_lt (by omega)] at this
    exact this

/-! ### The invariant -/

/-- The native timer `j` of a timer with deadline `d`: if it is pending, the deadline has been reached; if it is not, it does
not expire before. -/
def Rests (p : PosixTimers ε) (j d : ℕ) : Prop :=
  if (p.natives.timers j).pending then d ≤ p.ticks
  else (p.natives.timers j).active = true →
    ∃ m, (p.natives.timers j).deadline = .ofNat 32 m ∧ d ≤ m ∧ m ≤ p.ticks + 2 ^ 31

/-- The native timer `j` of timer `i`, wherever the service is. -/
inductive OnTime (p : PosixTimers ε) (i j d : ℕ) (n : Word) : Prop where
  /-- The service has taken it: the deadline has been reached. -/
  | taken : p.phase = .taken i → d ≤ p.ticks → (n ≠ 0 → (p.natives.timers j).pending = false) → OnTime p i j d n
  /-- The service is going to start it again, for an interval. -/
  | restart (event : Sigevent ε) : p.phase = .restart i (ticksToMs n) event → n ≠ 0 → d ≤ p.ticks + n.toNat →
      (p.natives.timers j).pending = false → OnTime p i j d n
  /-- It is not in flight. -/
  | rests : p.inFlight ≠ some i → Rests p j d → OnTime p i j d n

/-- Timer `i` is set, to deadline `d` and interval `n`. -/
structure Armed (p : PosixTimers ε) (i d n : ℕ) : Prop where
  deadline : (p.timers i).nextDeadline = .ofNat 32 d
  interval : (p.timers i).intervalTicks.toNat = n
  le : n ≤ timeoutMaxTicks
  finite : ticksToMs (p.timers i).intervalTicks ≠ forever
  onTime : ∀ j, p.nativeOf i = some j → OnTime p i j d (p.timers i).intervalTicks

/-- The timers follow the schedule. -/
structure Keeps (p : PosixTimers ε) (A : Schedule) : Prop where
  linked : Linked p
  idle : ∀ i, (p.timers i).active = false → A.armed i = none
  armed : ∀ i, (p.timers i).active = true → ∃ d n, A.armed i = some (d, n) ∧ Armed p i d n
  due : ∀ i, (∃ ms event, p.phase = .restart i ms event) ∨ (∃ event, p.phase = .call i event) →
    ∃ d, A.due = some (i, d) ∧ d ≤ p.ticks

omit pcfg in
theorem keeps_init : Keeps (init : PosixTimers ε) .init where
  linked := linked_init
  idle := fun _ _ => rfl
  armed := by simp [init]
  due := by simp [init]

variable {p q : PosixTimers ε} {A : Schedule} {i j d n : ℕ}

omit cfg pcfg in
/-- A timer that keeps its handle keeps its native timer. -/
theorem Linked.nativeOf_eq (hp : Linked p) (hq : Linked q) (hu : (p.timers i).used = true)
    (hu' : (q.timers i).used = true) (ht : (q.timers i).native = (p.timers i).native) : q.nativeOf i = p.nativeOf i := by
  obtain ⟨j, hj, -⟩ := hp.native i hu
  obtain ⟨k, hk, -⟩ := hq.native i hu'
  rw [hj, hk]
  obtain ⟨x, hx, rfl, -⟩ := TimerPool.timerFromHandle_eq_some.mp hj
  obtain ⟨y, hy, rfl, -⟩ := TimerPool.timerFromHandle_eq_some.mp hk
  rw [ht, hx] at hy
  cases hy
  rfl

omit pcfg in
/-- A timer that does not change, with a native timer that does not change. -/
theorem Armed.frame (h : Armed p i d n) (ht : q.timers i = p.timers i) (hn : q.nativeOf i = p.nativeOf i)
    (hj : ∀ j, p.nativeOf i = some j → q.natives.timers j = p.natives.timers j) (hticks : q.ticks = p.ticks)
    (hphase : q.phase = p.phase) : Armed q i d n := by
  refine ⟨by rw [ht]; exact h.deadline, by rw [ht]; exact h.interval, h.le, by rw [ht]; exact h.finite, fun j hj' => ?_⟩
  rw [hn] at hj'
  rw [ht]
  have hfl : q.inFlight = p.inFlight := by
    unfold inFlight
    rw [hphase]
  cases h.onTime j hj' with
  | taken h₁ h₂ h₃ => exact .taken (hphase.trans h₁) (by rw [hticks]; exact h₂) (by rw [hj j hj']; exact h₃)
  | restart event h₁ h₂ h₃ h₄ =>
    exact .restart event (hphase.trans h₁) h₂ (by rw [hticks]; exact h₃) (by rw [hj j hj']; exact h₄)
  | rests h₁ h₂ =>
    refine .rests (by rw [hfl]; exact h₁) ?_
    unfold Rests at h₂ ⊢
    rw [hj j hj', hticks]
    exact h₂

omit pcfg in
/-- A timer that is not in flight rests. -/
theorem Armed.rests (h : Armed p i d n) (hf : p.inFlight ≠ some i) (hj : p.nativeOf i = some j) : Rests p j d := by
  cases h.onTime j hj with
  | taken h₁ =>
    refine absurd ?_ hf
    unfold inFlight
    rw [h₁]
  | restart event h₁ h₂ =>
    refine absurd ?_ hf
    unfold inFlight
    rw [h₁]
    exact if_pos (ticksToMs_round h₂ (by rw [h.interval]; exact h.le) h.finite).1
  | rests _ h₂ => exact h₂

omit pcfg in
/-- The service goes on, and does nothing to a timer that is not in flight. -/
theorem Armed.moved (h : Armed p i d n) (hf : p.inFlight ≠ some i) (hf' : q.inFlight ≠ some i)
    (ht : q.timers i = p.timers i) (hn : q.nativeOf i = p.nativeOf i)
    (hj : ∀ j, p.nativeOf i = some j → q.natives.timers j = p.natives.timers j) (hticks : q.ticks = p.ticks) :
    Armed q i d n := by
  refine ⟨by rw [ht]; exact h.deadline, by rw [ht]; exact h.interval, h.le, by rw [ht]; exact h.finite, fun j hj' => ?_⟩
  rw [hn] at hj'
  refine .rests hf' ?_
  have := h.rests hf hj'
  unfold Rests at this ⊢
  rw [hj j hj', hticks]
  exact this

namespace Keeps

variable {A' : Schedule}

omit pcfg in
/-- A function that a task calls: a timer stays as it is, is not set, or is set anew. -/
theorem called (h : Keeps p A) (hl : Linked q) (hticks : q.ticks = p.ticks) (hphase : q.phase = p.phase)
    (hdue : A'.due = A.due) (hi : ∀ i, (q.timers i = p.timers i ∧ A'.armed i = A.armed i ∧
      ∀ j, (p.timers i).used = true → p.nativeOf i = some j → q.natives.timers j = p.natives.timers j) ∨
      ((q.timers i).active = false ∧ A'.armed i = none) ∨
      (q.timers i).active = true ∧ ∃ d n, A'.armed i = some (d, n) ∧ Armed q i d n) : Keeps q A' where
  linked := hl
  idle i ha := by
    rcases hi i with ⟨ht, hA, -⟩ | ⟨-, hA⟩ | ⟨ha', -⟩
    · rw [hA]
      exact h.idle i (by rw [← ht]; exact ha)
    · exact hA
    · rw [ha] at ha'
      cases ha'
  armed i ha := by
    rcases hi i with ⟨ht, hA, hj⟩ | ⟨ha', -⟩ | ⟨-, hd⟩
    · rw [ht] at ha
      have hu := h.linked.active i ha
      obtain ⟨d, n, hd, har⟩ := h.armed i ha
      exact ⟨d, n, hA.trans hd, har.frame ht (h.linked.nativeOf_eq hl hu (by rw [ht]; exact hu) (by rw [ht])) (fun j => hj j hu) hticks hphase⟩
    · rw [ha] at ha'
      cases ha'
    · exact hd
  due i hi := by
    rw [hphase] at hi
    rw [hdue, hticks]
    exact h.due i hi

theorem create (h : Keeps p A) (clockId : ℤ) (event : Option (Sigevent ε)) (handle : Bool) :
    Keeps (p.create clockId event handle).1 A := by
  have hl : Linked (p.create clockId event handle).1 := linked_step h.linked (a := .create clockId event handle) rfl
  rcases create_cases p clockId event handle with ⟨q, e, hc, hs⟩ | ⟨q, k, hd, hc, hs⟩ <;> rw [hc] at hl ⊢
  · refine h.called hl hs.ticks hs.phase rfl fun i => ?_
    rcases hs.timers i with e | ⟨hu, -, ha, -, -⟩
    · exact .inl ⟨e, rfl, fun j _ _ => by rw [hs.natives]⟩
    · refine .inr (.inl ⟨ha, h.idle i ?_⟩)
      by_contra hne
      rw [h.linked.active i (Bool.not_eq_false _ ▸ hne)] at hu
      cases hu
  · refine h.called hl hs.ticks hs.phase rfl fun i => ?_
    by_cases hik : i = k
    · subst hik
      refine .inr (.inl ⟨hs.inactive, h.idle i ?_⟩)
      by_contra hne
      have := hs.free
      rw [h.linked.active i (Bool.not_eq_false _ ▸ hne)] at this
      cases this
    · refine .inl ⟨hs.other i hik, rfl, fun j hu hj => ?_⟩
      obtain ⟨x, type, hn, -⟩ := hs.native
      obtain ⟨hfree, -, ht, -⟩ := TimerPool.timerCreate_eq hn
      have hne : j ≠ x.index := by
        rintro rfl
        rw [TimerPool.used_of_handle hj] at hfree
        cases hfree
      rw [ht, Function.update_of_ne hne]

theorem delete (h : Keeps p A) (hd : BitVec 32) :
    ∃ A', run Schedule.next A (p.events (.delete hd)) = some A' ∧ Keeps (p.delete hd).1 A' := by
  have hl : Linked (p.delete hd).1 := h.linked.delete hd
  cases hi : p.timerFromHandle hd with
  | none =>
    refine ⟨A, by simp [events, hi, run], ?_⟩
    rw [show (p.delete hd) = (p, Errno.inval) by simp [PosixTimers.delete, hi]]
    exact h
  | some k =>
    refine ⟨{ A with armed := Function.update A.armed k none }, by simp [events, hi, run, Schedule.next], ?_⟩
    obtain ⟨j, natives, hj, -, hs, ht, e⟩ := h.linked.delete_eq hi
    rw [e] at hl ⊢
    refine h.called hl rfl rfl rfl fun i => ?_
    by_cases hik : i = k
    · subst hik
      exact .inr (.inl ⟨by simp [setTimer], by simp⟩)
    · refine .inl ⟨by simp [setTimer, hik], by simp [hik], fun j' hu hj' => ?_⟩
      have hne : j' ≠ j := by
        rintro rfl
        exact hik (h.linked.nativeOf_inj hu (timerFromHandle_eq_some.mp hi).2.2.2.1 hj' hj)
      show natives.timers j' = _
      rw [ht, Function.update_of_ne hne]

theorem settime (h : Keeps p A) {hd : BitVec 32} {flags : ℤ} {value : Option Itimerspec}
    (hc : p.careful (.settime hd flags value) = true) :
    ∃ A', run Schedule.next A (p.events (.settime hd flags value)) = some A' ∧
      Keeps (p.settime hd flags value).1 A' := by
  have hl : Linked (p.settime hd flags value).1 := h.linked.settime hd flags value
  cases ht : p.settimeTicks flags value with
  | none =>
    refine ⟨A, by simp [events, ht, run], ?_⟩
    rw [settime_inval (.inl ht)]
    exact h
  | some x =>
    cases hi : p.timerFromHandle hd with
    | none =>
      refine ⟨A, by simp [events, hi, run], ?_⟩
      rw [settime_inval (.inr hi)]
      exact h
    | some k =>
      obtain ⟨ms, ticks, interval⟩ := x
      obtain ⟨rfl, hf, hn⟩ := settimeTicks_eq_some ht
      have hu := (timerFromHandle_eq_some.mp hi).2.2.2.1
      -- the native timers of the others stay
      have hother : ∀ {j : ℕ} {t : Timer ℕ} {natives : TimerPool ℕ}, p.nativeOf k = some j →
          natives.timers = Function.update p.natives.timers j t → ∀ i, i ≠ k → ∀ j', (p.timers i).used = true →
          p.nativeOf i = some j' → natives.timers j' = p.natives.timers j' := by
        intro j t natives hj htm i hik j' hu' hj'
        have hne : j' ≠ j := by
          rintro rfl
          exact hik (h.linked.nativeOf_inj hu' hu hj' hj)
        rw [htm, Function.update_of_ne hne]
      by_cases h₀ : ms = 0
      · subst h₀
        refine ⟨{ A with armed := Function.update A.armed k none }, by simp [events, ht, hi, run, Schedule.next], ?_⟩
        obtain ⟨j, natives, hj, -, -, htm, e⟩ := h.linked.settime_disarm ht hi
        rw [e] at hl ⊢
        refine h.called hl rfl rfl rfl fun i => ?_
        by_cases hik : i = k
        · subst hik
          exact .inr (.inl ⟨by simp [setTimer], by simp⟩)
        · exact .inl ⟨by simp [setTimer, hik], by simp [hik], hother hj htm i hik⟩
      · refine ⟨{ A with armed := Function.update A.armed k (some (p.ticks + (msToTicks ms).toNat, interval.toNat)) },
          by simp only [events, ht, hi]; rw [if_pos h₀]; rfl, ?_⟩
        simp only [careful, ht, hi, decide_eq_true_eq, h₀, false_or] at hc
        obtain ⟨j, natives, hj, -, -, htm, e⟩ := h.linked.settime_arm ht h₀ hi
        rw [e] at hl ⊢
        set q := { p.setTimer k _ with natives } with hq
        have hself : q.timers k = { p.timers k with
            active := true, intervalTicks := interval, overrun := 0, nextDeadline := p.getTick + msToTicks ms } := by
          simp [hq, setTimer]
        refine h.called hl rfl rfl rfl fun i => ?_
        by_cases hik : i = k
        · subst hik
          refine .inr (.inr ⟨by rw [hself], _, _, Function.update_self .., ?_⟩)
          refine ⟨by rw [hself]; exact ofNat_add .., by rw [hself], hn, by rw [hself]; exact hc.2, fun j' hj' => ?_⟩
          rw [h.linked.nativeOf_eq hl hu (by rw [hself]; exact hu) (by rw [hself]), hj] at hj'
          cases hj'
          refine .rests hc.1 ?_
          unfold Rests
          show if (natives.timers j).pending then _ else _
          rw [htm, Function.update_self]
          refine fun _ => ⟨p.ticks + (msToTicks ms).toNat, ofNat_add .., le_rfl, ?_⟩
          have := msToTicks_le (hf h₀)
          unfold timeoutMaxTicks at this
          show _ ≤ p.ticks + 2 ^ 31
          omega
        · exact .inl ⟨by simp [hq, setTimer, hik], by simp [hik], hother hj htm i hik⟩

theorem tick (h : Keeps p A) (hc : p.careful .tick = true) (hq : p.step .tick = some q) : Keeps q A := by
  have hl := linked_step h.linked hq
  cases hq
  have ht := h.linked.good.ticked (.ofNat 32 (p.ticks + 1))
  refine ⟨hl, h.idle, fun i ha => ?_, fun i hi => ?_⟩
  · have hu := h.linked.active i ha
    obtain ⟨d, n, hd, har⟩ := h.armed i ha
    refine ⟨d, n, hd, har.deadline, har.interval, har.le, har.finite, fun j hj => ?_⟩
    rw [h.linked.nativeOf_eq hl hu hu rfl] at hj
    -- a native timer that is in flight does not expire
    have hflight : p.inFlight = some i → (p.timers i).intervalTicks ≠ 0 → (p.natives.timers j).pending = false →
        ((p.natives.timerTick (.ofNat 32 (p.ticks + 1))).timers j).pending = false := by
      intro hf hn hp
      simp only [careful, hf, hj, decide_eq_true_eq] at hc
      rcases ht.other j with e | ⟨hact, hr, -⟩
      · rw [e]
        exact hp
      · have ha : (p.timers i).active = true := ha
        have hn : (p.timers i).intervalTicks ≠ 0#32 := hn
        simp [ha, hn, hact, hr] at hc
    cases har.onTime j hj with
    | taken h₁ h₂ h₃ =>
      have hf : p.inFlight = some i := by
        unfold inFlight
        rw [h₁]
      exact .taken h₁ (Nat.le_succ_of_le h₂) fun hn => hflight hf hn (h₃ hn)
    | restart event h₁ h₂ h₃ h₄ =>
      have hn := (ticksToMs_round h₂ (by rw [har.interval]; exact har.le) har.finite).1
      have hf : p.inFlight = some i := by
        unfold inFlight
        rw [h₁]
        exact if_pos hn
      exact .restart event h₁ h₂ (h₃.trans (Nat.add_le_add_right (Nat.le_succ _) _)) (hflight hf h₂ h₄)
    | rests h₁ h₂ =>
      refine .rests h₁ ?_
      unfold Rests at h₂ ⊢
      show if ((p.natives.timerTick _).timers j).pending then d ≤ p.ticks + 1 else _
      split at h₂
      · rename_i hp
        rw [if_pos (ht.pending j hp)]
        omega
      · rename_i hp
        rcases ht.other j with e | ⟨hact, hr, hp'⟩
        · rw [e, if_neg hp]
          intro hact
          obtain ⟨m, hm, hdm, hle⟩ := h₂ hact
          exact ⟨m, hm, hdm, hle.trans (Nat.add_le_add_right (Nat.le_succ _) _)⟩
        · rw [if_pos hp']
          obtain ⟨m, hm, hdm, hle⟩ := h₂ hact
          rw [hm] at hr
          exact hdm.trans (le_of_tickReached hr (hle.trans (Nat.add_le_add_right (Nat.le_succ _) _)))
  · obtain ⟨d, hd, hle⟩ := h.due i hi
    exact ⟨d, hd, Nat.le_succ_of_le hle⟩

omit pcfg in
theorem take (h : Keeps p A) (hp : p.phase = .idle) (hq : p.serve = some q) : Keeps q A := by
  have hl := h.linked.serve hq
  obtain ⟨-, k, j₀, ht⟩ := h.linked.take hp hq
  have hfp : p.inFlight = none := by
    unfold inFlight
    rw [hp]
  have hfq : q.inFlight = some k := by
    unfold inFlight
    rw [ht.phase]
  refine ⟨hl, fun i ha => h.idle i (by rw [← ht.timers]; exact ha), fun i ha => ?_, fun i hi => ?_⟩
  · rw [ht.timers] at ha
    have hu := h.linked.active i ha
    have hof := h.linked.nativeOf_eq hl hu (by rw [ht.timers]; exact hu) (by rw [ht.timers])
    obtain ⟨d, n, hd, har⟩ := h.armed i ha
    refine ⟨d, n, hd, ?_⟩
    by_cases hik : i = k
    · subst hik
      have hr := har.rests (by rw [hfp]; exact (Option.some_ne_none i).symm) ht.native
      unfold Rests at hr
      rw [if_pos ht.pending] at hr
      refine ⟨by rw [ht.timers]; exact har.deadline, by rw [ht.timers]; exact har.interval, har.le,
        by rw [ht.timers]; exact har.finite, fun j hj => ?_⟩
      rw [hof, ht.native] at hj
      cases hj
      exact .taken ht.phase (by rw [ht.ticks]; exact hr) fun _ => by rw [ht.natives, Function.update_self]
    · refine har.moved (by rw [hfp]; exact (Option.some_ne_none i).symm) (by rw [hfq]; simpa using Ne.symm hik)
        (by rw [ht.timers]) hof (fun j hj => ?_) ht.ticks
      have hne : j ≠ j₀ := by
        rintro rfl
        exact hik (h.linked.nativeOf_inj hu ht.used hj ht.native)
      rw [ht.natives, Function.update_of_ne hne]
  · simp [ht.phase] at hi

/-- The critical section of `posix_timer_expired`: if it goes on, the deadline has been reached. -/
theorem expire (h : Keeps p A) {k : ℕ} (hp : p.phase = .taken k) (hq : p.serve = some q) :
    ∃ A', run Schedule.next A (p.events .serve) = some A' ∧ Keeps q A' := by
  have hl := h.linked.serve hq
  have hfp : p.inFlight = some k := by
    unfold inFlight
    rw [hp]
  simp only [events, hp]
  rcases serve_taken hp hq with ⟨hk, he, rfl⟩ | ⟨r, ms, event, he, hr, hs⟩ <;> simp only [he]
  · -- the timer is not set
    refine ⟨A, rfl, hl, h.idle, fun i ha => ?_, by simp⟩
    have hu := h.linked.active i ha
    obtain ⟨d, n, hd, har⟩ := h.armed i ha
    have hik : k ≠ i := by
      rintro rfl
      have ha : (p.timers k).active = true := ha
      simp [ha, hu] at hk
    exact ⟨d, n, hd, har.moved (by rw [hfp]; simpa using hik) (by simp [inFlight]) rfl
      (h.linked.nativeOf_eq hl hu hu rfl) (fun _ _ => rfl) rfl⟩
  · obtain ⟨d, n, hd, har⟩ := h.armed k hs.active
    obtain ⟨j, hj, -⟩ := h.linked.native k hs.used
    -- the service has taken the timer, so its deadline has been reached
    obtain ⟨hdt, hpend⟩ : d ≤ p.ticks ∧ ((p.timers k).intervalTicks ≠ 0 → (p.natives.timers j).pending = false) := by
      cases har.onTime j hj with
      | taken _ h₂ h₃ => exact ⟨h₂, h₃⟩
      | restart event h₁ =>
        rw [hp] at h₁
        cases h₁
      | rests h₁ => exact absurd hfp h₁
    refine ⟨{ armed := Function.update A.armed k (if n = 0 then none else some (p.ticks + n, n)), due := some (k, d) },
      by simp [run, Schedule.next, hd, hdt], hl, fun i hi => ?_, fun i hi => ?_, fun i hi => ?_⟩
    · by_cases hik : i = k
      · subst hik
        have ht := hs.timer
        split at ht
        · rw [ht.1] at hi
          cases hs.active.symm.trans hi
        · rename_i hn
          have : n = 0 := by rw [← har.interval, not_not.mp hn]; rfl
          simp [this]
      · rw [hs.other i hik] at hi
        simpa [hik] using h.idle i hi
    · by_cases hik : i = k
      · subst hik
        have ht := hs.timer
        split at ht
        · rename_i hne
          obtain ⟨ht, hms⟩ := ht
          have hn : n ≠ 0 := fun e => hne (BitVec.eq_of_toNat_eq (har.interval.trans e))
          refine ⟨p.ticks + n, n, by simp [hn], ?_⟩
          refine ⟨by rw [ht, ← har.interval]; exact ofNat_add .., by rw [ht]; exact har.interval, har.le,
            by rw [ht]; exact har.finite, fun j' hj' => ?_⟩
          rw [h.linked.nativeOf_eq hl hs.used (by rw [ht]; exact hs.used) (by rw [ht]), hj] at hj'
          cases hj'
          rw [ht]
          exact .restart event (hs.phase.trans (by rw [hms])) hne (by rw [hs.ticks, har.interval])
            (by rw [hs.natives]; exact hpend hne)
        · rw [ht.1] at hi
          cases hi
      · have ht := hs.other i hik
        rw [ht] at hi
        have hu := h.linked.active i hi
        obtain ⟨d', n', hd', har'⟩ := h.armed i hi
        refine ⟨d', n', by simpa [hik] using hd', har'.moved (by rw [hfp]; simpa using Ne.symm hik) ?_ ht
          (h.linked.nativeOf_eq hl hu (by rw [ht]; exact hu) (by rw [ht])) (fun _ _ => by rw [hs.natives]) hs.ticks⟩
        unfold inFlight
        rw [hs.phase]
        dsimp only
        split
        · simpa using Ne.symm hik
        · simp
    · rw [hs.phase] at hi
      obtain ⟨ms', event', e⟩ | ⟨event', e⟩ := hi
      · cases e
        exact ⟨d, rfl, by rw [hs.ticks]; exact hdt⟩
      · cases e

omit pcfg in
/-- The native timer is started again, or stopped. -/
theorem restart (h : Keeps p A) {k : ℕ} {ms : Word} {event : Sigevent ε} (hp : p.phase = .restart k ms event)
    (hq : p.serve = some q) : Keeps q A := by
  have hl := h.linked.serve hq
  obtain ⟨-, hr, hphase⟩ := h.linked.restart hp hq
  have hfq : q.inFlight = none := by
    unfold inFlight
    rw [hphase]
  refine ⟨hl, fun i ha => h.idle i (by rw [← hr.timers]; exact ha), fun i ha => ?_, fun i hi => ?_⟩
  · rw [hr.timers] at ha
    have hu := h.linked.active i ha
    have hof := h.linked.nativeOf_eq hl hu (by rw [hr.timers]; exact hu) (by rw [hr.timers])
    obtain ⟨d, n, hd, har⟩ := h.armed i ha
    refine ⟨d, n, hd, ?_⟩
    by_cases hik : i = k
    · subst hik
      refine ⟨by rw [hr.timers]; exact har.deadline, by rw [hr.timers]; exact har.interval, har.le,
        by rw [hr.timers]; exact har.finite, fun j hj => .rests (by rw [hfq]; exact (Option.some_ne_none i).symm) ?_⟩
      rw [hof] at hj
      obtain ⟨-, hn | hf⟩ | ⟨j', hj', htm⟩ := hr.natives
      · rw [hj] at hn
        cases hn
      · -- an interval that is too long is refused when the timer is set
        cases har.onTime j hj with
        | taken h₁ =>
          rw [hp] at h₁
          cases h₁
        | restart event' h₁ =>
          rw [hp] at h₁
          cases h₁
          exact absurd hf har.finite
        | rests h₁ =>
          refine absurd ?_ h₁
          unfold inFlight
          rw [hp]
          exact if_pos (by rw [hf]; decide)
      · obtain rfl : j = j' := Option.some.inj (hj.symm.trans hj')
        unfold Rests
        rw [htm, Function.update_self]
        by_cases h₀ : ms = 0
        · rw [if_neg (not_not.mpr h₀)]
          exact fun hact => nomatch hact
        · rw [if_pos h₀]
          cases har.onTime j hj with
          | taken h₁ =>
            rw [hp] at h₁
            cases h₁
          | restart event' h₁ h₂ h₃ h₄ =>
            rw [hp] at h₁
            cases h₁
            have hround := (ticksToMs_round h₂ (by rw [har.interval]; exact har.le) har.finite).2
            have hle := msToTicks_le har.finite
            unfold timeoutMaxTicks at hle
            dsimp only
            rw [h₄, if_neg Bool.false_ne_true]
            exact fun _ => ⟨p.ticks + (msToTicks (ticksToMs (p.timers i).intervalTicks)).toNat, ofNat_add .., by omega,
              by rw [hr.ticks]; omega⟩
          | rests h₁ =>
            refine absurd ?_ h₁
            unfold inFlight
            rw [hp]
            exact if_pos h₀
    · refine har.moved ?_ (by rw [hfq]; exact (Option.some_ne_none i).symm) (by rw [hr.timers]) hof (fun j hj => ?_) hr.ticks
      · unfold inFlight
        rw [hp]
        dsimp only
        split
        · simpa using Ne.symm hik
        · simp
      · obtain ⟨htm, -⟩ | ⟨j', hj', htm⟩ := hr.natives
        · rw [htm]
        · have hne : j ≠ j' := by
            rintro rfl
            have huk : (p.timers k).used = true := by
              by_contra hne
              rw [nativeOf, h.linked.unused k (Bool.not_eq_true _ ▸ hne)] at hj'
              cases hj'
            exact hik (h.linked.nativeOf_inj hu huk hj hj')
          rw [htm, Function.update_of_ne hne]
  · rw [hphase] at hi
    rw [hr.ticks]
    obtain ⟨ms', event', e⟩ | ⟨event', e⟩ := hi
    · cases e
    · cases e
      exact h.due k (.inl ⟨ms, event, hp⟩)

/-- The event function is called, for a deadline that has been reached. -/
theorem call (h : Keeps p A) {k : ℕ} {event : Sigevent ε} (hp : p.phase = .call k event) (hq : p.serve = some q) :
    ∃ A', run Schedule.next A (p.events .serve) = some A' ∧ Keeps q A' := by
  have hl := h.linked.serve hq
  simp only [serve, hp] at hq
  cases hq
  have hf : ∀ {i : ℕ} {r : PosixTimers ε}, r.phase = .call k event ∨ r.phase = .idle → r.inFlight ≠ some i := by
    rintro i r (e | e) <;> simp [inFlight, e]
  have hkeeps : ∀ {A'}, A'.armed = A.armed → Keeps { p with phase := .idle } A' := by
    intro A' hA
    refine ⟨hl, fun i ha => by rw [hA]; exact h.idle i ha, fun i ha => ?_, by simp⟩
    have hu := h.linked.active i ha
    obtain ⟨d, n, hd, har⟩ := h.armed i ha
    exact ⟨d, n, by rw [hA]; exact hd, har.moved (hf (.inl hp)) (hf (.inr rfl)) rfl (h.linked.nativeOf_eq hl hu hu rfl)
      (fun _ _ => rfl) rfl⟩
  obtain ⟨d, hd, hle⟩ := h.due k (.inr ⟨event, hp⟩)
  have hcall : ∀ f : ε, run Schedule.next A [.call k p.ticks f] = some { A with due := none } := by
    intro f
    simp [run, Schedule.next, hd, hle]
  simp only [events, hp]
  cases event.function with
  | none => exact ⟨A, rfl, hkeeps rfl⟩
  | some f =>
    dsimp only
    split
    · exact ⟨_, hcall f, hkeeps rfl⟩
    · exact ⟨A, rfl, hkeeps rfl⟩

end Keeps

/-- A careful step follows the schedule. -/
theorem keeps_step {a : TimerStep ε} (h : Keeps p A) (hc : p.careful a = true) (hq : p.step a = some q) :
    ∃ A', run Schedule.next A (p.events a) = some A' ∧ Keeps q A' := by
  cases a with
  | create clockId event handle =>
    cases hq
    exact ⟨A, rfl, h.create clockId event handle⟩
  | delete hd =>
    cases hq
    exact h.delete hd
  | settime hd flags value =>
    cases hq
    exact h.settime hc
  | gettime | getoverrun =>
    cases hq
    exact ⟨A, rfl, h⟩
  | tick => exact ⟨A, rfl, h.tick hc hq⟩
  | serve =>
    cases hp : p.phase with
    | idle => exact ⟨A, by simp [events, hp, run], h.take hp hq⟩
    | taken k => exact h.expire hp hq
    | restart k ms event => exact ⟨A, by simp [events, hp, run], h.restart hp hq⟩
    | call k event => exact h.call hp hq

/-- **POSIX timers do not fire early**, in a run of careful steps: a timer fires when the tick has reached the deadline in
force, which is its `next_deadline`, and its function is called after that, once. A timer without an interval fires once. -/
theorem never_early {as : List (TimerStep ε)} (h : Path (Next step) (fun p a => p.careful a = true) init as p) :
    ∃ A, run Schedule.next .init (trace step events init as) = some A ∧
      ∀ i, (p.timers i).active = true → ∃ d n, A.armed i = some (d, n) ∧ (p.timers i).nextDeadline = .ofNat 32 d := by
  obtain ⟨A, hA, hk⟩ := h.simulates (fun _ _ _ _ hk hc hs => keeps_step hk hc hs) keeps_init
  refine ⟨A, hA, fun i ha => ?_⟩
  obtain ⟨d, n, hd, har⟩ := hk.armed i ha
  exact ⟨d, n, hd, har.deadline⟩

end PosixTimers

end Aixos.Posix

namespace Aixos.Posix.PosixTimers

open Transition

attribute [local instance] Config.default ObjectConfig.default PosixTimerConfig.default

/-- A timer expires after one millisecond, and then every millisecond. -/
def everyMs : List (TimerStep ℕ) :=
  [.create clockMonotonic (some { notify := sigevThread, function := some 7 }) true,
    .settime (handleMake 0 1) 0 (some { interval := ⟨0, 1000000⟩, value := ⟨0, 1000000⟩ }), .tick]

theorem never_early_once : ∃ (p : PosixTimers ℕ) (A : Schedule),
    Path (Next step) (fun p a => p.careful a = true) init (everyMs ++ List.replicate 4 .serve) p ∧
    run Schedule.next .init (trace step events init (everyMs ++ List.replicate 4 .serve)) = some A ∧
    ∃ d n, A.armed 0 = some (d, n) ∧ (p.timers 0).nextDeadline = .ofNat 32 d := by
  obtain ⟨p, hp, ha⟩ := exists_path step (fun p a => p.careful a = true) init (everyMs ++ List.replicate 4 .serve)
    (fun p => (p.timers 0).active) (by decide +kernel)
  obtain ⟨A, hA, hd⟩ := never_early hp
  exact ⟨p, A, hp, hA, hd 0 ha⟩

/-- Its native timer expires again while the service is about to call `posix_timer_expired`. -/
def expiresAgain : List (TimerStep ℕ) := everyMs ++ [.serve, .tick] ++ List.replicate 7 .serve

/-- The timer fires at tick 2 for deadline 1, and at once for deadline 3. -/
theorem fires_early : ∃ p : PosixTimers ℕ, run step init expiresAgain = some p ∧
    trace step events init expiresAgain = [.arm 0 1 1, .fire 0 2 1, .call 0 2 7, .fire 0 2 0, .call 0 2 7] ∧
    run Schedule.next .init (trace step events init expiresAgain) = none := by
  obtain ⟨p, hp, -⟩ := exists_run step (init : PosixTimers ℕ) expiresAgain (fun _ => true) (by decide +kernel)
  have htrace : trace step events init expiresAgain =
      [.arm 0 1 1, .fire 0 2 1, .call 0 2 7, .fire 0 2 0, .call 0 2 7] := by decide +kernel
  exact ⟨p, hp, htrace, by rw [htrace]; rfl⟩

end Aixos.Posix.PosixTimers
