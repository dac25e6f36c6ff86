import Aixos.Kernel.Signals
import Aixos.Library.Transition

/-!
# Signals that are sent while others are delivered

`aixos_task_signal_deliver` reads the pending signals, and writes them back without the one that it takes; later it finds
that none is left, and clears the flag. A signal that is sent in between is lost, or pending without the flag.

* `Signals.Apart` — no such signal is sent.
* `Signals.Kept` — what then holds after every step; `Signals.signals_kept` — no signal is lost.
* `Signals.signal_lost` — what happens otherwise.
-/

namespace Aixos

open Transition

/-! ### Bits -/

theorem getLsbD_signalBit {n i : ℕ} (hn : n < 32) : (signalBit n).getLsbD i = decide (i = n) := by
  have e : signalBit n = BitVec.twoPow 32 n := (BitVec.twoPow_eq ..).symm
  rw [e, BitVec.getLsbD_twoPow]
  simp only [hn, decide_true, Bool.true_and, eq_comm]

theorem getLsbD_or_signalBit {w : Word} {n i : ℕ} (hn : n < 32) :
    (w ||| signalBit n).getLsbD i = (w.getLsbD i || decide (i = n)) := by
  rw [BitVec.getLsbD_or, getLsbD_signalBit hn]

theorem getLsbD_and_not_signalBit {w : Word} {n i : ℕ} (hn : n < 32) :
    (w &&& ~~~signalBit n).getLsbD i = (w.getLsbD i && decide (i ≠ n)) := by
  rw [BitVec.getLsbD_and, BitVec.getLsbD_not, getLsbD_signalBit hn]
  by_cases hi : i < 32
  · simp [hi]
  · simp [BitVec.getLsbD_of_ge w i (not_lt.mp hi)]

theorem and_signalBit_ne_zero {w : Word} {n : ℕ} (hn : n < 32) : w &&& signalBit n ≠ 0 ↔ w.getLsbD n = true := by
  constructor
  · intro h
    by_contra hno
    refine h (BitVec.eq_of_getLsbD_eq fun i hi => ?_)
    rw [BitVec.getLsbD_and, getLsbD_signalBit hn]
    by_cases hin : i = n
    · subst hin
      simp [hno]
    · simp [hin]
  · intro h e
    have hbit : (w &&& signalBit n).getLsbD n = (0 : Word).getLsbD n := by rw [e]
    rw [BitVec.getLsbD_and, getLsbD_signalBit hn, h] at hbit
    simp at hbit

theorem and_not_ne_zero {w m : Word} : w &&& ~~~m ≠ 0 ↔ ∃ n, w.getLsbD n = true ∧ m.getLsbD n = false := by
  constructor
  · intro h
    by_contra hno
    refine h (BitVec.eq_of_getLsbD_eq fun i hi => ?_)
    rw [BitVec.getLsbD_and, BitVec.getLsbD_not]
    by_contra hi'
    refine hno ⟨i, ?_⟩
    simpa [hi] using hi'
  · rintro ⟨n, hw, hm⟩ e
    have hn : n < 32 := BitVec.lt_of_getLsbD hw
    have hbit : (w &&& ~~~m).getLsbD n = (0 : Word).getLsbD n := by rw [e]
    rw [BitVec.getLsbD_and, BitVec.getLsbD_not, hw, hm, decide_eq_true hn] at hbit
    simp at hbit

/-- `__builtin_ctz` finds a bit that is set. -/
theorem getLsbD_ctz {w : Word} (h : w ≠ 0) : w.getLsbD (ctz w) = true := BitVec.getLsbD_true_ctz_of_ne_zero h

namespace Signals

variable {s s' : Signals} {a : SignalAct} {n : ℕ} {es : List SignalEvent}

/-- Every pending signal that is not masked has `pending_signal` set. -/
def Announced (s : Signals) : Prop :=
  ∀ n, s.signalPending.getLsbD n = true → s.signalMask.getLsbD n = false → s.pendingSignal = true

/-- A signal may be sent while a call is at this place: it is in the value that is about to be written to
`signal_pending`, and masked if `pending_signal` is about to be cleared. -/
def Spares (s : Signals) (signo : ℕ) : DeliverPlace → Prop
  | .write _ value => value.getLsbD signo = true
  | .clear _ => s.signalMask.getLsbD signo = true
  | .entry | .pending | .mask _ | .read _ | .test _ | .handler _ | .running => True

instance (s : Signals) (signo : ℕ) : (p : DeliverPlace) → Decidable (s.Spares signo p)
  | .write _ value => inferInstanceAs (Decidable (value.getLsbD signo = true))
  | .clear _ => inferInstanceAs (Decidable (s.signalMask.getLsbD signo = true))
  | .entry | .pending | .mask _ | .read _ | .test _ | .handler _ | .running => isTrue trivial

/-- Nobody sends a signal that is not in the value that is about to be written to `signal_pending`, and nobody sends one
that is not masked when `pending_signal` is about to be cleared. -/
def Apart (s : Signals) : SignalAct → Prop
  | .send signo => signo < 32 → ∀ p ∈ s.calls.head?, s.Spares signo p
  | .handle .. | .mask _ | .deliver | .next => True

instance (s : Signals) : (a : SignalAct) → Decidable (s.Apart a)
  | .send signo => inferInstanceAs (Decidable (signo < 32 → ∀ p ∈ s.calls.head?, s.Spares signo p))
  | .handle .. | .mask _ | .deliver | .next => isTrue trivial

/-- What holds at the place of the innermost call. -/
def Fits (s : Signals) : DeliverPlace → Prop
  | .entry | .pending | .test _ | .handler _ | .running => True
  | .mask pending => ∀ n, pending.getLsbD n = true → s.signalPending.getLsbD n = true
  | .read signo => s.signalPending.getLsbD signo = true ∧ s.signalMask.getLsbD signo = false
  | .write signo value => value = s.signalPending ∧ value.getLsbD signo = true ∧ s.signalMask.getLsbD signo = false
  | .clear _ => ∀ n, s.signalPending.getLsbD n = true → s.signalMask.getLsbD n = true

/-- The flag is set where it has to be, the innermost call has what it has read, and the others are in their
handlers. -/
structure Kept (s : Signals) : Prop where
  announced : Announced s
  top : ∀ p ∈ s.calls.head?, s.Fits p
  below : ∀ p ∈ s.calls.tail, p = .running

theorem kept_init : Kept init where
  announced n h := by simp [init] at h
  top := by rintro p ⟨⟩
  below := by rintro p ⟨⟩

/-- What a step does to the pending signals. -/
def Moves (s s' : Signals) (es : List SignalEvent) : Prop := ∀ n,
  (.raised n ∈ es → s.signalPending.getLsbD n = false ∧ s'.signalPending.getLsbD n = true) ∧
  (.taken n ∈ es → s.signalPending.getLsbD n = true ∧ s.signalMask.getLsbD n = false ∧
    s'.signalPending.getLsbD n = false) ∧
  (.raised n ∉ es → .taken n ∉ es → s'.signalPending.getLsbD n = s.signalPending.getLsbD n)

theorem moves_same (h : s'.signalPending = s.signalPending) : Moves s s' [] := fun n =>
  ⟨fun h => absurd h List.not_mem_nil, fun h => absurd h List.not_mem_nil, fun _ _ => by rw [h]⟩

/-! ### Sending -/

/-- What sending a signal does. -/
theorem send_eq (s : Signals) (hn : n < 32) : s.send n = { s with
    signalPending := s.signalPending ||| signalBit n
    pendingSignal := if s.signalMask.getLsbD n then s.pendingSignal else true } := by
  unfold send
  rw [if_neg (by omega)]
  cases hm : s.signalMask.getLsbD n with
  | true => rw [if_pos ((and_signalBit_ne_zero hn).mpr hm), if_pos rfl]
  | false =>
    rw [if_neg (fun h => ?_), if_neg Bool.false_ne_true]
    rw [(and_signalBit_ne_zero hn).mp h] at hm
    cases hm

theorem send_ge (s : Signals) (hn : 32 ≤ n) : s.send n = s := if_pos hn

theorem kept_send (h : Kept s) (ha : Apart s (.send n)) : Kept (s.send n) ∧ Moves s (s.send n) (s.observe (.send n)) := by
  by_cases hn : 32 ≤ n
  · rw [send_ge s hn, observe, if_neg (fun hc => absurd hc.1 (not_lt.mpr hn))]
    exact ⟨h, moves_same rfl⟩
  have hn := not_le.mp hn
  have hbit : ∀ i, (s.send n).signalPending.getLsbD i = (s.signalPending.getLsbD i || decide (i = n)) := fun i => by
    rw [send_eq s hn]
    exact getLsbD_or_signalBit hn
  have hmask : (s.send n).signalMask = s.signalMask := by rw [send_eq s hn]
  have hcalls : (s.send n).calls = s.calls := by rw [send_eq s hn]
  have hmore : ∀ i, s.signalPending.getLsbD i = true → (s.send n).signalPending.getLsbD i = true := fun i hi => by
    rw [hbit, hi]
    rfl
  refine ⟨⟨fun i hi hm => ?_, fun p hp => ?_, by rw [hcalls]; exact h.below⟩, fun i => ?_⟩
  · rw [hmask] at hm
    rw [hbit, Bool.or_eq_true, decide_eq_true_eq] at hi
    rw [send_eq s hn]
    rcases hi with hi | rfl
    · dsimp only
      split
      · exact h.announced i hi hm
      · rfl
    · dsimp only
      rw [if_neg (by rw [hm]; decide)]
  · rw [hcalls] at hp
    have hfit := h.top p hp
    cases p with
    | entry | pending | test | handler | running => trivial
    | mask pending => exact fun i hi => hmore i (hfit i hi)
    | read signo => exact ⟨hmore signo hfit.1, by rw [hmask]; exact hfit.2⟩
    | write signo value =>
      -- the signal is in the value that has been read
      have hsame : (s.send n).signalPending = s.signalPending := by
        have ha : value.getLsbD n = true := ha hn _ hp
        refine BitVec.eq_of_getLsbD_eq fun i _ => ?_
        rw [hbit]
        by_cases hi : i = n
        · subst hi
          rw [← hfit.1, ha]
          rfl
        · simp [hi]
      exact ⟨by rw [hsame]; exact hfit.1, hfit.2.1, by rw [hmask]; exact hfit.2.2⟩
    | clear signo =>
      intro i hi
      rw [hmask]
      rw [hbit, Bool.or_eq_true, decide_eq_true_eq] at hi
      rcases hi with hi | rfl
      · exact hfit i hi
      · exact ha hn _ hp
  · rw [observe]
    by_cases hnew : s.signalPending.getLsbD n = false
    · rw [if_pos ⟨hn, hnew⟩]
      refine ⟨fun hm => ?_, fun hm => ?_, fun hm _ => ?_⟩
      · cases List.mem_singleton.mp hm
        rw [hbit]
        exact ⟨hnew, by simp⟩
      · cases List.mem_singleton.mp hm
      · have hi : i ≠ n := by
          rintro rfl
          exact hm (List.mem_singleton.mpr rfl)
        rw [hbit]
        simp [hi]
    · rw [if_neg fun h => hnew h.2]
      refine ⟨fun h => absurd h List.not_mem_nil, fun h => absurd h List.not_mem_nil, fun _ _ => ?_⟩
      rw [hbit]
      by_cases hi : i = n
      · subst hi
        rw [Bool.not_eq_false] at hnew
        rw [hnew]
        rfl
      · simp [hi]

/-! ### The task's own steps -/

variable {o : Option DeliverPlace} {place : DeliverPlace} {places : List DeliverPlace}

/-- The innermost call goes to another place, or returns. -/
theorem kept_goto (ha : Announced s) (hbelow : ∀ p ∈ places, p = .running) (ho : ∀ p ∈ o, s.Fits p) :
    Kept { s with calls := o.toList ++ places } := by
  refine ⟨ha, fun p hp => ?_, fun p hp => ?_⟩
  · cases o with
    | some q =>
      cases hp
      exact ho _ rfl
    | none =>
      have := hbelow p (List.mem_of_mem_head? hp)
      subst this
      trivial
  · cases o with
    | some q => exact hbelow p hp
    | none => exact hbelow p (List.mem_of_mem_tail hp)

theorem Kept.split (h : Kept s) (hc : s.calls = place :: places) : s.Fits place ∧ ∀ p ∈ places, p = .running :=
  ⟨h.top place (by rw [hc]; rfl), fun p hp => h.below p (by rw [hc]; exact hp)⟩

/-- **A step of `aixos_task_signal_deliver`** keeps what holds, and takes a signal that is pending and not masked. -/
theorem kept_next (h : Kept s) (hstep : s.step .next = some s') : Kept s' ∧ Moves s s' (s.observe .next) := by
  cases hc : s.calls with
  | nil =>
    simp only [step, hc] at hstep
    cases hstep
  | cons place places =>
    obtain ⟨hfit, hbelow⟩ := h.split hc
    simp only [step, hc] at hstep
    cases hstep
    rw [observe, hc]
    cases place with
    | entry =>
      refine ⟨kept_goto h.announced hbelow fun p hp => ?_, moves_same rfl⟩
      rw [deliver, Option.mem_def, Option.ite_none_right_eq_some] at hp
      obtain ⟨-, hp⟩ := hp
      cases hp
      trivial
    | pending =>
      refine ⟨kept_goto h.announced hbelow fun p hp => ?_, moves_same rfl⟩
      cases hp
      exact fun i hi => hi
    | mask pending =>
      refine ⟨kept_goto h.announced hbelow fun p hp => ?_, moves_same rfl⟩
      rw [deliver, Option.mem_def, Option.ite_none_left_eq_some] at hp
      obtain ⟨hne, hp⟩ := hp
      cases hp
      have hbit := getLsbD_ctz hne
      rw [BitVec.getLsbD_and, BitVec.getLsbD_not, Bool.and_eq_true, Bool.and_eq_true, Bool.not_eq_true'] at hbit
      exact ⟨hfit _ hbit.1, hbit.2.2⟩
    | read signo =>
      refine ⟨kept_goto h.announced hbelow fun p hp => ?_, moves_same rfl⟩
      cases hp
      exact ⟨rfl, hfit⟩
    | write signo value =>
      obtain ⟨rfl, hv, hm⟩ := hfit
      have hn : signo < 32 := BitVec.lt_of_getLsbD hv
      refine ⟨?_, fun i => ⟨fun hr => ?_, fun ht => ?_, fun _ ht => ?_⟩⟩
      · refine kept_goto (s := { s with signalPending := s.signalPending &&& ~~~signalBit signo }) ?_ hbelow ?_
        · intro i hi hmi
          have hi : (s.signalPending &&& ~~~signalBit signo).getLsbD i = true := hi
          rw [getLsbD_and_not_signalBit hn, Bool.and_eq_true] at hi
          exact h.announced i hi.1 hmi
        · rintro p ⟨⟩
          trivial
      · cases List.mem_singleton.mp hr
      · cases List.mem_singleton.mp ht
        refine ⟨hv, hm, ?_⟩
        show (s.signalPending &&& ~~~signalBit signo).getLsbD signo = false
        rw [getLsbD_and_not_signalBit hn]
        simp
      · have hi : i ≠ signo := by
          rintro rfl
          exact ht (List.mem_singleton.mpr rfl)
        show (s.signalPending &&& ~~~signalBit signo).getLsbD i = _
        rw [getLsbD_and_not_signalBit hn]
        simp [hi]
    | test signo =>
      refine ⟨kept_goto h.announced hbelow fun p hp => ?_, moves_same rfl⟩
      cases hp
      by_cases hz : s.signalPending = 0
      · rw [if_pos hz]
        intro i hi
        have hi : s.signalPending.getLsbD i = true := hi
        rw [hz] at hi
        simp at hi
      · rw [if_neg hz]
        trivial
    | clear signo =>
      refine ⟨?_, moves_same rfl⟩
      refine kept_goto (s := { s with pendingSignal := false }) (fun i hi hm => ?_) hbelow ?_
      · rw [hfit i hi] at hm
        cases hm
      · rintro p ⟨⟩
        trivial
    | handler signo =>
      refine ⟨kept_goto h.announced hbelow fun p hp => ?_, moves_same rfl⟩
      rw [deliver, Option.mem_def, Option.ite_none_right_eq_some] at hp
      obtain ⟨-, hp⟩ := hp
      cases hp
      trivial
    | running =>
      refine ⟨kept_goto h.announced hbelow fun p hp => ?_, moves_same rfl⟩
      cases hp

/-- Where the task may call, all its calls are in their handlers. -/
theorem Kept.all_running (h : Kept s) (hc : s.mayCall = true) : ∀ p ∈ s.calls, p = .running := by
  intro p hp
  cases hcs : s.calls with
  | nil =>
    rw [hcs] at hp
    cases hp
  | cons q ps =>
    rw [hcs] at hp
    rcases List.mem_cons.mp hp with rfl | hp
    · rw [mayCall, hcs] at hc
      cases p <;> first | rfl | cases hc
    · exact (h.split hcs).2 p hp

theorem announced_mask (s : Signals) (m : Word) : Announced (s.mask m) := by
  intro i hi hm
  unfold mask at hi hm ⊢
  by_cases hu : s.signalPending &&& ~~~m ≠ 0
  · rw [if_pos hu]
  · rw [if_neg hu] at hi hm
    exact absurd (and_not_ne_zero.mpr ⟨i, hi, hm⟩) hu

theorem mask_calls (s : Signals) (m : Word) : (s.mask m).calls = s.calls := by
  unfold mask
  split <;> rfl

theorem mask_signalPending (s : Signals) (m : Word) : (s.mask m).signalPending = s.signalPending := by
  unfold mask
  split <;> rfl

/-- **Every step** that meets the condition keeps what holds. -/
theorem kept_step (h : Kept s) (ha : Apart s a) (hstep : s.step a = some s') :
    Kept s' ∧ Moves s s' (s.observe a) := by
  cases a with
  | send n =>
    cases hstep
    exact kept_send h ha
  | handle n b =>
    obtain ⟨-, e⟩ := Option.ite_none_right_eq_some.mp hstep
    cases e
    unfold handle
    split
    · exact ⟨h, moves_same rfl⟩
    · exact ⟨⟨h.announced, h.top, h.below⟩, moves_same rfl⟩
  | mask m =>
    obtain ⟨hc, e⟩ := Option.ite_none_right_eq_some.mp hstep
    cases e
    have hrun := h.all_running hc
    refine ⟨⟨announced_mask s m, fun p hp => ?_, by rw [mask_calls]; exact h.below⟩, moves_same (mask_signalPending s m)⟩
    rw [mask_calls] at hp
    have := hrun p (List.mem_of_mem_head? hp)
    subst this
    trivial
  | deliver =>
    obtain ⟨hc, e⟩ := Option.ite_none_right_eq_some.mp hstep
    cases e
    refine ⟨kept_goto (o := some .entry) h.announced (h.all_running hc) ?_, moves_same rfl⟩
    rintro p ⟨⟩
    trivial
  | next => exact kept_next h hstep

/-! ### Every run -/

theorem observe_cases (s : Signals) (a : SignalAct) :
    s.observe a = [] ∨ (∃ m, s.observe a = [.raised m]) ∨ ∃ m, s.observe a = [.taken m] := by
  cases a with
  | send m =>
    rw [observe]
    split
    · exact .inr (.inl ⟨m, rfl⟩)
    · exact .inl rfl
  | next =>
    rw [observe]
    split
    · exact .inr (.inr ⟨_, rfl⟩)
    · exact .inl rfl
  | handle | mask | deliver => exact .inl rfl

/-- As often as a signal has been raised it has been taken, but for the once that it is pending. -/
def Balanced (s : Signals) (es : List SignalEvent) : Prop := ∀ n,
  es.count (.raised n) = es.count (.taken n) + if s.signalPending.getLsbD n = true then 1 else 0

theorem count_raised_taken (m n : ℕ) : [SignalEvent.raised m].count (.taken n) = 0 :=
  List.count_eq_zero_of_not_mem (by simp)

theorem count_taken_raised (m n : ℕ) : [SignalEvent.taken m].count (.raised n) = 0 :=
  List.count_eq_zero_of_not_mem (by simp)

theorem Balanced.step (h : Balanced s es) (hm : Moves s s' (s.observe a)) : Balanced s' (es ++ s.observe a) := by
  intro n
  have hn := h n
  obtain ⟨hraised, htaken, hsame⟩ := hm n
  rw [List.count_append, List.count_append]
  rcases s.observe_cases a with e | ⟨m, e⟩ | ⟨m, e⟩ <;> rw [e] at hraised htaken hsame ⊢
  · rw [hsame List.not_mem_nil List.not_mem_nil]
    exact hn
  · rw [count_raised_taken]
    by_cases hmn : m = n
    · subst hmn
      obtain ⟨h₀, h₁⟩ := hraised (List.mem_singleton.mpr rfl)
      rw [h₀, if_neg Bool.false_ne_true] at hn
      rw [h₁, if_pos rfl, List.count_singleton_self, hn]
    · have hother : .raised n ∉ [SignalEvent.raised m] := by simpa using Ne.symm hmn
      rw [hsame hother (by simp), List.count_eq_zero_of_not_mem hother]
      exact hn
  · rw [count_taken_raised]
    by_cases hmn : m = n
    · subst hmn
      obtain ⟨h₀, -, h₁⟩ := htaken (List.mem_singleton.mpr rfl)
      rw [h₀, if_pos rfl] at hn
      rw [h₁, if_neg Bool.false_ne_true, List.count_singleton_self, hn]
    · have hother : .taken n ∉ [SignalEvent.taken m] := by simpa using Ne.symm hmn
      rw [hsame (by simp) hother, List.count_eq_zero_of_not_mem hother]
      exact hn

theorem kept_path {as : List SignalAct} (h : Path (Next step) Apart init as s) :
    Kept s ∧ Balanced s (trace step observe init as) := by
  have hb : Balanced init [] := fun n => by simp [init]
  have hi : Kept s ∧ Balanced s ([] ++ trace step observe init as) := by
    refine h.traced (I := fun s es => Kept s ∧ Balanced s es) (fun s a s' es hi ha hstep => ?_) ⟨kept_init, hb⟩
    obtain ⟨hk, hm⟩ := kept_step hi.1 ha hstep
    exact ⟨hk, hi.2.step hm⟩
  rwa [List.nil_append] at hi

/-- **No signal is lost**, if nobody sends a signal that is not in the value that is about to be written to
`signal_pending`, or one that is not masked when `pending_signal` is about to be cleared. Then in every state in which
no call of `aixos_task_signal_deliver` is under way, but for its handler, every pending signal that is not masked has
`pending_signal` set. A signal that is raised becomes pending, and stays so until it is taken; what is taken is
pending, and not masked, and is pending no more. So every signal has been taken as often as it has been raised, but
for the once that it is pending. -/
theorem signals_kept {as : List SignalAct} (h : Path (Next step) Apart init as s) :
    (s.mayCall = true → ∀ n, s.signalPending.getLsbD n = true → s.signalMask.getLsbD n = false →
      s.pendingSignal = true) ∧
    (∀ a s', Apart s a → s.step a = some s' → ∀ n,
      (.raised n ∈ s.observe a → s.signalPending.getLsbD n = false ∧ s'.signalPending.getLsbD n = true) ∧
      (.taken n ∈ s.observe a → s.signalPending.getLsbD n = true ∧ s.signalMask.getLsbD n = false ∧
        s'.signalPending.getLsbD n = false) ∧
      (.raised n ∉ s.observe a → .taken n ∉ s.observe a →
        s'.signalPending.getLsbD n = s.signalPending.getLsbD n)) ∧
    ∀ n, (trace step observe init as).count (.raised n) =
      (trace step observe init as).count (.taken n) + if s.signalPending.getLsbD n = true then 1 else 0 := by
  obtain ⟨hk, hb⟩ := kept_path h
  exact ⟨fun _ => hk.announced, fun a s' ha hstep => (kept_step hk ha hstep).2, hb⟩

/-- A signal is sent, and delivered; another is sent before the call begins that delivers it. -/
def twoSignals : List SignalAct :=
  [.send 3, .deliver, .next, .send 5, .next, .next, .next, .next, .next, .next]

theorem signals_kept_two : ∃ s, Path (Next step) Apart init twoSignals s ∧ s.mayCall = true ∧
    s.signalPending = 32 ∧ s.pendingSignal = true := by
  obtain ⟨s, hp, h⟩ := exists_path step Apart init twoSignals
    (fun s => decide (s.mayCall = true ∧ s.signalPending = 32 ∧ s.signalMask = 0)) (by decide +kernel)
  obtain ⟨hc, hs, hm⟩ := of_decide_eq_true h
  exact ⟨s, hp, hc, hs, (signals_kept hp).1 hc 5 (by rw [hs]; decide) (by rw [hm]; decide)⟩

/-- Signal 5 is sent between the test that finds no signal left and the store that clears the flag. -/
def unannounced : List SignalAct :=
  [.send 3, .deliver, .next, .next, .next, .next, .next, .next, .send 5, .next, .next]

/-- Signal 5 is sent between the read of `signal_pending` and the write that takes signal 3. -/
def overwritten : List SignalAct :=
  [.send 3, .deliver, .next, .next, .next, .next, .send 5, .next, .next, .next, .next]

/-- In the first run signal 5 is pending, not masked, and without the flag, when no call is under way; in the second it
has been raised, is not pending, and has never been taken. -/
theorem signal_lost : (∃ s, run step init unannounced = some s ∧ s.calls = [] ∧ s.signalPending.getLsbD 5 = true ∧
      s.signalMask.getLsbD 5 = false ∧ s.pendingSignal = false) ∧
    ∃ s, run step init overwritten = some s ∧ .raised 5 ∈ trace step observe init overwritten ∧
      .taken 5 ∉ trace step observe init overwritten ∧ s.signalPending.getLsbD 5 = false := by
  constructor
  · obtain ⟨s, hr, h⟩ := exists_run step init unannounced (fun s => decide (s.calls = [] ∧
      s.signalPending.getLsbD 5 = true ∧ s.signalMask.getLsbD 5 = false ∧ s.pendingSignal = false)) (by decide +kernel)
    exact ⟨s, hr, of_decide_eq_true h⟩
  · obtain ⟨s, hr, h⟩ := exists_run step init overwritten (fun s =>
      decide (s.signalPending.getLsbD 5 = false)) (by decide +kernel)
    exact ⟨s, hr, by decide +kernel, by decide +kernel, of_decide_eq_true h⟩

end Signals

end Aixos
