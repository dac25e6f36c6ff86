import Aixos.Kernel.Receive
import Aixos.Objects.MessageQueue
import Aixos.System.Dispatch
import Aixos.System.Domains

/-!
# What a receive system call loses

`sc_mq_recv` takes the message out of the queue and copies it to the task afterwards. The copies
are checked once more, when the message is gone, and `args[4]` is read when the message is copied.

* `RecvSection.taking` — the bytes of the message that a critical section is about to take.
* `Micro.deliveries` — what is to be copied to the caller, and where to.
* `LosesNothing` — the property: an error leaves the queues alone, and `AIXOS_OK` delivers one message.
* `Micro.Fits` — the regions of the caller take this message, which leaves `args[4]` alone, and its length.
* `Receiving.losesNothing_iff` — the property holds exactly when every message that is taken fits.
-/

namespace Aixos

open Transition Aixos.Core Kernel

variable [cfg : Config]

/-! ### The rings -/

namespace Kernel

variable {k k' : Kernel} {h : Handle} {i : ℕ}

/-- In every queue the place of the first message is in the ring. -/
structure InRange (k : Kernel) : Prop where
  queue : ∀ i, (k.mqs i).InRange

omit cfg in
theorem InRange.of_eq (hk : k.InRange) (e : k'.mqs = k.mqs) : k'.InRange := by
  refine ⟨fun i => ?_⟩
  rw [e]
  exact hk.queue i

omit cfg in
theorem InRange.update (hk : k.InRange) {q : Mq} (hq : q.InRange) (e : k'.mqs = Function.update k.mqs i q) :
    k'.InRange := by
  refine ⟨fun j => ?_⟩
  rw [e, Function.update_apply]
  split
  · exact hq
  · exact hk.queue j

omit cfg in
theorem mqStore_inRange {q q' : Mq} {message : List UInt8} {priority : ℕ} {isr : Bool} (hq : q.InRange)
    (e : mqStore q message priority isr = .ok q') : q'.InRange := by
  unfold mqStore at e
  split at e
  · cases e
  · split at e
    · cases e
    · cases e
      obtain ⟨h₁, -, h₃, -, -⟩ := Mq.mqShift_shape (mqInsertIndex q priority) (q.count - mqInsertIndex q priority) q
      show (mqShift _ _ q).head % (mqShift _ _ q).maxMsgs = (mqShift _ _ q).head
      rw [h₁, h₃]
      exact hq

theorem block_mqs (k : Kernel) (w : Wait) (ms : Word) (p : Pending) : (k.block w ms p).1.mqs = k.mqs :=
  (Keeps.refl .mq k).block w ms p

theorem mqSendLoop_inRange (hk : k.InRange) (i : ℕ) (h : Handle) (message : List UInt8) (priority : ℕ)
    (start ms remaining : Word) (isr : Bool) : (k.mqSendLoop i h message priority start ms remaining isr).1.InRange := by
  unfold mqSendLoop
  split
  · split
    · exact hk
    · exact hk.of_eq (block_mqs ..)
  · split
    · exact hk
    · rename_i q e
      exact hk.update (mqStore_inRange (hk.queue i) e) (wakeFirst_mqs ..)

theorem mqSendCommon_inRange (hk : k.InRange) (h : Handle) (message : Option (List UInt8)) (priority : ℕ) (ms : Word)
    (isr : Bool) : (k.mqSendCommon h message priority ms isr).1.InRange := by
  unfold mqSendCommon
  split
  · exact hk
  · split
    · exact hk
    · split
      · exact hk
      · split
        · exact hk
        · split
          · exact hk
          · exact mqSendLoop_inRange hk ..

theorem mqRecvLoop_inRange (hk : k.InRange) (i : ℕ) (h : Handle) (capacity : ℕ) (start ms remaining : Word) :
    (k.mqRecvLoop i h capacity start ms remaining).1.InRange := by
  unfold mqRecvLoop
  dsimp only
  split
  · split
    · exact hk
    · exact hk.of_eq (block_mqs ..)
  · split
    · exact hk
    · have hq : (k.mqs i).dropFirst.InRange := Nat.mod_mod ..
      exact hk.update hq (wakeFirst_mqs ..)

theorem mqRecv_inRange (hk : k.InRange) (h : Handle) (capacity : ℕ) (ms : Word) :
    (k.mqRecv h capacity ms).1.InRange := by
  unfold mqRecv
  split
  · exact hk
  · split
    · exact hk
    · exact mqRecvLoop_inRange hk ..

theorem resume_inRange (hk : k.InRange) (t : TaskId) (f : Frame) : (k.resume t f).1.InRange := by
  by_cases hf : f.pending.stores = some .mq
  · unfold resume
    dsimp only
    split
    case h_3 =>
      split
      · exact hk
      · split
        · exact hk
        · exact mqSendLoop_inRange hk ..
    case h_4 =>
      split
      · exact hk
      · split
        · exact hk
        · exact mqRecvLoop_inRange hk ..
    all_goals
      rename_i e
      rw [e] at hf
      cases hf
  · exact hk.of_eq (show Keeps .mq _ _ from resume_keeps t f hf)

theorem call_inRange (hk : k.InRange) (c : Call) : (k.call c).1.InRange := by
  by_cases hc : c.stores = some .mq
  · cases c with
    | mqCreate n size st mem =>
      show (k.mqCreate n size st mem).1.InRange
      unfold mqCreate
      split
      · exact hk
      · unfold createObject
        split
        · exact hk
        · rename_i i _
          have hq : Mq.InRange { maxMsgs := n, msgSize := size, priorities := if st then none else some fun _ => 0 } :=
            Nat.zero_mod _
          exact InRange.update (i := i) hk hq rfl
    | mqSend h m p ms =>
      show (k.mqSend h m p ms).1.InRange
      unfold mqSend
      split
      · exact hk
      · exact mqSendCommon_inRange hk ..
    | mqRecv h n ms => exact mqRecv_inRange hk h n ms
    | _ => cases hc
  · exact hk.of_eq (show Keeps .mq _ _ from call_keeps c hc)

theorem isrCall_inRange (hk : k.InRange) (c : IsrCall) : (k.isrCall c).InRange := by
  by_cases hc : c.stores = some .mq
  · cases c with
    | mqSend h m =>
      show (k.mqSendFromIsr h m).1.InRange
      unfold mqSendFromIsr
      split
      · exact hk
      · exact mqSendCommon_inRange hk ..
    | _ => cases hc
  · exact hk.of_eq (show Keeps .mq _ _ from isrCall_keeps c hc)

end Kernel

theorem Sys.inRange_step {s s' : Sys} {a : Act} (hk : s.kernel.InRange) (h : s.step a = some s') : s'.kernel.InRange := by
  cases a with
  | call c =>
    rw [← step_call_kernel h]
    exact call_inRange hk c
  | resume =>
    obtain ⟨t, f, -, -, rfl⟩ := step_resume h
    rw [finish_kernel]
    exact resume_inRange hk t f
  | isr c =>
    rw [← step_isr_kernel h]
    exact isrCall_inRange hk c
  | start | switch | isrEnter | isrExit => exact hk.of_eq (show Keeps .mq _ _ from step_keeps h (by simp [Act.stores]))

/-! ### One critical section -/

namespace RecvSection

/-- The bytes of the message that the section is about to take from its queue. -/
def taking (t : TaskId) (h : Handle) (capacity : ℕ) (p : RecvSection) : Option (List UInt8) :=
  if p.frame.isSome ∧ (p.before.core.tasks t).waitResult ≠ Code.ok then none
  else match p.before.core.objFromHandle .mq h with
    | none => none
    | some i =>
      let q := p.before.mqs i
      if q.count = 0 ∨ capacity < q.lengths q.head then none else some (q.cell q.head).bytes

/-- It leaves the messages of every queue as they were. -/
def Quiet (p : RecvSection) : Prop := ∀ i, (p.after.mqs i).messages = (p.before.mqs i).messages

/-- It takes the first message of one queue, and no other. -/
def Takes (p : RecvSection) (i : ℕ) (b : Message) : Prop :=
  (p.before.mqs i).messages = b :: (p.after.mqs i).messages ∧
    ∀ j, j ≠ i → (p.after.mqs j).messages = (p.before.mqs j).messages

/-- How a section ends, by what it is about to take. -/
def Ends (h : Handle) (capacity : ℕ) (ms : Word) (p : RecvSection) : Option (List UInt8) → Outcome → Prop
  | some bytes, r => ∃ i b, p.before.core.objFromHandle .mq h = some i ∧ r = .ret (.received b.bytes b.priority) ∧
      b.bytes = bytes ∧ p.Takes i b
  | none, r => p.after.mqs = p.before.mqs ∧
      ((∃ start w, r = .wait { pending := .mqRecv h capacity start ms, timeoutMs := w }) ∨
        (∃ n, r = .ret (.tooLong n)) ∨ ∃ e, r = .ret (.code e) ∧ e ≠ Code.ok)

variable {t : TaskId} {h : Handle} {capacity : ℕ} {ms : Word} {p : RecvSection}

theorem Ends.code {e : Code} (he : e ≠ Code.ok) (ha : p.after = p.before) : p.Ends h capacity ms none (.ret (.code e)) :=
  ⟨by rw [ha], .inr (.inr ⟨e, rfl, he⟩)⟩

theorem Ends.quiet {r : Outcome} (he : p.Ends h capacity ms none r) : p.Quiet := fun i => by rw [he.1]

omit cfg in
theorem Takes.not_quiet {i : ℕ} {b : Message} (ht : p.Takes i b) : ¬ p.Quiet := by
  intro hq
  have := congrArg List.length (ht.1.symm.trans (hq i).symm)
  simp at this

end RecvSection

namespace Kernel

variable {k : Kernel} {t : TaskId} {h : Handle} {i capacity : ℕ} {ms : Word}

theorem block_error {w : Wait} {c : Core} {e : Code} (he : c.taskBlockCurrent w ms = .error e) : e ≠ Code.ok := by
  unfold taskBlockCurrent at he
  split at he
  · cases he
    decide
  · split at he
    · cases he
      decide
    · split at he
      · cases he
        decide
      · cases he

/-- The loop, from the lookup of the queue on. -/
theorem mqRecvLoop_ends (hk : k.InRange) (hi : k.core.objFromHandle .mq h = some i) (frame : Option Frame)
    (start remaining : Word) :
    RecvSection.Ends h capacity ms
      { frame, before := k, after := (k.mqRecvLoop i h capacity start ms remaining).1 }
      (if (k.mqs i).count = 0 ∨ capacity < (k.mqs i).lengths (k.mqs i).head then none
        else some ((k.mqs i).cell (k.mqs i).head).bytes)
      (k.mqRecvLoop i h capacity start ms remaining).2 := by
  by_cases hc : (k.mqs i).count = 0
  · rw [if_pos (.inl hc), mqRecvLoop, if_pos hc]
    by_cases hz : remaining = 0
    · rw [if_pos hz]
      exact .code (by decide) rfl
    · rw [if_neg hz]
      refine ⟨block_mqs .., ?_⟩
      unfold block
      split
      · rename_i e he
        exact .inr (.inr ⟨e, rfl, block_error he⟩)
      · exact .inl ⟨start, remaining, rfl⟩
  · by_cases hn : capacity < (k.mqs i).lengths (k.mqs i).head
    · rw [if_pos (.inr hn), mqRecvLoop, if_neg hc, if_pos hn]
      exact ⟨rfl, .inr (.inl ⟨_, rfl⟩)⟩
    · rw [if_neg (not_or.mpr ⟨hc, hn⟩), mqRecvLoop, if_neg hc, if_neg hn]
      refine ⟨i, (k.mqs i).cell (k.mqs i).head, hi, rfl, rfl, ?_, fun j hj => ?_⟩
      · dsimp only
        rw [wakeFirst_mqs]
        dsimp only
        rw [Function.update_self]
        exact (hk.queue i).messages_eq_cons hc
      · dsimp only
        rw [wakeFirst_mqs]
        dsimp only
        rw [Function.update_of_ne hj]

/-- **One critical section** takes the first message or none, and says so. -/
theorem mqRecvSection_ends (hk : k.InRange) {frame : Option Frame}
    (hf : ∀ f, frame = some f → ∃ start w, f = { pending := .mqRecv h capacity start ms, timeoutMs := w })
    (hn : frame = none → k.core.inIsr = false) {p : RecvSection}
    (hp : p = { frame, before := k, after := (k.mqRecvSection t h capacity ms frame).1 }) :
    p.Ends h capacity ms (p.taking t h capacity) (k.mqRecvSection t h capacity ms frame).2 := by
  subst hp
  unfold RecvSection.taking
  dsimp only
  cases frame with
  | none =>
    rw [if_neg (by simp)]
    show RecvSection.Ends _ _ _ { frame := none, before := k, after := (k.mqRecv h capacity ms).1 } _
      (k.mqRecv h capacity ms).2
    unfold mqRecv
    rw [hn rfl, if_neg Bool.false_ne_true]
    cases hi : k.core.objFromHandle .mq h with
    | none => exact .code (by decide) rfl
    | some i => exact mqRecvLoop_ends hk hi _ _ _
  | some f =>
    obtain ⟨start, w, rfl⟩ := hf f rfl
    show RecvSection.Ends _ _ _
      { frame := some _, before := k, after := (k.resume t { pending := .mqRecv h capacity start ms, timeoutMs := w }).1 } _
      (k.resume t { pending := .mqRecv h capacity start ms, timeoutMs := w }).2
    unfold resume
    dsimp only
    by_cases hr : (k.core.tasks t).waitResult = Code.ok
    · simp only [hr, ne_eq, not_true_eq_false, and_false, if_false]
      cases hi : k.core.objFromHandle .mq h with
      | none => exact .code (by decide) rfl
      | some i => exact mqRecvLoop_ends hk hi _ _ _
    · rw [if_pos hr, if_pos ⟨rfl, hr⟩]
      exact .code hr rfl

theorem mqRecvSection_inRange (hk : k.InRange) (frame : Option Frame) :
    (k.mqRecvSection t h capacity ms frame).1.InRange := by
  cases frame with
  | none => exact mqRecv_inRange hk h capacity ms
  | some f => exact resume_inRange hk t f

end Kernel

/-! ### In the trap -/

namespace Micro

variable {m m' : Micro} {t : TaskId} {h : Handle} {capacity : ℕ} {ms : Word}

/-- What the handler of a task and interrupts do not change. -/
structure SameTask (t : TaskId) (m m' : Micro) : Prop where
  memory : m'.memory = m.memory
  regions : m'.mpuRegions = m.mpuRegions
  user : (m'.core.tasks t).user = (m.core.tasks t).user

omit cfg in
theorem SameTask.trans {m'' : Micro} (hs : SameTask t m m') (hs' : SameTask t m' m'') : SameTask t m m'' where
  memory := hs'.memory.trans hs.memory
  regions := hs'.regions.trans hs.regions
  user := hs'.user.trans hs.user

omit cfg in
theorem SameTask.userMemoryCheck (hs : SameTask t m m') (address size : ℕ) (write : Bool) :
    m'.userMemoryCheck t address size write = m.userMemoryCheck t address size write := by
  unfold Micro.userMemoryCheck mpuTaskAllows
  rw [hs.regions, hs.user]

omit cfg in
theorem arg_congr (h : m'.memory = m.memory) (req i : ℕ) : m'.arg req i = m.arg req i := by
  unfold arg word
  rw [h]

theorem interrupted_eq {as : List Act} (e : m.interrupted as = some m') :
    SameTask t m m' ∧ m'.core.isrNesting = m.core.isrNesting ∧ (m.kernel.InRange → m'.kernel.InRange) := by
  unfold interrupted at e
  split at e
  · rename_i has
    obtain ⟨s, hs, rfl⟩ := Option.map_eq_some_iff.mp e
    obtain ⟨hrun, hn⟩ := Option.filter_eq_some_iff.mp hs
    have hp := (path_iff_run.mpr hrun).both fun a ha => List.all_eq_true.mp has a ha
    have hd : SameDomains m.core s.core := by
      refine hp.invariant (I := fun s => SameDomains m.core s.core) (fun s a s' hs hc hstep => hs.trans ?_) (.refl _)
      have hstep : s.step a = some s' := hstep
      cases a with
      | isrEnter | isrExit =>
        simp only [Sys.step] at hstep
        split at hstep
        · cases hstep
          first | exact .refl _ | exact .isrExit _
        · cases hstep
      | isr c =>
        show SameDomains s.core s'.kernel.core
        rw [← Sys.step_isr_kernel hstep]
        exact isrCall_domains _ c
      | _ => cases hc.2
    have hr : m.kernel.InRange → s.kernel.InRange := fun h₀ =>
      hp.invariant (I := fun s => s.kernel.InRange) (fun s a s' hs _ hstep => Sys.inRange_step hs hstep) h₀
    exact ⟨⟨rfl, rfl, hd t⟩, by simpa using hn, hr⟩
  · cases e

theorem mqRecvSection_domains {k : Kernel} {frame : Option Frame}
    (hf : ∀ f, frame = some f → ∃ start w, f = { pending := .mqRecv h capacity start ms, timeoutMs := w }) :
    SameDomains k.core (k.mqRecvSection t h capacity ms frame).1.core := by
  have hloop (i : ℕ) (start remaining : Word) :
      SameDomains k.core (k.mqRecvLoop i h capacity start ms remaining).1.core := by
    unfold mqRecvLoop
    dsimp only
    split
    · split
      · exact .refl _
      · exact block_domains _ _ _ _
    · split
      · exact .refl _
      · exact wakeFirst_domains _ _
  cases frame with
  | none =>
    show SameDomains _ (k.mqRecv h capacity ms).1.core
    unfold mqRecv
    split
    · exact .refl _
    · split
      · exact .refl _
      · exact hloop _ _ _
  | some f =>
    obtain ⟨start, w, rfl⟩ := hf f rfl
    show SameDomains _ (k.resume t _).1.core
    unfold resume
    dsimp only
    split
    · exact .refl _
    · split
      · exact .refl _
      · exact hloop _ _ _

/-- `aixos_mq_recv` in the trap: all of its critical sections but the last wait. -/
structure Trapped (t : TaskId) (h : Handle) (capacity : ℕ) (ms : Word) (m m' : Micro) (l : List RecvSection) (r : Ret) :
    Prop where
  same : SameTask t m m'
  range : m'.kernel.InRange
  sections : ∃ l₀ p, l = l₀ ++ [p] ∧ (∀ q ∈ l₀, q.taking t h capacity = none ∧ q.Quiet) ∧
    p.Ends h capacity ms (p.taking t h capacity) (.ret r)

/-- **The run of `aixos_mq_recv`**, by induction on what the interrupts do. -/
theorem mqRecvInTrap_trapped {frame : Option Frame} {ints : List (List Act)} {l : List RecvSection} {r : Ret}
    (hk : m.kernel.InRange)
    (hf : ∀ f, frame = some f → ∃ start w, f = { pending := .mqRecv h capacity start ms, timeoutMs := w })
    (hn : frame = none → m.core.isrNesting = 0)
    (e : mqRecvInTrap t h capacity ms m frame ints = some (l, m', r)) : Trapped t h capacity ms m m' l r := by
  induction ints generalizing m frame l with
  | nil => cases e
  | cons as rest ih =>
    rw [mqRecvInTrap] at e
    obtain ⟨m₁, h₁, e⟩ := Option.bind_eq_some_iff.mp e
    obtain ⟨hs₁, hn₁, hk₁⟩ := interrupted_eq (t := t) h₁
    have hends : RecvSection.Ends h capacity ms
        { frame, before := m₁.kernel, after := (m₁.kernel.mqRecvSection t h capacity ms frame).1 } _
        (m₁.kernel.mqRecvSection t h capacity ms frame).2 :=
      mqRecvSection_ends (t := t) (hk₁ hk) hf (fun e => by
        show decide (m₁.core.isrNesting ≠ 0) = false
        simp [hn₁, hn e]) rfl
    have hdom : SameDomains m₁.core (m₁.kernel.mqRecvSection t h capacity ms frame).1.core := mqRecvSection_domains hf
    have hrange : (m₁.kernel.mqRecvSection t h capacity ms frame).1.InRange := mqRecvSection_inRange (hk₁ hk) frame
    dsimp only at e
    generalize hx : m₁.kernel.mqRecvSection t h capacity ms frame = x at e hends hdom hrange
    obtain ⟨k, out⟩ := x
    dsimp only at e hends hdom hrange
    have hs₂ : SameTask t m { m₁ with kernel := k } := hs₁.trans ⟨rfl, rfl, hdom t⟩
    cases out with
    | noReturn => cases e
    | ret r₁ =>
      -- it returns; interrupts may still come before the copies
      obtain ⟨m₂, h₂, e⟩ := Option.map_eq_some_iff.mp e
      obtain ⟨bs, -, h₂⟩ := Option.bind_eq_some_iff.mp h₂
      cases e
      obtain ⟨hs₃, -, hk₃⟩ := interrupted_eq h₂
      exact ⟨hs₂.trans hs₃, hk₃ hrange, [], _, rfl, by simp, hends⟩
    | wait f =>
      -- it waits, and goes on from there
      obtain ⟨⟨l', m₂, r'⟩, h₂, e⟩ := Option.map_eq_some_iff.mp e
      cases e
      cases htk : RecvSection.taking t h capacity { frame, before := m₁.kernel, after := k } with
      | some n =>
        rw [htk] at hends
        obtain ⟨_, _, _, e, -⟩ := hends
        cases e
      | none =>
        rw [htk] at hends
        have hframe : ∃ start w, f = { pending := .mqRecv h capacity start ms, timeoutMs := w } := by
          obtain ⟨-, ⟨start, w, e⟩ | ⟨_, e⟩ | ⟨_, e, -⟩⟩ := hends
          · exact ⟨start, w, Outcome.wait.inj e⟩
          · cases e
          · cases e
        obtain ⟨hs, hr, l₀, p, rfl, hl, hp⟩ :=
          ih hrange (fun g e => Option.some.inj e ▸ hframe) (by simp) h₂
        refine ⟨hs₂.trans hs, hr, _ :: l₀, p, rfl, fun q hq => ?_, hp⟩
        rcases List.mem_cons.mp hq with rfl | hq
        · exact ⟨htk, hends.quiet⟩
        · exact hl q hq

end Micro

/-! ### The system call -/

section

variable {m m' : Micro} {t : TaskId} {req : ℕ} {ints : List (List Act)} {d : MqRecvRun} {bytes : List UInt8}

namespace Micro

omit cfg in
/-- What is to be copied to the caller, and where to: a message, and its length if it is wanted. -/
def deliveries (m : Micro) (req : ℕ) (bytes : List UInt8) : List (ℕ × List UInt8) :=
  ((m.arg req 1).toNat, bytes) ::
    if m.arg req 4 = 0 then [] else [((m.arg req 4).toNat, sizeBytes bytes.length)]

omit cfg in
/-- The memory after some copies. -/
def copied (m : Micro) (copies : List (ℕ × List UInt8)) : ℕ → UInt8 :=
  copies.foldl (fun memory c => store memory c.1 c.2) m.memory

omit cfg in
/-- The regions of task `t` take this message at `args[1]`, which leaves `args[4]` of the request as it is, and its
length at `args[4]`. -/
def Fits (m : Micro) (t : TaskId) (req : ℕ) (bytes : List UInt8) : Prop :=
  (bytes.length = 0 ∨ m.userMemoryCheck t (m.arg req 1).toNat bytes.length true = true) ∧
    arg { m with memory := store m.memory (m.arg req 1).toNat bytes } req 4 = m.arg req 4 ∧
    (m.arg req 4 = 0 ∨ m.userMemoryCheck t (m.arg req 4).toNat 4 true = true)

instance (m : Micro) (t : TaskId) (req : ℕ) (bytes : List UInt8) : Decidable (m.Fits t req bytes) :=
  inferInstanceAs (Decidable (_ ∧ _ ∧ _))

end Micro

/-- **A receive that fails loses nothing**, and one that returns `AIXOS_OK` has taken the first message of the
queue of its capability, and has delivered it. -/
def LosesNothing (m : Micro) (t : TaskId) (req : ℕ) (d : MqRecvRun) : Prop :=
  (d.result ≠ Code.ok → ∀ p ∈ d.sections, p.Quiet) ∧
    (d.result = Code.ok → ∃ h l p i b, m.capMq t (m.arg req 0).toInt capRead = some h ∧ d.sections = l ++ [p] ∧
      (∀ q ∈ l, q.Quiet) ∧ p.before.core.objFromHandle .mq h = some i ∧ p.Takes i b ∧
      d.copies = m.deliveries req b.bytes ∧ d.micro.memory = m.copied d.copies)

namespace Micro

omit cfg in
theorem copyToUserTask_cases (m : Micro) (t : TaskId) (a : ℕ) (bytes : List UInt8) :
    (m.copyToUserTask t a bytes = some { m with memory := store m.memory a bytes } ∧
        (bytes.length = 0 ∨ m.userMemoryCheck t a bytes.length true = true)) ∨
      (m.copyToUserTask t a bytes = none ∧
        ¬ (bytes.length = 0 ∨ m.userMemoryCheck t a bytes.length true = true)) := by
  unfold copyToUserTask
  by_cases h₀ : bytes.length = 0
  · left
    have hm : store m.memory a bytes = m.memory := by
      funext b
      exact if_neg (by omega)
    rw [if_pos h₀, hm]
    exact ⟨rfl, .inl h₀⟩
  · rw [if_neg h₀]
    by_cases hc : m.userMemoryCheck t a bytes.length true = true
    · exact .inl ⟨if_pos hc, .inr hc⟩
    · exact .inr ⟨if_neg hc, not_or.mpr ⟨h₀, hc⟩⟩

omit cfg in
@[simp] theorem length_sizeBytes (n : ℕ) : (sizeBytes n).length = 4 := by simp [sizeBytes]

omit cfg in
theorem SameTask.fits (hs : SameTask t m m') : m'.Fits t req bytes ↔ m.Fits t req bytes := by
  have ha : ∀ a, arg { m' with memory := store m.memory a bytes } req 4 =
      arg { m with memory := store m.memory a bytes } req 4 := fun _ => rfl
  unfold Fits
  rw [arg_congr hs.memory, arg_congr hs.memory, hs.userMemoryCheck, hs.userMemoryCheck, hs.memory, ha]

omit cfg in
theorem SameTask.deliveries (hs : SameTask t m m') : m'.deliveries req bytes = m.deliveries req bytes := by
  unfold Micro.deliveries
  rw [arg_congr hs.memory, arg_congr hs.memory]

omit cfg in
/-- **The copies** of a message that fits succeed. -/
theorem scMqRecvCopy_of_fits (hf : m.Fits t req bytes) (priority : ℕ) :
    m.scMqRecvCopy t req (.received bytes priority) =
      ({ m with memory := m.copied (m.deliveries req bytes) }, m.deliveries req bytes, Code.ok) := by
  obtain ⟨hb, ha, hs⟩ := hf
  unfold scMqRecvCopy copied deliveries
  dsimp only
  rcases copyToUserTask_cases m t (m.arg req 1).toNat bytes with ⟨e, -⟩ | ⟨-, hn⟩
  · rw [e]
    dsimp only
    rw [ha]
    by_cases h₀ : m.arg req 4 = 0
    · rw [if_pos h₀, if_pos h₀]
      rfl
    · rw [if_neg h₀, if_neg h₀]
      rcases copyToUserTask_cases { m with memory := store m.memory (m.arg req 1).toNat bytes } t (m.arg req 4).toNat
        (sizeBytes bytes.length) with ⟨e, -⟩ | ⟨-, hn⟩
      · rw [e]
        rfl
      · rw [length_sizeBytes] at hn
        exact absurd (.inr (hs.resolve_left h₀)) hn
  · exact absurd hb hn

omit cfg in
/-- **A message is delivered** only when it fits. -/
theorem fits_of_scMqRecvCopy {priority : ℕ}
    (hok : (m.scMqRecvCopy t req (.received bytes priority)).2.2 = Code.ok)
    (hd : (m.scMqRecvCopy t req (.received bytes priority)).2.1 = m.deliveries req bytes) : m.Fits t req bytes := by
  unfold scMqRecvCopy at hok hd
  unfold deliveries at hd
  dsimp only at hok hd
  rcases copyToUserTask_cases m t (m.arg req 1).toNat bytes with ⟨e, hb⟩ | ⟨e, -⟩
  · rw [e] at hok hd
    dsimp only at hok hd
    refine ⟨hb, ?_⟩
    generalize ha : arg { m with memory := store m.memory (m.arg req 1).toNat bytes } req 4 = size at hok hd ⊢
    by_cases h₀ : size = 0
    · -- no length is asked for when the message is there, so none was asked for before
      rw [if_pos h₀] at hd
      by_cases h₁ : m.arg req 4 = 0
      · exact ⟨h₀.trans h₁.symm, .inl h₁⟩
      · rw [if_neg h₁] at hd
        cases hd
    · rw [if_neg h₀] at hok hd
      rcases copyToUserTask_cases { m with memory := store m.memory (m.arg req 1).toNat bytes } t size.toNat
        (sizeBytes bytes.length) with ⟨e, hc⟩ | ⟨e, -⟩
      · rw [e] at hd
        rw [length_sizeBytes] at hc
        by_cases h₁ : m.arg req 4 = 0
        · rw [if_pos h₁] at hd
          cases hd
        · rw [if_neg h₁] at hd
          have he : size = m.arg req 4 := BitVec.eq_of_toNat_eq (by simpa using hd)
          exact ⟨he, .inr (he ▸ hc.resolve_left (by decide))⟩
      · rw [e] at hok
        exact absurd hok (show Code.fault ≠ Code.ok by decide)
  · rw [e] at hok
    exact absurd hok (show Code.fault ≠ Code.ok by decide)

/-- **One call**: nothing is lost exactly when every message that is taken fits. -/
theorem losesNothing_iff_fits (hk : m.kernel.InRange) (hn : m.core.isrNesting = 0)
    (e : m.scMqRecv t req ints = some d) : LosesNothing m t req d ↔
      ∀ h, m.capMq t (m.arg req 0).toInt capRead = some h → ∀ p ∈ d.sections, ∀ bytes,
        p.taking t h (kernelCapacity (m.arg req 2).toNat) = some bytes → m.Fits t req bytes := by
  unfold scMqRecv at e
  cases hcheck : m.scMqRecvCheck t req with
  | error r =>
    -- refused before the queue is touched
    rw [hcheck] at e
    cases e
    have hr : r ≠ Code.ok := by
      unfold scMqRecvCheck at hcheck
      split at hcheck
      · cases hcheck
        decide
      · split at hcheck
        · cases hcheck
        · cases hcheck
          decide
    exact ⟨fun _ h _ p hp => absurd hp List.not_mem_nil,
      fun _ => ⟨fun _ p hp => absurd hp List.not_mem_nil, fun e => absurd e hr⟩⟩
  | ok h =>
    rw [hcheck] at e
    obtain ⟨⟨l, m₁, r⟩, h₁, rfl⟩ := Option.map_eq_some_iff.mp e
    have hcap : m.capMq t (m.arg req 0).toInt capRead = some h := by
      unfold scMqRecvCheck at hcheck
      split at hcheck
      · cases hcheck
      · rename_i h' hh
        split at hcheck
        · cases hcheck
          exact hh
        · cases hcheck
    obtain ⟨hs, -, l₀, p, rfl, hl, hp⟩ := mqRecvInTrap_trapped hk (by simp) (fun _ => hn) h₁
    -- only the last section can take a message
    have hcond : (∀ h', m.capMq t (m.arg req 0).toInt capRead = some h' → ∀ q ∈ l₀ ++ [p], ∀ bytes,
        q.taking t h' (kernelCapacity (m.arg req 2).toNat) = some bytes → m.Fits t req bytes) ↔
        ∀ bytes, p.taking t h (kernelCapacity (m.arg req 2).toNat) = some bytes → m.Fits t req bytes := by
      constructor
      · exact fun hc bytes hn => hc h hcap p (by simp) bytes hn
      · rintro hc h' hh' q hq bytes hn
        obtain rfl : h = h' := Option.some.inj (hcap.symm.trans hh')
        rcases List.mem_append.mp hq with hq | hq
        · rw [(hl q hq).1] at hn
          cases hn
        · rw [List.mem_singleton.mp hq] at hn
          exact hc bytes hn
    dsimp only at hcond ⊢
    rw [hcond]
    unfold LosesNothing
    dsimp only
    cases htk : p.taking t h (kernelCapacity (m.arg req 2).toNat) with
    | none =>
      -- no message is taken, and the result is an error
      rw [htk] at hp
      have herr : (m₁.scMqRecvCopy t req r).2.2 ≠ Code.ok := by
        obtain ⟨-, ⟨_, _, e⟩ | ⟨_, e⟩ | ⟨c, e, hc⟩⟩ := hp
        · cases e
        · cases e
          show Code.overflow ≠ Code.ok
          decide
        · cases e
          exact hc
      refine ⟨fun _ _ hn => (nomatch hn), fun _ => ⟨fun _ q hq => ?_, fun e => absurd e herr⟩⟩
      rcases List.mem_append.mp hq with hq | hq
      · exact (hl q hq).2
      · rw [List.mem_singleton.mp hq]
        exact hp.quiet
    | some bytes =>
      rw [htk] at hp
      obtain ⟨i, b, hi, e, rfl, ht⟩ := hp
      cases e
      constructor
      · rintro ⟨hquiet, hdone⟩ _ ⟨⟩
        by_cases hok : (m₁.scMqRecvCopy t req (.received b.bytes b.priority)).2.2 = Code.ok
        · obtain ⟨h', l', p', i', b', hcap', hl', -, hi', ht', hcopies, -⟩ := hdone hok
          -- it is the same queue, and so the same message
          obtain ⟨-, ⟨⟩⟩ := List.append_inj' hl' rfl
          obtain rfl : h = h' := Option.some.inj (hcap.symm.trans hcap')
          obtain rfl : i = i' := Option.some.inj (hi.symm.trans hi')
          obtain rfl : b = b' := (List.cons.inj (ht.1.symm.trans ht'.1)).1
          exact hs.fits.mp (fits_of_scMqRecvCopy hok (hcopies.trans hs.deliveries.symm))
        · exact absurd (hquiet hok p (by simp)) ht.not_quiet
      · intro hf
        rw [scMqRecvCopy_of_fits (hs.fits.mpr (hf _ rfl)), hs.deliveries]
        refine ⟨fun hne => absurd rfl hne, fun _ => ⟨h, l₀, p, i, b, hcap, rfl, fun q hq => (hl q hq).2, hi, ht, rfl, ?_⟩⟩
        unfold copied
        rw [hs.memory]

omit cfg in
theorem scMqRecvCopy_kernel (m : Micro) (t : TaskId) (req : ℕ) (r : Ret) :
    (m.scMqRecvCopy t req r).1.kernel = m.kernel := by
  unfold scMqRecvCopy
  split
  · dsimp only
    split
    · rfl
    · rename_i m₁ e
      obtain ⟨memory, rfl, -⟩ := copyToUserTask_eq e
      split
      · rfl
      · split
        · rfl
        · rename_i m₂ e
          obtain ⟨memory', rfl, -⟩ := copyToUserTask_eq e
          rfl
  · rfl
  · rfl
  · rfl

theorem scMqRecv_inRange (hk : m.kernel.InRange) (hn : m.core.isrNesting = 0) (e : m.scMqRecv t req ints = some d) :
    d.micro.kernel.InRange := by
  unfold scMqRecv at e
  split at e
  · cases e
    exact hk
  · obtain ⟨⟨l, m₁, r⟩, h₁, rfl⟩ := Option.map_eq_some_iff.mp e
    dsimp only
    rw [scMqRecvCopy_kernel]
    exact (mqRecvInTrap_trapped hk (by simp) (fun _ => hn) h₁).range

theorem dispatchMqRecv_inRange (hk : m.kernel.InRange) (hn : m.core.isrNesting = 0)
    (e : m.dispatchMqRecv t req ints = some d) : d.micro.kernel.InRange := by
  unfold dispatchMqRecv at e
  split at e
  · cases e
    exact hk
  · split at e
    · exact scMqRecv_inRange hk hn e
    · cases e

theorem Dispatched.mqs {y : Syscall} {r : Code} (h : Dispatched m t y m' r) : m'.kernel.mqs = m.kernel.mqs := by
  have hwake (m : Micro) (i : ℕ) : (m.wakeReceiver i).kernel.mqs = m.kernel.mqs := by
    unfold wakeReceiver
    split <;> rfl
  have hreply (m : Micro) (p : ℕ) : (m.replyWake p).kernel.mqs = m.kernel.mqs := by
    unfold replyWake
    dsimp only
    split <;> rfl
  cases h with
  | sent => exact hwake _ _
  | answered => exact hreply _ _
  | _ => rfl

end Micro

end

namespace Receiving

variable {s s' : Machine} {a : Receiving} {as : List Receiving} {t : TaskId}

omit cfg in
theorem isrNesting_of_userTask (ht : s.userTask = some t) : s.micro.core.isrNesting = 0 :=
  (Sys.runningTask_eq_some (Machine.userTask_eq ht).1).2.2.1

theorem inRange_step (hk : s.micro.kernel.InRange) (h : step s a = some s') : s'.micro.kernel.InRange := by
  cases a with
  | other a =>
    rcases Machine.step_tables h with ⟨b, rfl⟩ | ⟨x, rfl⟩ | hsame
    · obtain ⟨k, hs, rfl⟩ := Machine.step_native h
      exact Sys.inRange_step hk hs
    · obtain ⟨t, r, -, hd, -, -⟩ := Machine.step_syscall h
      exact hk.of_eq hd.mqs
    · rw [hsame.kernel]
      exact hk
  | kernelStore address bytes =>
    cases h
    exact hk
  | mqRecv req ints =>
    simp only [step] at h
    split at h
    · cases h
    · rename_i t ht
      split at h
      · cases h
      · obtain ⟨d, hd, rfl⟩ := Option.map_eq_some_iff.mp h
        exact Micro.dispatchMqRecv_inRange hk (isrNesting_of_userTask ht) hd

/-- **A receive system call**, in every state that is reached and with every interrupt, loses nothing exactly
when every message that it takes fits. -/
theorem losesNothing_iff {req : ℕ} {ints : List (List Act)} {d : MqRecvRun}
    (hr : run step .init as = some s) (ht : s.userTask = some t) (hd : s.micro.scMqRecv t req ints = some d) :
    LosesNothing s.micro t req d ↔
      ∀ h, s.micro.capMq t (s.micro.arg req 0).toInt capRead = some h → ∀ p ∈ d.sections, ∀ bytes,
        p.taking t h (kernelCapacity (s.micro.arg req 2).toNat) = some bytes → s.micro.Fits t req bytes := by
  have hk : s.micro.kernel.InRange :=
    (path_iff_run.mpr hr).invariant (I := fun s => s.micro.kernel.InRange)
      (fun s a s' hs _ h => inRange_step hs h) ⟨fun _ => Nat.zero_mod _⟩
  exact Micro.losesNothing_iff_fits hk (isrNesting_of_userTask ht) hd

end Receiving

end Aixos

namespace Aixos.Receiving

open Transition Aixos.Core

attribute [local instance] Config.default

/-- A run and a call in its last state that pass a test. -/
theorem exists_call (as : List Receiving) (t : TaskId) (req : ℕ) (ints : List (List Act))
    (p : Machine → MqRecvRun → Bool)
    (h : ((run step .init as).bind fun s => (s.micro.scMqRecv t req ints).map (p s)) = some true) :
    ∃ s d, run step .init as = some s ∧ s.micro.scMqRecv t req ints = some d ∧ p s d = true := by
  obtain ⟨s, hs, h⟩ := Option.bind_eq_some_iff.mp h
  obtain ⟨d, hd, hp⟩ := Option.map_eq_some_iff.mp h
  exact ⟨s, d, hs, hd, hp⟩

/-- `main` creates a queue, sends these messages and creates tasks; user task 1 runs, and may read the queue. -/
def readerStarted (messages : List (List UInt8)) (regions : List MpuRegion) : List Receiving :=
  let created := messages.map fun m => Act.call (.mqSend ⟨0, 1⟩ (some m) 0 0)
  let booted := Sys.boot [{ stackSize := 512, priority := 3 }, { stackSize := 512, priority := 9, userTask := true }] true
  ([Act.call (.mqCreate 2 8 false true)] ++ created ++ booted ++ [Act.call .timerServiceWait, Act.switch]).map
      (fun a => .other (.native a)) ++
    regions.map (fun r => .other (.regionAdd 1 r)) ++ [.other (.capGrantDirect 1 (.mq ⟨0, 1⟩) capRead)]

/-- What task 1 asks for, and where it has put the request. -/
structure Asked where
  messages : List (List UInt8)
  regions : List MpuRegion
  req : ℕ
  buffer : ℕ
  capacity : ℕ
  size : ℕ

/-- Task 1 has stored its request. -/
def Asked.acts (x : Asked) : List Receiving :=
  readerStarted x.messages x.regions ++
    [.other (.userStore x.req ([11, 0, x.buffer, x.capacity, 10, x.size].flatMap (le 4)))]

/-- The request is one for `sc_mq_recv`, and it may be read. -/
def IsRequest (s : Machine) (req : ℕ) : Prop :=
  s.userTask = some 1 ∧ s.micro.userMemoryCheck 1 req requestSize false = true ∧ s.micro.word req = scMqRecvNumber

instance (s : Machine) (req : ℕ) : Decidable (IsRequest s req) := inferInstanceAs (Decidable (_ ∧ _ ∧ _))

/-- A region for data. -/
def dataRegion : MpuRegion := { base := 4096, size := 256, read := true, write := true }

/-- Its first bytes may only be read. -/
def constRegion : MpuRegion := { base := 4096, size := 32, read := true, write := false }

/-- A message and its length fit into the region, beside the request. -/
def roomy : Asked where
  messages := []
  regions := [dataRegion]
  req := 4224
  buffer := 4096
  capacity := 16
  size := 4112

/-- The message arrives while the task waits, and is delivered with its length. -/
theorem messageArrives_losesNothing : ∃ s d, run step .init roomy.acts = some s ∧ IsRequest s 4224 ∧
    s.micro.scMqRecv 1 4224 [[], [.isrEnter, .isr (.mqSend ⟨0, 1⟩ (some [7, 8])), .isrExit], []] = some d ∧
    d.result = Code.ok ∧ d.micro.memory 4097 = 8 ∧ d.micro.memory 4112 = 2 ∧ LosesNothing s.micro 1 4224 d := by
  obtain ⟨s, d, hs, hd, hp⟩ := exists_call roomy.acts 1 4224
    [[], [.isrEnter, .isr (.mqSend ⟨0, 1⟩ (some [7, 8])), .isrExit], []]
    (fun s d => decide (IsRequest s 4224 ∧ s.micro.capMq 1 (s.micro.arg 4224 0).toInt capRead = some ⟨0, 1⟩ ∧
      d.result = Code.ok ∧ d.micro.memory 4097 = 8 ∧ d.micro.memory 4112 = 2 ∧ ∀ p ∈ d.sections,
        ∀ bytes ∈ p.taking 1 ⟨0, 1⟩ (kernelCapacity (s.micro.arg 4224 2).toNat), s.micro.Fits 1 4224 bytes))
    (by decide +kernel)
  obtain ⟨hreq, hcap, hres, h₁, h₂, hfits⟩ := of_decide_eq_true hp
  refine ⟨s, d, hs, hreq, hd, hres, h₁, h₂, (losesNothing_iff hs hreq.1 hd).mpr fun h hh p hp bytes hb => ?_⟩
  obtain rfl : h = ⟨0, 1⟩ := Option.some.inj (hh.symm.trans hcap)
  exact hfits p hp bytes hb

/-- The length cannot be stored. -/
def unstorable : Asked where
  messages := [[7, 8]]
  regions := [dataRegion]
  req := 4224
  buffer := 4096
  capacity := 16
  size := 8

/-- The message is shorter than the buffer, and all of it lies in a region that may only be read. -/
def shadowed : Asked where
  messages := [[7, 8]]
  regions := [constRegion, dataRegion]
  req := 4224
  buffer := 4096
  capacity := 64
  size := 0

/-- The buffer begins inside the request, and the message lies over `args[4]`. -/
def overwritten : Asked where
  messages := [[1, 2, 3, 4, 5, 6, 7, 8]]
  regions := [dataRegion]
  req := 4096
  buffer := 4112
  capacity := 16
  size := 4160

/-- The call that task 1 asks for fails, and the message is gone. -/
def Asked.LosesMessage (x : Asked) : Prop :=
  ∃ s d, run step .init x.acts = some s ∧ IsRequest s x.req ∧ s.micro.scMqRecv 1 x.req [[], []] = some d ∧
    d.result = Code.fault ∧ (s.micro.kernel.mqs 0).count = 1 ∧ (d.micro.kernel.mqs 0).count = 0 ∧
    ¬ LosesNothing s.micro 1 x.req d

theorem messageLost_not_losesNothing :
    unstorable.LosesMessage ∧ shadowed.LosesMessage ∧ overwritten.LosesMessage := by
  have htest : ∀ x ∈ [unstorable, shadowed, overwritten],
      ((run step .init x.acts).bind fun s => (s.micro.scMqRecv 1 x.req [[], []]).map fun d =>
        decide (IsRequest s x.req ∧ d.result = Code.fault ∧ (s.micro.kernel.mqs 0).count = 1 ∧
          (d.micro.kernel.mqs 0).count = 0 ∧ ∃ p ∈ d.sections,
            (p.after.mqs 0).messages ≠ (p.before.mqs 0).messages)) = some true := by decide +kernel
  have hlost : ∀ x ∈ [unstorable, shadowed, overwritten], x.LosesMessage := by
    intro x hx
    obtain ⟨s, d, hs, hd, hp⟩ := exists_call x.acts 1 x.req [[], []] _ (htest x hx)
    obtain ⟨hreq, hres, h₁, h₀, p, hp, hne⟩ := of_decide_eq_true hp
    refine ⟨s, d, hs, hreq, hd, hres, h₁, h₀, fun hlose => hne (hlose.1 ?_ p hp 0)⟩
    rw [hres]
    decide
  simpa using hlost

end Aixos.Receiving
