import Aixos.Objects.Buffers

/-!
# Message queues

A message queue is a ring of cells in three arrays. What it holds is a list of messages,
in the order of their priorities.

* `MqSpec` — what a queue is for: a list of messages, with an insertion and a removal.
* `Mq.Holds q A` — the arrays hold the messages of `A`.
* `Sys.mqEvents` — what a run is seen to do to a queue: the messages it was given with
  `AIXOS_OK`, and those it gave back.
* `Sys.mq_refines` — the messages given back are those of the list.
-/

namespace Aixos

open Transition Aixos.Core OrderedQueue Ring Kernel

/-- A message and its priority. -/
structure Message where
  /-- The bytes. -/
  bytes : List UInt8
  /-- The priority. -/
  priority : ℕ
  deriving DecidableEq

/-- A message queue, as its users see it. -/
structure MqSpec where
  /-- How many messages it takes. -/
  maxMsgs : ℕ := 0
  /-- How long a message may be. -/
  msgSize : ℕ := 0
  /-- Whether it has a priority array. -/
  prioritized : Bool := false
  /-- The messages it has been given and has not given back. -/
  messages : List Message := []

/-- What is seen of the use of a message queue. -/
inductive MqEvent where
  /-- The queue was created. -/
  | created (maxMsgs msgSize : ℕ) (prioritized : Bool)
  /-- A message was sent, with `AIXOS_OK`. -/
  | sent (m : Message)
  /-- A message was received. -/
  | received (m : Message)

/-- What may be seen next: a message goes behind those of equal or higher priority, or behind
all in a queue without priorities, and the first message is the one received. -/
def MqSpec.next (A : MqSpec) : MqEvent → Option MqSpec
  | .created n size pr => some { maxMsgs := n, msgSize := size, prioritized := pr }
  | .sent m =>
    if A.messages.length < A.maxMsgs ∧ m.bytes.length ≤ A.msgSize then
      some { A with messages :=
        if A.prioritized then
          A.messages.filter (fun b => decide (m.priority ≤ b.priority)) ++
            m :: A.messages.filter (fun b => decide (b.priority < m.priority))
        else A.messages ++ [m] }
    else none
  | .received m =>
    match A.messages with
    | [] => none
    | b :: rest => if b = m then some { A with messages := rest } else none

namespace Mq

variable {q q' : Mq} {A : MqSpec}

/-- The message in a cell; without a priority array its priority is 0. -/
def cell (q : Mq) (p : ℕ) : Message where
  bytes := load q.buffer (p * q.msgSize) (q.lengths p)
  priority := (q.priorities.map (· p)).getD 0

/-- The messages of a queue, the next one to be received first. -/
def messages (q : Mq) : List Message := window q.cell q.maxMsgs q.head q.count

/-- The fields of a queue are in range. -/
structure Ok (q : Mq) : Prop where
  head : 0 < q.maxMsgs → q.head < q.maxMsgs
  count : q.count ≤ q.maxMsgs
  lengths : ∀ p, q.lengths p ≤ q.msgSize

/-- The queue holds the messages of `A`. -/
structure Holds (q : Mq) (A : MqSpec) : Prop extends Ok q where
  maxMsgs : q.maxMsgs = A.maxMsgs
  msgSize : q.msgSize = A.msgSize
  prioritized : q.priorities.isSome = A.prioritized
  messages : q.messages = A.messages
  /-- Its messages are in the order of their priorities. -/
  ordered : Ordered Message.priority A.messages

/-! ### Storing a message -/

/-- Writing one cell. -/
theorem cell_write (h : Ok q) {n p : ℕ} {src : List UInt8} (hn : n ≤ src.length) (hsrc : src.length ≤ q.msgSize)
    (g : (ℕ → ℕ) → ℕ) :
    cell { q with
      buffer := store q.buffer (p * q.msgSize) src
      lengths := Function.update q.lengths p n
      priorities := q.priorities.map fun ps => Function.update ps p (g ps) } =
    Function.update q.cell p { bytes := src.take n, priority := (q.priorities.map g).getD 0 } := by
  funext p'
  rw [Function.update_apply]
  unfold cell
  split
  · rename_i e
    subst e
    simp only [Function.update_self, load_store hn]
    cases q.priorities <;> simp
  · rename_i hne
    simp only [Function.update_of_ne hne]
    rw [load_store_of_disjoint (cells_disjoint hne (h.lengths p') hsrc)]
    cases q.priorities <;> simp [Function.update_of_ne hne]

theorem mqMove_cell (h : Ok q) (d s : ℕ) : (mqMove q d s).cell = Function.update q.cell d (q.cell s) := by
  have hs := h.lengths s
  unfold mqMove
  have hlen : (load q.buffer (s * q.msgSize) q.msgSize).length = q.msgSize := length_load
  rw [cell_write h (hs.trans hlen.ge) hlen.le fun ps => ps s, take_load hs]
  rfl

theorem mqMove_ok (h : Ok q) (d s : ℕ) : Ok (mqMove q d s) where
  head := h.head
  count := h.count
  lengths p := by
    show Function.update q.lengths d (q.lengths s) p ≤ q.msgSize
    rw [Function.update_apply]
    split <;> exact h.lengths _

/-- Only the arrays differ. -/
def SameShape (q q' : Mq) : Prop :=
  q'.maxMsgs = q.maxMsgs ∧ q'.msgSize = q.msgSize ∧ q'.head = q.head ∧ q'.count = q.count ∧
    q'.priorities.isSome = q.priorities.isSome

theorem mqShift_shape (insert n : ℕ) (q : Mq) : SameShape q (mqShift insert n q) := by
  induction n generalizing q with
  | zero => exact ⟨rfl, rfl, rfl, rfl, rfl⟩
  | succ n ih =>
    obtain ⟨h₁, h₂, h₃, h₄, h₅⟩ := ih (mqMove q ((q.head + (insert + n + 1)) % q.maxMsgs)
      ((q.head + (insert + n + 1) - 1) % q.maxMsgs))
    rw [mqShift]
    exact ⟨h₁, h₂, h₃, h₄, h₅.trans (Option.isSome_map ..)⟩

theorem mqShift_ok (h : Ok q) (insert n : ℕ) : Ok (mqShift insert n q) := by
  induction n generalizing q with
  | zero => exact h
  | succ n ih => exact ih (mqMove_ok h _ _)

/-- The loop of the source moves the messages behind the place of insertion. -/
theorem mqShift_cell (h : Ok q) (insert n : ℕ) :
    (mqShift insert n q).cell = shift q.maxMsgs q.head insert n q.cell := by
  induction n generalizing q with
  | zero => rfl
  | succ n ih =>
    rw [mqShift, ih (mqMove_ok h _ _), shift, mqMove_cell h]
    rfl

/-- The place of insertion is that of the first message of lower priority. -/
theorem mqInsertIndex_eq {priority : ℕ} (hp : q.priorities = none → priority = 0) :
    mqInsertIndex q priority = q.messages.findIdx fun m => decide (m.priority < priority) := by
  have hzero : q.count = q.messages.findIdx fun m => decide (m.priority < 0) := by
    rw [List.findIdx_eq_length_of_false (by simp)]
    exact length_window.symm
  unfold mqInsertIndex
  split
  · rename_i hq
    rw [hp hq]
    exact hzero
  · rename_i ps hq
    split
    · rename_i h0
      rw [h0]
      exact hzero
    · rw [messages, ← find_range]
      congr 2
      funext l
      simp [cell, hq, place]

/-- **Storing a message** inserts it behind those of equal or higher priority. -/
theorem mqStore_messages (h : Ok q) {message : List UInt8} {priority : ℕ} {isr : Bool}
    (hsize : message.length ≤ q.msgSize) (hroom : q.count ≠ q.maxMsgs)
    (e : mqStore q message priority isr = .ok q') :
    Ok q' ∧ q'.messages = insertByKey Message.priority ⟨message, priority⟩ q.messages ∧
      q'.maxMsgs = q.maxMsgs ∧ q'.msgSize = q.msgSize ∧ q'.priorities.isSome = q.priorities.isSome ∧
      (q.priorities = none → priority = 0) := by
  have hlt : q.count < q.maxMsgs := lt_of_le_of_ne h.count hroom
  unfold mqStore at e
  split at e
  · cases e
  · rename_i hp
    have hp : q.priorities = none → priority = 0 := by
      intro hq
      by_contra hne
      exact hp ⟨by rw [hq]; rfl, hne⟩
    split at e
    · cases e
    · dsimp only at e
      have hidx := mqInsertIndex_eq hp
      have hle : mqInsertIndex q priority ≤ q.count := by
        rw [hidx]
        exact List.findIdx_le_length.trans (le_of_eq length_window)
      generalize mqInsertIndex q priority = insert at e hidx hle
      obtain ⟨h₁, h₂, h₃, h₄, h₅⟩ := mqShift_shape insert (q.count - insert) q
      have hok := mqShift_ok h insert (q.count - insert)
      have hcell := mqShift_cell h insert (q.count - insert)
      generalize mqShift insert (q.count - insert) q = qs at e h₁ h₂ h₃ h₄ h₅ hok hcell
      cases e
      refine ⟨⟨?_, ?_, ?_⟩, ?_, h₁, h₂, ?_, hp⟩
      · exact hok.head
      · show qs.count + 1 ≤ qs.maxMsgs
        omega
      · intro p
        show Function.update qs.lengths _ message.length p ≤ qs.msgSize
        rw [Function.update_apply]
        split
        · rw [h₂]
          exact hsize
        · exact hok.lengths p
      · have hw := cell_write hok (p := (qs.head + insert) % qs.maxMsgs) (n := message.length) le_rfl
          (h₂ ▸ hsize) fun _ => priority
        have hprio : (qs.priorities.map fun _ => priority).getD 0 = priority := by
          cases hq : qs.priorities with
          | none =>
            rw [hq] at h₅
            exact (hp (by simpa using h₅.symm)).symm
          | some ps => rfl
        rw [List.take_length, hprio] at hw
        rw [insertByKey, insertBefore_eq, ← hidx]
        show window (cell { qs with
          buffer := _, lengths := _, priorities := _ }) qs.maxMsgs qs.head (qs.count + 1) = _
        rw [hw, hcell, h₁, h₃, h₄]
        exact window_insert hle hlt _
      · rw [← h₅]
        exact Option.isSome_map ..

theorem Holds.sent (h : Holds q A) {message : List UInt8} {priority : ℕ} {isr : Bool}
    (hsize : message.length ≤ q.msgSize) (hroom : q.count ≠ q.maxMsgs)
    (e : mqStore q message priority isr = .ok q') :
    ∃ A', A.next (.sent ⟨message, priority⟩) = some A' ∧ Holds q' A' := by
  obtain ⟨hok, hmsgs, h₁, h₂, h₃, hp⟩ := mqStore_messages h.toOk hsize hroom e
  rw [h.messages] at hmsgs
  have hlen : A.messages.length = q.count := by
    rw [← h.messages]
    exact length_window
  have hroom : A.messages.length < A.maxMsgs := by
    rw [hlen, ← h.maxMsgs]
    exact lt_of_le_of_ne h.count hroom
  have hins : insertByKey Message.priority ⟨message, priority⟩ A.messages =
      if A.prioritized then
        A.messages.filter (fun b => decide (priority ≤ b.priority)) ++
          ⟨message, priority⟩ :: A.messages.filter (fun b => decide (b.priority < priority))
      else A.messages ++ [⟨message, priority⟩] := by
    split
    · exact h.ordered.insertByKey_eq
    · -- without a priority array the priority is 0, which no message is below
      rename_i hf
      have hz : priority = 0 := hp (by
        have := h.prioritized
        simpa [hf] using this)
      rw [h.ordered.insertByKey_eq, hz]
      simp
  refine ⟨_, if_pos ⟨hroom, h.msgSize ▸ hsize⟩, ⟨hok, h₁.trans h.maxMsgs, h₂.trans h.msgSize,
    h₃.trans h.prioritized, ?_, ?_⟩⟩
  · rw [hmsgs, hins]
  · show Ordered Message.priority (if _ then _ else _)
    rw [← hins]
    exact h.ordered.insertByKey

/-! ### Taking a message -/

/-- The queue without its first message. -/
def dropFirst (q : Mq) : Mq := { q with head := (q.head + 1) % q.maxMsgs, count := q.count - 1 }

/-- The place of the first message is in the ring. -/
def InRange (q : Mq) : Prop := q.head % q.maxMsgs = q.head

/-- **Taking a message** removes the first one. -/
theorem InRange.messages_eq_cons (h : InRange q) (hc : q.count ≠ 0) :
    q.messages = q.cell q.head :: q.dropFirst.messages := by
  obtain ⟨n, hn⟩ := Nat.exists_eq_succ_of_ne_zero hc
  have hcell : q.dropFirst.cell = q.cell := rfl
  have hcount : q.dropFirst.count = n := by
    show q.count - 1 = n
    omega
  rw [messages, messages, hcell, hcount, hn, Nat.succ_eq_one_add, window_add, window_succ, window_zero,
    show place q.maxMsgs q.head 0 = q.head from h]
  rfl

theorem messages_eq_cons (h : Ok q) (hc : q.count ≠ 0) : q.messages = q.cell q.head :: q.dropFirst.messages := by
  have hpos : 0 < q.maxMsgs := lt_of_lt_of_le (Nat.pos_of_ne_zero hc) h.count
  have hr : InRange q := Nat.mod_eq_of_lt (h.head hpos)
  exact hr.messages_eq_cons hc

theorem Holds.received (h : Holds q A) (hc : q.count ≠ 0) :
    ∃ A', A.next (.received (q.cell q.head)) = some A' ∧ Holds q.dropFirst A' := by
  have hpos : 0 < q.maxMsgs := lt_of_lt_of_le (Nat.pos_of_ne_zero hc) h.count
  have hm := messages_eq_cons h.toOk hc
  rw [h.messages] at hm
  have hord := h.ordered
  rw [hm] at hord
  refine ⟨{ A with messages := q.dropFirst.messages }, ?_, ⟨⟨fun _ => Nat.mod_lt _ hpos, ?_, h.lengths⟩,
    h.maxMsgs, h.msgSize, h.prioritized, rfl, ?_⟩⟩
  · simp [MqSpec.next, hm]
  · exact (Nat.sub_le ..).trans h.count
  · exact (List.pairwise_cons.mp hord).2

theorem holds_created (n size : ℕ) (st : Bool) :
    Holds { maxMsgs := n, msgSize := size, priorities := if st then none else some fun _ => 0 }
      { maxMsgs := n, msgSize := size, prioritized := !st } where
  head h := h
  count := Nat.zero_le _
  lengths _ := Nat.zero_le _
  maxMsgs := rfl
  msgSize := rfl
  prioritized := by cases st <;> rfl
  messages := rfl
  ordered := ordered_nil

theorem holds_empty : Holds {} {} where
  head h := h
  count := le_rfl
  lengths _ := le_rfl
  maxMsgs := rfl
  msgSize := rfl
  prioritized := rfl
  messages := rfl
  ordered := ordered_nil

end Mq

/-- What a critical section does with a message queue. -/
inductive MqCall where
  | create (maxMsgs msgSize : ℕ) (isStatic : Bool)
  | send (h : Handle) (message : List UInt8) (priority : ℕ)
  | recv (h : Handle)

variable [cfg : Config]

/-- What is seen of it at the queue in slot `i`, when the section ends with `r`. -/
def MqCall.event (k : Kernel) (i : ℕ) : MqCall → Outcome → Option MqEvent
  | .create n size st, .ret (.handle (some h)) => if h.index = i then some (.created n size !st) else none
  | .send h m p, .ret (.code r) =>
    if k.core.objFromHandle .mq h = some i ∧ r = Code.ok then some (.sent ⟨m, p⟩) else none
  | .recv h, .ret (.received b p) =>
    if k.core.objFromHandle .mq h = some i then some (.received ⟨b, p⟩) else none
  | _, _ => none

namespace Kernel

variable {k : Kernel} {x : MqCall} {h : Handle} {i : ℕ}

/-- The queues change as what is seen of the section says. -/
def MqEffect (k : Kernel) (x : MqCall) (r : Kernel × Outcome) : Prop :=
  ∀ i A, (k.mqs i).Holds A → ∃ A', run MqSpec.next A (x.event k i r.2).toList = some A' ∧ (r.1.mqs i).Holds A'

theorem MqEffect.same {r : Kernel × Outcome} (e : r.1.mqs = k.mqs) (hr : ∀ i, x.event k i r.2 = none) :
    MqEffect k x r := by
  intro i A hA
  rw [hr i, e]
  exact ⟨A, rfl, hA⟩

/-- An error changes nothing. -/
theorem MqEffect.code {r : Code} (hr : r ≠ Code.ok) : MqEffect k x (k.code r) := by
  refine .same rfl fun i => ?_
  cases x <;> simp [MqCall.event, Kernel.code, hr]

/-- Nor does blocking. -/
theorem MqEffect.block (w : Wait) (ms : Word) (p : Pending) : MqEffect k x (k.block w ms p) := by
  unfold Kernel.block taskBlockCurrent
  split
  · rename_i e he
    refine .code ?_
    split at he
    · cases he
      decide
    · split at he
      · cases he
        decide
      · split at he
        · cases he
          decide
        · cases he
  · refine .same rfl fun i => ?_
    cases x <;> rfl

omit cfg in
theorem mqStore_error {q : Mq} {message : List UInt8} {priority : ℕ} {isr : Bool} {e : Code}
    (h : mqStore q message priority isr = .error e) : e ≠ Code.ok := by
  unfold mqStore at h
  split at h
  · cases h
    decide
  · split at h
    · cases h
      decide
    · cases h

theorem wakeFirst_mqs (k : Kernel) (l : WaitList) : (k.wakeFirst l).mqs = k.mqs := by
  unfold wakeFirst
  split <;> rfl

theorem mqSendLoop_effect (hi : k.core.objFromHandle .mq h = some i) {message : List UInt8}
    (hm : message.length ≤ (k.mqs i).msgSize) (priority : ℕ) (start ms remaining : Word) (isr : Bool) :
    MqEffect k (.send h message priority) (k.mqSendLoop i h message priority start ms remaining isr) := by
  unfold mqSendLoop
  split
  · split
    · exact .code (by decide)
    · exact .block _ _ _
  · rename_i hroom
    split
    · rename_i e he
      exact .code (mqStore_error he)
    · rename_i q hq
      intro j A hA
      show ∃ A', run MqSpec.next A (MqCall.event k j _ (.ret (.code Code.ok))).toList = some A' ∧
        ((wakeFirst _ _).mqs j).Holds A'
      rw [wakeFirst_mqs]
      simp only [MqCall.event, hi, Option.some.injEq, and_true]
      by_cases hj : i = j
      · subst hj
        obtain ⟨A', h₁, h₂⟩ := hA.sent hm hroom hq
        rw [if_pos rfl, Function.update_self]
        exact ⟨A', by simp [run, h₁], h₂⟩
      · rw [if_neg hj, Function.update_of_ne (Ne.symm hj)]
        exact ⟨A, rfl, hA⟩

theorem mqSendCommon_effect (h : Handle) (message : List UInt8) (priority : ℕ) (ms : Word) (isr : Bool) :
    MqEffect k (.send h message priority) (k.mqSendCommon h (some message) priority ms isr) := by
  unfold mqSendCommon
  dsimp only
  split
  · refine .code ?_
    split <;> decide
  · split
    · exact .code (by decide)
    · split
      · exact .code (by decide)
      · rename_i i hi
        split
        · exact .code (by decide)
        · rename_i hm
          exact mqSendLoop_effect hi (not_lt.mp hm) _ _ _ _ _

theorem mqRecvLoop_effect (hi : k.core.objFromHandle .mq h = some i) (capacity : ℕ) (start ms remaining : Word) :
    MqEffect k (.recv h) (k.mqRecvLoop i h capacity start ms remaining) := by
  unfold mqRecvLoop
  dsimp only
  split
  · split
    · exact .code (by decide)
    · exact .block _ _ _
  · rename_i hc
    split
    · exact .same rfl fun i => rfl
    · intro j A hA
      show ∃ A', run MqSpec.next A (MqCall.event k j _ (.ret (.received _ _))).toList = some A' ∧
        ((wakeFirst _ _).mqs j).Holds A'
      rw [wakeFirst_mqs]
      simp only [MqCall.event, hi, Option.some.injEq]
      by_cases hj : i = j
      · subst hj
        obtain ⟨A', h₁, h₂⟩ := hA.received hc
        rw [if_pos rfl, Function.update_self]
        refine ⟨A', ?_, h₂⟩
        unfold Mq.cell at h₁
        simp [run, h₁]
      · rw [if_neg hj, Function.update_of_ne (Ne.symm hj)]
        exact ⟨A, rfl, hA⟩

theorem mqRecv_effect (h : Handle) (capacity : ℕ) (ms : Word) :
    MqEffect k (.recv h) (k.mqRecv h capacity ms) := by
  unfold mqRecv
  split
  · exact .code (by decide)
  · split
    · exact .code (by decide)
    · rename_i i hi
      exact mqRecvLoop_effect hi _ _ _ _

theorem mqCreate_effect (n size : ℕ) (st mem : Bool) :
    MqEffect k (.create n size st) (k.mqCreate n size st mem) := by
  unfold mqCreate
  split
  · exact .same rfl fun i => rfl
  · unfold createObject
    split
    · exact .same rfl fun i => rfl
    · rename_i i _
      intro j A hA
      show ∃ A', run MqSpec.next A (if i = j then _ else _ : Option MqEvent).toList = some A' ∧
        (Function.update k.mqs i _ j).Holds A'
      by_cases hj : i = j
      · subst hj
        rw [if_pos rfl, Function.update_self]
        exact ⟨_, rfl, Mq.holds_created n size st⟩
      · rw [if_neg hj, Function.update_of_ne (Ne.symm hj)]
        exact ⟨A, rfl, hA⟩

/-- A send or a receive that goes on after a wait. -/
theorem resume_mqSend {t : TaskId} {message : List UInt8} {priority : ℕ} {start ms ms' : Word}
    (hm : ∀ i, k.core.objFromHandle .mq h = some i → message.length ≤ (k.mqs i).msgSize) :
    MqEffect k (.send h message priority)
      (k.resume t { pending := .mqSend h message priority start ms, timeoutMs := ms' }) := by
  unfold resume
  dsimp only
  split
  · rename_i hr
    exact .code hr
  · split
    · exact .code (by decide)
    · rename_i i hi
      exact mqSendLoop_effect hi (hm i hi) _ _ _ _ _

theorem resume_mqRecv {t : TaskId} {capacity : ℕ} {start ms ms' : Word} :
    MqEffect k (.recv h) (k.resume t { pending := .mqRecv h capacity start ms, timeoutMs := ms' }) := by
  unfold resume
  dsimp only
  split
  · rename_i hr
    exact .code hr
  · split
    · exact .code (by decide)
    · rename_i i hi
      exact mqRecvLoop_effect hi _ _ _ _

end Kernel

/-- The use an action makes of a message queue, and how its section ends. -/
def Act.mqCall (s : Sys) : Act → Option (MqCall × Outcome)
  | .call (.mqCreate n size st mem) => some (.create n size st, (s.kernel.mqCreate n size st mem).2)
  | .call (.mqSend h (some m) p ms) => some (.send h m p, (s.kernel.mqSend h (some m) p ms).2)
  | .call (.mqRecv h c ms) => some (.recv h, (s.kernel.mqRecv h c ms).2)
  | .resume => s.runningTask.bind fun t => (s.frame t).bind fun f =>
    match f.pending with
    | .mqSend h m p _ _ => some (.send h m p, (s.kernel.resume t f).2)
    | .mqRecv h _ _ _ => some (.recv h, (s.kernel.resume t f).2)
    | _ => none
  | .isr (.mqSend h (some m)) => some (.send h m 0, (s.kernel.mqSendFromIsr h (some m)).2)
  | _ => none

namespace Sys

variable {s s' : Sys} {a : Act} {as : List Act} {i : ℕ} {A : MqSpec}

/-- What an action is seen to do to the queue in slot `i`. -/
def mqSeen (i : ℕ) (s : Sys) (a : Act) : List MqEvent :=
  (a.mqCall s).elim [] fun x => (x.1.event s.kernel i x.2).toList

/-- No message sent is longer than the messages of its queue. The calls check this before they
wait; a send that goes on after a wait does not check it again. -/
def MqFits (s : Sys) (a : Act) : Prop :=
  a = .resume → ∀ t h m p start ms ms' i, s.runningTask = some t →
    s.frame t = some { pending := .mqSend h m p start ms, timeoutMs := ms' } →
    s.core.objFromHandle .mq h = some i → m.length ≤ (s.kernel.mqs i).msgSize

/-- Where no use of a queue is seen, the queues stay as they are. -/
theorem mqs_of_mqCall (h : s.step a = some s') (ha : a.mqCall s = none) : s'.kernel.mqs = s.kernel.mqs := by
  by_cases hst : a.stores s ≠ some .mq
  · exact step_keeps h hst
  · -- only a null message is left
    cases a with
    | call c =>
      rw [← step_call_kernel h]
      cases c with
      | mqSend x m p ms =>
        cases m with
        | some m => cases ha
        | none =>
          show (s.kernel.mqSend x none p ms).1.mqs = _
          unfold Kernel.mqSend Kernel.mqSendCommon
          split <;> rfl
      | mqCreate | mqRecv => cases ha
      | _ => exact absurd (by simp [Act.stores, Call.stores]) hst
    | resume =>
      obtain ⟨t, f, ht, hf, rfl⟩ := step_resume h
      obtain ⟨p, ms⟩ := f
      simp only [Act.mqCall, Act.stores, ht, hf, Option.bind_some] at ha hst
      cases p with
      | mqSend | mqRecv => cases ha
      | _ => exact absurd (by simp [Pending.stores]) hst
    | isr c =>
      rw [← step_isr_kernel h]
      cases c with
      | mqSend x m =>
        cases m with
        | some m => cases ha
        | none =>
          show (s.kernel.mqSendFromIsr x none).1.mqs = _
          unfold Kernel.mqSendFromIsr Kernel.mqSendCommon
          split <;> rfl
      | _ => exact absurd (by simp [Act.stores, IsrCall.stores]) hst
    | _ => exact absurd (by simp [Act.stores]) hst

/-- **One action**: the queue in a slot changes as what is seen of the action says. -/
theorem mq_step (h : s.step a = some s') (hf : MqFits s a) (hA : (s.kernel.mqs i).Holds A) :
    ∃ A', run MqSpec.next A (mqSeen i s a) = some A' ∧ (s'.kernel.mqs i).Holds A' := by
  unfold mqSeen
  cases ha : a.mqCall s with
  | none =>
    rw [mqs_of_mqCall h ha]
    exact ⟨A, rfl, hA⟩
  | some x =>
    -- the section is that of a queue function, on the kernel of `s`
    suffices ∃ r, Kernel.MqEffect s.kernel x.1 r ∧ r.2 = x.2 ∧ r.1 = s'.kernel by
      obtain ⟨r, hr, h₁, h₂⟩ := this
      rw [Option.elim_some, ← h₁, ← h₂]
      exact hr i A hA
    cases a with
    | call c =>
      have hk := step_call_kernel h
      cases c with
      | mqCreate n size st mem =>
        cases ha
        exact ⟨_, Kernel.mqCreate_effect n size st mem, rfl, hk⟩
      | mqSend x m p ms =>
        cases m with
        | none => cases ha
        | some m =>
          cases ha
          refine ⟨_, ?_, rfl, hk⟩
          show Kernel.MqEffect _ _ (s.kernel.mqSend x (some m) p ms)
          unfold Kernel.mqSend
          split
          · exact .code (by decide)
          · exact Kernel.mqSendCommon_effect x m p ms false
      | mqRecv x c ms =>
        cases ha
        exact ⟨_, Kernel.mqRecv_effect x c ms, rfl, hk⟩
      | _ => cases ha
    | resume =>
      obtain ⟨t, f, ht, hfr, rfl⟩ := step_resume h
      obtain ⟨p, ms'⟩ := f
      simp only [Act.mqCall, ht, hfr, Option.bind_some] at ha
      rw [finish_kernel]
      cases p with
      | mqSend x m p start ms =>
        cases ha
        exact ⟨_, Kernel.resume_mqSend fun i hi => hf rfl t x m p start ms ms' i ht hfr hi, rfl, rfl⟩
      | mqRecv x c start ms =>
        cases ha
        exact ⟨_, Kernel.resume_mqRecv, rfl, rfl⟩
      | _ => cases ha
    | isr c =>
      have hk := step_isr_kernel h
      cases c with
      | mqSend x m =>
        cases m with
        | none => cases ha
        | some m =>
          cases ha
          refine ⟨s.kernel.mqSendFromIsr x (some m), ?_, rfl, hk⟩
          unfold Kernel.mqSendFromIsr
          split
          · exact .code (by decide)
          · exact Kernel.mqSendCommon_effect x m 0 0 true
      | _ => cases ha
    | _ => cases ha

/-- **A message queue is a bounded stable priority queue**: what a run is seen to do to the queue in
a slot is what the list of its messages allows, and at its end the arrays hold that list. An
action that is not seen to create, send or receive, as one that ends with an error is not,
leaves the list as it was. -/
theorem mq_refines (i : ℕ) (hp : Path (Next step) MqFits init as s) :
    ∃ A, run MqSpec.next {} (trace step (mqSeen i) init as) = some A ∧
      (s.kernel.mqs i).messages = A.messages ∧ (s.kernel.mqs i).count = A.messages.length ∧
      A.messages.length ≤ A.maxMsgs ∧ Ordered Message.priority A.messages ∧
      ∀ a s', MqFits s a → s.step a = some s' → mqSeen i s a = [] →
        (s'.kernel.mqs i).messages = A.messages := by
  obtain ⟨A, hA, hh⟩ := hp.simulates (R := fun s A => (s.kernel.mqs i).Holds A)
    (fun _ _ _ _ hA hf h => mq_step h hf hA) Mq.holds_empty
  have hlen : A.messages.length = (s.kernel.mqs i).count := by
    rw [← hh.messages]
    exact length_window
  refine ⟨A, hA, hh.messages, hlen.symm, ?_, hh.ordered, fun a s' hf h hno => ?_⟩
  · rw [hlen, ← hh.maxMsgs]
    exact hh.count
  · obtain ⟨A', h₁, h₂⟩ := mq_step h hf hh
    rw [hno] at h₁
    cases h₁
    exact h₂.messages

end Sys

end Aixos

namespace Aixos.Sys

open Transition Aixos.Core OrderedQueue

attribute [local instance] Config.default

/-- Task 1 fills a queue of three messages past the end of its ring and blocks with one more, of priority 2; task 0
receives the first. -/
def prioritized : List Act :=
  [.call (.taskCreate { stackSize := 512, priority := 3 }), .call (.taskCreate { stackSize := 512, priority := 9 }),
    .start true, .call .timerServiceWait, .switch, .call (.mqCreate 3 2 false true),
    .call (.mqSend ⟨0, 1⟩ (some [1]) 1 0), .call (.mqSend ⟨0, 1⟩ (some [9, 9]) 9 0), .call (.mqRecv ⟨0, 1⟩ 2 0),
    .call (.mqSend ⟨0, 1⟩ (some []) 3 0), .call (.mqSend ⟨0, 1⟩ (some [7]) 7 0),
    .call (.mqSend ⟨0, 1⟩ (some [2]) 2 forever), .switch, .call (.mqRecv ⟨0, 1⟩ 2 0), .switch]

/-- Task 1 goes on, and its message is inserted before the one of priority 1. -/
theorem prioritized_refines : ∃ s, run step init (prioritized ++ [.resume]) = some s ∧
    (s.kernel.mqs 0).head = 2 ∧ (s.kernel.mqs 0).messages = [⟨[], 3⟩, ⟨[2], 2⟩, ⟨[1], 1⟩] ∧
    ∃ A, run MqSpec.next {} (trace step (mqSeen 0) init (prioritized ++ [.resume])) = some A ∧
      (s.kernel.mqs 0).messages = A.messages ∧ (s.kernel.mqs 0).count = A.messages.length ∧
      A.messages.length ≤ A.maxMsgs ∧ Ordered Message.priority A.messages ∧
      ∀ a s', MqFits s a → s.step a = some s' → mqSeen 0 s a = [] →
        (s'.kernel.mqs 0).messages = A.messages := by
  obtain ⟨s, s', h, hs, hp⟩ := exists_run_step step init prioritized .resume (fun s s' =>
    decide (s.runningTask = some 1 ∧ s.frame 1 = some ⟨.mqSend ⟨0, 1⟩ [2] 2 0 forever, forever⟩ ∧
      s.core.objFromHandle .mq ⟨0, 1⟩ = some 0 ∧ (s.kernel.mqs 0).msgSize = 2 ∧ (s'.kernel.mqs 0).head = 2 ∧
      (s'.kernel.mqs 0).messages = [⟨[], 3⟩, ⟨[2], 2⟩, ⟨[1], 1⟩])) (by decide +kernel)
  obtain ⟨ht, hf, hi, hsize, h₁, h₂⟩ := of_decide_eq_true hp
  have hpath : Path (Next step) MqFits init prioritized s :=
    ((path_iff_run.mpr h).restrict (P := fun a => a ≠ .resume) (by simp [prioritized])).mono fun _ _ ha e => absurd e ha
  -- the message that task 1 has blocked with is not longer than the cells of the queue
  have hfits : MqFits s .resume := by
    rintro - t h m p start ms ms' i ht' hf' hi'
    obtain rfl : 1 = t := Option.some.inj (ht.symm.trans ht')
    cases hf.symm.trans hf'
    obtain rfl : 0 = i := Option.some.inj (hi.symm.trans hi')
    rw [hsize]
    decide
  have hpath' := hpath.append (.cons hfits hs (.nil s'))
  exact ⟨s', hpath'.run_eq, h₁, h₂, mq_refines 0 hpath'⟩

end Aixos.Sys
