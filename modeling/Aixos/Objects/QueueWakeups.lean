import Aixos.Objects.MessageQueue
import Aixos.Objects.Wakeups

/-!
# The wakeups of a message queue

A message stored wakes the first receiver, a message taken wakes the first sender. As long as
receivers wait, every stored message has a receiver of its own on the way, and the same holds of
free slots and senders, unless a task that has been woken leaves without having done
what it was woken for.

* `LeavesTooLong`, `LeavesUnsorted` — the two returns of a woken task that leave the message, or the
  slot, behind.
* `MqRecvEffect`, `MqSendEffect` — what a round of the loops does.
* `Sys.mqAttended_of_path` — nobody is left waiting while the queue could serve it and nobody is on
  the way.
-/

namespace Aixos

open Transition Aixos.Core WaitingRoom

variable [cfg : Config]

namespace Kernel

variable {k : Kernel} {h : Handle} {i j : ℕ}

/-- A round of the receiver's loop. -/
theorem mqRecvLoop_cases (k : Kernel) (i : ℕ) (h : Handle) (n : ℕ) (st ms rem : Word) :
    (k.mqs i).count = 0 ∧ ((∃ e, k.mqRecvLoop i h n st ms rem = k.code e) ∨
        (k.mqRecvLoop i h n st ms rem).1.mqs = k.mqs ∧
          (k.mqRecvLoop i h n st ms rem).2 = .wait { pending := .mqRecv h n st ms, timeoutMs := rem }) ∨
      (k.mqs i).count ≠ 0 ∧ n < (k.mqs i).lengths (k.mqs i).head ∧ (k.mqRecvLoop i h n st ms rem).1 = k ∧
        (∃ v, (k.mqRecvLoop i h n st ms rem).2 = .ret v) ∨
      ∃ q, (k.mqs i).count = q.count + 1 ∧ q.maxMsgs = (k.mqs i).maxMsgs ∧ (∃ v, (k.mqRecvLoop i h n st ms rem).2 = .ret v) ∧
        (k.mqRecvLoop i h n st ms rem).1 = { k with mqs := Function.update k.mqs i q }.wakeFirst (.mqSend i) := by
  unfold mqRecvLoop
  dsimp only
  by_cases hc : (k.mqs i).count = 0
  · rw [if_pos hc]
    refine .inl ⟨hc, ?_⟩
    split
    · exact .inl ⟨_, rfl⟩
    · rcases k.block_cases (.list (.mqRecv i)) rem (.mqRecv h n st ms) with ⟨e, hb, -⟩ | ⟨t, -, -, hb⟩
      · exact .inl ⟨e, hb⟩
      · rw [hb]
        exact .inr ⟨rfl, rfl⟩
  · rw [if_neg hc]
    refine .inr ?_
    by_cases hn : n < (k.mqs i).lengths (k.mqs i).head
    · rw [if_pos hn]
      exact .inl ⟨hc, hn, rfl, _, rfl⟩
    · rw [if_neg hn]
      exact .inr ⟨{ k.mqs i with head := ((k.mqs i).head + 1) % (k.mqs i).maxMsgs, count := (k.mqs i).count - 1 },
        (Nat.succ_pred_eq_of_ne_zero hc).symm, rfl, ⟨_, rfl⟩, rfl⟩

omit cfg in
theorem mqStore_count {q q' : Mq} {m : List UInt8} {p : ℕ} {isr : Bool} (h : mqStore q m p isr = .ok q') :
    q'.count = q.count + 1 ∧ q'.maxMsgs = q.maxMsgs := by
  unfold mqStore at h
  split at h
  · cases h
  · split at h
    · cases h
    · dsimp only at h
      obtain ⟨h₁, -, -, h₄, -⟩ := Mq.mqShift_shape (mqInsertIndex q p) (q.count - mqInsertIndex q p) q
      cases h
      exact ⟨congrArg (· + 1) h₄, h₁⟩

/-- A round of the sender's loop. -/
theorem mqSendLoop_cases (k : Kernel) (i : ℕ) (h : Handle) (m : List UInt8) (p : ℕ) (st ms rem : Word) (isr : Bool) :
    (k.mqs i).count = (k.mqs i).maxMsgs ∧ ((∃ e, k.mqSendLoop i h m p st ms rem isr = k.code e) ∨
        (k.mqSendLoop i h m p st ms rem isr).1.mqs = k.mqs ∧
          isr = false ∧ (k.mqSendLoop i h m p st ms rem isr).2 = .wait { pending := .mqSend h m p st ms, timeoutMs := rem }) ∨
      (k.mqs i).count ≠ (k.mqs i).maxMsgs ∧ (∃ e, mqStore (k.mqs i) m p isr = .error e ∧ k.mqSendLoop i h m p st ms rem isr = k.code e) ∨
      ∃ q, (k.mqs i).count ≠ (k.mqs i).maxMsgs ∧ q.count = (k.mqs i).count + 1 ∧ q.maxMsgs = (k.mqs i).maxMsgs ∧
        (∃ v, (k.mqSendLoop i h m p st ms rem isr).2 = .ret v) ∧
        (k.mqSendLoop i h m p st ms rem isr).1 = { k with mqs := Function.update k.mqs i q }.wakeFirst (.mqRecv i) := by
  unfold mqSendLoop
  by_cases hc : (k.mqs i).count = (k.mqs i).maxMsgs
  · rw [if_pos hc]
    refine .inl ⟨hc, ?_⟩
    split
    · exact .inl ⟨_, rfl⟩
    · rename_i hisr
      rcases k.block_cases (.list (.mqSend i)) rem (.mqSend h m p st ms) with ⟨e, hb, -⟩ | ⟨t, -, -, hb⟩
      · exact .inl ⟨e, hb⟩
      · rw [hb]
        exact .inr ⟨rfl, by simpa using (not_or.mp hisr).1, rfl⟩
  · rw [if_neg hc]
    refine .inr ?_
    cases hs : mqStore (k.mqs i) m p isr with
    | error e => exact .inl ⟨hc, e, rfl, rfl⟩
    | ok q =>
      obtain ⟨h₁, h₂⟩ := mqStore_count hs
      exact .inr ⟨q, hc, h₁, h₂, ⟨_, rfl⟩, rfl⟩

/-- The loops leave other queues alone. -/
theorem mqRecvLoop_other (k : Kernel) (hj : i ≠ j) (h : Handle) (n : ℕ) (st ms rem : Word) :
    (k.mqRecvLoop j h n st ms rem).1.mqs i = k.mqs i := by
  rcases k.mqRecvLoop_cases j h n st ms rem with ⟨-, ⟨e, h⟩ | ⟨h, -⟩⟩ | ⟨-, -, h, -⟩ | ⟨q, -, -, -, h⟩
  · rw [h]
    rfl
  · rw [h]
  · rw [h]
  · rw [h, wakeFirst_mqs]
    exact Function.update_of_ne hj ..

theorem mqSendLoop_other (k : Kernel) (hj : i ≠ j) (h : Handle) (m : List UInt8) (p : ℕ) (st ms rem : Word) (isr : Bool) :
    (k.mqSendLoop j h m p st ms rem isr).1.mqs i = k.mqs i := by
  rcases k.mqSendLoop_cases j h m p st ms rem isr with ⟨-, ⟨e, h⟩ | ⟨h, -⟩⟩ | ⟨-, e, -, h⟩ | ⟨q, -, -, -, -, h⟩
  · rw [h]
    rfl
  · rw [h]
  · rw [h]
    rfl
  · rw [h, wakeFirst_mqs]
    exact Function.update_of_ne hj ..

theorem mqSendCommon_cases (k : Kernel) (h : Handle) (m : Option (List UInt8)) (p : ℕ) (ms : Word) (isr : Bool) :
    (∃ e, k.mqSendCommon h m p ms isr = k.code e) ∨ ∃ i m' st, k.core.objFromHandle .mq h = some i ∧
      k.mqSendCommon h m p ms isr = k.mqSendLoop i h m' p st ms ms isr := by
  unfold mqSendCommon
  cases m with
  | none => exact .inl ⟨_, rfl⟩
  | some m =>
    dsimp only
    split
    · exact .inl ⟨_, rfl⟩
    · split
      · exact .inl ⟨_, rfl⟩
      · split
        · exact .inl ⟨_, rfl⟩
        · rename_i i hi
          split
          · exact .inl ⟨_, rfl⟩
          · exact .inr ⟨i, m, _, hi, rfl⟩

end Kernel

namespace Sys

variable {s s' : Sys} {a : Act} {as : List Act} {t : TaskId} {i : ℕ}

/-- A receiver that has been woken finds a first message longer than its buffer. -/
def LeavesTooLong (i : ℕ) (s : Sys) (a : Act) : Prop :=
  ∃ x n st ms, s.Resumes a (.mqRecv x n st ms) ∧ s.core.objFromHandle .mq x = some i ∧
    (s.kernel.mqs i).count ≠ 0 ∧ n < (s.kernel.mqs i).lengths (s.kernel.mqs i).head

/-- A sender that has been woken finds room, but the queue stores no priorities. -/
def LeavesUnstored (i : ℕ) (s : Sys) (a : Act) : Prop :=
  ∃ x m p st ms, s.Resumes a (.mqSend x m p st ms) ∧ s.core.objFromHandle .mq x = some i ∧
    (s.kernel.mqs i).count ≠ (s.kernel.mqs i).maxMsgs ∧ p ≠ 0 ∧ (s.kernel.mqs i).priorities = none

/-- What an action does that receives from the queue. -/
inductive MqRecvEffect (i : ℕ) (s s' : Sys) (a : Act) : Prop where
  /-- It returns without a message. -/
  | same : s'.kernel = s.kernel → ((∀ t, Woken s (.mqRecv i) t → Paused t s a) ∨ (s.kernel.mqs i).count = 0 ∨
      LeavesTooLong i s a) → MqRecvEffect i s s' a
  /-- It blocks. -/
  | blocks : Blocked (.mqRecv i) s s' → s'.kernel.mqs = s.kernel.mqs → (s.kernel.mqs i).count = 0 → MqRecvEffect i s s' a
  /-- It takes a message. -/
  | takes (q : Mq) : (s.kernel.mqs i).count = q.count + 1 → q.maxMsgs = (s.kernel.mqs i).maxMsgs →
      s'.kernel.mqs = Function.update s.kernel.mqs i q → WakesFirst (.mqSend i) s s' → MqRecvEffect i s s' a

/-- What an action does that sends to the queue. -/
inductive MqSendEffect (i : ℕ) (s s' : Sys) (a : Act) : Prop where
  /-- It returns without having stored the message. -/
  | same : s'.kernel = s.kernel → ((∀ t, Woken s (.mqSend i) t → Paused t s a) ∨
      (s.kernel.mqs i).count = (s.kernel.mqs i).maxMsgs ∨ LeavesUnstored i s a) → MqSendEffect i s s' a
  /-- It blocks. -/
  | blocks : Blocked (.mqSend i) s s' → s'.kernel.mqs = s.kernel.mqs →
      (s.kernel.mqs i).count = (s.kernel.mqs i).maxMsgs → MqSendEffect i s s' a
  /-- It stores the message. -/
  | stores (q : Mq) : (s.kernel.mqs i).count ≠ (s.kernel.mqs i).maxMsgs → q.count = (s.kernel.mqs i).count + 1 →
      q.maxMsgs = (s.kernel.mqs i).maxMsgs → s'.kernel.mqs = Function.update s.kernel.mqs i q →
      WakesFirst (.mqRecv i) s s' → MqSendEffect i s s' a

theorem mqRecv_uses (h : s.step a = some s') (hu : UsesList s a (.mqRecv i)) : MqRecvEffect i s s' a := by
  -- a round of the loop, which has been left if the message is too long
  have round : ∀ {x n st ms rem}, s.core.objFromHandle .mq x = some i →
      Ran s s' (s.kernel.mqRecvLoop i x n st ms rem) → (a ≠ .resume ∨ s.Resumes a (.mqRecv x n st ms)) →
      MqRecvEffect i s s' a := by
    intro x n st ms rem hx hr ha
    rcases s.kernel.mqRecvLoop_cases i x n st ms rem with ⟨hc, ⟨e, h⟩ | ⟨h₁, h₂⟩⟩ | ⟨hc, hn, h, -⟩ | ⟨q, h₁, h₂, -, h₄⟩
    · refine .same ?_ (.inr (.inl hc))
      rw [hr.1, h]
      rfl
    · obtain ⟨t, ht, hf⟩ := hr.2 _ h₂
      exact .blocks ⟨t, _, ht, hf, hx⟩ (by rw [hr.1, h₁]) hc
    · refine .same (by rw [hr.1, h]) ?_
      rcases ha with ha | ha
      · exact .inl fun t _ hp => ha hp.1
      · exact .inr (.inr ⟨x, n, st, ms, ha, hx, hc, hn⟩)
    · have e := hr.1.trans h₄
      refine .takes q h₁ h₂ ?_ (wakesFirst_of_kernel e rfl)
      rw [e, Kernel.wakeFirst_mqs]
  obtain ⟨x, hx, ⟨n, ms, rfl⟩ | ⟨n, st, ms, rfl, t, tm, ht, hf⟩⟩ := hu
  · have hr := ran_call h
    have hc : s.kernel.call (.mqRecv x n ms) = s.kernel.mqRecv x n ms := rfl
    rw [hc] at hr
    unfold Kernel.mqRecv at hr
    split at hr
    · exact .same hr.1 (.inl fun t _ hp => nomatch hp.1)
    · rw [hx] at hr
      exact round hx hr (.inl (by simp))
  · have hr := ran_resume h ht hf
    unfold Kernel.resume at hr
    dsimp only at hr
    split at hr
    · rename_i hne
      refine .same hr.1 (.inl fun u hu hp => hne ?_)
      obtain rfl : t = u := Option.some.inj (ht.symm.trans hp.2)
      exact hu.granted.2
    · rw [hx] at hr
      exact round hx hr (.inr ⟨rfl, t, tm, ht, hf⟩)

theorem mqSend_uses (h : s.step a = some s') (hu : UsesList s a (.mqSend i)) : MqSendEffect i s s' a := by
  -- a round of the loop, which has been left if the message cannot be stored
  have round : ∀ {x m p st ms rem isr r}, s.core.objFromHandle .mq x = some i → s'.kernel = r.1 →
      (isr = false → ∀ f, r.2 = .wait f → ∃ t, s.runningTask = some t ∧ s'.frame t = some f) →
      r = s.kernel.mqSendLoop i x m p st ms rem isr →
      (a ≠ .resume ∨ isr = false ∧ s.Resumes a (.mqSend x m p st ms)) → MqSendEffect i s s' a := by
    rintro x m p st ms rem isr r hx hk hf rfl ha
    rcases s.kernel.mqSendLoop_cases i x m p st ms rem isr with ⟨hc, ⟨e, h⟩ | ⟨h₁, h₂, h₃⟩⟩ | ⟨hc, e, he, h⟩ |
      ⟨q, hc, h₁, h₂, -, h₄⟩
    · refine .same ?_ (.inr (.inl hc))
      rw [hk, h]
      rfl
    · obtain ⟨t, ht, hf⟩ := hf h₂ _ h₃
      exact .blocks ⟨t, _, ht, hf, hx⟩ (by rw [hk, h₁]) hc
    · refine .same (by rw [hk, h]; rfl) ?_
      rcases ha with ha | ⟨rfl, ha⟩
      · exact .inl fun t _ hp => ha hp.1
      · refine .inr (.inr ⟨x, m, p, st, ms, ha, hx, hc, ?_⟩)
        unfold Kernel.mqStore at he
        split at he
        · rename_i hp
          exact ⟨hp.2, Option.isNone_iff_eq_none.mp hp.1⟩
        · simp at he
    · have e := hk.trans h₄
      refine .stores q hc h₁ h₂ ?_ (wakesFirst_of_kernel e rfl)
      rw [e, Kernel.wakeFirst_mqs]
  have error : ∀ {e}, s'.kernel = (s.kernel.code e).1 → a ≠ .resume → MqSendEffect i s s' a :=
    fun e ha => .same e (.inl fun t _ hp => ha hp.1)
  obtain ⟨x, hx, ⟨m, p, ms, rfl⟩ | ⟨m, rfl⟩ | ⟨m, p, st, ms, rfl, t, tm, ht, hf⟩⟩ := hu
  · have hr := ran_call h
    have hc : s.kernel.call (.mqSend x m p ms) = s.kernel.mqSend x m p ms := rfl
    rw [hc] at hr
    unfold Kernel.mqSend at hr
    split at hr
    · exact error hr.1 (by simp)
    · rcases s.kernel.mqSendCommon_cases x m p ms false with ⟨e, he⟩ | ⟨j, m', st, hj, he⟩
      · rw [he] at hr
        exact error hr.1 (by simp)
      · obtain rfl : i = j := Option.some.inj (hx.symm.trans hj)
        exact round hx hr.1 (fun _ => hr.2) he (.inl (by simp))
  · have hk : s'.kernel = (s.kernel.mqSendFromIsr x m).1 := (step_isr_kernel h).symm
    unfold Kernel.mqSendFromIsr at hk
    split at hk
    · exact error hk (by simp)
    · rcases s.kernel.mqSendCommon_cases x m 0 0 true with ⟨e, he⟩ | ⟨j, m', st, hj, he⟩
      · rw [he] at hk
        exact error hk (by simp)
      · obtain rfl : i = j := Option.some.inj (hx.symm.trans hj)
        exact round hx hk (by simp) he (.inl (by simp))
  · have hr := ran_resume h ht hf
    unfold Kernel.resume at hr
    dsimp only at hr
    split at hr
    · rename_i hne
      refine .same hr.1 (.inl fun u hu hp => hne ?_)
      obtain rfl : t = u := Option.some.inj (ht.symm.trans hp.2)
      exact hu.granted.2
    · rw [hx] at hr
      exact round hx hr.1 (fun _ => hr.2) rfl (.inr ⟨rfl, rfl, t, tm, ht, hf⟩)

/-- Other actions leave a queue alone, or make it. -/
theorem mqs_step (hs : ¬ UsesList s a (.mqSend i)) (hr : ¬ UsesList s a (.mqRecv i)) (h : s.step a = some s') :
    s'.kernel.mqs i = s.kernel.mqs i ∨ (s.core.slots .mq i).used = false ∧ (s'.kernel.mqs i).count = 0 := by
  by_cases hst : a.stores s ≠ some .mq
  · exact .inl (congrFun (step_keeps h hst) i)
  · -- a call on another queue, or on one that is being made
    have send : ∀ {x m p ms isr}, (s.core.objFromHandle .mq x = some i → False) →
        (s.kernel.mqSendCommon x m p ms isr).1.mqs i = s.kernel.mqs i := by
      intro x m p ms isr hx
      rcases s.kernel.mqSendCommon_cases x m p ms isr with ⟨e, he⟩ | ⟨j, m', st, hj, he⟩
      · rw [he]
        rfl
      · rw [he]
        refine s.kernel.mqSendLoop_other ?_ ..
        rintro rfl
        exact hx hj
    cases a with
    | call c =>
      rw [← step_call_kernel h]
      cases c with
      | mqCreate n size st mem =>
        show (s.kernel.mqCreate n size st mem).1.mqs i = _ ∨ _ ∧ ((s.kernel.mqCreate n size st mem).1.mqs i).count = 0
        unfold Kernel.mqCreate
        split
        · exact .inl rfl
        · unfold Kernel.createObject
          split
          · exact .inl rfl
          · rename_i j hj
            by_cases hne : i = j
            · subst hne
              refine .inr ⟨(freeSlot_eq_some hj).1, ?_⟩
              dsimp only
              rw [Function.update_self]
            · exact .inl (Function.update_of_ne hne ..)
      | mqSend x m p ms =>
        left
        show (s.kernel.mqSend x m p ms).1.mqs i = _
        unfold Kernel.mqSend
        split
        · rfl
        · exact send fun hx => hs ⟨x, hx, .inl ⟨m, p, ms, rfl⟩⟩
      | mqRecv x n ms =>
        left
        show (s.kernel.mqRecv x n ms).1.mqs i = _
        unfold Kernel.mqRecv
        split
        · rfl
        · cases hj : s.core.objFromHandle .mq x with
          | none => rfl
          | some j =>
            refine s.kernel.mqRecvLoop_other ?_ ..
            rintro rfl
            exact hr ⟨x, hj, .inl ⟨n, ms, rfl⟩⟩
      | _ => exact absurd (by simp [Act.stores, Call.stores]) hst
    | isr c =>
      rw [← step_isr_kernel h]
      cases c with
      | mqSend x m =>
        left
        show (s.kernel.mqSendFromIsr x m).1.mqs i = _
        unfold Kernel.mqSendFromIsr
        split
        · rfl
        · exact send fun hx => hs ⟨x, hx, .inr (.inl ⟨m, rfl⟩)⟩
      | _ => exact absurd (by simp [Act.stores, IsrCall.stores]) hst
    | resume =>
      obtain ⟨t, f, ht, hf, -⟩ := step_resume h
      rw [(ran_resume h ht hf).1]
      obtain ⟨p, tm⟩ := f
      have goes : s.Resumes .resume p := ⟨rfl, t, tm, ht, hf⟩
      simp only [Act.stores, ht, hf, Option.bind_some] at hst
      unfold Kernel.resume
      dsimp only
      cases p with
      | mqSend x m p st ms =>
        left
        dsimp only
        split
        · rfl
        · cases hj : s.core.objFromHandle .mq x with
          | none => rfl
          | some j =>
            refine s.kernel.mqSendLoop_other ?_ ..
            rintro rfl
            exact hs ⟨x, hj, .inr (.inr ⟨m, p, st, ms, goes⟩)⟩
      | mqRecv x n st ms =>
        left
        dsimp only
        split
        · rfl
        · cases hj : s.core.objFromHandle .mq x with
          | none => rfl
          | some j =>
            refine s.kernel.mqRecvLoop_other ?_ ..
            rintro rfl
            exact hr ⟨x, hj, .inr ⟨n, st, ms, goes⟩⟩
      | _ => exact absurd (by simp [Pending.stores]) hst
    | _ => exact absurd (by simp [Act.stores]) hst

/-! ### The law -/

/-- No wakeup of the queue is dropped: a task that has been woken does not leave without having done
what it was woken for, nor is it deleted, while others wait. -/
structure MqServes (i : ℕ) (s : Sys) (a : Act) : Prop where
  clean : StartsClean s a
  recv : LeavesTooLong i s a → s.core.waitLists (.mqRecv i) = []
  send : LeavesUnstored i s a → s.core.waitLists (.mqSend i) = []
  recvSpares : Spares (.mqRecv i) s a
  sendSpares : Spares (.mqSend i) s a

/-- The receivers of the queue, and its messages. -/
def recvRoom (i : ℕ) (s : Sys) : Room TaskId := room (.mqRecv i) (s.kernel.mqs i).count s

/-- The senders of the queue, and its free slots. -/
def sendRoom (i : ℕ) (s : Sys) : Room TaskId :=
  room (.mqSend i) ((s.kernel.mqs i).maxMsgs - (s.kernel.mqs i).count) s

/-- The invariant of the queue. -/
structure MqOk (i : ℕ) (s : Sys) : Prop where
  steady : Steady s
  bounded : (s.kernel.mqs i).count ≤ (s.kernel.mqs i).maxMsgs
  recvPlaced : Placed (.mqRecv i) s
  sendPlaced : Placed (.mqSend i) s
  /-- Every message has a receiver on the way, as long as receivers wait. -/
  recv : (recvRoom i s).Covered
  /-- Every free slot has a sender on the way, as long as senders wait. -/
  send : (sendRoom i s).Covered

theorem bounded_step (hb : (s.kernel.mqs i).count ≤ (s.kernel.mqs i).maxMsgs) (h : s.step a = some s') :
    (s'.kernel.mqs i).count ≤ (s'.kernel.mqs i).maxMsgs := by
  by_cases hr : UsesList s a (.mqRecv i)
  · cases mqRecv_uses h hr with
    | same e =>
      rw [e]
      exact hb
    | blocks _ e =>
      rw [e]
      exact hb
    | takes q h₁ h₂ e =>
      rw [e, Function.update_self]
      omega
  · by_cases hs : UsesList s a (.mqSend i)
    · cases mqSend_uses h hs with
      | same e =>
        rw [e]
        exact hb
      | blocks _ e =>
        rw [e]
        exact hb
      | stores q hc h₁ h₂ e =>
        rw [e, Function.update_self]
        omega
    · rcases mqs_step hs hr h with e | ⟨-, e⟩
      · rw [e]
        exact hb
      · omega

/-- **The receivers at one action.** -/
theorem recvRoom_step (hk : MqOk i s) (hc : MqServes i s a) (hs' : Sound s'.core) (h : s.step a = some s') :
    (recvRoom i s').Covered := by
  have keeps : (s'.kernel.mqs i).count ≤ (s.kernel.mqs i).count → NoneJoins (.mqRecv i) s s' →
      (∀ t, Woken s (.mqRecv i) t → Paused t s a) → (recvRoom i s').Covered := by
    rintro hn hj hp ⟨t, ht⟩
    exact hk.recv.keeps (keeps_room hk.steady hs' h hn hj hp hc.recvSpares ht) ⟨t, ht⟩
  by_cases hr : UsesList s a (.mqRecv i)
  · cases mqRecv_uses h hr with
    | same e hp =>
      have ecore : s'.core = s.core := congrArg Kernel.core e
      rcases hp with hp | hp | hp
      · exact keeps (by rw [e]) (noneJoins_of_core ecore) hp
      · exact Room.covered_of_stock (by rw [recvRoom, room, e]; exact hp)
      · -- nobody waits that the wakeup would be for
        rintro ⟨t, ht⟩
        have ht : t ∈ s'.core.waitLists (.mqRecv i) := ht
        rw [ecore, hc.recv hp] at ht
        cases ht
    | blocks _ e hz => exact Room.covered_of_stock (by rw [recvRoom, room, e]; exact hz)
    | takes q h₁ h₂ e hw =>
      rintro ⟨t, ht⟩
      obtain ⟨u, hu⟩ := exists_looker s a
      have hj : NoneJoins (.mqRecv i) s s' := hw.noneJoins hk.steady.sound hs' (by simp)
      refine hk.recv.takes (t := u) (takes_room hk.steady hs' h ?_ hj hu hc.recvSpares ht) ⟨t, ht⟩
      rw [e, Function.update_self]
      omega
  · have hj := noneJoins_of_not_uses hk.steady.sound hs' h hr
    have hp : ∀ t, Woken s (.mqRecv i) t → Paused t s a := fun t => paused_of_not_uses hr
    by_cases hs : UsesList s a (.mqSend i)
    · cases mqSend_uses h hs with
      | same e => exact keeps (by rw [e]) hj hp
      | blocks _ e => exact keeps (by rw [e]) hj hp
      | stores q _ h₁ _ e hw =>
        rintro ⟨t, ht⟩
        refine hk.recv.wakes (wakes_room hk.steady hs' h hk.recvPlaced (by simp) ?_ hw hp hc.recvSpares ht) ⟨t, ht⟩
        rw [e, Function.update_self]
        omega
    · rcases mqs_step hs hr h with e | ⟨-, e⟩
      · exact keeps (by rw [e]) hj hp
      · exact Room.covered_of_stock e

/-- **The senders at one action.** -/
theorem sendRoom_step (hk : MqOk i s) (hc : MqServes i s a) (hs' : Sound s'.core) (h : s.step a = some s') :
    (sendRoom i s').Covered := by
  have hb := hk.bounded
  have keeps : s'.kernel.mqs i = s.kernel.mqs i → NoneJoins (.mqSend i) s s' →
      (∀ t, Woken s (.mqSend i) t → Paused t s a) → (sendRoom i s').Covered := by
    rintro e hj hp ⟨t, ht⟩
    exact hk.send.keeps (keeps_room hk.steady hs' h (by rw [e]) hj hp hc.sendSpares ht) ⟨t, ht⟩
  by_cases hs : UsesList s a (.mqSend i)
  · cases mqSend_uses h hs with
    | same e hp =>
      have ecore : s'.core = s.core := congrArg Kernel.core e
      rcases hp with hp | hp | hp
      · exact keeps (by rw [e]) (noneJoins_of_core ecore) hp
      · exact Room.covered_of_stock (by rw [sendRoom, room, e]; dsimp only; omega)
      · -- nobody waits that the wakeup would be for
        rintro ⟨t, ht⟩
        have ht : t ∈ s'.core.waitLists (.mqSend i) := ht
        rw [ecore, hc.send hp] at ht
        cases ht
    | blocks _ e hf => exact Room.covered_of_stock (by rw [sendRoom, room, e]; dsimp only; omega)
    | stores q hne h₁ h₂ e hw =>
      rintro ⟨t, ht⟩
      obtain ⟨u, hu⟩ := exists_looker s a
      have hj : NoneJoins (.mqSend i) s s' := hw.noneJoins hk.steady.sound hs' (by simp)
      refine hk.send.takes (t := u) (takes_room hk.steady hs' h ?_ hj hu hc.sendSpares ht) ⟨t, ht⟩
      rw [e, Function.update_self]
      omega
  · have hj := noneJoins_of_not_uses hk.steady.sound hs' h hs
    have hp : ∀ t, Woken s (.mqSend i) t → Paused t s a := fun t => paused_of_not_uses hs
    by_cases hr : UsesList s a (.mqRecv i)
    · cases mqRecv_uses h hr with
      | same e => exact keeps (by rw [e]) hj hp
      | blocks _ e => exact keeps (by rw [e]) hj hp
      | takes q h₁ h₂ e hw =>
        rintro ⟨t, ht⟩
        refine hk.send.wakes (wakes_room hk.steady hs' h hk.sendPlaced (by simp) ?_ hw hp hc.sendSpares ht) ⟨t, ht⟩
        rw [e, Function.update_self]
        omega
    · rintro ⟨t, ht⟩
      have hu := used_of_waits hk.steady.sound hs' h rfl ht
      rcases mqs_step hs hr h with e | ⟨hf, -⟩
      · exact keeps e hj hp ⟨t, ht⟩
      · rw [hu] at hf
        cases hf

theorem mqOk_step (hk : MqOk i s) (hc : MqServes i s a) (h : s.step a = some s') : MqOk i s' := by
  have hst := hk.steady.step hc.clean h
  refine ⟨hst, bounded_step hk.bounded h, ?_, ?_, recvRoom_step hk hc hst.sound h, sendRoom_step hk hc hst.sound h⟩
  · refine placed_step hk.steady hst.sound h hk.recvPlaced fun hu => ?_
    cases mqRecv_uses h hu with
    | same e => exact .inl (congrArg Kernel.core e)
    | blocks hb => exact .inr (.inl hb)
    | takes q _ _ _ hw => exact .inr (.inr ⟨_, by simp, hw⟩)
  · refine placed_step hk.steady hst.sound h hk.sendPlaced fun hu => ?_
    cases mqSend_uses h hu with
    | same e => exact .inl (congrArg Kernel.core e)
    | blocks hb => exact .inr (.inl hb)
    | stores q _ _ _ _ hw => exact .inr (.inr ⟨_, by simp, hw⟩)

theorem mqOk_init (i : ℕ) : MqOk i init where
  steady := steady_init
  bounded := le_rfl
  recvPlaced t ht := by cases ht
  sendPlaced t ht := by cases ht
  recv := by
    rintro ⟨t, ht⟩
    cases ht
  send := by
    rintro ⟨t, ht⟩
    cases ht

/-- Nobody is left waiting while the queue could serve it and nobody is on the way. -/
structure MqAttended (i : ℕ) (s : Sys) : Prop where
  /-- If a message is stored and a receiver waits, a receiver has been woken and has not gone on yet. -/
  receivers : (s.kernel.mqs i).count ≠ 0 → s.core.waitLists (.mqRecv i) ≠ [] → ∃ t, Woken s (.mqRecv i) t
  /-- If a slot is free and a sender waits, a sender has been woken and has not gone on yet. -/
  senders : (s.kernel.mqs i).count ≠ (s.kernel.mqs i).maxMsgs → s.core.waitLists (.mqSend i) ≠ [] →
    ∃ t, Woken s (.mqSend i) t

/-- **No wakeup of a message queue is lost** in every run in which none is dropped. -/
theorem mqAttended_of_path (hp : Path (Next step) (MqServes i) init as s) : MqAttended i s := by
  have hk : MqOk i s := hp.invariant (I := MqOk i) (fun _ _ _ hk hc h => mqOk_step hk hc h) (mqOk_init i)
  have hb := hk.bounded
  constructor
  · intro hn hw
    obtain ⟨t, ht⟩ := List.exists_mem_of_ne_nil _ hw
    exact hk.recv.attended ⟨t, ht⟩ (Nat.pos_of_ne_zero hn)
  · intro hn hw
    obtain ⟨t, ht⟩ := List.exists_mem_of_ne_nil _ hw
    refine hk.send.attended ⟨t, ht⟩ ?_
    show 0 < (s.kernel.mqs i).maxMsgs - (s.kernel.mqs i).count
    omega

end Sys

end Aixos

namespace Aixos.Sys

open Transition Aixos.Core

attribute [local instance] Config.default

/-- Task 2 and then task 1 receive from an empty queue, with buffers of `n` and of 4 bytes, and task 0
sends a message of 2 bytes. -/
def awaited (n : ℕ) : List Act :=
  boot [{ stackSize := 512, priority := 3 }, { stackSize := 512, priority := 7 }, { stackSize := 512, priority := 9 }] true ++
  [.call .timerServiceWait, .switch, .call (.mqCreate 2 4 false true), .call (.mqRecv ⟨0, 1⟩ n forever), .switch,
    .call (.mqRecv ⟨0, 1⟩ 4 forever), .switch, .call (.mqSend ⟨0, 1⟩ (some [1, 2]) 0 forever)]

theorem awaited_mqAttended : ∃ s, run step init (awaited 4) = some s ∧ (s.kernel.mqs 0).count = 1 ∧
    s.core.waitLists (.mqRecv 0) = [1] ∧ MqAttended 0 s := by
  obtain ⟨s, h, hp⟩ := exists_run step init (awaited 4) (fun s => decide ((s.kernel.mqs 0).count = 1 ∧
    s.core.waitLists (.mqRecv 0) = [1])) (by decide +kernel)
  obtain ⟨h₁, h₂⟩ := of_decide_eq_true hp
  -- nobody goes on after a wait, and nobody is deleted
  have hpath := (path_of_boot h).1.both (P := fun a => a ≠ .resume ∧ ∀ t, a ≠ .call (.taskDelete t)) (by simp [boot])
  refine ⟨s, h, h₁, h₂, mqAttended_of_path (hpath.mono fun s a ha => ⟨ha.1, ?_, ?_, ?_, ?_⟩)⟩
  · rintro ⟨x, n, st, ms, ⟨e, -⟩, -⟩
    exact absurd e ha.2.1
  · rintro ⟨x, m, p, st, ms, ⟨e, -⟩, -⟩
    exact absurd e ha.2.1
  · exact fun t e => absurd e.1 (ha.2.2 t)
  · exact fun t e => absurd e.1 (ha.2.2 t)

/-- The buffer of task 2, which is woken, is too small; it leaves the message, and task 1 goes on
waiting for it. -/
theorem awaited_not_mqAttended : ∃ s, run step init (awaited 1 ++ [.switch, .resume]) = some s ∧
    s.ret 2 = some (.tooLong 2) ∧ ¬ MqAttended 0 s := by
  obtain ⟨s, h, hp⟩ := exists_run step init (awaited 1 ++ [.switch, .resume]) (fun s =>
    decide (s.ret 2 = some (.tooLong 2) ∧ (s.kernel.mqs 0).count ≠ 0 ∧ s.core.waitLists (.mqRecv 0) ≠ [] ∧
      ∀ t < s.core.nextTask, s.frame t = none ∨ (s.core.tasks t).wait ≠ none)) (by decide +kernel)
  obtain ⟨h₁, hn, hw, hall⟩ := of_decide_eq_true hp
  refine ⟨s, h, h₁, fun hm => ?_⟩
  obtain ⟨t, ht⟩ := hm.receivers hn hw
  have hs : Sound s.core := by
    rw [awaited, List.append_assoc] at h
    exact sound_path (path_of_boot h).1 sound_init
  rcases hall t (hs.wf.fresh t ht.live) with hf | hf
  · obtain ⟨f, hf', -⟩ := ht.frame
    rw [hf] at hf'
    cases hf'
  · exact hf ht.granted.1

end Aixos.Sys
