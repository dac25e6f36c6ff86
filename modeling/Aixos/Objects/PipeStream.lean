import Aixos.Objects.Buffers

/-!
# Pipes

A pipe is a ring of bytes; a transfer is copied in two pieces where it goes past the end of
the ring. What it carries is a stream: the bytes that writes have accepted, of which reads
have returned a first part.

* `PipeSpec` — what a pipe is for: the bytes written and the bytes read.
* `Pipe.Holds p A` — the ring holds the bytes written and not read yet.
* `Sys.pipeSeen` — what an action is seen to do to a pipe.
* `Sys.pipe_refines` — in every run the bytes read are a prefix of the bytes written.
-/

namespace Aixos

open Transition Aixos.Core Ring Kernel

/-- A pipe, as its users see it. -/
structure PipeSpec where
  /-- How many bytes it holds. -/
  size : ℕ := 0
  /-- The bytes that writes have accepted. -/
  written : List UInt8 := []
  /-- The bytes that reads have returned. -/
  read : List UInt8 := []

/-- The number of bytes on the way. -/
def PipeSpec.count (A : PipeSpec) : ℕ := A.written.length - A.read.length

/-- What is seen of the use of a pipe. -/
inductive PipeEvent where
  /-- The pipe was created. -/
  | created (size : ℕ)
  /-- A write of `data` returned `n`. -/
  | wrote (data : List UInt8) (n : ℕ)
  /-- A read of `length` bytes returned `bytes`. -/
  | read (length : ℕ) (bytes : List UInt8)

/-- What may be seen next: a write accepts its first bytes, as many as there is room for; a read
returns the next bytes, as many as there are. -/
def PipeSpec.next (A : PipeSpec) : PipeEvent → Option PipeSpec
  | .created size => some { size := size }
  | .wrote data n =>
    if n = min data.length (A.size - A.count) then some { A with written := A.written ++ data.take n } else none
  | .read length bytes =>
    if bytes.length = min length A.count ∧ A.read ++ bytes <+: A.written then
      some { A with read := A.read ++ bytes }
    else none

namespace Pipe

variable {p : Pipe} {A : PipeSpec}

/-- The bytes in a pipe. -/
def contents (p : Pipe) : List UInt8 := window p.buffer p.size p.head p.count

/-- The fields of a pipe are consistent. -/
structure Ok (p : Pipe) : Prop where
  head : 0 < p.size → p.head < p.size
  tail : p.tail = (p.head + p.count) % p.size
  count : p.count ≤ p.size

/-- The pipe holds what has been written and not been read. -/
structure Holds (p : Pipe) (A : PipeSpec) : Prop extends Ok p where
  size : p.size = A.size
  contents : A.read ++ p.contents = A.written

/-! ### Writing -/

/-- The buffer after a transfer of `n` bytes to `tail`, in two pieces. -/
def transfer (p : Pipe) (data : List UInt8) (n : ℕ) : ℕ → UInt8 :=
  store (store p.buffer p.tail (data.take (min (p.size - p.tail) n))) 0
    ((data.drop (min (p.size - p.tail) n)).take (n - min (p.size - p.tail) n))

/-- The bytes transferred. -/
theorem transfer_new {data : List UInt8} {n i : ℕ} (ht : p.tail < p.size) (hn : n ≤ p.size)
    (hd : i < data.length) (hi : i < n) : transfer p data n ((p.tail + i) % p.size) = data[i] := by
  by_cases hw : p.tail + i < p.size
  · -- in the first piece; the second ends before the tail
    rw [Nat.mod_eq_of_lt hw, transfer, store, if_neg (by simp; omega), store, if_pos (by simp; omega),
      Nat.add_sub_cancel_left, List.getD_eq_getElem _ 0 (by simp; omega), List.getElem_take]
  · have hmod : (p.tail + i) % p.size = p.tail + i - p.size := by
      rw [Nat.mod_eq_sub_mod (by omega), Nat.mod_eq_of_lt (by omega)]
    rw [hmod, transfer, store, if_pos (by simp; omega), List.getD_eq_getElem _ 0 (by simp; omega),
      List.getElem_take, List.getElem_drop]
    congr 1
    omega

/-- The other bytes of the ring. -/
theorem transfer_old {data : List UInt8} {n a : ℕ} (ht : p.tail < p.size) (ha : a < p.size)
    (hne : ∀ i < n, a ≠ (p.tail + i) % p.size) : transfer p data n a = p.buffer a := by
  rw [transfer, store, if_neg, store, if_neg]
  · rintro ⟨h₁, h₂⟩
    simp only [List.length_take] at h₂
    refine hne (a - p.tail) (by omega) ?_
    rw [Nat.add_sub_cancel' h₁, Nat.mod_eq_of_lt ha]
  · rintro ⟨-, h₂⟩
    simp only [List.length_take, List.length_drop] at h₂
    refine hne (p.size - p.tail + a) (by omega) ?_
    rw [show p.tail + (p.size - p.tail + a) = a + p.size by omega, Nat.add_mod_right, Nat.mod_eq_of_lt ha]

/-- **A write** adds its first bytes, as many as there is room for. -/
theorem pipeStore_spec (h : Ok p) (hroom : p.size - p.count ≠ 0) (data : List UInt8) :
    (pipeStore p data).2 = min data.length (p.size - p.count) ∧ Ok (pipeStore p data).1 ∧
      (pipeStore p data).1.size = p.size ∧
      (pipeStore p data).1.contents = p.contents ++ data.take (min data.length (p.size - p.count)) := by
  have hpos : 0 < p.size := by omega
  have hc := h.count
  have ht : p.tail < p.size := by
    rw [h.tail]
    exact Nat.mod_lt _ hpos
  set n := min data.length (p.size - p.count) with hn
  have hbuf : (pipeStore p data).1 = { p with
      buffer := transfer p data n, tail := (p.tail + n) % p.size, count := p.count + n } := rfl
  have hplace : ∀ i, place p.size p.head (p.count + i) = (p.tail + i) % p.size := by
    intro i
    rw [h.tail, Nat.mod_add_mod, place, Nat.add_assoc]
  rw [hbuf]
  refine ⟨rfl, ⟨h.head, ?_, ?_⟩, rfl, ?_⟩
  · show (p.tail + n) % p.size = (p.head + (p.count + n)) % p.size
    rw [h.tail, Nat.mod_add_mod, Nat.add_assoc]
  · show p.count + n ≤ p.size
    omega
  · have hlen : (data.take n).length = n := by
      rw [List.length_take]
      omega
    show window (transfer p data n) p.size p.head (p.count + n) = window p.buffer p.size p.head p.count ++ data.take n
    have hsum : p.count + n = p.count + (data.take n).length := by rw [hlen]
    rw [hsum]
    refine window_push ?_ ?_
    · intro i hi
      refine transfer_old ht (place_lt hpos) fun j hj e => ?_
      rw [← hplace, place_inj (by omega) (by omega)] at e
      omega
    · intro i hi
      rw [hplace, transfer_new ht (by omega) (by omega) (by omega), List.getElem_take]

/-! ### Reading -/

/-- Without going past the end of the ring, its bytes are those of the buffer. -/
theorem window_eq_load {b : ℕ → UInt8} {size off n : ℕ} (h : off + n ≤ size) : window b size off n = load b off n := by
  refine List.map_congr_left fun i hi => ?_
  rw [place, Nat.mod_eq_of_lt (by have := List.mem_range.mp hi; omega)]

/-- **A read** takes the first bytes, as many as there are. -/
theorem pipeLoad_spec (h : Ok p) (hc : p.count ≠ 0) (length : ℕ) :
    (pipeLoad p length).2 = p.contents.take (min length p.count) ∧ Ok (pipeLoad p length).1 ∧
      (pipeLoad p length).1.size = p.size ∧
      (pipeLoad p length).1.contents = p.contents.drop (min length p.count) := by
  have hcount := h.count
  have hpos : 0 < p.size := by omega
  have hh := h.head hpos
  set n := min length p.count with hn
  have hp : (pipeLoad p length).1 = { p with head := (p.head + n) % p.size, count := p.count - n } := rfl
  rw [hp]
  refine ⟨?_, ⟨fun _ => Nat.mod_lt _ hpos, ?_, ?_⟩, rfl, ?_⟩
  · show load p.buffer p.head (min (p.size - p.head) n) ++ load p.buffer 0 (n - min (p.size - p.head) n) = _
    rw [contents, window_take (by omega)]
    obtain ⟨m, hm⟩ := Nat.exists_eq_add_of_le (Nat.min_le_right (p.size - p.head) n)
    generalize hfirst : min (p.size - p.head) n = first at hm
    rw [hm, window_add, Nat.add_sub_cancel_left, window_eq_load (by omega)]
    congr 1
    by_cases hz : m = 0
    · subst hz
      rfl
    · -- the first piece goes to the end, so the second begins at 0
      have : place p.size p.head first = 0 := by
        rw [place, show p.head + first = p.size by omega, Nat.mod_self]
      rw [this, window_eq_load (by omega)]
  · show p.tail = ((p.head + n) % p.size + (p.count - n)) % p.size
    rw [h.tail, Nat.mod_add_mod, Nat.add_assoc, Nat.add_sub_cancel' (Nat.min_le_right ..)]
  · show p.count - n ≤ p.size
    omega
  · rw [contents, contents, window_drop (Nat.min_le_right ..)]
    rfl

/-! ### The stream -/

theorem length_contents : p.contents.length = p.count := length_window

theorem Holds.count_eq (h : Holds p A) : A.count = p.count := by
  have := congrArg List.length h.contents
  rw [List.length_append, length_contents] at this
  unfold PipeSpec.count
  omega

theorem Holds.wrote (h : Holds p A) (hroom : p.size - p.count ≠ 0) (data : List UInt8) :
    ∃ A', A.next (.wrote data (pipeStore p data).2) = some A' ∧ Holds (pipeStore p data).1 A' := by
  obtain ⟨hn, hok, hsize, hcont⟩ := pipeStore_spec h.toOk hroom data
  rw [hn]
  refine ⟨_, if_pos ?_, ⟨hok, hsize.trans h.size, ?_⟩⟩
  · rw [h.count_eq, h.size]
  · rw [hcont, ← List.append_assoc, h.contents]

/-- Writing to a full pipe accepts nothing. -/
theorem Holds.wrote_full (h : Holds p A) (hfull : p.size - p.count = 0) (data : List UInt8) :
    ∃ A', A.next (.wrote data 0) = some A' ∧ Holds p A' := by
  refine ⟨_, if_pos ?_, ⟨h.toOk, h.size, ?_⟩⟩
  · rw [h.count_eq, ← h.size, hfull, Nat.min_zero]
  · simpa using h.contents

theorem Holds.read (h : Holds p A) (hc : p.count ≠ 0) (length : ℕ) :
    ∃ A', A.next (.read length (pipeLoad p length).2) = some A' ∧ Holds (pipeLoad p length).1 A' := by
  obtain ⟨hbytes, hok, hsize, hcont⟩ := pipeLoad_spec h.toOk hc length
  have hw := h.contents
  rw [← List.take_append_drop (min length p.count) p.contents, ← List.append_assoc] at hw
  have hlen : (p.contents.take (min length p.count)).length = min length A.count := by
    rw [List.length_take, length_contents, h.count_eq]
    omega
  rw [hbytes]
  refine ⟨_, if_pos ⟨hlen, _, hw⟩, ⟨hok, hsize.trans h.size, ?_⟩⟩
  rw [hcont]
  exact hw

/-- Reading from an empty pipe returns nothing. -/
theorem Holds.read_empty (h : Holds p A) (hc : p.count = 0) (length : ℕ) :
    ∃ A', A.next (.read length []) = some A' ∧ Holds p A' := by
  have hlen : ([] : List UInt8).length = min length A.count := by
    rw [h.count_eq, hc, Nat.min_zero]
    rfl
  have hw : A.read ++ [] ++ p.contents = A.written := by rw [List.append_nil, h.contents]
  exact ⟨_, if_pos ⟨hlen, _, hw⟩, ⟨h.toOk, h.size, hw⟩⟩

theorem holds_created (size : ℕ) : Holds { size := size } { size := size } where
  head h := h
  tail := (Nat.zero_mod size).symm
  count := Nat.zero_le _
  size := rfl
  contents := rfl

theorem holds_empty : Holds {} {} := holds_created 0

end Pipe

/-- What a critical section does with a pipe. -/
inductive PipeCall where
  | create (size : ℕ)
  | write (h : Handle) (data : List UInt8)
  | read (h : Handle) (length : ℕ)

variable [cfg : Config]

/-- What is seen of it at the pipe in slot `i`, when the section ends with `r`: what is negative
is an error, and a read that returns 0 has read nothing. -/
def PipeCall.event (k : Kernel) (i : ℕ) : PipeCall → Outcome → Option PipeEvent
  | .create size, .ret (.handle (some h)) => if h.index = i then some (.created size) else none
  | .write h data, .ret (.code r) =>
    if k.core.objFromHandle .pipe h = some i ∧ 0 ≤ r then some (.wrote data r.toNat) else none
  | .read h length, .ret (.code r) =>
    if k.core.objFromHandle .pipe h = some i ∧ r = 0 then some (.read length []) else none
  | .read h length, .ret (.data bytes) =>
    if k.core.objFromHandle .pipe h = some i then some (.read length bytes) else none
  | _, _ => none

namespace Kernel

variable {k : Kernel} {x : PipeCall} {h : Handle} {i : ℕ}

/-- The pipes change as what is seen of the section says. -/
def PipeEffect (k : Kernel) (x : PipeCall) (r : Kernel × Outcome) : Prop :=
  ∀ i A, (k.pipes i).Holds A →
    ∃ A', run PipeSpec.next A (x.event k i r.2).toList = some A' ∧ (r.1.pipes i).Holds A'

theorem PipeEffect.same {r : Kernel × Outcome} (e : r.1.pipes = k.pipes) (hr : ∀ i, x.event k i r.2 = none) :
    PipeEffect k x r := by
  intro i A hA
  rw [hr i, e]
  exact ⟨A, rfl, hA⟩

/-- The section is about one pipe. -/
theorem PipeEffect.one (hi : k.core.objFromHandle .pipe h = some i) {r : Kernel × Outcome} {p : Pipe} {e : PipeEvent}
    (hp : r.1.pipes = Function.update k.pipes i p)
    (he : ∀ j, x.event k j r.2 = if k.core.objFromHandle .pipe h = some j then some e else none)
    (hs : ∀ A, (k.pipes i).Holds A → ∃ A', A.next e = some A' ∧ p.Holds A') : PipeEffect k x r := by
  intro j A hA
  rw [he, hp, hi]
  by_cases hj : i = j
  · subst hj
    obtain ⟨A', h₁, h₂⟩ := hs A hA
    rw [if_pos rfl, Function.update_self]
    exact ⟨A', by simp [run, h₁], h₂⟩
  · rw [if_neg (by simpa using hj), Function.update_of_ne (Ne.symm hj)]
    exact ⟨A, rfl, hA⟩

/-- An error changes nothing. -/
theorem PipeEffect.code {r : Code} (hr : r < 0) : PipeEffect k x (k.code r) := by
  refine .same rfl fun i => ?_
  cases x with
  | create size => rfl
  | write h data => exact if_neg fun hc => absurd hc.2 (not_le.mpr hr)
  | read h length => exact if_neg fun hc => hr.ne hc.2

/-- Nor does blocking. -/
theorem PipeEffect.block (w : Wait) (ms : Word) (p : Pending) : PipeEffect k x (k.block w ms p) := by
  unfold Kernel.block taskBlockCurrent
  split
  · rename_i e he
    refine .code ?_
    split at he
    · cases he
      decide
    · split at he
      · cases he
        decide
      · split at he
        · cases he
          decide
        · cases he
  · refine .same rfl fun i => ?_
    cases x <;> rfl

theorem wakeFirst_pipes (k : Kernel) (l : WaitList) : (k.wakeFirst l).pipes = k.pipes := by
  unfold wakeFirst
  split <;> rfl

theorem pipeWriteLoop_effect (hi : k.core.objFromHandle .pipe h = some i) (data : List UInt8)
    (start ms remaining : Word) (isr : Bool) :
    PipeEffect k (.write h data) (k.pipeWriteLoop i h data start ms remaining isr) := by
  unfold pipeWriteLoop
  split
  · rename_i hfull
    split
    · refine .one hi (p := k.pipes i) (e := .wrote data 0) (Function.update_eq_self ..).symm (fun j => ?_)
        fun A hA => hA.wrote_full hfull data
      simp [PipeCall.event, Kernel.code]
    · exact .block _ _ _
  · rename_i hroom
    refine .one hi (p := (pipeStore (k.pipes i) data).1) (e := .wrote data (pipeStore (k.pipes i) data).2) ?_
      (fun j => ?_) fun A hA => hA.wrote hroom data
    · show (if _ then _ else _ : Kernel).pipes = _
      split
      · exact wakeFirst_pipes ..
      · rfl
    · simp [PipeCall.event, Kernel.code]

theorem pipeWriteCommon_effect (h : Handle) (data : List UInt8) (ms : Word) (isr : Bool) :
    PipeEffect k (.write h data) (k.pipeWriteCommon h (some data) ms isr) := by
  unfold pipeWriteCommon
  dsimp only
  split
  · exact .code (by decide)
  · split
    · exact .code (by decide)
    · split
      · exact .code (by decide)
      · split
        · exact .code (by decide)
        · rename_i i hi
          exact pipeWriteLoop_effect hi _ _ _ _ _

theorem pipeReadLoop_effect (hi : k.core.objFromHandle .pipe h = some i) (length : ℕ)
    (start ms remaining : Word) : PipeEffect k (.read h length) (k.pipeReadLoop i h length start ms remaining) := by
  unfold pipeReadLoop
  split
  · rename_i hempty
    split
    · refine .one hi (p := k.pipes i) (e := .read length []) (Function.update_eq_self ..).symm (fun j => ?_)
        fun A hA => hA.read_empty hempty length
      simp [PipeCall.event, Kernel.code]
    · exact .block _ _ _
  · rename_i hc
    refine .one hi (p := (pipeLoad (k.pipes i) length).1) (e := .read length (pipeLoad (k.pipes i) length).2) ?_
      (fun j => rfl) fun A hA => hA.read hc length
    show (if _ then _ else _ : Kernel).pipes = _
    split
    · exact wakeFirst_pipes ..
    · rfl

theorem pipeRead_effect (h : Handle) (length : ℕ) (ms : Word) :
    PipeEffect k (.read h length) (k.pipeRead h length ms) := by
  unfold pipeRead
  split
  · exact .code (by decide)
  · split
    · exact .code (by decide)
    · split
      · exact .code (by decide)
      · rename_i i hi
        exact pipeReadLoop_effect hi _ _ _ _

theorem pipeCreate_effect (size : ℕ) (mem : Bool) : PipeEffect k (.create size) (k.pipeCreate size mem) := by
  unfold pipeCreate
  split
  · exact .same rfl fun i => rfl
  · unfold createObject
    split
    · exact .same rfl fun i => rfl
    · rename_i i _
      intro j A hA
      show ∃ A', run PipeSpec.next A (if i = j then _ else _ : Option PipeEvent).toList = some A' ∧
        (Function.update k.pipes i _ j).Holds A'
      by_cases hj : i = j
      · subst hj
        rw [if_pos rfl, Function.update_self]
        exact ⟨_, rfl, Pipe.holds_created size⟩
      · rw [if_neg hj, Function.update_of_ne (Ne.symm hj)]
        exact ⟨A, rfl, hA⟩

/-- A write that goes on after a wait that has ended well. -/
theorem resume_pipeWrite {t : TaskId} {data : List UInt8} {start ms ms' : Word}
    (hr : (k.core.tasks t).waitResult = Code.ok) : PipeEffect k (.write h data)
      (k.resume t { pending := .pipeWrite h data start ms, timeoutMs := ms' }) := by
  unfold resume
  dsimp only
  rw [if_neg (not_not.mpr hr)]
  split
  · exact .code (by decide)
  · rename_i i hi
    exact pipeWriteLoop_effect hi _ _ _ _ _

theorem resume_pipeRead {t : TaskId} {length : ℕ} {start ms ms' : Word} :
    PipeEffect k (.read h length) (k.resume t { pending := .pipeRead h length start ms, timeoutMs := ms' }) := by
  unfold resume
  dsimp only
  split
  · rename_i hr
    exact .same rfl fun i => if_neg fun hc => hr hc.2
  · split
    · exact .code (by decide)
    · rename_i i hi
      exact pipeReadLoop_effect hi _ _ _ _

end Kernel

/-- The use an action makes of a pipe, and how its section ends. A write whose wait has ended
otherwise than with `AIXOS_OK` returns that result and writes nothing. -/
def Act.pipeCall (s : Sys) : Act → Option (PipeCall × Outcome)
  | .call (.pipeCreate size mem) => some (.create size, (s.kernel.pipeCreate size mem).2)
  | .call (.pipeWrite h (some data) ms) => some (.write h data, (s.kernel.pipeWrite h (some data) ms).2)
  | .call (.pipeRead h length ms) => some (.read h length, (s.kernel.pipeRead h length ms).2)
  | .resume => s.runningTask.bind fun t => (s.frame t).bind fun f =>
    match f.pending with
    | .pipeWrite h data _ _ =>
      if (s.core.tasks t).waitResult = Code.ok then some (.write h data, (s.kernel.resume t f).2) else none
    | .pipeRead h length _ _ => some (.read h length, (s.kernel.resume t f).2)
    | _ => none
  | .isr (.pipeWrite h (some data)) => some (.write h data, (s.kernel.pipeWriteFromIsr h (some data)).2)
  | _ => none

namespace Sys

variable {s s' : Sys} {a : Act} {as : List Act} {i : ℕ} {A : PipeSpec}

/-- What an action is seen to do to the pipe in slot `i`. -/
def pipeSeen (i : ℕ) (s : Sys) (a : Act) : List PipeEvent :=
  (a.pipeCall s).elim [] fun x => (x.1.event s.kernel i x.2).toList

/-- Where no use of a pipe is seen, the pipes stay as they are. -/
theorem pipes_of_pipeCall (h : s.step a = some s') (ha : a.pipeCall s = none) : s'.kernel.pipes = s.kernel.pipes := by
  by_cases hst : a.stores s ≠ some .pipe
  · exact step_keeps h hst
  · -- only null data, or a wait that has ended otherwise, is left
    cases a with
    | call c =>
      rw [← step_call_kernel h]
      cases c with
      | pipeWrite x data ms =>
        cases data with
        | some data => cases ha
        | none =>
          show (s.kernel.pipeWrite x none ms).1.pipes = _
          unfold Kernel.pipeWrite Kernel.pipeWriteCommon
          split <;> rfl
      | pipeCreate | pipeRead => cases ha
      | _ => exact absurd (by simp [Act.stores, Call.stores]) hst
    | resume =>
      obtain ⟨t, f, ht, hf, rfl⟩ := step_resume h
      obtain ⟨p, ms⟩ := f
      simp only [Act.pipeCall, Act.stores, ht, hf, Option.bind_some] at ha hst
      rw [finish_kernel]
      cases p with
      | pipeRead => cases ha
      | pipeWrite x data start ms =>
        simp only [ite_eq_right_iff, reduceCtorEq, imp_false] at ha
        unfold Kernel.resume
        dsimp only
        rw [if_pos ha]
        rfl
      | _ => exact absurd (by simp [Pending.stores]) hst
    | isr c =>
      rw [← step_isr_kernel h]
      cases c with
      | pipeWrite x data =>
        cases data with
        | some data => cases ha
        | none =>
          show (s.kernel.pipeWriteFromIsr x none).1.pipes = _
          unfold Kernel.pipeWriteFromIsr Kernel.pipeWriteCommon
          split <;> rfl
      | _ => exact absurd (by simp [Act.stores, IsrCall.stores]) hst
    | _ => exact absurd (by simp [Act.stores]) hst

/-- **One action**: the pipe in a slot changes as what is seen of the action says. -/
theorem pipe_step (h : s.step a = some s') (hA : (s.kernel.pipes i).Holds A) :
    ∃ A', run PipeSpec.next A (pipeSeen i s a) = some A' ∧ (s'.kernel.pipes i).Holds A' := by
  unfold pipeSeen
  cases ha : a.pipeCall s with
  | none =>
    rw [pipes_of_pipeCall h ha]
    exact ⟨A, rfl, hA⟩
  | some x =>
    -- the section is that of a pipe function, on the kernel of `s`
    suffices ∃ r, Kernel.PipeEffect s.kernel x.1 r ∧ r.2 = x.2 ∧ r.1 = s'.kernel by
      obtain ⟨r, hr, h₁, h₂⟩ := this
      rw [Option.elim_some, ← h₁, ← h₂]
      exact hr i A hA
    cases a with
    | call c =>
      have hk := step_call_kernel h
      cases c with
      | pipeCreate size mem =>
        cases ha
        exact ⟨_, Kernel.pipeCreate_effect size mem, rfl, hk⟩
      | pipeWrite x data ms =>
        cases data with
        | none => cases ha
        | some data =>
          cases ha
          refine ⟨_, ?_, rfl, hk⟩
          show Kernel.PipeEffect _ _ (s.kernel.pipeWrite x (some data) ms)
          unfold Kernel.pipeWrite
          split
          · exact .code (by decide)
          · exact Kernel.pipeWriteCommon_effect x data ms false
      | pipeRead x length ms =>
        cases ha
        exact ⟨_, Kernel.pipeRead_effect x length ms, rfl, hk⟩
      | _ => cases ha
    | resume =>
      obtain ⟨t, f, ht, hfr, rfl⟩ := step_resume h
      obtain ⟨p, ms'⟩ := f
      simp only [Act.pipeCall, ht, hfr, Option.bind_some] at ha
      rw [finish_kernel]
      cases p with
      | pipeWrite x data start ms =>
        dsimp only at ha
        split at ha
        · rename_i hr
          cases ha
          exact ⟨_, Kernel.resume_pipeWrite hr, rfl, rfl⟩
        · cases ha
      | pipeRead x length start ms =>
        cases ha
        exact ⟨_, Kernel.resume_pipeRead, rfl, rfl⟩
      | _ => cases ha
    | isr c =>
      have hk := step_isr_kernel h
      cases c with
      | pipeWrite x data =>
        cases data with
        | none => cases ha
        | some data =>
          cases ha
          refine ⟨s.kernel.pipeWriteFromIsr x (some data), ?_, rfl, hk⟩
          unfold Kernel.pipeWriteFromIsr
          split
          · exact .code (by decide)
          · exact Kernel.pipeWriteCommon_effect x data 0 true
      | _ => cases ha
    | _ => cases ha

/-- **A pipe is a bounded stream of bytes**: what a run is seen to do to the pipe in a slot is what
the stream allows. The bytes read are a prefix of the bytes written; those between are in the
ring, and its fields are consistent. -/
theorem pipe_refines (i : ℕ) (h : run step init as = some s) :
    ∃ A, run PipeSpec.next {} (trace step (pipeSeen i) init as) = some A ∧
      A.read ++ (s.kernel.pipes i).contents = A.written ∧
      (s.kernel.pipes i).count + A.read.length = A.written.length ∧
      (s.kernel.pipes i).count ≤ (s.kernel.pipes i).size ∧ (s.kernel.pipes i).size = A.size ∧
      (0 < A.size → (s.kernel.pipes i).head < A.size) ∧
      (s.kernel.pipes i).tail = ((s.kernel.pipes i).head + (s.kernel.pipes i).count) % A.size := by
  obtain ⟨A, hA, hh⟩ := (path_iff_run.mpr h).simulates (R := fun s A => (s.kernel.pipes i).Holds A)
    (fun _ _ _ _ hA _ h => pipe_step h hA) Pipe.holds_empty
  have hlen := congrArg List.length hh.contents
  rw [List.length_append, Pipe.length_contents] at hlen
  refine ⟨A, hA, hh.contents, by omega, hh.count, hh.size, ?_, ?_⟩
  · rw [← hh.size]
    exact hh.head
  · rw [← hh.size]
    exact hh.tail

end Sys

end Aixos

namespace Aixos.Sys

open Transition

attribute [local instance] Config.default

/-- A pipe of five bytes: a write is cut off, a part is read, and the next write goes around the
end of the ring. -/
def wrapped : List Act :=
  [.call (.pipeCreate 5 true), .call (.pipeWrite ⟨0, 1⟩ (some [1, 2, 3, 4]) 0), .call (.pipeRead ⟨0, 1⟩ 3 0),
    .call (.pipeWrite ⟨0, 1⟩ (some [5, 6, 7, 8, 9]) 0), .call (.pipeRead ⟨0, 1⟩ 2 0)]

theorem wrapped_refines : ∃ s, run step init wrapped = some s ∧
    (s.kernel.pipes 0).head = 0 ∧ (s.kernel.pipes 0).contents = [6, 7, 8] ∧
    ∃ A, run PipeSpec.next {} (trace step (pipeSeen 0) init wrapped) = some A ∧
      A.read ++ (s.kernel.pipes 0).contents = A.written ∧
      (s.kernel.pipes 0).count + A.read.length = A.written.length ∧
      (s.kernel.pipes 0).count ≤ (s.kernel.pipes 0).size ∧ (s.kernel.pipes 0).size = A.size ∧
      (0 < A.size → (s.kernel.pipes 0).head < A.size) ∧
      (s.kernel.pipes 0).tail = ((s.kernel.pipes 0).head + (s.kernel.pipes 0).count) % A.size := by
  obtain ⟨s, h, hp⟩ := exists_run step init wrapped (fun s => decide ((s.kernel.pipes 0).head = 0 ∧
    (s.kernel.pipes 0).contents = [6, 7, 8])) (by decide +kernel)
  obtain ⟨h₁, h₂⟩ := of_decide_eq_true hp
  exact ⟨s, h, h₁, h₂, pipe_refines 0 h⟩

end Aixos.Sys
