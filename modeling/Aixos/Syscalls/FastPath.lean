import Aixos.Kernel.Traps

/-!
# The fast way into the kernel

The trap handlers fetch a pointer to a request. `aixos_syscall_invoke_fast` gives them the number of the call instead.

* `TrapState.dispatch_eq_iff` — when two pointers lead to the same call.
* `Port.SameCall`, `Port.fast_agrees` — when the two ways agree, whatever the system calls do.
* `Port.fast_faults` — a call for which they do not.
-/

namespace Aixos

open Mpu

variable {σ : Type} {s : TrapState σ} {a b : Word} {r : SyscallRequest} {table : SyscallTable σ} {t : Task}

namespace TrapState

/-- The request at address `a` can be read, and is one of a system call. -/
def Valid (s : TrapState σ) (a : Word) : Prop := s.requestCheck a = Code.ok ∧ (s.request a).number.toNat < syscallCount

/-- The call from the table, or the error. -/
def serve (s : TrapState σ) (table : SyscallTable σ) (r : SyscallRequest) : TrapState σ × Code :=
  match table r.number.toNat with
  | some handler => handler s r
  | none => (s, Code.nosys)

theorem dispatch_valid (hc : s.current = some t) (hu : t.user = true) (ha : s.Valid a) :
    s.dispatch table a = s.serve table (s.request a) := by
  unfold dispatch
  rw [hc]
  dsimp only
  rw [if_neg (by simp [hu]), if_neg fun h => ?_]
  · rfl
  · exact h.elim (fun h => h ha.1) fun h => absurd ha.2 (not_lt.mpr h)

theorem dispatch_invalid (hc : s.current = some t) (hu : t.user = true) (ha : ¬ s.Valid a) :
    s.dispatch table a = (s, Code.fault) := by
  unfold dispatch
  rw [hc]
  dsimp only
  rw [if_neg (by simp [hu]), if_pos]
  by_contra hno
  exact ha ⟨not_not.mp fun h => hno (.inl h), not_le.mp fun h => hno (.inr h)⟩

theorem dispatch_kernel (hc : s.current = some t) (hu : t.user = false) : s.dispatch table a = (s, Code.perm) := by
  unfold dispatch
  rw [hc]
  dsimp only
  rw [if_pos (by simp [hu])]

theorem dispatch_none (hc : s.current = none) : s.dispatch table a = (s, Code.perm) := by
  unfold dispatch
  rw [hc]

/-- What the caller gets: the result has gone through a register. -/
def answer (x : TrapState σ × Code) : TrapState σ × ℤ := (x.1, (BitVec.ofInt 32 x.2).toInt)

/-- A system call that tells one request from all others. -/
def only (r : SyscallRequest) : SyscallTable σ := fun _ => some fun s r' =>
  (s, if r'.number = r.number ∧ ∀ i, r'.args i = r.args i then 0 else 1)

theorem serve_only (r' : SyscallRequest) : s.serve (only r) r' = (s, 0) ∧ r' = r ∨ s.serve (only r) r' = (s, 1) ∧ r' ≠ r := by
  by_cases h : r'.number = r.number ∧ ∀ i, r'.args i = r.args i
  · exact .inl ⟨by simp only [serve, only, if_pos h], SyscallRequest.ext h.1 (funext h.2)⟩
  · refine .inr ⟨by simp only [serve, only, if_neg h], ?_⟩
    rintro rfl
    exact h ⟨rfl, fun _ => rfl⟩

theorem answer_ne {c c' : Code} (h : BitVec.ofInt 32 c ≠ BitVec.ofInt 32 c') : answer (s, c) ≠ answer (s, c') :=
  fun e => h (BitVec.toInt_inj.mp (congrArg Prod.snd e))

/-- A system call does not fail as a request does that cannot be read. -/
theorem answer_only_ne_fault (r' : SyscallRequest) : answer (s.serve (only r) r') ≠ answer (s, Code.fault) := by
  rcases serve_only r' with ⟨e, -⟩ | ⟨e, -⟩
  · rw [e]
    exact answer_ne (by decide)
  · rw [e]
    exact answer_ne (by decide)

/-- **Two pointers are answered alike**, whatever the system calls do, only if they lead to the same call. -/
theorem dispatch_eq_iff (hc : s.current = some t) (hu : t.user = true) :
    (∀ table, answer (s.dispatch table a) = answer (s.dispatch table b)) ↔
      (¬ s.Valid a ∧ ¬ s.Valid b) ∨ (s.Valid a ∧ s.Valid b ∧ s.request a = s.request b) := by
  constructor
  · intro h
    have h := h (only (s.request b))
    by_cases ha : s.Valid a
    · rw [dispatch_valid hc hu ha] at h
      by_cases hb : s.Valid b
      · refine .inr ⟨ha, hb, ?_⟩
        rw [dispatch_valid hc hu hb] at h
        rcases serve_only (s.request a) (s := s) (r := s.request b) with ⟨-, e⟩ | ⟨e, -⟩
        · exact e
        · rcases serve_only (s.request b) (s := s) (r := s.request b) with ⟨e', -⟩ | ⟨-, hne⟩
          · rw [e, e'] at h
            exact absurd h (answer_ne (by decide))
          · exact absurd rfl hne
      · rw [dispatch_invalid hc hu hb] at h
        exact absurd h (answer_only_ne_fault _)
    · rw [dispatch_invalid hc hu ha] at h
      by_cases hb : s.Valid b
      · rw [dispatch_valid hc hu hb] at h
        exact absurd h.symm (answer_only_ne_fault _)
      · exact .inl ⟨ha, hb⟩
  · rintro (⟨ha, hb⟩ | ⟨ha, hb, e⟩) table
    · rw [dispatch_invalid hc hu ha, dispatch_invalid hc hu hb]
    · rw [dispatch_valid hc hu ha, dispatch_valid hc hu hb, e]

end TrapState

namespace Port

open TrapState

variable {port : Port} {regs regs' : ℕ → Word} {number request : Word} {args : Fin 5 → Word}

/-- What the two ways come to: what the trap handler does with one word. -/
def handle (port : Port) (s : TrapState σ) (table : SyscallTable σ) (a : Word) : TrapState σ × ℤ :=
  if port = .riscv ∧ s.current = none then (s, a.toInt) else answer (s.dispatch table a)

theorem handle_riscv_some (hc : s.current = some t) (frame : ℕ → Word) :
    ((s.riscvSyscallEntry table frame).1, ((s.riscvSyscallEntry table frame).2 10).toInt) =
      answer (s.dispatch table (frame 10)) := by
  unfold riscvSyscallEntry
  rw [hc]
  rfl

theorem handle_riscv_none (hc : s.current = none) (frame : ℕ → Word) :
    ((s.riscvSyscallEntry table frame).1, ((s.riscvSyscallEntry table frame).2 10).toInt) = (s, (frame 10).toInt) := by
  unfold riscvSyscallEntry
  rw [hc]

/-- The handler of RISC-V goes by the word at 10. -/
theorem handle_riscv {frame : ℕ → Word} (hf : frame 10 = a) :
    ((s.riscvSyscallEntry table frame).1, ((s.riscvSyscallEntry table frame).2 10).toInt) = handle .riscv s table a := by
  unfold handle
  cases hc : s.current with
  | none => rw [handle_riscv_none hc, hf, if_pos ⟨rfl, rfl⟩]
  | some t => rw [handle_riscv_some hc, hf, if_neg (by simp)]

theorem invoke_eq : port.invoke s table regs a = port.handle s table a := by
  cases port with
  | arm => rfl
  | riscv => exact handle_riscv (Function.update_self ..)

theorem invokeFast_eq : port.invokeFast s table regs number args = port.handle s table number := by
  cases port with
  | arm => rfl
  | riscv => exact handle_riscv rfl

/-- The number of a call, taken for a pointer, leads to the same call as the request does: the task is no user task; or
the number is none of a system call, and no request of a system call can be read at that address; or the same request
can be read there. Without a current task nothing is called, and on RISC-V the register is returned as it is. -/
def SameCall (port : Port) (s : TrapState σ) (number : Word) (args : Fin 5 → Word) (request : Word) : Prop :=
  match s.current with
  | none => port = .arm ∨ number = request
  | some t => t.user = false ∨ (syscallCount ≤ number.toNat ∧ ¬ s.Valid number) ∨
      (s.Valid number ∧ s.request number = { number, args })

/-- **The two ways into the kernel agree**, whatever the system calls do, exactly if the number of the call, taken for a
pointer, leads to the same call as the request does. -/
theorem fast_agrees (hreq : s.request request = { number, args })
    (hread : ∀ t, s.current = some t → t.user = true → s.requestCheck request = Code.ok) :
    (∀ table, port.invokeFast s table regs number args = port.invoke s table regs' request) ↔
      port.SameCall s number args request := by
  simp only [invokeFast_eq, invoke_eq, handle, SameCall]
  cases hc : s.current with
  | none =>
    cases port with
    | arm => simp only [dispatch_none hc, reduceCtorEq, false_and, if_false, true_or, implies_true]
    | riscv =>
      simp only [reduceCtorEq, and_self, if_true, false_or, Prod.mk.injEq, true_and, BitVec.toInt_inj]
      exact ⟨fun h => h fun _ => none, fun h _ => h⟩
  | some t =>
    simp only [reduceCtorEq, and_false, if_false]
    cases hu : t.user with
    | false => simp only [dispatch_kernel hc hu, true_or, implies_true]
    | true =>
      have hvalid : s.Valid request ↔ number.toNat < syscallCount := by
        rw [Valid, hreq]
        exact ⟨And.right, fun h => ⟨hread t hc hu, h⟩⟩
      simp only [Bool.true_eq_false, false_or]
      rw [dispatch_eq_iff hc hu, hvalid, hreq, not_lt, and_comm]
      refine or_congr_right ⟨fun h => ⟨h.1, h.2.2⟩, fun h => ⟨h.1, ?_, h.2⟩⟩
      have hlt := h.1.2
      rwa [h.2] at hlt

end Port

attribute [local instance] MpuConfig.default

namespace Port

/-- A user task with one region. -/
def userTask : Task where
  user := true
  stackBase := 0x20000000
  stackSize := 1024
  regions := [{ base := 0x20000000, size := 1024, attr := 3 }]

/-- The request of a call lies in its region, at address 0x20000100. -/
def userCall (number : Word) : TrapState Unit where
  current := some userTask
  bytes a := if a = 0x20000100 then .ofNat number.toNat else 0
  rest := ()

/-- `sc_task_self`, for a task with handle 7, and nothing else. -/
def taskSelf : SyscallTable Unit := fun n => if n = 2 then some fun s _ => (s, 7) else none

theorem fast_agrees_unknown : Port.arm.invokeFast (userCall 21) taskSelf (fun _ => 0) 21 (fun _ => 0) =
    Port.arm.invoke (userCall 21) taskSelf (fun _ => 0) 0x20000100 := by
  have h : ∀ table, Port.arm.invokeFast (userCall 21) table (fun _ => 0) 21 (fun _ => 0) =
      Port.arm.invoke (userCall 21) table (fun _ => 0) 0x20000100 :=
    (fast_agrees (SyscallRequest.ext (by decide +kernel) (by decide +kernel)) fun _ _ _ => by decide +kernel).mpr
      (.inr (.inl ⟨by decide, fun h => absurd h.1 (by decide +kernel)⟩))
  exact h taskSelf

/-- The task asks for its handle: it gets it from `aixos_syscall_invoke`, and `AIXOS_ERR_FAULT` from
`aixos_syscall_invoke_fast`, on both architectures. -/
theorem fast_faults : (userCall 2).request 0x20000100 = { number := 2, args := fun _ => 0 } ∧
    (Port.arm.invoke (userCall 2) taskSelf (fun _ => 0) 0x20000100).2 = 7 ∧
    (Port.arm.invokeFast (userCall 2) taskSelf (fun _ => 0) 2 fun _ => 0).2 = Code.fault ∧
    (Port.riscv.invoke (userCall 2) taskSelf (fun _ => 0) 0x20000100).2 = 7 ∧
    (Port.riscv.invokeFast (userCall 2) taskSelf (fun _ => 0) 2 fun _ => 0).2 = Code.fault :=
  ⟨SyscallRequest.ext (by decide +kernel) (by decide +kernel), by decide +kernel, by decide +kernel, by decide +kernel,
    by decide +kernel⟩

end Port

end Aixos
