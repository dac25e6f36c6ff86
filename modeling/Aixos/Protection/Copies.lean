import Aixos.Kernel.UserMemory
import Aixos.Protection.Grants

/-!
# What copies touch

Every copy between the kernel and a user task makes the same check, and touches no other bytes than those it has checked.

* `Region.Around` — a range is inside a region and does not wrap.
* `Served`, `Confined` — a copy that is made, and any call.
* `TaskBlocks.StillAt` — a control block is what accepted calls of `aixos_task_mpu_region_add` have made of it, as long
  as its task has not been deleted.
* `Mpu.Task.copies_confined` — all copies are confined to the regions of the task until then.
-/

namespace Aixos

open Mpu Transition

namespace Mpu

/-- The range is inside the region, and does not wrap. -/
structure Region.Around (r : Region) (base size : Word) : Prop where
  no_wrap : base.toNat + size.toNat < 2 ^ 32
  ge : r.base.toNat ≤ base.toNat
  le : base.toNat + size.toNat ≤ r.base.toNat + r.size.toNat

/-- What the kernel grants is in a region that gives it. -/
theorem Task.around_of_grants {t : Task} {base size : Word} {x : Access} (hu : t.user = true) (hv : t.Valid)
    (h : t.grants base size x = true) : ∃ r ∈ t.regions, r.gives x = true ∧ r.Around base size := by
  obtain ⟨⟨hpos, hend⟩, pre, y, post, e, -, hsub, hx⟩ := (grants_iff hu hv x).mp h
  have hy : y ∈ t.regions.map Region.area := by
    rw [e]
    exact List.mem_append.mpr (.inr (List.mem_cons_self ..))
  obtain ⟨r, hr, rfl⟩ := List.mem_map.mp hy
  obtain ⟨hge, hle⟩ := (span_subset hpos hend.le).mp hsub
  exact ⟨r, hr, hx, hend, hge, hle⟩

end Mpu

namespace UserMemory

variable {m m' : UserMemory} {a base size : Word} {t : Task} {x : Access} {w : Bool} {c : Code}

theorem mem_span : a ∈ span base size ↔ (a - base).toNat < size.toNat := by
  unfold span
  rw [List.mem_map]
  constructor
  · rintro ⟨i, hi, rfl⟩
    have hlt := size.isLt
    rw [List.mem_range] at hi
    rw [BitVec.add_comm, BitVec.add_sub_cancel, BitVec.toNat_ofNat, Nat.mod_eq_of_lt (by omega)]
    exact hi
  · intro h
    refine ⟨(a - base).toNat, List.mem_range.mpr h, ?_⟩
    rw [BitVec.ofNat_toNat, BitVec.setWidth_eq, BitVec.add_comm, BitVec.sub_add_cancel]

/-- The bytes of a range are in the region around it. -/
theorem contains_of_mem_span {r : Region} (hr : r.Around base size) (h : a ∈ span base size) : r.Contains a := by
  obtain ⟨hend, hge, hle⟩ := hr
  obtain ⟨i, hi, rfl⟩ := List.mem_map.mp h
  rw [List.mem_range] at hi
  unfold Region.Contains
  rw [BitVec.toNat_add, BitVec.toNat_ofNat]
  omega

/-- A copy is made: all bytes that it touches are in region `r`, which gives the right, and no others change. -/
structure Served (m m' : UserMemory) (r : Region) (base size : Word) (x : Access) : Prop where
  gives : r.gives x = true
  around : r.Around base size
  touched : m'.touched = m.touched ++ (span base size).map (·, x)
  inside : ∀ a ∈ span base size, r.Contains a
  bytes : ∀ a, m'.bytes a ≠ m.bytes a → x = .write ∧ a ∈ span base size

/-- A call for a range returns an error and touches nothing, or is served. A call for no bytes touches nothing. -/
def Confined (t : Task) (base size : Word) (x : Access) (m m' : UserMemory) (c : Code) : Prop :=
  (m' = m ∧ if size = 0 then c = Code.ok else c ≠ Code.ok) ∨
    (size ≠ 0 ∧ c = Code.ok ∧ ∃ r ∈ t.regions, Served m m' r base size x)

/-- The right that a check is about. -/
def accessOf (writeAccess : Bool) : Access := if writeAccess then .write else .read

/-- What passes the check is in a region that gives the right. -/
theorem around_of_check (hv : t.Valid) (h : userMemoryCheckForTask (some t) base size w = Code.ok) :
    size ≠ 0 ∧ ∃ r ∈ t.regions, r.gives (accessOf w) = true ∧ r.Around base size := by
  unfold userMemoryCheckForTask at h
  dsimp only at h
  split at h
  · exact absurd h (by decide)
  · rename_i hu
    split at h
    · exact absurd h (by decide)
    · rename_i hs
      split at h
      · exact absurd h (by decide)
      · rename_i ha
        refine ⟨fun e => hs (.inl e), Task.around_of_grants (by simpa using fun e => hu (.inl e)) hv ?_⟩
        cases w <;> simpa [Task.grants, accessOf] using ha

theorem confined_empty : Confined t base 0 x m m Code.ok := .inl ⟨rfl, by rw [if_pos rfl]⟩

theorem confined_refused (hs : size ≠ 0) (hc : c ≠ Code.ok) : Confined t base size x m m c :=
  .inl ⟨rfl, by rwa [if_neg hs]⟩

/-- A copy from the user that has passed the check. -/
theorem confined_fetch (hv : t.Valid) (h : userMemoryCheckForTask (some t) base size false = Code.ok) :
    Confined t base size .read m (m.fetch base size).1 Code.ok := by
  obtain ⟨hs, r, hr, hg, ha⟩ := around_of_check hv h
  exact .inr ⟨hs, rfl, r, hr, hg, ha, rfl, fun a => contains_of_mem_span ha, fun a hne => absurd rfl hne⟩

/-- A copy to the user that has passed the check. -/
theorem confined_fill (hv : t.Valid) (h : userMemoryCheckForTask (some t) base size true = Code.ok) (src : ℕ → UInt8) :
    Confined t base size .write m (m.fill base size src) Code.ok := by
  obtain ⟨hs, r, hr, hg, ha⟩ := around_of_check hv h
  refine .inr ⟨hs, rfl, r, hr, hg, ha, rfl, fun a => contains_of_mem_span ha, fun a hne => ⟨rfl, mem_span.mpr ?_⟩⟩
  by_contra hout
  exact hne (if_neg hout)

theorem confined_copyFromUser (hv : t.Valid) (m : UserMemory) (kernelDst : Bool) (src size : Word) :
    Confined t src size .read m (m.copyFromUser (some t) kernelDst src size).1
      (m.copyFromUser (some t) kernelDst src size).2.1 := by
  unfold copyFromUser
  by_cases hs : size = 0
  · subst hs
    exact confined_empty
  rw [if_neg hs]
  split
  · exact confined_refused hs (show Code.fault ≠ Code.ok by decide)
  · dsimp only
    split
    · rename_i h
      exact confined_refused hs h
    · rename_i h
      exact confined_fetch hv (not_not.mp h)

theorem confined_copyToUserTask (hv : t.Valid) (m : UserMemory) (dst : Word) (src : Option (ℕ → UInt8)) (size : Word) :
    Confined t dst size .write m (m.copyToUserTask (some t) dst src size).1 (m.copyToUserTask (some t) dst src size).2 := by
  unfold copyToUserTask
  by_cases hs : size = 0
  · subst hs
    exact confined_empty
  rw [if_neg hs]
  split
  · exact confined_refused hs (show Code.fault ≠ Code.ok by decide)
  · dsimp only
    split
    · rename_i h
      exact confined_refused hs h
    · rename_i h
      exact confined_fill hv (not_not.mp h) _

theorem confined_zeroToUser (hv : t.Valid) (m : UserMemory) (dst size : Word) :
    Confined t dst size .write m (m.zeroToUser (some t) dst size).1 (m.zeroToUser (some t) dst size).2 := by
  unfold zeroToUser
  by_cases hs : size = 0
  · subst hs
    exact confined_empty
  rw [if_neg hs]
  dsimp only
  split
  · rename_i h
    exact confined_refused hs h
  · rename_i h
    exact confined_fill hv (not_not.mp h) fun _ => 0

end UserMemory

/-- How many bytes of a reply are copied to the sender. -/
def PendingReply.copied (pm : PendingReply) (rsz : Word) : Word :=
  if pm.replyUserPtr = 0 then 0 else if rsz < pm.replyCapacity then rsz else pm.replyCapacity

namespace UserMemory

variable {t : Task} {b : TaskBlocks}

/-- A reply goes to what the pointer to the sender leads to. -/
theorem confined_replyCopy (hv : t.Valid) (m : UserMemory) {pm : PendingReply} (hs : b.deref pm.sender = some t)
    (buf : ℕ → UInt8) (rsz : Word) : Confined t pm.replyUserPtr (pm.copied rsz) .write m (m.replyCopy b pm buf rsz).1
      (m.replyCopy b pm buf rsz).2 := by
  unfold replyCopy
  split
  · rename_i h
    dsimp only
    rw [hs, PendingReply.copied, if_neg h.1]
    exact confined_copyToUserTask hv m _ _ _
  · rename_i h
    have hcopied : pm.copied rsz = 0 := by
      unfold PendingReply.copied
      split
      · rfl
      · rename_i hp
        have hpos : ¬ (0 < pm.replyCapacity ∧ 0 < rsz) := fun hc => h ⟨hp, hc⟩
        apply BitVec.eq_of_toNat_eq
        simp only [BitVec.lt_def] at hpos ⊢
        split <;> simp_all <;> omega
    rw [hcopied]
    exact confined_empty

end UserMemory

namespace TaskBlocks

variable [cfg : MpuConfig] {t₀ : Task} {b b' : TaskBlocks} {p : ℕ} {a : TaskBlockAct} {as : List TaskBlockAct}

/-- The task at `p` is not deleted. -/
def Spares (p : ℕ) (_ : TaskBlocks) : TaskBlockAct → Prop
  | .delete q => p ≠ q
  | .create .. | .regionAdd .. | .reuse .. => True

/-- The task that was created from `t₀` is still at `p`, with the regions that accepted calls have added. -/
structure StillAt (t₀ : Task) (p : ℕ) (b : TaskBlocks) : Prop where
  ne_null : p ≠ 0
  live : b.live p = true
  added : ∃ xs, run Task.step t₀.init xs = some (b.block p)

theorem stillAt_create (h : b.step (.create p t₀) = some b') : StillAt t₀ p b' := by
  simp only [step] at h
  split at h
  · cases h
  · rename_i hp
    cases h
    exact ⟨fun e => hp (.inl e), Function.update_self .., [], congrArg some (Function.update_self p t₀.init b.block).symm⟩

/-- Nothing has happened at `p`. -/
theorem StillAt.of_eq (hb : StillAt t₀ p b) (hblock : b'.block p = b.block p) (hlive : b'.live p = b.live p) :
    StillAt t₀ p b' := by
  refine ⟨hb.ne_null, hlive.trans hb.live, ?_⟩
  rw [hblock]
  exact hb.added

theorem StillAt.step (hb : StillAt t₀ p b) (hs : Spares p b a) (h : b.step a = some b') : StillAt t₀ p b' := by
  cases a with
  | create q t =>
    simp only [TaskBlocks.step] at h
    split at h
    · cases h
    · rename_i hq
      cases h
      have hne : p ≠ q := fun e => hq (.inr (e ▸ hb.live))
      exact hb.of_eq (Function.update_of_ne hne ..) (Function.update_of_ne hne ..)
  | regionAdd q inIsr base size attr =>
    simp only [TaskBlocks.step] at h
    split at h
    · cases h
    · split at h
      · rename_i t ht
        cases h
        by_cases hq : p = q
        · subst hq
          obtain ⟨xs, hxs⟩ := hb.added
          refine ⟨hb.ne_null, hb.live, xs ++ [⟨inIsr, base, size, attr⟩], ?_⟩
          rw [run_append, hxs, Option.bind_some, run_one, Task.step, ht]
          exact congrArg some (Function.update_self p t b.block).symm
        · exact hb.of_eq (Function.update_of_ne hq ..) rfl
      · cases h
        exact hb
  | delete q =>
    simp only [TaskBlocks.step] at h
    split at h
    · cases h
      exact hb.of_eq rfl (Function.update_of_ne hs ..)
    · cases h
  | reuse q t =>
    simp only [TaskBlocks.step] at h
    split at h
    · cases h
    · rename_i hq
      cases h
      have hne : p ≠ q := fun e => hq (e ▸ hb.live)
      exact hb.of_eq (Function.update_of_ne hne ..) rfl

theorem stillAt_of_path (hb : StillAt t₀ p b) (h : Path (Next TaskBlocks.step) (Spares p) b as b') : StillAt t₀ p b' :=
  h.invariant (fun _ _ _ hI hc hs => hI.step hc hs) hb

end TaskBlocks

namespace Mpu.Task

open UserMemory

variable [cfg : MpuConfig] {t₀ : Task} {b₀ b₁ b : TaskBlocks} {p : ℕ} {as : List TaskBlockAct}

/-- **Copies are confined** to the regions of the task, the caller or the sender: a user task is created with its control
block at `p`; after any steps but its deletion its regions are those of its creation and of accepted calls, and that is
what the pointer to the caller leads to, and the pointer to the sender. -/
theorem copies_confined (hu : t₀.user = true) (hc : b₀.step (.create p t₀) = some b₁)
    (h : Path (Next TaskBlocks.step) (TaskBlocks.Spares p) b₁ as b) (m : UserMemory) :
    ∃ t xs, run step t₀.init xs = some t ∧ b.deref p = some t ∧
      (∀ kernelDst src size, Confined t src size .read m (m.copyFromUser (b.deref p) kernelDst src size).1
        (m.copyFromUser (b.deref p) kernelDst src size).2.1) ∧
      (∀ dst src size, Confined t dst size .write m (m.copyToUser (b.deref p) dst src size).1
        (m.copyToUser (b.deref p) dst src size).2) ∧
      (∀ dst size, Confined t dst size .write m (m.zeroToUser (b.deref p) dst size).1
        (m.zeroToUser (b.deref p) dst size).2) ∧
      ∀ (pm : PendingReply) buf rsz, pm.sender = p → Confined t pm.replyUserPtr (pm.copied rsz) .write m
        (m.replyCopy b pm buf rsz).1 (m.replyCopy b pm buf rsz).2 := by
  obtain ⟨hp, -, xs, hxs⟩ := TaskBlocks.stillAt_of_path (TaskBlocks.stillAt_create hc) h
  have hv := (ok_run hu hxs).valid
  have hd : b.deref p = some (b.block p) := if_neg hp
  refine ⟨b.block p, xs, hxs, hd, ?_, ?_, ?_, fun pm buf rsz hs => confined_replyCopy hv m (hs ▸ hd) buf rsz⟩
  all_goals rw [hd]
  · exact confined_copyFromUser hv m
  · exact confined_copyToUserTask hv m
  · exact confined_zeroToUser hv m

end Mpu.Task

end Aixos

namespace Aixos.Mpu.Task

open Transition UserMemory

attribute [local instance] MpuConfig.default

/-- Memory in which no task has its control block yet. -/
def noBlocks : TaskBlocks := { block := fun _ => withStack 0, live := fun _ => false }

/-- A task has been created. -/
def senderCreated : TaskBlocks where
  block := Function.update noBlocks.block 64 (withStack 0x20000000).init
  live := Function.update noBlocks.live 64 true

/-- The last bytes of the stack are cleared, and a reply is cut to the buffer of the sender, which ends where the stack does;
another task has been created and deleted since the sender was. -/
theorem copies_confined_stack : ∃ b t, noBlocks.step (.create 64 (withStack 0x20000000)) = some senderCreated ∧
    Path (Next TaskBlocks.step) (TaskBlocks.Spares 64) senderCreated [.create 800 (withStack 0x20001000),
      .regionAdd 64 false 0x08000000 1024 5, .delete 800] b ∧ b.deref 64 = some t ∧ ∀ m : UserMemory,
      (m.zeroToUser (b.deref 64) 0x20000FF0 16).2 = Code.ok ∧ (m.zeroToUser (b.deref 64) 0x20000FF0 17).2 = Code.fault ∧
      Confined t 0x20000FF0 16 .write m (m.zeroToUser (b.deref 64) 0x20000FF0 16).1
        (m.zeroToUser (b.deref 64) 0x20000FF0 16).2 ∧
      (m.replyCopy b ⟨64, 0x20000FF0, 16⟩ (fun _ => 1) 256).2 = Code.ok ∧
      Confined t 0x20000FF0 16 .write m (m.replyCopy b ⟨64, 0x20000FF0, 16⟩ (fun _ => 1) 256).1
        (m.replyCopy b ⟨64, 0x20000FF0, 16⟩ (fun _ => 1) 256).2 := by
  have hc : noBlocks.step (.create 64 (withStack 0x20000000)) = some senderCreated := rfl
  have hpath : Path (Next TaskBlocks.step) (TaskBlocks.Spares 64) senderCreated [.create 800 (withStack 0x20001000),
      .regionAdd 64 false 0x08000000 1024 5, .delete 800] _ :=
    .cons trivial rfl (.cons trivial rfl (.cons (show 64 ≠ 800 by decide) rfl (.nil _)))
  refine ⟨_, _, hc, hpath, rfl, fun m => ?_⟩
  obtain ⟨t, -, -, hd, -, -, hz, hr⟩ := copies_confined rfl hc hpath m
  obtain rfl := Option.some.inj hd
  exact ⟨rfl, rfl, hz 0x20000FF0 16, rfl, hr ⟨64, 0x20000FF0, 16⟩ (fun _ => 1) 256 rfl⟩

/-- A task without regions, for its stack is not aligned, copies no bytes without an error. And a reply of 16 bytes to a
sender that has been deleted is copied, into what was its stack. -/
theorem copies_not_confined : (∃ t, run step (withStack 0x20000001).init [] = some t ∧ t.user = true ∧ ∀ m : UserMemory,
    m.copyFromUser (some t) true 0x20000001 0 = (m, Code.ok, []) ∧
      ¬ ∃ r ∈ t.regions, r.gives .read = true ∧ r.Around 0x20000001 0) ∧
    ∃ b, noBlocks.step (.create 64 (withStack 0x20000000)) = some senderCreated ∧
      userMemoryCheckForTask (senderCreated.deref 64) 0x20000FF0 16 true = Code.ok ∧
      senderCreated.step (.delete 64) = some b ∧ b.live 64 = false ∧ ∀ m : UserMemory,
        (m.replyCopy b ⟨64, 0x20000FF0, 16⟩ (fun _ => 1) 16).2 = Code.ok ∧
        (m.replyCopy b ⟨64, 0x20000FF0, 16⟩ (fun _ => 1) 16).1.bytes 0x20000FF0 = 1 := by
  refine ⟨⟨_, rfl, rfl, fun m => ⟨rfl, ?_⟩⟩, _, rfl, rfl, rfl, rfl, fun m => ⟨rfl, rfl⟩⟩
  rintro ⟨r, hr, -⟩
  exact List.not_mem_nil hr

end Aixos.Mpu.Task
