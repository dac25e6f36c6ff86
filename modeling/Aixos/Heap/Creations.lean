import Aixos.Heap.Holdings
import Aixos.Heap.Tilings
import Aixos.Kernel.TaskCreate
import Aixos.Objects.HandleTypes

/-!
# A task is created, or nothing has happened

* `TaskKernel.Undone` — of a call, a restored heap is all that is left.
* `TaskKernel.creation_all_or_nothing` — that is so of every call that creates no task.
-/

namespace Aixos

open ByteMemory Block Transition

variable [hcfg : HeapConfig]

namespace TaskKernel

open Heap

variable {s s₂ : TaskKernel} {bs bs₁ : List Block} {u : Used}

/-- From `s` to `s'` the heap has been restored, and all else stays. -/
structure Undone (s s' : TaskKernel) (bs : List Block) : Prop where
  heap : s.heap.Restored s'.heap bs
  rest : s' = { s with heap := s'.heap }

theorem Undone.refl (hi : s.heap.Intact bs) : s.Undone s bs :=
  ⟨hi.restored (.refl _), rfl⟩

/-- An allocation gives a block, or there is nothing to be undone. -/
theorem kernelMalloc_spec (hi : s.heap.Intact bs) (n : ℕ) :
    (∃ s', s.kernelMalloc n = some (s', 0) ∧ s.Undone s' bs) ∨
    ∃ h' bs' u, s.kernelMalloc n = some ({ s with heap := h' }, u.addr + heapHeaderSize) ∧ s.heap.Placed h' bs bs' u ∧
      Within s.heap.mem h'.mem s.heap.heapBegin s.heap.heapEnd := by
  rcases hi.allocate s.inIsr n true with ⟨h', e, hid, -⟩ | ⟨h', bs', u, e, hp, -, -⟩
  · refine .inl ⟨{ s with heap := h' }, ?_, hi.restored hid, rfl⟩
    rw [kernelMalloc, Heap.kernelMalloc, e, Option.map_some]
  · refine .inr ⟨h', bs', u, ?_, hp, hi.allocate_within e⟩
    rw [kernelMalloc, Heap.kernelMalloc, e, Option.map_some]

theorem Undone.undo {h₁ : Heap} (hi : s.heap.Intact bs) (hp : s.heap.Placed h₁ bs bs₁ u)
    (hw : Within s.heap.mem h₁.mem s.heap.heapBegin s.heap.heapEnd) (hisr : s.inIsr = false)
    (hu : Undone { s with heap := h₁ } s₂ bs₁) : s.Undone (s₂.free (u.addr + heapHeaderSize)) bs := by
  have hisr₂ : s₂.inIsr = false := by
    rw [hu.rest]
    exact hisr
  refine ⟨?_, ?_⟩
  · show s.heap.Restored (s₂.heap.free s₂.inIsr (u.addr + heapHeaderSize)) bs
    rw [hisr₂]
    exact hp.undo hi hw hu.heap
  · have hrest : s₂ = { s with heap := s₂.heap } := hu.rest
    rw [hrest]
    rfl

variable [cfg : Config] [ocfg : ObjectConfig] [Mpu.MpuConfig] [layout : TaskLayout]

omit hcfg cfg [Mpu.MpuConfig] layout in
/-- A new page has free slots. -/
theorem take_fresh (tcb : ℕ) :
    ∃ b i, (Pool.fresh ocfg.taskSlotPageSize : Pool ℕ).take .task tcb = some (b, i) := by
  rw [Pool.take, show (Pool.fresh ocfg.taskSlotPageSize : Pool ℕ).freeBitmap = freeMask _ from rfl,
    lowestBit_freeMask ocfg.taskSlotPageSize_pos ocfg.taskSlotPageSize_le]
  exact ⟨_, _, rfl⟩

omit cfg [Mpu.MpuConfig] in
/-- **`task_slot_alloc`** takes a slot, or leaves pages and heap as they are. -/
theorem taskSlotLoop_spec (hi : s.heap.Intact bs) (tcb : ℕ) (ps : List ℕ) :
    ∃ s' r, taskSlotLoop tcb s ps = some (s', r) ∧ (r = none → s.Undone s' bs) := by
  induction ps with
  | nil => exact ⟨s, none, rfl, fun _ => .refl hi⟩
  | cons p ps ih =>
    rw [taskSlotLoop]
    cases hpage : s.objects.taskSlotPages p with
    | none =>
      dsimp only
      rcases kernelMalloc_spec hi layout.sizeofTaskSlotPage with ⟨s', e, hu⟩ | ⟨h', bs', u, e, -, -⟩
      · rw [e]
        exact ⟨s', none, rfl, fun _ => hu⟩
      · have hH := heapHeaderSize_ge
        rw [e]
        dsimp only
        obtain ⟨b, i, hb⟩ := take_fresh tcb
        rw [if_neg (by omega), hb]
        exact ⟨_, _, rfl, fun h => by cases h⟩
    | some b =>
      dsimp only
      cases b.take .task tcb with
      | none => exact ih
      | some r => exact ⟨_, _, rfl, fun h => by cases h⟩

omit cfg [Mpu.MpuConfig] in
/-- The pages go through what `Objects.taskSlotAlloc` says, for a heap that has room for a page or has none. -/
theorem taskSlotLoop_objects {s' : TaskKernel} {tcb : ℕ} {ps : List ℕ} {r : Option ℕ}
    (h : taskSlotLoop tcb s ps = some (s', r)) :
    ∃ memory, Objects.taskSlotLoop tcb memory s.objects ps = (s'.objects, r) := by
  induction ps with
  | nil =>
    cases h
    exact ⟨true, rfl⟩
  | cons p ps ih =>
    rw [taskSlotLoop] at h
    simp only [Objects.taskSlotLoop]
    cases hpage : s.objects.taskSlotPages p with
    | none =>
      rw [hpage] at h
      dsimp only at h ⊢
      cases hm : s.kernelMalloc layout.sizeofTaskSlotPage with
      | none =>
        rw [hm] at h
        cases h
      | some q =>
        have hobjects : q.1.objects = s.objects := by
          obtain ⟨q', -, rfl⟩ := Option.map_eq_some_iff.mp hm
          rfl
        rw [hm] at h
        dsimp only at h
        split at h
        · cases h
          exact ⟨false, by rw [hobjects]; rfl⟩
        · obtain ⟨b, i, hb⟩ := take_fresh tcb
          rw [hb] at h
          cases h
          refine ⟨true, ?_⟩
          rw [hb, hobjects]
          rfl
    | some b =>
      rw [hpage] at h
      dsimp only at h ⊢
      cases ht : b.take .task tcb with
      | none =>
        rw [ht] at h
        exact ih h
      | some q =>
        rw [ht] at h
        cases h
        exact ⟨true, rfl⟩

theorem createTask_spec (hi : s.heap.Intact bs) (a : TaskArgs) (tcb base alloc : ℕ) :
    ∃ s' r, s.createTask a tcb base alloc = some (s', r) ∧
      (r = none → ∃ s₁, s.Undone s₁ bs ∧ s' = (s₁.freeStack a alloc).freeTcb a tcb) := by
  obtain ⟨s₁, slot, e, hu⟩ := taskSlotLoop_spec hi tcb (List.range taskSlotPageCount)
  rw [createTask, taskSlotAlloc, e, Option.map_some]
  cases slot with
  | none => exact ⟨_, _, rfl, fun _ => ⟨s₁, hu rfl, rfl⟩⟩
  | some slot => exact ⟨_, _, rfl, fun h => by cases h⟩

/-- Without a task, the stack is given back if it was allocated. -/
theorem createStack_spec (hi : s.heap.Intact bs) (hisr : s.inIsr = false) (a : TaskArgs) (tcb : ℕ) :
    ∃ s' r, s.createStack a tcb = some (s', r) ∧ (r = none → ∃ s₁, s.Undone s₁ bs ∧ s' = s₁.freeTcb a tcb) := by
  unfold createStack
  by_cases hstack : a.stack ≠ 0
  · obtain ⟨s', r, e, h⟩ := createTask_spec hi a tcb a.stack a.stack
    rw [if_pos hstack]
    refine ⟨s', r, e, fun hr => ?_⟩
    obtain ⟨s₁, hu, rfl⟩ := h hr
    refine ⟨s₁, hu, ?_⟩
    rw [freeStack, if_neg hstack]
  rw [if_neg hstack]
  cases stackAllocSize a with
  | none => exact ⟨_, _, rfl, fun _ => ⟨s, .refl hi, rfl⟩⟩
  | some n =>
    dsimp only
    rcases kernelMalloc_spec hi n with ⟨s₁, e, hu⟩ | ⟨h₁, bs₁, u, e, hp, hw⟩
    · rw [e]
      exact ⟨_, _, if_pos rfl, fun _ => ⟨s₁, hu, rfl⟩⟩
    · have hH := heapHeaderSize_ge
      rw [e]
      dsimp only
      rw [if_neg (by omega)]
      have hi₁ : ({ s with heap := h₁ } : TaskKernel).heap.Intact bs₁ := hp.intact
      obtain ⟨s', r, e', h⟩ :=
        createTask_spec hi₁ a tcb (stackBaseIn a (u.addr + heapHeaderSize)) (u.addr + heapHeaderSize)
      refine ⟨s', r, e', fun hr => ?_⟩
      obtain ⟨s₂, hu, rfl⟩ := h hr
      refine ⟨s₂.free (u.addr + heapHeaderSize), hu.undo hi hp hw hisr, ?_⟩
      rw [freeStack, if_pos (not_not.mp hstack)]

/-- **`task_create_common`** creates a task, or what it has done is undone. -/
theorem taskCreateCommon_spec (hi : s.heap.Intact bs) (a : TaskArgs) :
    ∃ s' r, s.taskCreateCommon a = some (s', r) ∧ (r = none → s.Undone s' bs) := by
  unfold taskCreateCommon
  by_cases had : s.admits a = true
  · have hisr : s.inIsr = false := by
      by_contra hisr
      have hisr : s.inIsr = true := by simpa using hisr
      rw [admits, if_pos (.inl hisr)] at had
      cases had
    rw [had, if_neg (by decide)]
    by_cases htcb : a.providedTcb ≠ 0
    · obtain ⟨s', r, e, h⟩ := createStack_spec hi hisr a a.providedTcb
      rw [if_pos htcb]
      refine ⟨s', r, e, fun hr => ?_⟩
      obtain ⟨s₁, hu, rfl⟩ := h hr
      rw [freeTcb, if_neg htcb]
      exact hu
    rw [if_neg htcb]
    rcases kernelMalloc_spec hi layout.sizeofTcb with ⟨s₁, e, hu⟩ | ⟨h₁, bs₁, u, e, hp, hw⟩
    · rw [e]
      exact ⟨_, _, if_pos rfl, fun _ => hu⟩
    · have hH := heapHeaderSize_ge
      rw [e]
      dsimp only
      rw [if_neg (by omega)]
      have hi₁ : ({ s with heap := h₁ } : TaskKernel).heap.Intact bs₁ := hp.intact
      obtain ⟨s', r, e', h⟩ := createStack_spec hi₁ hisr a (u.addr + heapHeaderSize)
      refine ⟨s', r, e', fun hr => ?_⟩
      obtain ⟨s₂, hu, rfl⟩ := h hr
      rw [freeTcb, if_pos (not_not.mp htcb)]
      exact hu.undo hi hp hw hisr
  · have had : s.admits a = false := by simpa using had
    rw [had]
    exact ⟨s, none, if_pos rfl, fun _ => .refl hi⟩

/-- Each of the functions creates a task, or what it has done is undone. -/
theorem create_spec (hi : s.heap.Intact bs) (f : Creator) (name : Option (List UInt8)) (entry arg stackSize : ℕ)
    (priority : ℤ) : ∃ s' r, s.create f name entry arg stackSize priority = some (s', r) ∧
      (r = none → s.Undone s' bs) := by
  cases f with
  | task => exact taskCreateCommon_spec hi _
  | userTask =>
    rw [create]
    split
    · exact ⟨s, none, rfl, fun _ => .refl hi⟩
    · exact taskCreateCommon_spec hi _
  | taskStatic stack tcb => exact taskCreateCommon_spec hi _
  | userTaskStatic stack tcb => exact taskCreateCommon_spec hi _

/-- The heap is that of some clients; memory outside of it may be anything. -/
structure Uses (s : TaskKernel) (c : HeapClients) : Prop where
  heap_eq : s.heap = { c.heap with mem := s.heap.mem }
  agree : Agree c.heap.mem s.heap.mem c.heap.heapBegin c.heap.heapEnd

/-- Memory that may be a caller's: outside of the heap, or in a live allocation. -/
def Foreign (c : HeapClients) (p n : ℕ) : Prop :=
  p + n ≤ c.heap.heapBegin ∨ c.heap.heapEnd ≤ p ∨ ∃ e ∈ c.live, e.1 ≤ p ∧ p + n ≤ e.1 + e.2

/-- **Creating a task is all or nothing**: whatever clients have done with the heap before, whatever the slots, the
lists and the arguments are, a creation returns, and if it returns `AIXOS_HANDLE_INVALID` for an argument that is not
valid or for want of a slot or of memory, then the blocks of the heap are what they were, and so are the pages of
slots, `task_count`, `all_task_list`, the ready structure, and all memory that the caller can have provided. -/
theorem creation_all_or_nothing {c : HeapClients} {m : ByteMemory} {start size : ℕ} {xs : List HeapCall}
    (h8 : 8 ∣ start) (hend : start + size < 256 ^ hcfg.pointerSize)
    (h : run HeapClients.step (.init m start size) xs = some c) (hs : s.Uses c) (f : Creator)
    (name : Option (List UInt8)) (entry arg stackSize : ℕ) (priority : ℤ) :
    ∃ s' r, s.create f name entry arg stackSize priority = some (s', r) ∧
      (r = none → s'.heap.blocks = s.heap.blocks ∧ s'.objects = s.objects ∧ s'.taskCount = s.taskCount ∧
        s'.allTaskList = s.allTaskList ∧ s'.sched = s.sched ∧
        ∀ p n, Foreign c p n → s'.heap.mem.load p n = s.heap.mem.load p n) := by
  obtain ⟨h8', hend'⟩ := init_region h8 hend
  obtain ⟨bs, o⟩ := HeapClients.owns_run m h8' hend' h
  have hi : s.heap.Intact bs := by
    rw [hs.heap_eq]
    exact o.intact.outside hs.agree
  have hbegin : s.heap.heapBegin = c.heap.heapBegin := by rw [hs.heap_eq]
  have hend : s.heap.heapEnd = c.heap.heapEnd := by rw [hs.heap_eq]
  obtain ⟨s', r, e, hu⟩ := create_spec hi f name entry arg stackSize priority
  refine ⟨s', r, e, fun hr => ?_⟩
  have hu := hu hr
  refine ⟨?_, ?_, ?_, ?_, ?_, fun p n hp => load_eq_iff.mpr ?_⟩
  · exact hu.heap.blocks_eq hi
  · rw [hu.rest]
  · rw [hu.rest]
  · rw [hu.rest]
  · rw [hu.rest]
  · have hw := hu.heap.within
    rw [hbegin, hend] at hw
    rcases hp with hp | hp | ⟨e, he, hle, hlt⟩
    · exact hw.agree (.inl hp)
    · exact hw.agree (.inr hp)
    · obtain ⟨v, hv, rfl⟩ := o.mem_live.mp he
      have hfits : v.request ≤ v.size := by
        have h₁ := le_rounded v.request
        have h₂ := (o.room v hv).2.2
        omega
      have hle : v.addr + heapHeaderSize ≤ p := hle
      have hlt : p + n ≤ v.addr + heapHeaderSize + v.request := hlt
      rw [← hbegin] at hv
      exact (hu.heap.kept v hv).mono hle (by omega)

end TaskKernel

end Aixos

namespace Aixos.TaskKernel

open Transition

attribute [local instance] HeapConfig.default Config.default ObjectConfig.default Mpu.MpuConfig.default

/-- A control block of 640 bytes, and a stack whose first frame is 64 bytes of zeros. -/
@[reducible] def smallLayout : TaskLayout where
  sizeofTcb := 640
  encode b := le 4 b.stackTop ++ (le 4 b.archControl ++ List.replicate 632 0)
  sizeofTaskSlotPage := 260
  stackGuardBytes := 16
  stackInit m _ top _ _ := (m.store (top - 64) (List.replicate 64 0), top - 64)
  length_encode b := by rw [List.length_append, List.length_append, length_le, length_le, List.length_replicate]

attribute [local instance] smallLayout

/-- No task has been created yet. -/
def fresh (h : Heap) : TaskKernel :=
  { heap := h, objects := .init, taskCount := 0, allTaskList := [], sched := .init, isSystemRunning := false, inIsr := false }

/-- There is room for the control block of a user task, and not for its stack. -/
theorem creation_all_or_nothing_once : ∃ c s',
    run HeapClients.step (.init (fun _ => 0) 0x20008000 4096) HeapClients.threeCalls = some c ∧
      (fresh c.heap).create .userTask none 1 0 2048 3 = some (s', none) ∧ s'.heap.freeCount ≠ c.heap.freeCount ∧
      s'.heap.blocks = c.heap.blocks ∧ s'.taskCount = 0 := by
  obtain ⟨c, hr, hp⟩ := exists_run HeapClients.step (.init (fun _ => 0) 0x20008000 4096) HeapClients.threeCalls (fun c =>
    (((fresh c.heap).create .userTask none 1 0 2048 3).map fun r =>
      decide (r.2 = none ∧ r.1.heap.freeCount ≠ c.heap.freeCount)) = some true) (by decide +kernel)
  have hs : (fresh c.heap).Uses c := ⟨rfl, ByteMemory.Agree.refl _ _ _⟩
  obtain ⟨s', r, e, h⟩ := creation_all_or_nothing (by decide) (by decide) hr hs .userTask none 1 0 2048 3
  rw [e] at hp
  obtain ⟨hnone, hcount⟩ := of_decide_eq_true (Option.some.inj (of_decide_eq_true hp))
  obtain ⟨hb, -, ht, -⟩ := h hnone
  subst hnone
  exact ⟨c, s', hr, e, hcount, hb, ht⟩

/-- On a region that starts at an odd word `aixos_free` does not take the control block back. -/
theorem creation_keeps_block : Heap.Given 0x20008004 4096 ∧ ∃ s',
    (fresh (HeapClients.init (fun _ => 0) 0x20008004 4096).heap).create .userTask none 1 0 2048 3 = some (s', none) ∧
      s'.heap.blocks ≠ (HeapClients.init (fun _ => 0) 0x20008004 4096).heap.blocks := by
  have h : ((fresh (HeapClients.init (fun _ => 0) 0x20008004 4096).heap).create .userTask none 1 0 2048 3).map (fun r =>
      decide (r.2 = none ∧ r.1.heap.blocks ≠ (HeapClients.init (fun _ => 0) 0x20008004 4096).heap.blocks)) =
        some true := by decide +kernel
  obtain ⟨⟨s', r⟩, e, h⟩ := Option.map_eq_some_iff.mp h
  obtain ⟨rfl, hb⟩ := of_decide_eq_true h
  exact ⟨by decide, s', e, hb⟩

end Aixos.TaskKernel
