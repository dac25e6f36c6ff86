import Aixos.Kernel.Entries
import Aixos.Objects.StaleHandles

/-!
# Handles that mean something else

-1 is what a function that creates an object returns if there is none, and 0 marks a free entry of an array of objects.

* `History.Tracks.slotAlloc_eq_some_iff` — an allocation takes the first slot that is free.
* `handleMake_eq_invalid` — index 255 with the last generation make up -1.
* `Entries.Linked` — an entry has the handle of the slot that has the entry.
* `Entries.tells_of_run` — in every run, a function that creates an object tells whether it did, but for the last slot
  of tasks in the last of its generations.
-/

namespace Aixos

open Transition

variable {α : Type*}

/-! ### Special handles -/

/-- Index 255 and the last generation make up `AIXOS_HANDLE_INVALID`. -/
theorem handleMake_eq_invalid {i : ℕ} (hi : i < 256) {g : BitVec 32} (hg : g.toNat < 2 ^ 24) :
    handleMake i g = handleInvalid ↔ i = 255 ∧ g.toNat = 2 ^ 24 - 1 := by
  constructor
  · intro e
    have h₁ := handleIdx_handleMake hi g
    have h₂ := handleGen_handleMake (i := i) hg
    rw [e] at h₁ h₂
    exact ⟨h₁.symm, by rw [← h₂]; rfl⟩
  · rintro ⟨rfl, hg⟩
    rw [BitVec.eq_of_toNat_eq (y := 0xFFFFFF#32) hg]
    rfl

theorem handleMake_ne_zero {i : ℕ} {g : BitVec 32} (hg : g.toNat < 2 ^ 24) (h₀ : g ≠ 0) : handleMake i g ≠ 0 := by
  intro e
  have h := handleGen_handleMake (i := i) hg
  rw [e] at h
  exact h₀ h.symm

theorem generationOf_ne_zero {n : ℕ} (hn : 0 < n) : generationOf n ≠ 0 := by
  obtain ⟨n, rfl⟩ := Nat.exists_eq_add_one.mpr hn
  intro e
  have := congrArg BitVec.toNat e
  rw [generationOf_succ_toNat] at this
  cases this

/-! ### The first free slot -/

namespace Pool.Tracks

variable {b : Pool α} {n i : ℕ} {type : ObjType} {live : ℕ → Option α} {allocs : ℕ → ℕ} {obj : α}

theorem lowestBit_eq_some_iff (h : b.Tracks n type live allocs) (hn : n ≤ 32) :
    lowestBit b.freeBitmap = some i ↔ i < n ∧ live i = none ∧ ∀ j < i, live j ≠ none := by
  unfold lowestBit
  rw [List.find?_range_eq_some, List.mem_range]
  constructor
  · rintro ⟨hbit, hi, hlow⟩
    rw [h.free i hi, Bool.and_eq_true, decide_eq_true_iff, Option.isNone_iff_eq_none] at hbit
    refine ⟨hbit.1, hbit.2, fun j hj hnone => ?_⟩
    have := hlow j hj
    rw [h.free j (by omega), hnone, decide_eq_true (by omega : j < n)] at this
    cases this
  · rintro ⟨hi, hnone, hlow⟩
    refine ⟨?_, by omega, fun j hj => ?_⟩
    · rw [h.free i (by omega), hnone, decide_eq_true hi]
      rfl
    · rw [h.free j (by omega)]
      simp [Option.isSome_iff_ne_none.mpr (hlow j hj)]

theorem take_eq_none_iff (h : b.Tracks n type live allocs) (hn : n ≤ 32) :
    b.take type obj = none ↔ ∀ i < n, live i ≠ none := by
  have htake : b.take type obj = none ↔ lowestBit b.freeBitmap = none := by
    unfold Pool.take
    cases lowestBit b.freeBitmap <;> simp
  rw [htake, lowestBit, List.find?_eq_none]
  constructor
  · intro hb i hi hnone
    refine hb i (List.mem_range.mpr (by omega)) ?_
    rw [h.free i (by omega), hnone, decide_eq_true hi]
    rfl
  · intro hl i hi
    rw [List.mem_range] at hi
    rw [h.free i hi, Bool.and_eq_true, decide_eq_true_iff, Option.isNone_iff_eq_none]
    exact fun ⟨hin, hnone⟩ => hl i hin hnone

theorem take_index {b' : Pool α} (ht : b.take type obj = some (b', i)) : lowestBit b.freeBitmap = some i := by
  unfold Pool.take at ht
  split at ht
  · cases ht
  · rename_i k hk
    cases ht
    exact hk

end Pool.Tracks

variable [cfg : Config] [ocfg : ObjectConfig]

namespace History.Tracks

variable {h : History α} {p : PoolId} {i : ℕ} {obj : α} {memory : Bool}

/-- What is live on a page that has not been allocated. -/
theorem live_eq_none_of_page {k : ℕ} (ht : h.Tracks) (hk : h.objects.taskSlotPages k = none)
    (hi : i / ocfg.taskSlotPageSize = k) : h.live .task i = none ∧ h.allocs .task i = 0 := by
  have hslot := (ht.page k).slot (i % ocfg.taskSlotPageSize) (Nat.mod_lt _ ocfg.taskSlotPageSize_pos)
  rw [hk, ← hi, Nat.div_add_mod'] at hslot
  refine ⟨hslot.obj.symm, ?_⟩
  by_contra hne
  obtain ⟨n, hn⟩ := Nat.exists_eq_add_one.mpr (Nat.pos_of_ne_zero hne)
  have hg : (0 : BitVec 32) = generationOf (n + 1) := by rw [← hn]; exact hslot.generation
  have := congrArg BitVec.toNat hg
  rw [generationOf_succ_toNat] at this
  cases this

/-- The loop over the pages from page `k` on, when all slots before it have a task. -/
theorem taskSlotLoop_eq_some_iff (ht : h.Tracks) (obj : α) (memory : Bool) (i : ℕ) {k m : ℕ} (hm : k + m = taskSlotPageCount)
    (hlow : ∀ j < k * ocfg.taskSlotPageSize, h.live .task j ≠ none) :
    (Objects.taskSlotLoop obj memory h.objects (List.range' k m)).2 = some i ↔
      i < taskHandleLimit ∧ h.live .task i = none ∧ (∀ j < i, h.live .task j ≠ none) ∧
        (memory = true ∨ h.objects.taskSlotPages (i / ocfg.taskSlotPageSize) ≠ none) := by
  have hcount : taskSlotPageCount * ocfg.taskSlotPageSize = taskHandleLimit :=
    Nat.div_mul_cancel ocfg.taskSlotPageSize_dvd
  have hsize := ocfg.taskSlotPageSize_pos
  induction m generalizing k with
  | zero =>
    rw [Nat.add_zero] at hm
    rw [hm, hcount] at hlow
    constructor
    · intro e
      cases e
    · rintro ⟨hi, hnone, -⟩
      exact absurd hnone (hlow i hi)
  | succ m ih =>
    have hpage := ht.page k
    have hsplit : ∀ j < (k + 1) * ocfg.taskSlotPageSize, k * ocfg.taskSlotPageSize ≤ j →
        j / ocfg.taskSlotPageSize = k ∧ ∃ l < ocfg.taskSlotPageSize, j = k * ocfg.taskSlotPageSize + l := by
      intro j hj hk
      refine ⟨Nat.div_eq_of_lt_le hk hj, j - k * ocfg.taskSlotPageSize, ?_, by omega⟩
      rw [Nat.add_mul] at hj
      omega
    -- a page whose first free slot is `l`
    have hfirst : ∀ l, l < ocfg.taskSlotPageSize → h.live .task (k * ocfg.taskSlotPageSize + l) = none →
        (∀ j < l, h.live .task (k * ocfg.taskSlotPageSize + j) ≠ none) →
        (memory = true ∨ h.objects.taskSlotPages k ≠ none) →
        (some (k * ocfg.taskSlotPageSize + l) = some i ↔
          i < taskHandleLimit ∧ h.live .task i = none ∧ (∀ j < i, h.live .task j ≠ none) ∧
            (memory = true ∨ h.objects.taskSlotPages (i / ocfg.taskSlotPageSize) ≠ none)) := by
      intro l hl hnone hbefore hmem
      have hall : ∀ j < k * ocfg.taskSlotPageSize + l, h.live .task j ≠ none := by
        intro j hj
        rcases Nat.lt_or_ge j (k * ocfg.taskSlotPageSize) with hlt | hge
        · exact hlow j hlt
        · have := hbefore (j - k * ocfg.taskSlotPageSize) (by omega)
          rwa [Nat.add_sub_cancel' hge] at this
      constructor
      · intro e
        cases e
        refine ⟨page_index_lt (by omega) hl, hnone, hall, ?_⟩
        rwa [page_index_div hl]
      · rintro ⟨-, hi, hbi, -⟩
        refine congrArg some (Nat.le_antisymm ?_ ?_)
        · exact Nat.le_of_not_lt fun hlt => hall i hlt hi
        · exact Nat.le_of_not_lt fun hlt => hbi _ hlt hnone
    rw [List.range'_succ, Objects.taskSlotLoop]
    cases hb : h.objects.taskSlotPages k with
    | none =>
      rw [hb, Option.getD_none] at hpage
      have hfree := (live_eq_none_of_page ht hb (Nat.mul_div_cancel k hsize)).1
      dsimp only
      split
      · rename_i hmem
        constructor
        · rintro ⟨⟩
        rintro ⟨-, hi, hbi, hor⟩
        -- the slot would be the first one of this page, for which there is no memory
        have : i = k * ocfg.taskSlotPageSize := by
          refine Nat.le_antisymm ?_ ?_
          · exact Nat.le_of_not_lt fun hlt => hbi _ hlt hfree
          · exact Nat.le_of_not_lt fun hlt => hlow i hlt hi
        rw [this, Nat.mul_div_cancel k hsize, hb] at hor
        simp_all
      · rename_i hmem
        split
        · rename_i hn
          rw [hpage.take_eq_none_iff ocfg.taskSlotPageSize_le] at hn
          exact absurd hfree (hn 0 hsize)
        · rename_i b l hs
          obtain ⟨hl, hnone, hbefore⟩ :=
            (hpage.lowestBit_eq_some_iff ocfg.taskSlotPageSize_le).mp (Pool.Tracks.take_index hs)
          exact hfirst l hl hnone hbefore (.inl (by simpa using hmem))
    | some b =>
      rw [hb, Option.getD_some] at hpage
      dsimp only
      split
      · rename_i hn
        rw [hpage.take_eq_none_iff ocfg.taskSlotPageSize_le] at hn
        refine ih (by omega) fun j hj => ?_
        rcases Nat.lt_or_ge j (k * ocfg.taskSlotPageSize) with hlt | hge
        · exact hlow j hlt
        · obtain ⟨-, l, hl, rfl⟩ := hsplit j hj hge
          exact hn l hl
      · rename_i b' l hs
        obtain ⟨hl, hnone, hbefore⟩ :=
          (hpage.lowestBit_eq_some_iff ocfg.taskSlotPageSize_le).mp (Pool.Tracks.take_index hs)
        exact hfirst l hl hnone hbefore (.inr (by simp [hb]))

/-- **An allocation takes the first slot that is free.** -/
theorem taskSlotAlloc_eq_some_iff (ht : h.Tracks) (obj : α) (memory : Bool) (i : ℕ) :
    (h.objects.slotAlloc .task obj memory).2 = some i ↔ i < taskHandleLimit ∧ h.live .task i = none ∧
      (∀ j < i, h.live .task j ≠ none) ∧
        (memory = true ∨ h.objects.taskSlotPages (i / ocfg.taskSlotPageSize) ≠ none) := by
  have := ht.taskSlotLoop_eq_some_iff obj memory i (Nat.zero_add taskSlotPageCount)
    fun j hj => absurd hj (by omega)
  rwa [← List.range_eq_range'] at this

end History.Tracks

/-! ### Arrays of objects -/

/-- A slot is in use. -/
def Objects.Used (o : Objects α) (p : PoolId) (j : ℕ) : Prop := ∃ s, o.slotAt p j = some s ∧ s.used = true

namespace Entries

variable {e e' : Entries} {x : CreateCall} {p : PoolId} {i j : ℕ} {a : EntryOp} {ops : List EntryOp}
  {es : List (PoolId × ℕ)}

/-- The slot that a step takes. -/
def taken (e : Entries) : EntryOp → List (PoolId × ℕ)
  | .create x =>
    if !x.accepted then []
    else if x.pool = .task then ((e.objects.slotAlloc .task x.tcb x.memory).2.map (PoolId.task, ·)).toList
    else match e.freeEntry x.pool with
      | none => []
      | some i => ((e.objects.slotAlloc x.pool i x.memory).2.map (x.pool, ·)).toList
  | .delete _ _ => []

/-- The entries and the slots belong together, when the slots have been taken so often. -/
structure Linked (e : Entries) (h : History ℕ) (es : List (PoolId × ℕ)) : Prop where
  objects : h.objects = e.objects
  tracks : h.Tracks
  allocs : ∀ p i, h.allocs p i = es.count (p, i)
  /-- The entry that a slot has has the handle of the slot. -/
  entry : ∀ p ≠ .task, ∀ j i, h.live p j = some i →
    i < p.maxCount ∧ e.handle p i = handleMake j (generationOf (h.allocs p j))
  /-- An entry that is not free has a slot. -/
  slot : ∀ p ≠ .task, ∀ i, e.handle p i ≠ 0 → ∃ j, h.live p j = some i

namespace Linked

variable {h : History ℕ}

theorem init : Linked Entries.init History.init [] where
  objects := rfl
  tracks := History.tracks_init
  allocs _ _ := rfl
  entry _ _ _ _ hl := nomatch hl
  slot _ _ _ hh := absurd rfl hh

theorem used_iff (hl : Linked e h es) : e.objects.Used p j ↔ h.live p j ≠ none := by
  rw [← hl.objects]
  exact hl.tracks.mirrors.used p j

theorem handle_ne_zero (hl : Linked e h es) (hp : p ≠ .task) (hj : h.live p j = some i) : e.handle p i ≠ 0 := by
  rw [(hl.entry p hp j i hj).2]
  exact handleMake_ne_zero (generationOf_lt _) (generationOf_ne_zero (hl.tracks.allocs_pos (by simp [hj])))

/-- No two slots have the same entry. -/
theorem slot_unique (hl : Linked e h es) (hp : p ≠ .task) {j k : ℕ} (hj : h.live p j = some i)
    (hk : h.live p k = some i) : j = k := by
  have hj' := (hl.tracks.lt_maxCount (p := p) (i := j) (by simp [hj])).trans_le (History.maxCount_le_limit p)
  have hk' := (hl.tracks.lt_maxCount (p := p) (i := k) (by simp [hk])).trans_le (History.maxCount_le_limit p)
  have e := (hl.entry p hp j i hj).2.symm.trans (hl.entry p hp k i hk).2
  rw [← handleIdx_handleMake hj', e, handleIdx_handleMake hk']

/-- An allocation that takes no slot. -/
theorem refused (hl : Linked e h es) {obj : ℕ} {memory : Bool} {o : Objects ℕ}
    (hr : e.objects.slotAlloc p obj memory = (o, none)) :
    Linked { e with objects := o } (h.record p obj (o, none)) es where
  objects := rfl
  tracks := by
    have := (hl.tracks.slotAlloc p obj memory).1
    rwa [hl.objects, hr] at this
  allocs := hl.allocs
  entry := hl.entry
  slot := hl.slot

theorem record_some (hl : Linked e h es) {obj slot : ℕ} {memory : Bool} {o : Objects ℕ}
    (hr : e.objects.slotAlloc p obj memory = (o, some slot)) :
    (h.record p obj (o, some slot)).Tracks ∧ h.live p slot = none ∧
      ∀ q j, (h.record p obj (o, some slot)).allocs q j = (es ++ [(p, slot)]).count (q, j) := by
  obtain ⟨ht, hfree⟩ := hl.tracks.slotAlloc p obj memory
  rw [hl.objects, hr] at ht hfree
  refine ⟨ht, hfree slot rfl, fun q j => ?_⟩
  rw [List.count_append, List.count_singleton, ← hl.allocs]
  show setAt h.allocs p slot (h.allocs p slot + 1) q j = _
  rw [setAt_apply]
  by_cases hq : q = p ∧ j = slot
  · obtain ⟨rfl, rfl⟩ := hq
    simp
  · have hne : ((p, slot) == (q, j)) = false := by
      rw [beq_eq_false_iff_ne]
      exact fun e => hq (by cases e; exact ⟨rfl, rfl⟩)
    simp [hq, hne]

/-- A task takes a slot. -/
theorem task (hl : Linked e h es) {tcb slot : ℕ} {memory : Bool} {o : Objects ℕ}
    (hr : e.objects.slotAlloc .task tcb memory = (o, some slot)) :
    Linked { e with objects := o } (h.record .task tcb (o, some slot)) (es ++ [(.task, slot)]) where
  objects := rfl
  tracks := (hl.record_some hr).1
  allocs := (hl.record_some hr).2.2
  entry p hp j i hj := by
    have hlive : (h.record .task tcb (o, some slot)).live p j = h.live p j := setAt_of_ne fun hq => hp hq.1
    have hall : (h.record .task tcb (o, some slot)).allocs p j = h.allocs p j := setAt_of_ne fun hq => hp hq.1
    rw [hlive] at hj
    rw [hall]
    exact hl.entry p hp j i hj
  slot p hp i hh := by
    obtain ⟨j, hj⟩ := hl.slot p hp i hh
    exact ⟨j, (setAt_of_ne fun hq => hp hq.1).trans hj⟩

/-- A free entry takes a slot. -/
theorem create (hl : Linked e h es) (hp : p ≠ .task) (hi : i < p.maxCount) (hfree : e.handle p i = 0) {slot : ℕ}
    {memory : Bool} {o : Objects ℕ} (hr : e.objects.slotAlloc p i memory = (o, some slot)) :
    Linked ({ e with objects := o }.setHandle p i (handleMake slot (generationOf (es.count (p, slot) + 1))))
      (h.record p i (o, some slot)) (es ++ [(p, slot)]) where
  objects := rfl
  tracks := (hl.record_some hr).1
  allocs := (hl.record_some hr).2.2
  entry q hq j k hj := by
    have hj' : setAt h.live p slot (some i) q j = some k := hj
    show k < _ ∧ setAt e.handle p i _ q k = handleMake j (generationOf (setAt h.allocs p slot _ q j))
    rw [setAt_apply] at hj'
    split at hj'
    · rename_i hqj
      obtain ⟨rfl, rfl⟩ := hqj
      cases hj'
      rw [setAt_self, setAt_self, hl.allocs]
      exact ⟨hi, rfl⟩
    · rename_i hqj
      have hk : ¬ (q = p ∧ k = i) := by
        rintro ⟨rfl, rfl⟩
        exact hl.handle_ne_zero hq hj' hfree
      rw [setAt_of_ne hk, setAt_of_ne hqj]
      exact hl.entry q hq j k hj'
  slot q hq k hk := by
    have hk' : setAt e.handle p i (handleMake slot (generationOf (es.count (p, slot) + 1))) q k ≠ 0 := hk
    show ∃ j, setAt h.live p slot (some i) q j = some k
    rw [setAt_apply] at hk'
    split at hk'
    · rename_i hqk
      obtain ⟨rfl, rfl⟩ := hqk
      exact ⟨slot, setAt_self⟩
    · obtain ⟨j, hj⟩ := hl.slot q hq k hk'
      refine ⟨j, (setAt_of_ne ?_).trans hj⟩
      rintro ⟨rfl, rfl⟩
      rw [(hl.record_some hr).2.1] at hj
      cases hj

/-- A handle that resolves names a slot with a live object. -/
theorem live_of_objFromHandle (hl : Linked e h es) {w : BitVec 32}
    (hw : e.objects.objFromHandle w p.objType = some i) : h.live p (handleIdx w) = some i := by
  unfold Objects.objFromHandle at hw
  rw [History.poolId_objType] at hw
  dsimp only at hw
  split at hw
  · cases hw
  · rename_i s hs
    rw [← hl.objects] at hs
    split at hw
    · rw [← (hl.tracks.slotAt_eq_some hs).2.obj]
      exact hw
    · cases hw

theorem delete (hl : Linked e h es) (p : PoolId) (w : BitVec 32) : ∃ h', Linked (e.delete p w) h' es ∧
    (e.objects.objFromHandle w p.objType ≠ none → h'.live = setAt h.live p (handleIdx w) none) := by
  unfold Entries.delete
  cases hw : e.objects.objFromHandle w p.objType with
  | none => exact ⟨h, hl, fun h => absurd rfl h⟩
  | some i =>
    have hlive := hl.live_of_objFromHandle hw
    have ht := hl.tracks.slotFree p (handleIdx w)
    rw [hl.objects] at ht
    dsimp only
    split
    · rename_i hp
      subst hp
      refine ⟨_, ⟨rfl, ht, hl.allocs, fun q hq j k hj => ?_, fun q hq k hk => ?_⟩, fun _ => rfl⟩
      · exact hl.entry q hq j k ((setAt_of_ne fun e => hq e.1).symm.trans hj)
      · obtain ⟨j, hj⟩ := hl.slot q hq k hk
        exact ⟨j, (setAt_of_ne fun e => hq e.1).trans hj⟩
    · rename_i hp
      refine ⟨_, ⟨rfl, ht, hl.allocs, fun q hq j k hj => ?_, fun q hq k hk => ?_⟩, fun _ => rfl⟩
      · have hj' : setAt h.live p (handleIdx w) none q j = some k := hj
        show k < _ ∧ setAt e.handle p i 0 q k = _
        rw [setAt_apply] at hj'
        split at hj'
        · cases hj'
        · rename_i hqj
          rw [setAt_of_ne]
          · exact hl.entry q hq j k hj'
          · rintro ⟨rfl, rfl⟩
            exact hqj ⟨rfl, hl.slot_unique hp hj' hlive⟩
      · have hk' : setAt e.handle p i 0 q k ≠ 0 := hk
        show ∃ j, setAt h.live p (handleIdx w) none q j = some k
        rw [setAt_apply] at hk'
        split at hk'
        · exact absurd rfl hk'
        · rename_i hqk
          obtain ⟨j, hj⟩ := hl.slot q hq k hk'
          refine ⟨j, (setAt_of_ne ?_).trans hj⟩
          rintro ⟨rfl, rfl⟩
          rw [hlive] at hj
          cases hj
          exact hqk ⟨rfl, rfl⟩

end Linked

/-- **What a function that creates an object does**: it takes no slot and returns `AIXOS_HANDLE_INVALID`, or returns
the handle of a slot that was free. -/
theorem create_cases {h : History ℕ} (hl : Linked e h es) (x : CreateCall) :
    (∃ h', Linked (e.create x).1 h' (es ++ e.taken (.create x)) ∧ e.taken (.create x) = [] ∧ h'.live = h.live ∧
      (e.create x).2 = handleInvalid) ∨
    ∃ h' slot obj, Linked (e.create x).1 h' (es ++ e.taken (.create x)) ∧ e.taken (.create x) = [(x.pool, slot)] ∧
      h.live x.pool slot = none ∧ h'.live = setAt h.live x.pool slot (some obj) ∧
      (e.create x).2 = handleMake slot (generationOf (es.count (x.pool, slot) + 1)) := by
  obtain ⟨p, accepted, tcb, memory⟩ := x
  unfold Entries.create taken
  dsimp only
  split
  · exact .inl ⟨h, by rwa [List.append_nil], rfl, rfl, rfl⟩
  · split
    · rename_i hp
      subst hp
      rcases hr : e.objects.slotAlloc .task tcb memory with ⟨o, _ | slot⟩
      · left
        refine ⟨h.record .task tcb (o, none), ?_, rfl, rfl, rfl⟩
        simpa using hl.refused hr
      · right
        have hl' := hl.task hr
        refine ⟨_, slot, tcb, hl', rfl, (hl.record_some hr).2.1, rfl, ?_⟩
        have := hl'.tracks.slotHandle_eq (p := .task) (i := slot) (by simp [History.record])
        rw [hl'.allocs, List.count_append, List.count_singleton_self] at this
        exact this
    · rename_i hp
      cases hf : e.freeEntry p with
      | none => exact .inl ⟨h, by rwa [List.append_nil], rfl, rfl, rfl⟩
      | some i =>
        unfold freeEntry at hf
        have hfree : e.handle p i = 0 := by simpa using List.find?_some hf
        have hi : i < p.maxCount := List.mem_range.mp (List.mem_of_find?_eq_some hf)
        dsimp only
        rcases hr : e.objects.slotAlloc p i memory with ⟨o, _ | slot⟩
        · left
          refine ⟨h.record p i (o, none), ?_, rfl, rfl, rfl⟩
          simpa using hl.refused hr
        · right
          have hl' := hl.create hp hi hfree hr
          have hh : o.slotHandle p slot = handleMake slot (generationOf (es.count (p, slot) + 1)) := by
            have := hl'.tracks.slotHandle_eq (p := p) (i := slot) (by simp [History.record])
            rw [hl'.allocs, List.count_append, List.count_singleton_self] at this
            exact this
          dsimp only
          rw [hh]
          exact ⟨_, slot, i, hl', rfl, (hl.record_some hr).2.1, rfl, rfl⟩

theorem linked_step {h : History ℕ} (hl : Linked e h es) (hs : e.step a = some e') :
    ∃ h', Linked e' h' (es ++ e.taken a) := by
  cases a with
  | create x =>
    cases hs
    rcases create_cases hl x with ⟨h', hl', -⟩ | ⟨h', _, _, hl', -⟩ <;> exact ⟨h', hl'⟩
  | delete p w =>
    cases hs
    obtain ⟨h', hl', -⟩ := hl.delete p w
    exact ⟨h', by rwa [taken, List.append_nil]⟩

theorem linked_of_run (hr : run step init ops = some e) : ∃ h, Linked e h (trace step taken init ops) :=
  (path_iff_run.mpr hr).traced (I := fun e es => ∃ h, Linked e h es)
    (fun _ _ _ _ ⟨_, hl⟩ _ hs => linked_step hl hs) ⟨_, .init⟩

/-! ### The law -/

/-- A function that creates an object tells whether it did, and no array has its entries confused. -/
structure Tells (e : Entries) (x : CreateCall) : Prop where
  /-- It returns `AIXOS_HANDLE_INVALID` if no slot is taken, and only then. -/
  invalid : (e.create x).2 = handleInvalid ↔ ∀ p j, (e.create x).1.objects.Used p j ↔ e.objects.Used p j
  ne_zero : (e.create x).2 ≠ 0
  /-- An entry is marked as free if no slot has it, and only then. -/
  marker : ∀ p ≠ .task, ∀ i, (e.create x).1.handle p i = 0 ↔
    ¬ ∃ j s, (e.create x).1.objects.slotAt p (j : ℕ) = some s ∧ s.used = true ∧ s.obj = some i

theorem Linked.marker {h : History ℕ} (hl : Linked e h es) (hp : p ≠ .task) (i : ℕ) : e.handle p i = 0 ↔
    ¬ ∃ j s, e.objects.slotAt p (j : ℕ) = some s ∧ s.used = true ∧ s.obj = some i := by
  rw [← hl.objects]
  constructor
  · rintro h₀ ⟨j, s, hs, -, ho⟩
    rw [(hl.tracks.slotAt_eq_some hs).2.obj] at ho
    exact hl.handle_ne_zero hp ho h₀
  · intro hno
    by_contra h₀
    obtain ⟨j, hj⟩ := hl.slot p hp i h₀
    cases hs : h.objects.slotAt p j with
    | none =>
      rw [hl.tracks.slotAt_eq_none hs] at hj
      cases hj
    | some s =>
      have hf := (hl.tracks.slotAt_eq_some hs).2
      exact hno ⟨j, s, hs, by rw [hf.used, hj]; rfl, hf.obj.trans hj⟩

/-- A task is put into slot 255, which has been taken before, if the other slots are in use. -/
theorem Linked.taken_last {h : History ℕ} (hl : Linked e h es) (hn : es.count (.task, 255) ≠ 0) (x : CreateCall) :
    e.taken (.create x) = [(.task, 255)] ↔ x.accepted = true ∧ x.pool = .task ∧
      (∀ j < 255, e.objects.Used .task j) ∧ ¬ e.objects.Used .task 255 := by
  have hpage : h.objects.taskSlotPages (255 / ocfg.taskSlotPageSize) ≠ none := by
    intro hnone
    have := (hl.tracks.live_eq_none_of_page hnone rfl).2
    rw [hl.allocs] at this
    exact hn this
  have hsome := hl.tracks.taskSlotAlloc_eq_some_iff x.tcb x.memory 255
  rw [hl.objects] at hsome hpage
  have hslot : (e.objects.slotAlloc .task x.tcb x.memory).2 = some 255 ↔
      (∀ j < 255, e.objects.Used .task j) ∧ ¬ e.objects.Used .task 255 := by
    rw [hsome, hl.used_iff, not_not]
    constructor
    · rintro ⟨-, hnone, hlow, -⟩
      exact ⟨fun j hj => hl.used_iff.mpr (hlow j hj), hnone⟩
    · rintro ⟨hlow, hnone⟩
      exact ⟨by decide, hnone, fun j hj => hl.used_iff.mp (hlow j hj), .inr hpage⟩
  rw [← hslot, taken]
  by_cases hacc : x.accepted = true
  · by_cases hp : x.pool = .task
    · simp only [hacc, hp, Bool.not_true, if_true, true_and]
      cases (e.objects.slotAlloc .task x.tcb x.memory).2 <;> simp
    · simp only [hacc, hp, Bool.not_true, if_false, false_and, and_false, iff_false]
      have hne : ∀ i : ℕ, (x.pool, i) ≠ (PoolId.task, 255) := fun i e => hp (congrArg Prod.fst e)
      cases e.freeEntry x.pool with
      | none => simp
      | some i => cases (e.objects.slotAlloc x.pool i x.memory).2 <;> simp [hne]
  · simp [hacc]

theorem Linked.tells_iff {h : History ℕ} (hl : Linked e h es) (x : CreateCall) :
    Tells e x ↔ ¬ (x.accepted = true ∧ x.pool = .task ∧ (∀ j < 255, e.objects.Used .task j) ∧
      ¬ e.objects.Used .task 255 ∧ es.count (.task, 255) % (2 ^ 24 - 1) = 2 ^ 24 - 2) := by
  have hlast : es.count (.task, 255) % (2 ^ 24 - 1) = 2 ^ 24 - 2 → es.count (.task, 255) ≠ 0 := by
    intro hn h₀
    rw [h₀] at hn
    cases hn
  rcases create_cases hl x with ⟨h', hl', htaken, hlive, hret⟩ | ⟨h', slot, obj, hl', htaken, hfree, hlive, hret⟩
  · have hused : ∀ p j, (e.create x).1.objects.Used p j ↔ e.objects.Used p j := by
      intro p j
      rw [hl'.used_iff, hl.used_iff, hlive]
    refine iff_of_true ⟨iff_of_true hret hused, by rw [hret]; decide, fun p hp => hl'.marker hp⟩ ?_
    rintro ⟨hacc, hp, hlow, hfree, hn⟩
    have := (hl.taken_last (hlast hn) x).mpr ⟨hacc, hp, hlow, hfree⟩
    rw [htaken] at this
    cases this
  · have hnew : h'.live x.pool slot ≠ none := by simp [hlive]
    have hslot : slot < x.pool.maxCount := hl'.tracks.lt_maxCount hnew
    have hused : ¬ ∀ p j, (e.create x).1.objects.Used p j ↔ e.objects.Used p j := by
      intro hall
      exact hl.used_iff.mp ((hall x.pool slot).mp (hl'.used_iff.mpr hnew)) hfree
    have hgen := generationOf_succ_toNat (es.count (x.pool, slot))
    have hinvalid := handleMake_eq_invalid (hslot.trans_le (History.maxCount_le_limit _))
      (generationOf_lt (es.count (x.pool, slot) + 1))
    have hcond : (x.accepted = true ∧ x.pool = .task ∧ (∀ j < 255, e.objects.Used .task j) ∧
        ¬ e.objects.Used .task 255 ∧ es.count (.task, 255) % (2 ^ 24 - 1) = 2 ^ 24 - 2) ↔
        (e.create x).2 = handleInvalid := by
      rw [hret, hinvalid, hgen]
      constructor
      · rintro ⟨hacc, hp, hlow, hfree', hn⟩
        have htask := (hl.taken_last (hlast hn) x).mpr ⟨hacc, hp, hlow, hfree'⟩
        rw [htaken] at htask
        simp only [List.cons.injEq, Prod.mk.injEq, and_true] at htask
        rw [htask.1, htask.2, hn]
        exact ⟨rfl, rfl⟩
      · rintro ⟨rfl, hn⟩
        have hp : x.pool = .task := by
          by_contra hp
          have := History.maxCount_le hp
          omega
        rw [hp] at hn htaken
        have hn' : es.count (.task, 255) % (2 ^ 24 - 1) = 2 ^ 24 - 2 := by omega
        obtain ⟨h₁, -, h₂, h₃⟩ := (hl.taken_last (hlast hn') x).mp htaken
        exact ⟨h₁, hp, h₂, h₃, hn'⟩
    rw [hcond]
    constructor
    · exact fun ht he => hused (ht.invalid.mp he)
    · intro he
      refine ⟨iff_of_false he hused, ?_, fun p hp => hl'.marker hp⟩
      rw [hret]
      exact handleMake_ne_zero (generationOf_lt _) (generationOf_ne_zero (Nat.succ_pos _))

/-- **Functions that create objects tell whether they did**, in every run, unless a task is put into slot 255 for the
last of `2 ^ 24 - 1` times. -/
theorem tells_of_run (hr : run step init ops = some e) (x : CreateCall) :
    Tells e x ↔ ¬ (x.accepted = true ∧ x.pool = .task ∧ (∀ j < 255, e.objects.Used .task j) ∧
      ¬ e.objects.Used .task 255 ∧ (trace step taken init ops).count (.task, 255) % (2 ^ 24 - 1) = 2 ^ 24 - 2) := by
  obtain ⟨h, hl⟩ := linked_of_run hr
  exact hl.tells_iff x

/-! ### One slot again and again -/

/-- A task is created. -/
def newTask : CreateCall := ⟨.task, true, 0, true⟩

/-- A task takes the first slot that is free. -/
theorem Linked.create_newTask {h : History ℕ} (hl : Linked e h es) (hi : i < 256) (hfree : h.live .task i = none)
    (hlow : ∀ j < i, h.live .task j ≠ none) : ∃ h', Linked (e.create newTask).1 h' (es ++ [(.task, i)]) ∧
      e.taken (.create newTask) = [(.task, i)] ∧ h'.live = setAt h.live .task i (some 0) := by
  have hsome : (e.objects.slotAlloc .task 0 true).2 = some i := by
    rw [← hl.objects]
    exact (hl.tracks.taskSlotAlloc_eq_some_iff ..).mpr ⟨hi, hfree, hlow, .inl rfl⟩
  rcases hr : e.objects.slotAlloc .task 0 true with ⟨o, _ | slot⟩
  · rw [hr] at hsome
    cases hsome
  · rw [hr] at hsome
    cases hsome
    have hcreate : (e.create newTask).1 = { e with objects := o } := by simp [Entries.create, newTask, hr]
    rw [hcreate]
    exact ⟨_, hl.task hr, by simp [taken, newTask, hr], rfl⟩

/-- A task gives its slot back. -/
theorem Linked.delete_task {h : History ℕ} (hl : Linked e h es) (hlive : h.live .task i ≠ none) :
    ∃ h', Linked (e.delete .task (handleMake i (generationOf (h.allocs .task i)))) h' es ∧
      h'.live = setAt h.live .task i none := by
  have hi : i < 256 := hl.tracks.lt_maxCount hlive
  obtain ⟨x, hx⟩ := Option.ne_none_iff_exists'.mp hlive
  obtain ⟨h', hl', hlive'⟩ := hl.delete .task (handleMake i (generationOf (h.allocs .task i)))
  have hobj := (hl.tracks.objFromHandle_iff (p := .task) hi (generationOf_lt (h.allocs .task i))).mpr ⟨hx, rfl⟩
  rw [hl.objects] at hobj
  rw [handleIdx_handleMake hi] at hlive'
  exact ⟨h', hl', hlive' (by rw [hobj]; exact Option.some_ne_none x)⟩

/-- The first `m` slots are taken by tasks. -/
theorem exists_filled {m : ℕ} (hm : m ≤ 256) : ∃ ops e h, run step init ops = some e ∧
    Linked e h (trace step taken init ops) ∧ (∀ j, h.live .task j ≠ none ↔ j < m) ∧
      ∀ j, m ≤ j → h.allocs .task j = 0 := by
  induction m with
  | zero => exact ⟨[], init, History.init, rfl, .init, fun j => by simp [History.init], fun _ _ => rfl⟩
  | succ m ih =>
    obtain ⟨ops, e, h, hr, hl, hlive, hzero⟩ := ih (by omega)
    have hfree : h.live .task m = none := not_not.mp fun hne => absurd ((hlive m).mp hne) (lt_irrefl m)
    obtain ⟨h', hl', htaken, hlive'⟩ := hl.create_newTask (by omega) hfree fun j hj => (hlive j).mpr hj
    have hstep : run step e [.create newTask] = some (e.create newTask).1 := rfl
    refine ⟨ops ++ [.create newTask], _, h', by rw [run_append, hr]; exact hstep, ?_, fun j => ?_, fun j hj => ?_⟩
    · rw [trace_append hr]
      simpa [trace, step, htaken] using hl'
    · rw [hlive', setAt_apply]
      by_cases hj : j = m
      · simp [hj]
      · rw [if_neg fun e => hj e.2, hlive]
        omega
    · have hne : ((PoolId.task, m) == (PoolId.task, j)) = false := by simp; omega
      rw [hl'.allocs, List.count_append, ← hl.allocs, hzero j (by omega), List.count_singleton, hne]
      rfl

/-- The last slot of tasks is taken and given back, so often. -/
theorem exists_recycled (n : ℕ) : ∃ ops e h, run step init ops = some e ∧ Linked e h (trace step taken init ops) ∧
    (∀ j, h.live .task j ≠ none ↔ j < 255) ∧ h.allocs .task 255 = n := by
  induction n with
  | zero =>
    obtain ⟨ops, e, h, hr, hl, hlive, hzero⟩ := exists_filled (m := 255) (by decide)
    exact ⟨ops, e, h, hr, hl, hlive, hzero 255 le_rfl⟩
  | succ n ih =>
    obtain ⟨ops, e, h, hr, hl, hlive, hn⟩ := ih
    have hfree : h.live .task 255 = none := not_not.mp fun hne => absurd ((hlive 255).mp hne) (lt_irrefl 255)
    obtain ⟨h₁, hl₁, htaken, hlive₁⟩ := hl.create_newTask (by decide) hfree fun j hj => (hlive j).mpr hj
    obtain ⟨h₂, hl₂, hlive₂⟩ := hl₁.delete_task (i := 255) (by simp [hlive₁])
    refine ⟨ops ++ [.create newTask, .delete .task (handleMake 255 (generationOf (h₁.allocs .task 255)))], _, h₂,
      by rw [run_append, hr]; rfl, ?_, fun j => ?_, ?_⟩
    · have htrace : ∀ w, trace step taken e [.create newTask, .delete .task w] = [(.task, 255)] := by
        intro w
        show e.taken (.create newTask) ++ [] = _
        rw [htaken]
        rfl
      rw [trace_append hr, htrace]
      exact hl₂
    · rw [hlive₂, hlive₁, setAt_apply, setAt_apply]
      by_cases hj : j = 255
      · simp [hj]
      · simp [hj, hlive]
    · rw [hl₂.allocs, List.count_append, List.count_singleton_self, ← hl.allocs, hn]

end Entries

end Aixos

namespace Aixos.Entries

open Transition

attribute [local instance] Config.default ObjectConfig.default

/-- The slot of a semaphore is taken a second time. -/
theorem secondSem_tells : ∃ e, run step init [.create ⟨.sem, true, 0, true⟩, .delete .sem 0x100#32] = some e ∧
    (e.create ⟨.sem, true, 0, true⟩).2 = 0x200#32 ∧ Tells e ⟨.sem, true, 0, true⟩ := by
  have hr : run step init [.create ⟨.sem, true, 0, true⟩, .delete .sem 0x100#32] = some _ := rfl
  exact ⟨_, hr, by decide +kernel, (tells_of_run hr _).mpr fun h => nomatch h.2.1⟩

/-- When the last slot of tasks has been taken `2 ^ 24 - 2` times, `aixos_task_create` creates a task and returns
`AIXOS_HANDLE_INVALID`, by which the task is found. -/
theorem lastTask_not_tells : ∃ ops e, run step init ops = some e ∧ (e.create newTask).2 = handleInvalid ∧
    e.objects.objFromHandle handleInvalid .task = none ∧
    (e.create newTask).1.objects.objFromHandle handleInvalid .task = some 0 ∧ ¬ Tells e newTask := by
  obtain ⟨ops, e, h, hr, hl, hlive, hn⟩ := exists_recycled (2 ^ 24 - 2)
  have hfree : h.live .task 255 = none := not_not.mp fun hne => absurd ((hlive 255).mp hne) (lt_irrefl 255)
  have hgen : (generationOf (2 ^ 24 - 2 + 1)).toNat = 2 ^ 24 - 1 :=
    generationOf_succ_toNat (2 ^ 24 - 2)
  have hinvalid : handleMake 255 (generationOf (2 ^ 24 - 2 + 1)) = handleInvalid :=
    (handleMake_eq_invalid (by decide) (generationOf_lt _)).mpr ⟨rfl, hgen⟩
  obtain ⟨h', hl', htaken, hlive'⟩ := hl.create_newTask (by decide) hfree fun j hj => (hlive j).mpr hj
  have hn' : h'.allocs .task 255 = 2 ^ 24 - 2 + 1 := by
    rw [hl'.allocs, List.count_append, List.count_singleton_self, ← hl.allocs, hn]
  have hret : (e.create newTask).2 = handleInvalid := by
    rcases create_cases hl newTask with ⟨_, _, h₀, _⟩ | ⟨_, slot, _, _, h₁, _, _, h₂⟩
    · rw [htaken] at h₀
      cases h₀
    · rw [htaken] at h₁
      simp only [List.cons.injEq, Prod.mk.injEq, and_true] at h₁
      rw [h₂, ← h₁.1, ← h₁.2, ← hl.allocs, hn, hinvalid]
  have hfind : ∀ {e h es}, Linked e h es → (e.objects.objFromHandle handleInvalid .task = some 0 ↔
      h.live .task 255 = some 0 ∧ generationOf (h.allocs .task 255) = generationOf (2 ^ 24 - 2 + 1)) := by
    intro e h es hl
    rw [← hl.objects, ← hinvalid]
    exact hl.tracks.objFromHandle_iff (p := .task) (by decide) (generationOf_lt _)
  refine ⟨ops, e, hr, hret, ?_, (hfind hl').mpr ⟨by simp [hlive'], by rw [hn']⟩, fun ht => ?_⟩
  · rw [← hl.objects, ← hinvalid]
    refine Option.eq_none_iff_forall_ne_some.mpr fun x hx => ?_
    have := ((hl.tracks.objFromHandle_iff (p := .task) (by decide) (generationOf_lt _)).mp hx).1
    rw [hfree] at this
    cases this
  · refine hl.used_iff.mp ((ht.invalid.mp hret .task 255).mp (hl'.used_iff.mpr ?_)) hfree
    simp [hlive']

end Aixos.Entries
