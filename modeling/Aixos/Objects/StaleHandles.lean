import Aixos.Objects.HandleTypes
import Aixos.Objects.SlotPools
import Mathlib.Algebra.BigOperators.Ring.Finset

/-!
# Stale handles

What the handles of a pool say about its history: which objects it has, and how often each slot was taken.

* `History` — the pools, with the objects that are live and the number of allocations of each slot.
* `History.Tracks` — the slots and the bitmaps follow the history.
* `History.objFromHandle_iff` — a handle resolves to the live object of its slot if the generation is right.
* `History.handles_of_run` — in every run, live objects are found by their handles, and stale handles find nothing
  before the generations have gone round.
-/

namespace Aixos

open Transition

variable {α : Type*}

/-! ### Bits -/

theorem popcount_shiftRight (b : BitVec 32) : popcount b = (b &&& 1).toNat + popcount (b >>> 1) := by
  have hlast : (b >>> 1).getLsbD 31 = false := by
    rw [BitVec.getLsbD_ushiftRight]
    exact BitVec.getLsbD_of_ge b _ (by decide)
  have hbit : (b &&& 1).toNat = if b.getLsbD 0 then 1 else 0 := by
    rw [BitVec.toNat_and, show (1 : BitVec 32).toNat = 2 ^ 1 - 1 from rfl, Nat.and_two_pow_sub_one_eq_mod,
      BitVec.getLsbD, Nat.testBit_zero]
    rcases Nat.mod_two_eq_zero_or_one b.toNat with h | h <;> simp [h]
  have hfirst : List.range 32 = 0 :: (List.range 31).map Nat.succ := List.range_succ_eq_map
  have hrest : List.range 32 = List.range 31 ++ [31] := List.range_succ
  have hsplit : popcount b = (if b.getLsbD 0 then 1 else 0) + (List.range 31).countP fun i => b.getLsbD (i + 1) := by
    unfold popcount
    rw [hfirst, List.countP_cons, List.countP_map, Nat.add_comm]
    rfl
  have hshift : popcount (b >>> 1) = (List.range 31).countP fun i => (b >>> 1).getLsbD i := by
    unfold popcount
    rw [hrest, List.countP_append, List.countP_singleton, hlast]
    rfl
  rw [hsplit, hshift, hbit]
  refine congrArg _ (List.countP_congr fun i _ => ?_)
  rw [BitVec.getLsbD_ushiftRight, Nat.add_comm]

/-- The loop counts the bits. -/
theorem usageLoop_eq (used : BitVec 32) (count : ℕ) : usageLoop used count = count + popcount used := by
  induction used, count using usageLoop.induct with
  | case1 count => simp [usageLoop, popcount]
  | case2 used count h ih =>
    rw [usageLoop, if_neg h, ih, popcount_shiftRight used]
    omega

/-- The bits of a bitmap whose bits are all below `n`. -/
theorem popcount_eq_countP {b : BitVec 32} {n : ℕ} {P : ℕ → Bool} (hn : n ≤ 32)
    (hb : ∀ i < 32, b.getLsbD i = (decide (i < n) && P i)) : popcount b = (List.range n).countP P := by
  have hrange : List.range 32 = List.range n ++ (List.range (32 - n)).map (n + ·) := by
    rw [← List.range_add]
    exact congrArg List.range (by omega)
  have hin : (List.range n).countP (fun i => b.getLsbD i) = (List.range n).countP P := by
    refine List.countP_congr fun i hi => ?_
    rw [List.mem_range] at hi
    rw [hb i (by omega)]
    simp [hi]
  have hout : (List.range (32 - n)).countP ((fun i => b.getLsbD i) ∘ (n + ·)) = 0 := by
    refine List.countP_eq_zero.mpr fun i hi => ?_
    rw [List.mem_range] at hi
    rw [Function.comp_apply, hb _ (by omega)]
    simp
  rw [popcount, hrange, List.countP_append, List.countP_map, hin, hout, Nat.add_zero]

theorem handleIdx_handleMake {i : ℕ} (hi : i < 256) (g : BitVec 32) : handleIdx (handleMake i g) = i := by
  have hmask : ∀ j < 32, (0xFF#32).getLsbD j = decide (j < 8) := by decide
  have hbits : handleMake i g &&& 0xFF#32 = BitVec.ofNat 32 i := by
    refine BitVec.eq_of_getLsbD_eq fun j hj => ?_
    rw [handleMake, BitVec.getLsbD_and, BitVec.getLsbD_or, BitVec.getLsbD_and, BitVec.getLsbD_shiftLeft, hmask j hj]
    by_cases h : j < 8
    · simp [h]
    · have hlt : i < 2 ^ j := lt_of_lt_of_le (b := 2 ^ 8) hi (Nat.pow_le_pow_right (by decide) (by omega))
      simp [h, BitVec.getLsbD_ofNat, Nat.testBit_lt_two_pow hlt]
  rw [handleIdx, hbits, BitVec.toNat_ofNat]
  omega

theorem handleGen_handleMake {i : ℕ} {g : BitVec 32} (hg : g.toNat < 2 ^ 24) : handleGen (handleMake i g) = g := by
  have hmask : ∀ j < 32, (0x00FFFFFF#32).getLsbD j = decide (j < 24) := by decide
  refine BitVec.eq_of_getLsbD_eq fun j hj => ?_
  rw [handleGen, BitVec.getLsbD_and, BitVec.getLsbD_ushiftRight, hmask j hj]
  by_cases h : j < 24
  · have hlow : (0xFF#32).getLsbD (8 + j) = false := by
      rw [show 8 + j = j + 8 from Nat.add_comm ..]
      exact (by decide : ∀ j < 24, (0xFF#32).getLsbD (j + 8) = false) j h
    rw [handleMake, BitVec.getLsbD_or, BitVec.getLsbD_and, BitVec.getLsbD_shiftLeft, BitVec.getLsbD_and, hlow]
    rw [show 8 + j - 8 = j by omega, hmask j hj]
    simp [h, show 8 + j < 32 by omega]
  · have hlt : g.toNat < 2 ^ j := lt_of_lt_of_le (b := 2 ^ 24) hg (Nat.pow_le_pow_right (by decide) (by omega))
    simp [h, BitVec.getLsbD, Nat.testBit_lt_two_pow hlt]

/-! ### Generations -/

/-- The generation of a slot that has been allocated so often. -/
def generationOf : ℕ → BitVec 32
  | 0 => 0
  | n + 1 => nextSlotGeneration (generationOf n)

theorem generationOf_succ_toNat (n : ℕ) : (generationOf (n + 1)).toNat = n % (2 ^ 24 - 1) + 1 := by
  induction n with
  | zero => rfl
  | succ n ih =>
    rw [generationOf, nextSlotGeneration_toNat, ih]
    show (if (n % (2 ^ 24 - 1) + 1 + 1) % 2 ^ 24 = 0 then 1 else (n % (2 ^ 24 - 1) + 1 + 1) % 2 ^ 24) = _
    split <;> omega

theorem generationOf_lt (n : ℕ) : (generationOf n).toNat < 2 ^ 24 := by
  cases n with
  | zero => decide
  | succ n =>
    rw [generationOf_succ_toNat]
    omega

/-- Generations come again after `2 ^ 24 - 1` allocations, and not before. -/
theorem generationOf_eq_iff {m n : ℕ} (hm : 0 < m) (hn : 0 < n) :
    generationOf m = generationOf n ↔ m % (2 ^ 24 - 1) = n % (2 ^ 24 - 1) := by
  obtain ⟨m, rfl⟩ := Nat.exists_eq_add_one.mpr hm
  obtain ⟨n, rfl⟩ := Nat.exists_eq_add_one.mpr hn
  rw [← BitVec.toNat_inj, generationOf_succ_toNat, generationOf_succ_toNat]
  omega

/-! ### One pool or page -/

/-- A slot with the object that is live in it, if there is one, after some allocations. -/
structure ObjSlot.Follows (s : ObjSlot α) (type : ObjType) (live : Option α) (allocs : ℕ) : Prop where
  used : s.used = live.isSome
  obj : s.obj = live
  type : live ≠ none → s.type = type
  generation : s.generation = generationOf allocs
  allocs : live ≠ none → 0 < allocs

/-- The slots of a pool or page follow what is live, and the bitmap has those that are free. -/
structure Pool.Tracks (b : Pool α) (n : ℕ) (type : ObjType) (live : ℕ → Option α) (allocs : ℕ → ℕ) : Prop where
  slot : ∀ i < n, (b.slots i).Follows type (live i) (allocs i)
  free : ∀ i < 32, b.freeBitmap.getLsbD i = (decide (i < n) && (live i).isNone)

namespace Pool.Tracks

variable {b b' : Pool α} {n i : ℕ} {type : ObjType} {live live' : ℕ → Option α} {allocs allocs' : ℕ → ℕ} {obj : α}

theorem congr (h : b.Tracks n type live allocs) (hl : ∀ i < n, live' i = live i) (ha : ∀ i < n, allocs' i = allocs i) :
    b.Tracks n type live' allocs' where
  slot i hi := by
    rw [hl i hi, ha i hi]
    exact h.slot i hi
  free i hi := by
    rw [h.free i hi]
    by_cases hn : i < n
    · rw [hl i hn]
    · simp [hn]

theorem fresh (hn : n ≤ 32) (type : ObjType) :
    (Pool.fresh n : Pool α).Tracks n type (fun _ => none) fun _ => 0 where
  slot _ _ := ⟨rfl, rfl, fun h => absurd rfl h, rfl, fun h => absurd rfl h⟩
  free i hi := by
    rw [Option.isNone_none, Bool.and_true]
    exact getLsbD_freeMask hn hi

/-- The slot that is taken was free. -/
theorem take (h : b.Tracks n type live allocs) (hb : b.take type obj = some (b', i)) :
    i < n ∧ live i = none ∧
      b'.Tracks n type (Function.update live i (some obj)) (Function.update allocs i (allocs i + 1)) := by
  have hslots := Pool.take_eq hb
  unfold Pool.take at hb
  split at hb
  · cases hb
  · rename_i k hk
    cases hb
    have hk32 : i < 32 := List.mem_range.mp (List.mem_of_find?_eq_some hk)
    have hbit : b.freeBitmap.getLsbD i = true := List.find?_some hk
    rw [h.free i hk32, Bool.and_eq_true, decide_eq_true_iff, Option.isNone_iff_eq_none] at hbit
    refine ⟨hbit.1, hbit.2, fun j hj => ?_, fun j hj => ?_⟩
    · by_cases e : j = i
      · subst e
        simp only [Function.update_self]
        exact ⟨rfl, rfl, fun _ => rfl, by rw [(h.slot j hj).generation, generationOf], fun _ => Nat.succ_pos _⟩
      · simp only [Function.update_of_ne e]
        exact h.slot j hj
    · rw [BitVec.getLsbD_and, BitVec.getLsbD_not, getLsbD_one_shiftLeft hj, h.free j hj]
      by_cases e : j = i
      · subst e
        simp
      · simp [hj, e]

theorem giveBack (h : b.Tracks n type live allocs) (hi : i < n) :
    (b.giveBack i).Tracks n type (Function.update live i none) allocs where
  slot j hj := by
    by_cases e : j = i
    · subst e
      simp only [Pool.giveBack, Function.update_self]
      exact ⟨rfl, rfl, fun h => absurd rfl h, (h.slot j hj).generation, fun h => absurd rfl h⟩
    · simp only [Pool.giveBack, Function.update_of_ne e]
      exact h.slot j hj
  free j hj := by
    rw [Pool.giveBack, BitVec.getLsbD_or, getLsbD_one_shiftLeft hj, h.free j hj]
    by_cases e : j = i
    · subst e
      simp [hi]
    · simp [e]

/-- The bits of a bitmap of free slots are as many as the slots that have no object. -/
theorem popcount_freeBitmap (h : b.Tracks n type live allocs) (hn : n ≤ 32) :
    popcount b.freeBitmap + (List.range n).countP (fun i => (live i).isSome) = n := by
  have hlen := List.length_eq_countP_add_countP (fun i => (live i).isSome) (l := List.range n)
  have hnone : (fun i => decide ¬ (live i).isSome = true) = fun i => (live i).isNone := by
    funext i
    cases live i <;> rfl
  rw [List.length_range, hnone] at hlen
  rw [popcount_eq_countP hn h.free]
  omega

end Pool.Tracks

/-! ### Histories -/

/-- The pools, with the objects that have been allocated and not been freed, and how often each slot has
been allocated. -/
structure History (α : Type*) where
  objects : Objects α
  live : PoolId → ℕ → Option α
  allocs : PoolId → ℕ → ℕ

/-- Store what belongs to one slot. -/
def setAt {β : Type*} (f : PoolId → ℕ → β) (p : PoolId) (i : ℕ) (x : β) : PoolId → ℕ → β :=
  Function.update f p (Function.update (f p) i x)

section SetAt

variable {β : Type*} {f : PoolId → ℕ → β} {p q : PoolId} {i j : ℕ} {x : β}

theorem setAt_apply : setAt f p i x q j = if q = p ∧ j = i then x else f q j := by
  unfold setAt
  by_cases hq : q = p
  · subst hq
    simp [Function.update_apply]
  · simp [hq]

@[simp] theorem setAt_self : setAt f p i x p i = x := by simp [setAt]

theorem setAt_of_ne (h : ¬ (q = p ∧ j = i)) : setAt f p i x q j = f q j := by rw [setAt_apply, if_neg h]

@[simp] theorem setAt_same : setAt f p i (f p i) = f := by simp [setAt]

end SetAt

theorem page_index_div {n i : ℕ} (hi : i < n) (k : ℕ) : (k * n + i) / n = k := by
  rw [Nat.mul_comm, Nat.mul_add_div (by omega), Nat.div_eq_of_lt hi, Nat.add_zero]

theorem page_index_mod {n i : ℕ} (hi : i < n) (k : ℕ) : (k * n + i) % n = i := by
  rw [Nat.mul_comm, Nat.mul_add_mod, Nat.mod_eq_of_lt hi]

variable [cfg : Config] [ocfg : ObjectConfig]

namespace History

variable {h h' : History α} {p q : PoolId} {i j k : ℕ} {x obj : α} {memory : Bool} {b b' : Pool α} {s : ObjSlot α}
  {a : SlotOp α} {ops later : List (SlotOp α)}

/-- Nothing has been allocated. -/
def init : History α where
  objects := .init
  live := fun _ _ => none
  allocs := fun _ _ => 0

omit cfg ocfg in
/-- The history of an allocation. -/
def record (h : History α) (p : PoolId) (obj : α) : Objects α × Option ℕ → History α
  | (o, none) => { h with objects := o }
  | (o, some i) =>
    { objects := o, live := setAt h.live p i (some obj), allocs := setAt h.allocs p i (h.allocs p i + 1) }

omit cfg ocfg in
@[simp] theorem record_objects (h : History α) (p : PoolId) (obj : α) (r : Objects α × Option ℕ) :
    (h.record p obj r).objects = r.1 := by
  rcases r with ⟨o, _ | i⟩ <;> rfl

/-- One step, with its history. -/
def step (h : History α) : SlotOp α → Option (History α)
  | .alloc p obj memory => some (h.record p obj (h.objects.slotAlloc p obj memory))
  | .free p index =>
    some { h with
      objects := h.objects.slotFree p index
      live := if 0 ≤ index then setAt h.live p index.toNat none else h.live }

/-- The steps are those of the pools. -/
theorem step_objects (h : History α) (a : SlotOp α) : (h.step a).map objects = h.objects.step a := by
  cases a with
  | alloc p obj memory => exact congrArg some (record_objects ..)
  | free p index => rfl

/-- Every run of the pools has a history. -/
theorem exists_history {o : Objects α} (hr : run Objects.step h.objects ops = some o) :
    ∃ h', run step h ops = some h' ∧ h'.objects = o := by
  induction ops generalizing h with
  | nil =>
    cases hr
    exact ⟨h, rfl, rfl⟩
  | cons a ops ih =>
    rw [run, ← step_objects, Option.bind_map] at hr
    obtain ⟨m, hm, hr⟩ := Option.bind_eq_some_iff.mp hr
    obtain ⟨h', hh, ho⟩ := ih hr
    refine ⟨h', ?_, ho⟩
    rw [run, hm]
    exact hh

/-- The pools follow what the history says. -/
structure Tracks (h : History α) : Prop where
  pool : ∀ p ≠ .task, (h.objects.pools p).Tracks p.maxCount p.objType (h.live p) (h.allocs p)
  /-- A page that has not been allocated is as good as a fresh one. -/
  page : ∀ k, ((h.objects.taskSlotPages k).getD (Pool.fresh ocfg.taskSlotPageSize)).Tracks ocfg.taskSlotPageSize .task
    (fun i => h.live .task (k * ocfg.taskSlotPageSize + i)) fun i => h.allocs .task (k * ocfg.taskSlotPageSize + i)
  outside : ∀ p i, p.maxCount ≤ i → h.live p i = none

theorem maxCount_le (hp : p ≠ .task) : p.maxCount ≤ 32 := by
  cases p with
  | task => exact absurd rfl hp
  | timer => exact ocfg.maxTimer_le
  | sem | mutex | mq | event | pipe => exact cfg.maxCount_le _

theorem maxCount_le_limit (p : PoolId) : p.maxCount ≤ 256 := by
  by_cases hp : p = .task
  · subst hp
    exact Nat.le_refl _
  · exact (maxCount_le hp).trans (by decide)

omit cfg in
theorem page_index_lt (hk : k < taskSlotPageCount) (hi : i < ocfg.taskSlotPageSize) :
    k * ocfg.taskSlotPageSize + i < taskHandleLimit := by
  have h := Nat.div_mul_cancel ocfg.taskSlotPageSize_dvd
  have hk' : k + 1 ≤ taskHandleLimit / ocfg.taskSlotPageSize := hk
  have := Nat.mul_le_mul_right ocfg.taskSlotPageSize hk'
  rw [h, Nat.add_mul] at this
  omega

theorem tracks_init : Tracks (init : History α) where
  pool _ hp := .fresh (maxCount_le hp) _
  page _ := .fresh ocfg.taskSlotPageSize_le _
  outside _ _ _ := rfl

namespace Tracks

/-- One slot of a pool is stored. -/
theorem setPool (ht : h.Tracks) (hp : p ≠ .task) (hi : i < p.maxCount) {y : Option α} {n : ℕ}
    (hb : b.Tracks p.maxCount p.objType (Function.update (h.live p) i y) (Function.update (h.allocs p) i n)) :
    Tracks { objects := h.objects.setPool p b, live := setAt h.live p i y, allocs := setAt h.allocs p i n } where
  pool q hq := by
    by_cases e : q = p
    · subst e
      simpa [Objects.setPool, setAt] using hb
    · simpa [Objects.setPool, setAt, e] using ht.pool q hq
  page k := by simpa [Objects.setPool, setAt, hp.symm] using ht.page k
  outside q j hj := by
    exact (setAt_of_ne (by rintro ⟨rfl, rfl⟩; omega)).trans (ht.outside q j hj)

/-- One slot of a page is stored. -/
theorem setPage (ht : h.Tracks) (hk : k < taskSlotPageCount) (hi : i < ocfg.taskSlotPageSize) {y : Option α} {n : ℕ}
    (hb : b.Tracks ocfg.taskSlotPageSize .task
      (Function.update (fun i => h.live .task (k * ocfg.taskSlotPageSize + i)) i y)
      (Function.update (fun i => h.allocs .task (k * ocfg.taskSlotPageSize + i)) i n)) :
    Tracks { objects := h.objects.setPage k b, live := setAt h.live .task (k * ocfg.taskSlotPageSize + i) y,
             allocs := setAt h.allocs .task (k * ocfg.taskSlotPageSize + i) n } where
  pool q hq := by simpa [Objects.setPage, setAt, hq] using ht.pool q hq
  page l := by
    have hindex : ∀ j < ocfg.taskSlotPageSize,
        (l * ocfg.taskSlotPageSize + j = k * ocfg.taskSlotPageSize + i ↔ l = k ∧ j = i) := by
      refine fun j hj => ⟨fun e => ⟨?_, ?_⟩, fun e => by rw [e.1, e.2]⟩
      · rw [← page_index_div hj l, e, page_index_div hi k]
      · rw [← page_index_mod hj l, e, page_index_mod hi k]
    by_cases e : l = k
    · subst e
      have hpage : ((h.objects.setPage l b).taskSlotPages l).getD (Pool.fresh ocfg.taskSlotPageSize) = b := by
        simp [Objects.setPage]
      dsimp only
      rw [hpage]
      refine hb.congr (fun j hj => ?_) fun j hj => ?_ <;> simp [setAt_apply, Function.update_apply]
    · have hpage : (h.objects.setPage k b).taskSlotPages l = h.objects.taskSlotPages l := Function.update_of_ne e ..
      dsimp only
      rw [hpage]
      refine (ht.page l).congr (fun j hj => ?_) fun j hj => ?_ <;> simp [setAt_apply, hindex j hj, e]
  outside q j hj := by
    refine (setAt_of_ne ?_).trans (ht.outside q j hj)
    rintro ⟨rfl, rfl⟩
    exact absurd hj (Nat.not_le.mpr (page_index_lt hk hi))

/-- A slot that an index names follows the history. -/
theorem slotAt_eq_some (ht : h.Tracks) (hs : h.objects.slotAt p i = some s) :
    i < p.maxCount ∧ s.Follows p.objType (h.live p i) (h.allocs p i) := by
  unfold Objects.slotAt at hs
  split at hs
  · rename_i hp
    subst hp
    have hi : i < taskHandleLimit := by
      unfold Objects.taskSlotAt at hs
      split at hs
      · cases hs
      · omega
    obtain ⟨-, b, hb, rfl⟩ := Objects.taskSlotAt_eq_some hs
    rw [Int.toNat_natCast] at hb ⊢
    have hslot := (ht.page (i / ocfg.taskSlotPageSize)).slot (i % ocfg.taskSlotPageSize)
      (Nat.mod_lt _ ocfg.taskSlotPageSize_pos)
    rw [hb, Nat.div_add_mod'] at hslot
    exact ⟨hi, hslot⟩
  · rename_i hp
    split at hs
    · rename_i hi
      cases hs
      exact ⟨by omega, (ht.pool p hp).slot i (by omega)⟩
    · cases hs

/-- Where there is no slot, there is no object. -/
theorem slotAt_eq_none (ht : h.Tracks) (hs : h.objects.slotAt p i = none) : h.live p i = none := by
  unfold Objects.slotAt at hs
  split at hs
  · rename_i hp
    subst hp
    unfold Objects.taskSlotAt at hs
    split at hs
    · exact ht.outside .task i (by show taskHandleLimit ≤ i; omega)
    · split at hs
      · rename_i hb
        rw [Int.toNat_natCast] at hb
        have hslot := (ht.page (i / ocfg.taskSlotPageSize)).slot (i % ocfg.taskSlotPageSize)
          (Nat.mod_lt _ ocfg.taskSlotPageSize_pos)
        rw [hb, Nat.div_add_mod'] at hslot
        exact hslot.obj.symm
      · cases hs
  · split at hs
    · cases hs
    · exact ht.outside p i (by omega)

/-! ### What a step does -/

/-- The loop over the pages takes a slot that was free. -/
theorem taskSlotLoop (ht : h.Tracks) (obj : α) (memory : Bool) {ks : List ℕ} (hks : ∀ k ∈ ks, k < taskSlotPageCount) :
    (h.record .task obj (Objects.taskSlotLoop obj memory h.objects ks)).Tracks ∧
      ∀ i, (Objects.taskSlotLoop obj memory h.objects ks).2 = some i → h.live .task i = none := by
  induction ks with
  | nil => exact ⟨ht, by rintro _ ⟨⟩⟩
  | cons k ks ih =>
    have ih := ih fun l hl => hks l (List.mem_cons_of_mem _ hl)
    have hk := hks k (List.mem_cons_self ..)
    have hpage := ht.page k
    rw [Objects.taskSlotLoop]
    cases hb : h.objects.taskSlotPages k with
    | none =>
      rw [hb, Option.getD_none] at hpage
      dsimp only
      split
      · exact ⟨ht, by rintro _ ⟨⟩⟩
      · split
        · -- a new page has a free slot
          rename_i hn
          unfold Pool.take at hn
          rw [show (Pool.fresh ocfg.taskSlotPageSize : Pool α).freeBitmap = freeMask _ from rfl,
            lowestBit_freeMask ocfg.taskSlotPageSize_pos ocfg.taskSlotPageSize_le] at hn
          cases hn
        · rename_i b i hs
          obtain ⟨hi, hfree, hb'⟩ := hpage.take hs
          refine ⟨ht.setPage hk hi hb', fun j hj => ?_⟩
          cases hj
          exact hfree
    | some b =>
      rw [hb, Option.getD_some] at hpage
      dsimp only
      split
      · exact ih
      · rename_i b' i hs
        obtain ⟨hi, hfree, hb'⟩ := hpage.take hs
        refine ⟨ht.setPage hk hi hb', fun j hj => ?_⟩
        cases hj
        exact hfree

/-- An allocation takes a slot that was free. -/
theorem slotAlloc (ht : h.Tracks) (p : PoolId) (obj : α) (memory : Bool) :
    (h.record p obj (h.objects.slotAlloc p obj memory)).Tracks ∧
      ∀ i, (h.objects.slotAlloc p obj memory).2 = some i → h.live p i = none := by
  unfold Objects.slotAlloc
  split
  · rename_i hp
    subst hp
    exact ht.taskSlotLoop obj memory fun k hk => List.mem_range.mp hk
  · rename_i hp
    split
    · exact ⟨ht, by rintro _ ⟨⟩⟩
    · rename_i b i hs
      obtain ⟨hi, hfree, hb⟩ := (ht.pool p hp).take hs
      refine ⟨ht.setPool hp hi hb, fun j hj => ?_⟩
      cases hj
      exact hfree

/-- Nothing is live in the slot that has been given back. -/
theorem slotFree (ht : h.Tracks) (p : PoolId) (i : ℕ) :
    Tracks { h with objects := h.objects.slotFree p i, live := setAt h.live p i none } := by
  have hnone : h.live p i = none → Tracks { h with objects := h.objects, live := setAt h.live p i none } := by
    intro hi
    rw [← hi, setAt_same]
    exact ht
  unfold Objects.slotFree
  cases hs : h.objects.slotAt p i with
  | none => exact hnone (ht.slotAt_eq_none hs)
  | some s =>
    obtain ⟨hi, hf⟩ := ht.slotAt_eq_some hs
    dsimp only
    split
    · rename_i hu
      rw [hf.used] at hu
      exact hnone (by simpa using hu)
    · split
      · rename_i hp
        subst hp
        have hs' : h.objects.taskSlotAt i = some s := by simpa [Objects.slotAt] using hs
        obtain ⟨-, b, hb, -⟩ := Objects.taskSlotAt_eq_some hs'
        rw [Int.toNat_natCast] at hb ⊢
        have hpage := ht.page (i / ocfg.taskSlotPageSize)
        have hlt := Nat.mod_lt i ocfg.taskSlotPageSize_pos
        rw [hb, Option.getD_some] at hpage
        rw [hb]
        have hdiv : i / ocfg.taskSlotPageSize < taskSlotPageCount :=
          Nat.div_lt_div_of_lt_of_dvd ocfg.taskSlotPageSize_dvd hi
        have := ht.setPage hdiv hlt (n := h.allocs .task i) (y := none) ((hpage.giveBack hlt).congr (fun _ _ => rfl) ?_)
        · rw [Nat.div_add_mod', setAt_same] at this
          exact this
        · intro j _
          rw [Function.update_apply]
          split
          · rename_i e
            rw [e, Nat.div_add_mod']
          · rfl
      · rename_i hp
        have := ht.setPool hp hi (n := h.allocs p i) (y := none)
          (((ht.pool p hp).giveBack hi).congr (fun _ _ => rfl) fun _ _ => by rw [Function.update_eq_self])
        rwa [setAt_same] at this

theorem step (ht : h.Tracks) (hs : h.step a = some h') : h'.Tracks := by
  cases a with
  | alloc p obj memory =>
    cases hs
    exact (ht.slotAlloc p obj memory).1
  | free p index =>
    cases hs
    rcases lt_or_ge index 0 with hneg | hpos
    · have hnone : h.objects.slotAt p index = none := by
        have htask : h.objects.taskSlotAt index = none := if_pos (.inl hneg)
        rw [Objects.slotAt, htask, if_neg fun hp : 0 ≤ index ∧ _ => absurd hp.1 (by omega), ite_self]
      rw [if_neg (by omega), Objects.slotFree, hnone]
      exact ht
    · obtain ⟨i, rfl⟩ := Int.eq_ofNat_of_zero_le hpos
      rw [if_pos hpos]
      exact ht.slotFree p i

/-- A slot that is not given back keeps its object; if it has none, it may be allocated once more. -/
theorem step_slot (ht : h.Tracks) (hs : h.step a = some h') (hf : a ≠ .free p i) :
    h'.live p i = h.live p i ∧ h'.allocs p i = h.allocs p i ∨
      h.live p i = none ∧ h'.allocs p i = h.allocs p i + 1 := by
  cases a with
  | alloc q obj memory =>
    cases hs
    have hfree := (ht.slotAlloc q obj memory).2
    rcases he : h.objects.slotAlloc q obj memory with ⟨o, _ | j⟩
    · exact .inl ⟨rfl, rfl⟩
    · rw [he] at hfree
      by_cases e : p = q ∧ i = j
      · obtain ⟨rfl, rfl⟩ := e
        exact .inr ⟨hfree i rfl, setAt_self⟩
      · exact .inl ⟨setAt_of_ne e, setAt_of_ne e⟩
  | free q index =>
    cases hs
    refine .inl ⟨?_, rfl⟩
    dsimp only
    split
    · rename_i hpos
      refine setAt_of_ne ?_
      rintro ⟨rfl, rfl⟩
      exact hf (by rw [Int.toNat_of_nonneg hpos])
    · rfl

end Tracks

theorem step_free (hs : h.step (.free p i) = some h') : h'.live p i = none ∧ h'.allocs = h.allocs := by
  cases hs
  exact ⟨by simp, rfl⟩

/-! ### Handles -/

omit cfg ocfg in
theorem poolId_objType (p : PoolId) : p.objType.poolId = some p := by cases p <;> rfl

namespace Tracks

/-- **A handle** resolves to the live object of its slot, if the slot still has the generation of the handle. -/
theorem objFromHandle_iff (ht : h.Tracks) (hi : i < 256) {g : BitVec 32} (hg : g.toNat < 2 ^ 24) :
    h.objects.objFromHandle (handleMake i g) p.objType = some x ↔
      h.live p i = some x ∧ generationOf (h.allocs p i) = g := by
  unfold Objects.objFromHandle
  rw [poolId_objType, handleIdx_handleMake hi, handleGen_handleMake hg]
  dsimp only
  cases hs : h.objects.slotAt p i with
  | none => simp [ht.slotAt_eq_none hs]
  | some s =>
    obtain ⟨-, hf⟩ := ht.slotAt_eq_some hs
    dsimp only
    rw [hf.used, hf.generation, hf.obj]
    constructor
    · intro h
      split at h
      · rename_i hc
        exact ⟨h, hc.2.1⟩
      · cases h
    · rintro ⟨hl, rfl⟩
      rw [if_pos ⟨by simp [hl], rfl, hf.type (by simp [hl])⟩, hl]

/-- The handle of a live object. -/
theorem slotHandle_eq (ht : h.Tracks) (hl : h.live p i ≠ none) :
    h.objects.slotHandle p i = handleMake i (generationOf (h.allocs p i)) := by
  unfold Objects.slotHandle
  cases hs : h.objects.slotAt p i with
  | none => exact absurd (ht.slotAt_eq_none hs) hl
  | some s =>
    obtain ⟨-, hf⟩ := ht.slotAt_eq_some hs
    dsimp only
    rw [hf.used, hf.generation, Int.toNat_natCast, if_pos (Option.isSome_iff_ne_none.mpr hl)]

theorem lt_maxCount (ht : h.Tracks) (hl : h.live p i ≠ none) : i < p.maxCount := by
  by_contra hi
  exact hl (ht.outside p i (by omega))

theorem allocs_pos (ht : h.Tracks) (hl : h.live p i ≠ none) : 0 < h.allocs p i := by
  cases hs : h.objects.slotAt p i with
  | none => exact absurd (ht.slotAt_eq_none hs) hl
  | some s => exact (ht.slotAt_eq_some hs).2.allocs hl

/-- A handle obtained at one time resolves at another to what is live in its slot then, if the numbers of allocations
agree up to the length of the cycle of generations. -/
theorem resolves_iff (ht : h.Tracks) (ht' : h'.Tracks) (hl : h.live p i ≠ none) :
    h'.objects.objFromHandle (h.objects.slotHandle p i) p.objType = some x ↔
      h'.live p i = some x ∧ h'.allocs p i % (2 ^ 24 - 1) = h.allocs p i % (2 ^ 24 - 1) := by
  have hi := (ht.lt_maxCount hl).trans_le (maxCount_le_limit p)
  rw [ht.slotHandle_eq hl, ht'.objFromHandle_iff hi (generationOf_lt _)]
  refine and_congr_right fun hl' => ?_
  exact generationOf_eq_iff (ht'.allocs_pos (by simp [hl'])) (ht.allocs_pos hl)

/-- Handles of two live objects of a pool are different. -/
theorem slotHandle_injective (ht : h.Tracks) (hi : h.live p i ≠ none) (hj : h.live p j ≠ none)
    (he : h.objects.slotHandle p i = h.objects.slotHandle p j) : i = j := by
  have hi' := (ht.lt_maxCount hi).trans_le (maxCount_le_limit p)
  have hj' := (ht.lt_maxCount hj).trans_le (maxCount_le_limit p)
  rw [ht.slotHandle_eq hi, ht.slotHandle_eq hj] at he
  rw [← handleIdx_handleMake hi', he, handleIdx_handleMake hj']

/-! ### Runs -/

theorem of_run (ht : h.Tracks) (hr : run History.step h ops = some h') : h'.Tracks :=
  (path_iff_run.mpr hr).invariant (I := Tracks) (fun _ _ _ ht _ hs => ht.step hs) ht

/-- What is not given back stays. -/
theorem kept_of_run (ht : h.Tracks) (hr : run History.step h ops = some h') (hl : h.live p i ≠ none)
    (hf : SlotOp.free p i ∉ ops) : h'.live p i = h.live p i ∧ h'.allocs p i = h.allocs p i := by
  induction ops generalizing h with
  | nil =>
    cases hr
    exact ⟨rfl, rfl⟩
  | cons a ops ih =>
    obtain ⟨m, hm, hr⟩ := Option.bind_eq_some_iff.mp hr
    rw [List.mem_cons, not_or] at hf
    rcases ht.step_slot hm (Ne.symm hf.1) with ⟨h₁, h₂⟩ | ⟨hnone, -⟩
    · obtain ⟨h₃, h₄⟩ := ih (ht.step hm) hr (by rwa [h₁]) hf.2
      exact ⟨h₃.trans h₁, h₄.trans h₂⟩
    · exact absurd hnone hl

/-- What is live in a slot that was empty has been allocated since. -/
theorem allocated_of_run {n : ℕ} (ht : h.Tracks) (hr : run History.step h ops = some h') (hn : n ≤ h.allocs p i)
    (hl : h.live p i ≠ none → n < h.allocs p i) : h'.live p i ≠ none → n < h'.allocs p i := by
  induction ops generalizing h with
  | nil =>
    cases hr
    exact hl
  | cons a ops ih =>
    obtain ⟨m, hm, hr⟩ := Option.bind_eq_some_iff.mp hr
    by_cases hf : a = .free p i
    · rw [hf] at hm
      obtain ⟨h₁, h₂⟩ := step_free hm
      exact ih (ht.step hm) hr (by rwa [h₂]) fun h => absurd h₁ h
    · rcases ht.step_slot hm hf with ⟨h₁, h₂⟩ | ⟨-, h₂⟩
      · exact ih (ht.step hm) hr (by rwa [h₂]) (by rwa [h₁, h₂])
      · exact ih (ht.step hm) hr (by omega) fun _ => by omega

/-- What is live in a slot that has been given back is another object. -/
theorem freed_of_run (ht : h.Tracks) (hr : run History.step h ops = some h') (hl : h.live p i ≠ none)
    (hf : SlotOp.free p i ∈ ops) : h'.live p i ≠ none → h.allocs p i < h'.allocs p i := by
  induction ops generalizing h with
  | nil => cases hf
  | cons a ops ih =>
    obtain ⟨m, hm, hr⟩ := Option.bind_eq_some_iff.mp hr
    by_cases ha : a = .free p i
    · rw [ha] at hm
      obtain ⟨h₁, h₂⟩ := step_free hm
      exact (ht.step hm).allocated_of_run hr (by rw [h₂]) fun h => absurd h₁ h
    · rcases ht.step_slot hm ha with ⟨h₁, h₂⟩ | ⟨hnone, -⟩
      · rw [← h₂]
        exact ih (ht.step hm) hr (by rwa [h₁]) ((List.mem_cons.mp hf).resolve_left (Ne.symm ha))
      · exact absurd hnone hl

end Tracks

/-! ### The law -/

/-- The bitmaps, the flags and the usage agree with what is live. -/
structure Mirrors (h : History α) : Prop where
  inside : ∀ p i, h.live p i ≠ none → i < p.maxCount
  used : ∀ p (i : ℕ), (∃ s, h.objects.slotAt p i = some s ∧ s.used = true) ↔ h.live p i ≠ none
  free : ∀ p ≠ .task, ∀ i < 32, (h.objects.pools p).freeBitmap.getLsbD i = true ↔ i < p.maxCount ∧ h.live p i = none
  freeInPage : ∀ k b, h.objects.taskSlotPages k = some b → ∀ i < 32, b.freeBitmap.getLsbD i = true ↔
    i < ocfg.taskSlotPageSize ∧ h.live .task (k * ocfg.taskSlotPageSize + i) = none
  usage : ∀ p, h.objects.poolGetUsage p = (List.range p.maxCount).countP fun i => (h.live p i).isSome

omit cfg ocfg in
/-- Counting page by page. -/
theorem sum_countP_pages (P : ℕ → Bool) (n m : ℕ) :
    ((List.range m).map fun k => ((List.range n).countP fun i => P (k * n + i) : ℕ)).sum =
      (List.range (m * n)).countP P := by
  induction m with
  | zero => simp
  | succ m ih =>
    rw [List.range_succ, List.map_append, List.sum_append, ih, Nat.succ_mul, List.range_add, List.countP_append,
      List.countP_map]
    simp [Function.comp_def]

theorem Tracks.mirrors (ht : h.Tracks) : h.Mirrors where
  inside _ _ hl := ht.lt_maxCount hl
  used p i := by
    constructor
    · rintro ⟨s, hs, hu⟩ hl
      rw [(ht.slotAt_eq_some hs).2.used, hl] at hu
      cases hu
    · intro hl
      cases hs : h.objects.slotAt p i with
      | none => exact absurd (ht.slotAt_eq_none hs) hl
      | some s =>
        refine ⟨s, rfl, ?_⟩
        rw [(ht.slotAt_eq_some hs).2.used]
        exact Option.isSome_iff_ne_none.mpr hl
  free p hp i hi := by
    rw [(ht.pool p hp).free i hi]
    simp
  freeInPage k b hb i hi := by
    have hpage := ht.page k
    rw [hb, Option.getD_some] at hpage
    rw [hpage.free i hi]
    simp
  usage p := by
    unfold Objects.poolGetUsage
    split
    · rename_i hp
      subst hp
      have hsum := sum_countP_pages (fun i => (h.live .task i).isSome) ocfg.taskSlotPageSize taskSlotPageCount
      rw [taskSlotPageCount, Nat.div_mul_cancel ocfg.taskSlotPageSize_dvd] at hsum
      refine Eq.trans (congrArg List.sum (List.map_congr_left (g := fun k => (((List.range ocfg.taskSlotPageSize).countP
        fun i => (h.live .task (k * ocfg.taskSlotPageSize + i)).isSome : ℕ) : ℤ)) fun k _ => ?_)) ?_
      · have hpage := ht.page k
        cases hb : h.objects.taskSlotPages k with
        | none =>
          rw [hb, Option.getD_none] at hpage
          refine Eq.symm (Int.natCast_eq_zero.mpr (List.countP_eq_zero.mpr fun i hi => ?_))
          rw [← (hpage.slot i (List.mem_range.mp hi)).used]
          simp [Pool.fresh]
        | some b =>
          rw [hb, Option.getD_some] at hpage
          have hcount := hpage.popcount_freeBitmap ocfg.taskSlotPageSize_le
          exact Int.sub_eq_iff_eq_add'.mpr (by exact_mod_cast hcount.symm)
      · rw [PoolId.maxCount, ← hsum, Nat.cast_list_sum, List.map_map]
        rfl
    · rename_i hp
      dsimp only
      rw [usageLoop_eq, Nat.zero_add, Int.natCast_inj]
      refine popcount_eq_countP (maxCount_le hp) fun i hi => ?_
      have hbit : (~~~(h.objects.pools p).freeBitmap).getLsbD i = !(decide (i < p.maxCount) && (h.live p i).isNone) := by
        rw [BitVec.getLsbD_not, (ht.pool p hp).free i hi, decide_eq_true hi, Bool.true_and]
      split
      · rename_i hlt
        have hmask : (1#32 <<< p.maxCount) - 1 = freeMask p.maxCount := by rw [freeMask, if_neg (by omega)]
        rw [BitVec.getLsbD_and, hbit, hmask, getLsbD_freeMask (maxCount_le hp) hi]
        by_cases hi : i < p.maxCount <;> simp [hi]
      · rename_i hge
        rw [hbit, decide_eq_true (by have := maxCount_le hp; omega : i < p.maxCount), Bool.true_and, Bool.true_and]
        cases h.live p i <;> rfl

/-- **Stale handles are rejected.** In every run, live objects of a pool have different handles and are found by them;
the bitmaps, the flags and the usage agree with what is live. And a handle finds its object until that is
given back; then it finds nothing, as long as its slot has not been allocated `2 ^ 24 - 1` times more. -/
theorem handles_of_run (hr : run step (init : History α) ops = some h) :
    h.Mirrors ∧
    (∀ p i x, h.live p i = some x → h.objects.objFromHandle (h.objects.slotHandle p i) p.objType = some x) ∧
    (∀ p i j, h.live p i ≠ none → h.live p j ≠ none → h.objects.slotHandle p i = h.objects.slotHandle p j → i = j) ∧
    ∀ later h', run step h later = some h' → ∀ p i x, h.live p i = some x →
      (SlotOp.free p i ∉ later →
        h'.objects.objFromHandle (h.objects.slotHandle p i) p.objType = some x) ∧
      (SlotOp.free p i ∈ later → h'.allocs p i < h.allocs p i + (2 ^ 24 - 1) →
        h'.objects.objFromHandle (h.objects.slotHandle p i) p.objType = none) := by
  have ht : h.Tracks := tracks_init.of_run hr
  refine ⟨ht.mirrors, fun p i x hl => ?_, fun p i j => ht.slotHandle_injective, fun later h' hr' p i x hl => ?_⟩
  · exact (ht.resolves_iff ht (by simp [hl])).mpr ⟨hl, rfl⟩
  · have hne : h.live p i ≠ none := by simp [hl]
    refine ⟨fun hf => ?_, fun hf hlt => ?_⟩
    · obtain ⟨h₁, h₂⟩ := ht.kept_of_run hr' hne hf
      exact (ht.resolves_iff (ht.of_run hr') hne).mpr ⟨h₁.trans hl, by rw [h₂]⟩
    · refine Option.eq_none_iff_forall_ne_some.mpr fun y hy => ?_
      obtain ⟨hy, hmod⟩ := (ht.resolves_iff (ht.of_run hr') hne).mp hy
      have := ht.freed_of_run hr' hne hf (by simp [hy])
      omega

end History

end Aixos

namespace Aixos.History

open Transition

attribute [local instance] Config.default ObjectConfig.default

/-- A semaphore is given back and its slot allocated again, next to a task that stays. -/
theorem reusedSlot_handles : ∃ h h', run step (init : History ℕ) [.alloc .sem 1 true, .alloc .task 2 true] = some h ∧
    run step h [.free .sem 0, .alloc .sem 3 true] = some h' ∧ h.Mirrors ∧ h.objects.poolGetUsage .task = 1 ∧
    h'.objects.objFromHandle (h.objects.slotHandle .sem 0) .sem = none ∧
    h'.objects.objFromHandle (h'.objects.slotHandle .sem 0) .sem = some 3 ∧
    h'.objects.objFromHandle (h.objects.slotHandle .task 0) .task = some 2 := by
  have hr : run step (init : History ℕ) [.alloc .sem 1 true, .alloc .task 2 true] = some _ := rfl
  have hr' := handles_of_run hr
  have hlater := hr'.2.2.2 [.free .sem 0, .alloc .sem 3 true] _ rfl
  refine ⟨_, _, hr, rfl, hr'.1, by decide +kernel, ?_, by decide +kernel, ?_⟩
  · exact (hlater .sem 0 1 rfl).2 (by simp) (by decide)
  · exact (hlater .task 0 2 rfl).1 (by simp)

end Aixos.History
