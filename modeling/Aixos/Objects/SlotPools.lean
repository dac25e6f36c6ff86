import Aixos.Kernel.Object

/-!
# The pools behind the core

* `Objects.Backs` — the slots of the core are those of the pools.
* `Objects.Backs.slotAlloc`, `Objects.Backs.slotFree` — both make the same step.
* `Objects.Backs.objFromHandle` — handles resolve in both alike.
-/

namespace Aixos

variable {α : Type*}

/-- The pool of a kind of object. -/
def ObjKind.pool : ObjKind → PoolId
  | .sem => .sem
  | .mutex => .mutex
  | .mq => .mq
  | .event => .event
  | .pipe => .pipe

theorem getLsbD_one_shiftLeft {i j : ℕ} (hj : j < 32) : (1#32 <<< i).getLsbD j = decide (j = i) := by
  rw [BitVec.getLsbD_shiftLeft, BitVec.getLsbD_one]
  by_cases e : j = i
  · subst e
    simp [hj]
  · have h : j < i ∨ ¬ j - i = 0 := by omega
    rcases h with h | h <;> simp [e, h]

/-- The bitmap of `n` free slots has the first `n` bits. -/
theorem getLsbD_freeMask {n i : ℕ} (hn : n ≤ 32) (hi : i < 32) : (freeMask n).getLsbD i = decide (i < n) := by
  have h : ∀ n < 33, ∀ i < 32, (freeMask n).getLsbD i = decide (i < n) := by decide +kernel
  exact h n (by omega) i hi

theorem nextSlotGeneration_toNat (g : BitVec 32) :
    (nextSlotGeneration g).toNat = nextGeneration g.toNat := by
  have hm : ((g + 1) &&& 0x00FFFFFF#32).toNat = (g.toNat + 1) % 2 ^ 24 := by
    rw [BitVec.toNat_and, show (0x00FFFFFF#32).toNat = 2 ^ 24 - 1 from rfl, Nat.and_two_pow_sub_one_eq_mod,
      BitVec.toNat_add, show (1 : BitVec 32).toNat = 1 from rfl]
    omega
  unfold nextSlotGeneration nextGeneration
  dsimp only
  rw [← hm]
  split
  · rename_i e
    rw [e]
    rfl
  · rename_i e
    rw [if_neg]
    intro e'
    exact e (BitVec.eq_of_toNat_eq e')

theorem nextGeneration_lt (g : ℕ) : nextGeneration g < 2 ^ 24 := by
  unfold nextGeneration
  dsimp only
  split <;> omega

variable [cfg : Config] [ocfg : ObjectConfig]

namespace Objects

variable {o : Objects α} {c c' : Core} {k : ObjKind} {i : ℕ} {obj : α} {memory : Bool}

omit cfg ocfg in
theorem pool_ne_task (k : ObjKind) : k.pool ≠ .task := by cases k <;> decide

omit cfg ocfg in
theorem pool_injective {k k' : ObjKind} (h : k.pool = k'.pool) : k = k' := by
  cases k <;> cases k' <;> first | rfl | cases h

theorem maxCount_pool (k : ObjKind) : k.pool.maxCount = cfg.maxCount k := by cases k <;> rfl

/-- The pools are behind the slots of the core. -/
structure Backs (o : Objects α) (c : Core) : Prop where
  used : ∀ k i, ((o.pools k.pool).slots i).used = (c.slots k i).used
  generation : ∀ k i, ((o.pools k.pool).slots i).generation.toNat = (c.slots k i).generation
  /-- Generations have 24 bits. -/
  lt : ∀ k i, (c.slots k i).generation < 2 ^ 24
  /-- The bitmap has the slots that are not used. -/
  free : ∀ k i, i < 32 → (o.pools k.pool).freeBitmap.getLsbD i = (decide (i < cfg.maxCount k) && !(c.slots k i).used)
  /-- A slot that is used has an object of the kind. -/
  obj : ∀ k i, (c.slots k i).used = true → ((o.pools k.pool).slots i).type = k.pool.objType ∧
    ((o.pools k.pool).slots i).obj ≠ none

omit ocfg in
/-- The next slot is the same. -/
theorem Backs.freeSlot (hb : Backs o c) (k : ObjKind) : lowestBit (o.pools k.pool).freeBitmap = c.freeSlot k := by
  have hle := cfg.maxCount_le k
  unfold lowestBit Core.freeSlot
  have hrange : List.range 32 = List.range (cfg.maxCount k) ++
      (List.range (32 - cfg.maxCount k)).map (cfg.maxCount k + ·) := by
    rw [← List.range_add]
    exact congrArg List.range (by omega)
  rw [hrange, List.find?_append]
  have hrest : ((List.range (32 - cfg.maxCount k)).map (cfg.maxCount k + ·)).find?
      (fun i => (o.pools k.pool).freeBitmap.getLsbD i) = none := by
    refine List.find?_eq_none.mpr fun i hi => ?_
    obtain ⟨j, hj, rfl⟩ := List.mem_map.mp hi
    rw [List.mem_range] at hj
    have hno : ¬ cfg.maxCount k + j < cfg.maxCount k := by omega
    rw [hb.free k _ (by omega)]
    simp [hno]
  rw [hrest, Option.or_none, ← List.head?_filter, ← List.head?_filter]
  refine congrArg List.head? (List.filter_congr fun i hi => ?_)
  rw [List.mem_range] at hi
  rw [hb.free k i (by omega)]
  simp [hi]

theorem backs_init : Backs (init : Objects α) Core.init where
  used _ _ := rfl
  generation _ _ := rfl
  lt _ _ := (by decide : (0 : ℕ) < 2 ^ 24)
  free k i hi := by
    show (freeMask k.pool.maxCount).getLsbD i = (decide (i < cfg.maxCount k) && true)
    rw [maxCount_pool, Bool.and_true]
    exact getLsbD_freeMask (cfg.maxCount_le k) hi
  obj _ _ h := nomatch h

omit ocfg in
/-- One slot of the pool and of the core is stored. -/
theorem Backs.store (hb : Backs o c) {b : Pool α} {d : ObjSlot α} {s : Slot}
    (hc : c'.slots = Function.update c.slots k (Function.update (c.slots k) i s))
    (hs : b.slots = Function.update (o.pools k.pool).slots i d) (hu : d.used = s.used)
    (hg : d.generation.toNat = s.generation) (hlt : s.generation < 2 ^ 24)
    (hf : ∀ j, j < 32 → b.freeBitmap.getLsbD j =
      if j = i then decide (i < cfg.maxCount k) && !s.used else (o.pools k.pool).freeBitmap.getLsbD j)
    (ho : s.used = true → d.type = k.pool.objType ∧ d.obj ≠ none) : Backs (o.setPool k.pool b) c' := by
  have hpool : ∀ {k'}, k' ≠ k → (o.setPool k.pool b).pools k'.pool = o.pools k'.pool := fun hk =>
    Function.update_of_ne (fun e => hk (pool_injective e)) ..
  have hslots : ∀ {k'}, k' ≠ k → c'.slots k' = c.slots k' := fun hk => by rw [hc, Function.update_of_ne hk]
  have hself : ∀ j, ((o.setPool k.pool b).pools k.pool).slots j = if j = i then d else (o.pools k.pool).slots j := by
    intro j
    show (Function.update o.pools k.pool b k.pool).slots j = _
    rw [Function.update_self, hs, Function.update_apply]
  have hcself : ∀ j, c'.slots k j = if j = i then s else c.slots k j := by
    intro j
    rw [hc, Function.update_self, Function.update_apply]
  refine ⟨fun k' j => ?_, fun k' j => ?_, fun k' j => ?_, fun k' j hj => ?_, fun k' j => ?_⟩ <;> by_cases hk : k' = k
  · subst hk
    rw [hself, hcself]
    split
    · exact hu
    · exact hb.used k' j
  · rw [hpool hk, hslots hk]
    exact hb.used k' j
  · subst hk
    rw [hself, hcself]
    split
    · exact hg
    · exact hb.generation k' j
  · rw [hpool hk, hslots hk]
    exact hb.generation k' j
  · subst hk
    rw [hcself]
    split
    · exact hlt
    · exact hb.lt k' j
  · rw [hslots hk]
    exact hb.lt k' j
  · subst hk
    have hfree : ((o.setPool k'.pool b).pools k'.pool).freeBitmap = b.freeBitmap := by simp [setPool]
    rw [hfree, hf j hj, hcself]
    split
    · rename_i e
      rw [e]
    · exact hb.free k' j hj
  · rw [hpool hk, hslots hk]
    exact hb.free k' j hj
  · subst hk
    rw [hself, hcself]
    split
    · exact ho
    · exact hb.obj k' j
  · rw [hpool hk, hslots hk]
    exact hb.obj k' j

/-- The slot that an index names. -/
theorem slotAt_pool (o : Objects α) (k : ObjKind) (i : ℕ) : o.slotAt k.pool i =
    if i < cfg.maxCount k then some ((o.pools k.pool).slots i) else none := by
  unfold slotAt
  rw [if_neg (pool_ne_task k), maxCount_pool]
  simp

/-- **Allocation in the core** is that of the pools. -/
theorem Backs.slotAlloc (hb : Backs o c) (hi : c.freeSlot k = some i) :
    (o.slotAlloc k.pool obj memory).2 = some i ∧ Backs (o.slotAlloc k.pool obj memory).1 (c.slotAlloc k i).1 := by
  have hl : lowestBit (o.pools k.pool).freeBitmap = some i := (hb.freeSlot k).trans hi
  unfold Objects.slotAlloc Pool.take
  rw [if_neg (pool_ne_task k), hl]
  have hnext := nextSlotGeneration_toNat ((o.pools k.pool).slots i).generation
  rw [hb.generation] at hnext
  refine ⟨rfl, hb.store rfl rfl rfl hnext (nextGeneration_lt _) (fun j hj => ?_) fun _ => ⟨rfl, Option.some_ne_none _⟩⟩
  rw [BitVec.getLsbD_and, BitVec.getLsbD_not, getLsbD_one_shiftLeft hj]
  split
  · rename_i e
    simp [e]
  · rename_i e
    simp [hj, e]

/-- **Giving back in the core** is that of the pools. -/
theorem Backs.slotFree (hb : Backs o c) (hi : i < cfg.maxCount k) (hu : (c.slots k i).used = true) :
    Backs (o.slotFree k.pool i) (c.slotFree k i) := by
  unfold Objects.slotFree
  rw [slotAt_pool, if_pos hi]
  dsimp only
  rw [hb.used k i, hu, if_neg (pool_ne_task k)]
  refine hb.store rfl rfl rfl (hb.generation k i) (hb.lt k i) (fun j hj => ?_) fun h => nomatch h
  show ((o.pools k.pool).freeBitmap ||| (1#32 <<< ((i : ℤ).toNat))).getLsbD j = _
  rw [Int.toNat_natCast, BitVec.getLsbD_or, getLsbD_one_shiftLeft hj]
  split
  · rename_i e
    simp [e, hi]
  · rename_i e
    simp [e]

/-- **A handle** resolves in the core as in the pools. -/
theorem Backs.objFromHandle (hb : Backs o c) (k : ObjKind) (h : BitVec 32) :
    (c.objFromHandle k ⟨handleIdx h, (handleGen h).toNat⟩).isSome = (o.objFromHandle h k.pool.objType).isSome := by
  have hp : k.pool.objType.poolId = some k.pool := by cases k <;> rfl
  unfold Core.objFromHandle Objects.objFromHandle
  rw [hp]
  dsimp only
  rw [slotAt_pool]
  by_cases hlt : handleIdx h < cfg.maxCount k
  · rw [if_pos hlt]
    dsimp only
    rw [hb.used k (handleIdx h)]
    by_cases hu : (c.slots k (handleIdx h)).used = true
    · obtain ⟨ht, ho⟩ := hb.obj k _ hu
      obtain ⟨x, hx⟩ := Option.ne_none_iff_exists'.mp ho
      rw [ht, hx, ← hb.generation]
      by_cases hg : ((o.pools k.pool).slots (handleIdx h)).generation = handleGen h
      · simp [hlt, hu, hg]
      · have hg' : ((o.pools k.pool).slots (handleIdx h)).generation.toNat ≠ (handleGen h).toNat :=
          fun e => hg (BitVec.eq_of_toNat_eq e)
        simp [hg, hg']
    · simp [hu]
  · rw [if_neg hlt, if_neg fun h => hlt h.1]
    rfl

end Objects

end Aixos
