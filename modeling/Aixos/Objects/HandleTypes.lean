import Aixos.Kernel.Object
import Aixos.Library.Transition
import Mathlib.Tactic.IntervalCases

/-!
# Handles of the wrong type

A handle is an index and a generation; which pool it is of is left to the caller.

* `Objects.slotAlloc_used`, `Objects.slotFree_used` — an allocation takes one slot, and nothing else makes a slot used.
* `Objects.Distinct` — no two pools use the same index with the same generation.
* `Objects.rejects_of_path` — in runs that keep the generations apart, handles of the wrong type are rejected.
-/

namespace Aixos

open Transition

variable {α : Type*}

/-- A page of new slots has a free one. -/
theorem lowestBit_freeMask {n : ℕ} (h₀ : 0 < n) (h : n ≤ 32) : lowestBit (freeMask n) = some 0 := by
  interval_cases n <;> decide

theorem Pool.take_eq {b b' : Pool α} {type : ObjType} {obj : α} {i : ℕ} (h : b.take type obj = some (b', i)) :
    b'.slots = Function.update b.slots i
      { used := true, generation := nextSlotGeneration (b.slots i).generation, type := type, obj := some obj } := by
  unfold Pool.take at h
  split at h
  · cases h
  · cases h
    rfl

variable [cfg : Config] [ocfg : ObjectConfig]

namespace Objects

variable {o o' : Objects α} {p q : PoolId} {obj x : α} {memory : Bool} {r : Option ℕ} {s : ObjSlot α} {j k : ℤ}
  {h : BitVec 32} {type type' : ObjType} {ops : List (SlotOp α)}

/-- The generation of a slot; 0 where there is no slot yet. -/
def generationAt (o : Objects α) (p : PoolId) (index : ℤ) : BitVec 32 :=
  match o.slotAt p index with
  | none => 0
  | some s => s.generation

omit cfg in
theorem taskSlotAt_eq_some (hs : o.taskSlotAt j = some s) : 0 ≤ j ∧ ∃ b,
    o.taskSlotPages (j.toNat / ocfg.taskSlotPageSize) = some b ∧ s = b.slots (j.toNat % ocfg.taskSlotPageSize) := by
  unfold taskSlotAt at hs
  split at hs
  · cases hs
  · rename_i hj
    split at hs
    · cases hs
    · rename_i b hb
      cases hs
      exact ⟨by omega, b, hb, rfl⟩

/-- What an allocation in a pool or a page does to its slots. -/
def Taken (o o' : Objects α) (p : PoolId) (r : Option ℕ) : Prop :=
  ∀ q j s, o'.slotAt q j = some s → s.used = true →
    o.slotAt q j = some s ∨ q = p ∧ r = some j.toNat ∧ s.generation = nextSlotGeneration (o.generationAt p j)

/-- A slot of a page of tasks is taken. -/
theorem taken_setPage {b b' : Pool α} {page i : ℕ} (ht : b.take .task obj = some (b', i))
    (hb : o.taskSlotPages page = some b ∨ o.taskSlotPages page = none ∧ b = Pool.fresh ocfg.taskSlotPageSize) :
    Taken o (o.setPage page b') .task (some (page * ocfg.taskSlotPageSize + i)) := by
  intro q j s hs hu
  by_cases hq : q = .task
  · subst hq
    have hs' : (o.setPage page b').taskSlotAt j = some s := by simpa [slotAt] using hs
    have hrange : ¬ (j < 0 ∨ (taskHandleLimit : ℤ) ≤ j) := by
      intro hj
      unfold taskSlotAt at hs'
      rw [if_pos hj] at hs'
      cases hs'
    obtain ⟨h₀, d, hd, rfl⟩ := taskSlotAt_eq_some hs'
    have hat : o.slotAt .task j = (o.taskSlotPages (j.toNat / ocfg.taskSlotPageSize)).map fun b =>
        b.slots (j.toNat % ocfg.taskSlotPageSize) := by
      show (if PoolId.task = .task then o.taskSlotAt j else _) = _
      rw [if_pos rfl, taskSlotAt, if_neg hrange]
      cases o.taskSlotPages (j.toNat / ocfg.taskSlotPageSize) <;> rfl
    by_cases hp : j.toNat / ocfg.taskSlotPageSize = page
    · have hd : some b' = some d := by simpa [setPage, hp] using hd
      cases hd
      rw [Pool.take_eq ht] at hu ⊢
      by_cases hi : j.toNat % ocfg.taskSlotPageSize = i
      · refine .inr ⟨rfl, ?_, ?_⟩
        · rw [← hp, ← hi, Nat.mul_comm, Nat.div_add_mod]
        · rw [hi, Function.update_self]
          dsimp only
          unfold generationAt
          rw [hat, hp, hi]
          rcases hb with hb | ⟨hb, rfl⟩
          · rw [hb]
            rfl
          · rw [hb]
            rfl
      · rw [Function.update_of_ne hi] at hu ⊢
        rcases hb with hb | ⟨hb, rfl⟩
        · left
          rw [hat, hp, hb]
          rfl
        · cases hu
    · left
      have hd : o.taskSlotPages (j.toNat / ocfg.taskSlotPageSize) = some d := by
        rw [← hd]
        exact (Function.update_of_ne hp ..).symm
      rw [hat, hd]
      rfl
  · left
    rw [← hs]
    simp [slotAt, hq, setPage]

theorem taken_taskSlotLoop (o : Objects α) (ps : List ℕ) :
    Taken o (taskSlotLoop obj memory o ps).1 .task (taskSlotLoop obj memory o ps).2 := by
  induction ps with
  | nil => exact fun _ _ _ hs _ => .inl hs
  | cons page ps ih =>
    rw [taskSlotLoop]
    cases hb : o.taskSlotPages page with
    | none =>
      dsimp only
      split
      · exact fun _ _ _ hs _ => .inl hs
      · split
        · -- a new page has a free slot
          rename_i ht
          unfold Pool.take at ht
          rw [show (Pool.fresh ocfg.taskSlotPageSize : Pool α).freeBitmap = freeMask _ from rfl,
            lowestBit_freeMask ocfg.taskSlotPageSize_pos ocfg.taskSlotPageSize_le] at ht
          cases ht
        · rename_i b i ht
          exact taken_setPage ht (.inr ⟨hb, rfl⟩)
    | some b =>
      dsimp only
      split
      · exact ih
      · rename_i b' i ht
        exact taken_setPage ht (.inl hb)

/-- **An allocation takes one slot**, with the next generation. -/
theorem slotAlloc_used (o : Objects α) (p : PoolId) (obj : α) (memory : Bool) :
    Taken o (o.slotAlloc p obj memory).1 p (o.slotAlloc p obj memory).2 := by
  unfold slotAlloc
  split
  · rename_i hp
    rw [hp]
    exact taken_taskSlotLoop o _
  · rename_i hp
    split
    · exact fun _ _ _ hs _ => .inl hs
    · rename_i b i ht
      intro q j s hs hu
      by_cases hq : q = p
      · subst hq
        simp only [slotAt, if_neg hp] at hs
        split at hs
        · rename_i hj
          obtain rfl := Option.some.inj hs
          have hat : o.slotAt q j = some ((o.pools q).slots j.toNat) := by
            rw [slotAt, if_neg hp, if_pos hj]
          have hsl : ((o.setPool q b).pools q).slots = b.slots := by simp [setPool]
          rw [hsl, Pool.take_eq ht] at hu ⊢
          by_cases hi : j.toNat = i
          · refine .inr ⟨rfl, by rw [hi], ?_⟩
            rw [hi, Function.update_self]
            dsimp only
            unfold generationAt
            rw [hat, hi]
          · rw [Function.update_of_ne hi]
            exact .inl hat
        · cases hs
      · left
        rw [← hs]
        simp [slotAt, setPool, hq, taskSlotAt]

omit cfg ocfg in
/-- A slot that is in use after one has been given back is another one. -/
theorem giveBack_slots {b : Pool α} {i k : ℕ} (hu : ((b.giveBack i).slots k).used = true) :
    (b.giveBack i).slots k = b.slots k := by
  refine Function.update_of_ne ?_ ..
  rintro rfl
  simp [Pool.giveBack] at hu

/-- A slot that is in use after one has been given back was so before. -/
theorem slotFree_used (hs : (o.slotFree p j).slotAt q k = some s) (hu : s.used = true) : o.slotAt q k = some s := by
  unfold slotFree at hs
  split at hs
  · exact hs
  · split at hs
    · exact hs
    · split at hs
      · dsimp only at hs
        split at hs
        · exact hs
        · rename_i b hb
          by_cases hq : q = .task
          · subst hq
            simp only [slotAt, if_true, taskSlotAt] at hs ⊢
            split at hs
            · cases hs
            · rename_i hk
              rw [if_neg hk]
              by_cases hp : k.toNat / ocfg.taskSlotPageSize = j.toNat / ocfg.taskSlotPageSize
              · simp only [setPage, hp, Function.update_self] at hs
                obtain rfl := Option.some.inj hs
                rw [hp, hb, giveBack_slots hu]
              · simpa only [setPage, Function.update_of_ne hp] using hs
          · rw [← hs]
            simp [slotAt, hq, setPage]
      · rename_i hp
        by_cases hq : q = p
        · subst hq
          simp only [slotAt, if_neg hp] at hs ⊢
          split at hs
          · rename_i hk
            have hsl : (o.setPool q ((o.pools q).giveBack j.toNat)).pools q = (o.pools q).giveBack j.toNat := by
              simp [setPool]
            rw [hsl] at hs
            obtain rfl := Option.some.inj hs
            rw [if_pos hk, giveBack_slots hu]
          · cases hs
        · rw [← hs]
          simp [slotAt, setPool, hq, taskSlotAt]

/-! ### The law -/

/-- No two pools use the same index with the same generation. -/
def Distinct (o : Objects α) : Prop :=
  ∀ p q j s s', p ≠ q → o.slotAt p j = some s → o.slotAt q j = some s' → s.used = true → s'.used = true →
    s.generation ≠ s'.generation

/-- A handle that names an object of one type names none of another type. -/
def Rejects (o : Objects α) : Prop :=
  ∀ h type type' x, type ≠ type' → o.objFromHandle h type = some x → o.objFromHandle h type' = none

/-- The slot that an allocation takes gets a generation with which no other pool uses this index. -/
def KeepsApart (o : Objects α) : SlotOp α → Prop
  | .alloc p obj memory => ∀ i : ℕ, (o.slotAlloc p obj memory).2 = some i → ∀ q s, q ≠ p → o.slotAt q i = some s →
      s.used = true → s.generation ≠ nextSlotGeneration (o.generationAt p i)
  | .free _ _ => True

/-- Whether an allocation keeps the generations apart can be computed. -/
instance (o : Objects α) : (a : SlotOp α) → Decidable (KeepsApart o a)
  | .free _ _ => isTrue trivial
  | .alloc p obj memory =>
    decidable_of_iff (∀ i ∈ (o.slotAlloc p obj memory).2.toList,
        ∀ q ∈ [PoolId.task, .sem, .mutex, .mq, .event, .pipe, .timer], ∀ s ∈ (o.slotAt q (i : ℕ)).toList,
          q ≠ p → s.used = true → s.generation ≠ nextSlotGeneration (o.generationAt p (i : ℕ))) <| by
      refine ⟨fun h i hi q s hq hs hu => h i (by simp [hi]) q (by cases q <;> simp) s (by simp [hs]) hq hu, ?_⟩
      intro h i hi q _ s hs hq hu
      exact h i (by simpa using hi) q s hq (by simpa using hs) hu

omit cfg ocfg in
theorem poolId_objType (hp : type.poolId = some p) : type = p.objType := by
  cases type <;> cases hp <;> rfl

theorem distinct_step {a : SlotOp α} (hd : Distinct o) (hc : KeepsApart o a) (hs : o.step a = some o') : Distinct o' := by
  cases a with
  | free p j =>
    cases hs
    exact fun q q' k s s' hne h h' hu hu' => hd q q' k s s' hne (slotFree_used h hu) (slotFree_used h' hu') hu hu'
  | alloc p obj memory =>
    cases hs
    intro q q' k s s' hne h h' hu hu'
    have hk : ∀ {q s}, (o.slotAlloc p obj memory).1.slotAt q k = some s → ((k.toNat : ℕ) : ℤ) = k := by
      intro q s hq
      refine Int.toNat_of_nonneg ?_
      unfold slotAt at hq
      split at hq
      · exact (taskSlotAt_eq_some hq).1
      · split at hq
        · rename_i hk
          exact hk.1
        · cases hq
    rcases slotAlloc_used o p obj memory q k s h hu with h₁ | ⟨rfl, hr, hg⟩
    · rcases slotAlloc_used o p obj memory q' k s' h' hu' with h₂ | ⟨rfl, hr, hg⟩
      · exact hd q q' k s s' hne h₁ h₂ hu hu'
      · rw [hg]
        have := hc k.toNat hr q s hne (by rw [hk h]; exact h₁) hu
        rwa [hk h] at this
    · rcases slotAlloc_used o q obj memory q' k s' h' hu' with h₂ | ⟨rfl, -, -⟩
      · rw [hg]
        have := hc k.toNat hr q' s' hne.symm (by rw [hk h]; exact h₂) hu'
        rw [hk h] at this
        exact this.symm
      · exact absurd rfl hne

theorem distinct_init : Distinct (init : Objects α) := by
  intro p q j s s' _ h _ hu
  unfold slotAt at h
  split at h
  · unfold taskSlotAt at h
    split at h
    · cases h
    · cases h
  · split at h
    · cases h
      cases hu
    · cases h

theorem Distinct.rejects (hd : Distinct o) : Rejects o := by
  intro h type type' x hne hx
  unfold objFromHandle at hx ⊢
  split at hx
  · cases hx
  · rename_i p hp
    split at hx
    · cases hx
    · rename_i s hs
      split at hx
      · rename_i hc
        split
        · rfl
        · rename_i q hq
          split
          · rfl
          · rename_i s' hs'
            refine if_neg fun hc' => ?_
            have hpq : p ≠ q := by
              rintro rfl
              exact hne ((poolId_objType hp).trans (poolId_objType hq).symm)
            exact hd p q _ s s' hpq hs hs' hc.1 hc'.1 (hc.2.1.trans hc'.2.1.symm)
      · cases hx

/-- **Handles of the wrong type are rejected** in every run in which an allocation takes no index with a
generation with which another pool uses it. -/
theorem rejects_of_path (hp : Path (Next step) KeepsApart (init : Objects α) ops o) : Rejects o :=
  (hp.invariant (I := Distinct) (fun _ _ _ hd hc h => distinct_step hd hc h) distinct_init).rejects

end Objects

end Aixos

namespace Aixos.Objects

open Transition

attribute [local instance] Config.default ObjectConfig.default

/-- A mutex is made where a semaphore has been given back. -/
def semsAndMutex : List (SlotOp ℕ) := [.alloc .sem 1 true, .alloc .sem 2 true, .free .sem 0, .alloc .mutex 3 true]

theorem semsAndMutex_rejects : ∃ o, run step (init : Objects ℕ) semsAndMutex = some o ∧
    o.objFromHandle (o.slotHandle .sem 1) .sem = some 2 ∧ o.objFromHandle (o.slotHandle .mutex 0) .mutex = some 3 ∧
    Rejects o := by
  have hpath : Path (Next step) KeepsApart (init : Objects ℕ) semsAndMutex _ :=
    .cons (by decide +kernel) rfl (.cons (by decide +kernel) rfl (.cons trivial rfl (.cons (by decide +kernel) rfl (.nil _))))
  exact ⟨_, hpath.run_eq, by decide +kernel, by decide +kernel, rejects_of_path hpath⟩

/-- The first semaphore and the first mutex have the same handle. -/
theorem firstHandles_not_rejects : ∃ o, run step (init : Objects ℕ) [.alloc .sem 1 true, .alloc .mutex 2 true] = some o ∧
    o.slotHandle .sem 0 = o.slotHandle .mutex 0 ∧ o.objFromHandle (o.slotHandle .sem 0) .sem = some 1 ∧
    o.objFromHandle (o.slotHandle .sem 0) .mutex = some 2 ∧ ¬ Rejects o := by
  obtain ⟨o, hr, hp⟩ := exists_run step (init : Objects ℕ) [.alloc .sem 1 true, .alloc .mutex 2 true] (fun o => decide
    (o.slotHandle .sem 0 = o.slotHandle .mutex 0 ∧ o.objFromHandle (o.slotHandle .sem 0) .sem = some 1 ∧
      o.objFromHandle (o.slotHandle .sem 0) .mutex = some 2)) (by decide +kernel)
  obtain ⟨h₁, h₂, h₃⟩ := of_decide_eq_true hp
  refine ⟨o, hr, h₁, h₂, h₃, fun hj => ?_⟩
  rw [hj _ .sem .mutex 1 (by decide) h₂] at h₃
  cases h₃

end Aixos.Objects
