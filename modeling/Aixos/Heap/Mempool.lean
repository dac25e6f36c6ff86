import Aixos.Kernel.Mempool
import Aixos.Library.Transition
import Mathlib.Data.List.Nodup

/-!
# Blocks of a memory pool

* `Mempool.Good` — the bitmap, the counter and the outstanding blocks agree.
* `Mempool.good_run` — they do in every run of calls.
* `Mempool.separate_iff` — when the blocks are disjoint and large enough.
* `Mempool.bookkeeping` — what the results of the calls say.

`align_up` rounds in 32 bits: a block size close to 2³² is rounded to 0, and `aixos_mempool_init` takes it. All blocks of
such a pool are at the start of the storage.
-/

namespace Aixos.Mempool

open Transition

/-! ### Rounding -/

/-- Clearing the low bits of a word. -/
theorem and_not_low (x : Word) (k : ℕ) : (x &&& ~~~(BitVec.ofNat 32 (2 ^ k - 1))).toNat = x.toNat / 2 ^ k * 2 ^ k := by
  have hx : x &&& ~~~(BitVec.ofNat 32 (2 ^ k - 1)) = (x >>> k) <<< k := by
    apply BitVec.eq_of_getLsbD_eq
    intro i hi
    simp only [BitVec.getLsbD_and, BitVec.getLsbD_not, BitVec.getLsbD_ofNat, BitVec.getLsbD_shiftLeft,
      BitVec.getLsbD_ushiftRight, Nat.testBit_two_pow_sub_one, hi, decide_true, Bool.true_and]
    by_cases h : i < k
    · simp [h]
    · simp [h, Nat.add_sub_cancel' (Nat.not_lt.mp h)]
  rw [hx, BitVec.toNat_shiftLeft, BitVec.toNat_ushiftRight, Nat.shiftLeft_eq, Nat.shiftRight_eq_div_pow]
  exact Nat.mod_eq_of_lt (Nat.lt_of_le_of_lt (Nat.div_mul_le_self ..) x.isLt)

section

variable [tcfg : TargetConfig]

theorem alignUp_toNat (v : Word) :
    (alignUp v).toNat = (v.toNat + tcfg.pointerSize - 1) % 2 ^ 32 / tcfg.pointerSize * tcfg.pointerSize := by
  unfold alignUp
  dsimp only
  rcases tcfg.pointerSize_eq with h | h <;> rw [h]
  · rw [show (BitVec.ofNat 32 4 - 1 : Word) = BitVec.ofNat 32 (2 ^ 2 - 1) by rfl, and_not_low]
    congr 2
    bv_omega
  · rw [show (BitVec.ofNat 32 8 - 1 : Word) = BitVec.ofNat 32 (2 ^ 3 - 1) by rfl, and_not_low]
    congr 2
    bv_omega

/-- A size is rounded up, unless that is 2³²: then it becomes 0. -/
theorem alignUp_cases (v : Word) : if v.toNat ≤ 2 ^ 32 - tcfg.pointerSize then
    v.toNat ≤ (alignUp v).toNat ∧ tcfg.pointerSize ∣ (alignUp v).toNat else alignUp v = 0 := by
  have hv := v.isLt
  have hp := tcfg.pointerSize_eq
  have h := alignUp_toNat v
  split
  · rename_i hle
    refine ⟨?_, h ▸ Nat.dvd_mul_left ..⟩
    rw [h]
    rcases hp with hp | hp <;> rw [hp] at hle ⊢ <;> omega
  · rename_i hlt
    refine BitVec.eq_of_toNat_eq ?_
    rw [h]
    rcases hp with hp | hp <;> rw [hp] at hlt ⊢ <;> simp <;> omega

end

/-! ### The bitmap -/

/-- The address of block `i`. -/
def addr (p : Mempool) (i : ℕ) : ℕ := p.storage + i * p.blockSize.toNat

/-- The blocks that are not free. -/
def used (p : Mempool) : List ℕ := (List.range p.blockCount.toNat).filter fun i => !p.freeBitmap.getLsbD i

variable {p q : Mempool} {s s' : Client} {i b : ℕ}

theorem mem_used : i ∈ p.used ↔ i < p.blockCount.toNat ∧ p.freeBitmap.getLsbD i = false := by
  simp [used]

theorem used_nodup (p : Mempool) : p.used.Nodup := List.nodup_range.filter _

theorem used_length_le (p : Mempool) : p.used.length ≤ p.blockCount.toNat := by
  have := List.length_filter_le (fun i => !p.freeBitmap.getLsbD i) (List.range p.blockCount.toNat)
  rwa [List.length_range] at this

/-- All blocks are in use if none is free. -/
theorem used_length_iff : p.used.length = p.blockCount.toNat ↔ ∀ i < p.blockCount.toNat, p.freeBitmap.getLsbD i = false := by
  have h := List.length_filter_eq_length_iff (l := List.range p.blockCount.toNat) (p := fun i => !p.freeBitmap.getLsbD i)
  rw [List.length_range] at h
  simpa [used] using h

/-- A block more is in use. -/
theorem used_perm (hc : q.blockCount = p.blockCount) (hi : i < p.blockCount.toNat) (hf : p.freeBitmap.getLsbD i = true)
    (hb : ∀ j, q.freeBitmap.getLsbD j = (p.freeBitmap.getLsbD j && decide (j ≠ i))) : q.used.Perm (i :: p.used) := by
  have hn : i ∉ p.used := by simp [mem_used, hf]
  refine (List.perm_ext_iff_of_nodup q.used_nodup (List.nodup_cons.mpr ⟨hn, p.used_nodup⟩)).mpr fun j => ?_
  rw [mem_used, hc, hb, List.mem_cons, mem_used]
  by_cases hj : j = i
  · simp [hj, hi]
  · simp [hj]

/-- The bitmap, the counter and the outstanding blocks agree. -/
structure Good (s : Client) : Prop where
  pos : s.pool.storage ≠ 0
  count : s.pool.blockCount.toNat ≤ 32
  area : s.pool.storageSize.toNat = s.pool.blockCount.toNat * s.pool.blockSize.toNat
  free : ∀ i, s.pool.freeBitmap.getLsbD i = true → i < s.pool.blockCount.toNat
  outstanding : s.outstanding.Perm (s.pool.used.map s.pool.addr)
  allocated : s.pool.allocated.toNat = s.pool.used.length

/-- What the calls never write. -/
structure Same (p q : Mempool) : Prop where
  storage : q.storage = p.storage
  storageSize : q.storageSize = p.storageSize
  blockSize : q.blockSize = p.blockSize
  blockCount : q.blockCount = p.blockCount

theorem Same.refl (p : Mempool) : Same p p := ⟨rfl, rfl, rfl, rfl⟩

theorem Same.trans {r : Mempool} (h : Same p q) (h' : Same q r) : Same p r :=
  ⟨h'.storage.trans h.storage, h'.storageSize.trans h.storageSize, h'.blockSize.trans h.blockSize,
    h'.blockCount.trans h.blockCount⟩

theorem Same.addr (h : Same p q) : q.addr = p.addr := by
  funext i
  unfold Mempool.addr
  rw [h.storage, h.blockSize]

/-- Setting or clearing one bit of the bitmap. -/
theorem getLsbD_bit {n : ℕ} (hn : n < 32) (j : ℕ) : ((1 : Word) <<< n).getLsbD j = decide (j = n) := by
  rw [BitVec.getLsbD_shiftLeft]
  simp only [BitVec.ofNat_eq_ofNat, BitVec.getLsbD_one]
  by_cases h : j = n
  · subst h
    simp [hn]
  · rcases Nat.lt_or_gt_of_ne h with h' | h'
    · simp [h, h']
    · simp [h, show j - n ≠ 0 by omega]

/-! ### The calls -/

/-- `aixos_mempool_alloc` takes a free block, or finds none. -/
theorem Good.alloc_cases (h : Good s) :
    (∃ q, s.pool.alloc false = (q, none) ∧ Same s.pool q ∧ q.freeBitmap = s.pool.freeBitmap ∧
      q.allocated = s.pool.allocated ∧ s.pool.used.length = s.pool.blockCount.toNat) ∨
    ∃ q i, s.pool.alloc false = (q, some (s.pool.addr i)) ∧ Same s.pool q ∧ i < s.pool.blockCount.toNat ∧ i ∉ s.pool.used ∧
      q.used.Perm (i :: s.pool.used) ∧ (∀ j, q.freeBitmap.getLsbD j = true → s.pool.freeBitmap.getLsbD j = true) ∧
      q.allocated.toNat = q.used.length := by
  by_cases hz : s.pool.freeBitmap = 0
  · refine .inl ⟨{ s.pool with allocFailures := s.pool.allocFailures + 1 }, ?_, ⟨rfl, rfl, rfl, rfl⟩, rfl, rfl,
      used_length_iff.mpr fun i _ => by rw [hz]; simp⟩
    unfold alloc
    rw [if_neg (by simp), if_pos hz]
  · -- the block of the lowest bit
    right
    have hbit := BitVec.getLsbD_true_ctz_of_ne_zero hz
    set i := s.pool.freeBitmap.ctz.toNat with hi
    have hlt := h.free i hbit
    have hi32 : i < 32 := Nat.lt_of_lt_of_le hlt h.count
    have hnot : i ∉ s.pool.used := by simp [mem_used, hbit]
    have hbits : ∀ j, (s.pool.freeBitmap &&& ~~~((1 : Word) <<< s.pool.freeBitmap.ctz)).getLsbD j =
        (s.pool.freeBitmap.getLsbD j && decide (j ≠ i)) := by
      intro j
      rw [BitVec.getLsbD_and, BitVec.getLsbD_not, BitVec.shiftLeft_eq', ← hi, getLsbD_bit hi32]
      by_cases hj : j < 32
      · simp [hj]
      · simp [BitVec.getLsbD_of_ge _ _ (Nat.not_lt.mp hj)]
    have hmul : (s.pool.freeBitmap.ctz * s.pool.blockSize).toNat = i * s.pool.blockSize.toNat := by
      rw [BitVec.toNat_mul, ← hi, Nat.mod_eq_of_lt]
      calc i * s.pool.blockSize.toNat ≤ s.pool.blockCount.toNat * s.pool.blockSize.toNat :=
            Nat.mul_le_mul_right _ (Nat.le_of_lt hlt)
        _ < 2 ^ 32 := h.area ▸ s.pool.storageSize.isLt
    have hcount : (s.pool.allocated + 1).toNat = s.pool.used.length + 1 := by
      have := s.pool.used_length_le
      have := h.count
      have := h.allocated
      bv_omega
    set bitmap := s.pool.freeBitmap &&& ~~~((1 : Word) <<< s.pool.freeBitmap.ctz) with hbitmap
    obtain ⟨peak, hq⟩ : ∃ peak, s.pool.alloc false = ({ s.pool with
        freeBitmap := bitmap, allocated := s.pool.allocated + 1, peakAllocated := peak }, some (s.pool.addr i)) := by
      unfold alloc
      rw [if_neg (by simp), if_neg hz]
      dsimp only
      split
      · exact ⟨s.pool.allocated + 1, by rw [hmul]; rfl⟩
      · exact ⟨s.pool.peakAllocated, by rw [hmul]; rfl⟩
    set q := { s.pool with freeBitmap := bitmap, allocated := s.pool.allocated + 1, peakAllocated := peak }
    have hperm : q.used.Perm (i :: s.pool.used) := used_perm rfl hlt hbit hbits
    refine ⟨q, i, hq, ⟨rfl, rfl, rfl, rfl⟩, hlt, hnot, hperm, fun j hj => ?_, hcount.trans hperm.length_eq.symm⟩
    have hj : (s.pool.freeBitmap.getLsbD j && decide (j ≠ i)) = true := (hbits j).symm.trans hj
    simp only [Bool.and_eq_true] at hj
    exact hj.1

/-- Where the blocks are. -/
theorem Good.owns_iff (h : Good s) (hs : s.pool.blockSize ≠ 0) :
    s.pool.owns b = true ↔ ∃ i < s.pool.blockCount.toNat, b = s.pool.addr i := by
  have hpos : 0 < s.pool.blockSize.toNat := Nat.pos_of_ne_zero fun e => hs (BitVec.eq_of_toNat_eq e)
  unfold owns
  split
  · rename_i hn
    refine iff_of_false (by simp) ?_
    rintro ⟨i, hi, rfl⟩
    unfold addr at hn
    have := h.pos
    have : i * s.pool.blockSize.toNat < s.pool.blockCount.toNat * s.pool.blockSize.toNat := Nat.mul_lt_mul_of_pos_right hi hpos
    have := h.area
    omega
  · rename_i hn
    simp only [not_or, Nat.not_lt, Nat.not_le] at hn
    obtain ⟨-, -, hle, hlt⟩ := hn
    rw [h.area] at hlt
    rw [decide_eq_true_eq]
    constructor
    · intro hmod
      refine ⟨(b - s.pool.storage) / s.pool.blockSize.toNat, ?_, ?_⟩
      · rw [Nat.div_lt_iff_lt_mul hpos]
        omega
      · unfold addr
        rw [Nat.div_mul_cancel (Nat.dvd_of_mod_eq_zero hmod)]
        omega
    · rintro ⟨i, -, rfl⟩
      unfold addr
      rw [Nat.add_sub_cancel_left, Nat.mul_mod_left]

/-- Without a stride no pointer is a block. -/
theorem Good.owns_zero (h : Good s) (hs : s.pool.blockSize = 0) : s.pool.owns b = false := by
  have hz : s.pool.storageSize.toNat = 0 := by
    rw [h.area, hs]
    exact Nat.mul_zero _
  unfold owns
  rw [if_pos]
  omega

/-- `aixos_mempool_free` frees an outstanding block, and refuses any other pointer. -/
theorem Good.free_cases (h : Good s) (b : ℕ) :
    (∃ c, c ≠ Code.ok ∧ s.pool.free false b = (s.pool, c) ∧ (s.pool.blockSize ≠ 0 → b ∉ s.outstanding)) ∨
    ∃ q i, s.pool.free false b = (q, Code.ok) ∧ s.pool.blockSize ≠ 0 ∧ b = s.pool.addr i ∧ Same s.pool q ∧ i ∈ s.pool.used ∧
      s.pool.used.Perm (i :: q.used) ∧
      (∀ j, q.freeBitmap.getLsbD j = true → j < q.blockCount.toNat) ∧ q.allocated.toNat = q.used.length := by
  have hmem : b ∈ s.outstanding ↔ ∃ i ∈ s.pool.used, s.pool.addr i = b := by
    rw [h.outstanding.mem_iff, List.mem_map]
  unfold Mempool.free
  rw [if_neg (by simp)]
  by_cases hs : s.pool.blockSize = 0
  · rw [if_pos (by simp [h.owns_zero hs])]
    exact .inl ⟨_, by decide, rfl, fun hne => absurd hs hne⟩
  have hpos : 0 < s.pool.blockSize.toNat := Nat.pos_of_ne_zero fun e => hs (BitVec.eq_of_toNat_eq e)
  by_cases ho : s.pool.owns b = true
  · obtain ⟨i, hi, rfl⟩ := (h.owns_iff hs).mp ho
    have hi32 : i < 32 := Nat.lt_of_lt_of_le hi h.count
    have hindex : (s.pool.addr i - s.pool.storage) / s.pool.blockSize.toNat = i := by
      unfold addr
      rw [Nat.add_sub_cancel_left, Nat.mul_div_cancel _ hpos]
    have hmask : (1 : Word) <<< BitVec.ofNat 32 i = (1 : Word) <<< i := by
      rw [BitVec.shiftLeft_eq', BitVec.toNat_ofNat, Nat.mod_eq_of_lt (by omega)]
    have htest : s.pool.freeBitmap &&& (1 : Word) <<< i ≠ 0 ↔ s.pool.freeBitmap.getLsbD i = true := by
      constructor
      · intro hne
        by_contra hbit
        refine hne (BitVec.eq_of_getLsbD_eq fun j _ => ?_)
        rw [BitVec.getLsbD_and, getLsbD_bit hi32]
        by_cases hj : j = i
        · rw [hj, Bool.eq_false_iff.mpr hbit]
          simp
        · simp [hj]
      · intro hbit hz
        have hz := congrArg (BitVec.getLsbD · i) hz
        rw [BitVec.getLsbD_and, getLsbD_bit hi32, hbit] at hz
        simp at hz
    rw [if_neg (by simp [ho])]
    dsimp only
    rw [hindex, hmask]
    by_cases hbit : s.pool.freeBitmap.getLsbD i = true
    · rw [if_pos (htest.mpr hbit)]
      refine .inl ⟨_, by decide, rfl, fun _ hin => ?_⟩
      obtain ⟨j, hj, e⟩ := hmem.mp hin
      have : j = i := by
        unfold addr at e
        exact Nat.eq_of_mul_eq_mul_right hpos (Nat.add_left_cancel e)
      simp [mem_used, this, hbit] at hj
    · rw [if_neg (fun hne => hbit (htest.mp hne))]
      right
      have hin : i ∈ s.pool.used := mem_used.mpr ⟨hi, by simpa using hbit⟩
      have hset : ∀ j, (s.pool.freeBitmap ||| (1 : Word) <<< i).getLsbD j = (s.pool.freeBitmap.getLsbD j || decide (j = i)) := by
        intro j
        rw [BitVec.getLsbD_or, getLsbD_bit hi32]
      set q : Mempool := { s.pool with
        freeBitmap := s.pool.freeBitmap ||| (1 : Word) <<< i, allocated := s.pool.allocated - 1 } with hq
      have hperm : s.pool.used.Perm (i :: q.used) := by
        refine used_perm rfl hi ((hset i).trans (by simp)) fun j => ?_
        rw [hq, hset]
        by_cases hj : j = i
        · simp [hj, hbit]
        · simp [hj]
      refine ⟨q, i, rfl, hs, rfl, ⟨rfl, rfl, rfl, rfl⟩, hin, hperm, fun j hj => ?_, ?_⟩
      · have hj : (s.pool.freeBitmap.getLsbD j || decide (j = i)) = true := (hset j).symm.trans hj
        simp only [Bool.or_eq_true, decide_eq_true_eq] at hj
        rcases hj with hj | rfl
        · exact h.free j hj
        · exact hi
      · have hlen := hperm.length_eq
        rw [List.length_cons] at hlen
        have := h.allocated
        show (s.pool.allocated - 1).toNat = _
        bv_omega
  · rw [if_pos (by simpa using ho)]
    refine .inl ⟨_, by decide, rfl, fun _ hin => ho ?_⟩
    obtain ⟨i, hi, e⟩ := hmem.mp hin
    exact (h.owns_iff hs).mpr ⟨i, (mem_used.mp hi).1, e.symm⟩

/-! ### Runs -/

/-- The part of the invariant that the calls change. -/
theorem Good.same {out : List ℕ} (h : Good s) (hq : Same s.pool q)
    (hf : ∀ i, q.freeBitmap.getLsbD i = true → i < q.blockCount.toNat) (ho : out.Perm (q.used.map s.pool.addr))
    (ha : q.allocated.toNat = q.used.length) : Good { pool := q, outstanding := out } where
  pos := by
    rw [hq.storage]
    exact h.pos
  count := by
    rw [hq.blockCount]
    exact h.count
  area := by
    rw [hq.storageSize, hq.blockCount, hq.blockSize]
    exact h.area
  free := hf
  outstanding := by
    rw [hq.addr]
    exact ho
  allocated := ha

theorem Good.step (h : Good s) {c : Call} (hs : step s c = some s') : Good s' ∧ Same s.pool s'.pool := by
  cases c with
  | alloc isr =>
    cases isr with
    | true =>
      cases hs
      exact ⟨h, .refl _⟩
    | false =>
      rcases h.alloc_cases with ⟨q, e, hq, hf, ha, -⟩ | ⟨q, i, e, hq, hi, hn, hperm, hf, ha⟩
      · simp only [Mempool.step, e] at hs
        cases hs
        have hu : q.used = s.pool.used := by
          unfold used
          rw [hq.blockCount, hf]
        exact ⟨h.same hq (by rw [hf, hq.blockCount]; exact h.free) (by rw [hu]; exact h.outstanding)
          (by rw [ha, hu]; exact h.allocated), hq⟩
      · simp only [Mempool.step, e] at hs
        cases hs
        refine ⟨h.same hq (fun j hj => ?_) ?_ ha, hq⟩
        · rw [hq.blockCount]
          exact h.free j (hf j hj)
        · exact (h.outstanding.cons _).trans (hperm.map s.pool.addr).symm
  | free isr b =>
    cases isr with
    | true =>
      cases hs
      exact ⟨h, .refl _⟩
    | false =>
      rcases h.free_cases b with ⟨c, hc, e, -⟩ | ⟨q, i, e, -, hb, hq, hi, hperm, hf, ha⟩
      · simp only [Mempool.step, e, if_neg hc] at hs
        cases hs
        exact ⟨h, .refl _⟩
      · simp only [Mempool.step, e, if_pos] at hs
        cases hs
        refine ⟨h.same hq hf ?_ ha, hq⟩
        rw [hb]
        simpa using (h.outstanding.trans (hperm.map s.pool.addr)).erase (s.pool.addr i)

/-- A run of calls keeps the pool good, and its storage and its blocks where they are. -/
theorem good_run {cs : List Call} (h : Good s) (hr : run step s cs = some s') : Good s' ∧ Same s.pool s'.pool :=
  (path_iff_run.mpr hr).invariant (I := fun m => Good m ∧ Same s.pool m.pool)
    (fun _ _ _ hm _ hs => ⟨(hm.1.step hs).1, hm.2.trans (hm.1.step hs).2⟩) ⟨h, .refl _⟩

section

variable [tcfg : TargetConfig] {st : Storage} {size : ℕ} {count : Word}

/-- A pool that `aixos_mempool_init` has set up. -/
theorem init_eq_ok (h : init st size count = .ok p) : Good { pool := p } ∧ p.storage = st.addr ∧
    p.blockSize = alignUp (.ofNat 32 size) ∧ p.blockCount = count ∧ 0 < count.toNat ∧ 0 < size ∧ size < 2 ^ 32 ∧
    tcfg.pointerSize ∣ st.addr ∧ count.toNat * p.blockSize.toNat ≤ st.size ∧ p.used = [] := by
  unfold init at h
  split at h
  · cases h
  · rename_i hn
    simp only [not_or, not_not, Nat.not_lt] at hn
    obtain ⟨hst, hsize, hsize', hcount, hcount', hal⟩ := hn
    dsimp only at h
    split at h
    · cases h
    · rename_i hn
      simp only [not_or, Nat.not_lt] at hn
      obtain ⟨hdiv, hroom⟩ := hn
      cases h
      have hpos : 0 < count.toNat := Nat.pos_of_ne_zero fun e => hcount (BitVec.eq_of_toNat_eq e)
      have h32 : count.toNat ≤ 32 := by
        have : ¬ (32 : Word).toNat < count.toNat := hcount'
        exact Nat.not_lt.mp this
      have hprod : (alignUp (.ofNat 32 size)).toNat * count.toNat < 2 ^ 32 := by
        have hdiv : ¬ (BitVec.allOnes 32 / count).toNat < (alignUp (.ofNat 32 size)).toNat := hdiv
        rw [BitVec.toNat_udiv, Nat.not_lt, Nat.le_div_iff_mul_le hpos, BitVec.toNat_allOnes] at hdiv
        omega
      have harea : (alignUp (.ofNat 32 size) * count).toNat = count.toNat * (alignUp (.ofNat 32 size)).toNat := by
        rw [BitVec.toNat_mul, Nat.mod_eq_of_lt hprod, Nat.mul_comm]
      have hfree : ∀ i, (if count = 32 then BitVec.allOnes 32 else ((1 : Word) <<< count) - 1).getLsbD i =
          decide (i < count.toNat) := by
        intro i
        split
        · rename_i h
          rw [h, BitVec.getLsbD_allOnes]
          rfl
        · rename_i h
          have hlt : count.toNat < 32 := by
            have : count.toNat ≠ 32 := fun e => h (BitVec.eq_of_toNat_eq e)
            omega
          have hpow : 2 ^ count.toNat < 2 ^ 32 := Nat.pow_lt_pow_right (by decide) hlt
          have hone := Nat.two_pow_pos count.toNat
          have e : ((1 : Word) <<< count) - 1 = BitVec.ofNat 32 (2 ^ count.toNat - 1) := by
            apply BitVec.eq_of_toNat_eq
            rw [BitVec.shiftLeft_eq', BitVec.toNat_sub, BitVec.toNat_shiftLeft, BitVec.toNat_ofNat, Nat.shiftLeft_eq]
            simp only [BitVec.toNat_ofNat, BitVec.ofNat_eq_ofNat]
            omega
          rw [e, BitVec.getLsbD_ofNat, Nat.testBit_two_pow_sub_one]
          by_cases hi : i < 32
          · simp [hi]
          · simp [hi]
            omega
      have hused : used { storage := st.addr, storageSize := alignUp (.ofNat 32 size) * count
                          blockSize := alignUp (.ofNat 32 size), blockCount := count
                          freeBitmap := if count = 32 then BitVec.allOnes 32 else ((1 : Word) <<< count) - 1 } = [] := by
        refine List.eq_nil_iff_forall_not_mem.mpr fun i hi => ?_
        have := mem_used.mp hi
        simp only [hfree] at this
        simp [this.1] at this
      have hsmall : (alignUp (.ofNat 32 size)).toNat * count.toNat < 256 ^ tcfg.pointerSize := by
        refine Nat.lt_of_lt_of_le hprod ?_
        rcases tcfg.pointerSize_eq with e | e <;> rw [e] <;> decide
      rw [Nat.mod_eq_of_lt hsmall, Nat.mul_comm] at hroom
      refine ⟨⟨hst, h32, harea, fun i hi => ?_, ?_, ?_⟩, rfl, rfl, rfl, hpos, Nat.pos_of_ne_zero hsize, by omega, ?_, hroom,
        hused⟩
      · rw [hfree] at hi
        simpa using hi
      · rw [hused]
        exact .nil
      · rw [hused]
        rfl
      · rcases tcfg.pointerSize_eq with e | e <;> rw [e] at hal ⊢
        · exact Nat.dvd_of_mod_eq_zero ((Nat.and_two_pow_sub_one_eq_mod _ 2).symm.trans hal)
        · exact Nat.dvd_of_mod_eq_zero ((Nat.and_two_pow_sub_one_eq_mod _ 3).symm.trans hal)

/-- The outstanding blocks are disjoint, lie in the storage, are aligned, and are as large as requested. -/
structure Separate (st : Storage) (size : ℕ) (s : Client) : Prop where
  disjoint : s.outstanding.Pairwise fun a b => a + s.pool.blockSize.toNat ≤ b ∨ b + s.pool.blockSize.toNat ≤ a
  inside : ∀ b ∈ s.outstanding, st.addr ≤ b ∧ b + s.pool.blockSize.toNat ≤ st.addr + st.size
  aligned : ∀ b ∈ s.outstanding, tcfg.pointerSize ∣ b
  large : ∀ b ∈ s.outstanding, size ≤ s.pool.blockSize.toNat

omit tcfg in
/-- Different blocks do not overlap. -/
theorem addr_disjoint {j : ℕ} (h : i ≠ j) :
    p.addr i + p.blockSize.toNat ≤ p.addr j ∨ p.addr j + p.blockSize.toNat ≤ p.addr i := by
  have hle : ∀ {a b : ℕ}, a < b → p.addr a + p.blockSize.toNat ≤ p.addr b := by
    intro a b hab
    have := Nat.mul_le_mul_right p.blockSize.toNat (Nat.succ_le_of_lt hab)
    rw [Nat.succ_mul] at this
    unfold addr
    omega
  rcases Nat.lt_or_gt_of_ne h with h | h
  · exact .inl (hle h)
  · exact .inr (hle h)

/-- **The blocks of a memory pool are disjoint**, in the storage, aligned and large enough in every run of calls if and only
if the block size can be rounded up in 32 bits. -/
theorem separate_iff (h : init st size count = .ok p) :
    (∀ cs s, run step { pool := p } cs = some s → Separate st size s) ↔ size ≤ 2 ^ 32 - tcfg.pointerSize := by
  obtain ⟨hg, haddr, hblock, hcount, hpos, hsize, hsize', hal, hroom, hused⟩ := init_eq_ok h
  have hround := alignUp_cases (BitVec.ofNat 32 size)
  rw [BitVec.toNat_ofNat, Nat.mod_eq_of_lt hsize', ← hblock] at hround
  constructor
  · intro hall
    by_contra hn
    rw [if_neg hn] at hround
    -- the first block has no room
    rcases hg.alloc_cases with ⟨q, -, -, -, -, hfull⟩ | ⟨q, i, e, hq, -⟩
    · rw [hused, hcount] at hfull
      exact absurd hfull (Nat.ne_of_lt hpos)
    · have hs : step { pool := p } (.alloc false) = some { pool := q, outstanding := [p.addr i] } := by
        simp only [step, e]
      have := (hall [.alloc false] _ (run_one.trans hs)).large _ (List.mem_singleton_self _)
      rw [hq.blockSize, hround] at this
      exact absurd this (Nat.not_le.mpr hsize)
  · intro hle cs s hr
    rw [if_pos hle] at hround
    obtain ⟨hs, hsame⟩ := good_run hg hr
    have haddrs : s.pool.addr = p.addr := hsame.addr
    have hbytes : s.pool.blockSize = p.blockSize := hsame.blockSize
    have hmem : ∀ b ∈ s.outstanding, ∃ i < p.blockCount.toNat, b = p.addr i := by
      intro b hb
      rw [hs.outstanding.mem_iff, List.mem_map] at hb
      obtain ⟨i, hi, rfl⟩ := hb
      exact ⟨i, hsame.blockCount ▸ (mem_used.mp hi).1, by rw [haddrs]⟩
    refine ⟨?_, fun b hb => ?_, fun b hb => ?_, fun b _ => ?_⟩
    · refine (hs.outstanding.pairwise_iff fun h => Or.symm h).mpr (List.pairwise_map.mpr ?_)
      exact s.pool.used_nodup.imp fun hij => addr_disjoint hij
    · obtain ⟨i, hi, rfl⟩ := hmem b hb
      have := Nat.mul_le_mul_right p.blockSize.toNat (Nat.succ_le_of_lt hi)
      rw [Nat.succ_mul, hcount] at this
      rw [hbytes]
      unfold addr
      omega
    · obtain ⟨i, -, rfl⟩ := hmem b hb
      unfold addr
      rw [haddr]
      exact Nat.dvd_add hal (Nat.dvd_mul_left_of_dvd hround.2 i)
    · rw [hbytes]
      exact hround.1

/-- **The books of a memory pool**: in every state that calls lead to, with any pointers, the results of the next call say
what is outstanding. A call from an interrupt handler is refused. -/
theorem bookkeeping (h : init st size count = .ok p) (hb : p.blockSize ≠ 0) {cs : List Call}
    (hr : run step { pool := p } cs = some s) :
    s.pool.allocated.toNat = s.outstanding.length ∧ s.outstanding.Nodup ∧
    (∀ b, (s.pool.free false b).2 = Code.ok ↔ b ∈ s.outstanding) ∧
    (∀ isr b, (s.pool.free isr b).2 ≠ Code.ok → (s.pool.free isr b).1 = s.pool) ∧
    ((s.pool.alloc false).2 = none ↔ s.outstanding.length = count.toNat) ∧
    (∀ isr b, (s.pool.alloc isr).2 = some b → b ∉ s.outstanding) ∧
    s.pool.alloc true = (s.pool, none) ∧ ∀ b, s.pool.free true b = (s.pool, Code.context) := by
  obtain ⟨hg, -, -, hcount, -⟩ := init_eq_ok h
  obtain ⟨hs, hsame⟩ := good_run hg hr
  have hne : s.pool.blockSize ≠ 0 := hsame.blockSize ▸ hb
  have hlen : s.outstanding.length = s.pool.used.length := by rw [hs.outstanding.length_eq, List.length_map]
  have hinj : ∀ {i j}, s.pool.addr i = s.pool.addr j → i = j := by
    intro i j e
    by_contra hij
    have : 0 < s.pool.blockSize.toNat := Nat.pos_of_ne_zero fun e => hne (BitVec.eq_of_toNat_eq e)
    have := addr_disjoint (p := s.pool) hij
    omega
  have hfree : ∀ b, ((s.pool.free false b).2 = Code.ok ↔ b ∈ s.outstanding) ∧
      ((s.pool.free false b).2 ≠ Code.ok → (s.pool.free false b).1 = s.pool) := by
    intro b
    rcases hs.free_cases b with ⟨c, hc, e, hn⟩ | ⟨q, i, e, -, hb, -, hi, -⟩ <;> rw [e]
    · exact ⟨iff_of_false hc (hn hne), fun _ => rfl⟩
    · refine ⟨iff_of_true rfl ?_, fun hc => absurd rfl hc⟩
      rw [hs.outstanding.mem_iff, hb]
      exact List.mem_map_of_mem hi
  refine ⟨hs.allocated.trans hlen.symm, ?_, fun b => (hfree b).1, fun isr b => ?_, ?_, fun isr b hab => ?_, rfl,
    fun _ => rfl⟩
  · exact hs.outstanding.nodup_iff.mpr (List.Nodup.map (fun _ _ e => hinj e) s.pool.used_nodup)
  · cases isr with
    | true => exact fun _ => rfl
    | false => exact (hfree b).2
  · rw [hlen, ← hcount, ← hsame.blockCount]
    rcases hs.alloc_cases with ⟨q, e, -, -, -, hfull⟩ | ⟨q, i, e, -, hi, hn, -⟩ <;> rw [e]
    · exact iff_of_true rfl hfull
    · refine iff_of_false (by simp) fun hfull => hn (mem_used.mpr ⟨hi, used_length_iff.mp hfull i hi⟩)
  · cases isr with
    | true => cases hab
    | false =>
      rcases hs.alloc_cases with ⟨q, e, -⟩ | ⟨q, i, e, -, hi, hn, -⟩ <;> rw [e] at hab
      · cases hab
      · cases hab
        rw [hs.outstanding.mem_iff, List.mem_map]
        rintro ⟨j, hj, e⟩
        exact hn (hinj e ▸ hj)

end

end Aixos.Mempool

namespace Aixos.Mempool

open Transition

attribute [local instance] TargetConfig.default

/-- 64 bytes. -/
def buffer : Storage := ⟨0x1000, 64, by decide⟩

/-- Four blocks of 13 bytes. -/
def fourBlocks : Mempool where
  storage := 0x1000
  storageSize := 64
  blockSize := 16
  blockCount := 4
  freeBitmap := 0xF

theorem separate_iff_fourBlocks :
    (∀ cs s, run step { pool := fourBlocks } cs = some s → Separate buffer 13 s) ↔ 13 ≤ 2 ^ 32 - 4 := by
  have hp : init buffer 13 4 = .ok fourBlocks := by decide +kernel
  exact separate_iff hp

/-- A request for blocks of 2³² - 1 bytes is granted, and all blocks are the same. -/
theorem blocks_alias : ∃ p s, init buffer (2 ^ 32 - 1) 2 = .ok p ∧
    run step { pool := p } [.alloc false, .alloc false] = some s ∧ s.outstanding = [0x1000, 0x1000] ∧
    p.blockSize = 0 ∧ ¬ Separate buffer (2 ^ 32 - 1) s := by
  obtain ⟨s, hs, ho⟩ := exists_run step { pool := ⟨0x1000, 0, 0, 2, 3, 0, 0, 0⟩ } [.alloc false, .alloc false]
    (fun s => s.outstanding = [0x1000, 0x1000]) (by decide +kernel)
  have ho : s.outstanding = [0x1000, 0x1000] := by simpa using ho
  have hp : init buffer (2 ^ 32 - 1) 2 = .ok ⟨0x1000, 0, 0, 2, 3, 0, 0, 0⟩ := by decide +kernel
  obtain ⟨hg, -⟩ := init_eq_ok hp
  refine ⟨_, s, hp, hs, ho, rfl, fun h => ?_⟩
  have hlarge := h.large 0x1000 (by rw [ho]; exact List.mem_cons_self ..)
  rw [(good_run hg hs).2.blockSize] at hlarge
  simp at hlarge

theorem bookkeeping_once : ∃ s, run step { pool := fourBlocks } [.alloc false, .alloc false, .free false 0x1000] = some s ∧
    s.pool.allocated.toNat = s.outstanding.length ∧ (s.pool.free false 0x1010).2 = Code.ok ∧
    (s.pool.free false 0x1000).2 ≠ Code.ok := by
  obtain ⟨s, hs, ho⟩ := exists_run step { pool := fourBlocks } [.alloc false, .alloc false, .free false 0x1000]
    (fun s => s.outstanding = [0x1010]) (by decide +kernel)
  have ho : s.outstanding = [0x1010] := by simpa using ho
  have hp : init buffer 13 4 = .ok fourBlocks := by decide +kernel
  obtain ⟨hall, -, hfree, -⟩ := bookkeeping hp (by decide) hs
  exact ⟨s, hs, hall, (hfree 0x1010).mpr (by simp [ho]), fun hok => by simpa [ho] using (hfree 0x1000).mp hok⟩

/-- From an interrupt handler there is no block, although none is outstanding. -/
theorem alloc_isr : ∃ p, init buffer 13 4 = .ok p ∧ p.blockSize ≠ 0 ∧ (p.alloc true).2 = none :=
  ⟨fourBlocks, rfl, by decide, rfl⟩

end Aixos.Mempool
