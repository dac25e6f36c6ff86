import Aixos.Heap.Blocks

/-!
# Heaps that are intact

* `Heap.Intact` — the variables of the heap and its memory say that it consists of some blocks.
* `Heap.bestFit_laid`, `Heap.Intact.blocks_eq`, `Heap.Intact.check_eq` — what the loops over the blocks find.
* `Heap.Intact.update` — the heap stays intact if its blocks are replaced by others of the same length.
-/

namespace Aixos

open ByteMemory Block

variable [cfg : HeapConfig]

/-- The headers of blocks from `a` on, with their addresses. -/
def headersFrom : (prev a : ℕ) → List Block → List (ℕ × HeapHdr)
  | _, _, [] => []
  | prev, a, b :: bs =>
    let a' := a + (heapHeaderSize + b.size)
    (a, .ofBlock prev a (first a' 0 bs) b) :: headersFrom a a' bs

namespace Heap

/-- The heap consists of the blocks. -/
structure Intact (h : Heap) (bs : List Block) : Prop where
  laid : Laid h.mem 0 h.heapBegin 0 bs
  first : h.heapFirst = h.heapBegin
  begin_pos : 0 < h.heapBegin
  end_lt : h.heapEnd < 256 ^ cfg.pointerSize
  span_le : h.heapBegin + span heapHeaderSize bs ≤ h.heapEnd
  ne_nil : bs ≠ []
  span_lt : span heapHeaderSize bs < 2 ^ 32 + heapHeaderSize
  coalesced : Coalesced bs
  used : h.currentUsed = BitVec.ofNat 32 (usedSpan heapHeaderSize bs)
  initialized : h.heapInitialized = true
  corruption : h.corruptionCount = 0

/-- From `h` to `h'` the variables stay that say where the heap is and in what state. -/
structure Steady (h h' : Heap) : Prop where
  first_eq : h'.heapFirst = h.heapFirst
  begin_eq : h'.heapBegin = h.heapBegin
  end_eq : h'.heapEnd = h.heapEnd
  initialized : h'.heapInitialized = h.heapInitialized
  corruption : h'.corruptionCount = h.corruptionCount
  locked : h'.runtimeLocked = h.runtimeLocked

/-- What used blocks hold stays. -/
def Kept (m m' : ByteMemory) (us : List Used) : Prop :=
  ∀ u ∈ us, Agree m m' (u.addr + heapHeaderSize) (u.addr + heapHeaderSize + u.size)

variable {h h' h'' : Heap} {m m' m'' : ByteMemory} {prev a next s size p r : ℕ} {b : Block} {bs pre post : List Block}
  {us : List Used}

omit cfg in
theorem Steady.trans (hs : h.Steady h') (hs' : h'.Steady h'') : h.Steady h'' where
  first_eq := hs'.first_eq.trans hs.first_eq
  begin_eq := hs'.begin_eq.trans hs.begin_eq
  end_eq := hs'.end_eq.trans hs.end_eq
  initialized := hs'.initialized.trans hs.initialized
  corruption := hs'.corruption.trans hs.corruption
  locked := hs'.locked.trans hs.locked

/-! ### The checks of headers -/

omit cfg in
theorem ofNat_toNat {n : ℕ} (hn : n < 2 ^ 32) : (BitVec.ofNat 32 n).toNat = n := by
  rw [BitVec.toNat_ofNat, Nat.mod_eq_of_lt hn]

/-- **The header of a block is valid**, wherever it is. -/
theorem headerValid_of_hdr (e : h.hdr a = .ofBlock prev a next b) (hfits : ∀ r, b.request = some r → r + 4 ≤ b.size)
    (hbegin : h.heapBegin ≤ a) (hend : a + (heapHeaderSize + b.size) ≤ h.heapEnd) (hs : b.size < 2 ^ 32) :
    h.headerValid a = true := by
  unfold headerValid
  rw [e]
  dsimp only
  rw [if_neg, if_neg]
  · rintro ⟨hm, hc⟩
    obtain ⟨r, hr⟩ := Option.isSome_iff_exists.mp (HeapHdr.ofBlock_magic_used.mp hm)
    have hf : r + 4 ≤ b.size := hfits r hr
    rw [HeapHdr.ofBlock_size, HeapHdr.ofBlock_requestedSize, hr, Option.getD_some, BitVec.lt_def, BitVec.lt_def,
      BitVec.toNat_add, ofNat_toNat hs, ofNat_toNat (show r < _ by omega),
      show (BitVec.ofNat 32 heapCanarySize).toNat = 4 from rfl] at hc
    omega
  · rw [HeapHdr.ofBlock_size, ofNat_toNat hs]
    rintro (hc | hc | hc | hc | hc)
    · omega
    · omega
    · refine hc.elim fun h₁ h₂ => ?_
      cases hr : b.request with
      | none => exact h₁ (HeapHdr.ofBlock_magic_free.mpr hr)
      | some r => exact h₂ (HeapHdr.ofBlock_magic_used.mpr (by rw [hr]; rfl))
    · omega
    · exact hc rfl

theorem headerValid_of_blockAt (hb : BlockAt h.mem prev a next b) (hbegin : h.heapBegin ≤ a)
    (hend : a + (heapHeaderSize + b.size) ≤ h.heapEnd) (hs : b.size < 2 ^ 32) : h.headerValid a = true :=
  headerValid_of_hdr hb.header hb.fits hbegin hend hs

theorem canaryValid_of_blockAt (hb : BlockAt h.mem prev a next b) (hr : b.request = some r) (hs : b.size < 2 ^ 32) :
    h.canaryValid a = true := by
  have e : h.hdr a = .ofBlock prev a next b := hb.header
  have hf : r + 4 ≤ b.size := hb.fits r hr
  unfold canaryValid
  rw [e, HeapHdr.ofBlock_requestedSize, hr, Option.getD_some, ofNat_toNat (show r < _ by omega), hb.canary r hr]
  exact beq_self_eq_true _

/-! ### The loops -/

/-- The variables that the loops depend on. -/
structure Bounds (h : Heap) (a : ℕ) (bs : List Block) : Prop where
  pos : 0 < a
  ge : h.heapBegin ≤ a
  le : a + span heapHeaderSize bs ≤ h.heapEnd
  size_lt : ∀ b ∈ bs, b.size < 2 ^ 32

theorem Bounds.tail (hb : h.Bounds a (b :: bs)) : h.Bounds (a + (heapHeaderSize + b.size)) bs := by
  obtain ⟨h₁, h₂, h₃, h₄⟩ := hb
  rw [span_cons] at h₃
  exact ⟨by omega, by omega, by omega, fun c hc => h₄ c (List.mem_cons_of_mem b hc)⟩

theorem Bounds.headerValid (hb : h.Bounds a (b :: bs)) (hl : BlockAt h.mem prev a next b) : h.headerValid a = true := by
  have hle := hb.le
  rw [span_cons] at hle
  exact headerValid_of_blockAt hl hb.ge (by omega) (hb.size_lt b (List.mem_cons_self ..))

theorem walk_laid {fuel : ℕ} (hl : Laid h.mem prev a 0 bs) (hb : h.Bounds a bs) (hfuel : bs.length < fuel) :
    h.walk fuel (Block.first a 0 bs) = some (headersFrom prev a bs) := by
  induction bs generalizing prev a fuel with
  | nil =>
    obtain ⟨fuel, rfl⟩ := Nat.exists_eq_succ_of_ne_zero (Nat.ne_of_gt hfuel)
    rfl
  | cons b bs ih =>
    obtain ⟨fuel, rfl⟩ := Nat.exists_eq_succ_of_ne_zero (show fuel ≠ 0 by omega)
    have e : h.hdr a = .ofBlock prev a _ b := hl.1.header
    have hpos := hb.pos
    rw [first_cons, walk, if_neg (by omega), e, HeapHdr.ofBlock_next,
      ih hl.2 hb.tail (by rw [List.length_cons] at hfuel; omega)]
    rfl

theorem checkLoop_laid {fuel : ℕ} (hl : Laid h.mem prev a 0 bs) (hb : h.Bounds a bs) (hfuel : bs.length < fuel) :
    h.checkLoop fuel (Block.first a 0 bs) prev = some true := by
  induction bs generalizing prev a fuel with
  | nil =>
    obtain ⟨fuel, rfl⟩ := Nat.exists_eq_succ_of_ne_zero (Nat.ne_of_gt hfuel)
    rfl
  | cons b bs ih =>
    obtain ⟨fuel, rfl⟩ := Nat.exists_eq_succ_of_ne_zero (show fuel ≠ 0 by omega)
    have e : h.hdr a = .ofBlock prev a _ b := hl.1.header
    have hpos := hb.pos
    have hs := hb.size_lt b (List.mem_cons_self ..)
    have hv := hb.headerValid hl.1
    rw [first_cons, checkLoop, if_neg (by omega)]
    dsimp only
    rw [e, HeapHdr.ofBlock_next, HeapHdr.ofBlock_prev, HeapHdr.ofBlock_size, ofNat_toNat hs, if_neg, if_neg,
      ih hl.2 hb.tail (by rw [List.length_cons] at hfuel; omega)]
    · rintro ⟨hne, hgap⟩
      cases bs with
      | nil => exact hne rfl
      | cons c bs =>
        rw [first_cons] at hgap
        omega
    · rintro (hc | hc | ⟨hm, hc⟩)
      · rw [hv] at hc
        cases hc
      · exact hc rfl
      · obtain ⟨r, hr⟩ := Option.isSome_iff_exists.mp (HeapHdr.ofBlock_magic_used.mp hm)
        rw [canaryValid_of_blockAt hl.1 hr hs] at hc
        cases hc

/-- **The best-fit search** ends with what it began with, and nothing fits better, or with a free block that fits. -/
theorem bestFit_laid {fuel p r n : ℕ} (hl : Laid h.mem prev a 0 bs) (hb : h.Bounds a bs) (hfuel : bs.length < fuel) :
    ∃ best' remain', h.bestFit n fuel (Block.first a 0 bs) p r = some (.found best' remain') ∧
      ((best' = p ∧ remain' = r ∧ ∀ s, Block.free s ∈ bs → n ≤ s → r ≤ s - n) ∨
        ∃ pre s post, bs = pre ++ Block.free s :: post ∧ n ≤ s ∧ best' = a + span heapHeaderSize pre ∧
          remain' = s - n) := by
  induction bs generalizing prev a fuel p r with
  | nil =>
    obtain ⟨fuel, rfl⟩ := Nat.exists_eq_succ_of_ne_zero (Nat.ne_of_gt hfuel)
    exact ⟨p, r, rfl, .inl ⟨rfl, rfl, fun s hs => absurd hs List.not_mem_nil⟩⟩
  | cons b bs ih =>
    obtain ⟨fuel, rfl⟩ := Nat.exists_eq_succ_of_ne_zero (show fuel ≠ 0 by omega)
    have e : h.hdr a = .ofBlock prev a _ b := hl.1.header
    have hpos := hb.pos
    have hs := hb.size_lt b (List.mem_cons_self ..)
    have hv := hb.headerValid hl.1
    have hf : bs.length < fuel := by rw [List.length_cons] at hfuel; omega
    rw [first_cons, bestFit, if_neg (by omega), hv, if_neg (by decide)]
    dsimp only
    rw [e, HeapHdr.ofBlock_next, HeapHdr.ofBlock_size, ofNat_toNat hs]
    -- What is found behind `b` is found.
    have behind {best' remain' : ℕ} : (∃ pre s post, bs = pre ++ Block.free s :: post ∧ n ≤ s ∧
        best' = a + (heapHeaderSize + b.size) + span heapHeaderSize pre ∧ remain' = s - n) →
        ∃ pre s post, b :: bs = pre ++ Block.free s :: post ∧ n ≤ s ∧ best' = a + span heapHeaderSize pre ∧
          remain' = s - n := by
      rintro ⟨pre, s, post, rfl, hn, rfl, hr⟩
      exact ⟨b :: pre, s, post, rfl, hn, by rw [span_cons, Nat.add_assoc a], hr⟩
    by_cases hm : b.request = none
    · rw [if_neg (not_not.mpr (HeapHdr.ofBlock_magic_free.mpr hm))]
      have hfree : b = Block.free b.size := by
        obtain ⟨t, q⟩ := b
        rw [show q = none from hm]
      by_cases hfit : n ≤ b.size ∧ b.size - n < r
      · rw [if_pos hfit]
        obtain ⟨best', remain', hf, ⟨rfl, rfl, -⟩ | hr⟩ := ih (p := a) (r := b.size - n) hl.2 hb.tail hf
        · refine ⟨_, _, hf, .inr ⟨[], b.size, bs, by rw [← hfree]; rfl, hfit.1, rfl, rfl⟩⟩
        · exact ⟨_, _, hf, .inr (behind hr)⟩
      · rw [if_neg hfit]
        obtain ⟨best', remain', hf, ⟨rfl, rfl, hno⟩ | hr⟩ := ih hl.2 hb.tail hf
        · refine ⟨_, _, hf, .inl ⟨rfl, rfl, fun s hs hle => ?_⟩⟩
          rcases List.mem_cons.mp hs with rfl | hs
          · exact not_lt.mp fun hlt => hfit ⟨hle, hlt⟩
          · exact hno s hs hle
        · exact ⟨_, _, hf, .inr (behind hr)⟩
    · rw [if_pos (fun hc => hm (HeapHdr.ofBlock_magic_free.mp hc))]
      obtain ⟨best', remain', hf, ⟨rfl, rfl, hno⟩ | hr⟩ := ih hl.2 hb.tail hf
      · refine ⟨_, _, hf, .inl ⟨rfl, rfl, fun s hs hle => ?_⟩⟩
        rcases List.mem_cons.mp hs with rfl | hs
        · exact absurd rfl hm
        · exact hno s hs hle
      · exact ⟨_, _, hf, .inr (behind hr)⟩

namespace Intact

theorem bounds (hi : h.Intact bs) : h.Bounds h.heapBegin bs :=
  ⟨hi.begin_pos, le_rfl, hi.span_le, fun b hb => by
    have := size_le_span (H := heapHeaderSize) hb
    have := hi.span_lt
    omega⟩

theorem length_lt (hi : h.Intact bs) : bs.length < h.rounds := by
  have hH := heapHeaderSize_ge
  have : bs.length ≤ span heapHeaderSize bs := length_le_span (by omega)
  have := hi.span_le
  unfold rounds
  omega

theorem first_eq (hi : h.Intact bs) : h.heapFirst = Block.first h.heapBegin 0 bs := by
  rw [hi.first]
  cases bs with
  | nil => exact absurd rfl hi.ne_nil
  | cons b bs => rfl

/-- The list of blocks. -/
theorem blocks_eq (hi : h.Intact bs) : h.blocks = some (headersFrom 0 h.heapBegin bs) := by
  rw [blocks, hi.first_eq]
  exact walk_laid hi.laid hi.bounds hi.length_lt

/-- `aixos_heap_check` finds nothing. -/
theorem check_eq (hi : h.Intact bs) : h.check = some (h, Code.ok) := by
  rw [check, hi.initialized, if_neg (by decide), hi.first_eq, checkLoop_laid hi.laid hi.bounds hi.length_lt]
  rfl

/-- The blocks have changed, and the variables that say where they are have not. -/
theorem update {cs : List Block} (hi : h.Intact bs) (hs : h.Steady h') (hl : Laid h'.mem 0 h.heapBegin 0 cs)
    (hspan : span heapHeaderSize cs = span heapHeaderSize bs) (hne : cs ≠ []) (hc : Coalesced cs)
    (hu : h'.currentUsed = BitVec.ofNat 32 (usedSpan heapHeaderSize cs)) : h'.Intact cs where
  laid := by rw [hs.begin_eq]; exact hl
  first := by rw [hs.first_eq, hs.begin_eq]; exact hi.first
  begin_pos := by rw [hs.begin_eq]; exact hi.begin_pos
  end_lt := by rw [hs.end_eq]; exact hi.end_lt
  span_le := by rw [hs.begin_eq, hs.end_eq, hspan]; exact hi.span_le
  ne_nil := hne
  span_lt := by rw [hspan]; exact hi.span_lt
  coalesced := hc
  used := hu
  initialized := by rw [hs.initialized]; exact hi.initialized
  corruption := by rw [hs.corruption]; exact hi.corruption

/-- Only the counters of calls have changed. -/
theorem congr (hi : h.Intact bs) (hs : h.Steady h') (hm : h'.mem = h.mem) (hu : h'.currentUsed = h.currentUsed) :
    h'.Intact bs :=
  hi.update hs (by rw [hm]; exact hi.laid) rfl hi.ne_nil hi.coalesced (by rw [hu]; exact hi.used)

end Intact

end Heap

end Aixos
