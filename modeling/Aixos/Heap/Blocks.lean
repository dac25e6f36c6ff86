import Aixos.Heap.Layout

/-!
# What the steps of the functions do to the blocks

A request is placed in a free block by `splitBlock` and `takeBlock` (`laid_splitBlock`, `blockAt_takeBlock`); a block
that is freed is merged with the block behind it by `coalesceNext` and with the block before it by `coalescePrev`
(`laid_coalesceNext`, `laid_coalescePrev`). Each lemma says how the blocks lie afterwards and between which addresses
memory has changed. All four write to memory only.
-/

namespace Aixos

open ByteMemory Block

variable [cfg : HeapConfig]

namespace HeapHdr

variable {prev a next : ℕ} {b : Block}

@[simp] theorem ofBlock_next : (ofBlock prev a next b).next = next := rfl

@[simp] theorem ofBlock_prev : (ofBlock prev a next b).prev = prev := rfl

@[simp] theorem ofBlock_size : (ofBlock prev a next b).size = BitVec.ofNat 32 b.size := rfl

@[simp] theorem ofBlock_requestedSize :
    (ofBlock prev a next b).requestedSize = BitVec.ofNat 32 (b.request.getD 0) := rfl

theorem ofBlock_magic_free : (ofBlock prev a next b).magic = heapMagicFree ↔ b.request = none := by
  show (if b.request.isSome then heapMagicUsed else heapMagicFree) = _ ↔ _
  cases b.request with
  | none => exact iff_of_true rfl rfl
  | some r => exact iff_of_false (show heapMagicUsed ≠ heapMagicFree by decide) (by simp)

theorem ofBlock_magic_used : (ofBlock prev a next b).magic = heapMagicUsed ↔ b.request.isSome := by
  show (if b.request.isSome then heapMagicUsed else heapMagicFree) = _ ↔ _
  cases b.request with
  | none => exact iff_of_false (show heapMagicFree ≠ heapMagicUsed by decide) (by simp)
  | some r => exact iff_of_true rfl rfl

end HeapHdr

namespace Heap

variable {h h' : Heap} {prev a next s size p r : ℕ} {g : Word} {b : Block} {bs pre post : List Block}

/-- The block at `next`, if there is one, has the block at `p` before it. -/
def relinkNext (h : Heap) (next p : ℕ) : Heap :=
  if next ≠ 0 then (h.setHdr next fun b => { b with prev := p }).guardHdr next else h

omit cfg in
theorem first_zero_le : first a 0 bs ≤ a := by
  cases bs with
  | nil => exact Nat.zero_le a
  | cons b bs => exact le_rfl

/-- What is written to behind the beginning of some blocks when they are relinked: their first header. -/
def relinked (bs : List Block) : ℕ := if bs.isEmpty then 0 else heapHeaderSize

theorem relinked_le : relinked bs ≤ heapHeaderSize := by
  unfold relinked
  split <;> omega

theorem relinked_le_span : relinked bs ≤ span heapHeaderSize bs := by
  cases bs with
  | nil => exact le_rfl
  | cons b bs =>
    rw [span_cons]
    exact Nat.le_trans (Nat.le_add_right _ _) (Nat.le_add_right _ _)

theorem laid_relinkNext (hl : Laid h.mem prev a 0 bs) (ha : 0 < a) (hp : p < 256 ^ cfg.pointerSize)
    (hend : a + span heapHeaderSize bs < 256 ^ cfg.pointerSize) :
    Laid (h.relinkNext (first a 0 bs) p).mem p a 0 bs ∧
      Within h.mem (h.relinkNext (first a 0 bs) p).mem a (a + relinked bs) := by
  cases bs with
  | nil => exact ⟨trivial, fun _ _ => rfl⟩
  | cons b bs =>
    obtain ⟨hb, hl⟩ := hl
    rw [first_cons, relinkNext, if_pos (by omega)]
    rw [span_cons] at hend
    have hn : first (a + (heapHeaderSize + b.size)) 0 bs < 256 ^ cfg.pointerSize :=
      Nat.lt_of_le_of_lt first_zero_le (by omega)
    have e₀ : h.hdr a = .ofBlock prev a _ b := hb.header
    have e₁ : (h.setHdr a fun b => { b with prev := p }).hdr a = { h.hdr a with prev := p } :=
      hdr_setHdr (by rw [e₀]; exact hn) hp
    have e₂ : ((h.setHdr a fun b => { b with prev := p }).guardHdr a).hdr a =
        .ofBlock p a (first (a + (heapHeaderSize + b.size)) 0 bs) b := by
      rw [hdr_guardHdr (by rw [e₁, e₀]; exact hn) (by rw [e₁]; exact hp), e₁, e₀]
      rfl
    have hw : Within h.mem ((h.setHdr a fun b => { b with prev := p }).guardHdr a).mem a (a + heapHeaderSize) :=
      within_setHdr.trans within_guardHdr
    refine ⟨⟨hb.relink e₂ (hw.agree (.inr le_rfl)), hl.congr (hw.agree (.inr ?_))⟩, hw⟩
    omega

/-! ### Placing -/

/-- The canary goes behind what has been requested. -/
theorem within_writeCanary : Within h.mem (h.writeCanary a).mem (a + heapHeaderSize + (h.hdr a).requestedSize.toNat)
    (a + heapHeaderSize + (h.hdr a).requestedSize.toNat + heapCanarySize) :=
  Within.store le_rfl (by rw [length_le])

theorem load_writeCanary : ofLe ((h.writeCanary a).mem.load (a + heapHeaderSize + (h.hdr a).requestedSize.toNat)
    heapCanarySize) = (canary a).toNat := by
  have e := load_store h.mem (a + heapHeaderSize + (h.hdr a).requestedSize.toNat) (le heapCanarySize (canary a).toNat)
  rw [length_le] at e
  show ofLe (ByteMemory.load (h.mem.store _ _) _ _) = _
  rw [e]
  exact ofLe_le (canary a).isLt

/-- **A free block is taken**: it is used for the request, and has its canary. -/
theorem blockAt_takeBlock (e : h.hdr a = { HeapHdr.ofBlock prev a next (Block.free s) with headerGuard := g })
    (hr : r + heapCanarySize ≤ s) (hs : s < 2 ^ 32) (ha : 8 ∣ a) (hn : next < 256 ^ cfg.pointerSize)
    (hp : prev < 256 ^ cfg.pointerSize) :
    BlockAt (h.takeBlock a r).1.mem prev a next { size := s, request := some r } ∧
      Within h.mem (h.takeBlock a r).1.mem a (a + (heapHeaderSize + s)) ∧
      (h.takeBlock a r).1.currentUsed = h.currentUsed + BitVec.ofNat 32 (s + heapHeaderSize) := by
  let h₁ := h.setHdr a fun b => { b with magic := heapMagicUsed, requestedSize := BitVec.ofNat 32 r }
  let h₂ := h₁.guardHdr a
  let h₃ := h₂.writeCanary a
  let h₄ : Heap := { h₃ with mem := h₃.mem.store (a + heapHeaderSize) (List.replicate (h₃.hdr a).requestedSize.toNat 0xCC) }
  let h₅ := h₄.writeCanary a
  have hcs : heapCanarySize = 4 := rfl
  have e₁ : h₁.hdr a = { h.hdr a with magic := heapMagicUsed, requestedSize := BitVec.ofNat 32 r } :=
    hdr_setHdr (by rw [e]; exact hn) (by rw [e]; exact hp)
  have e₂ : h₂.hdr a = .ofBlock prev a next { size := s, request := some r } := by
    rw [hdr_guardHdr (by rw [e₁, e]; exact hn) (by rw [e₁, e]; exact hp), e₁, e]
    rfl
  have hreq : (BitVec.ofNat 32 r).toNat = r := by
    rw [BitVec.toNat_ofNat, Nat.mod_eq_of_lt (by omega)]
  -- The header is not written to any more.
  have w₃ : Within h₂.mem h₃.mem (a + heapHeaderSize + r) (a + heapHeaderSize + r + heapCanarySize) := by
    have w := within_writeCanary (h := h₂) (a := a)
    rwa [e₂, HeapHdr.ofBlock_requestedSize, Option.getD_some, hreq] at w
  have e₃ : h₃.hdr a = h₂.hdr a := hdr_congr (w₃.agree (.inl (by omega)))
  have hreq₃ : (h₃.hdr a).requestedSize.toNat = r := by
    rw [e₃, e₂]
    exact hreq
  have w₄ : Within h₃.mem h₄.mem (a + heapHeaderSize) (a + heapHeaderSize + r) :=
    Within.store le_rfl (by rw [List.length_replicate, hreq₃])
  have e₄ : h₄.hdr a = h₂.hdr a := (hdr_congr (w₄.agree (.inl le_rfl))).trans e₃
  have hreq₄ : (h₄.hdr a).requestedSize.toNat = r := by
    rw [e₄, e₂]
    exact hreq
  have w₅ : Within h₄.mem h₅.mem (a + heapHeaderSize + r) (a + heapHeaderSize + r + heapCanarySize) := by
    have w := within_writeCanary (h := h₄) (a := a)
    rwa [hreq₄] at w
  have e₅ : h₅.hdr a = h₂.hdr a := (hdr_congr (w₅.agree (.inl (by omega)))).trans e₄
  have emem : (h.takeBlock a r).1.mem = h₅.mem := rfl
  refine ⟨⟨?_, ?_, ?_, ha⟩, ?_, ?_⟩
  · rw [emem]
    exact e₅.trans e₂
  · rintro _ ⟨⟩
    exact hr
  · rintro _ ⟨⟩
    have c := load_writeCanary (h := h₄) (a := a)
    rwa [hreq₄] at c
  · rw [emem]
    have w₂ : Within h.mem h₂.mem a (a + (heapHeaderSize + s)) :=
      (within_setHdr.trans within_guardHdr).mono le_rfl (by omega)
    exact ((w₂.trans (w₃.mono (by omega) (by omega))).trans (w₄.mono (by omega) (by omega))).trans
      (w₅.mono (by omega) (by omega))
  · show h.currentUsed + BitVec.ofNat 32 ((h₃.hdr a).size.toNat + heapHeaderSize) = _
    rw [e₃, e₂, HeapHdr.ofBlock_size, BitVec.toNat_ofNat, Nat.mod_eq_of_lt hs]

/-- **A free block is split**: its header says so, but for the guard, and there is a free block behind it. -/
theorem laid_splitBlock (e : h.hdr a = .ofBlock prev a (first (a + (heapHeaderSize + s)) 0 post) (Block.free s))
    (hl : Laid h.mem a (a + (heapHeaderSize + s)) 0 post) (hsize : size + heapHeaderSize ≤ s) (ha : 8 ∣ a)
    (h8 : 8 ∣ size) (hp : prev < 256 ^ cfg.pointerSize)
    (hend : a + (heapHeaderSize + s) + span heapHeaderSize post < 256 ^ cfg.pointerSize) :
    (∃ g, (h.splitBlock a (s - size) size).hdr a =
        { HeapHdr.ofBlock prev a (a + (heapHeaderSize + size)) (Block.free size) with headerGuard := g }) ∧
      Laid (h.splitBlock a (s - size) size).mem a (a + (heapHeaderSize + size)) 0
        (Block.free (s - size - heapHeaderSize) :: post) ∧
      Within h.mem (h.splitBlock a (s - size) size).mem a (a + (heapHeaderSize + s) + relinked post) := by
  obtain ⟨n, hn⟩ : ∃ n, n = a + (heapHeaderSize + size) := ⟨_, rfl⟩
  obtain ⟨next, hnext⟩ : ∃ x, x = first (a + (heapHeaderSize + s)) 0 post := ⟨_, rfl⟩
  have hnend : n < 256 ^ cfg.pointerSize := by omega
  have hnextend : next < 256 ^ cfg.pointerSize := by
    have : first (a + (heapHeaderSize + s)) 0 post ≤ a + (heapHeaderSize + s) := first_zero_le
    omega
  rw [← hnext] at e
  let b₁ : HeapHdr :=
    { magic := heapMagicFree, reserved := 0, size := BitVec.ofNat 32 (s - size - heapHeaderSize), requestedSize := 0,
      headerGuard := 0, next := next, prev := a }
  let h₁ := h.setHdr n fun _ => b₁
  let h₂ := h₁.relinkNext next n
  let h₃ := h₂.setHdr a fun b => { b with next := n, size := BitVec.ofNat 32 size }
  let h₄ := h₃.guardHdr n
  have eh : h.splitBlock a (s - size) size = h₄ := by
    unfold splitBlock
    rw [e, HeapHdr.ofBlock_next, Nat.add_assoc a, ← hn]
    rfl
  have e₁ : h₁.hdr n = b₁ := hdr_setHdr hnextend (show a < _ by omega)
  have e₁a : h₁.hdr a = h.hdr a := hdr_setHdr_of_apart (.inl (by omega))
  have w₁ : Within h.mem h₁.mem n (n + heapHeaderSize) := within_setHdr
  have l₁ : Laid h₁.mem a (a + (heapHeaderSize + s)) 0 post := hl.congr (w₁.agree (.inr (by omega)))
  obtain ⟨l₂, w₂⟩ := laid_relinkNext l₁ (by have := heapHeaderSize_ge; omega) hnend hend
  rw [← hnext] at l₂ w₂
  have e₂ : h₂.hdr n = b₁ := (hdr_congr (w₂.agree (.inl (by omega)))).trans e₁
  have e₂a : h₂.hdr a = h.hdr a := (hdr_congr (w₂.agree (.inl (by omega)))).trans e₁a
  have w₃ : Within h₂.mem h₃.mem a (a + heapHeaderSize) := within_setHdr
  have e₃ : h₃.hdr n = b₁ := (hdr_setHdr_of_apart (.inr (by omega))).trans e₂
  have e₃a : h₃.hdr a = { h.hdr a with next := n, size := BitVec.ofNat 32 size } := by
    rw [← e₂a]
    exact hdr_setHdr hnend (by rw [e₂a, e]; exact hp)
  have w₄ : Within h₃.mem h₄.mem n (n + heapHeaderSize) := within_guardHdr
  have e₄ : h₄.hdr n = .ofBlock a n next (Block.free (s - size - heapHeaderSize)) := by
    rw [hdr_guardHdr (by rw [e₃]; exact hnextend) (by rw [e₃]; show a < _; omega), e₃]
    rfl
  have e₄a : h₄.hdr a = h₃.hdr a := hdr_guardHdr_of_apart (.inl (by omega))
  have w₃₄ : Within h₂.mem h₄.mem a (a + (heapHeaderSize + s)) :=
    (w₃.mono le_rfl (by omega)).trans (w₄.mono (by omega) (by omega))
  have hbehind : n + (heapHeaderSize + (s - size - heapHeaderSize)) = a + (heapHeaderSize + s) := by omega
  rw [eh, ← hn]
  refine ⟨⟨_, e₄a.trans (e₃a.trans (by rw [e]; rfl))⟩, ⟨⟨?_, ?_, ?_, ?_⟩, ?_⟩, ?_⟩
  · rw [hbehind, ← hnext]
    exact e₄
  · rintro _ ⟨⟩
  · rintro _ ⟨⟩
  · have := heapHeaderSize_dvd
    omega
  · rw [hbehind]
    exact l₂.congr (w₃₄.agree (.inr le_rfl))
  · exact ((w₁.mono (by omega) (by omega)).trans (w₂.mono (by omega) le_rfl)).trans (w₃₄.mono le_rfl (by omega))

/-! ### Freeing -/

/-- **The block behind a free block** becomes part of it, if it is free. The guard of the header is not up to date. -/
theorem laid_coalesceNext
    (e : h.hdr a = { HeapHdr.ofBlock prev a (first (a + (heapHeaderSize + s)) 0 post) (Block.free s) with headerGuard := g })
    (hl : Laid h.mem a (a + (heapHeaderSize + s)) 0 post) (hp : prev < 256 ^ cfg.pointerSize)
    (hend : a + (heapHeaderSize + s) + span heapHeaderSize post < 256 ^ cfg.pointerSize) :
    ∃ s' post', mergeNext heapHeaderSize s post = Block.free s' :: post' ∧ (h.coalesceNext a).hdr a =
        { HeapHdr.ofBlock prev a (first (a + (heapHeaderSize + s')) 0 post') (Block.free s') with headerGuard := g } ∧
      Laid (h.coalesceNext a).mem a (a + (heapHeaderSize + s')) 0 post' ∧
      Within h.mem (h.coalesceNext a).mem a (a + (heapHeaderSize + s') + relinked post') := by
  have hH := heapHeaderSize_ge
  rcases post with _ | ⟨⟨t, _ | r⟩, post⟩
  · refine ⟨s, [], rfl, ?_⟩
    have eh : h.coalesceNext a = h := by
      unfold coalesceNext
      rw [e]
      exact if_neg fun c => c.1 rfl
    rw [eh]
    exact ⟨e, hl, Within.refl _ _ _⟩
  · -- The block behind is free.
    obtain ⟨hb, hl⟩ := hl
    obtain ⟨n, hn⟩ : ∃ n, n = a + (heapHeaderSize + s) := ⟨_, rfl⟩
    rw [first_cons, ← hn] at e
    rw [← hn] at hb hl hend
    obtain ⟨nn, hnn⟩ : ∃ x, x = first (n + (heapHeaderSize + t)) 0 post := ⟨_, rfl⟩
    have en : h.hdr n = .ofBlock a n nn (Block.free t) := by
      rw [hnn]
      exact hb.header
    rw [span_cons] at hend
    dsimp only at hend
    have hnend : nn < 256 ^ cfg.pointerSize := by
      have : first (n + (heapHeaderSize + t)) 0 post ≤ n + (heapHeaderSize + t) := first_zero_le
      omega
    let h₁ := h.setHdr a fun b => { b with size := b.size + (BitVec.ofNat 32 heapHeaderSize + (h.hdr n).size) }
    let h₂ := h₁.setHdr a fun b => { b with next := (h₁.hdr n).next }
    have hsum : BitVec.ofNat 32 s + (BitVec.ofNat 32 heapHeaderSize + BitVec.ofNat 32 t) =
        BitVec.ofNat 32 (s + (heapHeaderSize + t)) := by
      rw [BitVec.ofNat_add, BitVec.ofNat_add]
    have e₁ : h₁.hdr a = { h.hdr a with size := BitVec.ofNat 32 (s + (heapHeaderSize + t)) } := by
      rw [hdr_setHdr (by rw [e]; show n < _; omega) (by rw [e]; exact hp), en, e, ← hsum]
      rfl
    have e₁n : h₁.hdr n = h.hdr n := hdr_setHdr_of_apart (.inr (by omega))
    have e₂ : h₂.hdr a = { h.hdr a with size := BitVec.ofNat 32 (s + (heapHeaderSize + t)), next := nn } := by
      have e' : h₂.hdr a = { h₁.hdr a with next := (h₁.hdr n).next } :=
        hdr_setHdr (by rw [e₁n, en]; exact hnend) (by rw [e₁, e]; exact hp)
      rw [e', e₁, e₁n, en]
      rfl
    have w₂ : Within h.mem h₂.mem a (a + heapHeaderSize) := within_setHdr.trans within_setHdr
    have hbehind : a + (heapHeaderSize + (s + (heapHeaderSize + t))) = n + (heapHeaderSize + t) := by omega
    have l₂ : Laid h₂.mem n (n + (heapHeaderSize + t)) 0 post := hl.congr (w₂.agree (.inr (by omega)))
    obtain ⟨l₃, w₃⟩ := laid_relinkNext (p := a) l₂ (by omega) (by omega) (by omega)
    rw [← hnn] at l₃ w₃
    have eh : h.coalesceNext a = h₂.relinkNext nn a := by
      unfold coalesceNext
      have hnext : (h.hdr a).next = n := by rw [e]; rfl
      rw [hnext]
      dsimp only
      rw [if_pos ⟨by omega, by rw [en]; exact HeapHdr.ofBlock_magic_free.mpr rfl⟩]
      show (if (h₂.hdr a).next ≠ 0 then _ else _) = _
      rw [e₂]
      rfl
    rw [eh]
    refine ⟨s + (heapHeaderSize + t), post, rfl, ?_, ?_, ?_⟩
    · rw [hdr_congr (w₃.agree (.inl (by omega))), e₂, e, hbehind, ← hnn]
      rfl
    · rw [hbehind]
      exact l₃
    · rw [hbehind]
      exact (w₂.mono le_rfl (by omega)).trans (w₃.mono (by omega) le_rfl)
  · refine ⟨s, _, rfl, ?_⟩
    have eb : h.hdr (a + (heapHeaderSize + s)) = _ := hl.1.header
    have eh : h.coalesceNext a = h := by
      unfold coalesceNext
      rw [e]
      refine if_neg fun c => ?_
      have hm : (h.hdr (a + (heapHeaderSize + s))).magic = heapMagicFree := c.2
      rw [eb, HeapHdr.ofBlock_magic_free] at hm
      cases hm
    rw [eh]
    exact ⟨e, hl, Within.refl _ _ _⟩

/-- The guard of a free block is brought up to date. -/
theorem laid_guardHdr (lpre : Laid h.mem 0 prev a pre) (ha : prev + span heapHeaderSize pre = a)
    (e : h.hdr a = { HeapHdr.ofBlock (last heapHeaderSize 0 prev pre) a (first (a + (heapHeaderSize + s)) 0 post)
      (Block.free s) with headerGuard := g })
    (hl : Laid h.mem a (a + (heapHeaderSize + s)) 0 post) (h8 : 8 ∣ a)
    (hend : a + (heapHeaderSize + s) + span heapHeaderSize post < 256 ^ cfg.pointerSize)
    (hp : last heapHeaderSize 0 prev pre < 256 ^ cfg.pointerSize) :
    Laid (h.guardHdr a).mem 0 prev 0 (pre ++ Block.free s :: post) ∧
      Within h.mem (h.guardHdr a).mem a (a + heapHeaderSize) := by
  have w : Within h.mem (h.guardHdr a).mem a (a + heapHeaderSize) := within_guardHdr
  have hnext : first (a + (heapHeaderSize + s)) 0 post < 256 ^ cfg.pointerSize := by
    have : first (a + (heapHeaderSize + s)) 0 post ≤ a + (heapHeaderSize + s) := first_zero_le
    omega
  have eg : (h.guardHdr a).hdr a = .ofBlock (last heapHeaderSize 0 prev pre) a (first (a + (heapHeaderSize + s)) 0 post)
      (Block.free s) := by
    rw [hdr_guardHdr (by rw [e]; exact hnext) (by rw [e]; exact hp), e]
    rfl
  refine ⟨laid_append.mpr ⟨?_, ?_⟩, w⟩
  · rw [ha, first_cons]
    exact lpre.congr (w.agree (.inl ha.le))
  · rw [ha]
    refine ⟨⟨eg, ?_, ?_, h8⟩, hl.congr (w.agree (.inr (by omega)))⟩
    · rintro _ ⟨⟩
    · rintro _ ⟨⟩

/-- The block before a free block is free, and takes it up. Its guard is not up to date at first. -/
theorem coalescePrev_free {pp q t : ℕ} (eq : h.hdr q = .ofBlock pp q a (Block.free t))
    (e : h.hdr a = { HeapHdr.ofBlock q a (first (a + (heapHeaderSize + s)) 0 post) (Block.free s) with headerGuard := g })
    (hl : Laid h.mem a (a + (heapHeaderSize + s)) 0 post) (haq : a = q + (heapHeaderSize + t)) (hq : 0 < q)
    (hpp : pp < 256 ^ cfg.pointerSize)
    (hend : a + (heapHeaderSize + s) + span heapHeaderSize post < 256 ^ cfg.pointerSize) :
    ∃ (h₃ : Heap) (g' : Word), h.coalescePrev a = h₃.guardHdr q ∧
      h₃.hdr q = { HeapHdr.ofBlock pp q (first (a + (heapHeaderSize + s)) 0 post)
        (Block.free (t + (heapHeaderSize + s))) with headerGuard := g' } ∧
      Laid h₃.mem q (a + (heapHeaderSize + s)) 0 post ∧
      Within h.mem h₃.mem q (a + (heapHeaderSize + s) + relinked post) ∧ h₃.hdr a = h.hdr a := by
  have hH := heapHeaderSize_ge
  have hnend : first (a + (heapHeaderSize + s)) 0 post < 256 ^ cfg.pointerSize := by
    have : first (a + (heapHeaderSize + s)) 0 post ≤ a + (heapHeaderSize + s) := first_zero_le
    omega
  let h₁ := h.setHdr q fun b => { b with size := b.size + (BitVec.ofNat 32 heapHeaderSize + (h.hdr a).size) }
  let h₂ := h₁.setHdr q fun b => { b with next := (h₁.hdr a).next }
  have hsum : BitVec.ofNat 32 t + (BitVec.ofNat 32 heapHeaderSize + BitVec.ofNat 32 s) =
      BitVec.ofNat 32 (t + (heapHeaderSize + s)) := by
    rw [BitVec.ofNat_add, BitVec.ofNat_add]
  have e₁ : h₁.hdr q = { h.hdr q with size := BitVec.ofNat 32 (t + (heapHeaderSize + s)) } := by
    rw [hdr_setHdr (by rw [eq]; show a < _; omega) (by rw [eq]; exact hpp), e, eq, ← hsum]
    rfl
  have e₁a : h₁.hdr a = h.hdr a := hdr_setHdr_of_apart (.inr (by omega))
  have e₂ : h₂.hdr q = { h₁.hdr q with next := (h₁.hdr a).next } :=
    hdr_setHdr (by rw [e₁a, e]; exact hnend) (by rw [e₁, eq]; exact hpp)
  have e₂a : h₂.hdr a = h.hdr a := (hdr_setHdr_of_apart (.inr (by omega))).trans e₁a
  have w₂ : Within h.mem h₂.mem q (q + heapHeaderSize) := within_setHdr.trans within_setHdr
  have l₂ : Laid h₂.mem a (a + (heapHeaderSize + s)) 0 post := hl.congr (w₂.agree (.inr (by omega)))
  obtain ⟨l₃, w₃⟩ := laid_relinkNext (p := q) l₂ (by omega) (by omega) hend
  have hprev : (h.hdr a).prev = q := by rw [e]; rfl
  have hnext : (h₂.hdr a).next = first (a + (heapHeaderSize + s)) 0 post := by rw [e₂a, e]; rfl
  refine ⟨h₂.relinkNext (h₂.hdr a).next q, (h.hdr q).headerGuard, ?_, ?_, by rw [hnext]; exact l₃, ?_, ?_⟩
  · unfold coalescePrev
    rw [hprev]
    exact if_pos ⟨by omega, by rw [eq]; exact HeapHdr.ofBlock_magic_free.mpr rfl⟩
  · rw [hnext, hdr_congr (w₃.agree (.inl (by omega))), e₂, e₁, e₁a, e, eq]
    rfl
  · rw [hnext]
    exact (w₂.mono le_rfl (by omega)).trans (w₃.mono (by omega) le_rfl)
  · rw [hnext]
    exact (hdr_congr (w₃.agree (.inl (by omega)))).trans e₂a

/-- **A free block** becomes part of the block before it, if that is free. What was its header still says that it is free. -/
theorem laid_coalescePrev (lpre : Laid h.mem 0 p a pre) (ha : p + span heapHeaderSize pre = a) (hp : 0 < p)
    (e : h.hdr a = { HeapHdr.ofBlock (last heapHeaderSize 0 p pre) a (first (a + (heapHeaderSize + s)) 0 post)
      (Block.free s) with headerGuard := g })
    (hl : Laid h.mem a (a + (heapHeaderSize + s)) 0 post) (h8 : 8 ∣ a)
    (hend : a + (heapHeaderSize + s) + span heapHeaderSize post < 256 ^ cfg.pointerSize) :
    Laid (h.coalescePrev a).mem 0 p 0 (mergePrev heapHeaderSize pre (Block.free s :: post)) ∧
      ((h.coalescePrev a).hdr a).magic = heapMagicFree ∧
      ∃ c, p ≤ c ∧ Within h.mem (h.coalescePrev a).mem c (a + (heapHeaderSize + s) + relinked post) ∧
        ∀ u ∈ usedFrom heapHeaderSize p pre, u.addr + heapHeaderSize + u.size ≤ c := by
  have hH := heapHeaderSize_ge
  have hlast : last heapHeaderSize 0 p pre < 256 ^ cfg.pointerSize := by
    have : last heapHeaderSize 0 p pre ≤ p + span heapHeaderSize pre := last_le
    omega
  -- Unless the block before it is free, only the guard is written.
  have alone (eh : h.coalescePrev a = h.guardHdr a)
      (em : mergePrev heapHeaderSize pre (Block.free s :: post) = pre ++ Block.free s :: post) :
      Laid (h.coalescePrev a).mem 0 p 0 (mergePrev heapHeaderSize pre (Block.free s :: post)) ∧
        ((h.coalescePrev a).hdr a).magic = heapMagicFree ∧
        ∃ c, p ≤ c ∧ Within h.mem (h.coalescePrev a).mem c (a + (heapHeaderSize + s) + relinked post) ∧
          ∀ u ∈ usedFrom heapHeaderSize p pre, u.addr + heapHeaderSize + u.size ≤ c := by
    obtain ⟨l, w⟩ := laid_guardHdr lpre ha e hl h8 hend hlast
    have hnext : first (a + (heapHeaderSize + s)) 0 post < 256 ^ cfg.pointerSize := by
      have : first (a + (heapHeaderSize + s)) 0 post ≤ a + (heapHeaderSize + s) := first_zero_le
      omega
    rw [eh, em]
    refine ⟨l, ?_, a, by omega, w.mono le_rfl (by omega), fun u hu => ha ▸ addr_add_le hu⟩
    rw [hdr_guardHdr (by rw [e]; exact hnext) (by rw [e]; exact hlast), e]
    rfl
  rcases List.eq_nil_or_concat' pre with rfl | ⟨pre, ⟨t, _ | r⟩, rfl⟩
  · refine alone ?_ rfl
    unfold coalescePrev
    rw [e]
    exact if_neg fun c => c.1 rfl
  · -- The block before it is free.
    obtain ⟨lpre, lq⟩ := laid_append.mp lpre
    rw [first_cons] at lpre
    have haq : a = p + span heapHeaderSize pre + (heapHeaderSize + t) := by
      rw [span_append, span_cons, span_nil] at ha
      dsimp only at ha
      omega
    rw [last_append, last_cons, last_nil] at e
    have hpp : last heapHeaderSize 0 p pre < 256 ^ cfg.pointerSize := by
      have : last heapHeaderSize 0 p pre ≤ p + span heapHeaderSize pre := last_le
      omega
    have eq : h.hdr (p + span heapHeaderSize pre) =
        .ofBlock (last heapHeaderSize 0 p pre) (p + span heapHeaderSize pre) a (Block.free t) := lq.1.header
    obtain ⟨h₃, g', eh, e₃, l₃, w₃, e₃a⟩ := coalescePrev_free eq e hl haq (by omega) hpp hend
    have hbehind : p + span heapHeaderSize pre + (heapHeaderSize + (t + (heapHeaderSize + s))) =
        a + (heapHeaderSize + s) := by omega
    have e₄ : h₃.hdr (p + span heapHeaderSize pre) = { HeapHdr.ofBlock (last heapHeaderSize 0 p pre)
        (p + span heapHeaderSize pre)
        (first (p + span heapHeaderSize pre + (heapHeaderSize + (t + (heapHeaderSize + s)))) 0 post)
        (Block.free (t + (heapHeaderSize + s))) with headerGuard := g' } := by rw [e₃, hbehind]
    obtain ⟨l₄, w₄⟩ := laid_guardHdr (lpre.congr (w₃.agree (.inl le_rfl))) rfl e₄ (by rw [hbehind]; exact l₃) lq.1.aligned
      (by rw [hbehind]; exact hend) hpp
    rw [eh, mergePrev_of_free (List.getLast?_concat ..), List.dropLast_concat]
    refine ⟨l₄, ?_, _, Nat.le_add_right _ _, w₃.trans (w₄.mono le_rfl (by omega)), fun u hu => ?_⟩
    · rw [hdr_congr (w₄.agree (.inr (by omega))), e₃a, e]
      rfl
    rw [usedFrom_append, usedFrom_free, usedFrom_nil, List.append_nil] at hu
    exact addr_add_le hu
  · obtain ⟨-, lq⟩ := laid_append.mp lpre
    refine alone ?_ (mergePrev_of_used fun b hb => ?_)
    · have hprev : (h.hdr a).prev = p + span heapHeaderSize pre := by
        rw [e, last_append, last_cons, last_nil]
        rfl
      have eq : h.hdr (p + span heapHeaderSize pre) = _ := lq.1.header
      unfold coalescePrev
      rw [hprev]
      refine if_neg fun c => ?_
      have hm : (h.hdr (p + span heapHeaderSize pre)).magic = heapMagicFree := c.2
      rw [eq, HeapHdr.ofBlock_magic_free] at hm
      cases hm
    · rw [List.getLast?_concat] at hb
      cases hb
      rfl

end Heap

end Aixos
