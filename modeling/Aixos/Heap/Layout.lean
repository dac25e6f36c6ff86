import Aixos.Kernel.Heap
import Aixos.Library.BlockList
import Mathlib.Tactic.Ring

/-!
# How blocks lie in memory

* `Heap.hdr_setHdr`, `Heap.hdr_setHdr_of_apart` — what writing to a header does to the headers.
* `Block.header` — the header of a block, between two others.
* `Laid` — blocks one behind the other, linked both ways, each with its header and its canary. `laid_append` cuts them
  in two; `Laid.congr` and `Laid.relink` say what memory may do without disturbing them.
-/

namespace Aixos

open ByteMemory Block

variable [cfg : HeapConfig]

/-! ### Headers -/

theorem heapHeaderSize_eq : heapHeaderSize = 16 + 2 * cfg.pointerSize := rfl

theorem heapHeaderSize_ge : 24 ≤ heapHeaderSize := by
  rcases cfg.pointerSize_eq with e | e <;> simp [heapHeaderSize_eq, e]

theorem heapHeaderSize_le : heapHeaderSize ≤ 32 := by
  rcases cfg.pointerSize_eq with e | e <;> simp [heapHeaderSize_eq, e]

theorem heapHeaderSize_dvd : 8 ∣ heapHeaderSize := by
  rcases cfg.pointerSize_eq with e | e <;> simp [heapHeaderSize_eq, e]

theorem HeapHdr.length_encode (b : HeapHdr) : b.encode.length = heapHeaderSize := by
  simp only [encode, List.length_append, length_le, heapHeaderSize]
  ring

/-- **A header is read as it was written.** -/
theorem HeapHdr.decode_encode {b : HeapHdr} (hn : b.next < 256 ^ cfg.pointerSize) (hp : b.prev < 256 ^ cfg.pointerSize) :
    decode b.encode = b := by
  have h16 : ∀ v : BitVec 16, ofLe (le 2 v.toNat) = v.toNat := fun v => ofLe_le v.isLt
  have h32 : ∀ v : BitVec 32, ofLe (le 4 v.toNat) = v.toNat := fun v => ofLe_le v.isLt
  simp only [decode, encode, take_le_append, drop_le_append, take_le, h16, h32, BitVec.ofNat_toNat, BitVec.setWidth_eq,
    ofLe_le hn, ofLe_le hp]

namespace Heap

variable {h h' : Heap} {a b : ℕ} {f : HeapHdr → HeapHdr}

/-- A header is what its bytes say. -/
theorem hdr_congr (e : Agree h.mem h'.mem a (a + heapHeaderSize)) : h'.hdr a = h.hdr a := by
  rw [hdr, hdr, e.load le_rfl le_rfl]

theorem hdr_setHdr (hn : (f (h.hdr a)).next < 256 ^ cfg.pointerSize)
    (hp : (f (h.hdr a)).prev < 256 ^ cfg.pointerSize) : (h.setHdr a f).hdr a = f (h.hdr a) := by
  have e := load_store h.mem a (f (h.hdr a)).encode
  rw [HeapHdr.length_encode] at e
  show HeapHdr.decode ((h.mem.store a (f (h.hdr a)).encode).load a heapHeaderSize) = _
  rw [e, HeapHdr.decode_encode hn hp]

theorem within_setHdr : Within h.mem (h.setHdr a f).mem a (a + heapHeaderSize) :=
  Within.store le_rfl (by rw [HeapHdr.length_encode])

theorem hdr_setHdr_of_apart (hab : b + heapHeaderSize ≤ a ∨ a + heapHeaderSize ≤ b) :
    (h.setHdr a f).hdr b = h.hdr b := hdr_congr (within_setHdr.agree hab)

/-- The guard does not depend on the guard. -/
theorem hdr_guardHdr (hn : (h.hdr a).next < 256 ^ cfg.pointerSize) (hp : (h.hdr a).prev < 256 ^ cfg.pointerSize) :
    (h.guardHdr a).hdr a = { h.hdr a with headerGuard := headerGuard a (h.hdr a) } := hdr_setHdr hn hp

theorem hdr_guardHdr_of_apart (hab : b + heapHeaderSize ≤ a ∨ a + heapHeaderSize ≤ b) :
    (h.guardHdr a).hdr b = h.hdr b := hdr_setHdr_of_apart hab

theorem within_guardHdr : Within h.mem (h.guardHdr a).mem a (a + heapHeaderSize) := within_setHdr

end Heap

/-- The header of a block at `a`, behind the block at `prev` and before the block at `next`. -/
def HeapHdr.ofBlock (prev a next : ℕ) (b : Block) : HeapHdr :=
  let c : HeapHdr :=
    { magic := if b.request.isSome then heapMagicUsed else heapMagicFree, reserved := 0,
      size := BitVec.ofNat 32 b.size, requestedSize := BitVec.ofNat 32 (b.request.getD 0), headerGuard := 0,
      next := next, prev := prev }
  { c with headerGuard := Heap.headerGuard a c }

/-- A block lies in memory at `a`, behind the block at `prev` and before the block at `next`. -/
structure BlockAt (m : ByteMemory) (prev a next : ℕ) (b : Block) : Prop where
  header : HeapHdr.decode (m.load a heapHeaderSize) = .ofBlock prev a next b
  fits : ∀ r, b.request = some r → r + heapCanarySize ≤ b.size
  canary : ∀ r, b.request = some r →
    ofLe (m.load (a + heapHeaderSize + r) heapCanarySize) = (Heap.canary a).toNat
  aligned : 8 ∣ a

/-- The blocks lie in memory from `a` on, behind the block at `prev` and before the block at `next`. -/
def Laid (m : ByteMemory) : (prev a next : ℕ) → List Block → Prop
  | _, _, _, [] => True
  | prev, a, next, b :: bs =>
    let a' := a + (heapHeaderSize + b.size)
    BlockAt m prev a (first a' next bs) b ∧ Laid m a a' next bs

variable {m m' : ByteMemory} {prev prev' a next : ℕ} {b : Block} {bs cs : List Block}

/-- A block does not notice what happens outside. -/
theorem BlockAt.congr (h : BlockAt m prev a next b) (e : Agree m m' a (a + (heapHeaderSize + b.size))) :
    BlockAt m' prev a next b where
  header := by rw [e.load le_rfl (by omega), h.header]
  fits := h.fits
  canary r hr := by
    have hf := h.fits r hr
    rw [e.load (by omega) (by omega), h.canary r hr]
  aligned := h.aligned

/-- The block before it may be another. -/
theorem BlockAt.relink (h : BlockAt m prev a next b)
    (eh : HeapHdr.decode (m'.load a heapHeaderSize) = .ofBlock prev' a next b)
    (e : Agree m m' (a + heapHeaderSize) (a + (heapHeaderSize + b.size))) : BlockAt m' prev' a next b where
  header := eh
  fits := h.fits
  canary r hr := by
    have hf := h.fits r hr
    rw [e.load (by omega) (by omega), h.canary r hr]
  aligned := h.aligned

@[simp] theorem laid_nil : Laid m prev a next [] := trivial

theorem laid_cons : Laid m prev a next (b :: bs) ↔
    BlockAt m prev a (first (a + (heapHeaderSize + b.size)) next bs) b ∧
      Laid m a (a + (heapHeaderSize + b.size)) next bs := Iff.rfl

/-- **Blocks can be cut in two** anywhere. -/
theorem laid_append : Laid m prev a next (bs ++ cs) ↔
    Laid m prev a (first (a + span heapHeaderSize bs) next cs) bs ∧
      Laid m (last heapHeaderSize prev a bs) (a + span heapHeaderSize bs) next cs := by
  induction bs generalizing prev a with
  | nil => simp
  | cons b bs ih =>
    rw [List.cons_append, laid_cons, laid_cons, ih, first_append, span_cons, last_cons, and_assoc, Nat.add_assoc a]

theorem Laid.congr (h : Laid m prev a next bs) (e : Agree m m' a (a + span heapHeaderSize bs)) :
    Laid m' prev a next bs := by
  induction bs generalizing prev a with
  | nil => trivial
  | cons b bs ih =>
    rw [span_cons] at e
    exact ⟨h.1.congr (e.mono le_rfl (by omega)), ih h.2 (e.mono (by omega) (by omega))⟩

end Aixos
