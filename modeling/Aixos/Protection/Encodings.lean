import Aixos.Protection.Regions

/-!
# What the encodings of a region say

The registers are read by the rules of the two architectures. Neither the loop of `mpu_log2` nor the bits that
`pmp_napot` puts into the address lose or add anything: `Mpu.encodings_roundtrip`.
-/

namespace Aixos

open Mpu

namespace ArmMpu

/-- The size of region `i`. -/
def regionSize (m : ArmMpu) (i : ℕ) : ℕ := 2 ^ (m.sizeField i + 1)

/-- Where region `i` begins: the bits of its address below its size are ignored. -/
def regionBase (m : ArmMpu) (i : ℕ) : ℕ := (m.rbar i).toNat / m.regionSize i * m.regionSize i

variable {m : ArmMpu} {r : Region} {s i : ℕ}

theorem Holds.sizeField (h : m.Holds i r) (hs : r.Sized s) : m.sizeField i = s - 1 := by
  have hlt := hs.lt
  obtain ⟨-, hsize, -⟩ := rasrValue_fields ⟨s - 1, by omega⟩ (r.attr &&& attrWrite ≠ 0)
    (r.attr &&& attrExec ≠ 0) (r.attr &&& attrDevice ≠ 0)
  dsimp only at hsize
  rw [← hs.mpuRasrSize] at hsize
  unfold ArmMpu.sizeField
  rw [h.2]
  exact hsize

theorem Holds.regionSize (h : m.Holds i r) (hs : r.Sized s) : m.regionSize i = 2 ^ s := by
  have hge := hs.ge
  unfold ArmMpu.regionSize
  rw [h.sizeField hs, show s - 1 + 1 = s by omega]

theorem Holds.regionBase (h : m.Holds i r) (hs : r.Sized s) : m.regionBase i = r.base.toNat := by
  unfold ArmMpu.regionBase
  rw [h.regionSize hs, h.1]
  exact Nat.div_mul_cancel (Nat.dvd_of_mod_eq_zero hs.aligned)

theorem holds_regionConfigure (hs : r.Sized s) (m : ArmMpu) (i : ℕ) : (m.regionConfigure i r).Holds i r := by
  rw [regionConfigure_eq hs]
  exact ⟨Function.update_self .., Function.update_self ..⟩

end ArmMpu

namespace Pmp

/-- The size of the region that an address register of the kind `NAPOT` names. -/
def napotSize (w : Word) : ℕ := 2 ^ (trailingOnes w + 3)

/-- Where that region begins: the trailing ones and the zero before them are no part of the address, which is given
without its last two bits. -/
def napotBase (w : Word) : ℕ := w.toNat / 2 ^ (trailingOnes w + 1) * 2 ^ (trailingOnes w + 1) * 4

variable {r : Region} {s : ℕ}

theorem napotSize_napot (hs : r.Sized s) : napotSize (napot r.base r.size) = 2 ^ s := by
  have hge := hs.ge
  rw [napotSize, trailingOnes_napot hs, show s - 3 + 3 = s by omega]

theorem napotBase_napot (hs : r.Sized s) : napotBase (napot r.base r.size) = r.base.toNat := by
  have hge := hs.ge
  have hshift := congrArg BitVec.toNat (napot_ushiftRight hs)
  rw [BitVec.toNat_ushiftRight, BitVec.toNat_ushiftRight, Nat.shiftRight_eq_div_pow, Nat.shiftRight_eq_div_pow] at hshift
  have hpow : 2 ^ (s - 2) * 4 = 2 ^ s := by rw [show 4 = 2 ^ 2 from rfl, ← pow_add, show s - 2 + 2 = s by omega]
  rw [napotBase, trailingOnes_napot hs, show s - 3 + 1 = s - 2 by omega, hshift, Nat.mul_assoc, hpow]
  exact Nat.div_mul_cancel (Nat.dvd_of_mod_eq_zero hs.aligned)

end Pmp

namespace Mpu

/-- **A valid region is what its encodings say**, on both architectures. -/
theorem encodings_roundtrip [MpuConfig] {base size attr : Word} (h : regionValid base size attr = true) (m : ArmMpu)
    (i : ℕ) :
    (m.regionConfigure i { base, size, attr }).regionBase i = base.toNat ∧
      (m.regionConfigure i { base, size, attr }).regionSize i = size.toNat ∧
      Pmp.napotBase (Pmp.napot base size) = base.toNat ∧ Pmp.napotSize (Pmp.napot base size) = size.toNat := by
  let r : Region := { base, size, attr }
  obtain ⟨s, hs⟩ : ∃ s, r.Sized s := Region.sized_of_valid h
  have hm := ArmMpu.holds_regionConfigure hs m i
  refine ⟨hm.regionBase hs, (hm.regionSize hs).trans hs.size.symm, Pmp.napotBase_napot (r := r) hs, ?_⟩
  exact (Pmp.napotSize_napot (r := r) hs).trans hs.size.symm

end Mpu

end Aixos

namespace Aixos.Mpu

attribute [local instance] MpuConfig.default

/-- The registers after a reset. -/
def resetUnit : ArmMpu where
  ctrl := 0
  rnr := 0
  rbar := fun _ => 0
  rasr := fun _ => 0

theorem encodings_roundtrip_stack :
    (resetUnit.regionConfigure 1 { base := 0x20000800, size := 2048, attr := 3 }).regionBase 1 = 0x20000800 ∧
      (resetUnit.regionConfigure 1 { base := 0x20000800, size := 2048, attr := 3 }).regionSize 1 = 2048 ∧
      Pmp.napotBase (Pmp.napot 0x20000800 2048) = 0x20000800 ∧ Pmp.napotSize (Pmp.napot 0x20000800 2048) = 2048 :=
  encodings_roundtrip (by decide) resetUnit 1

end Aixos.Mpu
