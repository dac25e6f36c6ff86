import Aixos.Kernel.Mpu
import Aixos.Library.Areas
import Mathlib.Tactic.IntervalCases

/-!
# The regions of a task and the protection units

The kernel lets the first region around a whole range decide. The units let a region decide for
each byte: ARMv7-M the last one around it, RISC-V the first one.

* `Region.Sized r s` — what a valid region looks like: `2 ^ s` bytes, aligned, and not at the end.
* `Task.grants_iff` — what the kernel grants is what a list of areas grants.
* `ArmMpu.permits_eq`, `Pmp.permits_eq` — the registers that are written make the last, or the first,
  region around a byte decide.
-/

namespace Aixos.Mpu

variable {r : Region} {s : ℕ} {a base size attr : Word}

/-! ### Valid regions -/

namespace Region

/-- The byte is in the region. -/
def Contains (r : Region) (a : Word) : Prop := r.base.toNat ≤ a.toNat ∧ a.toNat < r.base.toNat + r.size.toNat

instance (r : Region) (a : Word) : Decidable (r.Contains a) := inferInstanceAs (Decidable (_ ∧ _))

/-- The attribute that permits an access. -/
def gives (r : Region) : Access → Bool
  | .read => decide (r.attr &&& attrRead ≠ 0)
  | .write => decide (r.attr &&& attrWrite ≠ 0)
  | .exec => decide (r.attr &&& attrExec ≠ 0)

/-- What the ARMv7-M unit makes of the attributes: every region can be read. -/
def armGives (r : Region) : Access → Bool
  | .read => true
  | x => r.gives x

/-- The region has `2 ^ s` bytes, is aligned to them, and does not reach the end of memory. -/
structure Sized (r : Region) (s : ℕ) : Prop where
  ge : 5 ≤ s
  lt : s < 32
  size : r.size.toNat = 2 ^ s
  aligned : r.base.toNat % 2 ^ s = 0
  fits : r.base.toNat + 2 ^ s < 2 ^ 32

/-- **What is checked**: a valid region has such a size. -/
theorem sized_of_valid [cfg : MpuConfig] (h : regionValid r.base r.size r.attr = true) : ∃ s, r.Sized s := by
  unfold regionValid at h
  split at h
  · cases h
  · split at h
    · cases h
    · rename_i hsize
      split at h
      · cases h
      · rename_i hfits
        split at h
        · cases h
        · rename_i hal
          obtain ⟨hmin, hpow⟩ := not_or.mp hsize
          have hpow : r.size.toNat.isPowerOfTwo := by
            rw [Bool.not_eq_true', Bool.not_eq_false] at hpow
            obtain ⟨h0, h1⟩ := (Bool.and_eq_true_iff.mp hpow)
            have h0 : r.size ≠ 0 := of_decide_eq_true h0
            have h1 : r.size &&& (r.size - 1) = 0 := of_decide_eq_true h1
            have hpos : 0 < r.size.toNat := by
              by_contra hz
              exact h0 (BitVec.eq_of_toNat_eq (by simpa using hz))
            refine (Nat.and_sub_one_eq_zero_iff_isPowerOfTwo (by omega)).mp ?_
            have := congrArg BitVec.toNat h1
            rw [BitVec.toNat_and, BitVec.toNat_sub_of_le (show (1 : Word).toNat ≤ r.size.toNat from hpos)] at this
            simpa using this
          obtain ⟨s, hs⟩ := hpow
          have hge : 32 ≤ r.size.toNat := by
            have h₁ : (32 : Word).toNat ≤ cfg.minRegionSize.toNat := cfg.minRegionSize_ge
            have h₂ : cfg.minRegionSize.toNat ≤ r.size.toNat := not_lt.mp fun hlt => hmin hlt
            exact h₁.trans h₂
          have hlt := r.size.isLt
          have hs5 : 5 ≤ s := by
            by_contra hn
            have : 2 ^ s ≤ 2 ^ 4 := Nat.pow_le_pow_right (by decide) (by omega)
            omega
          have hs32 : s < 32 := by
            by_contra hn
            have : 2 ^ 32 ≤ 2 ^ s := Nat.pow_le_pow_right (by decide) (by omega)
            omega
          refine ⟨s, hs5, hs32, hs, ?_, ?_⟩
          · have hal : r.base &&& (r.size - 1) = 0 := not_not.mp hal
            have := congrArg BitVec.toNat hal
            rw [BitVec.toNat_and, BitVec.toNat_sub_of_le (show (1 : Word).toNat ≤ r.size.toNat from hge.trans' (by decide))]
              at this
            have h1 : (1 : Word).toNat = 1 := rfl
            rw [h1, hs, Nat.and_two_pow_sub_one_eq_mod] at this
            simpa using this
          · have hb := r.base.isLt
            have hfits : ¬ (0xFFFFFFFF - r.base).toNat < r.size.toNat := hfits
            rw [BitVec.toNat_sub_of_le (by show r.base.toNat ≤ 4294967295; omega)] at hfits
            have : (0xFFFFFFFF : Word).toNat = 4294967295 := rfl
            omega

/-- An address is in an aligned region when it agrees with its base above the low bits. -/
theorem Sized.contains_iff (h : r.Sized s) (a : Word) : a >>> s = r.base >>> s ↔ r.Contains a := by
  have hpos : 0 < 2 ^ s := Nat.two_pow_pos s
  have hb := Nat.div_add_mod r.base.toNat (2 ^ s)
  rw [h.aligned] at hb
  have ha := Nat.div_add_mod a.toNat (2 ^ s)
  have hm := Nat.mod_lt a.toNat hpos
  unfold Contains
  rw [h.size, BitVec.toNat_eq, BitVec.toNat_ushiftRight, BitVec.toNat_ushiftRight, Nat.shiftRight_eq_div_pow,
    Nat.shiftRight_eq_div_pow]
  constructor
  · intro e
    rw [e] at ha
    omega
  · rintro ⟨h₁, h₂⟩
    apply le_antisymm
    · refine Nat.lt_succ_iff.mp ((Nat.div_lt_iff_lt_mul hpos).mpr ?_)
      rw [Nat.succ_mul, Nat.mul_comm]
      omega
    · exact Nat.div_le_div_right h₁

/-- All of the region is in the other one. -/
def Inside (r q : Region) : Prop :=
  q.base.toNat ≤ r.base.toNat ∧ r.base.toNat + r.size.toNat ≤ q.base.toNat + q.size.toNat

instance (r q : Region) : Decidable (r.Inside q) := inferInstanceAs (Decidable (_ ∧ _))

/-- The region as an area. -/
def area (r : Region) : Area Word Access where
  carrier := {a | r.Contains a}
  permits := {x | r.gives x = true}

end Region

/-! ### What the kernel grants -/

/-- The bytes of a range. -/
def span (base size : Word) : Set Word := {a | base.toNat ≤ a.toNat ∧ a.toNat < base.toNat + size.toNat}

/-- A range lies in another one when its ends do. -/
theorem span_subset {base' size' : Word} (hpos : 0 < size.toNat) (hend : base.toNat + size.toNat ≤ 2 ^ 32) :
    span base size ⊆ span base' size' ↔
      base'.toNat ≤ base.toNat ∧ base.toNat + size.toNat ≤ base'.toNat + size'.toNat := by
  constructor
  · intro h
    have hlast : (BitVec.ofNat 32 (base.toNat + size.toNat - 1)).toNat = base.toNat + size.toNat - 1 := by
      rw [BitVec.toNat_ofNat, Nat.mod_eq_of_lt (by omega)]
    have h₁ : base ∈ span base' size' := h ⟨le_rfl, by omega⟩
    have h₂ : BitVec.ofNat 32 (base.toNat + size.toNat - 1) ∈ span base' size' :=
      h ⟨by rw [hlast]; omega, by rw [hlast]; omega⟩
    have h₂ := h₂.2
    rw [hlast] at h₂
    exact ⟨h₁.1, by omega⟩
  · rintro ⟨h₁, h₂⟩ a ⟨ha, ha'⟩
    exact ⟨h₁.trans ha, by omega⟩

theorem Region.Sized.pos (h : r.Sized s) : 0 < r.size.toNat := by
  rw [h.size]
  exact Nat.two_pow_pos s

theorem Region.Sized.end_lt (h : r.Sized s) : r.base.toNat + r.size.toNat < 2 ^ 32 := by
  rw [h.size]
  exact h.fits

theorem Region.Sized.inside_iff {q : Region} (h : r.Sized s) : r.area.carrier ⊆ q.area.carrier ↔ r.Inside q :=
  span_subset h.pos h.end_lt.le

namespace Task

variable {t : Task}

/-- `aixos_mpu_task_allows`, by what the range is wanted for. -/
def grants (t : Task) (base size : Word) : Access → Bool
  | .read => t.allows base size false false
  | .write => t.allows base size true false
  | .exec => t.allows base size false true

/-- Every region of the task has a valid size. -/
def Valid (t : Task) : Prop := ∀ r ∈ t.regions, ∃ s, r.Sized s

theorem allowsLoop_iff {rs : List Region} (hv : ∀ r ∈ rs, ∃ s, r.Sized s) (hpos : 0 < size.toNat)
    (hend : base.toNat + size.toNat < 2 ^ 32) {w e : Bool} {x : Access}
    (hx : ∀ r : Region, (if w ∧ r.attr &&& attrWrite = 0 then false
      else if e ∧ r.attr &&& attrExec = 0 then false
      else if !w ∧ !e ∧ r.attr &&& attrRead = 0 then false else true) = r.gives x) :
    allowsLoop base (base + size) w e rs = true ↔ Area.Grants (rs.map Region.area) (span base size) x := by
  induction rs with
  | nil => simp [allowsLoop, Area.grants_nil]
  | cons r rs ih =>
    obtain ⟨s, hs⟩ := hv r (by simp)
    have hsum : (base + size).toNat = base.toNat + size.toNat := by
      rw [BitVec.toNat_add, Nat.mod_eq_of_lt hend]
    have hrsum : (r.base + r.size).toNat = r.base.toNat + r.size.toNat := by
      rw [BitVec.toNat_add, Nat.mod_eq_of_lt hs.end_lt]
    have hin : (base < r.base ∨ r.base + r.size < base + size) ↔ ¬ span base size ⊆ r.area.carrier := by
      rw [show r.area.carrier = span r.base r.size from rfl, span_subset hpos hend.le, BitVec.lt_def, BitVec.lt_def,
        hsum, hrsum]
      omega
    rw [allowsLoop, List.map_cons, Area.grants_cons]
    by_cases hc : span base size ⊆ r.area.carrier
    · rw [if_neg (fun h => hin.mp h hc), hx r]
      exact ⟨fun h => .inl ⟨hc, h⟩, fun h => h.elim And.right fun h => absurd hc h.1⟩
    · rw [if_pos (hin.mpr hc), ih fun r hr => hv r (by simp [hr])]
      simp [hc]

/-- The ranges that the kernel is asked for, but those that it refuses for their size. -/
def ranges : Set (Set Word) := {S | ∃ base size : Word, 0 < size.toNat ∧ base.toNat + size.toNat < 2 ^ 32 ∧ S = span base size}

/-- **What the kernel grants** is what the list of the regions grants. -/
theorem grants_iff (hu : t.user = true) (hv : t.Valid) (x : Access) :
    t.grants base size x = true ↔ (0 < size.toNat ∧ base.toNat + size.toNat < 2 ^ 32) ∧
      Area.Grants (t.regions.map Region.area) (span base size) x := by
  have hguard : (!t.user ∨ size = 0 ∨ 0xFFFFFFFF - base < size) ↔
      ¬ (0 < size.toNat ∧ base.toNat + size.toNat < 2 ^ 32) := by
    have hb := base.isLt
    have hz : size = 0 ↔ size.toNat = 0 := by
      rw [BitVec.toNat_eq]
      rfl
    rw [hu, hz, BitVec.lt_def, BitVec.toNat_sub_of_le (show base.toNat ≤ 4294967295 by omega)]
    have : (0xFFFFFFFF : Word).toNat = 4294967295 := rfl
    simp only [Bool.not_true, Bool.false_eq_true, false_or]
    omega
  have key {w e : Bool} (hx : ∀ r : Region, (if w ∧ r.attr &&& attrWrite = 0 then false
      else if e ∧ r.attr &&& attrExec = 0 then false
      else if !w ∧ !e ∧ r.attr &&& attrRead = 0 then false else true) = r.gives x) :
      t.allows base size w e = true ↔ (0 < size.toNat ∧ base.toNat + size.toNat < 2 ^ 32) ∧
        Area.Grants (t.regions.map Region.area) (span base size) x := by
    unfold allows
    by_cases hg : 0 < size.toNat ∧ base.toNat + size.toNat < 2 ^ 32
    · rw [if_neg (fun h => hguard.mp h hg), allowsLoop_iff hv hg.1 hg.2 hx]
      exact (and_iff_right hg).symm
    · rw [if_pos (hguard.mpr hg)]
      exact iff_of_false Bool.false_ne_true fun h => hg h.1
  cases x with
  | read => exact key fun r => by simp [Region.gives]
  | write => exact key fun r => by simp [Region.gives]
  | exec => exact key fun r => by simp [Region.gives]

/-- **The kernel grants no more than a judge of single bytes permits** exactly when the judge permits on every
region that is not inside an earlier one what the region gives. -/
theorem grants_le_iff (hu : t.user = true) (hv : t.Valid) {P : Word → Access → Prop} :
    (∀ base size x, t.grants base size x = true → ∀ a ∈ span base size, P a x) ↔
      ∀ pre r post, t.regions = pre ++ r :: post → (∀ q ∈ pre, ¬ r.Inside q) →
        ∀ x, r.gives x = true → ∀ a, r.Contains a → P a x := by
  have hS : ∀ y ∈ t.regions.map Region.area, y.carrier ∈ ranges := by
    intro y hy
    obtain ⟨r, hr, rfl⟩ := List.mem_map.mp hy
    obtain ⟨s, hs⟩ := hv r hr
    exact ⟨r.base, r.size, hs.pos, hs.end_lt, rfl⟩
  have h₁ : (∀ base size x, t.grants base size x = true → ∀ a ∈ span base size, P a x) ↔
      ∀ S ∈ ranges, ∀ x, Area.Grants (t.regions.map Region.area) S x → ∀ a ∈ S, P a x := by
    constructor
    · rintro h S ⟨base, size, hpos, hend, rfl⟩ x hg
      exact h base size x ((grants_iff hu hv x).mpr ⟨⟨hpos, hend⟩, hg⟩)
    · intro h base size x hg
      obtain ⟨⟨hpos, hend⟩, hg⟩ := (grants_iff hu hv x).mp hg
      exact h _ ⟨base, size, hpos, hend, rfl⟩ x hg
  rw [h₁, Area.grants_le_iff hS]
  constructor
  · intro h pre r post e hpre x hx
    obtain ⟨s, hs⟩ := hv r (by simp [e])
    refine h r.area ⟨pre.map Region.area, post.map Region.area, by simp [e], fun y hy hsub => ?_⟩ x hx
    obtain ⟨q, hq, rfl⟩ := List.mem_map.mp hy
    exact hpre q hq (hs.inside_iff.mp hsub)
  · rintro h y ⟨pre, post, e, hpre⟩ x hx
    obtain ⟨pre', rest, e₁, rfl, e₂⟩ := List.map_eq_append_iff.mp e
    obtain ⟨r, post', rfl, rfl, rfl⟩ := List.map_eq_cons_iff.mp e₂
    obtain ⟨s, hs⟩ := hv r (by simp [e₁])
    refine h pre' r post' e₁ (fun q hq hin => hpre q.area (List.mem_map_of_mem hq) ?_) x hx
    exact hs.inside_iff.mpr hin

end Task

/-! ### The registers of ARMv7-M -/

/-- `mpu_log2` of a power of two; the loop ends within the rounds it has. -/
theorem mpuLog2Loop_two_pow (n : ℕ) (v log : Word) (hv : v.toNat = 2 ^ s) (hn : s ≤ n) :
    mpuLog2Loop n v log = log + BitVec.ofNat 32 s := by
  induction n generalizing s v log with
  | zero =>
    obtain rfl : s = 0 := by omega
    simp [mpuLog2Loop]
  | succ n ih =>
    rw [mpuLog2Loop]
    cases s with
    | zero =>
      have h1 : ¬ (1 : Word) < v := by
        rw [BitVec.lt_def, hv]
        decide
      rw [if_neg h1]
      simp
    | succ s =>
      have h1 : (1 : Word) < v := by
        rw [BitVec.lt_def, hv]
        exact Nat.one_lt_two_pow (by omega)
      have hshift : (v >>> 1).toNat = 2 ^ s := by
        rw [BitVec.toNat_ushiftRight, hv, Nat.shiftRight_eq_div_pow, pow_succ]
        simp
      rw [if_pos h1, ih (v >>> 1) (log + 1) hshift (by omega)]
      apply BitVec.eq_of_toNat_eq
      simp
      omega

theorem Region.Sized.mpuRasrSize (h : r.Sized s) : Mpu.mpuRasrSize r.size = BitVec.ofNat 32 (s - 1) <<< 1 := by
  have hge := h.ge
  have hlt := h.lt
  unfold Mpu.mpuRasrSize mpuLog2
  rw [mpuLog2Loop_two_pow 32 r.size 0 h.size (by omega)]
  congr 1
  apply BitVec.eq_of_toNat_eq
  rw [show (0 : Word) + BitVec.ofNat 32 s = BitVec.ofNat 32 s from BitVec.zero_add _, BitVec.toNat_sub_of_le]
  · simp
    omega
  · rw [BitVec.le_def]
    simp
    omega

end Aixos.Mpu

namespace Aixos.ArmMpu

open Mpu

variable {r : Region} {s : ℕ} {m : ArmMpu} {a : Word} {i : ℕ}

/-- The attributes of a region in `MPU_RASR`. -/
def rasrOf (r : Region) : Word :=
  rasrValue (mpuRasrSize r.size) (r.attr &&& attrWrite ≠ 0) (r.attr &&& attrExec ≠ 0) (r.attr &&& attrDevice ≠ 0)

/-- The fields of `MPU_RASR`. -/
theorem rasrValue_fields : ∀ (n : Fin 32) (w x d : Bool),
    let v := rasrValue (BitVec.ofNat 32 n <<< 1) w x d
    v.getLsbD 0 = true ∧ (v.extractLsb' 1 5).toNat = n ∧ (∀ k : Fin 8, v.getLsbD (8 + k) = false) ∧
      v.extractLsb' 24 3 = (if w then 3 else 6) ∧ v.getLsbD 28 = !x := by
  decide +kernel

/-- Region `i` of the unit holds the region `r`. -/
def Holds (m : ArmMpu) (i : ℕ) (r : Region) : Prop := m.rbar i = r.base ∧ m.rasr i = rasrOf r

theorem Holds.matches (h : m.Holds i r) (hs : r.Sized s) : m.Matches a i = decide (r.Contains a) := by
  have hge := hs.ge
  have hlt := hs.lt
  obtain ⟨h₀, hsize, hsrd, -, -⟩ := rasrValue_fields ⟨s - 1, by omega⟩ (r.attr &&& attrWrite ≠ 0)
    (r.attr &&& attrExec ≠ 0) (r.attr &&& attrDevice ≠ 0)
  dsimp only at h₀ hsize hsrd
  rw [← hs.mpuRasrSize] at h₀ hsize hsrd
  have hk := hsrd ⟨(a >>> (m.sizeField i - 2)).toNat % 8, Nat.mod_lt _ (by decide)⟩
  have hfield : m.sizeField i = s - 1 := by
    unfold sizeField
    rw [h.2]
    exact hsize
  unfold Matches
  rw [h.2, h.1, hfield, show s - 1 + 1 = s by omega]
  rw [hfield] at hk
  have h₀ : (rasrOf r).getLsbD 0 = true := h₀
  have hk : (rasrOf r).getLsbD (8 + (a >>> (s - 1 - 2)).toNat % 8) = false := hk
  rw [h₀, hk, Bool.true_and, Bool.not_false, Bool.and_true]
  exact decide_eq_decide.mpr (hs.contains_iff a)

theorem Holds.permits (h : m.Holds i r) (hs : r.Sized s) (hc : m.ctrl.getLsbD 0 = true) (hd : m.deciding a = some i)
    (x : Access) : m.permits a x = r.armGives x := by
  have hge := hs.ge
  have hlt := hs.lt
  obtain ⟨-, -, -, hap, hxn⟩ := rasrValue_fields ⟨s - 1, by omega⟩ (r.attr &&& attrWrite ≠ 0)
    (r.attr &&& attrExec ≠ 0) (r.attr &&& attrDevice ≠ 0)
  dsimp only at hap hxn
  rw [← hs.mpuRasrSize] at hap hxn
  have hap : (rasrOf r).extractLsb' 24 3 = if decide (r.attr &&& attrWrite ≠ 0) = true then 3 else 6 := hap
  have hxn : (rasrOf r).getLsbD 28 = !decide (r.attr &&& attrExec ≠ 0) := hxn
  unfold ArmMpu.permits
  rw [hc, hd]
  dsimp only
  rw [h.2, hap, hxn]
  cases x with
  | read =>
    show (apPermits _ .read && true) = true
    generalize decide (r.attr &&& attrWrite ≠ 0) = w
    cases w <;> decide
  | write =>
    show (apPermits _ .write && true) = decide (r.attr &&& attrWrite ≠ 0)
    generalize decide (r.attr &&& attrWrite ≠ 0) = w
    cases w <;> decide
  | exec =>
    show (apPermits _ .exec && !(true && !_)) = decide (r.attr &&& attrExec ≠ 0)
    generalize decide (r.attr &&& attrWrite ≠ 0) = w
    generalize decide (r.attr &&& attrExec ≠ 0) = e
    cases w <;> cases e <;> decide

/-! ### The unit of ARMv7-M decides by the last region -/

/-- The last of the first numbers that pass a test. -/
theorem find_range_reverse {p : ℕ → Bool} {n j : ℕ} (hj : j < n) (hp : p j = true)
    (hlast : ∀ i, j < i → i < n → p i = false) : (List.range n).reverse.find? p = some j := by
  induction n with
  | zero => omega
  | succ n ih =>
    rw [List.range_succ, List.reverse_append, List.reverse_singleton, List.singleton_append, List.find?_cons]
    rcases Nat.lt_or_eq_of_le (Nat.le_of_lt_succ hj) with hlt | rfl
    · rw [hlast n hlt (Nat.lt_succ_self n)]
      exact ih hlt fun i hji hin => hlast i hji (Nat.lt_succ_of_lt hin)
    · rw [hp]

theorem regionConfigure_eq (hs : r.Sized s) (m : ArmMpu) (i : ℕ) : m.regionConfigure i r =
    { m with rnr := i, rbar := Function.update m.rbar i r.base, rasr := Function.update m.rasr i (rasrOf r) } := by
  have hbit : r.base.getLsbD 4 = false := by
    have hmod : (r.base.toNat % 2 ^ s).testBit 4 = false := by rw [hs.aligned, Nat.zero_testBit]
    have hge := hs.ge
    rw [Nat.testBit_mod_two_pow, decide_eq_true (by omega), Bool.true_and] at hmod
    exact hmod
  unfold regionConfigure writeRbar writeRasr
  dsimp only
  rw [hbit]
  rfl

/-- The loop over the regions of the task: they are in the slots behind `i`, and the others are as they were. -/
theorem configureRegions_spec {rs : List Region} (hv : ∀ r ∈ rs, ∃ s, r.Sized s) (m : ArmMpu) (i : ℕ) :
    (m.configureRegions i rs).ctrl = m.ctrl ∧ (∀ k r, rs[k]? = some r → (m.configureRegions i rs).Holds (i + 1 + k) r) ∧
      ∀ j, j ≤ i ∨ i + rs.length < j →
        (m.configureRegions i rs).rbar j = m.rbar j ∧ (m.configureRegions i rs).rasr j = m.rasr j := by
  induction rs generalizing m i with
  | nil => exact ⟨rfl, by simp, fun _ _ => ⟨rfl, rfl⟩⟩
  | cons r rs ih =>
    obtain ⟨s, hs⟩ := hv r (by simp)
    obtain ⟨hc, hin, hout⟩ := ih (fun r hr => hv r (by simp [hr])) (m.regionConfigure (i + 1) r) (i + 1)
    rw [configureRegions]
    rw [regionConfigure_eq hs] at hc hin hout ⊢
    refine ⟨hc, fun k q hk => ?_, fun j hj => ?_⟩
    · cases k with
      | zero =>
        obtain rfl : r = q := by simpa using hk
        obtain ⟨h₁, h₂⟩ := hout (i + 1) (.inl le_rfl)
        exact ⟨by rw [h₁]; simp, by rw [h₂]; simp⟩
      | succ k =>
        have := hin k q (by simpa using hk)
        rwa [show i + 1 + 1 + k = i + 1 + (k + 1) by omega] at this
    · have hj' : j ≤ i + 1 ∨ i + 1 + rs.length < j := by
        simp only [List.length_cons] at hj
        omega
      have hne : j ≠ i + 1 := by
        simp only [List.length_cons] at hj
        omega
      obtain ⟨h₁, h₂⟩ := hout j hj'
      exact ⟨by rw [h₁]; simp [hne], by rw [h₂]; simp [hne]⟩

theorem disabled_not_matches (h : m.rasr i = 0) : m.Matches a i = false := by
  unfold Matches
  rw [h]
  simp

/-- The last region around an address. -/
def lastAround (rs : List Region) (a : Word) : Option Region := rs.reverse.find? fun r => decide (r.Contains a)

/-- **The unit of ARMv7-M**: the last region around an address decides what the task may do there. -/
theorem permits_eq [cfg : MpuConfig] {t : Mpu.Task} (hu : t.user = true) (hv : t.Valid)
    (hl : t.regions.length ≤ cfg.regionsPerTask) (hlast : lastAround t.regions a = some r) (x : Access) :
    (m.configureTask t).permits a x = r.armGives x := by
  have hl3 := hl.trans cfg.regionsPerTask_le
  -- the slots, when all has been written
  have hconf : ∃ m₀ : ArmMpu, (∀ j, 0 < j → j < 8 → m₀.rasr j = 0) ∧
      m.configureTask t = { m₀.configureRegions 0 t.regions with ctrl := mpuCtrlEnable ||| mpuCtrlPrivdefena } := by
    refine ⟨((List.range 8).foldl regionDisable { m with ctrl := 0 }).regionConfigure 0
      { base := flashBase, size := flashSize, attr := attrRead ||| attrExec }, fun j h0 h8 => ?_, ?_⟩
    · have hflash : (⟨flashBase, flashSize, attrRead ||| attrExec⟩ : Region).Sized 19 :=
        ⟨by decide, by decide, by decide, by decide, by decide⟩
      rw [regionConfigure_eq hflash]
      interval_cases j <;> rfl
    · unfold configureTask
      dsimp only
      rw [hu, if_pos rfl, if_neg (not_lt.mpr hl), List.take_length]
  obtain ⟨m₀, hzero, hconf⟩ := hconf
  obtain ⟨-, hin, hout⟩ := configureRegions_spec hv m₀ 0
  -- the place of the last region around the address
  obtain ⟨hr, as, bs, hrev, has⟩ := List.find?_eq_some_iff_append.mp hlast
  have hr : r.Contains a := of_decide_eq_true hr
  have hrs : t.regions = bs.reverse ++ r :: as.reverse := by
    rw [← List.reverse_inj, hrev]
    simp
  have hget : t.regions[bs.length]? = some r := by
    rw [hrs]
    simp
  have hlen : t.regions.length = bs.length + 1 + as.length := by
    rw [hrs]
    simp
    omega
  have hholds : (m.configureTask t).Holds (bs.length + 1) r := by
    have := hin bs.length r hget
    rw [hconf]
    rwa [show 0 + 1 + bs.length = bs.length + 1 by omega] at this
  obtain ⟨s, hs⟩ := hv r (by simp [hrs])
  have hctrl : (m.configureTask t).ctrl.getLsbD 0 = true := by
    rw [hconf]
    show (mpuCtrlEnable ||| mpuCtrlPrivdefena).getLsbD 0 = true
    decide
  refine hholds.permits hs hctrl (find_range_reverse (by omega) ?_ fun j hj h8 => ?_) x
  · rw [hholds.matches hs]
    exact decide_eq_true hr
  · -- a later slot holds a region that is not around the address, or none
    by_cases hjl : j ≤ t.regions.length
    · obtain ⟨q, hq⟩ : ∃ q, t.regions[j - 1]? = some q :=
        Option.isSome_iff_exists.mp (by rw [isSome_getElem?]; omega)
      have hqas : q ∈ as := by
        rw [hrs, List.getElem?_append_right (by simp; omega), List.length_reverse,
          show j - 1 - bs.length = (j - 2 - bs.length) + 1 by omega, List.getElem?_cons_succ] at hq
        exact List.mem_reverse.mp (List.mem_of_getElem? hq)
      have hqh : (m.configureTask t).Holds j q := by
        have := hin (j - 1) q hq
        rw [hconf]
        rwa [show 0 + 1 + (j - 1) = j by omega] at this
      obtain ⟨s', hs'⟩ := hv q (List.mem_of_getElem? hq)
      rw [hqh.matches hs']
      simpa using has q hqas
    · refine disabled_not_matches ?_
      rw [hconf]
      exact ((hout j (.inr (by omega))).2).trans (hzero j (by omega) h8)

end Aixos.ArmMpu

namespace Aixos.Pmp

open Mpu

variable {r : Region} {s : ℕ} {p : Pmp} {a : Word} {i j : ℕ}

/-! ### The registers of RISC-V -/

theorem length_takeWhile_range {q : ℕ → Bool} {n k : ℕ} (hn : n < k) (hq : ∀ i < n, q i = true) (hq' : q n = false) :
    ((List.range k).takeWhile q).length = n := by
  obtain ⟨d, rfl⟩ := Nat.exists_eq_add_of_lt hn
  rw [show n + d + 1 = n + (d + 1) by omega, List.range_add, List.takeWhile_append_of_pos (by simpa using hq),
    List.range_succ_eq_map, List.map_cons, List.takeWhile_cons, Nat.add_zero, hq']
  simp

/-- The low bits of an aligned base are zero. -/
theorem base_getLsbD (hs : r.Sized s) (hi : i < s) : r.base.getLsbD i = false := by
  have h : (r.base.toNat % 2 ^ s).testBit i = false := by rw [hs.aligned, Nat.zero_testBit]
  rw [Nat.testBit_mod_two_pow, decide_eq_true hi, Bool.true_and] at h
  exact h

theorem size_sub_one_getLsbD (hs : r.Sized s) (i : ℕ) : (r.size - 1).getLsbD i = decide (i < s) := by
  have h1 : (1 : Word).toNat = 1 := rfl
  show (r.size - 1).toNat.testBit i = _
  rw [BitVec.toNat_sub_of_le (show (1 : Word).toNat ≤ r.size.toNat from hs.pos), h1, hs.size, Nat.testBit_two_pow_sub_one]

/-- **`pmp_napot`**: the low bits name the size. -/
theorem napot_getLsbD (hs : r.Sized s) (i : ℕ) :
    (napot r.base r.size).getLsbD i = (r.base.getLsbD (2 + i) || decide (3 + i < s)) := by
  unfold napot
  rw [BitVec.getLsbD_or, BitVec.getLsbD_ushiftRight, BitVec.getLsbD_ushiftRight, size_sub_one_getLsbD hs]

theorem trailingOnes_napot (hs : r.Sized s) : trailingOnes (napot r.base r.size) = s - 3 := by
  have hge := hs.ge
  have hlt := hs.lt
  refine length_takeWhile_range (by omega) (fun i hi => ?_) ?_
  · rw [napot_getLsbD hs, decide_eq_true (by omega), Bool.or_true]
  · rw [napot_getLsbD hs, base_getLsbD hs (by omega), decide_eq_false (by omega)]
    rfl

theorem napot_ushiftRight (hs : r.Sized s) : napot r.base r.size >>> (s - 2) = r.base >>> s := by
  have hge := hs.ge
  apply BitVec.eq_of_getLsbD_eq
  intro i _
  rw [BitVec.getLsbD_ushiftRight, BitVec.getLsbD_ushiftRight, napot_getLsbD hs, decide_eq_false (by omega), Bool.or_false,
    show 2 + (s - 2 + i) = s + i by omega]

/-- The fields of a configuration byte. -/
theorem attr_fields (v : Word) : (∀ k, 8 ≤ k → (attr v).getLsbD k = false) ∧
    ((attr v).extractLsb' 0 8).extractLsb' 3 2 = 3 ∧ ((attr v).extractLsb' 0 8).getLsbD 0 = decide (v &&& attrRead ≠ 0) ∧
      ((attr v).extractLsb' 0 8).getLsbD 1 = decide (v &&& attrWrite ≠ 0) ∧
        ((attr v).extractLsb' 0 8).getLsbD 2 = decide (v &&& attrExec ≠ 0) := by
  have key : ∀ x w e : Bool,
      let c := pmpANapot
      let c := if x then c ||| pmpR else c
      let c := if w then c ||| pmpW else c
      let c := if e then c ||| pmpX else c
      c >>> 8 = 0 ∧ (c.extractLsb' 0 8).extractLsb' 3 2 = 3 ∧ (c.extractLsb' 0 8).getLsbD 0 = x ∧
        (c.extractLsb' 0 8).getLsbD 1 = w ∧ (c.extractLsb' 0 8).getLsbD 2 = e := by decide
  obtain ⟨h, h₁, h₂, h₃, h₄⟩ := key (decide (v &&& attrRead ≠ 0)) (decide (v &&& attrWrite ≠ 0))
    (decide (v &&& attrExec ≠ 0))
  simp only [decide_eq_true_eq] at h h₁ h₂ h₃ h₄
  refine ⟨fun k hk => ?_, h₁, h₂, h₃, h₄⟩
  have hk' := congrArg (BitVec.getLsbD · (k - 8)) h
  simp only [BitVec.getLsbD_ushiftRight, show 8 + (k - 8) = k by omega] at hk'
  exact hk'.trans BitVec.getLsbD_zero

/-- A configuration byte that is stored into its place. -/
theorem extract_or_shift (c v : Word) (hv : ∀ k, 8 ≤ k → v.getLsbD k = false) (hi : i < 4) (hj : j < 4) :
    (c ||| v <<< (8 * i)).extractLsb' (8 * j) 8 =
      if j = i then c.extractLsb' (8 * j) 8 ||| v.extractLsb' 0 8 else c.extractLsb' (8 * j) 8 := by
  apply BitVec.eq_of_getLsbD_eq
  intro b hb
  split
  · rename_i e
    subst e
    simp only [BitVec.getLsbD_extractLsb', BitVec.getLsbD_or, BitVec.getLsbD_shiftLeft, hb, decide_true, Bool.true_and]
    rw [decide_eq_true (by omega : 8 * j + b < 32), decide_eq_false (by omega : ¬ 8 * j + b < 8 * j),
      show 8 * j + b - 8 * j = 0 + b by omega]
    rfl
  · rename_i hne
    simp only [BitVec.getLsbD_extractLsb', BitVec.getLsbD_or, BitVec.getLsbD_shiftLeft, hb, decide_true, Bool.true_and]
    rcases Nat.lt_or_gt_of_ne hne with hlt | hgt
    · rw [decide_eq_true (by omega : 8 * j + b < 8 * i)]
      simp
    · rw [hv (8 * j + b - 8 * i) (by omega)]
      simp

/-- Entry `i` of the unit holds the region `r`. -/
def Holds (p : Pmp) (i : ℕ) (r : Region) : Prop := p.addr i = napot r.base r.size ∧ p.byte i = (attr r.attr).extractLsb' 0 8

theorem Holds.matches (h : p.Holds i r) (hs : r.Sized s) : p.Matches a i = decide (r.Contains a) := by
  have hge := hs.ge
  unfold Matches
  rw [h.1, h.2, (attr_fields r.attr).2.1, trailingOnes_napot hs, show s - 3 + 3 = s by omega, show s - 3 + 1 = s - 2 by omega,
    napot_ushiftRight hs, decide_eq_true rfl, Bool.true_and]
  exact decide_eq_decide.mpr (hs.contains_iff a)

theorem Holds.permits (h : p.Holds i r) (hd : p.deciding a = some i) (x : Access) : p.permits a x = r.gives x := by
  obtain ⟨-, -, h₁, h₂, h₃⟩ := attr_fields r.attr
  unfold Pmp.permits
  rw [hd]
  dsimp only
  rw [h.2]
  cases x with
  | read => exact h₁
  | write => exact h₂
  | exec => exact h₃

/-- The loop over the regions of the task: they are in the entries from `i` on, and those before are as they were. -/
theorem configureRegions_spec (rs : List Region) (hi : i + rs.length ≤ 3) (p : Pmp)
    (hz : ∀ j, i ≤ j → j < 3 → p.byte j = 0) :
    (∀ k r, rs[k]? = some r → (configureRegions i p rs).Holds (i + k) r) ∧
      ∀ j, j < i → (configureRegions i p rs).addr j = p.addr j ∧ (configureRegions i p rs).byte j = p.byte j := by
  induction rs generalizing p i with
  | nil => exact ⟨by simp, fun _ _ => ⟨rfl, rfl⟩⟩
  | cons r rs ih =>
    simp only [List.length_cons] at hi
    have hbyte (j : ℕ) (hj : j < 4) : byte
        { addr := Function.update p.addr i (napot r.base r.size), cfg := p.cfg ||| attr r.attr <<< (8 * i) } j =
        if j = i then p.byte j ||| (attr r.attr).extractLsb' 0 8 else p.byte j :=
      extract_or_shift p.cfg (attr r.attr) (attr_fields r.attr).1 (by omega) hj
    obtain ⟨hin, hout⟩ := ih (i := i + 1) (by omega)
      { addr := Function.update p.addr i (napot r.base r.size), cfg := p.cfg ||| attr r.attr <<< (8 * i) }
      fun j hj h3 => by
        rw [hbyte j (by omega), if_neg (by omega)]
        exact hz j (by omega) h3
    rw [configureRegions]
    refine ⟨fun k q hk => ?_, fun j hj => ?_⟩
    · cases k with
      | zero =>
        obtain rfl : r = q := by simpa using hk
        obtain ⟨h₁, h₂⟩ := hout i (Nat.lt_succ_self i)
        rw [show i + 0 = i from rfl]
        refine ⟨by rw [h₁]; simp, ?_⟩
        rw [h₂, hbyte i (by omega), if_pos rfl, hz i le_rfl (by omega)]
        exact BitVec.zero_or
      | succ k =>
        have := hin k q (by simpa using hk)
        rwa [show i + 1 + k = i + (k + 1) by omega] at this
    · obtain ⟨h₁, h₂⟩ := hout j (by omega)
      refine ⟨by rw [h₁]; simp [show j ≠ i by omega], ?_⟩
      rw [h₂, hbyte j (by omega), if_neg (by omega)]

/-- The first region around an address. -/
def firstAround (rs : List Region) (a : Word) : Option Region := rs.find? fun r => decide (r.Contains a)

/-- **The unit of RISC-V**: the first region around an address decides what the task may do there. -/
theorem permits_eq {t : Mpu.Task} (hu : t.user = true) (hv : t.Valid) (hl : t.regions.length ≤ 3)
    (hfirst : firstAround t.regions a = some r) (x : Access) : (configureTask t).permits a x = r.gives x := by
  obtain ⟨hin, -⟩ := configureRegions_spec t.regions (i := 0) (by omega) { addr := fun _ => 0, cfg := 0 }
    fun j _ h3 => by interval_cases j <;> rfl
  generalize hp : configureRegions 0 { addr := fun _ => 0, cfg := 0 } t.regions = p at hin
  have hconf : configureTask t =
      { addr := Function.update p.addr 3 (napot riscvRamBase riscvRamSize)
        cfg := p.cfg ||| attr (attrRead ||| attrExec) <<< 24 } := by
    unfold configureTask
    dsimp only
    rw [hu, if_pos rfl, if_neg (by omega), List.take_length, hp]
  have hholds (k : ℕ) (q : Region) (hk : t.regions[k]? = some q) : (configureTask t).Holds k q := by
    have hk3 : k < 3 := by
      have := (List.getElem?_eq_some_iff.mp hk).1
      omega
    obtain ⟨h₁, h₂⟩ := hin k q hk
    rw [Nat.zero_add] at h₁ h₂
    rw [hconf]
    refine ⟨by simp [show k ≠ 3 by omega, h₁], ?_⟩
    have := extract_or_shift (i := 3) (j := k) p.cfg _ (attr_fields (attrRead ||| attrExec)).1 (by omega) (by omega)
    rw [if_neg (by omega)] at this
    exact this.trans h₂
  obtain ⟨hr, as, bs, hrs, has⟩ := List.find?_eq_some_iff_append.mp hfirst
  have hr : r.Contains a := of_decide_eq_true hr
  have hget : t.regions[as.length]? = some r := by
    rw [hrs]
    simp
  have hlen : as.length < 3 := by
    have := (List.getElem?_eq_some_iff.mp hget).1
    omega
  obtain ⟨s, hs⟩ := hv r (by simp [hrs])
  refine (hholds as.length r hget).permits ?_ x
  refine List.find?_range_eq_some.mpr ⟨?_, by simp; omega, fun j hj => ?_⟩
  · rw [(hholds as.length r hget).matches hs]
    exact decide_eq_true hr
  · -- an earlier entry holds a region that is not around the address
    obtain ⟨q, hq⟩ : ∃ q, as[j]? = some q := Option.isSome_iff_exists.mp (by rw [isSome_getElem?]; omega)
    have hq' : t.regions[j]? = some q := by
      rw [hrs, List.getElem?_append_left hj]
      exact hq
    obtain ⟨s', hs'⟩ := hv q (List.mem_of_getElem? hq')
    rw [(hholds j q hq').matches hs']
    exact has q (List.mem_of_getElem? hq)

end Aixos.Pmp
