import Mathlib.Algebra.Order.Ring.Nat
import Mathlib.Data.List.GetD
import Mathlib.Tactic.Common

/-!
# Memory, byte by byte

A memory gives a byte for every address.

* `le`, `ofLe` — numbers as little-endian bytes.
* `ByteMemory.load`, `ByteMemory.store` — reading and writing some bytes in a row.
* `ByteMemory.Agree` — two memories have the same bytes from one address up to another; `ByteMemory.Within`: they have
  the same bytes everywhere else.
-/

/-- The `n` little-endian bytes of a number. -/
def le : ℕ → ℕ → List UInt8
  | 0, _ => []
  | n + 1, v => UInt8.ofNat v :: le n (v / 256)

/-- The number that has these little-endian bytes. -/
def ofLe : List UInt8 → ℕ
  | [] => 0
  | b :: bs => b.toNat + 256 * ofLe bs

@[simp] theorem length_le (n v : ℕ) : (le n v).length = n := by
  induction n generalizing v with
  | zero => rfl
  | succ n ih => rw [le, List.length_cons, ih]

@[simp] theorem take_le_append (n v : ℕ) (bs : List UInt8) : (le n v ++ bs).take n = le n v :=
  List.take_left' (length_le n v)

@[simp] theorem drop_le_append (n v : ℕ) (bs : List UInt8) : (le n v ++ bs).drop n = bs :=
  List.drop_left' (length_le n v)

@[simp] theorem take_le (n v : ℕ) : (le n v).take n = le n v := List.take_of_length_le (Nat.le_of_eq (length_le n v))

theorem ofLe_le {n v : ℕ} (h : v < 256 ^ n) : ofLe (le n v) = v := by
  induction n generalizing v with
  | zero =>
    rw [Nat.pow_zero, Nat.lt_one_iff] at h
    rw [h]
    rfl
  | succ n ih =>
    have hdiv : v / 256 < 256 ^ n := Nat.div_lt_of_lt_mul (by rwa [Nat.pow_succ'] at h)
    rw [le, ofLe, ih hdiv, UInt8.toNat_ofNat']
    exact Nat.mod_add_div v 256

/-- A byte for every address. -/
abbrev ByteMemory := ℕ → UInt8

namespace ByteMemory

/-- The `n` bytes from address `a` on. -/
def load (m : ByteMemory) (a n : ℕ) : List UInt8 := (List.range n).map fun i => m (a + i)

/-- Write bytes from address `a` on. -/
def store (m : ByteMemory) (a : ℕ) (bs : List UInt8) : ByteMemory :=
  fun x => if a ≤ x then bs.getD (x - a) (m x) else m x

/-- The memories have the same bytes from `a` up to `b`. -/
def Agree (m m' : ByteMemory) (a b : ℕ) : Prop := ∀ x, a ≤ x → x < b → m' x = m x

/-- The memories differ from `a` up to `b` at most. -/
def Within (m m' : ByteMemory) (a b : ℕ) : Prop := ∀ x, x < a ∨ b ≤ x → m' x = m x

variable {m m' m'' : ByteMemory} {a b c d n : ℕ} {bs : List UInt8}

@[simp] theorem length_load (m : ByteMemory) (a n : ℕ) : (m.load a n).length = n := by simp [load]

theorem load_eq_iff : m'.load a n = m.load a n ↔ Agree m m' a (a + n) := by
  simp only [load, List.map_inj_left, List.mem_range]
  constructor
  · intro h x hx hxn
    obtain ⟨i, rfl⟩ := Nat.exists_eq_add_of_le hx
    exact h i (by omega)
  · exact fun h i hi => h (a + i) (by omega) (by omega)

/-- What is written is outside. -/
theorem store_of_outside {x : ℕ} (h : x < a ∨ a + bs.length ≤ x) : m.store a bs x = m x := by
  unfold store
  split
  · exact List.getD_eq_default _ _ (by omega)
  · rfl

theorem store_inside {i : ℕ} (h : i < bs.length) : m.store a bs (a + i) = bs[i] := by
  unfold store
  rw [if_pos (Nat.le_add_right a i), Nat.add_sub_cancel_left, List.getD_eq_getElem _ _ h]

theorem load_store (m : ByteMemory) (a : ℕ) (bs : List UInt8) : (m.store a bs).load a bs.length = bs := by
  refine List.ext_getElem (length_load ..) fun i hi hi' => ?_
  simp only [load, List.getElem_map, List.getElem_range]
  exact store_inside hi'

theorem store_append (m : ByteMemory) (a : ℕ) (bs cs : List UInt8) :
    m.store a (bs ++ cs) = (m.store a bs).store (a + bs.length) cs := by
  funext x
  rcases Nat.lt_or_ge x (a + bs.length) with hx | hx
  · rw [store_of_outside (.inl hx)]
    unfold store
    split
    · rw [List.getD_append _ _ _ _ (by omega)]
    · rfl
  · have e : (m.store a bs) x = m x := store_of_outside (.inr hx)
    unfold store at e ⊢
    rw [e, if_pos (by omega), if_pos hx, List.getD_append_right _ _ _ _ (by omega), Nat.sub_sub]

namespace Agree

theorem refl (m : ByteMemory) (a b : ℕ) : Agree m m a b := fun _ _ _ => rfl

theorem trans (h : Agree m m' a b) (h' : Agree m' m'' a b) : Agree m m'' a b :=
  fun x hx hxb => (h' x hx hxb).trans (h x hx hxb)

theorem mono (h : Agree m m' a b) (ha : a ≤ c) (hd : d ≤ b) : Agree m m' c d :=
  fun x hx hxb => h x (Nat.le_trans ha hx) (Nat.lt_of_lt_of_le hxb hd)

theorem load (h : Agree m m' a b) (ha : a ≤ c) (hb : c + n ≤ b) : m'.load c n = m.load c n :=
  load_eq_iff.mpr (h.mono ha hb)

end Agree

namespace Within

theorem refl (m : ByteMemory) (a b : ℕ) : Within m m a b := fun _ _ => rfl

theorem trans (h : Within m m' a b) (h' : Within m' m'' a b) : Within m m'' a b :=
  fun x hx => (h' x hx).trans (h x hx)

theorem mono (h : Within m m' c d) (ha : a ≤ c) (hd : d ≤ b) : Within m m' a b :=
  fun x hx => h x (by omega)

theorem store (ha : a ≤ c) (hb : c + bs.length ≤ b) : Within m (m.store c bs) a b :=
  fun _ _ => store_of_outside (by omega)

/-- What lies apart from the changes is as it was. -/
theorem agree (h : Within m m' a b) (hx : d ≤ a ∨ b ≤ c) : Agree m m' c d := fun x _ _ => h x (by omega)

end Within

end ByteMemory
