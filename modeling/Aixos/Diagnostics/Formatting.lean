import Aixos.Kernel.Strings

/-!
# What is printed

* `rendering` — the characters that a format and its arguments stand for, written down without buffers.
* `digitsLoop_eq` — the digits are taken from the last one on, and there is room for them.
* `Output.after`, `snprintfLoop_eq` — what the loop has done after some characters: however many there are, the first
  ones are in the buffer, and all are counted.
* `snprintf_eq` — `aixos_snprintf` prints the rendering.
-/

namespace Aixos

open ByteMemory

/-! ### What a format stands for -/

/-- A number in decimal. -/
def decimal (n : ℕ) : List UInt8 := (Nat.toDigits 10 n).map chr

/-- A number in hexadecimal, with capital letters. -/
def hexadecimal (n : ℕ) : List UInt8 := (Nat.toDigits 16 n).map fun c => chr c.toUpper

/-- An integer in decimal. -/
def signedDecimal (i : ℤ) : List UInt8 := if i < 0 then chr '-' :: decimal i.natAbs else decimal i.natAbs

/-- The characters that a format stands for. A percent sign that begins no conversion stands for itself. -/
def rendering : List UInt8 → (args : ℕ → Word) → List UInt8
  | [], _ => []
  | [c], _ => [c]
  | c :: d :: format, args =>
    if c = chr '%' ∧ d = chr '%' then chr '%' :: rendering format args
    else if c = chr '%' ∧ d = chr 'd' then signedDecimal (args 0).toInt ++ rendering format fun i => args (i + 1)
    else if c = chr '%' ∧ d = chr 'u' then decimal (args 0).toNat ++ rendering format fun i => args (i + 1)
    else if c = chr '%' ∧ d = chr 'X' then hexadecimal (args 0).toNat ++ rendering format fun i => args (i + 1)
    else c :: rendering (d :: format) args

/-! ### Digits -/

theorem digitChar_decimal : ∀ d : Fin 10, digitChar (BitVec.ofNat 32 d) = chr (Nat.digitChar d) := by decide

theorem digitChar_hexadecimal : ∀ d : Fin 16, digitChar (BitVec.ofNat 32 d) = chr (Nat.digitChar d).toUpper := by decide

/-- **The digits of a number**, in the order in which they are read. -/
theorem digitsLoop_eq {f : Char → UInt8} {base : Word} {room : ℕ} {value : Word} {digits : List UInt8}
    (hb : 1 < base.toNat) (hf : ∀ d < base.toNat, digitChar (BitVec.ofNat 32 d) = f (Nat.digitChar d))
    (hv : value.toNat < base.toNat ^ room) (hr : 0 < room) :
    digitsLoop base room value digits = some ((Nat.toDigits base.toNat value.toNat).map f ++ digits) := by
  induction room generalizing value digits with
  | zero => omega
  | succ room ih =>
    have hmod : digitChar (value % base) = f (Nat.digitChar (value.toNat % base.toNat)) := by
      rw [← hf _ (Nat.mod_lt _ (by omega)), ← BitVec.toNat_umod, BitVec.ofNat_toNat, BitVec.setWidth_eq]
    have hdiv : (value / base).toNat = value.toNat / base.toNat := BitVec.toNat_udiv
    rw [digitsLoop, Nat.toDigits_eq_if hb, hmod]
    by_cases hlt : value.toNat < base.toNat
    · have hz : value / base = 0 := BitVec.eq_of_toNat_eq (by rw [hdiv, Nat.div_eq_of_lt hlt]; rfl)
      rw [if_neg (not_not.mpr hz), if_pos hlt, Nat.mod_eq_of_lt hlt]
      rfl
    · have hpos : 0 < value.toNat / base.toNat := Nat.div_pos (Nat.not_lt.mp hlt) (by omega)
      have hz : value / base ≠ 0 := fun e => by
        rw [e] at hdiv
        exact absurd hdiv.symm (Nat.ne_of_gt hpos)
      have hroom : 0 < room := by
        rcases Nat.eq_zero_or_pos room with rfl | h
        · rw [Nat.zero_add, Nat.pow_one] at hv
          exact absurd hv hlt
        · exact h
      have hv' : (value / base).toNat < base.toNat ^ room := by
        rw [hdiv]
        exact Nat.div_lt_of_lt_mul (by rwa [Nat.pow_succ'] at hv)
      rw [if_pos hz, if_neg hlt, ih hv' hroom, hdiv, List.map_append, List.append_assoc]
      rfl

theorem number_decimal (value : Word) : number false value 10 = some (decimal value.toNat) := by
  have e : digitsLoop 10 16 value [] = some ((Nat.toDigits 10 value.toNat).map chr ++ []) :=
    digitsLoop_eq (by decide) (fun d hd => digitChar_decimal ⟨d, hd⟩) (Nat.lt_of_lt_of_le value.isLt (by decide)) (by decide)
  rw [number, e, List.append_nil]
  rfl

theorem number_hexadecimal (value : Word) : number false value 16 = some (hexadecimal value.toNat) := by
  have e : digitsLoop 16 16 value [] = some ((Nat.toDigits 16 value.toNat).map (fun c => chr c.toUpper) ++ []) :=
    digitsLoop_eq (by decide) (fun d hd => digitChar_hexadecimal ⟨d, hd⟩) (Nat.lt_of_lt_of_le value.isLt (by decide)) (by decide)
  rw [number, e, List.append_nil]
  rfl

/-- Ten digits and the sign have room. -/
theorem number_negative (value : Word) : number true value 10 = some (chr '-' :: decimal value.toNat) := by
  have e : digitsLoop 10 16 value [] = some ((Nat.toDigits 10 value.toNat).map chr ++ []) :=
    digitsLoop_eq (by decide) (fun d hd => digitChar_decimal ⟨d, hd⟩) (Nat.lt_of_lt_of_le value.isLt (by decide)) (by decide)
  have hlen : (Nat.toDigits 10 value.toNat).length ≤ 10 :=
    (Nat.length_toDigits_le_iff (by decide) (by decide)).mpr (Nat.lt_of_lt_of_le value.isLt (by decide))
  rw [number, e, List.append_nil]
  dsimp only
  rw [if_pos rfl, if_pos (by rw [List.length_map]; omega)]
  rfl

/-- **The most negative integer** has its digits, too. -/
theorem number_signed (v : Word) : number (decide (v.toInt < 0)) (if decide (v.toInt < 0) then BitVec.ofInt 32 (-v.toInt) else v)
    10 = some (signedDecimal v.toInt) := by
  have hlt := v.isLt
  have hi : v.toInt = if 2 * v.toNat < 2 ^ 32 then (v.toNat : ℤ) else (v.toNat : ℤ) - 2 ^ 32 := BitVec.toInt_eq_toNat_cond v
  unfold signedDecimal
  by_cases hneg : v.toInt < 0
  · have hval : (BitVec.ofInt 32 (-v.toInt)).toNat = v.toInt.natAbs := by
      rw [BitVec.toNat_ofInt]
      omega
    rw [decide_eq_true hneg, if_pos rfl, if_pos hneg, number_negative, hval]
  · have hval : v.toNat = v.toInt.natAbs := by omega
    rw [decide_eq_false hneg, if_neg (by decide), if_neg hneg, number_decimal, hval]

/-! ### The buffer -/

namespace Output

variable {m : ByteMemory} {str size : ℕ} {t : List UInt8}

/-- Some characters have been put into the buffer. -/
def after (m : ByteMemory) (str size : ℕ) (t : List UInt8) : Output where
  mem := m.store str (t.take (size - 1))
  written := min t.length (size - 1)
  total := BitVec.ofNat 32 t.length

theorem put_after (c : UInt8) : (after m str size t).put str size c = after m str size (t ++ [c]) := by
  have htotal : BitVec.ofNat 32 t.length + 1 = BitVec.ofNat 32 (t ++ [c]).length := by
    rw [List.length_append, BitVec.ofNat_add]
    rfl
  by_cases hlt : t.length < size - 1
  · have hle : (t ++ [c]).length ≤ size - 1 := by
      rw [List.length_append]
      exact hlt
    unfold put
    rw [if_pos (show (after m str size t).written + 1 < size by show min t.length (size - 1) + 1 < size; omega)]
    simp only [after, htotal, min_eq_left hlt.le, min_eq_left hle, List.take_of_length_le hlt.le, List.take_of_length_le hle,
      store_append]
    rw [List.length_append]
    rfl
  · have hge : size - 1 ≤ (t ++ [c]).length := by
      rw [List.length_append]
      omega
    unfold put
    rw [if_neg (show ¬ (after m str size t).written + 1 < size by show ¬ min t.length (size - 1) + 1 < size; omega)]
    simp only [after, htotal, min_eq_right (Nat.not_lt.mp hlt), min_eq_right hge, List.take_append_of_le_length (Nat.not_lt.mp hlt)]

theorem foldl_put_after (cs : List UInt8) :
    cs.foldl (·.put str size) (after m str size t) = after m str size (t ++ cs) := by
  induction cs generalizing t with
  | nil => rw [List.append_nil]; rfl
  | cons c cs ih => rw [List.foldl_cons, put_after, ih, List.append_assoc]; rfl

end Output

open Output

theorem snprintfLoop_percent {m : ByteMemory} {str size : ℕ} {d : UInt8} {rest t : List UInt8} {args : ℕ → Word} :
    snprintfLoop str size (chr '%' :: d :: rest) args (after m str size t) =
      if d = chr '%' then snprintfLoop str size rest args (after m str size (t ++ [chr '%']))
      else if d = chr 'd' then
        snprintfLoop str size rest (fun i => args (i + 1)) (after m str size (t ++ signedDecimal (args 0).toInt))
      else if d = chr 'u' then
        snprintfLoop str size rest (fun i => args (i + 1)) (after m str size (t ++ decimal (args 0).toNat))
      else if d = chr 'X' then
        snprintfLoop str size rest (fun i => args (i + 1)) (after m str size (t ++ hexadecimal (args 0).toNat))
      else snprintfLoop str size (d :: rest) args (after m str size (t ++ [chr '%'])) := by
  rw [snprintfLoop, if_neg (not_not.mpr rfl)]
  dsimp only
  rw [put_after, number_signed, number_decimal, number_hexadecimal]
  dsimp only
  rw [foldl_put_after, foldl_put_after, foldl_put_after]

/-- **The loop** puts the rendering into the buffer. -/
theorem snprintfLoop_eq {m : ByteMemory} {str size : ℕ} (format : List UInt8) (args : ℕ → Word) (t : List UInt8) :
    snprintfLoop str size format args (after m str size t) = some (after m str size (t ++ rendering format args)) := by
  induction format, args using rendering.induct generalizing t with
  | case1 args => rw [rendering, List.append_nil, snprintfLoop]
  | case2 c args =>
    rw [rendering, snprintfLoop]
    split
    · rw [put_after, snprintfLoop]
    · rename_i hc
      rw [← not_not.mp hc, put_after, snprintfLoop]
  | case3 c d format args hcd ih =>
    obtain ⟨rfl, rfl⟩ := hcd
    rw [snprintfLoop_percent, if_pos rfl, ih, rendering, if_pos ⟨rfl, rfl⟩, List.append_assoc]
    rfl
  | case4 c d format args h₁ hcd ih =>
    obtain ⟨rfl, rfl⟩ := hcd
    rw [snprintfLoop_percent, if_neg (by decide), if_pos rfl, ih, rendering, if_neg h₁, if_pos ⟨rfl, rfl⟩, List.append_assoc]
  | case5 c d format args h₁ h₂ hcd ih =>
    obtain ⟨rfl, rfl⟩ := hcd
    rw [snprintfLoop_percent, if_neg (by decide), if_neg (by decide), if_pos rfl, ih, rendering, if_neg h₁, if_neg h₂,
      if_pos ⟨rfl, rfl⟩, List.append_assoc]
  | case6 c d format args h₁ h₂ h₃ hcd ih =>
    obtain ⟨rfl, rfl⟩ := hcd
    rw [snprintfLoop_percent, if_neg (by decide), if_neg (by decide), if_neg (by decide), if_pos rfl, ih, rendering,
      if_neg h₁, if_neg h₂, if_neg h₃, if_pos ⟨rfl, rfl⟩, List.append_assoc]
  | case7 c d format args h₁ h₂ h₃ h₄ ih =>
    have e : rendering (c :: d :: format) args = c :: rendering (d :: format) args := by
      rw [rendering, if_neg h₁, if_neg h₂, if_neg h₃, if_neg h₄]
    rw [e, List.append_cons t c, ← ih]
    by_cases hc : c = chr '%'
    · subst hc
      rw [snprintfLoop_percent, if_neg fun hd => h₁ ⟨rfl, hd⟩, if_neg fun hd => h₂ ⟨rfl, hd⟩, if_neg fun hd => h₃ ⟨rfl, hd⟩,
        if_neg fun hd => h₄ ⟨rfl, hd⟩]
    · rw [snprintfLoop, if_pos hc, put_after]

/-- **`aixos_snprintf` prints the rendering**: it returns how long that is, and writes as much of it as there is room
for before the terminating zero, and nothing else. -/
theorem snprintf_eq (mem : ByteMemory) (str size : ℕ) (format : List UInt8) (args : ℕ → Word)
    (hlen : (rendering format args).length < 2 ^ 31) :
    ∃ mem' total, snprintf mem str size format args = some (mem', total) ∧
      total.toInt = (rendering format args).length ∧
      (0 < size → mem'.load str (min (rendering format args).length (size - 1) + 1) =
        (rendering format args).take (size - 1) ++ [0]) ∧
      Within mem mem' str (str + size) := by
  obtain ⟨t, ht⟩ : ∃ t, t = rendering format args := ⟨_, rfl⟩
  have hstart : ({ mem } : Output) = after mem str size [] := by
    have e : mem.store str [] = mem := funext fun x => store_of_outside (by simp only [List.length_nil]; omega)
    simp [after, e]
  have hloop : snprintfLoop str size format args { mem } = some (after mem str size t) := by
    rw [hstart, snprintfLoop_eq, ← ht, List.nil_append]
  rw [← ht] at hlen ⊢
  have htake : (t.take (size - 1)).length = min t.length (size - 1) := by rw [List.length_take, Nat.min_comm]
  refine ⟨_, _, by rw [snprintf, hloop]; rfl, ?_, ?_, ?_⟩
  · show (BitVec.ofNat 32 t.length).toInt = _
    rw [BitVec.toInt_eq_toNat_cond, BitVec.toNat_ofNat]
    omega
  · intro hpos
    have hlt : min t.length (size - 1) < size := by omega
    rw [if_pos (by omega)]
    show ByteMemory.load ((mem.store str (t.take (size - 1))).store
      (str + if min t.length (size - 1) < size then min t.length (size - 1) else size - 1) [0]) _ _ = _
    rw [if_pos hlt, ← htake, ← store_append]
    have hload := load_store mem str (t.take (size - 1) ++ [0])
    rwa [List.length_append] at hload
  · have hw : Within mem (mem.store str (t.take (size - 1))) str (str + size) :=
      Within.store le_rfl (by omega)
    show Within mem (if size ≠ 0 then _ else _) _ _
    split
    · refine hw.trans (Within.store (by omega) ?_)
      show str + (if min t.length (size - 1) < size then min t.length (size - 1) else size - 1) + 1 ≤ _
      split <;> omega
    · exact hw

/-- "%d!" and the most negative integer, in a buffer of four characters. -/
theorem snprintf_eq_truncated : ∃ mem' total, snprintf (fun _ => 0) 0x1000 4 [chr '%', chr 'd', chr '!'] (fun _ => 0x80000000) =
      some (mem', total) ∧ total.toInt = 12 ∧ mem'.load 0x1000 4 = [chr '-', chr '2', chr '1', 0] ∧
      Within (fun _ => 0) mem' 0x1000 0x1004 := by
  obtain ⟨mem', total, h, htotal, hload, hw⟩ := snprintf_eq (fun _ => 0) 0x1000 4 [chr '%', chr 'd', chr '!']
    (fun _ => 0x80000000) (by decide +kernel)
  have hlen : (rendering [chr '%', chr 'd', chr '!'] fun _ => 0x80000000).length = 12 := by decide +kernel
  have htake : (rendering [chr '%', chr 'd', chr '!'] fun _ => 0x80000000).take 3 = [chr '-', chr '2', chr '1'] := by
    decide +kernel
  rw [hlen] at htotal hload
  refine ⟨mem', total, h, htotal, ?_, hw⟩
  have := hload (by decide)
  rwa [show min 12 (4 - 1) + 1 = 4 from rfl, show 4 - 1 = 3 from rfl, htake] at this

end Aixos
