import Aixos.Kernel.Crash
import Aixos.Library.Crc
import Mathlib.Data.List.Induction

/-!
# Crash records can be trusted

* `crcBytes_ne_of_burst` — a change within 32 bits in a row changes the check.
* `crashRecordGet_completed` — a store that has been completed can be read.
* `crashRecordGet_torn` — a store that has not: the old record, none, or the new one.
* `crash_records` — both, and what is detected.

The bits of some bytes are counted from the lowest bit of the first byte on.
-/

namespace Aixos

/-! ### Records as bytes -/

theorem le_ofLe {n : ℕ} {bs : List UInt8} (h : bs.length = n) : le n (ofLe bs) = bs := by
  induction n generalizing bs with
  | zero => rw [List.eq_nil_of_length_eq_zero h]; rfl
  | succ n ih =>
    cases bs with
    | nil => cases h
    | cons b bs =>
      have hb := b.toNat_lt
      rw [ofLe, le, show (b.toNat + 256 * ofLe bs) / 256 = ofLe bs by omega, ih (Nat.succ.inj h)]
      congr 1
      apply UInt8.toNat_inj.mp
      rw [UInt8.toNat_ofNat']
      omega

theorem ofLe_lt (bs : List UInt8) : ofLe bs < 256 ^ bs.length := by
  induction bs with
  | nil => decide
  | cons b bs ih =>
    have hb := b.toNat_lt
    rw [ofLe, List.length_cons, Nat.pow_succ]
    omega

namespace CrashRecord

@[simp] theorem length_bytes (r : CrashRecord) : r.bytes.length = 60 := by
  simp [bytes]

/-- What is read is what has been written. -/
theorem ofBytes_bytes (r : CrashRecord) : ofBytes r.bytes = r := by
  have h32 : ∀ v : Word, BitVec.ofNat 32 (ofLe (le 4 v.toNat)) = v := fun v => by
    rw [ofLe_le (Nat.lt_of_lt_of_eq v.isLt rfl), BitVec.ofNat_toNat, BitVec.setWidth_eq]
  have h16 : ∀ v : BitVec 16, BitVec.ofNat 16 (ofLe (le 2 v.toNat)) = v := fun v => by
    rw [ofLe_le (Nat.lt_of_lt_of_eq v.isLt rfl), BitVec.ofNat_toNat, BitVec.setWidth_eq]
  obtain ⟨magic, version, size, sequence, buildId, architecture, reason, programCounter, faultAddress, stackPointer,
    taskHandle, tick, faultStatus, faultStatus2, auxiliary, crc32⟩ := r
  unfold ofBytes
  congr 1
  · exact h32 magic
  · exact h16 version
  · exact h16 size
  · exact h32 sequence
  · exact h32 buildId
  · exact h32 architecture
  · exact h32 reason
  · exact h32 programCounter
  · exact h32 faultAddress
  · exact h32 stackPointer
  · exact h32 taskHandle
  · exact h32 tick
  · exact h32 faultStatus
  · exact h32 faultStatus2
  · exact h32 auxiliary
  · exact h32 crc32

/-- A record has the bytes that have been read. -/
theorem bytes_ofBytes {bs : List UInt8} (h : bs.length = 60) : (ofBytes bs).bytes = bs := by
  have hle : ∀ o n, o + n ≤ 60 → ∀ w, 256 ^ n = 2 ^ w → le n (BitVec.ofNat w (fieldAt bs o n)).toNat = (bs.drop o).take n := by
    intro o n hn w hw
    have hlen : ((bs.drop o).take n).length = n := by simp [h]; omega
    have hlt := ofLe_lt ((bs.drop o).take n)
    rw [hlen, hw] at hlt
    rw [BitVec.toNat_ofNat, fieldAt, Nat.mod_eq_of_lt hlt, le_ofLe hlen]
  have happ : ∀ o n k, o + n = k → (bs.drop o).take n ++ bs.drop k = bs.drop o := by
    rintro o n k rfl
    rw [← List.drop_drop, List.take_append_drop]
  have hlast : (bs.drop 56).take 4 = bs.drop 56 := List.take_of_length_le (by simp [h])
  unfold bytes ofBytes
  dsimp only
  rw [hle 0 4 (by decide) 32 rfl, hle 4 2 (by decide) 16 rfl, hle 6 2 (by decide) 16 rfl, hle 8 4 (by decide) 32 rfl,
    hle 12 4 (by decide) 32 rfl, hle 16 4 (by decide) 32 rfl, hle 20 4 (by decide) 32 rfl, hle 24 4 (by decide) 32 rfl,
    hle 28 4 (by decide) 32 rfl, hle 32 4 (by decide) 32 rfl, hle 36 4 (by decide) 32 rfl, hle 40 4 (by decide) 32 rfl,
    hle 44 4 (by decide) 32 rfl, hle 48 4 (by decide) 32 rfl, hle 52 4 (by decide) 32 rfl, hle 56 4 (by decide) 32 rfl,
    hlast, happ 52 4 56 rfl, happ 48 4 52 rfl, happ 44 4 48 rfl, happ 40 4 44 rfl, happ 36 4 40 rfl, happ 32 4 36 rfl,
    happ 28 4 32 rfl, happ 24 4 28 rfl, happ 20 4 24 rfl, happ 16 4 20 rfl, happ 12 4 16 rfl, happ 8 4 12 rfl,
    happ 6 2 8 rfl, happ 4 2 6 rfl, happ 0 4 4 rfl, List.drop_zero]

/-- The magic number is in the first four bytes. -/
theorem bytes_drop (r : CrashRecord) (w : Word) : ({ r with magic := w } : CrashRecord).bytes.drop 4 = r.bytes.drop 4 := by
  simp only [bytes, drop_le_append]

/-- The check does not read the magic number or the check. -/
theorem crashCrc32_magic (r : CrashRecord) (w : Word) : crashCrc32 { r with magic := w } = crashCrc32 r := by
  rw [crashCrc32, bytes_drop, ← crashCrc32]

theorem crashCrc32_crc32 (r : CrashRecord) (w : Word) : crashCrc32 { r with crc32 := w } = crashCrc32 r := by
  have h : ∀ w : Word, (({ r with crc32 := w } : CrashRecord).bytes.drop 4).take 52 = (({ r with crc32 := 0 } : CrashRecord).bytes.drop 4).take 52 := by
    intro w
    simp only [bytes, drop_le_append]
    simp [List.take_append]
  rw [crashCrc32, crashCrc32, h w, ← h r.crc32]

end CrashRecord

/-! ### The check -/

/-- The generator of the check. -/
def crcPoly : Word := 0xEDB88320

theorem crcRounds_eq (n : ℕ) (crc : Word) : crcRounds n crc = (Crc.shift crcPoly)^[n] crc := by
  induction n generalizing crc with
  | zero => rfl
  | succ n ih =>
    have hround : (crc >>> 1) ^^^ (0xEDB88320 &&& -(crc &&& 1)) = Crc.shift crcPoly crc := by
      unfold Crc.shift crcPoly
      have hone : crc &&& 1 = (BitVec.ofBool (crc.getLsbD 0)).setWidth 32 := BitVec.and_one_eq_setWidth_ofBool_getLsbD
      rw [hone]
      cases crc.getLsbD 0
      · rfl
      · rfl
    rw [crcRounds, hround, ih, Function.iterate_succ_apply]

/-- The bits of a byte, from the lowest one up. -/
def byteBits (b : UInt8) : List Bool := (List.range 8).map fun i => b.toBitVec.getLsbD i

@[simp] theorem length_byteBits (b : UInt8) : (byteBits b).length = 8 := by simp [byteBits]

theorem crcByte_eq (crc : Word) (b : UInt8) : crcByte crc b = Crc.feed crcPoly crc (byteBits b) := by
  rw [Crc.feed_eq _ (by simp), crcByte, crcRounds_eq, length_byteBits]
  congr 2
  refine BitVec.eq_of_getLsbD_eq fun i hi => ?_
  rw [Crc.getLsbD_word hi, BitVec.getLsbD_setWidth]
  by_cases h : i < 8
  · simp [byteBits, List.getD_eq_getElem?_getD, hi, h]
  · rw [List.getD_eq_default _ _ (by simp; omega), BitVec.getLsbD_of_ge _ _ (by omega)]
    simp

/-- The bits of some bytes. -/
def bitsOf (bs : List UInt8) : List Bool := bs.flatMap byteBits

@[simp] theorem length_bitsOf (bs : List UInt8) : (bitsOf bs).length = 8 * bs.length := by
  induction bs with
  | nil => rfl
  | cons b bs ih =>
    rw [show bitsOf (b :: bs) = byteBits b ++ bitsOf bs from List.flatMap_cons .., List.length_append, length_byteBits, ih,
      List.length_cons]
    omega

theorem foldl_crcByte (crc : Word) (bs : List UInt8) : bs.foldl crcByte crc = Crc.feed crcPoly crc (bitsOf bs) := by
  induction bs generalizing crc with
  | nil => rfl
  | cons b bs ih =>
    rw [List.foldl_cons, ih, crcByte_eq, show bitsOf (b :: bs) = byteBits b ++ bitsOf bs from List.flatMap_cons ..,
      Crc.feed_append]

/-- **A burst is detected.** -/
theorem crcBytes_ne_of_burst {bs bs' : List UInt8} {pre as as' post : List Bool} (h : bitsOf bs = pre ++ as ++ post)
    (h' : bitsOf bs' = pre ++ as' ++ post) (hlen : as.length = as'.length) (hw : as.length ≤ 32) (hne : as ≠ as') :
    crcBytes bs ≠ crcBytes bs' := by
  unfold crcBytes
  rw [foldl_crcByte, foldl_crcByte, h, h']
  intro e
  exact Crc.feed_ne_of_burst (by decide) hlen hw hne ((BitVec.not_inj).mp e)

theorem byteBits_injective : Function.Injective byteBits := by
  intro a b h
  apply UInt8.toBitVec_inj.mp
  refine BitVec.eq_of_getLsbD_eq fun i hi => ?_
  have := congrArg (·[i]?) h
  simpa [byteBits, hi] using this

theorem bitsOf_injective : Function.Injective bitsOf := by
  intro as
  induction as with
  | nil =>
    intro bs h
    cases bs with
    | nil => rfl
    | cons b bs =>
      have := congrArg List.length h
      simp at this
  | cons a as ih =>
    intro bs h
    cases bs with
    | nil =>
      have := congrArg List.length h
      simp at this
    | cons b bs =>
      obtain ⟨h₁, h₂⟩ := List.append_inj (h : byteBits a ++ bitsOf as = byteBits b ++ bitsOf bs) (by simp)
      rw [byteBits_injective h₁, ih h₂]

theorem bitsOf_drop (n : ℕ) (bs : List UInt8) : bitsOf (bs.drop n) = (bitsOf bs).drop (8 * n) := by
  induction n generalizing bs with
  | zero => rfl
  | succ n ih =>
    cases bs with
    | nil => simp [bitsOf]
    | cons b bs =>
      rw [List.drop_succ_cons, ih, show bitsOf (b :: bs) = byteBits b ++ bitsOf bs from List.flatMap_cons ..,
        show 8 * (n + 1) = (byteBits b).length + 8 * n by simp; omega, List.drop_length_add_append]

theorem bitsOf_take (n : ℕ) (bs : List UInt8) : bitsOf (bs.take n) = (bitsOf bs).take (8 * n) := by
  induction n generalizing bs with
  | zero => rfl
  | succ n ih =>
    cases bs with
    | nil => simp [bitsOf]
    | cons b bs =>
      rw [List.take_succ_cons, show bitsOf (b :: bs.take n) = byteBits b ++ bitsOf (bs.take n) from List.flatMap_cons ..,
        show bitsOf (b :: bs) = byteBits b ++ bitsOf bs from List.flatMap_cons .., ih,
        show 8 * (n + 1) = (byteBits b).length + 8 * n by simp; omega, List.take_length_add_append]

/-! ### Reading -/

section

variable {m m' : ByteMemory}

/-- The bytes of the persistent record. -/
def image (m : ByteMemory) : List UInt8 := m.load 0 crashRecordSize

@[simp] theorem length_image (m : ByteMemory) : (image m).length = 60 := ByteMemory.length_load ..

theorem getElem?_image {i : ℕ} (hi : i < 60) : (image m)[i]? = some (m i) := by
  simp [image, ByteMemory.load, crashRecordSize, hi]

theorem crashRecordValidate_eq_ok {r : CrashRecord} : crashRecordValidate (some r) = Code.ok ↔
    r.magic = crashMagic ∧ r.version = crashRecordVersion ∧ r.size = .ofNat 16 crashRecordSize ∧ r.crc32 = crashCrc32 r := by
  simp only [crashRecordValidate]
  split
  · rename_i hn
    refine iff_of_false (by decide) fun ⟨h₁, h₂, h₃, _⟩ => ?_
    simp [h₁, h₂, h₃] at hn
  · rename_i hn
    simp only [not_or, not_not] at hn
    obtain ⟨h₁, h₂, h₃⟩ := hn
    split
    · rename_i hc
      exact iff_of_true rfl ⟨h₁, h₂, h₃, hc⟩
    · rename_i hc
      exact iff_of_false (by decide) fun h => hc h.2.2.2

theorem crashRecordGet_eq_some {r : CrashRecord} : crashRecordGet m = some r ↔
    crashRecord m = r ∧ r.magic = crashMagic ∧ r.version = crashRecordVersion ∧ r.size = .ofNat 16 crashRecordSize ∧
      r.crc32 = crashCrc32 r := by
  unfold crashRecordGet
  constructor
  · intro h
    split at h
    · rename_i hv
      cases h
      exact ⟨rfl, crashRecordValidate_eq_ok.mp hv⟩
    · cases h
  · rintro ⟨rfl, h⟩
    rw [if_pos (crashRecordValidate_eq_ok.mpr h)]

/-- A record is not accepted unless every byte of its magic number is right. -/
theorem crashRecordGet_eq_none {i : ℕ} (hi : i < 4) (h : (le 4 crashMagic.toNat)[i]? ≠ some (m i)) : crashRecordGet m = none := by
  refine Option.eq_none_iff_forall_ne_some.mpr fun r hr => h ?_
  obtain ⟨rfl, hmagic, -⟩ := crashRecordGet_eq_some.mp hr
  have hbytes := CrashRecord.bytes_ofBytes (length_image m)
  have hget : (image m)[i]? = (le 4 crashMagic.toNat)[i]? := by
    rw [← hbytes]
    have hmagic : (CrashRecord.ofBytes (image m)).magic = crashMagic := hmagic
    unfold CrashRecord.bytes
    rw [List.getElem?_append_left (by simpa using hi), hmagic]
  rw [← hget, getElem?_image (by omega)]

/-- The check of the record in memory. -/
theorem crashCrc32_crashRecord (m : ByteMemory) : crashCrc32 (crashRecord m) = crcBytes (((image m).drop 4).take 52) := by
  have h : (crashRecord m).bytes = image m := CrashRecord.bytes_ofBytes (length_image m)
  rw [crashCrc32, h]

/-- **No burst is accepted**: at most 32 bits in a row, of the bytes that the check covers. -/
theorem crashRecordGet_burst {r : CrashRecord} (h : crashRecordGet m = some r) (hne : image m' ≠ image m) {k : ℕ}
    (hk : ∀ i, (bitsOf (image m'))[i]? ≠ (bitsOf (image m))[i]? → 8 * 4 ≤ i ∧ i < 8 * 56 ∧ k ≤ i ∧ i < k + 32) :
    crashRecordGet m' = none := by
  refine Option.eq_none_iff_forall_ne_some.mpr fun r' hr' => ?_
  obtain ⟨rfl, -, -, -, hc⟩ := crashRecordGet_eq_some.mp h
  obtain ⟨rfl, -, -, -, hc'⟩ := crashRecordGet_eq_some.mp hr'
  -- the check itself is the same
  have hcheck : (image m').drop 56 = (image m).drop 56 := by
    refine bitsOf_injective ?_
    rw [bitsOf_drop, bitsOf_drop]
    refine List.ext_getElem? fun i => ?_
    rw [List.getElem?_drop, List.getElem?_drop]
    by_contra hi
    have := (hk _ hi).2.1
    omega
  have hcrc : (crashRecord m').crc32 = (crashRecord m).crc32 := by
    show BitVec.ofNat 32 (ofLe (((image m').drop 56).take 4)) = BitVec.ofNat 32 (ofLe (((image m).drop 56).take 4))
    rw [hcheck]
  rw [hc, hc', crashCrc32_crashRecord, crashCrc32_crashRecord] at hcrc
  -- the bits that it covers: before the burst, in it and after it
  have hbits : ∀ m : ByteMemory, bitsOf (((image m).drop 4).take 52) = ((bitsOf (image m)).drop 32).take 416 := by
    intro m
    rw [bitsOf_take, bitsOf_drop]
  set as := ((bitsOf (image m)).drop 32).take 416 with has
  set as' := ((bitsOf (image m')).drop 32).take 416 with has'
  have hget : ∀ i, as'[i]? ≠ as[i]? → k ≤ i + 32 ∧ i < k := by
    intro i hi
    by_cases hi' : i < 416
    · rw [has, has', List.getElem?_take_of_lt hi', List.getElem?_take_of_lt hi', List.getElem?_drop, List.getElem?_drop] at hi
      have := hk _ hi
      omega
    · exact absurd (by rw [List.getElem?_eq_none (by simp [has']; omega), List.getElem?_eq_none (by simp [has]; omega)]) hi
  have hlen : as'.length = as.length := by
    simp [has, has']
  have hsplit : ∀ l : List Bool, l = l.take (k - 32) ++ (l.drop (k - 32)).take 32 ++ l.drop (k - 32 + 32) := by
    intro l
    rw [List.append_assoc, ← List.drop_drop, List.take_append_drop, List.take_append_drop]
  have hpre : as'.take (k - 32) = as.take (k - 32) := by
    refine List.ext_getElem? fun i => ?_
    by_cases hi : i < k - 32
    · rw [List.getElem?_take_of_lt hi, List.getElem?_take_of_lt hi]
      by_contra hne
      have := hget _ hne
      omega
    · rw [List.getElem?_eq_none (by simp; omega), List.getElem?_eq_none (by simp; omega)]
  have hpost : as'.drop (k - 32 + 32) = as.drop (k - 32 + 32) := by
    refine List.ext_getElem? fun i => ?_
    rw [List.getElem?_drop, List.getElem?_drop]
    by_contra hne
    have := hget _ hne
    omega
  have hmid : (as'.drop (k - 32)).take 32 ≠ (as.drop (k - 32)).take 32 := by
    intro hmid
    have hall : as' = as := by rw [hsplit as', hpre, hmid, hpost, ← hsplit as]
    refine hne (bitsOf_injective (List.ext_getElem? fun i => ?_))
    by_contra hi
    obtain ⟨h₁, h₂, -⟩ := hk i hi
    have := congrArg (·[i - 32]?) hall
    simp only [has, has', List.getElem?_take_of_lt (show i - 32 < 416 by omega), List.getElem?_drop,
      Nat.add_sub_cancel' (show 32 ≤ i by omega)] at this
    exact hi this
  refine crcBytes_ne_of_burst ((hbits m').trans (hsplit as')) ((hbits m).trans ?_) ?_ ?_ hmid hcrc
  · rw [hpre, hpost]
    exact hsplit as
  · simp [hlen]
  · exact List.length_take_le ..

/-! ### Writing -/

variable {bs : List UInt8} {ws ws' : List (ℕ × UInt8)} {a : ℕ}

theorem writeAll_append : writeAll m (ws ++ ws') = writeAll (writeAll m ws) ws' := List.foldl_append

/-- A byte that is written last has been written. -/
theorem writeAll_cases (m : ByteMemory) (ws : List (ℕ × UInt8)) (a : ℕ) :
    writeAll m ws a = m a ∧ (∀ w ∈ ws, w.1 ≠ a) ∨ (a, writeAll m ws a) ∈ ws := by
  induction ws using List.reverseRecOn with
  | nil => exact .inl ⟨rfl, by simp⟩
  | append_singleton ws w ih =>
    rw [writeAll_append]
    show Function.update (writeAll m ws) w.1 w.2 a = _ ∧ _ ∨ (a, Function.update (writeAll m ws) w.1 w.2 a) ∈ _
    by_cases h : a = w.1
    · right
      rw [h, Function.update_self]
      exact List.mem_append_right _ (List.mem_singleton_self _)
    · rw [Function.update_of_ne h]
      rcases ih with ⟨e, hn⟩ | hm
      · refine .inl ⟨e, fun x hx => ?_⟩
        rcases List.mem_append.mp hx with hx | hx
        · exact hn x hx
        · rw [List.mem_singleton.mp hx]
          exact Ne.symm h
      · exact .inr (List.mem_append_left _ hm)

/-- While a store goes on, each byte is old or new. -/
theorem Copies.torn (h : Copies bs (ws ++ ws')) (m : ByteMemory) (a : ℕ) :
    writeAll m ws a = m a ∨ bs[a]? = some (writeAll m ws a) := by
  rcases writeAll_cases m ws a with ⟨e, -⟩ | hm
  · exact .inl e
  · exact .inr (h.sound _ (List.mem_append_left _ hm))

/-- When it has been completed, all bytes are new. -/
theorem Copies.done (h : Copies bs ws) (m : ByteMemory) (ha : a < bs.length) : bs[a]? = some (writeAll m ws a) := by
  rcases writeAll_cases m ws a with ⟨-, hn⟩ | hm
  · obtain ⟨w, hw, e⟩ := h.all a ha
    exact absurd e (hn w hw)
  · exact h.sound _ hm

section

variable [ccfg : CrashConfig] {x : CrashInfo}

theorem crashNext_crc32 (m : ByteMemory) (x : CrashInfo) : (crashNext m x).crc32 = crashCrc32 (crashNext m x) :=
  (CrashRecord.crashCrc32_crc32 ..).symm

/-- The record that a store leaves. -/
def crashStored (m : ByteMemory) (x : CrashInfo) : CrashRecord := { crashNext m x with magic := crashMagic }

theorem bytes_crashStored {i : ℕ} (hi : 4 ≤ i) : (crashStored m x).bytes[i]? = (crashNext m x).bytes[i]? := by
  obtain ⟨j, rfl⟩ := Nat.exists_eq_add_of_le hi
  rw [← List.getElem?_drop, ← List.getElem?_drop, crashStored, CrashRecord.bytes_drop]

/-- A memory with the bytes of the new record. -/
theorem crashRecordGet_stored (h : ∀ i < 60, (crashStored m x).bytes[i]? = some (m' i)) :
    crashRecordGet m' = some (crashStored m x) := by
  have himage : image m' = (crashStored m x).bytes := by
    refine List.ext_getElem? fun i => ?_
    by_cases hi : i < 60
    · rw [getElem?_image hi, h i hi]
    · rw [List.getElem?_eq_none (by simp; omega), List.getElem?_eq_none (by simp; omega)]
  have hrecord : crashRecord m' = crashStored m x := by
    rw [crashRecord, show m'.load 0 crashRecordSize = _ from himage, CrashRecord.ofBytes_bytes]
  refine crashRecordGet_eq_some.mpr ⟨hrecord, rfl, rfl, rfl, ?_⟩
  rw [show (crashStored m x).crc32 = (crashNext m x).crc32 from rfl, crashNext_crc32]
  exact (CrashRecord.crashCrc32_magic ..).symm

/-- The record after the second store has the bytes of the new one, but for the magic number. -/
theorem body_stored {ws₁ ws₂ : List (ℕ × UInt8)} (h₂ : Copies (crashNext m x).bytes ws₂) {i : ℕ} (hi : 4 ≤ i) (hi' : i < 60) :
    (crashStored m x).bytes[i]? = some (writeAll m (ws₁ ++ ws₂) i) := by
  rw [bytes_crashStored hi, writeAll_append]
  exact h₂.done _ (by simpa using hi')

/-- **A store that has been completed** can be read. -/
theorem crashRecordGet_completed (h : StoreWrites m x ws) : crashRecordGet (writeAll m ws) = some (crashStored m x) := by
  obtain ⟨ws₁, ws₂, ws₃, rfl, h₁, h₂, h₃⟩ := h
  refine crashRecordGet_stored fun i hi => ?_
  rw [← List.append_assoc, writeAll_append]
  by_cases h4 : i < 4
  · have hmagic : (crashStored m x).bytes[i]? = (le 4 crashMagic.toNat)[i]? := List.getElem?_append_left (by simpa using h4)
    rw [hmagic]
    exact h₃.done _ (by simpa using h4)
  · rcases writeAll_cases (writeAll m (ws₁ ++ ws₂)) ws₃ i with ⟨e, -⟩ | hm
    · rw [e]
      exact body_stored h₂ (Nat.not_lt.mp h4) hi
    · have := h₃.sound _ hm
      rw [List.getElem?_eq_none (by simp; omega)] at this
      cases this

omit ccfg in
/-- The bytes of the magic number are not zero. -/
theorem magic_ne_zero {i : ℕ} (hi : i < 4) : (le 4 crashMagic.toNat)[i]? ≠ some 0 := by
  have : ∀ i < 4, (le 4 crashMagic.toNat)[i]? ≠ some 0 := by decide
  exact this i hi

/-- **A store that has not been completed** leaves the old record, none, or the new one. -/
theorem crashRecordGet_torn (h : StoreWrites m x (ws ++ ws')) : crashRecordGet (writeAll m ws) = crashRecordGet m ∨
    crashRecordGet (writeAll m ws) = none ∨ crashRecordGet (writeAll m ws) = some (crashStored m x) := by
  obtain ⟨ws₁, ws₂, ws₃, e, h₁, h₂, h₃⟩ := h
  have hzero : ∀ i < 4, writeAll m ws₁ i = 0 := by
    intro i hi
    have := h₁.done m (a := i) (by simpa using hi)
    have hz : ∀ i < 4, (le 4 0)[i]? = some 0 := by decide
    rw [hz i hi] at this
    exact (Option.some.inj this).symm
  rcases List.append_eq_append_iff.mp e with ⟨u, rfl, rfl⟩ | ⟨u, rfl, e'⟩
  · -- the first store goes on: some byte of the magic number may be zero
    by_cases hsame : ∀ a, writeAll m ws a = m a
    · refine .inl (congrArg crashRecordGet ?_)
      funext a
      exact hsame a
    · right
      left
      push Not at hsame
      obtain ⟨a, ha⟩ := hsame
      have hnew := (h₁.torn m a).resolve_left ha
      have ha4 : a < 4 := by simpa using (List.getElem?_eq_some_iff.mp hnew).1
      have hz : ∀ i < 4, (le 4 0)[i]? = some 0 := by decide
      rw [hz a ha4] at hnew
      refine crashRecordGet_eq_none ha4 ?_
      rw [← Option.some.inj hnew]
      exact magic_ne_zero ha4
  · right
    rcases List.append_eq_append_iff.mp e' with ⟨v, rfl, rfl⟩ | ⟨v, rfl, rfl⟩
    · -- the third one: if the magic number is there, so is all
      by_cases hall : ∀ i < 4, (le 4 crashMagic.toNat)[i]? = some (writeAll m (ws₁ ++ (ws₂ ++ v)) i)
      · refine .inr (crashRecordGet_stored fun i hi => ?_)
        by_cases h4 : i < 4
        · rw [← hall i h4]
          exact List.getElem?_append_left (by simpa using h4)
        · rw [← List.append_assoc, writeAll_append]
          rcases h₃.torn (writeAll m (ws₁ ++ ws₂)) i with e | e
          · rw [e]
            exact body_stored h₂ (Nat.not_lt.mp h4) hi
          · rw [List.getElem?_eq_none (by simp; omega)] at e
            cases e
      · push Not at hall
        obtain ⟨i, hi, hne⟩ := hall
        exact .inl (crashRecordGet_eq_none hi hne)
    · -- the second one: the magic number is zero
      left
      refine crashRecordGet_eq_none (i := 0) (by decide) ?_
      have hz : writeAll m (ws₁ ++ u) 0 = 0 := by
        rw [writeAll_append]
        rcases h₂.torn (writeAll m ws₁) 0 with e | e
        · rw [e]
          exact hzero 0 (by decide)
        · exact (Option.some.inj e).symm
      rw [hz]
      exact magic_ne_zero (by decide)

omit ccfg in
/-- The memory after a store of some bytes. -/
theorem Copies.writeAll_eq (h : Copies bs ws) (m : ByteMemory) : writeAll m ws = m.store 0 bs := by
  funext a
  by_cases ha : a < bs.length
  · have hs := ByteMemory.store_inside (m := m) (a := 0) ha
    rw [Nat.zero_add] at hs
    have hd := h.done m ha
    rw [List.getElem?_eq_getElem ha] at hd
    rw [hs, Option.some.inj hd]
  · rw [ByteMemory.store_of_outside (.inr (by omega))]
    rcases writeAll_cases m ws a with ⟨e, -⟩ | hm
    · exact e
    · have := h.sound _ hm
      rw [List.getElem?_eq_none (Nat.not_lt.mp ha)] at this
      cases this

/-- The writes are those of `aixos_crash_record_store_extended`. -/
theorem StoreWrites.writeAll_eq (h : StoreWrites m x ws) : writeAll m ws = crashRecordStoreExtended m x := by
  obtain ⟨ws₁, ws₂, ws₃, rfl, h₁, h₂, h₃⟩ := h
  rw [writeAll_append, writeAll_append, h₁.writeAll_eq, h₂.writeAll_eq, h₃.writeAll_eq]
  rfl

omit ccfg in
/-- The bytes of a store, in their order. -/
theorem copies_zipIdx (bs : List UInt8) : Copies bs (bs.zipIdx.map fun x => (x.2, x.1)) where
  sound := by
    rintro w hw
    obtain ⟨⟨b, i⟩, hb, rfl⟩ := List.mem_map.mp hw
    exact List.mem_zipIdx_iff_getElem?.mp hb
  all := fun i hi => ⟨(i, bs[i]), List.mem_map.mpr ⟨(bs[i], i), List.mem_zipIdx_iff_getElem?.mpr (by simp [hi]), rfl⟩, rfl⟩

/-- The record says what the arguments say. -/
structure CrashRecord.Describes (r : CrashRecord) (x : CrashInfo) : Prop where
  magic : r.magic = crashMagic
  version : r.version = crashRecordVersion
  size : r.size = .ofNat 16 crashRecordSize
  buildId : r.buildId = ccfg.buildId
  architecture : r.architecture = x.architecture
  reason : r.reason = x.reason
  programCounter : r.programCounter = x.programCounter
  faultAddress : r.faultAddress = x.faultAddress
  stackPointer : r.stackPointer = x.stackPointer
  taskHandle : r.taskHandle = x.task.getD (BitVec.allOnes 32)
  tick : r.tick = x.tick
  faultStatus : r.faultStatus = x.faultStatus
  faultStatus2 : r.faultStatus2 = x.faultStatus2
  auxiliary : r.auxiliary = x.auxiliary

theorem crashStored_describes (m : ByteMemory) (x : CrashInfo) : (crashStored m x).Describes x where
  magic := rfl
  version := rfl
  size := rfl
  buildId := rfl
  architecture := rfl
  reason := rfl
  programCounter := rfl
  faultAddress := rfl
  stackPointer := rfl
  taskHandle := by
    unfold crashStored crashNext
    dsimp only
    cases x.task <;> rfl
  tick := rfl
  faultStatus := rfl
  faultStatus2 := rfl
  auxiliary := rfl

/-- **Crash records can be trusted**, for every memory and all arguments: a store that has been completed can be read; while
it goes on, what is read is the old record, none, or the new one; and no burst of at most 32 bits, of the bytes from
`version` up to `crc32`, is accepted. -/
theorem crash_records (m : ByteMemory) (x : CrashInfo) {ws : List (ℕ × UInt8)} (h : StoreWrites m x ws) :
    (writeAll m ws = crashRecordStoreExtended m x ∧ ∃ r, crashRecordGet (crashRecordStoreExtended m x) = some r ∧
      r.Describes x ∧ r.sequence = ((crashRecordGet m).elim 1 fun previous => previous.sequence + 1)) ∧
    (∀ ws₁ ws₂, ws = ws₁ ++ ws₂ → ws₂ ≠ [] → crashRecordGet (writeAll m ws₁) = crashRecordGet m ∨
      crashRecordGet (writeAll m ws₁) = none ∨
      crashRecordGet (writeAll m ws₁) = crashRecordGet (crashRecordStoreExtended m x)) ∧
    ∀ m' k, image m' ≠ image (crashRecordStoreExtended m x) →
      (∀ i, (bitsOf (image m'))[i]? ≠ (bitsOf (image (crashRecordStoreExtended m x)))[i]? →
        8 * 4 ≤ i ∧ i < 8 * 56 ∧ k ≤ i ∧ i < k + 32) →
      crashRecordGet m' = none := by
  have hall := h.writeAll_eq
  have hget := crashRecordGet_completed h
  rw [hall] at hget
  refine ⟨⟨hall, _, hget, crashStored_describes m x, ?_⟩, ?_, fun m' k hne hk => crashRecordGet_burst hget hne hk⟩
  · unfold crashStored crashNext
    dsimp only
    cases crashRecordGet m <;> rfl
  · rintro ws₁ ws₂ rfl -
    rw [hget]
    exact crashRecordGet_torn h

end

end

end Aixos

namespace Aixos

attribute [local instance] CrashConfig.default

/-- A fault of task 3 at tick 100. -/
def busFault : CrashInfo := ⟨1, 2, 0x8000, 0x20, 0x20001000, 0, 0, 0, some 3, 100⟩

theorem crash_records_first : ∃ r, crashRecordGet (crashRecordStoreExtended (fun _ => 0) busFault) = some r ∧
    r.Describes busFault ∧ r.sequence = 1 := by
  have hw : StoreWrites (fun _ => 0) busFault _ :=
    ⟨_, _, _, rfl, copies_zipIdx (le 4 0), copies_zipIdx (crashNext (fun _ => 0) busFault).bytes,
      copies_zipIdx (le 4 crashMagic.toNat)⟩
  obtain ⟨⟨-, r, hr, hd, hs⟩, -⟩ := crash_records (fun _ => 0) busFault hw
  have hnone : crashRecordGet (fun _ => 0) = none := crashRecordGet_eq_none (i := 0) (by decide) (by decide)
  exact ⟨r, hr, hd, by rw [hs, hnone]; rfl⟩

end Aixos
