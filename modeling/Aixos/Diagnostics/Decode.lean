import Aixos.Diagnostics.Crash
import Aixos.Kernel.Decode
import Mathlib.Data.Nat.Digits.Defs

/-!
# The host decoder and the firmware agree

* `Decode.hex_injective` — different values are written differently.
* `Decode.crc32_eq` — the loop on signed numbers computes the check of the firmware.
* `Decode.decodes` — what the decoder reports is what the firmware has stored.
-/

namespace Aixos.Decode

open Js

/-! ### Hexadecimal numbers -/

/-- The value of a digit. -/
def hexValue (c : Char) : ℕ := if c.toNat < 'a'.toNat then c.toNat - '0'.toNat else c.toNat + 10 - 'a'.toNat

theorem hexValue_hexDigit {d : ℕ} (hd : d < 16) : hexValue (hexDigit d) = d := by
  have : ∀ d < 16, hexValue (hexDigit d) = d := by decide
  exact this d hd

/-- The value of some digits, the first one first. -/
def hexNumber (text : List Char) : ℕ := text.foldl (fun n c => 16 * n + hexValue c) 0

theorem hexNumber_toString16 (v : ℕ) : hexNumber (toString16 v) = v := by
  unfold toString16
  split
  · rename_i h
    rw [h]
    rfl
  · have hdigits : ∀ ds : List ℕ, (∀ d ∈ ds, d < 16) →
        (ds.map hexDigit).foldr (fun c n => 16 * n + hexValue c) 0 = Nat.ofDigits 16 ds := by
      intro ds hds
      induction ds with
      | nil => rfl
      | cons d ds ih =>
        rw [List.map_cons, List.foldr_cons, ih fun d hd => hds d (List.mem_cons_of_mem _ hd),
          hexValue_hexDigit (hds d (List.mem_cons_self ..)), Nat.ofDigits_cons]
        exact Nat.add_comm ..
    unfold hexNumber
    rw [List.foldl_reverse, hdigits _ fun d hd => Nat.digits_lt_base (by decide) hd, Nat.ofDigits_digits]

theorem hexNumber_padStart (text : List Char) (n : ℕ) : hexNumber (padStart text n) = hexNumber text := by
  have hzero : ∀ k, (List.replicate k '0').foldl (fun n c => 16 * n + hexValue c) 0 = 0 := by
    intro k
    induction k with
    | zero => rfl
    | succ k ih => rw [List.replicate_succ, List.foldl_cons]; exact ih
  unfold hexNumber padStart
  rw [List.foldl_append, hzero]

/-- Different values are written differently. -/
theorem hex_injective : Function.Injective hex := by
  intro a b h
  have h : padStart (toString16 a) 8 = padStart (toString16 b) 8 := List.append_cancel_left h
  have := congrArg hexNumber h
  rwa [hexNumber_padStart, hexNumber_padStart, hexNumber_toString16, hexNumber_toString16] at this

/-! ### The check -/

theorem ofInt_xor (a b : ℤ) : BitVec.ofInt 32 (Js.xor a b) = BitVec.ofInt 32 a ^^^ BitVec.ofInt 32 b := by
  rw [Js.xor, BitVec.ofInt_toInt]

theorem ofInt_shr (a : ℤ) (n : ℕ) : BitVec.ofInt 32 (shr a n) = BitVec.ofInt 32 a >>> n := by
  rw [shr, BitVec.ofInt_natCast, BitVec.ofNat_toNat, BitVec.setWidth_eq]

theorem and_eq_zero {a : ℤ} : Js.and a 1 = 0 ↔ BitVec.ofInt 32 a &&& 1 = 0 := by
  have h : BitVec.ofInt 32 1 = (1 : Word) := rfl
  rw [Js.and, h]
  constructor
  · intro e
    apply BitVec.eq_of_toInt_eq
    rw [e]
    rfl
  · intro e
    rw [e]
    rfl

/-- The inner loops agree: the state of the script is the state of the firmware, read as a signed number or not. -/
theorem ofInt_crcRounds (n : ℕ) (crc : ℤ) :
    BitVec.ofInt 32 (crcRounds n crc) = Aixos.crcRounds n (BitVec.ofInt 32 crc) := by
  induction n generalizing crc with
  | zero => rfl
  | succ n ih =>
    have hone : BitVec.ofInt 32 crc &&& 1 = (BitVec.ofBool ((BitVec.ofInt 32 crc).getLsbD 0)).setWidth 32 :=
      BitVec.and_one_eq_setWidth_ofBool_getLsbD
    have hmask : BitVec.ofInt 32 (if Js.and crc 1 ≠ 0 then 0xedb88320 else 0) =
        (0xEDB88320 &&& -(BitVec.ofInt 32 crc &&& 1) : Word) := by
      by_cases h : Js.and crc 1 = 0
      · rw [if_neg (not_not.mpr h), and_eq_zero.mp h]
        rfl
      · rw [if_pos h, hone]
        cases hb : (BitVec.ofInt 32 crc).getLsbD 0
        · rw [and_eq_zero, hone, hb] at h
          exact absurd rfl h
        · rfl
    rw [crcRounds, Aixos.crcRounds, ih, ofInt_xor, ofInt_shr, hmask]

theorem ofInt_crcByte (crc : ℤ) (byte : UInt8) :
    BitVec.ofInt 32 (crcRounds 8 (Js.xor crc byte.toNat)) = crcByte (BitVec.ofInt 32 crc) byte := by
  have hbyte : BitVec.ofInt 32 (byte.toNat : ℤ) = byte.toBitVec.setWidth 32 := by
    rw [BitVec.ofInt_natCast]
    apply BitVec.eq_of_toNat_eq
    simp
  rw [ofInt_crcRounds, ofInt_xor, hbyte]
  rfl

/-- **The check of the script** is the one of the firmware. -/
theorem crc32_eq (bs : List UInt8) : (crc32 bs).toNat = (crcBytes bs).toNat := by
  have hloop : ∀ crc : ℤ, BitVec.ofInt 32 (bs.foldl (fun crc byte => crcRounds 8 (Js.xor crc byte.toNat)) crc) =
      bs.foldl crcByte (BitVec.ofInt 32 crc) := by
    induction bs with
    | nil => exact fun _ => rfl
    | cons b bs ih =>
      intro crc
      rw [List.foldl_cons, List.foldl_cons, ih, ofInt_crcByte]
  have hones : BitVec.ofInt 32 0xffffffff = BitVec.allOnes 32 := by decide
  unfold crc32 crcBytes shr
  rw [ofInt_xor, hloop, hones, Int.toNat_natCast, BitVec.ushiftRight_zero, BitVec.xor_allOnes]

/-! ### Records and entries -/

/-- What is to be reported of a record. -/
def reportOf (r : CrashRecord) : CrashReport where
  magic := hex r.magic.toNat
  version := r.version.toNat
  size := r.size.toNat
  sequence := r.sequence.toNat
  buildId := hex r.buildId.toNat
  architecture := r.architecture.toNat
  reason := r.reason.toNat
  programCounter := hex r.programCounter.toNat
  faultAddress := hex r.faultAddress.toNat
  stackPointer := hex r.stackPointer.toNat
  taskHandle := hex r.taskHandle.toNat
  tick := r.tick.toNat
  faultStatus := hex r.faultStatus.toNat
  faultStatus2 := hex r.faultStatus2.toNat
  auxiliary := hex r.auxiliary.toNat
  crc32 := hex r.crc32.toNat
  computedCrc32 := hex (crashCrc32 r).toNat
  crcValid := r.crc32 = crashCrc32 r

theorem ofLe_word (v : Word) : ofLe (le 4 v.toNat) = v.toNat := ofLe_le (Nat.lt_of_lt_of_eq v.isLt rfl)

theorem ofLe_half (v : BitVec 16) : ofLe (le 2 v.toNat) = v.toNat := ofLe_le (Nat.lt_of_lt_of_eq v.isLt rfl)

/-- A record is reported with the values of its fields. -/
theorem decodeCrash_bytes (r : CrashRecord) : decodeCrash r.bytes = some (reportOf r) := by
  have hvalid : hex r.crc32.toNat = hex (crashCrc32 r).toNat ↔ r.crc32 = crashCrc32 r :=
    ⟨fun h => BitVec.eq_of_toNat_eq (hex_injective h), fun h => by rw [h]⟩
  unfold decodeCrash
  rw [if_neg (by simp)]
  have h0 : readUInt32LE r.bytes 0 = r.magic.toNat := ofLe_word r.magic
  have h4 : readUInt16LE r.bytes 4 = r.version.toNat := ofLe_half r.version
  have h6 : readUInt16LE r.bytes 6 = r.size.toNat := ofLe_half r.size
  have h8 : readUInt32LE r.bytes 8 = r.sequence.toNat := ofLe_word r.sequence
  have h12 : readUInt32LE r.bytes 12 = r.buildId.toNat := ofLe_word r.buildId
  have h16 : readUInt32LE r.bytes 16 = r.architecture.toNat := ofLe_word r.architecture
  have h20 : readUInt32LE r.bytes 20 = r.reason.toNat := ofLe_word r.reason
  have h24 : readUInt32LE r.bytes 24 = r.programCounter.toNat := ofLe_word r.programCounter
  have h28 : readUInt32LE r.bytes 28 = r.faultAddress.toNat := ofLe_word r.faultAddress
  have h32 : readUInt32LE r.bytes 32 = r.stackPointer.toNat := ofLe_word r.stackPointer
  have h36 : readUInt32LE r.bytes 36 = r.taskHandle.toNat := ofLe_word r.taskHandle
  have h40 : readUInt32LE r.bytes 40 = r.tick.toNat := ofLe_word r.tick
  have h44 : readUInt32LE r.bytes 44 = r.faultStatus.toNat := ofLe_word r.faultStatus
  have h48 : readUInt32LE r.bytes 48 = r.faultStatus2.toNat := ofLe_word r.faultStatus2
  have h52 : readUInt32LE r.bytes 52 = r.auxiliary.toNat := ofLe_word r.auxiliary
  have h56 : readUInt32LE r.bytes 56 = r.crc32.toNat := ofLe_word r.crc32
  have hcomputed : (crc32 ((r.bytes.drop 4).take 52)).toNat = (crashCrc32 r).toNat := crc32_eq _
  simp only [h0, h4, h6, h8, h12, h16, h20, h24, h28, h32, h36, h40, h44, h48, h52, h56, hcomputed, hvalid]
  rfl

/-- What is to be reported of an entry. -/
def traceReportOf (e : TraceEntry) : TraceReport where
  sequence := e.sequence.toNat
  timestamp := e.timestamp.toNat
  event := e.event.toNat
  arg0 := hex e.arg0.toNat
  arg1 := hex e.arg1.toNat

@[simp] theorem length_entryBytes (e : TraceEntry) : e.bytes.length = 20 := by simp [TraceEntry.bytes]

theorem length_flatMap_bytes (es : List TraceEntry) : (es.flatMap TraceEntry.bytes).length = 20 * es.length := by
  induction es with
  | nil => rfl
  | cons e es ih =>
    rw [List.flatMap_cons, List.length_append, length_entryBytes, ih, List.length_cons]
    omega

/-- The loop, from the first entry that is left on. -/
theorem traceLoop_eq (pre : List UInt8) (es : List TraceEntry) :
    traceLoop (pre ++ es.flatMap TraceEntry.bytes) es.length pre.length = es.map traceReportOf := by
  induction es generalizing pre with
  | nil => rfl
  | cons e es ih =>
    have hrest := ih (pre ++ e.bytes)
    rw [List.append_assoc, List.length_append, length_entryBytes] at hrest
    have hdrop : ∀ k, (pre ++ (e.bytes ++ es.flatMap TraceEntry.bytes)).drop (pre.length + k) =
        (e.bytes ++ es.flatMap TraceEntry.bytes).drop k := fun k => List.drop_length_add_append k
    rw [List.flatMap_cons, List.length_cons, traceLoop, hrest, List.map_cons]
    refine congrArg₂ List.cons ?_ rfl
    unfold traceReportOf readUInt32LE readUInt16LE
    rw [hdrop 4, hdrop 8, hdrop 12, hdrop 16, show pre.length = pre.length + 0 from rfl, hdrop 0]
    congr 1
    · exact ofLe_word e.sequence
    · exact ofLe_word e.timestamp
    · exact ofLe_half e.event
    · exact congrArg hex (ofLe_word e.arg0)
    · exact congrArg hex (ofLe_word e.arg1)

/-- An array of entries is reported entry by entry. -/
theorem decodeTrace_bytes (es : List TraceEntry) :
    decodeTrace (es.flatMap TraceEntry.bytes) = some (es.map traceReportOf) := by
  have h := traceLoop_eq [] es
  unfold decodeTrace
  rw [length_flatMap_bytes, if_neg (by omega), Nat.mul_div_cancel_left _ (by decide)]
  exact congrArg some h

/-- **The host decoder and the firmware agree**: on all records and arrays of entries, whose values are reported as numbers or
as hexadecimal numbers, and on the check of all images. -/
theorem decodes : Function.Injective hex ∧ (∀ r : CrashRecord, decodeCrash r.bytes = some (reportOf r)) ∧
    (∀ es : List TraceEntry, decodeTrace (es.flatMap TraceEntry.bytes) = some (es.map traceReportOf)) ∧
    ∀ image : List UInt8, image.length = 60 → ∃ report, decodeCrash image = some report ∧
      (report.crcValid = true ↔ (CrashRecord.ofBytes image).crc32 = crcBytes ((image.drop 4).take 52)) := by
  refine ⟨hex_injective, decodeCrash_bytes, decodeTrace_bytes, fun image h => ?_⟩
  have hbytes := CrashRecord.bytes_ofBytes h
  have hreport := decodeCrash_bytes (CrashRecord.ofBytes image)
  rw [hbytes] at hreport
  refine ⟨_, hreport, ?_⟩
  rw [reportOf, decide_eq_true_eq, crashCrc32, hbytes]

end Aixos.Decode
