import Aixos.Kernel.Crash
import Aixos.Kernel.Trace
import Mathlib.Data.Nat.Digits.Defs

/-!
# The host decoder

`diagnostics_decode.mjs`: what it reports of a crash record and of trace entries that have been read from the target.

* `Js` — the operators of JavaScript on numbers that the script uses: they convert to 32 bits, and the result of `^` and `&`
  is signed.
* `Decode.crc32`, `Decode.decodeCrash`, `Decode.decodeTrace` — the functions.
* `TraceEntry.bytes` — how an entry lies in the memory of the target.

A number is an integer. A function that throws has no result; the reports are what is passed to `JSON.stringify`.
-/

namespace Aixos

/-! ### JavaScript -/

namespace Js

/-- `a ^ b` -/
def xor (a b : ℤ) : ℤ := (BitVec.ofInt 32 a ^^^ BitVec.ofInt 32 b).toInt

/-- `a & b` -/
def and (a b : ℤ) : ℤ := (BitVec.ofInt 32 a &&& BitVec.ofInt 32 b).toInt

/-- `a >>> n` -/
def shr (a : ℤ) (n : ℕ) : ℤ := (BitVec.ofInt 32 a >>> n).toNat

/-- A digit of `value.toString(16)` -/
def hexDigit (d : ℕ) : Char := if d < 10 then Char.ofNat ('0'.toNat + d) else Char.ofNat ('a'.toNat + d - 10)

/-- `value.toString(16)`, for a value that is not negative -/
def toString16 (value : ℕ) : List Char := if value = 0 then ['0'] else ((Nat.digits 16 value).map hexDigit).reverse

/-- `text.padStart(n, "0")` -/
def padStart (text : List Char) (n : ℕ) : List Char := List.replicate (n - text.length) '0' ++ text

/-- `data.readUInt32LE(offset)` -/
def readUInt32LE (data : List UInt8) (offset : ℕ) : ℕ := ofLe ((data.drop offset).take 4)

/-- `data.readUInt16LE(offset)` -/
def readUInt16LE (data : List UInt8) (offset : ℕ) : ℕ := ofLe ((data.drop offset).take 2)

end Js

namespace Decode

open Js

/-- `hex` -/
def hex (value : ℕ) : List Char := ['0', 'x'] ++ padStart (toString16 value) 8

/-- The inner loop of `crc32`, `n` rounds. -/
def crcRounds : ℕ → ℤ → ℤ
  | 0, crc => crc
  | n + 1, crc => crcRounds n (Js.xor (shr crc 1) (if Js.and crc 1 ≠ 0 then 0xedb88320 else 0))

/-- `crc32` -/
def crc32 (buffer : List UInt8) : ℤ :=
  shr (Js.xor (buffer.foldl (fun crc byte => crcRounds 8 (Js.xor crc byte.toNat)) 0xffffffff) 0xffffffff) 0

/-- What `decodeCrash` reports. -/
structure CrashReport where
  magic : List Char
  version : ℕ
  size : ℕ
  sequence : ℕ
  buildId : List Char
  architecture : ℕ
  reason : ℕ
  programCounter : List Char
  faultAddress : List Char
  stackPointer : List Char
  taskHandle : List Char
  tick : ℕ
  faultStatus : List Char
  faultStatus2 : List Char
  auxiliary : List Char
  crc32 : List Char
  computedCrc32 : List Char
  crcValid : Bool
  deriving DecidableEq

/-- `decodeCrash`, of the bytes of the file -/
def decodeCrash (data : List UInt8) : Option CrashReport :=
  if data.length < 60 then none
  else
    let u32 := readUInt32LE data
    let stored := hex (u32 56)
    let computed := hex (crc32 ((data.drop 4).take 52)).toNat
    some {
      magic := hex (u32 0)
      version := readUInt16LE data 4
      size := readUInt16LE data 6
      sequence := u32 8
      buildId := hex (u32 12)
      architecture := u32 16
      reason := u32 20
      programCounter := hex (u32 24)
      faultAddress := hex (u32 28)
      stackPointer := hex (u32 32)
      taskHandle := hex (u32 36)
      tick := u32 40
      faultStatus := hex (u32 44)
      faultStatus2 := hex (u32 48)
      auxiliary := hex (u32 52)
      crc32 := stored
      computedCrc32 := computed
      crcValid := stored = computed }

/-- What `decodeTrace` reports of an entry. -/
structure TraceReport where
  sequence : ℕ
  timestamp : ℕ
  event : ℕ
  arg0 : List Char
  arg1 : List Char
  deriving DecidableEq

/-- The loop of `decodeTrace`, over `n` entries. -/
def traceLoop (data : List UInt8) : ℕ → ℕ → List TraceReport
  | 0, _ => []
  | n + 1, offset =>
    { sequence := readUInt32LE data offset
      timestamp := readUInt32LE data (offset + 4)
      event := readUInt16LE data (offset + 8)
      arg0 := hex (readUInt32LE data (offset + 12))
      arg1 := hex (readUInt32LE data (offset + 16)) } :: traceLoop data n (offset + 20)

/-- `decodeTrace`, of the bytes of the file -/
def decodeTrace (data : List UInt8) : Option (List TraceReport) :=
  if data.length % 20 ≠ 0 then none else some (traceLoop data (data.length / 20) 0)

end Decode

/-- The bytes of `aixos_trace_entry_t`. -/
def TraceEntry.bytes (e : TraceEntry) : List UInt8 :=
  le 4 e.sequence.toNat ++ (le 4 e.timestamp.toNat ++ (le 2 e.event.toNat ++ (le 2 e.reserved.toNat ++
    (le 4 e.arg0.toNat ++ le 4 e.arg1.toNat))))

end Aixos
