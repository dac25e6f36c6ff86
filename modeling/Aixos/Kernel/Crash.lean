import Aixos.Kernel.Types
import Aixos.Library.ByteMemory

/-!
# Crash records

`crash.c`: one record in memory that a reset leaves alone, with a magic number and a check.

* `CrashRecord` — a record, and how it lies in memory (`bytes`, `ofBytes`), little-endian.
* `crashCrc32`, `CrashRecord.validate` — the check.
* `crashRecordGet`, `crashRecordStoreExtended`, `crashRecordClear` — the functions on the persistent record, which is at
  address 0 of a memory of its own.
* `StoreWrites` — the bytes that `aixos_crash_record_store_extended` writes: the three stores are in order, the bytes of
  each in any order.

The current task and the tick are arguments, as the registers are that a fault handler passes.
-/

namespace Aixos

/-- `AIXOS_BUILD_ID` -/
class CrashConfig where
  buildId : Word

/-- The value of `version.h` when the build overrides nothing. -/
@[reducible] def CrashConfig.default : CrashConfig where
  buildId := 0

/-- `AIXOS_CFG_CRASH_MAGIC` -/
def crashMagic : Word := 0x42434F53

/-- `AIXOS_CRASH_RECORD_VERSION` -/
def crashRecordVersion : BitVec 16 := 5

/-- `sizeof(aixos_crash_record_t)` -/
def crashRecordSize : ℕ := 60

/-- `aixos_crash_record_t` -/
structure CrashRecord where
  magic : Word := 0
  version : BitVec 16 := 0
  size : BitVec 16 := 0
  sequence : Word := 0
  buildId : Word := 0
  architecture : Word := 0
  reason : Word := 0
  programCounter : Word := 0
  faultAddress : Word := 0
  stackPointer : Word := 0
  taskHandle : Word := 0
  tick : Word := 0
  faultStatus : Word := 0
  faultStatus2 : Word := 0
  auxiliary : Word := 0
  crc32 : Word := 0
  deriving DecidableEq

/-- The `n` bytes at an offset, as a number. -/
def fieldAt (bs : List UInt8) (offset n : ℕ) : ℕ := ofLe ((bs.drop offset).take n)

namespace CrashRecord

/-- The bytes of a record. -/
def bytes (r : CrashRecord) : List UInt8 :=
  le 4 r.magic.toNat ++ (le 2 r.version.toNat ++ (le 2 r.size.toNat ++ (le 4 r.sequence.toNat ++ (le 4 r.buildId.toNat ++
    (le 4 r.architecture.toNat ++ (le 4 r.reason.toNat ++ (le 4 r.programCounter.toNat ++ (le 4 r.faultAddress.toNat ++
    (le 4 r.stackPointer.toNat ++ (le 4 r.taskHandle.toNat ++ (le 4 r.tick.toNat ++ (le 4 r.faultStatus.toNat ++
    (le 4 r.faultStatus2.toNat ++ (le 4 r.auxiliary.toNat ++ le 4 r.crc32.toNat))))))))))))))

/-- The record that has these bytes. -/
def ofBytes (bs : List UInt8) : CrashRecord where
  magic := .ofNat 32 (fieldAt bs 0 4)
  version := .ofNat 16 (fieldAt bs 4 2)
  size := .ofNat 16 (fieldAt bs 6 2)
  sequence := .ofNat 32 (fieldAt bs 8 4)
  buildId := .ofNat 32 (fieldAt bs 12 4)
  architecture := .ofNat 32 (fieldAt bs 16 4)
  reason := .ofNat 32 (fieldAt bs 20 4)
  programCounter := .ofNat 32 (fieldAt bs 24 4)
  faultAddress := .ofNat 32 (fieldAt bs 28 4)
  stackPointer := .ofNat 32 (fieldAt bs 32 4)
  taskHandle := .ofNat 32 (fieldAt bs 36 4)
  tick := .ofNat 32 (fieldAt bs 40 4)
  faultStatus := .ofNat 32 (fieldAt bs 44 4)
  faultStatus2 := .ofNat 32 (fieldAt bs 48 4)
  auxiliary := .ofNat 32 (fieldAt bs 52 4)
  crc32 := .ofNat 32 (fieldAt bs 56 4)

end CrashRecord

/-- The inner loop of `crash_crc32`, `n` rounds. -/
def crcRounds : ℕ → Word → Word
  | 0, crc => crc
  | n + 1, crc => crcRounds n ((crc >>> 1) ^^^ (0xEDB88320 &&& -(crc &&& 1)))

/-- The body of the outer loop of `crash_crc32`. -/
def crcByte (crc : Word) (byte : UInt8) : Word := crcRounds 8 (crc ^^^ byte.toBitVec.setWidth 32)

/-- The loops of `crash_crc32` over some bytes. -/
def crcBytes (bs : List UInt8) : Word := ~~~(bs.foldl crcByte (BitVec.allOnes 32))

/-- `crash_crc32`: from `version` up to `crc32` -/
def crashCrc32 (record : CrashRecord) : Word := crcBytes ((record.bytes.drop 4).take 52)

/-- `aixos_crash_record_validate`, of a pointer that may be `NULL` -/
def crashRecordValidate : Option CrashRecord → Code
  | none => Code.corrupt
  | some record =>
    if record.magic ≠ crashMagic ∨ record.version ≠ crashRecordVersion ∨ record.size ≠ .ofNat 16 crashRecordSize then Code.corrupt
    else if record.crc32 = crashCrc32 record then Code.ok else Code.corrupt

/-- What is in `crash_record`. -/
def crashRecord (m : ByteMemory) : CrashRecord := .ofBytes (m.load 0 crashRecordSize)

/-- `aixos_crash_record_get`, with what the pointer points to -/
def crashRecordGet (m : ByteMemory) : Option CrashRecord :=
  if crashRecordValidate (some (crashRecord m)) = Code.ok then some (crashRecord m) else none

/-- The arguments of `aixos_crash_record_store_extended`, the handle of the current task if there is one, and the tick. -/
structure CrashInfo where
  architecture : Word
  reason : Word
  programCounter : Word
  faultAddress : Word
  stackPointer : Word
  faultStatus : Word
  faultStatus2 : Word
  auxiliary : Word
  task : Option Word
  tick : Word

section

variable [ccfg : CrashConfig]

/-- The local variable `next` of `aixos_crash_record_store_extended`. -/
def crashNext (m : ByteMemory) (x : CrashInfo) : CrashRecord :=
  let next : CrashRecord := {
    version := crashRecordVersion
    size := .ofNat 16 crashRecordSize
    sequence := match crashRecordGet m with
      | some previous => previous.sequence + 1
      | none => 1
    buildId := ccfg.buildId
    architecture := x.architecture
    reason := x.reason
    programCounter := x.programCounter
    faultAddress := x.faultAddress
    stackPointer := x.stackPointer
    taskHandle := match x.task with
      | some handle => handle
      | none => BitVec.allOnes 32
    tick := x.tick
    faultStatus := x.faultStatus
    faultStatus2 := x.faultStatus2
    auxiliary := x.auxiliary }
  { next with crc32 := crashCrc32 next }

/-- `aixos_crash_record_store_extended` -/
def crashRecordStoreExtended (m : ByteMemory) (x : CrashInfo) : ByteMemory :=
  ((m.store 0 (le 4 0)).store 0 (crashNext m x).bytes).store 0 (le 4 crashMagic.toNat)

/-- `aixos_crash_record_clear` -/
def crashRecordClear (m : ByteMemory) : ByteMemory := m.store 0 (le 4 0)

/-- Bytes are written one by one. -/
def writeAll (m : ByteMemory) (ws : List (ℕ × UInt8)) : ByteMemory :=
  ws.foldl (fun m w => Function.update m w.1 w.2) m

/-- A store of some bytes to address 0: its bytes are written in any order. -/
structure Copies (bs : List UInt8) (ws : List (ℕ × UInt8)) : Prop where
  sound : ∀ w ∈ ws, bs[w.1]? = some w.2
  all : ∀ i < bs.length, ∃ w ∈ ws, w.1 = i

/-- The writes of `aixos_crash_record_store_extended` to the persistent record. -/
def StoreWrites (m : ByteMemory) (x : CrashInfo) (ws : List (ℕ × UInt8)) : Prop :=
  ∃ ws₁ ws₂ ws₃, ws = ws₁ ++ (ws₂ ++ ws₃) ∧ Copies (le 4 0) ws₁ ∧ Copies (crashNext m x).bytes ws₂ ∧
    Copies (le 4 crashMagic.toNat) ws₃

end

end Aixos
