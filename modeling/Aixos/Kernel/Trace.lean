import Aixos.Kernel.Types
import Mathlib.Logic.Function.Basic

/-!
# The trace

`trace.c`: a table of the last records, numbered by a 32-bit counter, and what reads it.

* `Trace.record` — one record more.
* `Trace.snapshot`, `Trace.dump` — the readers, each in one critical section here: nothing is recorded while they run.
* `formatDigits`, `Trace.line` — the lines that `aixos_trace_dump` writes with `aixos_snprintf`.

The tick is an argument of `Trace.record`, which reads it with `aixos_get_tick`.
-/

namespace Aixos

/-- The macros of `aixos_cfg.h` that `trace.c` uses. -/
class TraceConfig where
  /-- `AIXOS_CFG_TRACE_BUFFER_SIZE` -/
  traceBufferSize : ℕ
  traceBufferSize_pos : 0 < traceBufferSize
  traceBufferSize_lt : traceBufferSize < 2 ^ 32

/-- The value of `aixos_cfg.h` when the user overrides nothing. -/
@[reducible] def TraceConfig.default : TraceConfig where
  traceBufferSize := 256
  traceBufferSize_pos := by decide
  traceBufferSize_lt := by decide

/-- `aixos_trace_entry_t` -/
structure TraceEntry where
  sequence : Word := 0
  timestamp : Word := 0
  event : BitVec 16 := 0
  reserved : BitVec 16 := 0
  arg0 : Word := 0
  arg1 : Word := 0
  deriving DecidableEq

/-- `aixos_trace_info_t` -/
structure TraceInfo where
  available : Word
  capacity : Word
  overwritten : Word
  deriving DecidableEq

/-- The static variables of `trace.c`. -/
structure Trace where
  buf : ℕ → TraceEntry
  nextSequence : Word
  count : Word
  overwritten : Word

/-- The digits of a value, as `aixos_snprintf` puts them: from the last one, at least one. -/
def formatDigits (base : ℕ) (value : ℕ) (digits : List Char) : List Char :=
  let digit := value % base
  let digits := (if digit < 10 then Char.ofNat ('0'.toNat + digit) else Char.ofNat ('A'.toNat + digit - 10)) :: digits
  if _h : value / base ≠ 0 ∧ 2 ≤ base then formatDigits base (value / base) digits else digits
  termination_by value
  decreasing_by exact Nat.div_lt_self (Nat.pos_of_ne_zero fun e => _h.1 (by rw [e, Nat.zero_div])) _h.2

namespace Trace

/-- `aixos_trace_init` -/
def init : Trace where
  buf := fun _ => {}
  nextSequence := 0
  count := 0
  overwritten := 0

/-- What `aixos_trace_dump` writes for an entry, with `"[%u] ev=%d d0=0x%X d1=0x%X"`, in a buffer of 64 characters. -/
def line (entry : TraceEntry) : List Char :=
  let text := ['['] ++ formatDigits 10 entry.timestamp.toNat [] ++ "] ev=".toList ++ formatDigits 10 entry.event.toNat [] ++
    " d0=0x".toList ++ formatDigits 16 entry.arg0.toNat [] ++ " d1=0x".toList ++ formatDigits 16 entry.arg1.toNat []
  text.take 63

variable [cfg : TraceConfig]

/-- `aixos_trace_record`, at a tick. -/
def record (t : Trace) (tick : Word) (event d0 d1 : Word) : Trace :=
  let idx := t.nextSequence.toNat % cfg.traceBufferSize
  let full := cfg.traceBufferSize ≤ t.count.toNat
  { buf := Function.update t.buf idx {
      sequence := t.nextSequence, timestamp := tick, event := event.setWidth 16, reserved := 0, arg0 := d0, arg1 := d1 }
    nextSequence := t.nextSequence + 1
    count := if full then t.count else t.count + 1
    overwritten := if full then t.overwritten + 1 else t.overwritten }

/-- `aixos_trace_snapshot`, with what it stores into `entries` (whether that is not `NULL`) and into `info`. -/
def snapshot (t : Trace) (entries : Bool) (capacity : Word) : List TraceEntry × TraceInfo :=
  let info := { available := t.count, capacity := .ofNat 32 cfg.traceBufferSize, overwritten := t.overwritten }
  let copyCount := if capacity < t.count then capacity else t.count
  let start := t.nextSequence - copyCount
  if entries then
    ((List.range copyCount.toNat).map fun i => t.buf ((start + .ofNat 32 i).toNat % cfg.traceBufferSize), info)
  else ([], info)

/-- The loop of `aixos_trace_dump`. -/
def dumpLoop (t : Trace) (sequence «end» : Word) : List (List Char) :=
  if h : sequence < «end» then
    let entry := t.buf (sequence.toNat % cfg.traceBufferSize)
    let text := if entry.sequence ≠ sequence then "[trace entry overwritten]".toList else line entry
    text :: dumpLoop t (sequence + 1) «end»
  else []
  termination_by «end».toNat - sequence.toNat
  decreasing_by bv_omega

/-- `aixos_trace_dump`, with the lines that it puts out. -/
def dump (t : Trace) : List (List Char) := t.dumpLoop (t.nextSequence - t.count) t.nextSequence

end Trace

end Aixos
