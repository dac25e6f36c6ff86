import Aixos.Kernel.Trace
import Aixos.Library.Slots

/-!
# What the trace returns

The entry of a record is in the slot that its number, a 32-bit counter, leaves modulo the size of the table. The readers
work as long as the last records have slots of their own; where the counter wraps they do only if the size divides 2³².

* `history` — the entries of all records.
* `Trace.snapshot_newest_iff` — when `aixos_trace_snapshot` returns the newest entries.
* `Trace.dump_iff` — when `aixos_trace_dump` puts out what `aixos_trace_snapshot` returns.
-/

namespace Aixos

open Slots

/-- The arguments of `aixos_trace_record`, and the tick at which it is called. -/
structure TraceRecord where
  tick : Word
  event : Word
  d0 : Word
  d1 : Word

/-- Record `i` as it is recorded. -/
def TraceRecord.entry (i : ℕ) (x : TraceRecord) : TraceEntry where
  sequence := .ofNat 32 i
  timestamp := x.tick
  event := x.event.setWidth 16
  reserved := 0
  arg0 := x.d0
  arg1 := x.d1

/-- The entries of all records. -/
def history (xs : List TraceRecord) : List TraceEntry := xs.mapIdx TraceRecord.entry

@[simp] theorem history_length (xs : List TraceRecord) : (history xs).length = xs.length := List.length_mapIdx

theorem history_append (xs : List TraceRecord) (x : TraceRecord) :
    history (xs ++ [x]) = history xs ++ [x.entry xs.length] := List.mapIdx_concat

namespace Trace

variable [cfg : TraceConfig] {xs : List TraceRecord} {x : TraceRecord} {i j k : ℕ}

/-- The trace after these records. -/
def recorded (xs : List TraceRecord) : Trace := xs.foldl (fun t x => t.record x.tick x.event x.d0 x.d1) init

theorem recorded_append : recorded (xs ++ [x]) = (recorded xs).record x.tick x.event x.d0 x.d1 := by
  unfold recorded
  rw [List.foldl_append]
  rfl

/-- The slot of record `i`. -/
def slot (i : ℕ) : ℕ := wrapped (2 ^ 32) cfg.traceBufferSize i

/-- The variables after any number of records. -/
theorem recorded_eq (xs : List TraceRecord) : (recorded xs).nextSequence = .ofNat 32 xs.length ∧
    (recorded xs).count = .ofNat 32 (min cfg.traceBufferSize xs.length) ∧
    (recorded xs).overwritten = .ofNat 32 (xs.length - min cfg.traceBufferSize xs.length) ∧
    (recorded xs).buf = Slots.store slot (fun _ => {}) (history xs) := by
  induction xs using List.reverseRecOn with
  | nil => exact ⟨rfl, by rw [List.length_nil, Nat.min_zero]; rfl, by rw [List.length_nil, Nat.zero_sub]; rfl, rfl⟩
  | append_singleton xs x ih =>
    obtain ⟨hnext, hcount, hover, hbuf⟩ := ih
    have hlt := cfg.traceBufferSize_lt
    have hmin : (BitVec.ofNat 32 (min cfg.traceBufferSize xs.length) : Word).toNat = min cfg.traceBufferSize xs.length := by
      rw [BitVec.toNat_ofNat]
      omega
    rw [recorded_append, history_append, store_append, history_length, List.length_append, List.length_singleton]
    simp only [record, hnext, hcount, hover, hbuf, hmin]
    have hslot : (BitVec.ofNat 32 xs.length : Word).toNat % cfg.traceBufferSize = slot xs.length := by
      rw [BitVec.toNat_ofNat]
      rfl
    refine ⟨BitVec.ofNat_add _ _ |>.symm, ?_, ?_, by rw [hslot]; rfl⟩
    · split
      · congr 1
        omega
      · rw [show min cfg.traceBufferSize (xs.length + 1) = min cfg.traceBufferSize xs.length + 1 by omega, BitVec.ofNat_add]
        rfl
    · split
      · rw [show xs.length + 1 - min cfg.traceBufferSize (xs.length + 1) =
          xs.length - min cfg.traceBufferSize xs.length + 1 by omega, BitVec.ofNat_add]
        rfl
      · congr 1
        omega

/-- What is in the slots of the last `k` records. -/
def copied (xs : List TraceRecord) (k : ℕ) : List TraceEntry :=
  (List.range k).map fun i => (recorded xs).buf (slot (xs.length - k + i))

theorem copied_getElem? (hi : i < k) : (copied xs k)[i]? = some ((recorded xs).buf (slot (xs.length - k + i))) := by
  simp [copied, hi]

/-- The slots hold the last records if these have slots of their own, and something else if they do not. -/
theorem copied_eq_iff (hk : k ≤ xs.length) (hN : k ≤ cfg.traceBufferSize) : copied xs k = (history xs).drop (xs.length - k) ↔
    ∀ a b, xs.length - k ≤ a → a < b → b < xs.length → slot a ≠ slot b := by
  have hbuf := (recorded_eq xs).2.2.2
  have hlt := cfg.traceBufferSize_lt
  constructor
  · intro e a b ha hab hb hs
    have ha' : a < (history xs).length := by rw [history_length]; omega
    obtain ⟨j, haj, hj, hstore, hlast⟩ := @store_eq_later _ slot (fun _ => {}) (history xs) a ha'
    have hjlen : j < xs.length := by
      have := (List.getElem?_eq_some_iff.mp hstore).1
      rwa [history_length] at this
    have hne : j ≠ a := by
      rintro rfl
      exact hlast b hab (by rwa [history_length]) hs.symm
    -- the entry in the slot of `a` has the number of `j`
    have hread : (copied xs k)[a - (xs.length - k)]? = (history xs)[j]? := by
      rw [copied_getElem? (by omega), hstore, hbuf, Nat.add_sub_cancel' ha]
    rw [e, List.getElem?_drop, Nat.add_sub_cancel' ha] at hread
    have hseq : (BitVec.ofNat 32 a : Word) = .ofNat 32 j := by
      have := congrArg (Option.map TraceEntry.sequence) hread
      simpa [history, List.getElem?_mapIdx, hjlen, show a < xs.length by omega, TraceRecord.entry] using this
    have := congrArg BitVec.toNat hseq
    rw [BitVec.toNat_ofNat, BitVec.toNat_ofNat] at this
    omega
  · intro h
    refine List.ext_getElem? fun i => ?_
    by_cases hi : i < k
    · have hlen : xs.length - k + i < xs.length := by omega
      rw [copied_getElem? hi, List.getElem?_drop]
      obtain ⟨y, hy⟩ : ∃ y, (history xs)[xs.length - k + i]? = some y := by simp [hlen]
      rw [hy, hbuf, store_eq_of_last hy fun j hij hj => ?_]
      rw [history_length] at hj
      exact (h _ _ (by omega) hij hj).symm
    · rw [List.getElem?_eq_none (by simp [copied]; omega), List.getElem?_eq_none (by simp; omega)]

/-! ### The snapshot -/

/-- The number of entries that are copied. -/
def copyCount (xs : List TraceRecord) (capacity : Word) : ℕ := min capacity.toNat (min cfg.traceBufferSize xs.length)

/-- What `info` says. -/
def info (xs : List TraceRecord) : TraceInfo where
  available := .ofNat 32 (min cfg.traceBufferSize xs.length)
  capacity := .ofNat 32 cfg.traceBufferSize
  overwritten := .ofNat 32 (xs.length - min cfg.traceBufferSize xs.length)

theorem snapshot_eq (xs : List TraceRecord) (capacity : Word) :
    (recorded xs).snapshot true capacity = (copied xs (copyCount xs capacity), info xs) := by
  obtain ⟨hnext, hcount, hover, -⟩ := recorded_eq xs
  have hlt := cfg.traceBufferSize_lt
  have hmin : (BitVec.ofNat 32 (min cfg.traceBufferSize xs.length) : Word).toNat = min cfg.traceBufferSize xs.length := by
    rw [BitVec.toNat_ofNat]
    omega
  have hcopy : (if capacity < (recorded xs).count then capacity else (recorded xs).count).toNat = copyCount xs capacity := by
    unfold copyCount
    rw [hcount]
    split
    · rename_i h
      have h : capacity.toNat < (BitVec.ofNat 32 (min cfg.traceBufferSize xs.length) : Word).toNat := h
      omega
    · rename_i h
      have h : ¬ capacity.toNat < (BitVec.ofNat 32 (min cfg.traceBufferSize xs.length) : Word).toNat := h
      omega
  have hle : copyCount xs capacity ≤ xs.length := by
    unfold copyCount
    omega
  simp only [snapshot, if_pos]
  rw [hcopy, hcount, hover]
  refine congrArg₂ Prod.mk (List.map_congr_left fun i _ => ?_) rfl
  congr 1
  unfold slot wrapped
  rw [← hcount, BitVec.toNat_add, BitVec.toNat_sub, hcopy, hnext, BitVec.toNat_ofNat, BitVec.toNat_ofNat]
  have := (if capacity < (recorded xs).count then capacity else (recorded xs).count).isLt
  rw [hcopy] at this
  congr 1
  omega

/-- **The snapshot returns the newest history** if and only if the size of the table divides 2³², or the counter has not
wrapped among the records that are returned, or no two of them share a slot. -/
theorem snapshot_newest_iff (xs : List TraceRecord) (capacity : Word) :
    (recorded xs).snapshot true capacity = ((history xs).drop (xs.length - copyCount xs capacity), info xs) ↔
      2 ^ 32 % cfg.traceBufferSize = 0 ∨ xs.length < 2 ^ 32 ∨ xs.length % 2 ^ 32 = 0 ∨
        copyCount xs capacity ≤ xs.length % 2 ^ 32 ∨ copyCount xs capacity ≤ 2 ^ 32 % cfg.traceBufferSize := by
  have hlt := cfg.traceBufferSize_lt
  have hle : copyCount xs capacity ≤ xs.length ∧ copyCount xs capacity ≤ cfg.traceBufferSize := by
    unfold copyCount
    omega
  rw [snapshot_eq, Prod.mk.injEq, and_iff_left rfl, copied_eq_iff hle.1 hle.2]
  exact wrapped_apart_iff (Nat.le_of_lt hlt) hle.2 hle.1

/-! ### The dump -/

/-- The loop, when its end has not wrapped. -/
theorem dumpLoop_eq (t : Trace) {a b : ℕ} (hab : a ≤ b) (hb : b < 2 ^ 32) :
    t.dumpLoop (.ofNat 32 a) (.ofNat 32 b) = (List.range (b - a)).map fun i =>
      if (t.buf ((a + i) % cfg.traceBufferSize)).sequence ≠ .ofNat 32 (a + i) then "[trace entry overwritten]".toList
      else line (t.buf ((a + i) % cfg.traceBufferSize)) := by
  obtain ⟨n, rfl⟩ := Nat.exists_eq_add_of_le hab
  rw [Nat.add_sub_cancel_left]
  induction n generalizing a with
  | zero =>
    rw [dumpLoop, dif_neg (by bv_omega)]
    rfl
  | succ n ih =>
    have ha : (BitVec.ofNat 32 a : Word).toNat = a := by
      rw [BitVec.toNat_ofNat]
      omega
    rw [dumpLoop, dif_pos (by bv_omega), List.range_succ_eq_map, List.map_cons, List.map_map, ha]
    have hnext : (BitVec.ofNat 32 a : Word) + 1 = .ofNat 32 (a + 1) := by
      rw [BitVec.ofNat_add]
      rfl
    have hrest := ih (a := a + 1) (by omega) (by omega)
    rw [hnext, show a + (n + 1) = a + 1 + n by omega, hrest]
    refine congrArg₂ List.cons rfl (List.map_congr_left fun i _ => ?_)
    simp only [Function.comp, Nat.succ_eq_add_one, show a + (i + 1) = a + 1 + i by omega]

/-- The loop, when its end has wrapped. -/
theorem dumpLoop_eq_nil (t : Trace) {s e : Word} (h : ¬ s < e) : t.dumpLoop s e = [] := by
  rw [dumpLoop, dif_neg h]

/-- **The dump puts out what the snapshot returns** if and only if the counter has not wrapped among the last records. -/
theorem dump_iff (xs : List TraceRecord) :
    (recorded xs).dump = ((recorded xs).snapshot true (.ofNat 32 cfg.traceBufferSize)).1.map line ↔
      xs.length < 2 ^ 32 ∨ cfg.traceBufferSize ≤ xs.length % 2 ^ 32 := by
  obtain ⟨hnext, hcount, -, hbuf⟩ := recorded_eq xs
  have hlt := cfg.traceBufferSize_lt
  have hpos := cfg.traceBufferSize_pos
  have hN : (BitVec.ofNat 32 cfg.traceBufferSize : Word).toNat = cfg.traceBufferSize := by
    rw [BitVec.toNat_ofNat]
    omega
  set c := min cfg.traceBufferSize xs.length with hc
  have hcopy : copyCount xs (.ofNat 32 cfg.traceBufferSize) = c := by
    unfold copyCount
    omega
  rw [snapshot_eq, hcopy]
  unfold dump
  by_cases h : xs.length < 2 ^ 32 ∨ cfg.traceBufferSize ≤ xs.length % 2 ^ 32
  · refine iff_of_true ?_ h
    set e := xs.length % 2 ^ 32 with he
    have hce : c ≤ e := by omega
    have hend : (recorded xs).nextSequence = .ofNat 32 e := by
      rw [hnext]
      apply BitVec.eq_of_toNat_eq
      rw [BitVec.toNat_ofNat, BitVec.toNat_ofNat, he, Nat.mod_mod]
    have hstart : (recorded xs).nextSequence - (recorded xs).count = .ofNat 32 (e - c) := by
      rw [hend, hcount]
      apply BitVec.eq_of_toNat_eq
      rw [BitVec.toNat_sub, BitVec.toNat_ofNat, BitVec.toNat_ofNat, BitVec.toNat_ofNat]
      omega
    have heM : e < 2 ^ 32 := Nat.mod_lt _ (by decide)
    rw [hstart, hend, dumpLoop_eq _ (Nat.sub_le ..) heM, Nat.sub_sub_self hce]
    have hapart := (wrapped_apart_iff (k := c) (r := xs.length) (Nat.le_of_lt hlt) (by omega) (by omega)).mpr (by omega)
    unfold copied
    rw [List.map_map]
    refine List.map_congr_left fun i hi => ?_
    rw [List.mem_range] at hi
    have hdm := Nat.div_add_mod xs.length (2 ^ 32)
    have hmod : (xs.length - c + i) % 2 ^ 32 = e - c + i := by omega
    have hslot : (e - c + i) % cfg.traceBufferSize = slot (xs.length - c + i) := by
      unfold slot wrapped
      rw [hmod]
    have hlen : xs.length - c + i < xs.length := by omega
    have hget : (history xs)[xs.length - c + i]? = some (xs[xs.length - c + i].entry (xs.length - c + i)) := by
      simp [history, hlen]
    have hread : (recorded xs).buf (slot (xs.length - c + i)) = xs[xs.length - c + i].entry (xs.length - c + i) := by
      rw [hbuf]
      refine store_eq_of_last hget fun j hij hj => ?_
      rw [history_length] at hj
      exact (hapart _ _ (by omega) hij hj).symm
    have hseq : (BitVec.ofNat 32 (xs.length - c + i) : Word) = .ofNat 32 (e - c + i) := by
      apply BitVec.eq_of_toNat_eq
      rw [BitVec.toNat_ofNat, BitVec.toNat_ofNat, hmod]
      omega
    rw [hslot, hread, Function.comp, if_neg (fun hne => hne hseq), hread]
  · refine iff_of_false (fun e => ?_) h
    -- the end of the loop is before its start
    rw [dumpLoop_eq_nil] at e
    · have := congrArg List.length e
      simp only [copied, List.length_nil, List.length_map, List.length_range] at this
      omega
    · rw [hnext, hcount]
      intro hs
      have hs : (BitVec.ofNat 32 xs.length - BitVec.ofNat 32 c : Word).toNat < (BitVec.ofNat 32 xs.length : Word).toNat := hs
      rw [BitVec.toNat_sub, BitVec.toNat_ofNat, BitVec.toNat_ofNat] at hs
      omega

end Trace

end Aixos

namespace Aixos.Trace

open Slots

theorem threeEntries_pos : 0 < 3 := by decide

/-- A table of three entries. -/
@[reducible] def threeEntries : TraceConfig where
  traceBufferSize := 3
  traceBufferSize_pos := threeEntries_pos
  traceBufferSize_lt := by decide

/-- A timer event. -/
def timerEvent : TraceRecord := ⟨7, 6, 1, 2⟩

/-- After 2³² + 1 records two of the last three are in slot 0. -/
theorem snapshot_not_newest : letI := threeEntries
    ¬ ∀ (xs : List TraceRecord) (capacity : Word),
      (recorded xs).snapshot true capacity = ((history xs).drop (xs.length - copyCount xs capacity), info xs) := by
  let _ := threeEntries
  intro hall
  have h := hall (List.replicate (2 ^ 32 + 1) timerEvent) 3
  have hk : copyCount (List.replicate (2 ^ 32 + 1) timerEvent) 3 = 3 := by
    unfold copyCount
    rw [List.length_replicate]
    decide
  rw [snapshot_eq, hk, Prod.mk.injEq, and_iff_left rfl,
    copied_eq_iff (by rw [List.length_replicate]; decide) (by decide), List.length_replicate] at h
  exact h (2 ^ 32 - 1) (2 ^ 32) (by decide) (by decide) (by decide) (by decide)

/-- After 2³² + 3 records the snapshot returns 256 entries, and the dump puts out nothing. -/
theorem dump_empty : letI := TraceConfig.default
    ∃ xs : List TraceRecord, (recorded xs).dump = [] ∧ ((recorded xs).snapshot true 256).1.length = 256 ∧
      (recorded xs).dump ≠ ((recorded xs).snapshot true 256).1.map line := by
  let _ := TraceConfig.default
  have hdump : (recorded (List.replicate (2 ^ 32 + 3) timerEvent)).dump = [] := by
    obtain ⟨hnext, hcount, -⟩ := recorded_eq (List.replicate (2 ^ 32 + 3) timerEvent)
    unfold dump
    rw [dumpLoop_eq_nil]
    rw [hnext, hcount, List.length_replicate]
    decide
  have hlen : ((recorded (List.replicate (2 ^ 32 + 3) timerEvent)).snapshot true 256).1.length = 256 := by
    rw [snapshot_eq]
    simp only [copied, copyCount, List.length_map, List.length_range, List.length_replicate]
    decide
  refine ⟨_, hdump, hlen, fun e => ?_⟩
  have := congrArg List.length e
  rw [hdump, List.length_map, hlen] at this
  cases this

end Aixos.Trace
