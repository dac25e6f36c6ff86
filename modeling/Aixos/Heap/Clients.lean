import Aixos.Heap.Calls
import Aixos.Library.Transition

/-!
# Clients of the heap

Clients that free what they own, and write to what they have requested.

* `HeapClients.call` — one call, what it returns, and who owns what afterwards.
* `HeapClients.Owns` — the used blocks are the live allocations; `owns_call` — every call keeps that.
-/

namespace Aixos

open ByteMemory Block Transition

variable [cfg : HeapConfig]

/-- What a client does. -/
inductive HeapCall where
  /-- `aixos_malloc` -/
  | malloc (isr : Bool) (size : ℕ)
  /-- `aixos_kernel_malloc` -/
  | kernelMalloc (isr : Bool) (size : ℕ)
  /-- `aixos_calloc` -/
  | calloc (isr : Bool) (count size : ℕ)
  /-- `aixos_realloc` -/
  | realloc (isr : Bool) (ptr newSize : ℕ)
  /-- `aixos_free` -/
  | free (isr : Bool) (ptr : ℕ)
  /-- `aixos_heap_check` -/
  | check
  /-- `aixos_heap_lockdown` -/
  | lockdown (isr : Bool)
  /-- Bytes are written behind a pointer. -/
  | write (ptr offset : ℕ) (bs : List UInt8)

/-- The heap, and the live allocations: a pointer and how many bytes may be used behind it. -/
structure HeapClients where
  /-- The heap. -/
  heap : Heap
  /-- The live allocations. -/
  live : List (ℕ × ℕ)

namespace HeapCall

/-- The function of the heap, and what it returns. -/
def apply (h : Heap) : HeapCall → Option (Heap × ℕ)
  | malloc isr size => h.malloc isr size
  | kernelMalloc isr size => h.kernelMalloc isr size
  | calloc isr count size => h.calloc isr count size
  | realloc isr ptr newSize => h.realloc isr ptr newSize
  | free isr ptr => some (h.free isr ptr, 0)
  | check => h.check.map fun r => (r.1, 0)
  | lockdown isr => some (h.lockdown isr, 0)
  | write ptr offset bs => some ({ h with mem := h.mem.store (ptr + offset) bs }, 0)

/-- How many bytes a call asks for that gives nothing back. -/
def fresh : HeapCall → Option ℕ
  | malloc _ size | kernelMalloc _ size => some size
  | calloc _ count size => some (count * size)
  | realloc _ ptr newSize => if ptr = 0 then some newSize else none
  | free .. | check | lockdown _ | write .. => none

/-- An allocation has been made, unless `NULL` has been returned. -/
def gain (live : List (ℕ × ℕ)) (result n : ℕ) : List (ℕ × ℕ) :=
  if result = 0 then live else (result, Heap.requested n) :: live

/-- An allocation has been given back. -/
def lose (live : List (ℕ × ℕ)) (ptr : ℕ) : List (ℕ × ℕ) := live.filter fun e => e.1 ≠ ptr

/-- The live allocations after a call. An interrupt handler frees nothing. -/
def owned (live : List (ℕ × ℕ)) (result : ℕ) : HeapCall → List (ℕ × ℕ)
  | malloc _ size | kernelMalloc _ size => gain live result size
  | calloc _ count size => gain live result (count * size)
  | realloc isr ptr newSize =>
    if ptr ≠ 0 ∧ newSize = 0 then (if isr then live else lose live ptr)
    else if result = 0 then live else gain (lose live ptr) result newSize
  | free isr ptr => if isr then live else lose live ptr
  | check | lockdown _ | write .. => live

end HeapCall

namespace HeapClients

/-- Only live pointers are freed, and only what has been requested is written to. -/
def Allowed (c : HeapClients) : HeapCall → Prop
  | .realloc _ ptr _ | .free _ ptr => ptr = 0 ∨ ∃ e ∈ c.live, e.1 = ptr
  | .write ptr offset bs => ∃ e ∈ c.live, e.1 = ptr ∧ offset + bs.length ≤ e.2
  | .malloc .. | .kernelMalloc .. | .calloc .. | .check | .lockdown .. => True

instance (c : HeapClients) (x : HeapCall) : Decidable (c.Allowed x) :=
  match x with
  | .realloc _ ptr _ | .free _ ptr => inferInstanceAs (Decidable (ptr = 0 ∨ ∃ e ∈ c.live, e.1 = ptr))
  | .write ptr offset bs => inferInstanceAs (Decidable (∃ e ∈ c.live, e.1 = ptr ∧ offset + bs.length ≤ e.2))
  | .malloc .. | .kernelMalloc .. | .calloc .. | .check | .lockdown .. => inferInstanceAs (Decidable True)

/-- A call that is allowed. -/
def call (c : HeapClients) (x : HeapCall) : Option (HeapClients × ℕ) :=
  if c.Allowed x then (x.apply c.heap).map fun r => ({ heap := r.1, live := x.owned c.live r.2 }, r.2) else none

/-- The next state. -/
def step (c : HeapClients) (x : HeapCall) : Option HeapClients := (c.call x).map Prod.fst

/-- After `aixos_heap_init`. -/
def init (m : ByteMemory) (start size : ℕ) : HeapClients := { heap := .init m start size, live := [] }

end HeapClients

namespace Heap

variable {h h' : Heap} {m : ByteMemory} {bs bs' : List Block} {u v : Used} {n : ℕ} {isr : Bool}

/-! ### Calls that do more than one thing -/

/-- The header and the canary of a used block. -/
theorem Intact.valid (hi : h.Intact bs) (hu : u ∈ usedFrom heapHeaderSize h.heapBegin bs) :
    h.headerValid u.addr = true ∧ h.canaryValid u.addr = true ∧ (h.hdr u.addr).magic = heapMagicUsed ∧
      (h.hdr u.addr).requestedSize.toNat = u.request ∧ u.request + heapCanarySize ≤ u.size ∧ 8 ∣ u.addr := by
  obtain ⟨pre, post, rfl, ha⟩ := mem_usedFrom.mp hu
  obtain ⟨-, hb, -⟩ := laid_append.mp hi.laid
  rw [← ha] at hb
  have hs : u.size < 2 ^ 32 :=
    hi.bounds.size_lt { size := u.size, request := some u.request } (List.mem_append_right _ (List.mem_cons_self ..))
  have hle := hi.span_le
  rw [span_append, span_cons] at hle
  dsimp only at hle hb
  have hfits : u.request + heapCanarySize ≤ u.size := hb.fits u.request rfl
  have e : h.hdr u.addr = .ofBlock _ u.addr _ { size := u.size, request := some u.request } := hb.header
  refine ⟨headerValid_of_blockAt hb (by omega) (by dsimp only; omega) hs, canaryValid_of_blockAt hb rfl hs, ?_, ?_, hfits,
    hb.aligned⟩
  · rw [e]
    exact HeapHdr.ofBlock_magic_used.mpr rfl
  · rw [e, HeapHdr.ofBlock_requestedSize, Option.getD_some, ofNat_toNat (by omega)]

/-- A block that is used has been used, or is the one that has been placed. -/
theorem Placed.mem_iff (hp : h.Placed h' bs bs' u) : v ∈ usedFrom heapHeaderSize h'.heapBegin bs' ↔
    v = u ∨ v ∈ usedFrom heapHeaderSize h.heapBegin bs := by
  rw [hp.steady.begin_eq, ← hp.erase, (nodup_usedFrom (by have := heapHeaderSize_ge; omega) _).mem_erase_iff]
  by_cases hv : v = u
  · subst hv
    exact ⟨fun _ => .inl rfl, fun _ => hp.mem⟩
  · simp [hv]

/-- It has not been used before. -/
theorem Placed.not_mem (hp : h.Placed h' bs bs' u) : u ∉ usedFrom heapHeaderSize h.heapBegin bs := by
  rw [← hp.erase]
  exact (nodup_usedFrom (by have := heapHeaderSize_ge; omega) _).not_mem_erase

/-- What has been placed is written to. -/
theorem Placed.write (hp : h.Placed h' bs bs' u)
    (hw : Within h'.mem m (u.addr + heapHeaderSize) (u.addr + heapHeaderSize + u.request)) :
    h.Placed { h' with mem := m } bs bs' u := by
  have hu : u ∈ usedFrom heapHeaderSize h'.heapBegin bs' := hp.mem_iff.mpr (.inl rfl)
  obtain ⟨hi, hk⟩ := hp.intact.write hu hw
  refine ⟨hi, ⟨hp.steady.first_eq, hp.steady.begin_eq, hp.steady.end_eq, hp.steady.initialized, hp.steady.corruption,
    hp.steady.locked⟩, fun v hv => ?_, hp.span_eq, hp.mem, hp.room, hp.erase⟩
  have hne : v ≠ u := by
    rintro rfl
    exact hp.not_mem hv
  exact (hp.kept v hv).trans (hk v (hp.mem_iff.mpr (.inr hv)) hne)

/-- **`aixos_calloc`** allocates, and writes zeros. -/
theorem Intact.calloc (hi : h.Intact bs) (isr : Bool) (count size : ℕ) :
    (∃ h', h.calloc isr count size = some (h', 0) ∧ h.Idle h') ∨
    ∃ h' bs' u, h.calloc isr count size = some (h', u.addr + heapHeaderSize) ∧ h.Placed h' bs bs' u ∧
      u.request = requested (count * size) ∧ ¬ h.Refused isr (count * size) false := by
  have idle : h.Idle h := ⟨⟨rfl, rfl, rfl, rfl, rfl, rfl⟩, rfl, rfl, rfl⟩
  unfold Heap.calloc
  by_cases hov : size ≠ 0 ∧ (256 ^ cfg.pointerSize - 1) / size < count
  · exact .inl ⟨h, if_pos hov, idle⟩
  rw [if_neg hov, malloc]
  have hH := heapHeaderSize_ge
  rcases hi.allocate isr (count * size) false with ⟨h', e, hid, -⟩ | ⟨h', bs', u, e, hp, hr, hno⟩
  · refine .inl ⟨h', ?_, hid⟩
    rw [e]
    rfl
  · have hroom : count * size ≤ u.request := by
      rw [hr]
      unfold requested
      split <;> omega
    have hp' := hp.write (m := h'.mem.store (u.addr + heapHeaderSize) (List.replicate (count * size) 0))
      (Within.store le_rfl (by rw [List.length_replicate]; omega))
    refine .inr ⟨_, bs', u, ?_, hp', hr, hno⟩
    rw [e, Option.map_some]
    dsimp only
    rw [if_neg (by omega)]

/-- **`aixos_realloc`** of a used block to a size that is not zero: nothing changes, or the block is allocated anew,
its bytes are copied, and the old block is freed. -/
theorem Intact.realloc (hi : h.Intact bs) (hu : u ∈ usedFrom heapHeaderSize h.heapBegin bs) (hn : n ≠ 0) (isr : Bool) :
    (∃ h', h.realloc isr (u.addr + heapHeaderSize) n = some (h', 0) ∧ h.Idle h') ∨
    ∃ h₁ bs₁ v h' bs', h.realloc isr (u.addr + heapHeaderSize) n = some (h', v.addr + heapHeaderSize) ∧
      h.Placed h₁ bs bs₁ v ∧ v.request = requested n ∧ ¬ h.Refused isr n false ∧
      h₁.mem.load (v.addr + heapHeaderSize) (min u.request n) = h.mem.load (u.addr + heapHeaderSize) (min u.request n) ∧
      h₁.Released h' bs₁ bs' u := by
  have idle : h.Idle h := ⟨⟨rfl, rfl, rfl, rfl, rfl, rfl⟩, rfl, rfl, rfl⟩
  have hH := heapHeaderSize_ge
  obtain ⟨hvalid, hcanary, hmagic, hreq, hfits, -⟩ := hi.valid hu
  have hle := le_addr hu
  have hend : u.addr + heapHeaderSize + u.size ≤ h.heapBegin + span heapHeaderSize bs := addr_add_le hu
  have hspan := hi.span_le
  have hc : heapCanarySize = 4 := rfl
  unfold Heap.realloc
  rw [if_neg (by omega), if_neg hn]
  by_cases hisr : isr = true
  · exact .inl ⟨h, if_pos hisr, idle⟩
  rw [if_neg hisr, if_neg (by omega), Nat.add_sub_cancel]
  dsimp only
  by_cases hlock : h.runtimeLocked = true
  · exact .inl ⟨_, if_pos hlock, ⟨rfl, rfl, rfl, rfl, rfl, rfl⟩, rfl, rfl, rfl⟩
  rw [if_neg hlock, hvalid, hcanary, hmagic, if_neg (by simp), hreq, malloc]
  rcases hi.allocate isr n false with ⟨h', e, hid, -⟩ | ⟨h', bs₁, v, e, hp, hr, hno⟩
  · refine .inl ⟨h', ?_, hid⟩
    rw [e]
    rfl
  · have hcopy : (if u.request < n then u.request else n) = min u.request n := by
      rw [Nat.min_def]
      split <;> split <;> omega
    have hlen : (h'.mem.load (u.addr + heapHeaderSize) (min u.request n)).length = min u.request n := length_load ..
    have hroom : min u.request n ≤ v.request := by
      rw [hr]
      unfold requested
      split <;> omega
    have hp' := hp.write (m := h'.mem.store (v.addr + heapHeaderSize)
      (h'.mem.load (u.addr + heapHeaderSize) (min u.request n))) (Within.store le_rfl (by rw [hlen]; omega))
    obtain ⟨bs', hrel⟩ := hp'.intact.free (hp'.mem_iff.mpr (.inr hu))
    refine .inr ⟨_, bs₁, v, _, bs', ?_, hp', hr, hno, ?_, hrel⟩
    · rw [e, Option.map_some]
      dsimp only
      rw [if_neg (by omega), hcopy, Bool.eq_false_of_not_eq_true hisr]
    · have hsame : h'.mem.load (u.addr + heapHeaderSize) (min u.request n) =
          h.mem.load (u.addr + heapHeaderSize) (min u.request n) := (hp.kept u hu).load le_rfl (by omega)
      have := load_store h'.mem (v.addr + heapHeaderSize) (h'.mem.load (u.addr + heapHeaderSize) (min u.request n))
      rw [hlen] at this
      exact this.trans hsame

/-- **A call that asks for bytes** gets `NULL`, and nothing changes, or places the request. -/
theorem Intact.fresh {x : HeapCall} (hi : h.Intact bs) (hx : x.fresh = some n) :
    (∃ h', x.apply h = some (h', 0) ∧ h.Idle h') ∨
    ∃ h' bs' u, x.apply h = some (h', u.addr + heapHeaderSize) ∧ h.Placed h' bs bs' u ∧ u.request = requested n ∧
      u.request ≤ 2 ^ 32 - 1 - heapCanarySize - (heapAlign - 1) := by
  have small : ∀ {isr k} {u : Used}, u.request = requested n → ¬ h.Refused isr n k →
      u.request ≤ 2 ^ 32 - 1 - heapCanarySize - (heapAlign - 1) := by
    intro isr k u hr hno
    by_contra hlarge
    exact hno (.inr (.inr (.inl (hr ▸ not_le.mp hlarge))))
  have allocated : ∀ isr k, (∃ h', h.allocate isr n k = some (h', 0) ∧ h.Idle h') ∨
      ∃ h' bs' u, h.allocate isr n k = some (h', u.addr + heapHeaderSize) ∧ h.Placed h' bs bs' u ∧
        u.request = requested n ∧ u.request ≤ 2 ^ 32 - 1 - heapCanarySize - (heapAlign - 1) := by
    intro isr k
    rcases hi.allocate isr n k with ⟨h', e, hid, -⟩ | ⟨h', bs', u, e, hp, hr, hno⟩
    · exact .inl ⟨h', e, hid⟩
    · exact .inr ⟨h', bs', u, e, hp, hr, small hr hno⟩
  cases x with
  | malloc isr size =>
    cases hx
    exact allocated isr false
  | kernelMalloc isr size =>
    cases hx
    exact allocated isr true
  | calloc isr count size =>
    cases hx
    rcases hi.calloc isr count size with hid | ⟨h', bs', u, e, hp, hr, hno⟩
    · exact .inl hid
    · exact .inr ⟨h', bs', u, e, hp, hr, small hr hno⟩
  | realloc isr p size =>
    obtain ⟨hp, hs⟩ := Option.ite_none_right_eq_some.mp hx
    cases hs
    rw [HeapCall.apply, Heap.realloc, if_pos hp, malloc]
    exact allocated isr false
  | free | check | lockdown | write => cases hx

end Heap

namespace HeapClients

open Heap HeapCall

variable {c c' : HeapClients} {h' : Heap} {bs bs' : List Block} {u : Used} {start size n q : ℕ} {isr k : Bool}
  {x : HeapCall}

/-- The allocation that a used block is. -/
def allocation (u : Used) : ℕ × ℕ := (u.addr + heapHeaderSize, u.request)

/-- The heap consists of the blocks, in the region of `aixos_heap_init`, and those that are used are the live
allocations. -/
structure Owns (start size : ℕ) (c : HeapClients) (bs : List Block) : Prop where
  intact : c.heap.Intact bs
  live : c.live.Perm ((usedFrom heapHeaderSize c.heap.heapBegin bs).map allocation)
  room : ∀ u ∈ usedFrom heapHeaderSize c.heap.heapBegin bs, 0 < u.request ∧
    u.request ≤ 2 ^ 32 - 1 - heapCanarySize - (heapAlign - 1) ∧ rounded u.request ≤ u.size
  begin_eq : c.heap.heapBegin = initBegin start size
  end_eq : c.heap.heapEnd = initBegin start size + initSize start size
  span_eq : span heapHeaderSize bs = heapHeaderSize + initFree start size

/-- Different blocks are different allocations. -/
theorem allocation_injOn {a : ℕ} {v : Used} (hu : u ∈ usedFrom heapHeaderSize a bs)
    (hv : v ∈ usedFrom heapHeaderSize a bs) (he : u.addr + heapHeaderSize = v.addr + heapHeaderSize) : u = v := by
  have hH := heapHeaderSize_ge
  by_contra hne
  rcases usedFrom_apart hu hv hne with h | h <;> omega

namespace Owns

theorem mem_live (o : Owns start size c bs) {e : ℕ × ℕ} : e ∈ c.live ↔
    ∃ u ∈ usedFrom heapHeaderSize c.heap.heapBegin bs, allocation u = e := by
  rw [o.live.mem_iff, List.mem_map]

/-- Nothing that matters has changed. -/
theorem idle (o : Owns start size c bs) (hid : c.heap.Idle h') : Owns start size { c with heap := h' } bs where
  intact := o.intact.congr hid.steady hid.mem hid.currentUsed
  live := by rw [show ({ c with heap := h' } : HeapClients).heap = h' from rfl, hid.steady.begin_eq]; exact o.live
  room := by rw [show ({ c with heap := h' } : HeapClients).heap = h' from rfl, hid.steady.begin_eq]; exact o.room
  begin_eq := hid.steady.begin_eq.trans o.begin_eq
  end_eq := hid.steady.end_eq.trans o.end_eq
  span_eq := o.span_eq

/-- A request has been placed. -/
theorem placed (o : Owns start size c bs) (hp : c.heap.Placed h' bs bs' u) (hr : u.request = requested n)
    (hle : u.request ≤ 2 ^ 32 - 1 - heapCanarySize - (heapAlign - 1)) : Owns start size ⟨h', (u.addr + heapHeaderSize, requested n) :: c.live⟩ bs' where
  intact := hp.intact
  live := by
    have hperm : (usedFrom heapHeaderSize h'.heapBegin bs').Perm (u :: usedFrom heapHeaderSize c.heap.heapBegin bs) := by
      rw [← hp.erase, hp.steady.begin_eq]
      exact List.perm_cons_erase hp.mem
    refine ((o.live.cons _).trans ?_).trans (hperm.map allocation).symm
    rw [List.map_cons, allocation, hr]
  room v hv := by
    rcases hp.mem_iff.mp hv with rfl | hv
    · exact ⟨hr ▸ requested_pos n, hle, hp.room⟩
    · exact o.room v hv
  begin_eq := hp.steady.begin_eq.trans o.begin_eq
  end_eq := hp.steady.end_eq.trans o.end_eq
  span_eq := hp.span_eq.trans o.span_eq

/-- A block has been released. -/
theorem released (o : Owns start size c bs) (hr : c.heap.Released h' bs bs' u)
    (hu : u ∈ usedFrom heapHeaderSize c.heap.heapBegin bs) :
    Owns start size ⟨h', lose c.live (u.addr + heapHeaderSize)⟩ bs' := by
  have hH := heapHeaderSize_ge
  have hnodup : (usedFrom heapHeaderSize c.heap.heapBegin bs).Nodup := nodup_usedFrom (by omega) _
  have hused : usedFrom heapHeaderSize h'.heapBegin bs' = (usedFrom heapHeaderSize c.heap.heapBegin bs).erase u := by
    rw [hr.steady.begin_eq]
    exact hr.erase
  refine ⟨hr.intact, ?_, fun v hv => o.room v ?_, hr.steady.begin_eq.trans o.begin_eq, hr.steady.end_eq.trans o.end_eq,
    hr.span_eq.trans o.span_eq⟩
  · show (lose c.live (u.addr + heapHeaderSize)).Perm ((usedFrom heapHeaderSize h'.heapBegin bs').map allocation)
    rw [hused, hnodup.erase_eq_filter, lose]
    refine (o.live.filter _).trans ?_
    rw [List.filter_map]
    refine .of_eq (congrArg _ (List.filter_congr fun v hv => ?_))
    rw [Function.comp_apply, Bool.eq_iff_iff, decide_eq_true_eq, bne_iff_ne]
    exact not_congr ⟨allocation_injOn hv hu, fun e => e ▸ rfl⟩
  · have hv : v ∈ usedFrom heapHeaderSize h'.heapBegin bs' := hv
    rw [hused] at hv
    exact List.mem_of_mem_erase hv

/-- Within the bytes of a live allocation memory has changed. -/
theorem written (o : Owns start size c bs) {m : ByteMemory} {e : ℕ × ℕ} (he : e ∈ c.live)
    (hw : Within c.heap.mem m e.1 (e.1 + e.2)) : Owns start size { c with heap := { c.heap with mem := m } } bs ∧
      ∀ f ∈ c.live, f.1 ≠ e.1 → Agree c.heap.mem m f.1 (f.1 + f.2) := by
  obtain ⟨u, hu, rfl⟩ := o.mem_live.mp he
  obtain ⟨hi, hk⟩ := o.intact.write hu hw
  refine ⟨⟨hi, o.live, o.room, o.begin_eq, o.end_eq, o.span_eq⟩, fun f hf hne => ?_⟩
  obtain ⟨v, hv, rfl⟩ := o.mem_live.mp hf
  have hfits := (o.intact.valid hv).2.2.2.2.1
  refine (hk v hv fun e => hne (e ▸ rfl)).mono le_rfl ?_
  show v.addr + heapHeaderSize + v.request ≤ _
  omega

/-- What used blocks hold, live allocations hold. -/
theorem agree (o : Owns start size c bs) {m m' : ByteMemory}
    (hk : Kept m m' (usedFrom heapHeaderSize c.heap.heapBegin bs)) {e : ℕ × ℕ} (he : e ∈ c.live) :
    Agree m m' e.1 (e.1 + e.2) := by
  obtain ⟨u, hu, rfl⟩ := o.mem_live.mp he
  have hfits := (o.intact.valid hu).2.2.2.2.1
  refine (hk u hu).mono le_rfl ?_
  show u.addr + heapHeaderSize + u.request ≤ _
  omega

end Owns

/-- After `aixos_heap_init` there is one free block, and nothing is live. -/
theorem owns_init (m : ByteMemory) (h8 : 8 ∣ initBegin start size)
    (hend : initBegin start size + initSize start size < 256 ^ cfg.pointerSize) :
    Owns start size (init m start size) [Block.free (initFree start size)] := by
  have e : (init m start size).heap = Heap.init m start size := rfl
  have hbegin : (init m start size).heap.heapBegin = initBegin start size := by rw [e, init_eq]
  have hend' : (init m start size).heap.heapEnd = initBegin start size + initSize start size := by rw [e, init_eq]
  refine ⟨intact_init m h8 hend, ?_, fun u hu => ?_, hbegin, hend', ?_⟩
  · rw [usedFrom_free, usedFrom_nil]
    exact .nil
  · rw [usedFrom_free, usedFrom_nil] at hu
    cases hu
  · rw [span_cons, span_nil]
    rfl

theorem call_eq (hx : c.Allowed x) {q : ℕ} (e : x.apply c.heap = some (h', q)) :
    c.call x = some (⟨h', x.owned c.live q⟩, q) := by
  rw [call, if_pos hx, e]
  rfl

namespace Owns

/-- Live pointers are not `NULL`. -/
theorem ptr_ne_zero (o : Owns start size c bs) {e : ℕ × ℕ} (he : e ∈ c.live) : e.1 ≠ 0 := by
  have hH := heapHeaderSize_ge
  obtain ⟨u, -, rfl⟩ := o.mem_live.mp he
  show u.addr + heapHeaderSize ≠ 0
  omega

theorem lose_zero (o : Owns start size c bs) : lose c.live 0 = c.live :=
  List.filter_eq_self.mpr fun _ he => decide_eq_true (o.ptr_ne_zero he)

/-- What is live after a call that asks for bytes. -/
theorem owned_fresh (o : Owns start size c bs) (hx : x.fresh = some n) (q : ℕ) : x.owned c.live q = gain c.live q n := by
  cases x with
  | malloc | kernelMalloc | calloc =>
    cases hx
    rfl
  | realloc isr p size =>
    obtain ⟨hp, hs⟩ := Option.ite_none_right_eq_some.mp hx
    cases hs
    rw [owned, if_neg (fun h => h.1 hp), hp, o.lose_zero]
    unfold gain
    split <;> rfl
  | free | check | lockdown | write => cases hx

/-- **A call that asks for bytes.** -/
theorem gets (o : Owns start size c bs) (hx : x.fresh = some n) :
    (∃ h', x.apply c.heap = some (h', 0) ∧ c.heap.Idle h') ∨
    ∃ h' bs' u, x.apply c.heap = some (h', u.addr + heapHeaderSize) ∧ c.heap.Placed h' bs bs' u ∧
      u.request = requested n ∧ Owns start size ⟨h', (u.addr + heapHeaderSize, requested n) :: c.live⟩ bs' := by
  rcases o.intact.fresh hx with hid | ⟨h', bs', u, e, hp, hr, hle⟩
  · exact .inl hid
  · exact .inr ⟨h', bs', u, e, hp, hr, o.placed hp hr hle⟩

/-- `aixos_free` of a live pointer, by a task. -/
theorem frees (o : Owns start size c bs) {e : ℕ × ℕ} (he : e ∈ c.live) : ∃ bs' u, allocation u = e ∧
    u ∈ usedFrom heapHeaderSize c.heap.heapBegin bs ∧ c.heap.Released (c.heap.free false e.1) bs bs' u ∧
    Owns start size ⟨c.heap.free false e.1, lose c.live e.1⟩ bs' ∧
    ∀ f ∈ lose c.live e.1, Agree c.heap.mem (c.heap.free false e.1).mem f.1 (f.1 + f.2) := by
  obtain ⟨u, hu, rfl⟩ := o.mem_live.mp he
  obtain ⟨bs', hr⟩ := o.intact.free hu
  have o' := o.released hr hu
  refine ⟨bs', u, rfl, hu, hr, o', fun f hf => o'.agree ?_ hf⟩
  show Kept _ _ (usedFrom heapHeaderSize (c.heap.free false (u.addr + heapHeaderSize)).heapBegin bs')
  rw [hr.steady.begin_eq]
  exact hr.kept

/-- `aixos_free`, of a live pointer or `NULL`. -/
theorem frees_any (o : Owns start size c bs) (isr : Bool) {p : ℕ} (hp : p = 0 ∨ ∃ e ∈ c.live, e.1 = p) :
    ∃ bs', Owns start size ⟨c.heap.free isr p, if isr then c.live else lose c.live p⟩ bs' ∧
      ∀ e ∈ c.live, e ∈ (if isr then c.live else lose c.live p) →
        Agree c.heap.mem (c.heap.free isr p).mem e.1 (e.1 + e.2) := by
  cases isr with
  | true =>
    have e : c.heap.free true p = c.heap := by
      unfold Heap.free
      rw [if_pos rfl, ite_self]
    rw [e, if_pos rfl]
    exact ⟨bs, o, fun _ _ _ => .refl _ _ _⟩
  | false =>
    rw [if_neg Bool.false_ne_true]
    rcases hp with rfl | ⟨e, he, rfl⟩
    · have hfree : c.heap.free false 0 = c.heap := if_pos rfl
      rw [hfree, o.lose_zero]
      exact ⟨bs, o, fun _ _ _ => .refl _ _ _⟩
    · obtain ⟨bs', -, -, -, -, o', hk⟩ := o.frees he
      exact ⟨bs', o', fun f _ hf => hk f hf⟩

/-- `aixos_realloc` of a live pointer to a size that is not zero. -/
theorem reallocs (o : Owns start size c bs) {e : ℕ × ℕ} (he : e ∈ c.live) (hn : n ≠ 0) (isr : Bool) :
    (∃ h', c.heap.realloc isr e.1 n = some (h', 0) ∧ c.heap.Idle h') ∨
    ∃ h' q bs', c.heap.realloc isr e.1 n = some (h', q) ∧ q ≠ 0 ∧ (∀ f ∈ c.live, f.1 ≠ q) ∧
      Owns start size ⟨h', gain (lose c.live e.1) q n⟩ bs' ∧
      h'.mem.load q (min e.2 n) = c.heap.mem.load e.1 (min e.2 n) ∧
      ∀ f ∈ lose c.live e.1, Agree c.heap.mem h'.mem f.1 (f.1 + f.2) := by
  have hH := heapHeaderSize_ge
  obtain ⟨u, hu, rfl⟩ := o.mem_live.mp he
  rcases o.intact.realloc hu hn isr with h | ⟨h₁, bs₁, v, h', bs', e, hp, hr, hno, hcopy, hrel⟩
  · exact .inl h
  have hne : u ≠ v := by
    rintro rfl
    exact hp.not_mem hu
  have o₁ := o.placed hp hr (by
    by_contra hlarge
    exact hno (.inr (.inr (.inl (hr ▸ not_le.mp hlarge)))))
  have hu₁ : u ∈ usedFrom heapHeaderSize h₁.heapBegin bs₁ := hp.mem_iff.mpr (.inr hu)
  have hv₁ : v ∈ usedFrom heapHeaderSize h₁.heapBegin bs₁ := hp.mem_iff.mpr (.inl rfl)
  have o' := o₁.released hrel hu₁
  have hptr : v.addr + heapHeaderSize ≠ u.addr + heapHeaderSize := fun e => hne (allocation_injOn hu₁ hv₁ e.symm)
  have hlose : lose ((v.addr + heapHeaderSize, requested n) :: c.live) (u.addr + heapHeaderSize) =
      (v.addr + heapHeaderSize, requested n) :: lose c.live (u.addr + heapHeaderSize) :=
    List.filter_cons_of_pos (decide_eq_true hptr)
  have hkept : ∀ f ∈ lose ((v.addr + heapHeaderSize, requested n) :: c.live) (u.addr + heapHeaderSize),
      Agree h₁.mem h'.mem f.1 (f.1 + f.2) := fun f hf => o'.agree (by
    show Kept _ _ (usedFrom heapHeaderSize h'.heapBegin bs')
    rw [hrel.steady.begin_eq]
    exact hrel.kept) hf
  rw [hlose] at o' hkept
  refine .inr ⟨h', _, bs', e, by omega, fun f hf hfq => ?_, ?_, ?_, fun f hf => ?_⟩
  · obtain ⟨w, hw, rfl⟩ := o.mem_live.mp hf
    have : w = v := allocation_injOn (hp.mem_iff.mpr (.inr hw)) hv₁ hfq
    exact hp.not_mem (this ▸ hw)
  · rw [gain, if_neg (by omega)]
    exact o'
  · refine Eq.trans ((hkept _ (List.mem_cons_self ..)).load le_rfl ?_) hcopy
    have : min u.request n ≤ requested n := by
      unfold requested
      split <;> omega
    dsimp only [allocation]
    omega
  · exact (o.agree hp.kept (List.mem_of_mem_filter hf)).trans (hkept f (List.mem_cons_of_mem _ hf))

/-- **Every call that is allowed returns**, the used blocks are the live allocations again, and what the allocations
hold that stay live is as it was, but for what a client writes. -/
theorem call (o : Owns start size c bs) (hx : c.Allowed x) : ∃ c' q bs', c.call x = some (c', q) ∧
    Owns start size c' bs' ∧ ∀ e ∈ c.live, e ∈ c'.live → (∀ offset cs, x ≠ .write e.1 offset cs) →
      Agree c.heap.mem c'.heap.mem e.1 (e.1 + e.2) := by
  have gained : ∀ {n}, x.fresh = some n → ∃ c' q bs', c.call x = some (c', q) ∧ Owns start size c' bs' ∧
      ∀ e ∈ c.live, e ∈ c'.live → (∀ offset cs, x ≠ .write e.1 offset cs) →
        Agree c.heap.mem c'.heap.mem e.1 (e.1 + e.2) := by
    intro n hf
    have hH := heapHeaderSize_ge
    rcases o.gets hf with ⟨h', e, hid⟩ | ⟨h', bs', u, e, hp, -, o'⟩
    · refine ⟨_, 0, bs, call_eq hx e, ?_, fun f _ _ _ => hid.mem ▸ .refl _ _ _⟩
      rw [o.owned_fresh hf]
      exact o.idle hid
    · refine ⟨_, _, bs', call_eq hx e, ?_, fun f hf _ _ => o.agree hp.kept hf⟩
      rw [o.owned_fresh hf, gain, if_neg (by omega)]
      exact o'
  cases x with
  | malloc | kernelMalloc | calloc => exact gained rfl
  | realloc isr p n =>
    by_cases hp : p = 0
    · exact gained (if_pos hp)
    · obtain ⟨e, he, rfl⟩ := hx.resolve_left hp
      by_cases hn : n = 0
      · subst hn
        obtain ⟨bs', o', hk⟩ := o.frees_any isr (.inr ⟨e, he, rfl⟩)
        have happly : (HeapCall.realloc isr e.1 0).apply c.heap = some (c.heap.free isr e.1, 0) := by
          rw [apply, Heap.realloc, if_neg hp, if_pos rfl]
        refine ⟨_, 0, bs', call_eq hx happly, ?_, fun f hf hf' _ => hk f hf ?_⟩
        · rw [owned, if_pos ⟨hp, rfl⟩]
          exact o'
        · have hf' : f ∈ (HeapCall.realloc isr e.1 0).owned c.live 0 := hf'
          rw [owned, if_pos ⟨hp, rfl⟩] at hf'
          exact hf'
      · have howned : ∀ q, (HeapCall.realloc isr e.1 n).owned c.live q =
            if q = 0 then c.live else gain (lose c.live e.1) q n := fun q => by
          rw [owned, if_neg fun h => hn h.2]
        rcases o.reallocs he hn isr with ⟨h', e', hid⟩ | ⟨h', q, bs', e', hq, hnew, o', -, hk⟩
        · refine ⟨_, 0, bs, call_eq hx e', ?_, fun f _ _ _ => hid.mem ▸ .refl _ _ _⟩
          rw [howned, if_pos rfl]
          exact o.idle hid
        · refine ⟨_, q, bs', call_eq hx e', ?_, fun f hf hf' _ => hk f ?_⟩
          · rw [howned, if_neg hq]
            exact o'
          · have hf' : f ∈ (HeapCall.realloc isr e.1 n).owned c.live q := hf'
            rw [howned, if_neg hq, gain, if_neg hq] at hf'
            refine (List.mem_cons.mp hf').resolve_left ?_
            rintro rfl
            exact hnew _ hf rfl
  | free isr p =>
    obtain ⟨bs', o', hk⟩ := o.frees_any isr hx
    exact ⟨_, 0, bs', call_eq hx rfl, o', fun f hf hf' _ => hk f hf hf'⟩
  | check =>
    have e : HeapCall.check.apply c.heap = some (c.heap, 0) := by rw [apply, o.intact.check_eq, Option.map_some]
    exact ⟨_, 0, bs, call_eq hx e, o, fun _ _ _ _ => .refl _ _ _⟩
  | lockdown isr =>
    refine ⟨_, 0, bs, call_eq hx rfl, ?_, fun f _ _ _ => ?_⟩
    · cases isr with
      | true => exact o
      | false =>
        exact ⟨⟨o.intact.laid, o.intact.first, o.intact.begin_pos, o.intact.end_lt, o.intact.span_le, o.intact.ne_nil,
          o.intact.span_lt, o.intact.coalesced, o.intact.used, o.intact.initialized, o.intact.corruption⟩, o.live, o.room,
          o.begin_eq, o.end_eq, o.span_eq⟩
    · cases isr <;> exact .refl _ _ _
  | write p offset cs =>
    obtain ⟨e, he, rfl, hle⟩ := id hx
    have hw : Within c.heap.mem (c.heap.mem.store (e.1 + offset) cs) e.1 (e.1 + e.2) :=
      Within.store (Nat.le_add_right ..) (by omega)
    obtain ⟨o', hk⟩ := o.written he hw
    exact ⟨_, 0, bs, call_eq hx rfl, o', fun f hf _ hne => hk f hf fun e' => hne offset cs (e' ▸ rfl)⟩

theorem step (o : Owns start size c bs) (h : c.step x = some c') : ∃ bs', Owns start size c' bs' := by
  obtain ⟨⟨d, q⟩, hc, rfl⟩ := Option.map_eq_some_iff.mp h
  have hx : c.Allowed x := by
    by_contra hx
    rw [HeapClients.call, if_neg hx] at hc
    cases hc
  obtain ⟨c', q', bs', e, o', -⟩ := o.call hx
  cases hc.symm.trans e
  exact ⟨bs', o'⟩

end Owns

/-- **In every run** the heap consists of blocks, and those that are used are the live allocations. -/
theorem owns_run (m : ByteMemory) (h8 : 8 ∣ initBegin start size)
    (hend : initBegin start size + initSize start size < 256 ^ cfg.pointerSize) {xs : List HeapCall}
    (h : run HeapClients.step (init m start size) xs = some c) : ∃ bs, Owns start size c bs := by
  refine (path_iff_run.mpr h).invariant (I := fun c => ∃ bs, Owns start size c bs) ?_ ⟨_, owns_init m h8 hend⟩
  rintro c x c' ⟨bs, o⟩ - hstep
  exact o.step hstep

end HeapClients

end Aixos
