import Aixos.Heap.Clients

/-!
# The blocks tile the region

* `Heap.Tiles` — headers lie end to end, and their links say so.
* `HeapClients.region_tiled` — so they do in every run.
* `HeapClients.free_restores` — what is freed leaves no trace in the blocks.
* `HeapClients.double_free` — freeing a pointer twice is like freeing it once.
-/

namespace Aixos

open ByteMemory Block Transition

variable [cfg : HeapConfig]

namespace Heap

variable {h h' : Heap} {prev a start size fuel : ℕ} {bs : List Block} {e : ℕ × HeapHdr}

/-- Headers, with their addresses: the first is at `a`, each block begins where the one before it ends, and the last
ends at `stop`. Links to the next and to the previous block are the addresses of these, or `NULL`. -/
def Tiles : (prev a stop : ℕ) → List (ℕ × HeapHdr) → Prop
  | _, a, stop, [] => a = stop
  | prev, a, stop, e :: es => e.1 = a ∧ e.2.prev = prev ∧
    e.2.next = (if es = [] then 0 else a + heapHeaderSize + e.2.size.toNat) ∧
    Tiles a (a + heapHeaderSize + e.2.size.toNat) stop es

theorem tiles_headersFrom (hs : ∀ b ∈ bs, b.size < 2 ^ 32) :
    Tiles prev a (a + span heapHeaderSize bs) (headersFrom prev a bs) := by
  induction bs generalizing prev a with
  | nil => rfl
  | cons b bs ih =>
    have ih := @ih a (a + (heapHeaderSize + b.size)) fun c hc => hs c (List.mem_cons_of_mem _ hc)
    have hsize : (BitVec.ofNat 32 b.size).toNat = b.size := ofNat_toNat (hs b (List.mem_cons_self ..))
    refine ⟨rfl, rfl, ?_, ?_⟩
    · show Block.first (a + (heapHeaderSize + b.size)) 0 bs = if headersFrom a (a + (heapHeaderSize + b.size)) bs = [] then 0
        else a + heapHeaderSize + (BitVec.ofNat 32 b.size).toNat
      rw [hsize, Nat.add_assoc]
      cases bs with
      | nil => rfl
      | cons c bs => rfl
    · show Tiles a (a + heapHeaderSize + (BitVec.ofNat 32 b.size).toNat) _ _
      rw [hsize, Nat.add_assoc a heapHeaderSize b.size, span_cons, ← Nat.add_assoc a (heapHeaderSize + b.size)]
      exact ih

/-- Neighbours are not both free. -/
theorem isChain_headersFrom (hc : Coalesced bs) : (headersFrom prev a bs).IsChain fun e f =>
    ¬ (e.2.magic = heapMagicFree ∧ f.2.magic = heapMagicFree) := by
  induction bs generalizing prev a with
  | nil => exact .nil
  | cons b bs ih =>
    obtain ⟨hhead, htail⟩ := coalesced_cons.mp hc
    refine List.isChain_cons.mpr ⟨fun f hf => ?_, ih htail⟩
    cases bs with
    | nil => cases hf
    | cons c bs =>
      cases hf
      rintro ⟨h₁, h₂⟩
      have h₁ := HeapHdr.ofBlock_magic_free.mp h₁
      have h₂ := HeapHdr.ofBlock_magic_free.mp h₂
      rcases hhead c rfl with hb | hb
      · rw [h₁] at hb
        cases hb
      · rw [h₂] at hb
        cases hb

/-- The units of the blocks whose headers say that they are used. -/
theorem used_headersFrom (hs : ∀ b ∈ bs, b.size < 2 ^ 32) : (((headersFrom prev a bs).filter fun e =>
    e.2.magic = heapMagicUsed).map fun e => e.2.size.toNat + heapHeaderSize).sum = usedSpan heapHeaderSize bs := by
  induction bs generalizing prev a with
  | nil => rfl
  | cons b bs ih =>
    have ih := @ih a (a + (heapHeaderSize + b.size)) fun c hc => hs c (List.mem_cons_of_mem _ hc)
    have hsize : (BitVec.ofNat 32 b.size).toNat = b.size := ofNat_toNat (hs b (List.mem_cons_self ..))
    rw [headersFrom, usedSpan_cons, List.filter_cons]
    by_cases hb : b.request.isSome
    · rw [if_pos (decide_eq_true (HeapHdr.ofBlock_magic_used.mpr hb)), if_pos hb, List.map_cons, List.sum_cons, ih]
      dsimp only
      rw [HeapHdr.ofBlock_size, hsize, Nat.add_comm b.size]
    · have hno : ¬ decide ((HeapHdr.ofBlock prev a (Block.first (a + (heapHeaderSize + b.size)) 0 bs) b).magic =
          heapMagicUsed) = true := fun h => hb (HeapHdr.ofBlock_magic_used.mp (of_decide_eq_true h))
      rw [if_neg hno, if_neg hb, ih, Nat.zero_add]

/-- The headers of the blocks are valid, and so are the canaries of those that are used. -/
theorem valid_headersFrom (hl : Laid h.mem prev a 0 bs) (hb : h.Bounds a bs) (he : e ∈ headersFrom prev a bs) :
    e.2 = h.hdr e.1 ∧ h.headerValid e.1 = true ∧ (e.2.magic = heapMagicUsed → h.canaryValid e.1 = true) := by
  induction bs generalizing prev a with
  | nil => cases he
  | cons b bs ih =>
    rcases List.mem_cons.mp he with rfl | he
    · have eh : h.hdr a = .ofBlock prev a _ b := hl.1.header
      refine ⟨eh.symm, hb.headerValid hl.1, fun hm => ?_⟩
      obtain ⟨r, hr⟩ := Option.isSome_iff_exists.mp (HeapHdr.ofBlock_magic_used.mp hm)
      exact canaryValid_of_blockAt hl.1 hr (hb.size_lt b (List.mem_cons_self ..))
    · exact ih hl.2 hb.tail he

/-- The walk over the blocks reads memory only. -/
theorem walk_congr (hm : h'.mem = h.mem) : h'.walk fuel a = h.walk fuel a := by
  have hhdr : ∀ a, h'.hdr a = h.hdr a := fun a => by rw [hdr, hm, hdr]
  induction fuel generalizing a with
  | zero => rfl
  | succ fuel ih => rw [walk, walk, hhdr, ih]

theorem blocks_congr (hm : h'.mem = h.mem) (hfirst : h'.heapFirst = h.heapFirst) (hbegin : h'.heapBegin = h.heapBegin)
    (hend : h'.heapEnd = h.heapEnd) : h'.blocks = h.blocks := by
  rw [blocks, blocks, rounds, rounds, hfirst, hbegin, hend, walk_congr hm]

theorem Idle.blocks_eq (hid : h.Idle h') : h'.blocks = h.blocks :=
  blocks_congr hid.mem hid.steady.first_eq hid.steady.begin_eq hid.steady.end_eq

/-- The region of a heap whose start is aligned. -/
theorem init_region (h8 : 8 ∣ start) (hend : start + size < 256 ^ cfg.pointerSize) :
    8 ∣ initBegin start size ∧ initBegin start size + initSize start size < 256 ^ cfg.pointerSize := by
  unfold initBegin initSize
  split
  · refine ⟨h8, ?_⟩
    rw [show heapAlign = 8 from rfl]
    omega
  · exact ⟨cfg.heapPool_aligned, cfg.heapPool_end⟩

/-- A region of less than 4 GiB has its only block take up all of it. -/
theorem initFree_eq (hsize : size < 2 ^ 32) : heapHeaderSize + initFree start size = initSize start size := by
  have hle : heapHeaderSize ≤ initSize start size := le_initSize
  have hlt : initSize start size < 2 ^ 32 := by
    unfold initSize
    split
    · rw [show heapAlign = 8 from rfl]
      omega
    · exact cfg.heapSize_lt
  rw [initFree, Nat.mod_eq_of_lt (by omega)]
  omega

end Heap

namespace HeapClients

open Heap HeapCall

variable {m : ByteMemory} {c c' : HeapClients} {start size q : ℕ} {bs : List Block} {xs : List HeapCall} {x : HeapCall}

/-- **The blocks tile the region**: on an aligned region of less than 4 GiB, in every run of clients that free only live
pointers and write only what they have requested, the blocks lie end to end from one end of the region to the other,
linked both ways, no two neighbours free, all headers and all canaries of used blocks valid; `current_used` is what
the used blocks take up; and `aixos_heap_check` finds nothing. Every call that such clients may make returns. -/
theorem region_tiled (h8 : 8 ∣ start) (hsize : size < 2 ^ 32) (hend : start + size < 256 ^ cfg.pointerSize)
    (h : run HeapClients.step (init m start size) xs = some c) :
    (∃ hs, c.heap.blocks = some hs ∧ c.heap.heapFirst = initBegin start size ∧
      Tiles 0 (initBegin start size) (initBegin start size + initSize start size) hs ∧
      (hs.IsChain fun e f => ¬ (e.2.magic = heapMagicFree ∧ f.2.magic = heapMagicFree)) ∧
      (∀ e ∈ hs, c.heap.headerValid e.1 = true ∧ (e.2.magic = heapMagicUsed → c.heap.canaryValid e.1 = true)) ∧
      c.heap.currentUsed.toNat =
        ((hs.filter fun e => e.2.magic = heapMagicUsed).map fun e => e.2.size.toNat + heapHeaderSize).sum) ∧
    c.heap.check = some (c.heap, Code.ok) ∧ c.heap.corruptionCount = 0 ∧ ∀ x, c.Allowed x → (c.step x).isSome := by
  obtain ⟨h8', hend'⟩ := init_region h8 hend
  obtain ⟨bs, o⟩ := owns_run m h8' hend' h
  have hi := o.intact
  have hsmall : ∀ b ∈ bs, b.size < 2 ^ 32 := hi.bounds.size_lt
  have hspan : span heapHeaderSize bs = initSize start size := o.span_eq.trans (initFree_eq hsize)
  have hused : (BitVec.ofNat 32 (usedSpan heapHeaderSize bs)).toNat = usedSpan heapHeaderSize bs := by
    have hle : usedSpan heapHeaderSize bs ≤ span heapHeaderSize bs := usedSpan_le
    have hlt : initSize start size < 2 ^ 32 := by
      unfold initSize
      split
      · rw [show heapAlign = 8 from rfl]
        omega
      · exact cfg.heapSize_lt
    exact ofNat_toNat (by omega)
  refine ⟨⟨_, hi.blocks_eq, hi.first.trans o.begin_eq, ?_, isChain_headersFrom hi.coalesced, fun e he => ?_, ?_⟩,
    hi.check_eq, hi.corruption, fun x hx => ?_⟩
  · rw [o.begin_eq, ← hspan]
    exact tiles_headersFrom hsmall
  · exact (valid_headersFrom hi.laid hi.bounds he).2
  · rw [hi.used, hused, used_headersFrom hsmall]
  · obtain ⟨c', q, -, e, -⟩ := o.call hx
    rw [HeapClients.step, e]
    rfl

/-! ### Freeing -/

namespace Owns

/-- The blocks are determined by those that are used. -/
theorem blocks_eq {cs : List Block} (o : Owns start size c bs) (o' : Owns start size c' cs)
    (hu : usedFrom heapHeaderSize (initBegin start size) cs = usedFrom heapHeaderSize (initBegin start size) bs) :
    c'.heap.blocks = c.heap.blocks := by
  have hH := heapHeaderSize_ge
  have : cs = bs := o'.intact.coalesced.ext (by omega) o.intact.coalesced (o'.span_eq.trans o.span_eq.symm) hu
  rw [o.intact.blocks_eq, o'.intact.blocks_eq, o.begin_eq, o'.begin_eq, this]

/-- Live pointers differ. -/
theorem nodup_ptrs (o : Owns start size c bs) : (c.live.map Prod.fst).Nodup := by
  have hH := heapHeaderSize_ge
  rw [(o.live.map Prod.fst).nodup_iff, List.map_map]
  refine List.Nodup.map_on (fun u hu v hv e => allocation_injOn hu hv e) ?_
  exact nodup_usedFrom (by omega) _

/-- Live pointers are freed one after the other. -/
theorem frees_all (o : Owns start size c bs) {order : List ℕ} (hp : order.Perm (c.live.map Prod.fst)) :
    ∃ c' bs', run HeapClients.step c (order.map (.free false)) = some c' ∧ Owns start size c' bs' ∧ c'.live = [] := by
  induction order generalizing c bs with
  | nil =>
    refine ⟨c, bs, rfl, o, ?_⟩
    have := hp.symm.eq_nil
    exact List.map_eq_nil_iff.mp this
  | cons p ps ih =>
    obtain ⟨e, he, rfl⟩ : ∃ e ∈ c.live, e.1 = p := by
      have hm := hp.mem_iff.mp (List.mem_cons_self ..)
      exact List.mem_map.mp hm
    obtain ⟨bs₁, -, -, -, -, o₁, -⟩ := o.frees he
    have hnodup := (hp.nodup_iff.mpr o.nodup_ptrs)
    have hps : ps.Perm ((lose c.live e.1).map Prod.fst) := by
      have hfilter := hp.filter fun a => decide (a ≠ e.1)
      rw [List.filter_cons_of_neg (by simp), List.filter_map] at hfilter
      have hkeep : ps.filter (fun a => decide (a ≠ e.1)) = ps := List.filter_eq_self.mpr fun a ha =>
        decide_eq_true fun h => (List.nodup_cons.mp hnodup).1 (h ▸ ha)
      rwa [hkeep] at hfilter
    obtain ⟨c', bs', hr, o', hl⟩ := ih o₁ hps
    refine ⟨c', bs', ?_, o', hl⟩
    have hstep : c.step (.free false e.1) = some ⟨c.heap.free false e.1, lose c.live e.1⟩ := by
      rw [HeapClients.step, call_eq (x := .free false e.1) (.inr ⟨e, he, rfl⟩) rfl]
      rfl
    rw [List.map_cons, run, hstep, Option.bind_some]
    exact hr

end Owns

/-- **Freeing restores the heap**: when all live pointers have been freed, in whatever order, the blocks are those that
`aixos_heap_init` has made, a free one; and when a pointer is freed that a call has just returned, the blocks are
those from before the call. -/
theorem free_restores (h8 : 8 ∣ start) (hend : start + size < 256 ^ cfg.pointerSize)
    (h : run HeapClients.step (init m start size) xs = some c) :
    (∀ order : List ℕ, order.Perm (c.live.map Prod.fst) → ∃ c',
      run HeapClients.step c (order.map (.free false)) = some c' ∧ c'.live = [] ∧
      c'.heap.blocks = (Heap.init m start size).blocks ∧ c'.heap.blocks = some [(initBegin start size,
        .ofBlock 0 (initBegin start size) 0 (Block.free (initFree start size)))]) ∧
    ∀ x n c' q, x.fresh = some n → c.call x = some (c', q) → q ≠ 0 →
      (c'.heap.free false q).blocks = c.heap.blocks := by
  obtain ⟨h8', hend'⟩ := init_region h8 hend
  obtain ⟨bs, o⟩ := owns_run m h8' hend' h
  have o₀ := @owns_init cfg start size m h8' hend'
  refine ⟨fun order hp => ?_, fun x n c' q hx hcall hq => ?_⟩
  · obtain ⟨c', bs', hr, o', hl⟩ := o.frees_all hp
    have hnone : usedFrom heapHeaderSize (initBegin start size) bs' = [] := by
      have := o'.live
      rw [hl, o'.begin_eq] at this
      exact List.map_eq_nil_iff.mp this.symm.eq_nil
    have e : c'.heap.blocks = (Heap.init m start size).blocks := o₀.blocks_eq o' hnone
    refine ⟨c', hr, hl, e, ?_⟩
    have hbegin : (Heap.init m start size).heapBegin = initBegin start size := o₀.begin_eq
    have hb : (Heap.init m start size).blocks = _ := o₀.intact.blocks_eq
    rw [e, hb]
    show some (headersFrom 0 (Heap.init m start size).heapBegin [Block.free (initFree start size)]) = _
    rw [hbegin]
    rfl
  · have hallowed : c.Allowed x := by
      by_contra hno
      rw [HeapClients.call, if_neg hno] at hcall
      cases hcall
    rcases o.gets hx with ⟨h', e, -⟩ | ⟨h', bs', u, e, hp, -, o'⟩
    · rw [call_eq hallowed e] at hcall
      cases hcall
      exact absurd rfl hq
    · rw [call_eq hallowed e] at hcall
      cases hcall
      have hu : u ∈ usedFrom heapHeaderSize h'.heapBegin bs' := hp.mem_iff.mpr (.inl rfl)
      obtain ⟨bs'', hr⟩ := hp.intact.free hu
      refine o.blocks_eq (o'.released hr hu) ?_
      have hbegin : h'.heapBegin = initBegin start size := o'.begin_eq
      rw [← hbegin, hr.erase, hp.steady.begin_eq, hp.erase]

/-- **Freeing a pointer twice** is like freeing it once: the second call, by whomever, changes neither blocks nor
contents, nor `current_used`, nor `free_count`. -/
theorem double_free (h8 : 8 ∣ start) (hend : start + size < 256 ^ cfg.pointerSize)
    (h : run HeapClients.step (init m start size) xs = some c) {e : ℕ × ℕ} (he : e ∈ c.live) (isr : Bool) :
    (c.heap.free false e.1).freeCount = c.heap.freeCount + 1 ∧
    ((c.heap.free false e.1).free isr e.1).blocks = (c.heap.free false e.1).blocks ∧
    ((c.heap.free false e.1).free isr e.1).mem = (c.heap.free false e.1).mem ∧
    ((c.heap.free false e.1).free isr e.1).currentUsed = (c.heap.free false e.1).currentUsed ∧
    ((c.heap.free false e.1).free isr e.1).freeCount = (c.heap.free false e.1).freeCount := by
  obtain ⟨h8', hend'⟩ := init_region h8 hend
  obtain ⟨bs, o⟩ := owns_run m h8' hend' h
  obtain ⟨bs', u, rfl, hu, hr, -, -⟩ := o.frees he
  refine ⟨hr.freeCount, ?_⟩
  rcases free_again isr hr.magic with e | e
  · have e : (c.heap.free false (allocation u).1).free isr (allocation u).1 = c.heap.free false (allocation u).1 := e
    rw [e]
    exact ⟨rfl, rfl, rfl, rfl⟩
  · have e : (c.heap.free false (allocation u).1).free isr (allocation u).1 =
        { c.heap.free false (allocation u).1 with
          corruptionCount := (c.heap.free false (allocation u).1).corruptionCount + 1 } := e
    rw [e]
    exact ⟨blocks_congr rfl rfl rfl rfl, rfl, rfl, rfl⟩

end HeapClients

end Aixos

namespace Aixos.HeapClients

open Transition

attribute [local instance] HeapConfig.default

/-- Three allocations; the second is given back. -/
def threeCalls : List HeapCall := [.malloc false 16, .calloc false 3 7, .kernelMalloc false 2000, .free false 0x20008048]

/-- The heap has a region of 4096 bytes. -/
theorem threeCalls_run : ∃ c, run HeapClients.step (init (fun _ => 0) 0x20008000 4096) threeCalls = some c ∧
    decide (c.live = [(0x20008080, 2000), (0x20008018, 16)]) = true :=
  exists_run _ _ _ _ (by decide +kernel)

theorem region_tiled_once : ∃ c, run HeapClients.step (init (fun _ => 0) 0x20008000 4096) threeCalls = some c ∧
    c.heap.check = some (c.heap, Code.ok) ∧ c.heap.corruptionCount = 0 ∧
    ∃ hs, c.heap.blocks = some hs ∧ Heap.Tiles 0 0x20008000 0x20009000 hs := by
  obtain ⟨c, hr, -⟩ := threeCalls_run
  obtain ⟨⟨hs, hb, -, ht, -⟩, hc, h0, -⟩ := region_tiled (by decide) (by decide) (by decide) hr
  exact ⟨c, hr, hc, h0, hs, hb, ht⟩

theorem free_restores_once : ∃ c c', run HeapClients.step (init (fun _ => 0) 0x20008000 4096) threeCalls = some c ∧
    run HeapClients.step c ([0x20008018, 0x20008080].map (.free false)) = some c' ∧ c'.live = [] ∧
    c'.heap.blocks = (Heap.init (fun _ => 0) 0x20008000 4096).blocks := by
  obtain ⟨c, hr, hl⟩ := threeCalls_run
  have hl := of_decide_eq_true hl
  obtain ⟨c', hr', h0, hb, -⟩ := (free_restores (by decide) (by decide) hr).1 [0x20008018, 0x20008080] (by
    rw [hl]
    decide)
  exact ⟨c, c', hr, hr', h0, hb⟩

theorem double_free_once : ∃ c, run HeapClients.step (init (fun _ => 0) 0x20008000 4096) threeCalls = some c ∧
    (c.heap.free false 0x20008018).freeCount = c.heap.freeCount + 1 ∧
    ((c.heap.free false 0x20008018).free true 0x20008018).blocks = (c.heap.free false 0x20008018).blocks := by
  obtain ⟨c, hr, hl⟩ := threeCalls_run
  have hl := of_decide_eq_true hl
  obtain ⟨h₁, h₂, -⟩ := double_free (e := (0x20008018, 16)) (by decide) (by decide) hr (by rw [hl]; decide) true
  exact ⟨c, hr, h₁, h₂⟩

end Aixos.HeapClients
