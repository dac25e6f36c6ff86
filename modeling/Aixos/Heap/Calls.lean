import Aixos.Heap.Intact

/-!
# What the functions of the heap do

* `Heap.intact_init` — `aixos_heap_init` makes one free block.
* `Heap.Intact.allocate` — an allocation places a request in a free block, or nothing changes.
* `Heap.Intact.free` — `aixos_free` merges a block with its neighbours.
* `Heap.Intact.store` — the client writes to what it has requested.

What the other used blocks hold stays (`Kept`).
-/

namespace Aixos

open ByteMemory Block

variable [cfg : HeapConfig]

namespace Heap

variable {h h' h'' : Heap} {m m' m'' : ByteMemory} {prev a next s size p q r n : ℕ} {b : Block} {bs pre post : List Block}
  {us : List Used}

/-! ### Initialising -/

/-- `aixos_heap_init` takes the region that it is given. -/
def Given (start size : ℕ) : Prop := start ≠ 0 ∧ heapHeaderSize + heapAlign ≤ size

instance (start size : ℕ) : Decidable (Given start size) := inferInstanceAs (Decidable (_ ∧ _))

/-- Where the heap begins. -/
def initBegin (start size : ℕ) : ℕ := if Given start size then start else cfg.heapPool

/-- How large it is. -/
def initSize (start size : ℕ) : ℕ := if Given start size then size / heapAlign * heapAlign else cfg.heapSize

/-- How large its only block is: what is left of the region, in 32 bits. -/
def initFree (start size : ℕ) : ℕ := (initSize start size - heapHeaderSize) % 2 ^ 32

variable {start : ℕ}

theorem le_initSize : heapHeaderSize ≤ initSize start size := by
  have hH := heapHeaderSize_le
  have h8 := heapHeaderSize_dvd
  unfold initSize
  split
  · rename_i hg
    have := hg.2
    rw [show heapAlign = 8 from rfl] at this ⊢
    omega
  · have := cfg.heapSize_ge
    omega

/-- The variables of a heap that has been initialised. -/
theorem init_eq (m : ByteMemory) : init m start size =
    { mem := (init m start size).mem, heapFirst := initBegin start size, heapBegin := initBegin start size,
      heapEnd := initBegin start size + initSize start size, heapTotal := BitVec.ofNat 32 (initSize start size),
      heapInitialized := true } := by
  have hfirst : (init m start size).heapBegin = initBegin start size := by
    show (if start = 0 ∨ initSize start size = cfg.heapSize then initBegin start size else start) = _
    unfold initBegin initSize
    by_cases hg : Given start size
    · simp only [if_pos hg, ite_self]
    · simp only [if_neg hg, or_true, if_true]
  calc init m start size =
        { mem := (init m start size).mem, heapFirst := initBegin start size,
          heapBegin := (init m start size).heapBegin, heapEnd := (init m start size).heapBegin + initSize start size,
          heapTotal := BitVec.ofNat 32 (initSize start size), heapInitialized := true } := rfl
    _ = _ := by rw [hfirst]

/-- The header of the only block. -/
theorem hdr_init (m : ByteMemory) : (init m start size).hdr (initBegin start size) =
    .ofBlock 0 (initBegin start size) 0 (Block.free (initFree start size)) := by
  let c : HeapHdr :=
    { magic := heapMagicFree, reserved := 0, size := BitVec.ofNat 32 (initSize start size - heapHeaderSize),
      requestedSize := 0, headerGuard := 0, next := 0, prev := 0 }
  have hpos : (0 : ℕ) < 256 ^ cfg.pointerSize := Nat.pow_pos (by decide)
  have ec : c = { HeapHdr.ofBlock 0 (initBegin start size) 0 (Block.free (initFree start size)) with headerGuard := 0 } := by
    have : BitVec.ofNat 32 (initFree start size) = BitVec.ofNat 32 (initSize start size - heapHeaderSize) := by
      apply BitVec.eq_of_toNat_eq
      simp [initFree]
    simp only [c, HeapHdr.ofBlock, this]
    rfl
  obtain ⟨h₀, e₀⟩ : ∃ h₀ : Heap, init m start size = (h₀.setHdr (initBegin start size) fun _ => c).guardHdr
      (initBegin start size) := ⟨_, rfl⟩
  have e₁ : (h₀.setHdr (initBegin start size) fun _ => c).hdr (initBegin start size) = c := hdr_setHdr hpos hpos
  rw [e₀, hdr_guardHdr (by rw [e₁]; exact hpos) (by rw [e₁]; exact hpos), e₁, ec]
  rfl

/-- **`aixos_heap_init`** makes one free block. -/
theorem intact_init (m : ByteMemory) (h8 : 8 ∣ initBegin start size)
    (hend : initBegin start size + initSize start size < 256 ^ cfg.pointerSize) :
    (init m start size).Intact [Block.free (initFree start size)] := by
  have hle : heapHeaderSize ≤ initSize start size := le_initSize
  have hfree : initFree start size ≤ initSize start size - heapHeaderSize := Nat.mod_le ..
  have hlt : initFree start size < 2 ^ 32 := Nat.mod_lt _ (by decide)
  have hpos : 0 < initBegin start size := by
    unfold initBegin
    split
    · rename_i hg
      exact Nat.pos_of_ne_zero hg.1
    · exact cfg.heapPool_pos
  rw [init_eq]
  refine ⟨⟨⟨hdr_init m, nofun, nofun, h8⟩, trivial⟩, rfl, hpos, hend, ?_, List.cons_ne_nil _ _, ?_, coalesced_single, ?_,
    rfl, rfl⟩
  · simp only [span_cons, span_nil]
    omega
  · simp only [span_cons, span_nil]
    omega
  · simp

/-! ### Allocating -/

theorem steady_splitBlock (m n : ℕ) : h.Steady (h.splitBlock a m n) := by
  unfold splitBlock
  dsimp only
  split <;> exact ⟨rfl, rfl, rfl, rfl, rfl, rfl⟩

theorem splitBlock_currentUsed (m n : ℕ) : (h.splitBlock a m n).currentUsed = h.currentUsed := by
  unfold splitBlock
  dsimp only
  split <;> rfl

theorem steady_takeBlock (r : ℕ) : h.Steady (h.takeBlock a r).1 := ⟨rfl, rfl, rfl, rfl, rfl, rfl⟩

/-- Used blocks before and behind a place where memory changes. -/
theorem kept_of_within {c d e : ℕ} (hw : Within m m' c (d + heapHeaderSize))
    (hpre : ∀ u ∈ usedFrom heapHeaderSize p pre, u.addr + heapHeaderSize + u.size ≤ c) (hde : d ≤ e) :
    Kept m m' (usedFrom heapHeaderSize p pre ++ usedFrom heapHeaderSize e post) := by
  intro u hu
  rcases List.mem_append.mp hu with hu | hu
  · exact hw.agree (.inl (hpre u hu))
  · have := le_addr hu
    exact hw.agree (.inr (by omega))

/-- **A request is placed in a free block.** -/
theorem Intact.place (hi : h.Intact (pre ++ Block.free s :: post)) (hr : r + heapCanarySize ≤ size) (h8 : 8 ∣ size)
    (hs : size ≤ s) (ha : a = h.heapBegin + span heapHeaderSize pre) (h₁ : Heap)
    (he : h₁ = if heapHeaderSize + heapAlign < s - size then h.splitBlock a (s - size) size else h) :
    (h₁.takeBlock a r).1.Intact (pre ++ Block.place heapHeaderSize heapAlign s size r ++ post) ∧
      Kept h.mem (h₁.takeBlock a r).1.mem (usedFrom heapHeaderSize h.heapBegin (pre ++ Block.free s :: post)) ∧
      h.Steady (h₁.takeBlock a r).1 ∧ Within h.mem (h₁.takeBlock a r).1.mem h.heapBegin h.heapEnd := by
  have hH := heapHeaderSize_ge
  obtain ⟨lpre, lmid⟩ := laid_append.mp hi.laid
  rw [← ha] at lpre lmid
  obtain ⟨hb, lpost⟩ := lmid
  rw [first_cons] at lpre
  have hspan : h.heapBegin + (span heapHeaderSize pre + (heapHeaderSize + s + span heapHeaderSize post)) ≤ h.heapEnd := by
    have := hi.span_le
    rwa [span_append, span_cons] at this
  have hend := hi.end_lt
  have hlast : last heapHeaderSize 0 h.heapBegin pre < 256 ^ cfg.pointerSize := by
    have : last heapHeaderSize 0 h.heapBegin pre ≤ h.heapBegin + span heapHeaderSize pre := last_le
    omega
  have hpost : Block.first (a + (heapHeaderSize + s)) 0 post < 256 ^ cfg.pointerSize := by
    have : Block.first (a + (heapHeaderSize + s)) 0 post ≤ a + (heapHeaderSize + s) := first_zero_le
    omega
  have hs32 : s < 2 ^ 32 := hi.bounds.size_lt (Block.free s) (List.mem_append_right _ (List.mem_cons_self ..))
  have hbehind : relinked post ≤ heapHeaderSize := relinked_le
  have hrest : relinked post ≤ span heapHeaderSize post := relinked_le_span
  have hkept {m : ByteMemory} (hw : Within h.mem m a (a + (heapHeaderSize + s) + relinked post)) :
      Kept h.mem m (usedFrom heapHeaderSize h.heapBegin (pre ++ Block.free s :: post)) := by
    rw [usedFrom_append, usedFrom_free, ← ha]
    exact kept_of_within (hw.mono le_rfl (by omega)) (fun u hu => ha ▸ addr_add_le hu) le_rfl
  have hupd {h₂ : Heap} (hst : h.Steady h₂)
      (hl : Laid h₂.mem 0 h.heapBegin 0 (pre ++ Block.place heapHeaderSize heapAlign s size r ++ post))
      (hu : h₂.currentUsed = h.currentUsed + BitVec.ofNat 32 ((if heapHeaderSize + heapAlign < s - size then size else s) +
        heapHeaderSize)) :
      h₂.Intact (pre ++ Block.place heapHeaderSize heapAlign s size r ++ post) := by
    refine hi.update hst hl ?_ ?_ hi.coalesced.place ?_
    · rw [span_append, span_append, span_place hs, span_append, span_cons]
      dsimp only
      omega
    · unfold Block.place
      split <;> simp
    · rw [hu, hi.used, ← BitVec.ofNat_add]
      simp only [usedSpan_append, usedSpan_place, usedSpan_cons, Option.isSome_none, Bool.false_eq_true, if_false]
      congr 1
      omega
  have h8a : 8 ∣ a := hb.aligned
  have hfree : (Block.free s).size = s := rfl
  by_cases hsplit : heapHeaderSize + heapAlign < s - size
  · rw [if_pos hsplit] at he
    obtain ⟨⟨g, eg⟩, lrest, w₁⟩ := laid_splitBlock hb.header lpost (by omega) h8a h8 hlast (by omega)
    rw [← he] at eg lrest w₁
    obtain ⟨hb₂, w₂, hu₂⟩ := blockAt_takeBlock eg hr (by omega) h8a (by omega) hlast
    have hw := w₁.trans (w₂.mono le_rfl (by omega))
    have hst : h.Steady (h₁.takeBlock a r).1 := by
      rw [he]
      exact (steady_splitBlock _ _).trans (steady_takeBlock r)
    refine ⟨hupd hst ?_ ?_, hkept hw, hst, hw.mono (by omega) (by omega)⟩
    · rw [Block.place, if_pos hsplit, List.append_assoc]
      refine laid_append.mpr ⟨?_, ?_⟩
      · rw [← ha]
        exact lpre.congr (hw.agree (.inl ha.ge))
      · rw [← ha]
        exact ⟨hb₂, lrest.congr (w₂.agree (.inr le_rfl))⟩
    · rw [if_pos hsplit, hu₂, he, splitBlock_currentUsed]
  · rw [if_neg hsplit] at he
    subst he
    obtain ⟨hb₂, w₂, hu₂⟩ := blockAt_takeBlock (g := (h₁.hdr a).headerGuard) (s := s) (r := r)
      (by rw [show h₁.hdr a = _ from hb.header]) (by omega) hs32 h8a hpost hlast
    have hw : Within h₁.mem (h₁.takeBlock a r).1.mem a (a + (heapHeaderSize + s) + relinked post) :=
      w₂.mono le_rfl (by omega)
    refine ⟨hupd (steady_takeBlock r) ?_ ?_, hkept hw, steady_takeBlock r, hw.mono (by omega) (by omega)⟩
    · rw [Block.place, if_neg hsplit, List.append_assoc]
      refine laid_append.mpr ⟨?_, ?_⟩
      · rw [← ha]
        exact lpre.congr (hw.agree (.inl ha.ge))
      · rw [← ha]
        exact ⟨hb₂, lpost.congr (w₂.agree (.inr le_rfl))⟩
    · rw [if_neg hsplit, hu₂]

/-- `requested` -/
def requested (n : ℕ) : ℕ := if n = 0 then 1 else n

/-- The size that a request is rounded up to. -/
def rounded (r : ℕ) : ℕ := (r + heapCanarySize + heapAlign - 1) / heapAlign * heapAlign

/-- No block is looked for. -/
def Refused (h : Heap) (isr : Bool) (n : ℕ) (kernelAllocation : Bool) : Prop :=
  isr = true ∨ cfg.maxIpcCopyBytes < requested n ∧ kernelAllocation = false ∨
    2 ^ 32 - 1 - heapCanarySize - (heapAlign - 1) < requested n ∨ h.runtimeLocked = true ∧ kernelAllocation = false

/-- From `h` to `h'` neither memory nor the blocks change. -/
structure Idle (h h' : Heap) : Prop where
  steady : h.Steady h'
  mem : h'.mem = h.mem
  currentUsed : h'.currentUsed = h.currentUsed
  freeCount : h'.freeCount = h.freeCount

/-- From `h` to `h'` a free block has become the used block `u`, and maybe a free block. -/
structure Placed (h h' : Heap) (bs bs' : List Block) (u : Used) : Prop where
  intact : h'.Intact bs'
  steady : h.Steady h'
  kept : Kept h.mem h'.mem (usedFrom heapHeaderSize h.heapBegin bs)
  span_eq : span heapHeaderSize bs' = span heapHeaderSize bs
  mem : u ∈ usedFrom heapHeaderSize h.heapBegin bs'
  room : rounded u.request ≤ u.size
  erase : (usedFrom heapHeaderSize h.heapBegin bs').erase u = usedFrom heapHeaderSize h.heapBegin bs

/-- From `h` to `h'` the used block `u` has become free. -/
structure Released (h h' : Heap) (bs bs' : List Block) (u : Used) : Prop where
  intact : h'.Intact bs'
  steady : h.Steady h'
  kept : Kept h.mem h'.mem (usedFrom heapHeaderSize h.heapBegin bs')
  span_eq : span heapHeaderSize bs' = span heapHeaderSize bs
  erase : usedFrom heapHeaderSize h.heapBegin bs' = (usedFrom heapHeaderSize h.heapBegin bs).erase u
  fits : ∃ s, Block.free s ∈ bs' ∧ u.size ≤ s
  freeCount : h'.freeCount = h.freeCount + 1
  magic : (h'.hdr u.addr).magic = heapMagicFree

omit cfg in
theorem requested_pos (n : ℕ) : 0 < requested n := by
  unfold requested
  split <;> omega

omit cfg in
theorem le_rounded (r : ℕ) : r + heapCanarySize ≤ rounded r := by
  unfold rounded
  rw [show heapCanarySize = 4 from rfl, show heapAlign = 8 from rfl]
  omega

omit cfg in
theorem dvd_rounded (r : ℕ) : 8 ∣ rounded r := Nat.dvd_mul_left ..

theorem Intact.placed (hi : h.Intact (pre ++ Block.free s :: post)) (hs : rounded r ≤ s)
    (ha : a = h.heapBegin + span heapHeaderSize pre) (h₁ : Heap)
    (he : h₁ = if heapHeaderSize + heapAlign < s - rounded r then h.splitBlock a (s - rounded r) (rounded r) else h) :
    ∃ bs' s', h.Placed (h₁.takeBlock a r).1 (pre ++ Block.free s :: post) bs' { addr := a, size := s', request := r } := by
  have hH := heapHeaderSize_ge
  obtain ⟨hi', hk, hst, -⟩ := hi.place (le_rounded r) (dvd_rounded r) hs ha h₁ he
  have hspan : span heapHeaderSize (Block.place heapHeaderSize heapAlign s (rounded r) r) = heapHeaderSize + s :=
    span_place hs
  obtain ⟨s', rest, ep, er, hs'⟩ : ∃ s' rest, Block.place heapHeaderSize heapAlign s (rounded r) r =
      { size := s', request := some r } :: rest ∧ (∀ a, usedFrom heapHeaderSize a rest = []) ∧ rounded r ≤ s' :=
    place_eq hs
  rw [ep, span_cons] at hspan
  dsimp only at hspan
  rw [ep, List.append_assoc, List.cons_append] at hi'
  refine ⟨_, s', hi', hst, hk, ?_, ?_, ?_, ?_⟩
  · simp only [span_append, span_cons]
    omega
  · rw [ha]
    exact mem_usedFrom.mpr ⟨pre, _, rfl, rfl⟩
  · exact hs'
  · rw [ha, erase_usedFrom (by omega), usedFrom_append, er, List.nil_append, usedFrom_append, usedFrom_free]
    congr 2
    omega

/-- An allocation takes a free block that is large enough, or nothing changes: then it was refused, or too large for
every free block. -/
theorem Intact.allocate_cases (hi : h.Intact bs) (isr : Bool) (n : ℕ) (k : Bool) :
    (∃ h', h.allocate isr n k = some (h', 0) ∧ h.Idle h' ∧
      (h.Refused isr n k ∨ ∀ s, Block.free s ∈ bs → s < rounded (requested n))) ∨
    ∃ pre s post h₁, bs = pre ++ Block.free s :: post ∧ rounded (requested n) ≤ s ∧
      h₁ = (if heapHeaderSize + heapAlign < s - rounded (requested n) then
        h.splitBlock (h.heapBegin + span heapHeaderSize pre) (s - rounded (requested n)) (rounded (requested n)) else h) ∧
      h.allocate isr n k = some (h₁.takeBlock (h.heapBegin + span heapHeaderSize pre) (requested n)) ∧
      ¬ h.Refused isr n k := by
  have idle : h.Idle h := ⟨⟨rfl, rfl, rfl, rfl, rfl, rfl⟩, rfl, rfl, rfl⟩
  have failed : h.Idle { h with allocFailures := h.allocFailures + 1 } := ⟨⟨rfl, rfl, rfl, rfl, rfl, rfl⟩, rfl, rfl, rfl⟩
  unfold Heap.allocate
  by_cases hisr : isr = true
  · exact .inl ⟨h, if_pos hisr, idle, .inl (.inl hisr)⟩
  rw [if_neg hisr, if_neg (by rw [hi.initialized]; decide)]
  dsimp only
  rw [show (if n = 0 then 1 else n) = requested n from rfl,
    show (requested n + heapCanarySize + heapAlign - 1) / heapAlign * heapAlign = rounded (requested n) from rfl]
  by_cases hmax : cfg.maxIpcCopyBytes < requested n ∧ (!k) = true
  · exact .inl ⟨h, if_pos hmax, idle, .inl (.inr (.inl ⟨hmax.1, by simpa using hmax.2⟩))⟩
  rw [if_neg hmax]
  by_cases hlarge : 2 ^ 32 - 1 - heapCanarySize - (heapAlign - 1) < requested n
  · exact .inl ⟨h, if_pos hlarge, idle, .inl (.inr (.inr (.inl hlarge)))⟩
  rw [if_neg hlarge]
  by_cases hlock : h.runtimeLocked = true ∧ (!k) = true
  · exact .inl ⟨_, if_pos hlock, failed, .inl (.inr (.inr (.inr ⟨hlock.1, by simpa using hlock.2⟩)))⟩
  rw [if_neg hlock]
  obtain ⟨best, remain, e, ⟨rfl, rfl, hno⟩ | ⟨pre, s, post, rfl, hs, rfl, rfl⟩⟩ :=
    bestFit_laid (n := rounded (requested n)) (p := 0) (r := 0xFFFFFFFF) hi.laid hi.bounds hi.length_lt
  all_goals rw [← hi.first_eq] at e
  · rw [e]
    refine .inl ⟨_, if_pos rfl, failed, .inr fun s hs => ?_⟩
    have hs32 : s < 2 ^ 32 := hi.bounds.size_lt _ hs
    have hle := le_rounded (requested n)
    have := hno s hs
    rw [show heapCanarySize = 4 from rfl] at hle
    omega
  · rw [e]
    dsimp only
    have hpos := hi.begin_pos
    rw [if_neg (by omega)]
    refine .inr ⟨pre, s, post, _, rfl, hs, rfl, rfl, ?_⟩
    rintro (hc | hc | hc | hc)
    · exact hisr hc
    · exact hmax ⟨hc.1, by rw [hc.2]; rfl⟩
    · exact hlarge hc
    · exact hlock ⟨hc.1, by rw [hc.2]; rfl⟩

/-- **An allocation** places the request in a free block, or nothing changes: then it was refused, or too large for
every free block. -/
theorem Intact.allocate (hi : h.Intact bs) (isr : Bool) (n : ℕ) (k : Bool) :
    (∃ h', h.allocate isr n k = some (h', 0) ∧ h.Idle h' ∧
      (h.Refused isr n k ∨ ∀ s, Block.free s ∈ bs → s < rounded (requested n))) ∨
    ∃ h' bs' u, h.allocate isr n k = some (h', u.addr + heapHeaderSize) ∧ h.Placed h' bs bs' u ∧
      u.request = requested n ∧ ¬ h.Refused isr n k := by
  rcases hi.allocate_cases isr n k with hid | ⟨pre, s, post, h₁, rfl, hs, he, e, hno⟩
  · exact .inl hid
  · obtain ⟨bs', s', hp⟩ := hi.placed hs rfl h₁ he
    exact .inr ⟨_, bs', _, e, hp, rfl, hno⟩

/-- An allocation writes to the heap only. -/
theorem Intact.allocate_within {q : ℕ} (hi : h.Intact bs) {isr : Bool} {n : ℕ} {k : Bool}
    (e : h.allocate isr n k = some (h', q)) : Within h.mem h'.mem h.heapBegin h.heapEnd := by
  rcases hi.allocate_cases isr n k with ⟨h₀, e₀, hid, -⟩ | ⟨pre, s, post, h₁, rfl, hs, he, e₀, -⟩
  · cases e.symm.trans e₀
    rw [hid.mem]
    exact Within.refl _ _ _
  · obtain ⟨-, -, -, hw⟩ := hi.place (le_rounded _) (dvd_rounded _) hs rfl h₁ he
    cases e.symm.trans e₀
    exact hw

/-! ### Freeing -/

theorem coalesceNext_eq : h.coalesceNext a = { h with mem := (h.coalesceNext a).mem } := by
  unfold coalesceNext
  dsimp only
  split
  · split <;> rfl
  · rfl

theorem coalescePrev_eq : h.coalescePrev a = { h with mem := (h.coalescePrev a).mem } := by
  unfold coalescePrev
  dsimp only
  split
  · split <;> rfl
  · rfl

theorem steady_coalesceNext : h.Steady (h.coalesceNext a) := by
  rw [coalesceNext_eq]
  exact ⟨rfl, rfl, rfl, rfl, rfl, rfl⟩

theorem steady_coalescePrev : h.Steady (h.coalescePrev a) := by
  rw [coalescePrev_eq]
  exact ⟨rfl, rfl, rfl, rfl, rfl, rfl⟩

theorem coalesceNext_freeCount : (h.coalesceNext a).freeCount = h.freeCount := by rw [coalesceNext_eq]

theorem coalescePrev_freeCount : (h.coalescePrev a).freeCount = h.freeCount := by rw [coalescePrev_eq]

theorem coalesceNext_currentUsed : (h.coalesceNext a).currentUsed = h.currentUsed := by rw [coalesceNext_eq]

theorem coalescePrev_currentUsed : (h.coalescePrev a).currentUsed = h.currentUsed := by rw [coalescePrev_eq]

/-- Before a block is merged with its neighbours, its header says that it is free; the guard is the old one. -/
theorem Intact.free_eq (hi : h.Intact (pre ++ { size := s, request := some r } :: post))
    (ha : a = h.heapBegin + span heapHeaderSize pre) :
    ∃ h₁ : Heap, h.free false (a + heapHeaderSize) = (h₁.coalesceNext a).coalescePrev a ∧
      h₁ = { h with mem := h₁.mem, currentUsed := h.currentUsed - BitVec.ofNat 32 (s + heapHeaderSize),
                    freeCount := h.freeCount + 1 } ∧
      Within h.mem h₁.mem a (a + heapHeaderSize) ∧
      ∃ g, h₁.hdr a = { HeapHdr.ofBlock (last heapHeaderSize 0 h.heapBegin pre) a
        (Block.first (a + (heapHeaderSize + s)) 0 post) (Block.free s) with headerGuard := g } := by
  have hH := heapHeaderSize_ge
  obtain ⟨-, hb, -⟩ := laid_append.mp hi.laid
  rw [← ha] at hb
  dsimp only at hb
  obtain ⟨next, hnext⟩ : ∃ x, x = Block.first (a + (heapHeaderSize + s)) 0 post := ⟨_, rfl⟩
  obtain ⟨before, hbefore⟩ : ∃ x, x = last heapHeaderSize 0 h.heapBegin pre := ⟨_, rfl⟩
  rw [← hnext, ← hbefore] at hb ⊢
  have hspan : a + (heapHeaderSize + s) + span heapHeaderSize post ≤ h.heapEnd := by
    have := hi.span_le
    rw [span_append, span_cons] at this
    dsimp only at this
    omega
  have hend := hi.end_lt
  have hlast : before < 256 ^ cfg.pointerSize := by
    have : last heapHeaderSize 0 h.heapBegin pre ≤ h.heapBegin + span heapHeaderSize pre := last_le
    omega
  have hnextend : next < 256 ^ cfg.pointerSize := by
    have : Block.first (a + (heapHeaderSize + s)) 0 post ≤ a + (heapHeaderSize + s) := first_zero_le
    omega
  have hs32 : s < 2 ^ 32 :=
    hi.bounds.size_lt { size := s, request := some r } (List.mem_append_right _ (List.mem_cons_self ..))
  have hfits : r + 4 ≤ s := hb.fits r rfl
  have h8 := hb.aligned
  have hH8 := heapHeaderSize_dvd
  have e : h.hdr a = .ofBlock before a next { size := s, request := some r } := hb.header
  have hvalid : h.headerValid a = true := headerValid_of_blockAt hb (by omega) (by dsimp only; omega) hs32
  have hcanary : h.canaryValid a = true := canaryValid_of_blockAt hb rfl hs32
  let h₁ : Heap := { h with currentUsed := h.currentUsed - BitVec.ofNat 32 ((h.hdr a).size.toNat + heapHeaderSize) }
  let h₂ := h₁.setHdr a fun b => { b with magic := heapMagicFree, requestedSize := 0 }
  let h₃ : Heap := { h₂ with freeCount := h₂.freeCount + 1 }
  have e₃ : h₃.hdr a = { HeapHdr.ofBlock before a next (Block.free s) with headerGuard := (h.hdr a).headerGuard } := by
    have e₂ : h₂.hdr a = { h.hdr a with magic := heapMagicFree, requestedSize := 0 } :=
      hdr_setHdr (by show (h.hdr a).next < _; rw [e]; exact hnextend) (by show (h.hdr a).prev < _; rw [e]; exact hlast)
    show h₂.hdr a = _
    rw [e₂, e]
    rfl
  have w₂ : Within h₁.mem h₂.mem a (a + heapHeaderSize) := within_setHdr
  have hu : h₁.currentUsed = h.currentUsed - BitVec.ofNat 32 (s + heapHeaderSize) := by
    show h.currentUsed - BitVec.ofNat 32 ((h.hdr a).size.toNat + heapHeaderSize) = _
    rw [e, HeapHdr.ofBlock_size, ofNat_toNat hs32]
  refine ⟨h₃, ?_, ?_, w₂, (h.hdr a).headerGuard, e₃⟩
  · unfold Heap.free
    rw [if_neg (by omega), if_neg (by decide), if_neg, Nat.add_sub_cancel]
    · dsimp only
      rw [if_neg, if_neg]
      · show ¬ ((h₃.hdr a).next ≠ 0 ∧ (h₃.hdr a).next ≠ a + heapHeaderSize + (h₃.hdr a).size.toNat)
        rw [e₃]
        rintro ⟨hne, hgap⟩
        apply hgap
        show next = a + heapHeaderSize + (BitVec.ofNat 32 s).toNat
        rw [ofNat_toNat hs32, hnext]
        cases post with
        | nil => exact absurd hnext hne
        | cons c post => exact (Nat.add_assoc ..).symm
      · rw [hvalid, hcanary, e]
        rintro (hc | hc | hc | hc | hc)
        · omega
        · omega
        · cases hc
        · exact hc (HeapHdr.ofBlock_magic_used.mpr rfl)
        · cases hc
    · rw [show heapAlign = 8 from rfl]
      omega
  · rw [← hu]
    rfl

/-- **A used block is freed.** -/
theorem Intact.merge (hi : h.Intact (pre ++ { size := s, request := some r } :: post))
    (ha : a = h.heapBegin + span heapHeaderSize pre) :
    h.Released (h.free false (a + heapHeaderSize)) (pre ++ { size := s, request := some r } :: post)
        (Block.merge heapHeaderSize pre s post) { addr := a, size := s, request := r } ∧
      Within h.mem (h.free false (a + heapHeaderSize)).mem h.heapBegin h.heapEnd := by
  have hH := heapHeaderSize_ge
  obtain ⟨h₁, efree, e₁, w₁, g, e⟩ := hi.free_eq ha
  obtain ⟨lpre, hb, lpost⟩ := laid_append.mp hi.laid
  rw [← ha] at lpre hb lpost
  rw [first_cons] at lpre
  dsimp only at hb lpost
  have hspan : a + (heapHeaderSize + s) + span heapHeaderSize post ≤ h.heapEnd := by
    have := hi.span_le
    rw [span_append, span_cons] at this
    dsimp only at this
    omega
  have hend := hi.end_lt
  have hlast : last heapHeaderSize 0 h.heapBegin pre < 256 ^ cfg.pointerSize := by
    have : last heapHeaderSize 0 h.heapBegin pre ≤ h.heapBegin + span heapHeaderSize pre := last_le
    omega
  obtain ⟨s', post', em, e₂, l₂, w₂⟩ := laid_coalesceNext e (lpost.congr (w₁.agree (.inr (by omega)))) hlast (by omega)
  have hspan' : heapHeaderSize + s' + span heapHeaderSize post' = heapHeaderSize + s + span heapHeaderSize post := by
    have : span heapHeaderSize (mergeNext heapHeaderSize s post) = _ := span_mergeNext
    rwa [em, span_cons] at this
  have lpre₂ : Laid (h₁.coalesceNext a).mem 0 h.heapBegin a pre :=
    (lpre.congr (w₁.agree (.inl ha.ge))).congr (w₂.agree (.inl ha.ge))
  obtain ⟨l₃, hmagic, c, hbegin, w₃, hc⟩ := laid_coalescePrev lpre₂ ha.symm hi.begin_pos e₂ l₂ hb.aligned (by omega)
  rw [← em] at l₃
  have hst₁ : h.Steady h₁ := by
    rw [e₁]
    exact ⟨rfl, rfl, rfl, rfl, rfl, rfl⟩
  have hst := (hst₁.trans (steady_coalesceNext (a := a))).trans (steady_coalescePrev (a := a))
  have hspan₃ : span heapHeaderSize (Block.merge heapHeaderSize pre s post) =
      span heapHeaderSize (pre ++ { size := s, request := some r } :: post) := span_merge
  have hne : Block.merge heapHeaderSize pre s post ≠ [] := by
    intro enil
    rw [enil, span_nil, span_append, span_cons] at hspan₃
    omega
  have hbehind : relinked post' ≤ heapHeaderSize := relinked_le
  have hrest : relinked post' ≤ span heapHeaderSize post' := relinked_le_span
  have hw : Within h.mem ((h₁.coalesceNext a).coalescePrev a).mem (min c a) (a + (heapHeaderSize + s') + relinked post') :=
    ((w₁.mono (min_le_right c a) (by omega)).trans (w₂.mono (min_le_right c a) le_rfl)).trans
      (w₃.mono (min_le_left c a) le_rfl)
  rw [efree]
  refine ⟨⟨hi.update hst l₃ hspan₃ hne hi.coalesced.merge ?_, hst, ?_, hspan₃, ?_, mem_merge, ?_, hmagic⟩,
    hw.mono (le_min hbegin (by omega)) (by omega)⟩
  · rw [coalescePrev_currentUsed, coalesceNext_currentUsed, e₁]
    dsimp only
    rw [hi.used, ← usedSpan_merge, BitVec.ofNat_add, Nat.add_comm s, BitVec.add_sub_cancel]
  · have hpost : usedFrom heapHeaderSize (a + (heapHeaderSize + s)) post =
        usedFrom heapHeaderSize (a + (heapHeaderSize + s')) post' := by
      rw [← usedFrom_mergeNext, em, usedFrom_free]
    rw [usedFrom_merge, ← ha, hpost]
    exact kept_of_within (hw.mono le_rfl (by omega)) (fun u hu => le_min (hc u hu) (ha ▸ addr_add_le hu)) le_rfl
  · rw [usedFrom_merge, ha, erase_usedFrom (by omega)]
  · rw [coalescePrev_freeCount, coalesceNext_freeCount, e₁]

/-- **`aixos_free`** of the pointer to a used block releases the block. -/
theorem Intact.free {u : Used} (hi : h.Intact bs) (hu : u ∈ usedFrom heapHeaderSize h.heapBegin bs) :
    ∃ bs', h.Released (h.free false (u.addr + heapHeaderSize)) bs bs' u := by
  obtain ⟨pre, post, rfl, ha⟩ := mem_usedFrom.mp hu
  exact ⟨_, (hi.merge ha).1⟩

/-- `aixos_free` of such a pointer writes to the heap only. -/
theorem Intact.free_within {u : Used} (hi : h.Intact bs) (hu : u ∈ usedFrom heapHeaderSize h.heapBegin bs) :
    Within h.mem (h.free false (u.addr + heapHeaderSize)).mem h.heapBegin h.heapEnd := by
  obtain ⟨pre, post, rfl, ha⟩ := mem_usedFrom.mp hu
  exact (hi.merge ha).2

/-- **Freeing a pointer once more** changes nothing but the count of corruptions. -/
theorem free_again (isr : Bool) (hm : (h.hdr a).magic = heapMagicFree) :
    h.free isr (a + heapHeaderSize) = h ∨
      h.free isr (a + heapHeaderSize) = { h with corruptionCount := h.corruptionCount + 1 } := by
  unfold Heap.free
  by_cases h₁ : a + heapHeaderSize = 0
  · exact .inl (if_pos h₁)
  rw [if_neg h₁]
  by_cases h₂ : isr = true
  · exact .inl (if_pos h₂)
  rw [if_neg h₂]
  by_cases h₃ : a + heapHeaderSize < h.heapBegin + heapHeaderSize ∨ h.heapEnd ≤ a + heapHeaderSize ∨
      (a + heapHeaderSize) % heapAlign ≠ 0
  · exact .inl (if_pos h₃)
  rw [if_neg h₃, Nat.add_sub_cancel]
  refine .inr (if_pos (.inr (.inr (.inr (.inl ?_)))))
  rw [hm]
  decide

/-! ### Writing -/

/-- **What has been requested may be written to.** -/
theorem Intact.write {u : Used} (hi : h.Intact bs) (hu : u ∈ usedFrom heapHeaderSize h.heapBegin bs)
    (hw : Within h.mem m (u.addr + heapHeaderSize) (u.addr + heapHeaderSize + u.request)) :
    ({ h with mem := m } : Heap).Intact bs ∧ ∀ v ∈ usedFrom heapHeaderSize h.heapBegin bs, v ≠ u →
      Agree h.mem m (v.addr + heapHeaderSize) (v.addr + heapHeaderSize + v.size) := by
  obtain ⟨pre, post, rfl, ha⟩ := mem_usedFrom.mp hu
  obtain ⟨lpre, hb, lpost⟩ := laid_append.mp hi.laid
  rw [← ha] at lpre hb lpost
  have hfits : u.request + heapCanarySize ≤ u.size := hb.fits u.request rfl
  refine ⟨⟨laid_append.mpr ⟨?_, ⟨?_, ?_, ?_, ?_⟩, ?_⟩, hi.first, hi.begin_pos, hi.end_lt, hi.span_le, hi.ne_nil,
    hi.span_lt, hi.coalesced, hi.used, hi.initialized, hi.corruption⟩, fun v hv hne => hw.agree ?_⟩
  · rw [← ha]
    exact lpre.congr (hw.agree (.inl (by omega)))
  · rw [← ha, (hw.agree (.inl le_rfl)).load le_rfl le_rfl]
    exact hb.header
  · exact hb.fits
  · rintro _ ⟨⟩
    have e : Agree h.mem m (u.addr + heapHeaderSize + u.request) (u.addr + heapHeaderSize + u.request + heapCanarySize) :=
      hw.agree (.inr le_rfl)
    rw [← ha, e.load le_rfl le_rfl]
    exact hb.canary u.request rfl
  · rw [← ha]
    exact hb.aligned
  · rw [← ha]
    exact lpost.congr (hw.agree (.inr (by dsimp only; omega)))
  · rcases usedFrom_apart hv hu hne with hlt | hlt
    · exact .inl (by omega)
    · exact .inr (by omega)

end Heap

end Aixos
