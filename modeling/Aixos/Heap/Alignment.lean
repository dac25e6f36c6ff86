import Aixos.Heap.Contents

/-!
# Regions whose start is not aligned

`aixos_heap_init` rounds the size of the region that it is given, and not its start, where the first header goes. Pointers
that are returned are as far from a multiple of eight as the start is, and `aixos_free` refuses them.

* `HeapClients.Works` — pointers are aligned, and what is freed can be allocated again.
* `HeapClients.works_iff` — so it is on the regions whose start is aligned, and on those that have no room at all.
-/

namespace Aixos

open ByteMemory Block Transition

variable [cfg : HeapConfig]

namespace Heap

variable {h h' : Heap} {m : ByteMemory} {start size n a : ℕ} {isr k : Bool}

/-- What is left for the only block of a region is a multiple of eight. -/
theorem dvd_initFree (hg : Given start size) : 8 ∣ initFree start size := by
  have h8 := heapHeaderSize_dvd
  have hle := hg.2
  unfold initFree initSize
  rw [if_pos hg]
  rw [show heapAlign = 8 from rfl] at hle ⊢
  omega

/-- The heap has a single free block. -/
structure Single (h : Heap) (a s : ℕ) : Prop where
  header : h.hdr a = .ofBlock 0 a 0 (Block.free s)
  first : h.heapFirst = a
  initialized : h.heapInitialized = true
  pos : 0 < a
  begin_eq : h.heapBegin = a
  end_ge : a + heapHeaderSize + s ≤ h.heapEnd
  size_lt : s < 2 ^ 32

theorem single_init (m : ByteMemory) (hg : Given start size) : (init m start size).Single start (initFree start size) := by
  have hbegin : initBegin start size = start := if_pos hg
  have hle : heapHeaderSize ≤ initSize start size := le_initSize
  have hfree : initFree start size ≤ initSize start size - heapHeaderSize := Nat.mod_le ..
  have hh : (init m start size).hdr (initBegin start size) = _ := hdr_init m
  rw [hbegin] at hh
  refine ⟨hh, ?_, ?_, Nat.pos_of_ne_zero hg.1, ?_, ?_, Nat.mod_lt _ (by decide)⟩
  · rw [init_eq, hbegin]
  · rw [init_eq]
  · rw [init_eq, hbegin]
  · rw [init_eq, hbegin]
    dsimp only
    omega

/-- The search finds the block, if it is large enough. -/
theorem Single.bestFit {s : ℕ} (hs : h.Single a s) (hn : 0 < n) : h.bestFit n h.rounds a 0 0xFFFFFFFF =
    if n ≤ s then some (.found a (s - n)) else some (.found 0 0xFFFFFFFF) := by
  have hH := heapHeaderSize_ge
  have hend := hs.end_ge
  have hb := hs.begin_eq
  have hlt := hs.size_lt
  have hpos := hs.pos
  obtain ⟨f, hf⟩ : ∃ f, h.rounds = f + 1 + 1 := ⟨h.heapEnd - h.heapBegin - 1, by unfold rounds; omega⟩
  have hvalid : h.headerValid a = true := headerValid_of_hdr hs.header (by rintro r ⟨⟩) (by omega)
    (by show a + (heapHeaderSize + s) ≤ _; omega) hs.size_lt
  have hfree : (h.hdr a).magic = heapMagicFree := by
    rw [hs.header]
    exact HeapHdr.ofBlock_magic_free.mpr rfl
  have hsize : (h.hdr a).size.toNat = s := by
    rw [hs.header, HeapHdr.ofBlock_size]
    exact ofNat_toNat hs.size_lt
  have hnext : (h.hdr a).next = 0 := by rw [hs.header, HeapHdr.ofBlock_next]
  have last : ∀ best remain, h.bestFit n (f + 1) 0 best remain = some (.found best remain) := fun _ _ => by
    rw [Heap.bestFit, if_pos rfl]
  rw [hf, Heap.bestFit, if_neg (by omega), hvalid, if_neg (by decide)]
  dsimp only
  rw [hfree, if_neg (by simp), hsize, hnext, last, last]
  by_cases hle : n ≤ s
  · rw [if_pos ⟨hle, by omega⟩, if_pos hle]
  · rw [if_neg (fun h => hle h.1), if_neg hle]

/-- With no room nothing is allocated. -/
theorem Single.allocate_none (hs : h.Single a 0) {r : Heap × ℕ} (e : h.allocate isr n k = some r) :
    r.2 = 0 ∧ h.Idle r.1 := by
  have idle : h.Idle h := ⟨⟨rfl, rfl, rfl, rfl, rfl, rfl⟩, rfl, rfl, rfl⟩
  have failed : h.Idle { h with allocFailures := h.allocFailures + 1 } := ⟨⟨rfl, rfl, rfl, rfl, rfl, rfl⟩, rfl, rfl, rfl⟩
  have hpos : 0 < rounded (requested n) := by
    have := le_rounded (requested n)
    have := requested_pos n
    omega
  have hnot : ¬ rounded (requested n) ≤ 0 := by omega
  have hsearch : h.bestFit (rounded (requested n)) h.rounds h.heapFirst 0 0xFFFFFFFF =
      some (.found 0 0xFFFFFFFF) := by
    rw [hs.first, hs.bestFit hpos, if_neg hnot]
  unfold Heap.allocate at e
  dsimp only at e
  rw [show (if n = 0 then 1 else n) = requested n from rfl,
    show (requested n + heapCanarySize + heapAlign - 1) / heapAlign * heapAlign = rounded (requested n) from rfl] at e
  by_cases hisr : isr = true
  · rw [if_pos hisr] at e
    cases e
    exact ⟨rfl, idle⟩
  rw [if_neg hisr, if_neg (by rw [hs.initialized]; decide)] at e
  by_cases hmax : cfg.maxIpcCopyBytes < requested n ∧ (!k) = true
  · rw [if_pos hmax] at e
    cases e
    exact ⟨rfl, idle⟩
  rw [if_neg hmax] at e
  by_cases hlarge : 2 ^ 32 - 1 - heapCanarySize - (heapAlign - 1) < requested n
  · rw [if_pos hlarge] at e
    cases e
    exact ⟨rfl, idle⟩
  rw [if_neg hlarge] at e
  by_cases hlock : h.runtimeLocked = true ∧ (!k) = true
  · rw [if_pos hlock] at e
    cases e
    exact ⟨rfl, failed⟩
  rw [if_neg hlock, hsearch] at e
  dsimp only at e
  rw [if_pos rfl] at e
  cases e
  exact ⟨rfl, failed⟩

/-- With room, the first pointer is behind the header. -/
theorem Single.allocate_one {s : ℕ} (hs : h.Single a s) (h8 : 8 ≤ s) :
    ∃ h', h.kernelMalloc false 1 = some (h', a + heapHeaderSize) := by
  have hpos := hs.pos
  unfold kernelMalloc Heap.allocate
  rw [if_neg Bool.false_ne_true, hs.initialized, if_neg (by decide)]
  dsimp only
  rw [if_neg (by simp), if_neg (by decide), if_neg (by simp), hs.first]
  rw [show ((if 1 = 0 then 1 else 1) + heapCanarySize + heapAlign - 1) / heapAlign * heapAlign = 8 from rfl,
    hs.bestFit (by decide), if_pos h8]
  dsimp only
  rw [if_neg (by omega)]
  exact ⟨_, rfl⟩

end Heap

namespace HeapClients

open Heap HeapCall

variable {m : ByteMemory} {c c' : HeapClients} {start size q n : ℕ} {bs : List Block} {x : HeapCall}

/-- In every run all pointers that are returned are aligned, and freeing a live pointer releases its block: the block is
free, and as many bytes can be allocated again. -/
def Works (m : ByteMemory) (start size : ℕ) : Prop :=
  ∀ xs c, run HeapClients.step (init m start size) xs = some c →
    (∀ x c' q, c.call x = some (c', q) → 8 ∣ q) ∧
    ∀ e ∈ c.live, ∃ c', c.step (.free false e.1) = some c' ∧ c'.heap.freeCount = c.heap.freeCount + 1 ∧
      (c'.heap.hdr (e.1 - heapHeaderSize)).magic = heapMagicFree ∧
      ∃ h' q, c'.heap.kernelMalloc false e.2 = some (h', q) ∧ q ≠ 0

/-- **On an aligned region the heap works.** -/
theorem works_of_dvd (h8 : 8 ∣ start) (hend : start + size < 256 ^ cfg.pointerSize) : Works m start size := by
  intro xs c h
  have hH := heapHeaderSize_ge
  obtain ⟨h8', hend'⟩ := init_region h8 hend
  obtain ⟨bs, o⟩ := owns_run m h8' hend' h
  refine ⟨fun x c' q hcall => ?_, fun e he => ?_⟩
  · by_cases hq : q = 0
    · exact hq ▸ Nat.dvd_zero 8
    obtain ⟨n, -, hm, -⟩ := o.result hcall hq
    obtain ⟨d, q', bs', e, o', -⟩ := o.call (Owns.allowed hcall)
    cases hcall.symm.trans e
    exact (o'.inside hm).1
  · obtain ⟨bs', u, rfl, hu, hr, o', -⟩ := o.frees he
    have hstep : c.step (.free false (allocation u).1) =
        some ⟨c.heap.free false (allocation u).1, lose c.live (allocation u).1⟩ := by
      rw [HeapClients.step, call_eq (x := .free false (allocation u).1) (.inr ⟨_, he, rfl⟩) rfl]
      rfl
    refine ⟨_, hstep, hr.freeCount, ?_, ?_⟩
    · rw [show (allocation u).1 - heapHeaderSize = u.addr from Nat.add_sub_cancel ..]
      exact hr.magic
    · obtain ⟨hpos, hle, hroom⟩ := o.room u hu
      have hreq : requested u.request = u.request := if_neg (by omega)
      rcases hr.intact.allocate false u.request true with ⟨h', -, -, hno⟩ | ⟨h', bs'', v, e, -⟩
      · rcases hno with (hc | hc | hc | hc) | hc
        · cases hc
        · cases hc.2
        · rw [hreq] at hc
          omega
        · cases hc.2
        · obtain ⟨s, hs, hle'⟩ := hr.fits
          have := hc s hs
          rw [hreq] at this
          omega
      · exact ⟨h', _, e, by omega⟩

/-- Nothing is live, and the heap has no room. -/
def Full (a : ℕ) (c : HeapClients) : Prop := c.live = [] ∧ c.heap.Single a 0

/-- A heap without room stays so, and returns `NULL`. -/
theorem Full.call {a : ℕ} (hf : Full a c) (h : c.call x = some (c', q)) : q = 0 ∧ Full a c' := by
  obtain ⟨hl, hs⟩ := hf
  have hx := Owns.allowed h
  rw [HeapClients.call, if_pos hx] at h
  obtain ⟨⟨h', q'⟩, happly, hr⟩ := Option.map_eq_some_iff.mp h
  cases hr
  have still : c.heap.Idle h' → c.heap.Single a 0 → h'.Single a 0 := fun hid hs =>
    ⟨by rw [hdr, hid.mem]; exact hs.header, hid.steady.first_eq.trans hs.first,
      hid.steady.initialized.trans hs.initialized, hs.pos, hid.steady.begin_eq.trans hs.begin_eq,
      by rw [hid.steady.end_eq]; exact hs.end_ge, hs.size_lt⟩
  have allocated : ∀ {isr n k}, c.heap.allocate isr n k = some (h', q') → q' = 0 ∧ h'.Single a 0 := fun e =>
    ⟨(hs.allocate_none e).1, still (hs.allocate_none e).2 hs⟩
  have hnull : ∀ {p}, (p = 0 ∨ ∃ e ∈ c.live, e.1 = p) → p = 0 := by
    rintro p (hp | ⟨e, he, -⟩)
    · exact hp
    · rw [hl] at he
      cases he
  cases x with
  | malloc isr n =>
    obtain ⟨rfl, h₁⟩ := allocated happly
    exact ⟨rfl, hl, h₁⟩
  | kernelMalloc isr n =>
    obtain ⟨rfl, h₁⟩ := allocated happly
    exact ⟨rfl, hl, h₁⟩
  | calloc isr count n =>
    rw [apply, Heap.calloc] at happly
    split at happly
    · cases happly
      exact ⟨rfl, hl, hs⟩
    · obtain ⟨r, e, hr⟩ := Option.map_eq_some_iff.mp happly
      obtain ⟨hz, hid⟩ := hs.allocate_none e
      rw [if_pos hz] at hr
      cases hr
      have hz : q' = 0 := hz
      subst hz
      exact ⟨rfl, hl, still hid hs⟩
  | realloc isr p n =>
    obtain rfl := hnull hx
    rw [apply, Heap.realloc, if_pos rfl] at happly
    obtain ⟨rfl, h₁⟩ := allocated happly
    refine ⟨rfl, ?_, h₁⟩
    rw [owned, if_neg (fun h => h.1 rfl), if_pos rfl]
    exact hl
  | free isr p =>
    obtain rfl := hnull hx
    cases happly
    have hfree : c.heap.free isr 0 = c.heap := if_pos rfl
    refine ⟨rfl, ?_, hfree ▸ hs⟩
    rw [owned, hl]
    split <;> rfl
  | check =>
    obtain ⟨r, e, hr⟩ := Option.map_eq_some_iff.mp happly
    cases hr
    refine ⟨rfl, hl, ?_⟩
    have hinit : ¬ (!c.heap.heapInitialized) = true := by
      rw [hs.initialized]
      decide
    rw [Heap.check, if_neg hinit] at e
    obtain ⟨ok, -, e⟩ := Option.map_eq_some_iff.mp e
    cases ok with
    | true =>
      cases e
      exact hs
    | false =>
      cases e
      exact ⟨hs.header, hs.first, hs.initialized, hs.pos, hs.begin_eq, hs.end_ge, hs.size_lt⟩
  | lockdown isr =>
    cases happly
    refine ⟨rfl, hl, ?_⟩
    cases isr with
    | true => exact hs
    | false => exact ⟨hs.header, hs.first, hs.initialized, hs.pos, hs.begin_eq, hs.end_ge, hs.size_lt⟩
  | write p offset cs =>
    obtain ⟨e, he, -⟩ := hx
    rw [hl] at he
    cases he

/-- **Without room the heap works**, on nothing. -/
theorem works_of_full (hg : Given start size) (hz : initFree start size = 0) : Works m start size := by
  intro xs c h
  have h₀ : Full start (init m start size) := ⟨rfl, hz ▸ single_init m hg⟩
  have hfull : Full start c := (path_iff_run.mpr h).invariant (I := Full start) (by
    intro c x c' hf _ hstep
    obtain ⟨r, hcall, rfl⟩ := Option.map_eq_some_iff.mp hstep
    exact (Full.call hf hcall).2) h₀
  refine ⟨fun x c' q hcall => ?_, fun e he => ?_⟩
  · rw [(Full.call hfull hcall).1]
    exact Nat.dvd_zero 8
  · rw [hfull.1] at he
    cases he

/-- **The regions on which the heap works**: of those that `aixos_heap_init` accepts, the ones that are aligned, and those
that have no room, where nothing is ever allocated. -/
theorem works_iff (hg : Given start size) (hend : start + size < 256 ^ cfg.pointerSize) :
    Works m start size ↔ 8 ∣ start ∨ initFree start size = 0 := by
  constructor
  · intro hw
    by_contra hno
    obtain ⟨h8, hz⟩ := not_or.mp hno
    have hs := single_init m hg
    have hdvd : 8 ∣ initFree start size := dvd_initFree hg
    have hroom : 8 ≤ initFree start size := Nat.le_of_dvd (Nat.pos_of_ne_zero hz) hdvd
    obtain ⟨h', e⟩ := hs.allocate_one hroom
    have hcall := call_eq (c := init m start size) (x := .kernelMalloc false 1) trivial e
    have := (hw [] _ rfl).1 _ _ _ hcall
    exact h8 ((Nat.dvd_add_left heapHeaderSize_dvd).mp this)
  · rintro (h8 | hz)
    · exact works_of_dvd h8 hend
    · exact works_of_full hg hz

end HeapClients

end Aixos

namespace Aixos.HeapClients

open Heap Transition

attribute [local instance] HeapConfig.default

theorem works_iff_aligned : Works (fun _ => 0) 0x20008000 4096 :=
  (works_iff (by decide) (by decide)).mpr (.inl (by decide))

/-- The first pointer on a region that starts at an odd word is not aligned, and `aixos_free` does nothing with it. -/
theorem odd_word_fails : Given 0x20008004 4096 ∧ ¬ Works (fun _ => 0) 0x20008004 4096 ∧
    ∃ c, run HeapClients.step (init (fun _ => 0) 0x20008004 4096) [.malloc false 16] = some c ∧
      c.live = [(0x2000801C, 16)] ∧ ¬ 8 ∣ 0x2000801C ∧ (c.heap.free false 0x2000801C).blocks = c.heap.blocks ∧
      (c.heap.free false 0x2000801C).freeCount = c.heap.freeCount := by
  obtain ⟨c, hr, hp⟩ := exists_run HeapClients.step (init (fun _ => 0) 0x20008004 4096) [.malloc false 16] (fun c =>
    decide (c.live = [(0x2000801C, 16)] ∧ (c.heap.free false 0x2000801C).blocks = c.heap.blocks ∧
      c.heap.freeCount = 0 ∧ (c.heap.free false 0x2000801C).freeCount = 0)) (by decide +kernel)
  obtain ⟨hl, hb, h₁, h₂⟩ := of_decide_eq_true hp
  refine ⟨by decide, fun hw => ?_, c, hr, hl, by decide, hb, h₂.trans h₁.symm⟩
  obtain ⟨c', hstep, hcount, -⟩ := (hw _ _ hr).2 (0x2000801C, 16) (by rw [hl]; decide)
  have hstep : (c.call (.free false 0x2000801C)).map Prod.fst = some c' := hstep
  obtain ⟨r, hcall, rfl⟩ := Option.map_eq_some_iff.mp hstep
  rw [call_eq (Owns.allowed hcall) rfl] at hcall
  cases hcall
  have hcount : (c.heap.free false 0x2000801C).freeCount = c.heap.freeCount + 1 := hcount
  rw [h₁, h₂] at hcount
  exact absurd hcount (by decide)

end Aixos.HeapClients
