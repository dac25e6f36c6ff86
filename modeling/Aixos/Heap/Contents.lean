import Aixos.Heap.Tilings

/-!
# What the heap gives out

* `HeapClients.Owns.inside` — the bytes of an allocation lie in the region, outside headers and other allocations.
* `HeapClients.allocations_sound` — so they do in every run, and no call changes the bytes of an allocation that stays
  live; a call that returns `NULL` for a request changes nothing.
* `HeapClients.realloc_zero_frees` — `aixos_realloc` to size zero frees, and returns `NULL`.
-/

namespace Aixos

open ByteMemory Block Transition

variable [cfg : HeapConfig]

namespace Heap

variable {prev a : ℕ} {bs : List Block} {e : ℕ × HeapHdr} {u : Used}

/-- The header of a block lies behind a used block, or its address is not behind that of the used block. -/
theorem apart_headersFrom (he : e ∈ headersFrom prev a bs) (hu : u ∈ usedFrom heapHeaderSize a bs) :
    e.1 ≤ u.addr ∨ u.addr + heapHeaderSize + u.size ≤ e.1 := by
  induction bs generalizing prev a with
  | nil => cases he
  | cons b bs ih =>
    obtain ⟨s, request⟩ := b
    rcases List.mem_cons.mp he with rfl | he
    · exact .inl (le_addr hu)
    · have hge : ∀ {e : ℕ × HeapHdr} {prev a : ℕ} {bs : List Block}, e ∈ headersFrom prev a bs → a ≤ e.1 := by
        intro e prev a bs
        induction bs generalizing prev a with
        | nil =>
          intro he
          cases he
        | cons b bs ih =>
          intro he
          rcases List.mem_cons.mp he with rfl | he
          · exact le_rfl
          · have := ih he
            omega
      have hge := hge he
      dsimp only at hge
      cases request with
      | none => exact ih he hu
      | some r =>
        rw [usedFrom_used] at hu
        rcases List.mem_cons.mp hu with rfl | hu
        · exact .inr (by dsimp only; omega)
        · exact ih he hu

end Heap

namespace HeapClients

open Heap HeapCall

variable {m : ByteMemory} {c c' : HeapClients} {start size q n : ℕ} {bs : List Block} {xs : List HeapCall}
  {x : HeapCall}

/-- Two ranges of bytes do not overlap. -/
def Disjoint (e f : ℕ × ℕ) : Prop := e.1 + e.2 ≤ f.1 ∨ f.1 + f.2 ≤ e.1

namespace Owns

/-- **A live allocation** is aligned, and its bytes lie in the region and outside all headers. -/
theorem inside (o : Owns start size c bs) {e : ℕ × ℕ} (he : e ∈ c.live) : 8 ∣ e.1 ∧ c.heap.heapBegin ≤ e.1 ∧
    e.1 + e.2 ≤ c.heap.heapEnd ∧ ∀ b ∈ headersFrom 0 c.heap.heapBegin bs, Disjoint e (b.1, heapHeaderSize) := by
  obtain ⟨u, hu, rfl⟩ := o.mem_live.mp he
  obtain ⟨-, -, -, -, hfits, h8⟩ := o.intact.valid hu
  have hle := le_addr hu
  have hend : u.addr + heapHeaderSize + u.size ≤ c.heap.heapBegin + span heapHeaderSize bs := addr_add_le hu
  have hspan := o.intact.span_le
  have hH := heapHeaderSize_dvd
  refine ⟨Nat.dvd_add h8 hH, ?_, ?_, fun b hb => ?_⟩
  · show _ ≤ u.addr + heapHeaderSize
    omega
  · show u.addr + heapHeaderSize + u.request ≤ _
    omega
  · unfold Disjoint
    show u.addr + heapHeaderSize + u.request ≤ b.1 ∨ b.1 + heapHeaderSize ≤ u.addr + heapHeaderSize
    rcases apart_headersFrom hb hu with h | h
    · exact .inr (by omega)
    · exact .inl (by omega)

/-- **Live allocations** do not overlap. -/
theorem disjoint (o : Owns start size c bs) : c.live.Pairwise Disjoint := by
  have hsymm : ∀ {e f : ℕ × ℕ}, Disjoint e f → Disjoint f e := Or.symm
  rw [o.live.pairwise_iff hsymm, List.pairwise_map]
  refine List.Pairwise.imp_of_mem (fun {u v} hu hv hlt => ?_) (pairwise_usedFrom c.heap.heapBegin)
  have hfits := (o.intact.valid hu).2.2.2.2.1
  refine .inl ?_
  show u.addr + heapHeaderSize + u.request ≤ v.addr + heapHeaderSize
  omega

/-- What the caller of a call that asks for bytes gets. -/
theorem result_fresh (o : Owns start size c bs) (hf : x.fresh = some n) (hx : c.Allowed x)
    (h : c.call x = some (c', q)) :
    q = 0 ∧ c'.heap.blocks = c.heap.blocks ∧ c'.heap.mem = c.heap.mem ∧ c'.live = c.live ∨
      q ≠ 0 ∧ (q, requested n) ∈ c'.live ∧ ∀ e ∈ c.live, e.1 ≠ q := by
  have hH := heapHeaderSize_ge
  rcases o.gets hf with ⟨h', e, hid⟩ | ⟨h', bs', u, e, hp, -, -⟩
  · rw [call_eq hx e] at h
    cases h
    exact .inl ⟨rfl, hid.blocks_eq, hid.mem, by rw [o.owned_fresh hf, gain, if_pos rfl]⟩
  · rw [call_eq hx e] at h
    cases h
    refine .inr ⟨by omega, ?_, fun f hf' hptr => ?_⟩
    · rw [o.owned_fresh hf, gain, if_neg (by omega)]
      exact List.mem_cons_self ..
    · obtain ⟨v, hv, rfl⟩ := o.mem_live.mp hf'
      have : v = u := allocation_injOn (hp.mem_iff.mpr (.inr hv)) (hp.mem_iff.mpr (.inl rfl)) hptr
      exact hp.not_mem (this ▸ hv)

/-- What the caller of `aixos_realloc` gets, with a live pointer and a size that is not zero. -/
theorem result_realloc (o : Owns start size c bs) {e : ℕ × ℕ} {isr : Bool} (he : e ∈ c.live) (hn : n ≠ 0)
    (h : c.call (.realloc isr e.1 n) = some (c', q)) :
    q = 0 ∧ c'.heap.blocks = c.heap.blocks ∧ c'.heap.mem = c.heap.mem ∧ c'.live = c.live ∨
      q ≠ 0 ∧ (q, requested n) ∈ c'.live ∧ (∀ f ∈ c.live, f.1 ≠ q) ∧
        c'.heap.mem.load q (min e.2 n) = c.heap.mem.load e.1 (min e.2 n) := by
  have hx : c.Allowed (.realloc isr e.1 n) := .inr ⟨e, he, rfl⟩
  have howned : ∀ q, (HeapCall.realloc isr e.1 n).owned c.live q =
      if q = 0 then c.live else gain (lose c.live e.1) q n := fun q => by
    rw [owned, if_neg fun h => hn h.2]
  rcases o.reallocs he hn isr with ⟨h', e', hid⟩ | ⟨h', q', bs', e', hq, hnew, -, hcopy, -⟩
  · rw [call_eq hx e'] at h
    cases h
    exact .inl ⟨rfl, hid.blocks_eq, hid.mem, by rw [howned, if_pos rfl]⟩
  · rw [call_eq hx e'] at h
    cases h
    refine .inr ⟨hq, ?_, hnew, hcopy⟩
    rw [howned, if_neg hq, gain, if_neg hq]
    exact List.mem_cons_self ..

/-- The other calls return nothing. -/
theorem result_other (o : Owns start size c bs) (hf : x.fresh = none) (hx : c.Allowed x)
    (hno : ∀ isr p n, x = .realloc isr p n → n = 0) (h : c.call x = some (c', q)) : q = 0 := by
  have done : ∀ {h' : Heap}, x.apply c.heap = some (h', 0) → q = 0 := by
    intro h' e
    rw [call_eq hx e] at h
    cases h
    rfl
  cases x with
  | malloc | kernelMalloc | calloc => cases hf
  | realloc isr p n =>
    obtain rfl := hno isr p n rfl
    have hp : p ≠ 0 := by
      rintro rfl
      cases hf
    exact done (by rw [apply, Heap.realloc, if_neg hp, if_pos rfl])
  | free => exact done rfl
  | check => exact done (by rw [apply, o.intact.check_eq, Option.map_some])
  | lockdown => exact done rfl
  | write => exact done rfl

theorem allowed (h : c.call x = some (c', q)) : c.Allowed x := by
  by_contra hno
  rw [HeapClients.call, if_neg hno] at h
  cases h

/-- **A pointer that is returned** is that of a new live allocation. -/
theorem result (o : Owns start size c bs) (h : c.call x = some (c', q)) (hq : q ≠ 0) :
    ∃ n, (x.fresh = some n ∨ ∃ isr p, x = .realloc isr p n) ∧ (q, requested n) ∈ c'.live ∧ ∀ e ∈ c.live, e.1 ≠ q := by
  have hx := allowed h
  by_cases hre : ∃ isr p n, x = .realloc isr p n ∧ n ≠ 0 ∧ p ≠ 0
  · obtain ⟨isr, p, n, rfl, hn, hp⟩ := hre
    obtain ⟨e, he, rfl⟩ := Or.resolve_left hx hp
    obtain ⟨-, hm, hnew, -⟩ := (o.result_realloc he hn h).resolve_left fun h => hq h.1
    exact ⟨n, .inr ⟨isr, e.1, rfl⟩, hm, hnew⟩
  · cases hf : x.fresh with
    | some n =>
      obtain ⟨-, hm, hnew⟩ := (o.result_fresh hf hx h).resolve_left fun h => hq h.1
      exact ⟨n, .inl rfl, hm, hnew⟩
    | none =>
      refine absurd (o.result_other hf hx ?_ h) hq
      rintro isr p n rfl
      by_contra hn
      refine hre ⟨isr, p, n, rfl, hn, ?_⟩
      rintro rfl
      cases hf

end Owns

/-- **Allocations are sound**: on an aligned region, in every run of clients that free only live pointers and write
only what they have requested, the live allocations are aligned and lie in the region, apart from each other and from all
headers. No call changes the bytes of an allocation that stays live, unless it writes to them. A pointer that is
returned is that of a new live allocation of as many bytes as were asked for; `aixos_realloc` has copied as many as
fit; and if `NULL` is returned to who asks for bytes, nothing changes. -/
theorem allocations_sound (h8 : 8 ∣ start) (hend : start + size < 256 ^ cfg.pointerSize)
    (h : run HeapClients.step (init m start size) xs = some c) :
    (∀ e ∈ c.live, 8 ∣ e.1 ∧ c.heap.heapBegin ≤ e.1 ∧ e.1 + e.2 ≤ c.heap.heapEnd ∧
      ∃ hs, c.heap.blocks = some hs ∧ ∀ b ∈ hs, Disjoint e (b.1, heapHeaderSize)) ∧
    c.live.Pairwise Disjoint ∧
    ∀ x c' q, c.call x = some (c', q) →
      (∀ e ∈ c.live, e ∈ c'.live → (∀ offset cs, x ≠ .write e.1 offset cs) →
        Agree c.heap.mem c'.heap.mem e.1 (e.1 + e.2)) ∧
      (q ≠ 0 → ∃ n, (x.fresh = some n ∨ ∃ isr p, x = .realloc isr p n) ∧ (q, requested n) ∈ c'.live ∧
        ∀ e ∈ c.live, e.1 ≠ q) ∧
      (∀ isr p n r, x = .realloc isr p n → (p, r) ∈ c.live → q ≠ 0 →
        c'.heap.mem.load q (min r n) = c.heap.mem.load p (min r n)) ∧
      ((∃ n, x.fresh = some n) ∨ (∃ isr p n, x = .realloc isr p n ∧ n ≠ 0) → q = 0 →
        c'.heap.blocks = c.heap.blocks ∧ c'.heap.mem = c.heap.mem ∧ c'.live = c.live) := by
  obtain ⟨h8', hend'⟩ := init_region h8 hend
  obtain ⟨bs, o⟩ := owns_run m h8' hend' h
  refine ⟨fun e he => ?_, o.disjoint, fun x c' q hcall => ?_⟩
  · obtain ⟨h₁, h₂, h₃, h₄⟩ := o.inside he
    exact ⟨h₁, h₂, h₃, _, o.intact.blocks_eq, h₄⟩
  have hx := Owns.allowed hcall
  refine ⟨?_, o.result hcall, fun isr p n r hxr hr hq => ?_, fun hn hq => ?_⟩
  · obtain ⟨d, q', bs', e, -, hk⟩ := o.call hx
    cases hcall.symm.trans e
    exact hk
  · subst hxr
    have hn : n ≠ 0 := by
      rintro rfl
      have hf : (HeapCall.realloc isr p 0).fresh = none := if_neg (o.ptr_ne_zero hr)
      refine hq (o.result_other hf hx ?_ hcall)
      rintro _ _ _ ⟨⟩
      rfl
    exact ((o.result_realloc hr hn hcall).resolve_left fun h => hq h.1).2.2.2
  · by_cases hf : ∃ n, x.fresh = some n
    · obtain ⟨n, hf⟩ := hf
      exact ((o.result_fresh hf hx hcall).resolve_right fun h => h.1 hq).2
    · obtain ⟨isr, p, n, rfl, hn'⟩ := hn.resolve_left hf
      have hp : p ≠ 0 := by
        rintro rfl
        exact hf ⟨n, rfl⟩
      obtain ⟨e, he, rfl⟩ := Or.resolve_left hx hp
      exact ((o.result_realloc he hn' hcall).resolve_right fun h => h.1 hq).2

end HeapClients

end Aixos

namespace Aixos.HeapClients

open Transition

attribute [local instance] HeapConfig.default

theorem allocations_sound_once : ∃ c, run HeapClients.step (init (fun _ => 0) 0x20008000 4096) threeCalls = some c ∧
    8 ∣ 0x20008018 ∧ Disjoint (0x20008080, 2000) (0x20008018, 16) := by
  obtain ⟨c, hr, hl⟩ := threeCalls_run
  have hl := of_decide_eq_true hl
  obtain ⟨h₁, h₂, -⟩ := allocations_sound (by decide) (by decide) hr
  rw [hl] at h₁ h₂
  exact ⟨c, hr, (h₁ (0x20008018, 16) (by decide)).1, (List.pairwise_cons.mp h₂).1 _ (List.mem_singleton.mpr rfl)⟩

/-- `aixos_realloc` of a live pointer to size zero returns `NULL`, and has freed the block. -/
theorem realloc_zero_frees : ∃ c c', run HeapClients.step (init (fun _ => 0) 0x20008000 4096) [.malloc false 16] = some c ∧
    c.call (.realloc false 0x20008018 0) = some (c', 0) ∧ c'.heap.blocks ≠ c.heap.blocks ∧ c.live ≠ [] ∧ c'.live = [] := by
  obtain ⟨c, hr, hp⟩ := exists_run HeapClients.step (init (fun _ => 0) 0x20008000 4096) [.malloc false 16] (fun c =>
    ((c.call (.realloc false 0x20008018 0)).map fun r =>
      decide (r.2 = 0 ∧ r.1.heap.blocks ≠ c.heap.blocks ∧ c.live ≠ [] ∧ r.1.live = [])) = some true) (by decide +kernel)
  obtain ⟨⟨c', q⟩, hc, h⟩ := Option.map_eq_some_iff.mp (of_decide_eq_true hp)
  obtain ⟨rfl, h₁, h₂, h₃⟩ := of_decide_eq_true h
  exact ⟨c, c', hr, hc, h₁, h₂, h₃⟩

end Aixos.HeapClients
