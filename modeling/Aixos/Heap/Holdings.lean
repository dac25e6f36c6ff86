import Aixos.Heap.Clients
import Mathlib.Data.List.ReduceOption

/-!
# What is held of a heap

* `Heap.Restored` — the blocks of a heap are what they were, and so is all that is not the heap's own.
* `Heap.Holding` — some blocks have been allocated since, and nothing else has happened.
* `Heap.Holding.gain`, `Heap.Holding.lose` — one more is allocated, and one is freed, in whatever order;
  `Heap.Holding.restored` — when none is left, the heap is restored.
* `Heap.Holding.frees` — so it is when all pointers that have been given are freed, `NULL` among them or not.
-/

namespace Aixos

open ByteMemory Block

variable [cfg : HeapConfig]

namespace Heap

variable {h h' h'' : Heap} {bs bs' bs'' : List Block} {u : Used} {us : List Used} {n : ℕ}

/-- From `h` to `h'` the blocks stay, what used blocks hold, and what lies outside of the heap. -/
structure Restored (h h' : Heap) (bs : List Block) : Prop where
  intact : h'.Intact bs
  steady : h.Steady h'
  kept : Kept h.mem h'.mem (usedFrom heapHeaderSize h.heapBegin bs)
  within : Within h.mem h'.mem h.heapBegin h.heapEnd

/-- From `h` to `h'` the blocks `us` have been allocated, and what was used stays. -/
structure Holding (h h' : Heap) (bs bs' : List Block) (us : List Used) : Prop where
  intact : h'.Intact bs'
  steady : h.Steady h'
  kept : Kept h.mem h'.mem (usedFrom heapHeaderSize h.heapBegin bs)
  within : Within h.mem h'.mem h.heapBegin h.heapEnd
  span_eq : span heapHeaderSize bs' = span heapHeaderSize bs
  nodup : us.Nodup
  mem : ∀ u ∈ us, u ∈ usedFrom heapHeaderSize h.heapBegin bs'
  diff : (usedFrom heapHeaderSize h.heapBegin bs').diff us = usedFrom heapHeaderSize h.heapBegin bs

theorem Idle.kept (hid : h.Idle h') (us : List Used) : Kept h.mem h'.mem us := fun u _ => by
  rw [hid.mem]
  exact Agree.refl _ _ _

omit cfg in
theorem Idle.within (hid : h.Idle h') : Within h.mem h'.mem h.heapBegin h.heapEnd := by
  rw [hid.mem]
  exact Within.refl _ _ _

omit cfg in
theorem Idle.refl (h : Heap) : h.Idle h := ⟨⟨rfl, rfl, rfl, rfl, rfl, rfl⟩, rfl, rfl, rfl⟩

/-- `aixos_calloc` writes to the heap only. -/
theorem Intact.calloc_within {q count size : ℕ} {isr : Bool} (hi : h.Intact bs)
    (e : h.calloc isr count size = some (h', q)) : Within h.mem h'.mem h.heapBegin h.heapEnd := by
  unfold Heap.calloc at e
  split at e
  · cases e
    exact Within.refl _ _ _
  rw [malloc] at e
  rcases hi.allocate isr (count * size) false with ⟨h₁, e₁, hid, -⟩ | ⟨h₁, bs₁, u, e₁, hp, hr, -⟩
  · rw [e₁] at e
    cases e
    exact hid.within
  · rw [e₁, Option.map_some] at e
    dsimp only at e
    have hw := hi.allocate_within e₁
    have hH := heapHeaderSize_ge
    rw [if_neg (by omega)] at e
    cases e
    obtain ⟨-, -, -, -, hfits, -⟩ := hp.intact.valid (hp.mem_iff.mpr (.inl rfl))
    have hend : u.addr + heapHeaderSize + u.size ≤ h.heapBegin + span heapHeaderSize bs₁ := addr_add_le hp.mem
    have hspan := hi.span_le
    rw [← hp.span_eq] at hspan
    have hbegin := le_addr hp.mem
    have hroom : count * size ≤ u.request := by
      rw [hr]
      unfold requested
      split <;> omega
    exact hw.trans (Within.store (by omega) (by rw [List.length_replicate]; omega))

/-- The pointer to a block; `none` is `NULL`. -/
def pointer : Option Used → ℕ
  | none => 0
  | some u => u.addr + heapHeaderSize

@[simp] theorem pointer_none : pointer none = 0 := rfl

@[simp] theorem pointer_some (u : Used) : pointer (some u) = u.addr + heapHeaderSize := rfl

namespace Holding

theorem refl (hi : h.Intact bs) : h.Holding h bs bs [] where
  intact := hi
  steady := (Idle.refl h).steady
  kept := (Idle.refl h).kept _
  within := (Idle.refl h).within
  span_eq := rfl
  nodup := List.nodup_nil
  mem := by simp
  diff := List.diff_nil _

/-- A call that changes nothing. -/
theorem idle (hh : h.Holding h' bs bs' us) (hid : h'.Idle h'') : h.Holding h'' bs bs' us where
  intact := hh.intact.congr hid.steady hid.mem hid.currentUsed
  steady := hh.steady.trans hid.steady
  kept v hv := (hh.kept v hv).trans (hid.kept _ v hv)
  within := by
    rw [hid.mem]
    exact hh.within
  span_eq := hh.span_eq
  nodup := hh.nodup
  mem := hh.mem
  diff := hh.diff

/-- What was used before is used. -/
theorem mem_of_mem (hh : h.Holding h' bs bs' us) (hu : u ∈ usedFrom heapHeaderSize h.heapBegin bs) :
    u ∈ usedFrom heapHeaderSize h.heapBegin bs' := by
  rw [← hh.diff] at hu
  exact List.diff_subset _ _ hu

/-- One more block is allocated. -/
theorem gain (hh : h.Holding h' bs bs' us) (hp : h'.Placed h'' bs' bs'' u)
    (hw : Within h'.mem h''.mem h'.heapBegin h'.heapEnd) : h.Holding h'' bs bs'' (u :: us) := by
  have hbegin := hh.steady.begin_eq
  have hmem : ∀ v, v ∈ usedFrom heapHeaderSize h.heapBegin bs'' ↔ v = u ∨ v ∈ usedFrom heapHeaderSize h.heapBegin bs' := by
    intro v
    have hv : v ∈ usedFrom heapHeaderSize h''.heapBegin bs'' ↔ v = u ∨ v ∈ usedFrom heapHeaderSize h'.heapBegin bs' :=
      hp.mem_iff
    rwa [hp.steady.begin_eq, hbegin] at hv
  have hnot : u ∉ usedFrom heapHeaderSize h.heapBegin bs' := by
    have := hp.not_mem
    rwa [hbegin] at this
  refine ⟨hp.intact, hh.steady.trans hp.steady, fun v hv => ?_, ?_, hp.span_eq.trans hh.span_eq, ?_, fun v hv => ?_, ?_⟩
  · have hv' := hh.mem_of_mem hv
    rw [← hbegin] at hv'
    exact (hh.kept v hv).trans (hp.kept v hv')
  · rw [hbegin, hh.steady.end_eq] at hw
    exact hh.within.trans hw
  · exact List.nodup_cons.mpr ⟨fun hu => hnot (hh.mem u hu), hh.nodup⟩
  · rcases List.mem_cons.mp hv with rfl | hv
    · exact (hmem v).mpr (.inl rfl)
    · exact (hmem v).mpr (.inr (hh.mem v hv))
  · have herase := hp.erase
    rw [hbegin] at herase
    rw [List.diff_cons, herase, hh.diff]

/-- One of the blocks is freed. -/
theorem lose (hh : h.Holding h' bs bs' us) (hu : u ∈ us) :
    ∃ bs'', h.Holding (h'.free false (u.addr + heapHeaderSize)) bs bs'' (us.erase u) := by
  have hH := heapHeaderSize_ge
  have hbegin := hh.steady.begin_eq
  have hu' : u ∈ usedFrom heapHeaderSize h'.heapBegin bs' := by
    rw [hbegin]
    exact hh.mem u hu
  obtain ⟨bs'', hf⟩ := hh.intact.free hu'
  have hw := hh.intact.free_within hu'
  have herase := hf.erase
  rw [hbegin] at herase
  have hnodup : (usedFrom heapHeaderSize h.heapBegin bs').Nodup := nodup_usedFrom (by omega) _
  have hdiff : (usedFrom heapHeaderSize h.heapBegin bs'').diff (us.erase u) = usedFrom heapHeaderSize h.heapBegin bs := by
    rw [herase, ← List.diff_cons, ← hh.diff]
    exact ((List.perm_cons_erase hu).symm).diff_left _
  refine ⟨bs'', hf.intact, hh.steady.trans hf.steady, fun v hv => ?_, ?_, hf.span_eq.trans hh.span_eq,
    hh.nodup.erase u, fun v hv => ?_, hdiff⟩
  · have hv' : v ∈ usedFrom heapHeaderSize h'.heapBegin bs'' := by
      rw [hbegin]
      rw [← hdiff] at hv
      exact List.diff_subset _ _ hv
    exact (hh.kept v hv).trans (hf.kept v hv')
  · rw [hbegin, hh.steady.end_eq] at hw
    exact hh.within.trans hw
  · obtain ⟨hne, hv⟩ := hh.nodup.mem_erase_iff.mp hv
    rw [herase]
    exact hnodup.mem_erase_iff.mpr ⟨hne, hh.mem v hv⟩

/-- **Nothing is held any more**: the heap is what it was. -/
theorem restored (hi : h.Intact bs) (hh : h.Holding h' bs bs' []) : h.Restored h' bs := by
  have hH := heapHeaderSize_ge
  obtain rfl : bs' = bs := hh.intact.coalesced.ext (by omega) hi.coalesced hh.span_eq hh.diff
  exact ⟨hh.intact, hh.steady, hh.kept, hh.within⟩

/-- `aixos_malloc` gives one more block, or `NULL`. -/
theorem malloc (hh : h.Holding h' bs bs' us) (isr : Bool) (n : ℕ) :
    ∃ h'' bs'' o, h'.malloc isr n = some (h'', pointer o) ∧ h.Holding h'' bs bs'' (o.toList ++ us) ∧
      (isr = true → o = none) := by
  rcases hh.intact.allocate isr n false with ⟨h'', e, hid, -⟩ | ⟨h'', bs'', u, e, hp, -, hno⟩
  · exact ⟨h'', bs', none, e, hh.idle hid, fun _ => rfl⟩
  · exact ⟨h'', bs'', some u, e, hh.gain hp (hh.intact.allocate_within e), fun hisr => absurd (.inl hisr) hno⟩

/-- So does `aixos_calloc`. -/
theorem calloc (hh : h.Holding h' bs bs' us) (isr : Bool) (count size : ℕ) :
    ∃ h'' bs'' o, h'.calloc isr count size = some (h'', pointer o) ∧ h.Holding h'' bs bs'' (o.toList ++ us) ∧
      (isr = true → o = none) := by
  rcases hh.intact.calloc isr count size with ⟨h'', e, hid⟩ | ⟨h'', bs'', u, e, hp, -, hno⟩
  · exact ⟨h'', bs', none, e, hh.idle hid, fun _ => rfl⟩
  · exact ⟨h'', bs'', some u, e, hh.gain hp (hh.intact.calloc_within e), fun hisr => absurd (.inl hisr) hno⟩

/-- **All that is held is freed**, in any order: the heap is what it was. -/
theorem frees (hi : h.Intact bs) {isr : Bool} {os : List (Option Used)} (hh : h.Holding h' bs bs' us)
    (hp : us.Perm os.reduceOption) (hisr : isr = true → us = []) :
    h.Restored (os.foldl (fun h o => h.free isr (pointer o)) h') bs := by
  induction os generalizing h' bs' us with
  | nil =>
    obtain rfl := hp.eq_nil
    exact hh.restored hi
  | cons o os ih =>
    rw [List.foldl_cons]
    cases o with
    | none =>
      rw [show h'.free isr (pointer none) = h' from if_pos rfl]
      exact ih hh hp hisr
    | some u =>
      rw [List.reduceOption_cons_of_some] at hp
      have hu : u ∈ us := hp.mem_iff.mpr (List.mem_cons_self ..)
      cases isr with
      | true =>
        rw [hisr rfl] at hu
        cases hu
      | false =>
        obtain ⟨bs'', hh'⟩ := hh.lose hu
        refine ih hh' ?_ fun h => by cases h
        have := hp.erase u
        rwa [List.erase_cons_head] at this

end Holding

theorem Restored.blocks_eq (hr : h.Restored h' bs) (hi : h.Intact bs) : h'.blocks = h.blocks := by
  rw [hr.intact.blocks_eq, hi.blocks_eq, hr.steady.begin_eq]

theorem Intact.restored (hi : h.Intact bs) (hid : h.Idle h') : h.Restored h' bs := ((Holding.refl hi).idle hid).restored hi

/-- **What has been allocated is freed**: the blocks are those from before the allocation. -/
theorem Placed.undo (hi : h.Intact bs) (hp : h.Placed h' bs bs' u) (hw : Within h.mem h'.mem h.heapBegin h.heapEnd)
    (hr : h'.Restored h'' bs') : h.Restored (h''.free false (u.addr + heapHeaderSize)) bs := by
  have hh := (Holding.refl hi).gain hp hw
  have hh' : h.Holding h'' bs bs' [u] :=
    { hh with
      intact := hr.intact
      steady := hh.steady.trans hr.steady
      kept := fun v hv => (hh.kept v hv).trans (hr.kept v (hp.mem_iff.mpr (.inr hv)))
      within := hh.within.trans (by
        have hw' := hr.within
        rwa [hp.steady.begin_eq, hp.steady.end_eq] at hw') }
  obtain ⟨bs₃, hh''⟩ := hh'.lose (List.mem_singleton.mpr rfl)
  rw [List.erase_cons_head] at hh''
  exact hh''.restored hi

/-- Memory outside of the heap is no concern of it. -/
theorem Intact.outside {m : ByteMemory} (hi : h.Intact bs) (hm : Agree h.mem m h.heapBegin h.heapEnd) :
    ({ h with mem := m } : Heap).Intact bs :=
  hi.update ⟨rfl, rfl, rfl, rfl, rfl, rfl⟩ (hi.laid.congr (hm.mono le_rfl hi.span_le)) rfl hi.ne_nil hi.coalesced hi.used

end Heap

end Aixos
