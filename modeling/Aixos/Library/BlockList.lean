import Mathlib.Data.List.Chain
import Mathlib.Data.List.Induction
import Mathlib.Data.List.Nodup
import Mathlib.Data.List.Pairwise
import Mathlib.Algebra.BigOperators.Group.List.Basic
import Mathlib.Tactic.Common

/-!
# Blocks in a row

A region of memory is cut into blocks, one behind the other: each has an overhead of `H` units and a size. A block is
used, for a request, or free.

* `Block.place` — a request is placed in a free block; what is left over becomes a free block, if it is large enough.
* `Block.merge` — a block is freed, and merged with its free neighbours.
* `Block.usedFrom` — the used blocks, with their addresses.
* `Block.Coalesced` — no two neighbours are both free. Such a list is determined by its used blocks (`Coalesced.ext`):
  freeing what has been placed, in any order, gives the list from before.
-/

/-- A block: its size, and the request it is used for, or none if it is free. -/
structure Block where
  size : ℕ
  request : Option ℕ
  deriving DecidableEq, Repr

namespace Block

/-- A free block. -/
abbrev free (s : ℕ) : Block := { size := s, request := none }

/-- The units that some blocks take up. -/
def span (H : ℕ) : List Block → ℕ
  | [] => 0
  | b :: bs => H + b.size + span H bs

/-- The units that the used ones among them take up. -/
def usedSpan (H : ℕ) : List Block → ℕ
  | [] => 0
  | b :: bs => (if b.request.isSome then H + b.size else 0) + usedSpan H bs

/-- A used block: its address, its size, and the request it is used for. -/
structure Used where
  addr : ℕ
  size : ℕ
  request : ℕ
  deriving DecidableEq, Repr

/-- The used ones among blocks in a row from address `a` on. -/
def usedFrom (H : ℕ) : ℕ → List Block → List Used
  | _, [] => []
  | a, { size := s, request := none } :: bs => usedFrom H (a + (H + s)) bs
  | a, { size := s, request := some r } :: bs => { addr := a, size := s, request := r } :: usedFrom H (a + (H + s)) bs

/-- The address of the first of some blocks from `a` on; if there is none, what comes next. -/
def first (a next : ℕ) : List Block → ℕ
  | [] => next
  | _ :: _ => a

/-- The address of the last of some blocks from `a` on; if there is none, what came before. -/
def last (H : ℕ) (prev a : ℕ) : List Block → ℕ
  | [] => prev
  | b :: bs => last H a (a + (H + b.size)) bs

/-- No two neighbours are both free. -/
def Coalesced (bs : List Block) : Prop := bs.IsChain fun b c => b.request.isSome ∨ c.request.isSome

/-- A request `r` takes `size` units of a free block of `s` units. What is left over becomes a free block if it
exceeds the overhead by more than `T`. -/
def place (H T s size r : ℕ) : List Block :=
  if H + T < s - size then [{ size := size, request := some r }, free (s - size - H)]
  else [{ size := s, request := some r }]

/-- The free block of `s` units, with the free block behind it. -/
def mergeNext (H s : ℕ) : List Block → List Block
  | { size := t, request := none } :: post => free (s + (H + t)) :: post
  | post => free s :: post

/-- A free block in front, merged with the free block before it. -/
def mergePrev (H : ℕ) (pre : List Block) : List Block → List Block
  | { size := s, request := none } :: post =>
    match pre.getLast? with
    | some { size := t, request := none } => pre.dropLast ++ free (t + (H + s)) :: post
    | _ => pre ++ free s :: post
  | post => pre ++ post

/-- A block of `s` units between others is freed. -/
def merge (H : ℕ) (pre : List Block) (s : ℕ) (post : List Block) : List Block := mergePrev H pre (mergeNext H s post)

variable {H T s size r : ℕ} {b : Block} {bs cs pre post : List Block}

@[simp] theorem span_nil : span H [] = 0 := rfl

@[simp] theorem span_cons : span H (b :: bs) = H + b.size + span H bs := rfl

@[simp] theorem span_append : span H (bs ++ cs) = span H bs + span H cs := by
  induction bs with
  | nil => simp
  | cons b bs ih => rw [List.cons_append, span_cons, span_cons, ih, Nat.add_assoc (H + b.size)]

@[simp] theorem usedSpan_nil : usedSpan H [] = 0 := rfl

@[simp] theorem usedSpan_cons :
    usedSpan H (b :: bs) = (if b.request.isSome then H + b.size else 0) + usedSpan H bs := rfl

@[simp] theorem usedSpan_append : usedSpan H (bs ++ cs) = usedSpan H bs + usedSpan H cs := by
  induction bs with
  | nil => simp
  | cons b bs ih => rw [List.cons_append, usedSpan_cons, usedSpan_cons, ih, Nat.add_assoc]

theorem usedSpan_le : usedSpan H bs ≤ span H bs := by
  induction bs with
  | nil => exact le_rfl
  | cons b bs ih =>
    rw [usedSpan_cons, span_cons]
    refine Nat.add_le_add ?_ ih
    split
    · exact le_rfl
    · exact Nat.zero_le _

theorem size_le_span (h : b ∈ bs) : H + b.size ≤ span H bs := by
  obtain ⟨pre, post, rfl⟩ := List.append_of_mem h
  rw [span_append, span_cons]
  omega

theorem length_le_span (hH : 0 < H) : bs.length ≤ span H bs := by
  induction bs with
  | nil => exact le_rfl
  | cons b bs ih =>
    rw [List.length_cons, span_cons]
    omega

/-! ### First and last -/

@[simp] theorem first_nil (a next : ℕ) : first a next [] = next := rfl

@[simp] theorem first_cons (a next : ℕ) : first a next (b :: bs) = a := rfl

@[simp] theorem last_nil (prev a : ℕ) : last H prev a [] = prev := rfl

@[simp] theorem last_cons (prev a : ℕ) : last H prev a (b :: bs) = last H a (a + (H + b.size)) bs := rfl

@[simp] theorem first_append (a next : ℕ) : first a next (bs ++ cs) = first a (first (a + span H bs) next cs) bs := by
  cases bs with
  | nil => rfl
  | cons b bs => rfl

@[simp] theorem last_append (prev a : ℕ) : last H prev a (bs ++ cs) = last H (last H prev a bs) (a + span H bs) cs := by
  induction bs generalizing prev a with
  | nil => rfl
  | cons b bs ih => rw [List.cons_append, last_cons, last_cons, ih, span_cons, Nat.add_assoc a]

theorem last_le {a : ℕ} : last H 0 a bs ≤ a + span H bs := by
  induction bs using List.reverseRecOn with
  | nil => exact Nat.zero_le _
  | append_singleton bs b _ =>
    rw [last_append, last_cons, last_nil, span_append]
    omega

/-! ### The used blocks -/

@[simp] theorem usedFrom_nil (a : ℕ) : usedFrom H a [] = [] := rfl

@[simp] theorem usedFrom_free (a : ℕ) : usedFrom H a (free s :: bs) = usedFrom H (a + (H + s)) bs := rfl

@[simp] theorem usedFrom_used (a : ℕ) : usedFrom H a ({ size := s, request := some r } :: bs) =
    { addr := a, size := s, request := r } :: usedFrom H (a + (H + s)) bs := rfl

@[simp] theorem usedFrom_append (a : ℕ) :
    usedFrom H a (bs ++ cs) = usedFrom H a bs ++ usedFrom H (a + span H bs) cs := by
  induction bs generalizing a with
  | nil => rfl
  | cons b bs ih =>
    obtain ⟨s, _ | r⟩ := b
    · rw [List.cons_append, usedFrom_free, usedFrom_free, ih, span_cons, Nat.add_assoc]
    · rw [List.cons_append, usedFrom_used, usedFrom_used, ih, span_cons, List.cons_append, Nat.add_assoc]

theorem mem_usedFrom {a : ℕ} {u : Used} : u ∈ usedFrom H a bs ↔ ∃ pre post,
    bs = pre ++ { size := u.size, request := some u.request } :: post ∧ u.addr = a + span H pre := by
  constructor
  · intro h
    induction bs generalizing a with
    | nil => cases h
    | cons b bs ih =>
      obtain ⟨s, _ | r⟩ := b
      · obtain ⟨pre, post, rfl, e⟩ := ih h
        exact ⟨free s :: pre, post, rfl, by rw [e, span_cons, Nat.add_assoc]⟩
      · rcases List.mem_cons.mp h with rfl | h
        · exact ⟨[], bs, rfl, rfl⟩
        · obtain ⟨pre, post, rfl, e⟩ := ih h
          exact ⟨_ :: pre, post, rfl, by rw [e, span_cons, Nat.add_assoc]⟩
  · rintro ⟨pre, post, rfl, e⟩
    rw [usedFrom_append, usedFrom_used, ← e]
    exact List.mem_append_right _ (List.mem_cons_self ..)

/-- A used block lies behind the address the row starts at. -/
theorem le_addr {a : ℕ} {u : Used} (h : u ∈ usedFrom H a bs) : a ≤ u.addr := by
  obtain ⟨pre, post, -, e⟩ := mem_usedFrom.mp h
  exact e ▸ Nat.le_add_right ..

/-- A used block ends before the row does. -/
theorem addr_add_le {a : ℕ} {u : Used} (h : u ∈ usedFrom H a bs) : u.addr + H + u.size ≤ a + span H bs := by
  obtain ⟨pre, post, rfl, e⟩ := mem_usedFrom.mp h
  rw [e, span_append, span_cons]
  dsimp only
  omega

/-- **The used blocks lie apart**, in the order of their addresses. -/
theorem pairwise_usedFrom (a : ℕ) : (usedFrom H a bs).Pairwise fun u v => u.addr + H + u.size ≤ v.addr := by
  induction bs generalizing a with
  | nil => exact .nil
  | cons b bs ih =>
    obtain ⟨s, _ | r⟩ := b
    · exact ih _
    · refine List.pairwise_cons.mpr ⟨fun v hv => ?_, ih _⟩
      have := le_addr hv
      dsimp only
      omega

/-- Two used blocks lie apart. -/
theorem usedFrom_apart {a : ℕ} {u v : Used} (hu : u ∈ usedFrom H a bs) (hv : v ∈ usedFrom H a bs) (hne : u ≠ v) :
    u.addr + H + u.size ≤ v.addr ∨ v.addr + H + v.size ≤ u.addr := by
  have hp : (usedFrom H a bs).Pairwise fun u v => u.addr + H + u.size ≤ v.addr ∨ v.addr + H + v.size ≤ u.addr :=
    (pairwise_usedFrom a).imp .inl
  have : Std.Symm fun u v : Used => u.addr + H + u.size ≤ v.addr ∨ v.addr + H + v.size ≤ u.addr := ⟨fun _ _ => Or.symm⟩
  exact hp.forall hu hv hne

theorem nodup_usedFrom (hH : 0 < H) (a : ℕ) : (usedFrom H a bs).Nodup := by
  refine (pairwise_usedFrom a).imp ?_
  rintro u _ hlt rfl
  omega

/-- The other used blocks. -/
theorem erase_usedFrom (hH : 0 < H) (a : ℕ) :
    (usedFrom H a (pre ++ { size := s, request := some r } :: post)).erase
      { addr := a + span H pre, size := s, request := r } =
      usedFrom H a pre ++ usedFrom H (a + span H pre + (H + s)) post := by
  rw [usedFrom_append, usedFrom_used, List.erase_append_right, List.erase_cons_head]
  intro hmem
  have := addr_add_le hmem
  dsimp only at this
  omega

/-! ### What placing and freeing keep -/

theorem span_place (h : size ≤ s) : span H (place H T s size r) = H + s := by
  unfold place
  split
  · simp only [span_cons, span_nil]
    omega
  · simp

theorem usedSpan_place : usedSpan H (place H T s size r) = H + (if H + T < s - size then size else s) := by
  unfold place
  split <;> simp

/-- The first of the blocks that are there afterwards is used, and what else there is, is not. -/
theorem place_eq (h : size ≤ s) : ∃ s' rest, place H T s size r = { size := s', request := some r } :: rest ∧
    (∀ a, usedFrom H a rest = []) ∧ size ≤ s' := by
  unfold place
  split
  · exact ⟨_, _, rfl, fun _ => rfl, le_rfl⟩
  · exact ⟨_, _, rfl, fun _ => rfl, h⟩

theorem span_mergeNext : span H (mergeNext H s post) = H + s + span H post := by
  unfold mergeNext
  split
  · simp only [span_cons]
    omega
  · simp

theorem span_mergePrev : span H (mergePrev H pre post) = span H pre + span H post := by
  unfold mergePrev
  split
  · split
    · rename_i t hl
      have hpre := List.dropLast_append_getLast? _ hl
      nth_rewrite 2 [← hpre]
      simp only [span_append, span_cons, span_nil]
      omega
    · simp
  · simp

theorem span_merge : span H (merge H pre s post) = span H (pre ++ { size := s, request := some r } :: post) := by
  rw [merge, span_mergePrev, span_mergeNext, span_append, span_cons]

theorem usedSpan_mergeNext : usedSpan H (mergeNext H s post) = usedSpan H post := by
  unfold mergeNext
  split <;> simp

theorem usedSpan_mergePrev : usedSpan H (mergePrev H pre post) = usedSpan H pre + usedSpan H post := by
  unfold mergePrev
  split
  · split
    · rename_i t hl
      have hpre := List.dropLast_append_getLast? _ hl
      nth_rewrite 2 [← hpre]
      simp
    · simp
  · simp

theorem usedSpan_merge : usedSpan H (merge H pre s post) + (H + s) =
    usedSpan H (pre ++ { size := s, request := some r } :: post) := by
  rw [merge, usedSpan_mergePrev, usedSpan_mergeNext, usedSpan_append, usedSpan_cons]
  simp only [Option.isSome_some, if_true]
  omega

theorem usedFrom_mergeNext (a : ℕ) : usedFrom H a (mergeNext H s post) = usedFrom H (a + (H + s)) post := by
  unfold mergeNext
  split
  · rw [usedFrom_free, usedFrom_free]
    congr 1
    omega
  · rfl

/-- There is a free block that has the size at least. -/
theorem mem_merge : ∃ t, free t ∈ merge H pre s post ∧ s ≤ t := by
  have hn : ∃ t post', mergeNext H s post = free t :: post' ∧ s ≤ t := by
    unfold mergeNext
    split
    · exact ⟨_, _, rfl, Nat.le_add_right ..⟩
    · exact ⟨_, _, rfl, le_rfl⟩
  obtain ⟨t, post', e, hs⟩ := hn
  rw [merge, e]
  unfold mergePrev
  dsimp only
  split
  · exact ⟨_, List.mem_append_right _ (List.mem_cons_self ..), by omega⟩
  · exact ⟨t, List.mem_append_right _ (List.mem_cons_self ..), hs⟩

theorem usedFrom_mergePrev (a : ℕ) :
    usedFrom H a (mergePrev H pre post) = usedFrom H a pre ++ usedFrom H (a + span H pre) post := by
  unfold mergePrev
  split
  · split
    · rename_i t hl
      have hpre := List.dropLast_append_getLast? _ hl
      nth_rewrite 2 3 [← hpre]
      simp only [usedFrom_append, usedFrom_free, usedFrom_nil, span_append, span_cons, span_nil, List.append_nil]
      congr 2
      omega
    · exact usedFrom_append a
  · exact usedFrom_append a

/-- **A merged block is no longer used**; the others are. -/
theorem usedFrom_merge (a : ℕ) : usedFrom H a (merge H pre s post) =
    usedFrom H a pre ++ usedFrom H (a + span H pre + (H + s)) post := by
  rw [merge, usedFrom_mergePrev, usedFrom_mergeNext]

/-! ### Coalesced lists -/

theorem coalesced_append : Coalesced (bs ++ cs) ↔ Coalesced bs ∧ Coalesced cs ∧
    ∀ b ∈ bs.getLast?, ∀ c ∈ cs.head?, b.request.isSome ∨ c.request.isSome := List.isChain_append

theorem coalesced_cons : Coalesced (b :: bs) ↔
    (∀ c ∈ bs.head?, b.request.isSome ∨ c.request.isSome) ∧ Coalesced bs := List.isChain_cons

/-- The size of a block does not matter. -/
theorem Coalesced.resize {t : ℕ} (h : Coalesced (free s :: post)) : Coalesced (free t :: post) := by
  obtain ⟨h₁, h₂⟩ := coalesced_cons.mp h
  exact coalesced_cons.mpr ⟨h₁, h₂⟩

theorem coalesced_single : Coalesced [b] := List.isChain_singleton b

/-- The neighbours of a free block are used. -/
theorem Coalesced.of_free (h : Coalesced (pre ++ free s :: post)) :
    (∀ b ∈ pre.getLast?, b.request.isSome) ∧ ∀ b ∈ post.head?, b.request.isSome := by
  obtain ⟨-, h₂, h₃⟩ := coalesced_append.mp h
  constructor
  · intro b hb
    exact (h₃ b hb (free s) rfl).resolve_right (by simp)
  · intro b hb
    exact ((coalesced_cons.mp h₂).1 b hb).resolve_left (by simp)

theorem mergePrev_of_used (h : ∀ b ∈ pre.getLast?, b.request.isSome) :
    mergePrev H pre (free s :: post) = pre ++ free s :: post := by
  unfold mergePrev
  dsimp only
  split
  · rename_i hl
    cases h _ hl
  · rfl

theorem mergePrev_of_free {t : ℕ} (h : pre.getLast? = some (free t)) :
    mergePrev H pre (free s :: post) = pre.dropLast ++ free (t + (H + s)) :: post := by
  unfold mergePrev
  dsimp only
  rw [h]

/-- **Placing** keeps a list coalesced. -/
theorem Coalesced.place (h : Coalesced (pre ++ free s :: post)) : Coalesced (pre ++ place H T s size r ++ post) := by
  obtain ⟨hl, hr⟩ := h.of_free
  obtain ⟨h₁, h₂, -⟩ := coalesced_append.mp h
  have hpost := (coalesced_cons.mp h₂).2
  rw [List.append_assoc]
  refine coalesced_append.mpr ⟨h₁, ?_, fun b hb _ _ => .inl (hl b hb)⟩
  unfold Block.place
  split
  · refine coalesced_cons.mpr ⟨fun _ _ => .inl rfl, ?_⟩
    exact coalesced_cons.mpr ⟨fun c hc => .inr (hr c hc), hpost⟩
  · exact coalesced_cons.mpr ⟨fun _ _ => .inl rfl, hpost⟩

theorem coalesced_mergeNext (h : Coalesced post) :
    ∃ s' post', mergeNext H s post = free s' :: post' ∧ Coalesced (free s' :: post') := by
  unfold mergeNext
  split
  · exact ⟨_, _, rfl, h.resize⟩
  · rename_i hp
    refine ⟨s, post, rfl, coalesced_cons.mpr ⟨fun c hc => ?_, h⟩⟩
    obtain ⟨t, _ | r⟩ := c
    · cases post with
      | nil => cases hc
      | cons b post =>
        cases hc
        exact absurd rfl (hp t post)
    · exact .inr rfl

/-- **Freeing** keeps a list coalesced. -/
theorem Coalesced.merge (h : Coalesced (pre ++ { size := s, request := some r } :: post)) :
    Coalesced (merge H pre s post) := by
  obtain ⟨h₁, h₂, -⟩ := coalesced_append.mp h
  obtain ⟨s', post', e, h₃⟩ := coalesced_mergeNext (H := H) (s := s) (coalesced_cons.mp h₂).2
  rw [Block.merge, e]
  by_cases hfree : ∃ t, pre.getLast? = some (free t)
  · obtain ⟨t, ht⟩ := hfree
    rw [mergePrev_of_free ht]
    have hpre := List.dropLast_append_getLast? _ ht
    rw [← hpre] at h₁
    exact coalesced_append.mpr ⟨(coalesced_append.mp h₁).1, h₃.resize, fun b hb _ _ => .inl (h₁.of_free.1 b hb)⟩
  · have hused : ∀ b ∈ pre.getLast?, b.request.isSome := by
      rintro ⟨t, _ | r⟩ hb
      · exact absurd ⟨t, hb⟩ hfree
      · rfl
    rw [mergePrev_of_used hused]
    exact coalesced_append.mpr ⟨h₁, h₃, fun b hb _ _ => .inl (hused b hb)⟩

/-- The first used block of a coalesced row is its first or its second block. -/
theorem Coalesced.usedFrom_tail {a : ℕ} (h : Coalesced (free s :: bs)) :
    bs = [] ∨ ∃ u rest, bs = { size := u.size, request := some u.request } :: rest ∧ u.addr = a + (H + s) ∧
      usedFrom H a (free s :: bs) = u :: usedFrom H (a + (H + s) + (H + u.size)) rest := by
  match bs, h with
  | [], _ => exact .inl rfl
  | { size := t, request := none } :: bs, h => exact absurd ((coalesced_cons.mp h).1 _ rfl) (by simp)
  | { size := t, request := some r } :: bs, _ =>
    exact .inr ⟨{ addr := a + (H + s), size := t, request := r }, bs, rfl, rfl, rfl⟩

/-- **A coalesced row is determined by its used blocks**, its address and its length. -/
theorem Coalesced.ext {a : ℕ} (hH : 0 < H) (hb : Coalesced bs) (hc : Coalesced cs) (hs : span H bs = span H cs)
    (hu : usedFrom H a bs = usedFrom H a cs) : bs = cs := by
  induction bs generalizing a cs with
  | nil =>
    cases cs with
    | nil => rfl
    | cons c cs =>
      rw [span_nil, span_cons] at hs
      omega
  | cons b bs ih =>
    cases cs with
    | nil =>
      rw [span_nil, span_cons] at hs
      omega
    | cons c cs =>
      have hb' := (coalesced_cons.mp hb).2
      have hc' := (coalesced_cons.mp hc).2
      rw [span_cons, span_cons] at hs
      -- What is left to show once the first blocks are the same.
      suffices e : b = c by
        subst e
        refine congrArg (b :: ·) (ih (a := a + (H + b.size)) hb' hc' (by omega) ?_)
        obtain ⟨s, _ | r⟩ := b
        · exact hu
        · exact (List.cons.inj hu).2
      obtain ⟨s, _ | r⟩ := b <;> obtain ⟨t, _ | q⟩ := c
      · rcases hb.usedFrom_tail (H := H) (a := a) with rfl | ⟨u, bs, rfl, hau, eu⟩
        · rcases hc.usedFrom_tail (H := H) (a := a) with rfl | ⟨v, cs, rfl, hav, ev⟩
          · simp only [span_nil] at hs
            rw [show s = t by omega]
          · rw [ev] at hu
            cases hu
        · rcases hc.usedFrom_tail (H := H) (a := a) with rfl | ⟨v, cs, rfl, hav, ev⟩
          · rw [eu] at hu
            cases hu
          · rw [eu, ev] at hu
            rw [(List.cons.inj hu).1, hav] at hau
            rw [show s = t by omega]
      · have hmem : { addr := a, size := t, request := q : Used } ∈ usedFrom H a (free s :: bs) := by
          rw [hu]
          exact List.mem_cons_self ..
        have := le_addr (usedFrom_free a ▸ hmem)
        dsimp only at this
        omega
      · have hmem : { addr := a, size := s, request := r : Used } ∈ usedFrom H a (free t :: cs) := by
          rw [← hu]
          exact List.mem_cons_self ..
        have := le_addr (usedFrom_free a ▸ hmem)
        dsimp only at this
        omega
      · have e := (List.cons.inj hu).1
        injection e with _ e₁ e₂
        rw [e₁, e₂]

end Block
