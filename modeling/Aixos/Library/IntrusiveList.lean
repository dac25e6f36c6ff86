import Mathlib.Data.List.Nodup
import Mathlib.Logic.Function.Basic

/-!
# Intrusive circular lists

A node of an intrusive list is a pair of pointers inside another object. A list
is a ring of such nodes through a head node that carries no element. This module
gives the memory of the pointers, the usual primitives on it, and the relation
between the memory and the plain list of the elements.

* `Links N` — the two pointer fields of every node; `none` is the null pointer.
* `Seg m a xs b` — from `a` the links lead through `xs` to `b`, both ways.
* `Circle m h xs` — the ring of head `h` holds exactly `xs`, each once.

`Circle.addTail`, `Circle.delete` and their frame versions say what the primitives
do to every ring of the memory, so that a client never follows a pointer itself.
-/

namespace IntrusiveList

/-- The pointer fields of the nodes. -/
structure Links (N : Type*) where
  /-- The successor. -/
  next : N → Option N
  /-- The predecessor. -/
  prev : N → Option N

namespace Links

variable {N : Type*} [DecidableEq N]

/-- Store `v` in the `next` field of the node `a` points to. A store through the
null pointer is undefined in C; here it is lost. -/
def setNext (m : Links N) (a v : Option N) : Links N :=
  match a with
  | none => m
  | some a => { m with next := Function.update m.next a v }

/-- Store `v` in the `prev` field of the node `a` points to. -/
def setPrev (m : Links N) (a v : Option N) : Links N :=
  match a with
  | none => m
  | some a => { m with prev := Function.update m.prev a v }

/-- Link a node to itself. -/
def init (m : Links N) (n : N) : Links N :=
  (m.setNext (some n) (some n)).setPrev (some n) (some n)

/-- Put `new` between `prev` and `next`: four stores, in this order. -/
def insert (m : Links N) (new : N) (prev next : Option N) : Links N :=
  (((m.setPrev next (some new)).setNext (some new) next).setPrev (some new) prev).setNext prev
    (some new)

/-- Put `new` before the head, that is, at the tail of its ring. -/
def addTail (m : Links N) (new head : N) : Links N :=
  m.insert new (m.prev head) (some head)

/-- Take `e` out of whatever ring it is in and null its fields. -/
def delete (m : Links N) (e : N) : Links N :=
  (((m.setPrev (m.next e) (m.prev e)).setNext (m.prev e) (m.next e)).setNext (some e) none).setPrev
    (some e) none

/-- The ring of `head` has no element. -/
def isEmpty (m : Links N) (head : N) : Bool := decide (m.next head = some head)

@[simp] theorem setNext_none (m : Links N) (v : Option N) : m.setNext none v = m := rfl

@[simp] theorem setPrev_none (m : Links N) (v : Option N) : m.setPrev none v = m := rfl

@[simp] theorem setNext_next (m : Links N) (a : N) (v : Option N) (x : N) :
    (m.setNext (some a) v).next x = if x = a then v else m.next x := by
  simp [setNext, Function.update_apply]

@[simp] theorem setNext_prev (m : Links N) (a v : Option N) : (m.setNext a v).prev = m.prev := by
  cases a <;> rfl

@[simp] theorem setPrev_prev (m : Links N) (a : N) (v : Option N) (x : N) :
    (m.setPrev (some a) v).prev x = if x = a then v else m.prev x := by
  simp [setPrev, Function.update_apply]

@[simp] theorem setPrev_next (m : Links N) (a v : Option N) : (m.setPrev a v).next = m.next := by
  cases a <;> rfl

theorem insert_next (m : Links N) (new p q x : N) :
    (m.insert new (some p) (some q)).next x =
      if x = p then some new else if x = new then some q else m.next x := by
  simp [insert]

theorem insert_prev (m : Links N) (new p q x : N) :
    (m.insert new (some p) (some q)).prev x =
      if x = new then some p else if x = q then some new else m.prev x := by
  simp [insert]

theorem delete_next (m : Links N) {e p q : N} (hp : m.prev e = some p) (hq : m.next e = some q)
    (x : N) :
    (m.delete e).next x = if x = e then none else if x = p then some q else m.next x := by
  simp [delete, hp, hq]

theorem delete_prev (m : Links N) {e p q : N} (hp : m.prev e = some p) (hq : m.next e = some q)
    (x : N) :
    (m.delete e).prev x = if x = e then none else if x = q then some p else m.prev x := by
  simp [delete, hp, hq]

/-- A deleted node is null, whatever it was linked to. -/
@[simp] theorem delete_next_self (m : Links N) (e : N) : (m.delete e).next e = none := by
  simp [delete]

end Links

open Links

variable {N : Type*}

/-- From `a` the links lead through `xs` to `b`, and back. -/
def Seg (m : Links N) : N → List N → N → Prop
  | a, [], b => m.next a = some b ∧ m.prev b = some a
  | a, x :: xs, b => m.next a = some x ∧ m.prev x = some a ∧ Seg m x xs b

/-- The ring of head `h` holds exactly `xs`, each node once. -/
structure Circle (m : Links N) (h : N) (xs : List N) : Prop where
  /-- The links lead from the head through `xs` back to the head. -/
  seg : Seg m h xs h
  /-- No node occurs twice. -/
  nodup : (h :: xs).Nodup

/-- The last node of a path that starts at `a`. -/
def lastNode : N → List N → N
  | a, [] => a
  | _, x :: xs => lastNode x xs

@[simp] theorem lastNode_nil (a : N) : lastNode a [] = a := rfl

@[simp] theorem lastNode_cons (a x : N) (xs : List N) : lastNode a (x :: xs) = lastNode x xs := rfl

theorem lastNode_mem (a : N) (xs : List N) : lastNode a xs ∈ a :: xs := by
  induction xs generalizing a with
  | nil => simp
  | cons x xs ih => rw [lastNode_cons]; exact List.mem_cons_of_mem _ (ih x)

theorem Seg.prev_end {m : Links N} {a b : N} {xs : List N} (h : Seg m a xs b) :
    m.prev b = some (lastNode a xs) := by
  induction xs generalizing a with
  | nil => exact h.2
  | cons x xs ih => rw [lastNode_cons]; exact ih h.2.2

theorem Seg.next_start {m : Links N} {a b : N} {xs : List N} (h : Seg m a xs b) :
    m.next a = some (xs.headD b) := by
  cases xs with
  | nil => exact h.1
  | cons x xs => exact h.1

theorem Seg.append {m : Links N} {a e b : N} {xs ys : List N} :
    Seg m a (xs ++ e :: ys) b ↔ Seg m a xs e ∧ Seg m e ys b := by
  induction xs generalizing a with
  | nil => simp [Seg, and_assoc]
  | cons x xs ih => simp [Seg, ih, and_assoc]

/-- A path depends only on the fields it uses. -/
theorem Seg.congr {m m' : Links N} {a b : N} {xs : List N} (h : Seg m a xs b)
    (hn : ∀ x ∈ a :: xs, m'.next x = m.next x)
    (hp : ∀ x, x = b ∨ x ∈ xs → m'.prev x = m.prev x) : Seg m' a xs b := by
  induction xs generalizing a with
  | nil => exact ⟨by rw [hn a (by simp)]; exact h.1, by rw [hp b (by simp)]; exact h.2⟩
  | cons x xs ih =>
    refine ⟨by rw [hn a (by simp)]; exact h.1, by rw [hp x (by simp)]; exact h.2.1, ih h.2.2 ?_ ?_⟩
    · exact fun y hy => hn y (List.mem_cons_of_mem _ hy)
    · rintro y (rfl | hy)
      · exact hp y (.inl rfl)
      · exact hp y (.inr (List.mem_cons_of_mem _ hy))

/-- Redirecting the last link of a path to a new node `n`, and `n` to the old end. -/
theorem Seg.snoc {m m' : Links N} {a b n : N} {xs : List N} (h : Seg m a xs b)
    (hd : (a :: xs).Nodup) (hn : n ∉ a :: xs) (hb : b ∉ xs)
    (hnext : ∀ x, x ≠ lastNode a xs → x ≠ n → m'.next x = m.next x)
    (hprev : ∀ x, x ≠ b → x ≠ n → m'.prev x = m.prev x)
    (h₁ : m'.next (lastNode a xs) = some n) (h₂ : m'.prev n = some (lastNode a xs))
    (h₃ : m'.next n = some b) (h₄ : m'.prev b = some n) : Seg m' a (xs ++ [n]) b := by
  induction xs generalizing a with
  | nil => exact ⟨h₁, h₂, h₃, h₄⟩
  | cons x xs ih =>
    simp only [lastNode_cons] at *
    have hax : a ≠ lastNode x xs := by
      rintro rfl
      exact (List.nodup_cons.mp hd).1 (lastNode_mem x xs)
    refine ⟨?_, ?_, ih h.2.2 (List.nodup_cons.mp hd).2 (by simp_all) (by simp_all) hnext h₁ h₂⟩
    · rw [hnext a hax (by rintro rfl; simp at hn)]; exact h.1
    · rw [hprev x (by rintro rfl; simp at hb) (by rintro rfl; simp at hn)]; exact h.2.1

/-- Redirecting the two links around `e` to one another. -/
theorem Seg.bypass {m m' : Links N} {a e b : N} {xs ys : List N} (h₁ : Seg m a xs e)
    (h₂ : Seg m e ys b) (hd : (a :: (xs ++ ys)).Nodup) (hb : b ∉ xs ++ ys)
    (he : e ∉ a :: (xs ++ ys)) (heb : e ≠ b)
    (hnext : ∀ x, x ≠ lastNode a xs → x ≠ e → m'.next x = m.next x)
    (hprev : ∀ x, x ≠ ys.headD b → x ≠ e → m'.prev x = m.prev x)
    (h₃ : m'.next (lastNode a xs) = some (ys.headD b))
    (h₄ : m'.prev (ys.headD b) = some (lastNode a xs)) : Seg m' a (xs ++ ys) b := by
  induction xs generalizing a with
  | nil =>
    cases ys with
    | nil => exact ⟨h₃, h₄⟩
    | cons y ys =>
      simp only [List.nil_append, List.headD_cons, lastNode_nil] at *
      refine ⟨h₃, h₄, h₂.2.2.congr ?_ ?_⟩
      · intro x hx
        exact hnext x (by rintro rfl; simp_all) (by rintro rfl; simp_all)
      · intro x hx
        refine hprev x ?_ ?_
        · rintro rfl
          rcases hx with rfl | hx <;> simp_all
        · rintro rfl
          rcases hx with rfl | hx <;> simp_all
  | cons x xs ih =>
    simp only [lastNode_cons] at *
    have hax : a ≠ lastNode x xs := by
      rintro rfl
      have := lastNode_mem x xs
      simp only [List.cons_append, List.nodup_cons, List.mem_cons, List.mem_append] at hd this
      tauto
    have hxq : x ≠ ys.headD b := by
      cases ys with
      | nil => rintro rfl; simp at hb
      | cons y ys => rintro rfl; simp at hd
    refine ⟨?_, ?_, ih h₁.2.2 (List.nodup_cons.mp hd).2 (by simp_all) (by simp_all) hnext h₃ h₄⟩
    · rw [hnext a hax (by rintro rfl; simp at he)]; exact h₁.1
    · rw [hprev x hxq (by rintro rfl; simp at he)]; exact h₁.2.1

namespace Circle

variable {m : Links N} {h : N} {xs : List N}

theorem next_head (c : Circle m h xs) : m.next h = some (xs.headD h) := c.seg.next_start

theorem prev_head (c : Circle m h xs) : m.prev h = some (lastNode h xs) := c.seg.prev_end

/-- The pointers of an element are to its neighbours. -/
theorem neighbours {ys zs : List N} {e : N} (c : Circle m h (ys ++ e :: zs)) :
    m.prev e = some (lastNode h ys) ∧ m.next e = some (zs.headD h) :=
  ⟨(Seg.append.mp c.seg).1.prev_end, (Seg.append.mp c.seg).2.next_start⟩

variable [DecidableEq N]

theorem init (m : Links N) (h : N) : Circle (m.init h) h [] :=
  ⟨by simp [Seg, Links.init], by simp⟩

theorem isEmpty_iff (c : Circle m h xs) : m.isEmpty h = true ↔ xs = [] := by
  rw [Links.isEmpty, decide_eq_true_iff, c.seg.next_start]
  cases xs with
  | nil => simp
  | cons x xs =>
    have := c.nodup
    simp only [List.headD_cons, Option.some.injEq, reduceCtorEq, iff_false]
    rintro rfl
    simp at this

/-- The node added at the tail is the last element. -/
theorem addTail (c : Circle m h xs) {n : N} (hn : n ∉ h :: xs) :
    Circle (m.addTail n h) h (xs ++ [n]) := by
  have hp := c.prev_head
  have hl := lastNode_mem h xs
  have hln : lastNode h xs ≠ n := by rintro rfl; exact hn hl
  have hhn : h ≠ n := by rintro rfl; simp at hn
  constructor
  · refine c.seg.snoc c.nodup hn (List.nodup_cons.mp c.nodup).1 ?_ ?_ ?_ ?_ ?_ ?_ <;>
      simp only [Links.addTail, hp, insert_next, insert_prev]
    · intro x h₁ h₂; simp [h₁, h₂]
    · intro x h₁ h₂; simp [h₁, h₂]
    · simp
    · simp
    · simp [hln.symm]
    · simp [hhn]
  · have := c.nodup
    simp only [List.nodup_cons, List.nodup_append, List.mem_cons, not_or] at this hn ⊢
    refine ⟨?_, this.2, by simp, ?_⟩
    · simp only [List.mem_append, List.mem_cons, List.not_mem_nil, or_false, not_or]
      exact ⟨this.1, hhn⟩
    · rintro x hx y hy rfl
      simp only [List.not_mem_nil, or_false] at hy
      exact hn.2 (hy ▸ hx)

/-- Adding at the tail of one ring does not touch another. -/
theorem addTail_frame (c : Circle m h xs) {h' n : N} {ys : List N} (c' : Circle m h' ys)
    (hn : n ∉ h :: xs) (hdis : ∀ x ∈ h' :: ys, x ∉ h :: xs) :
    Circle (m.addTail n h') h xs := by
  have hp := c'.prev_head
  have hl := hdis _ (lastNode_mem h' ys)
  have hh := hdis h' (by simp)
  refine ⟨c.seg.congr ?_ ?_, c.nodup⟩
  · intro x hx
    rw [Links.addTail, hp, insert_next, if_neg (by rintro rfl; exact hl hx),
      if_neg (by rintro rfl; exact hn hx)]
  · intro x hx
    have hx : x ∈ h :: xs := by simpa using hx
    rw [Links.addTail, hp, insert_prev, if_neg (by rintro rfl; exact hn hx),
      if_neg (by rintro rfl; exact hh hx)]

/-- Deleting an element leaves the others in their order. -/
theorem delete {ys zs : List N} {e : N} (c : Circle m h (ys ++ e :: zs)) :
    Circle (m.delete e) h (ys ++ zs) := by
  obtain ⟨hp, hq⟩ := c.neighbours
  obtain ⟨s₁, s₂⟩ := Seg.append.mp c.seg
  have hperm : (h :: (ys ++ e :: zs)).Perm (e :: h :: (ys ++ zs)) :=
    ((List.perm_middle).cons h).trans (List.Perm.swap e h _)
  have hnd := List.nodup_cons.mp (hperm.nodup_iff.mp c.nodup)
  have hhe : h ≠ e := by rintro rfl; exact hnd.1 (by simp)
  have hle : lastNode h ys ≠ e := by
    rintro h'
    have := lastNode_mem h ys
    rw [h'] at this
    refine hnd.1 ?_
    rcases List.mem_cons.mp this with rfl | this
    · simp
    · simp [this]
  have hqe : zs.headD h ≠ e := by
    cases zs with
    | nil => exact hhe
    | cons z zs => rintro rfl; exact hnd.1 (by simp)
  refine ⟨s₁.bypass s₂ hnd.2 (List.nodup_cons.mp hnd.2).1 hnd.1 hhe.symm ?_ ?_ ?_ ?_, hnd.2⟩
  · intro x h₁ h₂; rw [delete_next m hp hq, if_neg h₂, if_neg h₁]
  · intro x h₁ h₂; rw [delete_prev m hp hq, if_neg h₂, if_neg h₁]
  · rw [delete_next m hp hq, if_neg hle, if_pos rfl]
  · rw [delete_prev m hp hq, if_neg hqe, if_pos rfl]

/-- Deleting an element of one ring does not touch another. -/
theorem delete_frame (c : Circle m h xs) {h' e : N} {ys zs : List N}
    (c' : Circle m h' (ys ++ e :: zs)) (hdis : ∀ x ∈ h' :: (ys ++ e :: zs), x ∉ h :: xs) :
    Circle (m.delete e) h xs := by
  obtain ⟨hp, hq⟩ := c'.neighbours
  have he := hdis e (by simp)
  have hl : lastNode h' ys ∉ h :: xs := by
    refine hdis _ ?_
    rcases List.mem_cons.mp (lastNode_mem h' ys) with h | h
    · rw [h]; simp
    · simp [h]
  have hf : zs.headD h' ∉ h :: xs := by
    cases zs with
    | nil => exact hdis h' (by simp)
    | cons z zs => exact hdis z (by simp)
  refine ⟨c.seg.congr ?_ ?_, c.nodup⟩
  · intro x hx
    rw [delete_next m hp hq, if_neg (by rintro rfl; exact he hx),
      if_neg (by rintro rfl; exact hl hx)]
  · intro x hx
    have hx : x ∈ h :: xs := by simpa using hx
    rw [delete_prev m hp hq, if_neg (by rintro rfl; exact he hx),
      if_neg (by rintro rfl; exact hf hx)]

/-- Deleting a node that is linked to itself touches no ring it is not in. -/
theorem delete_self (c : Circle m h xs) {e : N} (hn : m.next e = some e) (hp : m.prev e = some e)
    (he : e ∉ h :: xs) : Circle (m.delete e) h xs := by
  refine ⟨c.seg.congr ?_ ?_, c.nodup⟩
  · intro x hx
    have hxe : x ≠ e := by rintro rfl; exact he hx
    rw [delete_next m hp hn, if_neg hxe, if_neg hxe]
  · intro x hx
    have hxe : x ≠ e := by rintro rfl; exact he (by simpa using hx)
    rw [delete_prev m hp hn, if_neg hxe, if_neg hxe]

/-- Initialising a node touches no ring it is not in. -/
theorem init_frame (c : Circle m h xs) {n : N} (hn : n ∉ h :: xs) : Circle (m.init n) h xs := by
  refine ⟨c.seg.congr ?_ ?_, c.nodup⟩
  · intro x hx
    have : x ≠ n := by rintro rfl; exact hn hx
    simp [Links.init, this]
  · intro x hx
    have : x ≠ n := by rintro rfl; exact hn (by simpa using hx)
    simp [Links.init, this]

end Circle

end IntrusiveList
