import Mathlib.Data.List.Perm.Basic
import Mathlib.Data.List.Nodup
import Mathlib.Order.Lattice

/-!
# Queues kept in order by insertion

A queue whose elements carry a key, highest key first, elements of equal key in
the order they came. An element is inserted before the first one that it beats.
-/

namespace OrderedQueue

variable {α P : Type*}

/-- Insert `a` before the first element that satisfies `p`, else at the end. -/
def insertBefore (p : α → Bool) (a : α) : List α → List α
  | [] => [a]
  | b :: l => if p b then a :: b :: l else b :: insertBefore p a l

theorem insertBefore_perm (p : α → Bool) (a : α) (l : List α) :
    (insertBefore p a l).Perm (a :: l) := by
  induction l with
  | nil => exact List.Perm.refl _
  | cons b l ih =>
    rw [insertBefore]
    split
    · exact List.Perm.refl _
    · exact (ih.cons b).trans (List.Perm.swap a b l)

@[simp] theorem mem_insertBefore {p : α → Bool} {a b : α} {l : List α} :
    b ∈ insertBefore p a l ↔ b = a ∨ b ∈ l := by
  rw [(insertBefore_perm p a l).mem_iff, List.mem_cons]

theorem nodup_insertBefore {p : α → Bool} {a : α} {l : List α} :
    (insertBefore p a l).Nodup ↔ a ∉ l ∧ l.Nodup := by
  rw [(insertBefore_perm p a l).nodup_iff, List.nodup_cons]

/-- The place of insertion is that of the first element that satisfies `p`. -/
theorem insertBefore_eq (p : α → Bool) (a : α) (l : List α) :
    insertBefore p a l = l.take (l.findIdx p) ++ a :: l.drop (l.findIdx p) := by
  induction l with
  | nil => rfl
  | cons b l ih =>
    rw [insertBefore, List.findIdx_cons]
    cases p b with
    | true => rfl
    | false => simp [ih]

/-- Only what the test says of the elements of the list matters. -/
theorem insertBefore_congr {p q : α → Bool} {a : α} {l : List α} (h : ∀ b ∈ l, p b = q b) :
    insertBefore p a l = insertBefore q a l := by
  induction l with
  | nil => rfl
  | cons b l ih =>
    rw [insertBefore, insertBefore, h b (List.mem_cons_self ..), ih fun c hc => h c (List.mem_cons_of_mem _ hc)]

/-- A part of a list without duplicates is what its own elements make of the list. -/
theorem sublist_eq_filter {p : α → Bool} {l l' : List α} (hs : l'.Sublist l) (hn : l.Nodup)
    (h : ∀ a ∈ l, a ∈ l' ↔ p a = true) : l' = l.filter p := by
  have hp : ∀ a ∈ l', p a = true := fun a ha => (h a (hs.subset ha)).mp ha
  have hsub : l'.Sublist (l.filter p) := by
    rw [← List.filter_eq_self.mpr hp]
    exact hs.filter p
  have hperm : l'.Perm (l.filter p) := by
    refine (List.perm_ext_iff_of_nodup (hn.sublist hs) (hn.filter p)).mpr fun a => ⟨fun ha => hsub.subset ha, fun ha => ?_⟩
    obtain ⟨ha, hpa⟩ := List.mem_filter.mp ha
    exact (h a ha).mpr hpa
  exact hsub.eq_of_length hperm.length_eq

section Key

variable [LinearOrder P] (key : α → P)

/-- Insert by key, behind the elements of equal or higher key. -/
def insertByKey (a : α) (l : List α) : List α :=
  insertBefore (fun b => decide (key b < key a)) a l

/-- Highest key first. -/
def Ordered (l : List α) : Prop := l.Pairwise fun a b => key b ≤ key a

variable {key}

theorem insertByKey_cons (a b : α) (l : List α) :
    OrderedQueue.insertByKey key a (b :: l) =
      if key b < key a then a :: b :: l else b :: OrderedQueue.insertByKey key a l := by
  simp [OrderedQueue.insertByKey, insertBefore]

@[simp] theorem ordered_nil : Ordered key [] := List.Pairwise.nil

theorem Ordered.insertByKey {a : α} {l : List α} (h : Ordered key l) :
    Ordered key (insertByKey key a l) := by
  induction l with
  | nil => exact List.pairwise_singleton _ _
  | cons b l ih =>
    unfold Ordered at h ih
    rw [List.pairwise_cons] at h
    rw [OrderedQueue.insertByKey, insertBefore]
    split
    · rename_i hlt
      have hlt : key b < key a := by simpa using hlt
      refine List.pairwise_cons.mpr ⟨?_, List.pairwise_cons.mpr h⟩
      rintro c (_ | ⟨_, hc⟩)
      · exact hlt.le
      · exact (h.1 c hc).trans hlt.le
    · rename_i hlt
      have hlt : key a ≤ key b := by simpa using hlt
      refine List.pairwise_cons.mpr ⟨?_, ih h.2⟩
      intro c hc
      rcases mem_insertBefore.mp hc with rfl | hc
      · exact hlt
      · exact h.1 c hc

/-- In a queue in order, an element is inserted behind those of equal or higher key and before
the others. -/
theorem Ordered.insertByKey_eq {a : α} {l : List α} (h : Ordered key l) :
    OrderedQueue.insertByKey key a l =
      l.filter (fun b => decide (key a ≤ key b)) ++ a :: l.filter (fun b => decide (key b < key a)) := by
  induction l with
  | nil => rfl
  | cons b l ih =>
    unfold Ordered at h ih
    rw [List.pairwise_cons] at h
    rw [OrderedQueue.insertByKey, insertBefore]
    by_cases hb : key b < key a
    · -- all that follow are lower, too
      have hlt : ∀ c ∈ l, key c < key a := fun c hc => (h.1 c hc).trans_lt hb
      have hno : l.filter (fun c => decide (key a ≤ key c)) = [] :=
        List.filter_eq_nil_iff.mpr fun c hc => by simpa using hlt c hc
      have hall : l.filter (fun c => decide (key c < key a)) = l :=
        List.filter_eq_self.mpr fun c hc => by simpa using hlt c hc
      simp [hb, hb.not_ge, hno, hall]
    · have ih := ih h.2
      rw [OrderedQueue.insertByKey] at ih
      simp [hb, not_lt.mp hb, ih]

/-- Insertion puts an element behind its equals and leaves the others in their order. -/
theorem Ordered.filter_insertByKey {a : α} {l : List α} (h : Ordered key l) (k : P) :
    (OrderedQueue.insertByKey key a l).filter (fun b => decide (key b = k)) =
      l.filter (fun b => decide (key b = k)) ++ if key a = k then [a] else [] := by
  induction l with
  | nil => by_cases hk : key a = k <;> simp [OrderedQueue.insertByKey, insertBefore, hk]
  | cons b l ih =>
    unfold Ordered at h ih
    rw [List.pairwise_cons] at h
    rw [OrderedQueue.insertByKey, insertBefore]
    by_cases hb : key b < key a
    · -- the element goes to the front, where no equal follows
      by_cases hk : key a = k
      · have hno : ∀ c ∈ b :: l, ¬ key c = k := by
          intro c hc
          rcases List.mem_cons.mp hc with rfl | hc
          · exact (hk ▸ hb).ne
          · exact (hk ▸ (h.1 c hc).trans_lt hb).ne
        have hnil : (b :: l).filter (fun c => decide (key c = k)) = [] :=
          List.filter_eq_nil_iff.mpr fun c hc => by simpa using hno c hc
        rw [if_pos (by simpa using hb), List.filter_cons_of_pos (by simpa using hk), hnil, if_pos hk]
        rfl
      · rw [if_pos (by simpa using hb), List.filter_cons_of_neg (by simpa using hk), if_neg hk,
          List.append_nil]
    · have ih := ih h.2
      rw [OrderedQueue.insertByKey] at ih
      rw [if_neg (by simpa using hb), List.filter_cons, List.filter_cons, ih]
      split <;> rfl

theorem Ordered.sublist {l l' : List α} (h : Ordered key l) (hs : l'.Sublist l) : Ordered key l' :=
  List.Pairwise.sublist hs h

theorem Ordered.erase [DecidableEq α] {l : List α} (h : Ordered key l) (a : α) :
    Ordered key (l.erase a) :=
  h.sublist List.erase_sublist

/-- The order depends only on the keys of the elements. -/
theorem Ordered.congr {key' : α → P} {l : List α} (h : Ordered key l)
    (hk : ∀ a ∈ l, key' a = key a) : Ordered key' l := by
  refine List.Pairwise.imp_of_mem ?_ h
  intro a b ha hb hab
  rwa [hk a ha, hk b hb]

/-- The first element has the highest key. -/
theorem Ordered.le_head {a b : α} {l : List α} (h : Ordered key (a :: l)) (hb : b ∈ a :: l) :
    key b ≤ key a := by
  rcases List.mem_cons.mp hb with rfl | hb
  · exact le_rfl
  · exact (List.pairwise_cons.mp h).1 b hb

end Key

end OrderedQueue
