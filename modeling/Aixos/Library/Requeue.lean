import Mathlib.Data.List.Nodup
import Mathlib.Tactic.Common

/-!
# Loops that put nodes back

A loop goes over a list from its first node on, and takes each node out or puts it back at the end. It reads which
node comes next before it does so: at the last node it stops, even if it puts that one back.

* `Requeue.visits` — the nodes that the loop visits, if it comes to an end in so many rounds.
* `Requeue.visits_nodup_iff` — it visits no node twice exactly if it puts back the last node at most.
* `Requeue.visits_eq_none` — with two nodes that it puts back, it does not come to an end.
-/

namespace Requeue

variable {α : Type*}

/-- The nodes that are visited, in at most so many rounds. -/
def visits (stays : α → Bool) : ℕ → List α → Option (List α)
  | _, [] => some []
  | 0, _ :: _ => none
  | n + 1, t :: ts =>
    (if ts = [] then some [] else visits stays n (if stays t then ts ++ [t] else ts)).map (t :: ·)

variable {stays : α → Bool} {n : ℕ} {t u : α} {ts us vs : List α}

theorem visits_nil (n : ℕ) : visits stays n [] = some [] := by
  cases n <;> rfl

theorem visits_single (n : ℕ) (t : α) : visits stays (n + 1) [t] = some [t] := rfl

/-- One round. -/
theorem visits_cons (h : ts ≠ []) : visits stays (n + 1) (t :: ts) =
    (visits stays n (if stays t then ts ++ [t] else ts)).map (t :: ·) := by
  rw [visits, if_neg h]

/-- Every node is visited. -/
theorem mem_of_visits (h : visits stays n ts = some vs) (ht : t ∈ ts) : t ∈ vs := by
  induction n generalizing ts vs with
  | zero =>
    cases ts with
    | nil => cases ht
    | cons u us => cases h
  | succ n ih =>
    cases ts with
    | nil => cases ht
    | cons u us =>
      by_cases hu : us = []
      · subst hu
        cases h
        exact ht
      · rw [visits_cons hu] at h
        obtain ⟨ws, hw, rfl⟩ := Option.map_eq_some_iff.mp h
        rcases List.mem_cons.mp ht with rfl | ht
        · exact List.mem_cons_self ..
        · refine List.mem_cons_of_mem _ (ih hw ?_)
          split
          · exact List.mem_append_left _ ht
          · exact ht

/-- **A node that is put back** and is not the last one is visited twice. -/
theorem not_nodup_visits (h : visits stays n (ts ++ t :: us) = some vs) (ht : stays t = true) (hu : us ≠ []) :
    ¬ vs.Nodup := by
  induction n generalizing ts us vs with
  | zero =>
    cases ts with
    | nil => cases h
    | cons => cases h
  | succ n ih =>
    cases ts with
    | nil =>
      rw [List.nil_append, visits_cons hu, if_pos ht] at h
      obtain ⟨ws, hw, rfl⟩ := Option.map_eq_some_iff.mp h
      exact fun hn => (List.nodup_cons.mp hn).1 (mem_of_visits hw (List.mem_append_right _ (List.mem_singleton_self t)))
    | cons w ts =>
      rw [List.cons_append, visits_cons (by simp)] at h
      obtain ⟨ws, hw, rfl⟩ := Option.map_eq_some_iff.mp h
      intro hn
      split at hw
      · rw [List.append_assoc, List.cons_append] at hw
        exact ih hw (by simp) (List.nodup_cons.mp hn).2
      · exact ih hw hu (List.nodup_cons.mp hn).2

/-- The loop visits every node once, if it puts back the last node at most. -/
theorem visits_of_dropLast (h : ∀ t ∈ ts.dropLast, stays t = false) (hn : ts.length ≤ n) :
    visits stays n ts = some ts := by
  induction ts generalizing n with
  | nil => exact visits_nil n
  | cons t ts ih =>
    obtain ⟨n, rfl⟩ := Nat.exists_eq_add_one_of_ne_zero (Nat.ne_of_gt (Nat.lt_of_lt_of_le (Nat.succ_pos _) hn))
    by_cases hts : ts = []
    · subst hts
      exact visits_single n t
    · rw [List.dropLast_cons_of_ne_nil hts] at h
      rw [visits_cons hts, h t (List.mem_cons_self ..), if_neg (by simp),
        ih (fun u hu => h u (List.mem_cons_of_mem _ hu)) (Nat.le_of_succ_le_succ hn), Option.map_some]

/-- **The loop visits no node twice** exactly if it puts back the last node at most. -/
theorem visits_nodup_iff (hd : ts.Nodup) :
    (∃ n vs, visits stays n ts = some vs ∧ vs.Nodup) ↔ ∀ t ∈ ts.dropLast, stays t = false := by
  constructor
  · rintro ⟨n, vs, hv, hn⟩ t ht
    by_contra hs
    have hne : ts ≠ [] := by
      rintro rfl
      cases ht
    obtain ⟨us, ws, e⟩ := List.append_of_mem ht
    rw [← List.dropLast_append_getLast hne, e, List.append_assoc, List.cons_append] at hv
    exact not_nodup_visits hv (by simpa using hs) (by simp) hn
  · exact fun h => ⟨ts.length, ts, visits_of_dropLast h (Nat.le_refl _), hd⟩

/-- **With two nodes that are put back** the loop does not come to an end. -/
theorem visits_eq_none (ht : t ∈ ts) (hu : u ∈ ts) (hne : t ≠ u) (hst : stays t = true) (hsu : stays u = true) (n : ℕ) :
    visits stays n ts = none := by
  induction n generalizing ts with
  | zero =>
    cases ts with
    | nil => cases ht
    | cons w ws => rfl
  | succ n ih =>
    cases ts with
    | nil => cases ht
    | cons w ws =>
      have hws : ws ≠ [] := by
        rintro rfl
        exact hne ((List.mem_singleton.mp ht).trans (List.mem_singleton.mp hu).symm)
      -- Whichever node comes first, both are still there.
      have hkeep : ∀ v, v ∈ w :: ws → stays v = true → v ∈ if stays w then ws ++ [w] else ws := by
        intro v hv hs
        rcases List.mem_cons.mp hv with rfl | hv
        · rw [if_pos hs]
          exact List.mem_append_right _ (List.mem_singleton_self v)
        · split
          · exact List.mem_append_left _ hv
          · exact hv
      rw [visits_cons hws, ih (hkeep t ht hst) (hkeep u hu hsu), Option.map_none]

end Requeue
