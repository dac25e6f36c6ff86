import Aixos.Library.Transition
import Mathlib.Data.List.Rotate
import Mathlib.Data.Nat.ModEq
import Mathlib.Logic.Function.Iterate

/-!
# Taking turns

Some takers of turns stand in an order. Each tick falls to the first of them; when its slice is used up it is given a
new one, of `N` ticks, and goes behind the others.

* `RoundRobin.tick` — one tick.
* `RoundRobin.served` — whom the ticks fall to; `served_eq` says it in closed form: first what was left of everyone's
  slice, then `N` ticks for each, over and over.
-/

/-- Takers of turns, in the order of their turns, with the ticks that are left of the slice of each. -/
structure RoundRobin (α : Type*) where
  order : List α
  left : α → ℕ

namespace RoundRobin

variable {α : Type*} [DecidableEq α]

/-- A tick falls to the first. -/
def tick (N : ℕ) (R : RoundRobin α) : RoundRobin α :=
  match R.order with
  | [] => R
  | t :: ts =>
    if R.left t ≤ 1 then { order := ts ++ [t], left := Function.update R.left t N }
    else { R with left := Function.update R.left t (R.left t - 1) }

/-- Accept that a tick falls to `x`. -/
def next (N : ℕ) (R : RoundRobin α) (x : Option α) : Option (RoundRobin α) :=
  if x = R.order.head? then some (R.tick N) else none

/-- Whom each of some ticks falls to. -/
def served (N : ℕ) : ℕ → RoundRobin α → List (Option α)
  | 0, _ => []
  | n + 1, R => R.order.head? :: served N n (R.tick N)

variable {N n : ℕ} {R : RoundRobin α} {t : α} {ts : List α}

theorem length_served (N n : ℕ) (R : RoundRobin α) : (served N n R).length = n := by
  induction n generalizing R with
  | zero => rfl
  | succ n ih => rw [served, List.length_cons, ih]

theorem served_add (N m n : ℕ) (R : RoundRobin α) :
    served N (m + n) R = served N m R ++ served N n ((tick N)^[m] R) := by
  induction m generalizing R with
  | zero => rw [Nat.zero_add]; rfl
  | succ m ih => rw [Nat.succ_add, served, served, ih, Function.iterate_succ_apply, List.cons_append]

theorem served_take (N m n : ℕ) (R : RoundRobin α) : (served N (m + n) R).take m = served N m R := by
  rw [served_add, List.take_left' (length_served N m R)]

/-- Ticks are accepted if they fall to whom they should. -/
theorem eq_served_of_run {R' : RoundRobin α} {xs : List (Option α)} (h : Transition.run (next N) R xs = some R') :
    xs = served N xs.length R := by
  induction xs generalizing R with
  | nil => rfl
  | cons x xs ih =>
    rw [Transition.run, next] at h
    split at h
    · rename_i hx
      rw [List.length_cons, served, ← hx]
      exact congrArg _ (ih h)
    · cases h

/-- **One turn** lasts for what is left of the slice. -/
theorem turn (ho : R.order = t :: ts) {k : ℕ} (hk : R.left t = k + 1) :
    served N (k + 1) R = List.replicate (k + 1) (some t) ∧
      (tick N)^[k + 1] R = { order := ts ++ [t], left := Function.update R.left t N } := by
  induction k generalizing R with
  | zero =>
    have htick : R.tick N = { order := ts ++ [t], left := Function.update R.left t N } := by
      simp [tick, ho, hk]
    constructor
    · simp [served, ho]
    · exact htick
  | succ k ih =>
    have htick : R.tick N = { R with left := Function.update R.left t (k + 1) } := by
      simp [tick, ho, hk]
    obtain ⟨h₁, h₂⟩ := ih (R := R.tick N) (by rw [htick, ho]) (by simp [htick])
    constructor
    · rw [served, h₁, ho]
      rfl
    · rw [Function.iterate_succ_apply, h₂, htick, Function.update_idem]

/-- Some turns, one after the other. -/
theorem turns {xs ys : List α} (ho : R.order = xs ++ ys) (hn : xs.Nodup) (hl : ∀ t ∈ xs, 0 < R.left t) :
    served N (xs.map R.left).sum R = xs.flatMap (fun t => List.replicate (R.left t) (some t)) ∧
      (tick N)^[(xs.map R.left).sum] R = { order := ys ++ xs, left := fun t => if t ∈ xs then N else R.left t } := by
  induction xs generalizing R ys with
  | nil =>
    refine ⟨rfl, ?_⟩
    simp only [List.nil_append] at ho
    simp [← ho]
  | cons t xs ih =>
    rw [List.nodup_cons] at hn
    obtain ⟨k, hk⟩ := Nat.exists_eq_add_one_of_ne_zero (hl t (List.mem_cons_self ..)).ne'
    obtain ⟨h₁, h₂⟩ := turn (N := N) (show R.order = t :: (xs ++ ys) from ho) hk
    have hleft : ∀ u ∈ xs, Function.update R.left t N u = R.left u := by
      intro u hu
      refine Function.update_of_ne ?_ ..
      rintro rfl
      exact hn.1 hu
    have ho₁ : ((tick N)^[k + 1] R).order = xs ++ (ys ++ [t]) := by
      rw [h₂]
      exact List.append_assoc ..
    have hl₁ : ∀ u ∈ xs, 0 < ((tick N)^[k + 1] R).left u := by
      intro u hu
      rw [h₂]
      dsimp only
      rw [hleft u hu]
      exact hl u (List.mem_cons_of_mem _ hu)
    obtain ⟨h₃, h₄⟩ := ih ho₁ hn.2 hl₁
    have hsum : xs.map ((tick N)^[k + 1] R).left = xs.map R.left := by
      rw [h₂]
      exact List.map_congr_left hleft
    rw [hsum] at h₃ h₄
    rw [List.map_cons, List.sum_cons, hk]
    constructor
    · rw [served_add, h₁, h₃, List.flatMap_cons, hk, h₂]
      congr 1
      exact List.flatMap_congr fun u hu => congrArg (List.replicate · (some u)) (hleft u hu)
    · rw [Nat.add_comm, Function.iterate_add_apply, h₄, h₂]
      congr 1
      · simp
      · funext u
        dsimp only
        rw [Function.update_apply]
        by_cases hut : u = t
        · simp [hut]
        · simp [hut]

/-- **The rounds**: once everyone has a whole slice, each turn lasts for `N` ticks. -/
theorem served_rounds (hN : 0 < N) (hl : ∀ t ∈ R.order, R.left t = N) (n : ℕ) :
    served N n R = (List.range n).map fun j => R.order[j / N % R.order.length]? := by
  induction n using Nat.strong_induction_on generalizing R with
  | _ n ih =>
  cases ho : R.order with
  | nil =>
    have htick : R.tick N = R := by simp [tick, ho]
    cases n with
    | zero => rfl
    | succ n =>
      rw [served, htick, ih n (Nat.lt_succ_self n) hl, ho, List.range_succ, List.map_append]
      simp [List.map_const', ← List.replicate_succ']
      rfl
  | cons t ts =>
    obtain ⟨k, rfl⟩ := Nat.exists_eq_add_one_of_ne_zero hN.ne'
    obtain ⟨h₁, h₂⟩ := turn (N := k + 1) ho (hl t (ho ▸ List.mem_cons_self ..))
    by_cases hlt : n < k + 1
    · have hfirst : served (k + 1) n R = List.replicate n (some t) := by
        rw [← served_take (k + 1) n (k + 1 - n) R, Nat.add_sub_cancel' hlt.le, h₁, List.take_replicate,
          Nat.min_eq_left hlt.le]
      rw [hfirst]
      refine (List.eq_replicate_iff.mpr ⟨by simp, fun x hx => ?_⟩).symm
      obtain ⟨j, hj, rfl⟩ := List.mem_map.mp hx
      rw [Nat.div_eq_of_lt ((List.mem_range.mp hj).trans hlt)]
      simp
    · obtain ⟨m, rfl⟩ := Nat.exists_eq_add_of_le (Nat.not_lt.mp hlt)
      have hleft : ∀ u ∈ ts ++ [t], Function.update R.left t (k + 1) u = k + 1 := by
        intro u hu
        rw [Function.update_apply]
        split
        · rfl
        · rename_i hut
          refine hl u ?_
          rw [ho]
          exact List.mem_cons_of_mem _ ((List.mem_append.mp hu).resolve_right fun h => hut (List.mem_singleton.mp h))
      have hrest := ih m (by omega) (R := (tick (k + 1))^[k + 1] R) (by rw [h₂]; exact hleft)
      rw [served_add, h₁, hrest, h₂, List.range_add, List.map_append, List.map_map]
      congr 1
      · refine (List.eq_replicate_iff.mpr ⟨by simp, fun x hx => ?_⟩).symm
        obtain ⟨j, hj, rfl⟩ := List.mem_map.mp hx
        rw [Nat.div_eq_of_lt (List.mem_range.mp hj)]
        simp
      · refine List.map_congr_left fun j _ => ?_
        have hlen : (ts ++ [t]).length = (t :: ts).length := by simp
        have hrot : ts ++ [t] = (t :: ts).rotate 1 := by simp
        rw [Function.comp_apply, Nat.add_div_left j (Nat.succ_pos k), hlen, hrot,
          List.getElem?_rotate (Nat.mod_lt _ (by simp)), Nat.mod_add_mod]

/-- **Whom the ticks fall to.** -/
theorem served_eq (hN : 0 < N) (hn : R.order.Nodup) (hl : ∀ t ∈ R.order, 0 < R.left t) (n : ℕ) :
    served N n R = ((R.order.flatMap fun t => List.replicate (R.left t) (some t)) ++
      (List.range n).map fun j => R.order[j / N % R.order.length]?).take n := by
  obtain ⟨h₁, h₂⟩ := turns (N := N) (List.append_nil R.order).symm hn hl
  have h₃ := served_rounds (R := { order := R.order, left := fun t => if t ∈ R.order then N else R.left t }) hN
    (fun t ht => if_pos ht) n
  rw [← h₁, ← h₃, ← served_take N n (R.order.map R.left).sum R, Nat.add_comm, served_add, h₂]
  rfl

omit [DecidableEq α] in
/-- Nobody has two turns in a row, if there are others. -/
theorem turn_ne {T : List α} (hn : T.Nodup) (hT : 1 < T.length) (i : ℕ) :
    T[i % T.length]? ≠ T[(i + 1) % T.length]? := by
  have h₁ : i % T.length < T.length := Nat.mod_lt _ (Nat.zero_lt_of_lt hT)
  have h₂ : (i + 1) % T.length < T.length := Nat.mod_lt _ (Nat.zero_lt_of_lt hT)
  intro e
  rw [List.getElem?_eq_getElem h₁, List.getElem?_eq_getElem h₂, Option.some.injEq, hn.getElem_inj_iff] at e
  have hdvd : T.length ∣ i + 1 - i := (Nat.modEq_iff_dvd' (Nat.le_succ i)).mp e
  rw [Nat.add_sub_cancel_left, Nat.dvd_one] at hdvd
  omega

end RoundRobin
