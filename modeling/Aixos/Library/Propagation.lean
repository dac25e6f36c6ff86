import Mathlib.Order.Bounds.Basic
import Mathlib.Data.Fintype.Pigeonhole
import Mathlib.Data.Finset.Image

/-!
# Propagating a maximum along a graph of waiters

Every node of a graph has a level, which should be the greatest of its own floor
and of the levels of the nodes that wait for it. A node waits for at most one
other. When a floor or an edge has changed somewhere, the levels are repaired by a
walk: recompute the node at hand, go on to the node it waits for, and so on. This
is how priority inheritance is propagated along a chain of owners.

## The model

* `IsLevel floor waits f t v` — `v` is the greatest of `floor t` and `f w` over the
  nodes `w` that wait for `t`; `Settled` says that `f t` is that value.
* `Walk floor waits next f x` — `x i` is the node visited at step `i`, `f i` the
  levels before that step. The walk follows `next`, which agrees with `waits` where
  there is an edge but may also lead on where the edge has just been removed.

## What is proved

The walk may never end, since nodes may wait for one another in a cycle.
`Walk.settled_of_stop` settles the walk that ends. On a cycle, a change that comes
back to where it started meets the value it brings (`Walk.exists_quiet`), so that
some step of the second round changes nothing, and from there on nothing does
(`Walk.settled_of_period`). `Walk.settled` bounds the number of steps needed when
every edge goes through one of finitely many labels.
-/

namespace Propagation

variable {T P : Type*} [LinearOrder P]

/-- `v` is the greatest of the floor of `t` and of the levels of those that wait for it. -/
def IsLevel (floor : T → P) (waits : T → T → Prop) (f : T → P) (t : T) (v : P) : Prop :=
  IsGreatest (insert (floor t) (f '' {w | waits w t})) v

/-- The level of `t` is what it should be. -/
def Settled (floor : T → P) (waits : T → T → Prop) (f : T → P) (t : T) : Prop :=
  IsLevel floor waits f t (f t)

section Level

variable {floor : T → P} {waits : T → T → Prop} {f f' : T → P} {t u : T} {v v' : P}

theorem IsLevel.floor_le (h : IsLevel floor waits f t v) : floor t ≤ v := h.2 (by simp)

theorem IsLevel.le (h : IsLevel floor waits f t v) {w : T} (hw : waits w t) : f w ≤ v :=
  h.2 (Set.mem_insert_of_mem _ ⟨w, hw, rfl⟩)

theorem IsLevel.eq_or (h : IsLevel floor waits f t v) : v = floor t ∨ ∃ w, waits w t ∧ v = f w := by
  rcases h.1 with h | ⟨w, hw, rfl⟩
  · exact .inl h
  · exact .inr ⟨w, hw, rfl⟩

theorem IsLevel.mk' (h₁ : floor t ≤ v) (h₂ : ∀ w, waits w t → f w ≤ v)
    (h₃ : v = floor t ∨ ∃ w, waits w t ∧ v = f w) : IsLevel floor waits f t v := by
  constructor
  · rcases h₃ with rfl | ⟨w, hw, rfl⟩
    · exact Set.mem_insert _ _
    · exact Set.mem_insert_of_mem _ ⟨w, hw, rfl⟩
  · rintro y (rfl | ⟨w, hw, rfl⟩)
    · exact h₁
    · exact h₂ w hw

/-- The level depends only on the levels of the waiters. -/
theorem IsLevel.congr (h : IsLevel floor waits f t v) (hf : ∀ w, waits w t → f' w = f w) :
    IsLevel floor waits f' t v := by
  refine .mk' h.floor_le (fun w hw => by rw [hf w hw]; exact h.le hw) ?_
  exact h.eq_or.imp_right fun ⟨w, hw, e⟩ => ⟨w, hw, by rw [hf w hw, e]⟩

/-- A level is unique. -/
theorem IsLevel.unique (h : IsLevel floor waits f t v) (h' : IsLevel floor waits f t v') : v = v' :=
  IsGreatest.unique h h'

/-- Being settled depends only on the node, its waiters and their levels. -/
theorem Settled.congr {floor' : T → P} {waits' : T → T → Prop} (h : Settled floor waits f t)
    (hfloor : floor' t = floor t) (hwaits : ∀ w, waits' w t ↔ waits w t) (ht : f' t = f t)
    (hf : ∀ w, waits w t → f' w = f w) : Settled floor' waits' f' t := by
  have e : {w | waits' w t} = {w | waits w t} := Set.ext hwaits
  unfold Settled IsLevel
  rw [hfloor, e, ht]
  exact IsLevel.congr h hf

/-- A level that changes because one node was raised is raised to that node's level. -/
theorem IsLevel.raise (h : IsLevel floor waits f t v) (h' : IsLevel floor waits f' t v')
    (hne : v ≠ v') (hu : f u ≤ f' u) (ho : ∀ y, y ≠ u → f' y = f y) : v < v' ∧ v' = f' u := by
  have hle : ∀ w, f w ≤ f' w := fun w => by
    by_cases hw : w = u
    · exact hw ▸ hu
    · exact (ho w hw).ge
  have hv : v ≤ v' := by
    rcases h.eq_or with rfl | ⟨w, hw, rfl⟩
    · exact h'.floor_le
    · exact (hle w).trans (h'.le hw)
  have hlt := lt_of_le_of_ne hv hne
  refine ⟨hlt, ?_⟩
  rcases h'.eq_or with e | ⟨w, hw, e⟩
  · exact absurd (e ▸ h.floor_le) hlt.not_ge
  · by_cases hwu : w = u
    · rw [e, hwu]
    · exact absurd (e ▸ ho w hwu ▸ h.le hw) hlt.not_ge

end Level

/-- A walk that recomputes the node at hand and goes on to the next. -/
structure Walk (floor : T → P) (waits : T → T → Prop) (next : T → Option T) (f : ℕ → T → P)
    (x : ℕ → Option T) : Prop where
  /-- A walk that has ended changes nothing. -/
  stop : ∀ i, x i = none → x (i + 1) = none ∧ f (i + 1) = f i
  /-- A step gives the node at hand its level and leaves the others alone. -/
  step : ∀ i t, x i = some t → x (i + 1) = next t ∧ IsLevel floor waits (f i) t (f (i + 1) t) ∧
    ∀ y, y ≠ t → f (i + 1) y = f i y
  /-- The walk follows the edges. -/
  edge : ∀ w t, waits w t → next w = some t
  /-- No node leads to itself. -/
  irrefl : ∀ t, next t ≠ some t

namespace Walk

variable {floor : T → P} {waits : T → T → Prop} {next : T → Option T} {f : ℕ → T → P}
  {x : ℕ → Option T}

theorem next_eq (W : Walk floor waits next f x) {i j : ℕ} (h : x i = x j) :
    x (i + 1) = x (j + 1) := by
  cases hi : x i with
  | none => rw [(W.stop i hi).1, (W.stop j (h ▸ hi)).1]
  | some t => rw [(W.step i t hi).1, (W.step j t (h ▸ hi)).1]

theorem none_of_le (W : Walk floor waits next f x) {i j : ℕ} (hi : x i = none) (hij : i ≤ j) :
    x j = none := by
  induction hij with
  | refl => exact hi
  | step _ ih => exact (W.stop _ ih).1

/-- A node not visited keeps its level. -/
theorem frame (W : Walk floor waits next f x) {y : T} {i j : ℕ} (hij : i ≤ j)
    (hy : ∀ l, i ≤ l → l < j → x l ≠ some y) : f j y = f i y := by
  induction hij with
  | refl => rfl
  | @step j hij ih =>
    rw [← ih fun l h₁ h₂ => hy l h₁ (h₂.trans (Nat.lt_succ_self j))]
    cases hj : x j with
    | none => rw [(W.stop j hj).2]
    | some t =>
      refine (W.step j t hj).2.2 y ?_
      rintro rfl
      exact hy j hij (Nat.lt_succ_self j) hj

/-- **All but the node at hand**: a node that the walk has visited, or never visits,
is settled, unless it is the one to be visited now. -/
theorem settled_off (W : Walk floor waits next f x)
    (h₀ : ∀ y, (∀ i, x i ≠ some y) → Settled floor waits (f 0) y) (n : ℕ) :
    ∀ y, x n ≠ some y → (∃ i, i < n ∧ x i = some y) ∨ (∀ i, x i ≠ some y) →
      Settled floor waits (f n) y := by
  induction n with
  | zero =>
    rintro y - (⟨i, hi, -⟩ | hy)
    · omega
    · exact h₀ y hy
  | succ n ih =>
    intro y hy hv
    cases hn : x n with
    | none =>
      rw [(W.stop n hn).2]
      refine ih y (by simp [hn]) (hv.imp_left ?_)
      rintro ⟨i, hi, e⟩
      refine ⟨i, ?_, e⟩
      by_contra hlt
      have : i = n := by omega
      simp [this, hn] at e
    | some t =>
      obtain ⟨hnext, hlevel, hother⟩ := W.step n t hn
      by_cases hyt : y = t
      · subst hyt
        -- the node just visited does not wait for itself
        refine hlevel.congr fun w hw => hother w ?_
        rintro rfl
        exact W.irrefl w (W.edge w w hw)
      · have hset : Settled floor waits (f n) y := by
          refine ih y (by simp [hn, Ne.symm hyt]) (hv.imp_left ?_)
          rintro ⟨i, hi, e⟩
          refine ⟨i, ?_, e⟩
          by_contra hlt
          have : i = n := by omega
          subst this
          rw [hn] at e
          exact hyt (Option.some.inj e).symm
        -- the node just visited waits for the one visited next, which is not `y`
        have hw : ∀ w, waits w y → f (n + 1) w = f n w := fun w hw => hother w <| by
          rintro rfl
          exact hy (hnext.trans (W.edge w y hw))
        unfold Settled
        rw [hother y hyt]
        exact IsLevel.congr hset hw

/-- **A walk that has ended** leaves every node settled. -/
theorem settled_of_stop (W : Walk floor waits next f x)
    (h₀ : ∀ y, (∀ i, x i ≠ some y) → Settled floor waits (f 0) y) {n : ℕ} (hn : x n = none) (y : T) :
    Settled floor waits (f n) y := by
  refine W.settled_off h₀ n y (by simp [hn]) ?_
  by_cases h : ∃ i, x i = some y
  · obtain ⟨i, hi⟩ := h
    refine .inl ⟨i, ?_, hi⟩
    by_contra hlt
    simp [W.none_of_le hn (not_lt.mp hlt)] at hi
  · exact .inr (not_exists.mp h)

section Period

variable (W : Walk floor waits next f x)
  (h₀ : ∀ y, (∀ i, x i ≠ some y) → Settled floor waits (f 0) y)
  {p k : ℕ} (hk : 0 < k) (hper : x (p + k) = x p)

include W hper in
theorem periodic (j : ℕ) : x (p + k + j) = x (p + j) := by
  induction j with
  | zero => exact hper
  | succ j ih => exact W.next_eq ih

include W hk hper in
/-- Whatever is visited is visited before the first round is over. -/
theorem visited_early (i : ℕ) : ∃ j, j < p + k ∧ x j = x i := by
  induction i using Nat.strong_induction_on with
  | _ i ih =>
    by_cases hi : i < p + k
    · exact ⟨i, hi, rfl⟩
    · obtain ⟨j, hj, e⟩ := ih (i - k) (by omega)
      refine ⟨j, hj, e.trans ?_⟩
      have := W.periodic hper (i - k - p)
      rw [show p + k + (i - k - p) = i by omega, show p + (i - k - p) = i - k by omega] at this
      exact this.symm

include W h₀ hk hper in
/-- After the first round only the node at hand can be unsettled. -/
theorem settled_others {r : ℕ} (hr : p + k ≤ r) {y : T} (hy : x r ≠ some y) :
    Settled floor waits (f r) y := by
  refine W.settled_off h₀ r y hy ?_
  by_cases h : ∃ i, x i = some y
  · obtain ⟨i, hi⟩ := h
    obtain ⟨j, hj, e⟩ := W.visited_early hk hper i
    exact .inl ⟨j, by omega, e.trans hi⟩
  · exact .inr (not_exists.mp h)

include W h₀ hk hper in
/-- A step of a later round that changes nothing finds every node settled. -/
theorem settled_of_quiet {r : ℕ} (hr : p + k ≤ r) (hq : f (r + 1) = f r) (y : T) :
    Settled floor waits (f r) y := by
  by_cases hy : x r = some y
  · have := (W.step r y hy).2.1
    rwa [congrFun hq y] at this
  · exact W.settled_others h₀ hk hper hr hy

include W in
/-- Once every node is settled the walk changes nothing. -/
theorem quiet_forever {r m : ℕ} (hs : ∀ y, Settled floor waits (f r) y) (hm : r ≤ m) :
    f m = f r := by
  induction hm with
  | refl => rfl
  | @step m _ ih =>
    rw [← ih]
    cases hx : x m with
    | none => exact (W.stop m hx).2
    | some t =>
      funext y
      by_cases hy : y = t
      · subst hy
        exact (W.step m y hx).2.1.unique (ih ▸ hs y)
      · exact (W.step m t hx).2.2 y hy

/-- A round that changes something at every step. -/
def Busy (f : ℕ → T → P) (x : ℕ → Option T) (r k : ℕ) : Prop :=
  ∀ j, j ≤ k → ∃ t, x (r + j) = some t ∧ f (r + j + 1) t ≠ f (r + j) t

include W h₀ hk hper in
/-- In a busy round a raise is handed on unchanged. -/
theorem Busy.raised {r l : ℕ} (hr : p + k ≤ r) (hb : Busy f x r l) {t : T} (ht : x r = some t)
    (hlt : f r t < f (r + 1) t) (j : ℕ) (hj : j ≤ l) :
    ∃ u, x (r + j) = some u ∧ f (r + j) u < f (r + j + 1) u ∧ f (r + j + 1) u = f (r + 1) t := by
  induction j with
  | zero => exact ⟨t, ht, hlt, rfl⟩
  | succ j ih =>
    obtain ⟨u, hu, hlu, eu⟩ := ih (by omega)
    obtain ⟨v, hv, hne⟩ := hb (j + 1) hj
    obtain ⟨hnext, -, hother⟩ := W.step (r + j) u hu
    have huv : v ≠ u := by
      rintro rfl
      exact W.irrefl v (hnext.symm.trans hv)
    have hset : Settled floor waits (f (r + j)) v :=
      W.settled_others h₀ hk hper (by omega) (by rw [hu]; simpa using huv.symm)
    have hold := hother v huv
    have hnew := (W.step (r + (j + 1)) v hv).2.1
    obtain ⟨h₁, h₂⟩ := IsLevel.raise (u := u) hset hnew
      (by rw [← hold]; exact hne.symm) hlu.le hother
    exact ⟨v, hv, by rw [show r + (j + 1) = r + j + 1 by omega, hold]; exact h₁, h₂.trans eu⟩

include W h₀ hk hper in
/-- In a busy round a fall starts at every node from the same level. -/
theorem Busy.lowered {r l : ℕ} (hr : p + k ≤ r) (hb : Busy f x r l) {t : T} (ht : x r = some t)
    (hlt : f (r + 1) t < f r t) (j : ℕ) (hj : j ≤ l) :
    ∃ u, x (r + j) = some u ∧ f (r + j + 1) u < f (r + j) u ∧ f (r + j) u = f r t := by
  induction j with
  | zero => exact ⟨t, ht, hlt, rfl⟩
  | succ j ih =>
    obtain ⟨u, hu, hlu, eu⟩ := ih (by omega)
    obtain ⟨v, hv, hne⟩ := hb (j + 1) hj
    obtain ⟨hnext, -, hother⟩ := W.step (r + j) u hu
    have huv : v ≠ u := by
      rintro rfl
      exact W.irrefl v (hnext.symm.trans hv)
    have hset : Settled floor waits (f (r + j)) v :=
      W.settled_others h₀ hk hper (by omega) (by rw [hu]; simpa using huv.symm)
    have hold := hother v huv
    have hnew := (W.step (r + (j + 1)) v hv).2.1
    obtain ⟨h₁, h₂⟩ := IsLevel.raise (u := u) hnew hset
      (by rw [← hold]; exact hne) hlu.le (fun y hy => (hother y hy).symm)
    have e : f (r + (j + 1)) v = f (r + j) v := hold
    exact ⟨v, hv, by rw [e]; exact h₁, by rw [e, h₂, eu]⟩

include W h₀ hk hper in
/-- **Some step of the second round changes nothing**: a change that went all the way
round would meet, at the node where it started, the level it brings. -/
theorem exists_quiet : ∃ r, p + k ≤ r ∧ r ≤ p + 2 * k ∧ f (r + 1) = f r := by
  by_contra hno
  push Not at hno
  set r := p + k with hr
  have hback : ∃ l, 0 < l ∧ x (r + l) = x r := ⟨k, hk, W.periodic hper k⟩
  -- the shortest return to the node the second round starts with
  classical
  obtain ⟨hl, hret⟩ := Nat.find_spec hback
  set l := Nat.find hback with hldef
  have hmin : ∀ j, 0 < j → j < l → x (r + j) ≠ x r := fun j h₁ h₂ e => Nat.find_min hback h₂ ⟨h₁, e⟩
  have hlk : l ≤ k := Nat.find_min' hback ⟨hk, W.periodic hper k⟩
  have hbusy : Busy f x r l := by
    intro j hj
    have hne := hno (r + j) (by omega) (by omega)
    cases hx : x (r + j) with
    | none => exact absurd (W.stop _ hx).2 hne
    | some t =>
      refine ⟨t, rfl, fun e => hne (funext fun y => ?_)⟩
      by_cases hy : y = t
      · rw [hy, e]
      · exact (W.step _ t hx).2.2 y hy
  obtain ⟨t, ht, hne⟩ := hbusy 0 (Nat.zero_le _)
  simp only [Nat.add_zero] at ht hne
  -- between its two visits the node keeps the level it was given
  have hkeep : f (r + l) t = f (r + 1) t := by
    refine W.frame (by omega) fun i h₁ h₂ => ?_
    have := hmin (i - r) (by omega) (by omega)
    rwa [show r + (i - r) = i by omega, ht] at this
  have hsame : ∀ u, x (r + l) = some u → u = t := fun u hu => by
    rw [hret, ht] at hu
    exact (Option.some.inj hu).symm
  rcases lt_or_gt_of_ne hne with hlt | hlt
  · obtain ⟨u, hu, -, e⟩ := Busy.lowered W h₀ hk hper (by omega) hbusy ht hlt l le_rfl
    rw [hsame u hu, hkeep] at e
    exact hlt.ne e
  · obtain ⟨u, hu, h₁, e⟩ := Busy.raised W h₀ hk hper (by omega) hbusy ht hlt l le_rfl
    rw [hsame u hu] at h₁ e
    rw [hkeep, e] at h₁
    exact h₁.false

include W h₀ hk hper in
/-- **A walk on a cycle** has settled every node when its second round is over. -/
theorem settled_of_period {n : ℕ} (hn : p + 2 * k ≤ n) (y : T) : Settled floor waits (f n) y := by
  obtain ⟨r, h₁, h₂, hq⟩ := W.exists_quiet h₀ hk hper
  have hs := W.settled_of_quiet h₀ hk hper h₁ hq
  rw [W.quiet_forever hs (show r ≤ n by omega)]
  exact hs y

end Period

/-- **Enough steps settle every node**: when every edge goes through one of finitely
many labels, two rounds over the labels are enough, whether the walk ends or not. -/
theorem settled (W : Walk floor waits next f x)
    (h₀ : ∀ y, (∀ i, x i ≠ some y) → Settled floor waits (f 0) y)
    {L : Type*} [Fintype L] (via : T → Option L) (lead : L → Option T)
    (hvia : ∀ t u, next t = some u → ∃ l, via t = some l ∧ lead l = some u)
    {n : ℕ} (hn : 2 * Fintype.card L + 2 ≤ n) (y : T) : Settled floor waits (f n) y := by
  by_cases hstop : x n = none
  · exact W.settled_of_stop h₀ hstop y
  have hsome : ∀ i, i ≤ n → ∃ t, x i = some t := by
    intro i hi
    cases hx : x i with
    | none => exact absurd (W.none_of_le hx hi) hstop
    | some t => exact ⟨t, rfl⟩
  -- the label that each of the first steps leaves through
  have hlab : ∀ i : Fin (Fintype.card L + 1), ∃ l, lead l = x (i + 1) := by
    intro i
    obtain ⟨t, ht⟩ := hsome i (by omega)
    obtain ⟨u, hu⟩ := hsome (i + 1) (by omega)
    obtain ⟨l, -, hl⟩ := hvia t u ((W.step i t ht).1.symm.trans hu)
    exact ⟨l, by rw [hl, hu]⟩
  choose lab hlab using hlab
  obtain ⟨a, b, hab, e⟩ := Fintype.exists_ne_map_eq_of_card_lt lab (by simp)
  wlog hlt : (a : ℕ) < b generalizing a b
  · exact this b a hab.symm e.symm (by have := Fin.val_ne_of_ne hab; omega)
  refine W.settled_of_period (p := a + 1) (k := b - a) h₀ (by omega) ?_ (by omega) y
  rw [show (a : ℕ) + 1 + (b - a) = b + 1 by omega, ← hlab, ← hlab, e]

end Walk

end Propagation
