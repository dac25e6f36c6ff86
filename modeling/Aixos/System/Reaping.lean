import Aixos.Library.Transition
import Aixos.Kernel.Reaper

/-!
# The idle task and the tasks that delete themselves

`reap_stopped_tasks` unlinks a task without disabling interrupts, and a task that deletes itself may be added to
`reap_list` between any two of its accesses.

* `Good`, `Late` — the list in order, and the list when a task has been added too late.
* `reaper_usables` — no node is accessed that is not in use, and no block freed twice.
* `freed_iff_inTime` — which tasks are freed.

A task is lost when it is added after the load of the `next` field of the last task and before the end of its unlinking.
When one is added between the two stores of the unlinking, `reap_list` is empty from then on, and no task is found.
-/

namespace Aixos

/-- What the next access of the idle task is to. The null pointer is `none`. -/
def ReapPlace.accesses {τ : Type} : ReapPlace τ → List (Option (Option τ))
  | .wait => [some none]
  | .first pos => [some pos]
  | .test none _ => []
  | .unlinkNext _ _ _ q => [q]
  | .unlinkPrev _ _ p _ => [p]
  | .test (some t) _ | .load t .. | .clearNext t _ | .clearPrev t _ | .freeStack t _ | .freeTcb t _ => [some (some t)]

/-- How far the idle task is from the next task. -/
def ReapPlace.rank {τ : Type} : ReapPlace τ → Nat
  | .clearNext .. => 15
  | .clearPrev .. => 14
  | .freeStack .. => 13
  | .freeTcb .. => 12
  | .first none => 11
  | .test none _ => 10
  | .wait => 9
  | .first (some _) => 8
  | .test (some _) _ => 7
  | .load .. => 6
  | .unlinkNext .. => 5
  | .unlinkPrev .. => 4

/-- How many steps the task that the idle task deals with has left. -/
def ReapPlace.left {τ : Type} : ReapPlace τ → Nat
  | .load .. => 7
  | .unlinkNext .. => 6
  | .unlinkPrev .. => 5
  | .clearNext .. => 4
  | .clearPrev .. => 3
  | .freeStack .. => 2
  | .freeTcb .. => 1
  | _ => 0

/-- The task whose node the idle task deals with. -/
def ReapPlace.task {τ : Type} : ReapPlace τ → Option τ
  | .wait | .first _ | .test .. => none
  | .load t .. | .unlinkNext t .. | .unlinkPrev t .. | .clearNext t _ | .clearPrev t _ | .freeStack t _
  | .freeTcb t _ => some t

namespace Reaper

open IntrusiveList IntrusiveList.Links Transition

variable {τ : Type} [DecidableEq τ] {s s' : Reaper τ} {xs ys : List τ} {t u e : τ} {n p q : Option (Option τ)}
  {m : Links (Option τ)}

/-! ### The list -/

omit [DecidableEq τ] in
theorem not_mem_ring (h : t ∉ xs) : some t ∉ none :: xs.map some := by
  simpa using h

/-- The ring of `reap_list` has exactly the tasks `xs`. -/
abbrev Ring (m : Links (Option τ)) (xs : List τ) : Prop := Circle m none (xs.map some)

omit [DecidableEq τ] in
theorem headD_map (xs : List τ) : (xs.map some).headD none = xs.head? := by
  cases xs <;> rfl

omit [DecidableEq τ] in
theorem Ring.next_head (h : Ring m xs) : m.next none = some xs.head? := by
  rw [← headD_map]
  exact Circle.next_head h

theorem Ring.addTail (h : Ring m xs) (ht : t ∉ xs) : Ring (m.addTail (some t) none) (xs ++ [t]) := by
  have := Circle.addTail h (not_mem_ring ht)
  rwa [Ring, List.map_append]

omit [DecidableEq τ] in
theorem Ring.first (h : Ring m (t :: ys)) :
    m.prev (some t) = some none ∧ m.next (some t) = some ys.head? ∧ m.prev ys.head? = some (some t) := by
  obtain ⟨-, hprev, hrest⟩ := h.seg
  refine ⟨hprev, ?_⟩
  cases ys with
  | nil => exact hrest
  | cons y ys => exact ⟨hrest.1, hrest.2.1⟩

omit [DecidableEq τ] in
/-- The last task of a ring. -/
theorem Ring.prev_head (h : Ring m (t :: xs)) : ∃ u, u ∈ t :: xs ∧ m.prev none = some (some u) := by
  have hlast := Circle.prev_head h
  rw [List.map_cons, lastNode_cons] at hlast
  have hmem := lastNode_mem (some t) (xs.map some)
  rw [← List.map_cons, List.mem_map] at hmem
  obtain ⟨u, hu, e⟩ := hmem
  exact ⟨u, hu, hlast.trans (congrArg some e.symm)⟩

omit [DecidableEq τ] in
/-- What is outside of the ring does not matter. -/
theorem Ring.congr {m' : Links (Option τ)} (h : Ring m xs) (hn : ∀ a, a ∈ none :: xs.map some → m'.next a = m.next a)
    (hp : ∀ a, a ∈ none :: xs.map some → m'.prev a = m.prev a) : Ring m' xs :=
  ⟨h.seg.congr hn fun a ha => hp a (by simpa using ha), h.nodup⟩

omit [DecidableEq τ] in
/-- The ring without tasks. -/
theorem ring_nil (hn : m.next none = some none) (hp : m.prev none = some none) : Ring m [] := ⟨⟨hn, hp⟩, by simp⟩

/-- A ring begins to be filled by what is added behind `reap_list` itself. -/
theorem ring_addTail_of_prev (hp : m.prev none = some none) : Ring (m.addTail (some t) none) [t] := by
  have h := insert_next m (some t) none none
  have h' := insert_prev m (some t) none none
  refine ⟨?_, by simp⟩
  simp [Seg, Links.addTail, hp, h, h']

/-! ### Where the idle task is -/

/-- `n` was loaded when the tasks behind it were `ys`, or fewer. -/
def Second (n : Option (Option τ)) (ys : List τ) : Prop := n = some none ∨ n = some ys.head?

omit [DecidableEq τ] in
theorem Second.append (h : Second n ys) (t : τ) : Second n (ys ++ [t]) := by
  cases ys with
  | nil => exact .inl (h.elim id id)
  | cons y ys => exact h

/-- The list is in order, and has the tasks `xs`. -/
def Good (s : Reaper τ) (xs : List τ) : Prop :=
  match s.place with
  | .wait => Ring s.links xs
  | .first pos => Ring s.links xs ∧ (pos = none ∨ pos = xs.head?)
  | .test pos n => Ring s.links xs ∧ (pos = none ∨ ∃ t ys, xs = t :: ys ∧ pos = some t ∧ Second n ys)
  | .load t n p => Ring s.links xs ∧ p = some none ∧ ∃ ys, xs = t :: ys ∧ Second n ys
  | .unlinkNext t n p q => Ring s.links xs ∧ p = some none ∧ ∃ ys, xs = t :: ys ∧ Second n ys ∧ q = some ys.head?
  | .unlinkPrev t n p q => p = some none ∧ ∃ ys, xs = t :: ys ∧ Second n ys ∧ q = some ys.head? ∧
      Ring (s.links.setPrev q (some (some t))) xs ∧ s.links.prev ys.head? = some none
  | .clearNext t n | .clearPrev t n | .freeStack t n | .freeTcb t n => Ring s.links xs ∧ t ∉ xs ∧ Second n xs

/-- The idle task has left the loop, or is about to leave it. -/
def leaves : ReapPlace τ → Prop
  | .wait | .first none | .test none _ => True
  | .clearNext _ n | .clearPrev _ n | .freeStack _ n | .freeTcb _ n => n = some none
  | _ => False

/-- A task has been added that will never be found. -/
inductive Late (s : Reaper τ) : List τ → Prop where
  /-- before `next->prev = prev` -/
  | next {e : τ} {ts : List τ} (hp : s.place = .unlinkNext e (some none) (some none) (some none))
      (hr : Ring s.links (e :: ts)) : Late s (e :: ts)
  /-- before `prev->next = next`, when nothing has been added since -/
  | prev {e : τ} (hp : s.place = .unlinkPrev e (some none) (some none) (some none))
      (hr : s.links.prev none = some none) : Late s []
  /-- when something has -/
  | added {e x : τ} {xs : List τ} (hp : s.place = .unlinkPrev e (some none) (some none) (some none))
      (hr : Ring s.links (x :: xs)) (he : e ∉ x :: xs) : Late s (x :: xs)
  /-- Nothing will be found any more, and `x` is the last that has been added. -/
  | dead {x : τ} (hn : s.links.next none = some none) (hp : s.links.prev none = some (some x)) (hl : leaves s.place)
      (ht : s.place.task ≠ some x) : Late s [x]

/-- A task that is added now will be found. -/
def InTime (s : Reaper τ) : Prop :=
  (∀ e n p, s.place ≠ .unlinkNext e n p (some none) ∧ s.place ≠ .unlinkPrev e n p (some none)) ∧
    (s.links.next none = some none → s.links.prev none = some none)

/-! ### Steps of the idle task -/

theorem ring_setNext_of_not_mem {v : Option (Option τ)} (h : Ring m xs) (ht : t ∉ xs) :
    Ring (m.setNext (some (some t)) v) xs := by
  refine h.congr (fun a ha => ?_) fun a _ => by rw [setNext_prev]
  rw [setNext_next, if_neg]
  rintro rfl
  exact not_mem_ring ht ha

theorem ring_setPrev_of_not_mem {v : Option (Option τ)} (h : Ring m xs) (ht : t ∉ xs) :
    Ring (m.setPrev (some (some t)) v) xs := by
  refine h.congr (fun a _ => by rw [setPrev_next]) fun a ha => ?_
  rw [setPrev_prev, if_neg]
  rintro rfl
  exact not_mem_ring ht ha

/-- What is left of the ring when its first task has been unlinked. -/
theorem ring_unlinked (h : Ring (m.setPrev (some ys.head?) (some (some e))) (e :: ys))
    (hp : m.prev ys.head? = some none) : Ring (m.setNext (some none) (some ys.head?)) ys ∧ e ∉ ys := by
  have hnd := h.nodup
  simp only [List.map_cons, List.nodup_cons, List.mem_cons, List.mem_map, Option.some.injEq, exists_eq_right] at hnd
  have he : e ∉ ys := hnd.2.1
  refine ⟨?_, he⟩
  obtain ⟨hprev, hnext, -⟩ := h.first
  have hcircle : Circle (m.setPrev (some ys.head?) (some (some e))) none ([] ++ some e :: ys.map some) := h
  have hdelete : Ring ((m.setPrev (some ys.head?) (some (some e))).delete (some e)) ys := hcircle.delete
  refine hdelete.congr (fun a ha => ?_) fun a ha => ?_
  · have hae : a ≠ some e := by
      rintro rfl
      exact not_mem_ring he ha
    rw [delete_next _ hprev hnext, if_neg hae, setNext_next, setPrev_next]
  · have hae : a ≠ some e := by
      rintro rfl
      exact not_mem_ring he ha
    rw [delete_prev _ hprev hnext, if_neg hae, setNext_prev, setPrev_prev]
    by_cases ea : a = ys.head?
    · rw [if_pos ea, ea, hp]
    · rw [if_neg ea, if_neg ea]

/-- The idle task goes on, and the list stays in order. -/
inductive Advances (s s' : Reaper τ) (xs : List τ) : Prop where
  /-- No task is unlinked. -/
  | same (hg : Good s' xs) (ht : ∀ x, s'.place.task = some x → x ∈ xs ∨ s.place.task = some x)
      (hr : s.place = .wait ∧ xs = [] ∨ s'.place.rank < s.place.rank)
  /-- The first is. -/
  | unlink {e : τ} {ys : List τ} (hxs : xs = e :: ys) (hg : Good s' ys) (ht : s.place.task = some e)
      (ht' : s'.place.task = some e) (hr : s'.place.rank < 12 + s.place.rank)

theorem Good.idle (h : Good s xs) (hs : s.idle = some s') : Advances s s' xs := by
  cases hp : s.place with
  | wait =>
    simp only [Good, hp] at h
    simp only [Reaper.idle, hp, h.next_head, Option.map_some] at hs
    cases hs
    refine .same ⟨h, .inr rfl⟩ (by simp [goto, ReapPlace.task]) ?_
    cases xs with
    | nil => exact .inl ⟨hp, rfl⟩
    | cons x xs => exact .inr (by simp [goto, ReapPlace.rank, hp])
  | first pos =>
    simp only [Good, hp] at h
    simp only [Reaper.idle, hp] at hs
    cases hs
    obtain ⟨hr, hpos⟩ := h
    refine .same ⟨hr, ?_⟩ (by simp [goto, ReapPlace.task])
      (.inr (by cases pos <;> simp [goto, ReapPlace.rank, hp]))
    rcases hpos with hpos | hpos
    · exact .inl hpos
    · cases xs with
      | nil => exact .inl hpos
      | cons t ys =>
        subst hpos
        exact .inr ⟨t, ys, rfl, rfl, .inr hr.first.2.1⟩
  | test pos n =>
    simp only [Good, hp] at h
    obtain ⟨hr, hpos⟩ := h
    cases pos with
    | none =>
      simp only [Reaper.idle, hp] at hs
      cases hs
      exact .same hr (by simp [goto, ReapPlace.task]) (.inr (by simp [goto, ReapPlace.rank, hp]))
    | some t =>
      simp only [Reaper.idle, hp] at hs
      cases hs
      obtain ⟨u, ys, rfl, e, hn⟩ := hpos.resolve_left (by simp)
      cases e
      refine .same ⟨hr, hr.first.1, ys, rfl, hn⟩ (fun x hx => ?_) (.inr (by simp [goto, ReapPlace.rank, hp]))
      cases hx
      exact .inl (List.mem_cons_self ..)
  | load t n p =>
    simp only [Good, hp] at h
    simp only [Reaper.idle, hp] at hs
    cases hs
    obtain ⟨hr, hnull, ys, rfl, hn⟩ := h
    exact .same ⟨hr, hnull, ys, rfl, hn, hr.first.2.1⟩ (fun x hx => .inr (by rw [hp]; exact hx))
      (.inr (by simp [goto, ReapPlace.rank, hp]))
  | unlinkNext t n p q =>
    simp only [Good, hp] at h
    simp only [Reaper.idle, hp] at hs
    cases hs
    obtain ⟨hr, rfl, ys, rfl, hn, rfl⟩ := h
    refine .same ⟨rfl, ys, rfl, hn, rfl, ?_, ?_⟩ (fun x hx => .inr (by rw [hp]; exact hx))
      (.inr (by simp [goto, ReapPlace.rank, hp]))
    · -- the prev field of the next node is what it was
      have hprev : s.links.prev ys.head? = some (some t) := hr.first.2.2
      refine hr.congr (fun a _ => ?_) fun a _ => ?_
      · show ((s.links.setPrev (some ys.head?) (some none)).setPrev (some ys.head?) (some (some t))).next a = _
        rw [setPrev_next, setPrev_next]
      · show ((s.links.setPrev (some ys.head?) (some none)).setPrev (some ys.head?) (some (some t))).prev a = _
        rw [setPrev_prev, setPrev_prev]
        by_cases e : a = ys.head?
        · rw [if_pos e, e, hprev]
        · rw [if_neg e, if_neg e]
    · show (s.links.setPrev (some ys.head?) (some none)).prev ys.head? = _
      rw [setPrev_prev, if_pos rfl]
  | unlinkPrev t n p q =>
    simp only [Good, hp] at h
    simp only [Reaper.idle, hp] at hs
    cases hs
    obtain ⟨rfl, ys, rfl, hn, rfl, hr, hprev⟩ := h
    obtain ⟨hring, ht⟩ := ring_unlinked hr hprev
    exact .unlink rfl ⟨hring, ht, hn⟩ (by rw [hp]; rfl) rfl (by simp [goto, ReapPlace.rank, hp])
  | clearNext t n =>
    simp only [Good, hp] at h
    simp only [Reaper.idle, hp] at hs
    cases hs
    exact .same ⟨ring_setNext_of_not_mem h.1 h.2.1, h.2⟩ (fun x hx => .inr (by rw [hp]; exact hx))
      (.inr (by simp [goto, ReapPlace.rank, hp]))
  | clearPrev t n =>
    simp only [Good, hp] at h
    simp only [Reaper.idle, hp] at hs
    cases hs
    exact .same ⟨ring_setPrev_of_not_mem h.1 h.2.1, h.2⟩ (fun x hx => .inr (by rw [hp]; exact hx))
      (.inr (by simp [goto, ReapPlace.rank, hp]))
  | freeStack t n =>
    simp only [Good, hp] at h
    simp only [Reaper.idle, hp] at hs
    cases hs
    exact .same h (fun x hx => .inr (by rw [hp]; exact hx)) (.inr (by simp [goto, ReapPlace.rank, hp]))
  | freeTcb t n =>
    simp only [Good, hp] at h
    simp only [Reaper.idle, hp] at hs
    obtain ⟨hr, ht, hn⟩ := h
    obtain ⟨pos, hpos, hs⟩ := Option.map_eq_some_iff.mp hs
    cases hs
    refine .same ⟨hr, ?_⟩ (by simp [goto, ReapPlace.task])
      (.inr (by cases pos <;> simp [goto, ReapPlace.rank, hp]))
    rcases hn with hn | hn
    · exact .inl (Option.some.inj (hpos.symm.trans hn))
    · exact .inr (Option.some.inj (hpos.symm.trans hn))

/-- The idle task never gets stuck. -/
theorem Good.idle_isSome (h : Good s xs) : s.idle.isSome := by
  cases hp : s.place with
  | wait =>
    simp only [Good, hp] at h
    simp only [Reaper.idle, hp, h.next_head]
    rfl
  | test pos n => cases pos <;> simp only [Reaper.idle, hp] <;> rfl
  | freeTcb t n =>
    simp only [Good, hp] at h
    simp only [Reaper.idle, hp]
    rcases h.2.2 with rfl | rfl <;> rfl
  | _ =>
    simp only [Reaper.idle, hp]
    rfl

theorem Late.idle_isSome (h : Late s xs) : s.idle.isSome := by
  cases hp : s.place with
  | wait =>
    cases h with
    | next h | prev h | added h =>
      rw [hp] at h
      cases h
    | dead hn =>
      simp only [Reaper.idle, hp, hn]
      rfl
  | test pos n => cases pos <;> simp only [Reaper.idle, hp] <;> rfl
  | freeTcb t n =>
    cases h with
    | next h | prev h | added h =>
      rw [hp] at h
      cases h
    | dead _ _ hl =>
      rw [hp] at hl
      cases hl
      simp only [Reaper.idle, hp]
      rfl
  | _ =>
    simp only [Reaper.idle, hp]
    rfl

/-- What is lost stays lost. -/
theorem Late.idle (h : Late s xs) (hs : s.idle = some s') :
    ((∃ ys, Late s' ys ∧ ∀ y ∈ ys, y ∈ xs) ∨ Good s' []) ∧ ∀ x, s'.place.task = some x → s.place.task = some x := by
  cases h with
  | @next e ts hp hr =>
    simp only [Reaper.idle, hp] at hs
    cases hs
    refine ⟨.inl ⟨[], .prev rfl ?_, by simp⟩, fun x hx => ?_⟩
    · show (s.links.setPrev (some none) (some none)).prev none = _
      rw [setPrev_prev, if_pos rfl]
    · rw [hp]
      exact hx
  | @prev e hp hr =>
    simp only [Reaper.idle, hp] at hs
    cases hs
    refine ⟨.inr ⟨ring_nil ?_ ?_, by simp, .inl rfl⟩, fun x hx => ?_⟩
    · show (s.links.setNext (some none) (some none)).next none = _
      rw [setNext_next, if_pos rfl]
    · show (s.links.setNext (some none) (some none)).prev none = _
      rw [setNext_prev, hr]
    · rw [hp]
      exact hx
  | @added e x xs hp hr he =>
    simp only [Reaper.idle, hp] at hs
    cases hs
    obtain ⟨y, hy, hlast⟩ := hr.prev_head
    refine ⟨.inl ⟨[y], .dead ?_ ?_ rfl ?_, by simpa using hy⟩, fun x hx => ?_⟩
    · show (s.links.setNext (some none) (some none)).next none = _
      rw [setNext_next, if_pos rfl]
    · show (s.links.setNext (some none) (some none)).prev none = _
      rw [setNext_prev, hlast]
    · rintro ⟨⟩
      exact he hy
    · rw [hp]
      exact hx
  | @dead x hn hp hl ht =>
    suffices hd : Late s' [x] ∧ ∀ y, s'.place.task = some y → s.place.task = some y from
      ⟨.inl ⟨_, hd.1, fun _ h => h⟩, hd.2⟩
    cases hplace : s.place with
    | wait =>
      simp only [Reaper.idle, hplace, hn, Option.map_some] at hs
      cases hs
      exact ⟨.dead hn hp trivial (by simp [goto, ReapPlace.task]), fun x hx => by cases hx⟩
    | first pos =>
      rw [hplace] at hl
      cases pos with
      | none =>
        simp only [Reaper.idle, hplace] at hs
        cases hs
        exact ⟨.dead hn hp trivial (by simp [goto, ReapPlace.task]), fun x hx => by cases hx⟩
      | some t => cases hl
    | test pos n =>
      rw [hplace] at hl
      cases pos with
      | none =>
        simp only [Reaper.idle, hplace] at hs
        cases hs
        exact ⟨.dead hn hp trivial (by simp [goto, ReapPlace.task]), fun x hx => by cases hx⟩
      | some t => cases hl
    | clearNext t n =>
      rw [hplace] at hl ht
      simp only [Reaper.idle, hplace] at hs
      cases hs
      refine ⟨.dead ?_ ?_ hl ht, fun x hx => hx⟩
      · show (s.links.setNext (some (some t)) none).next none = _
        rw [setNext_next, if_neg (by simp), hn]
      · show (s.links.setNext (some (some t)) none).prev none = _
        rwa [setNext_prev]
    | clearPrev t n =>
      rw [hplace] at hl ht
      simp only [Reaper.idle, hplace] at hs
      cases hs
      refine ⟨.dead ?_ ?_ hl ht, fun x hx => hx⟩
      · show (s.links.setPrev (some (some t)) none).next none = _
        rwa [setPrev_next]
      · show (s.links.setPrev (some (some t)) none).prev none = _
        rwa [setPrev_prev, if_neg (by simp)]
    | freeStack t n =>
      rw [hplace] at hl ht
      simp only [Reaper.idle, hplace] at hs
      cases hs
      exact ⟨.dead hn hp hl ht, fun x hx => hx⟩
    | freeTcb t n =>
      rw [hplace] at hl
      cases hl
      simp only [Reaper.idle, hplace, Option.map_some] at hs
      cases hs
      exact ⟨.dead hn hp trivial (by simp [goto, ReapPlace.task]), fun x hx => by cases hx⟩
    | load t n p | unlinkNext t n p q | unlinkPrev t n p q =>
      rw [hplace] at hl
      cases hl

/-! ### Tasks that delete themselves -/

/-- A task has been added. -/
def added (s : Reaper τ) (u : τ) : Reaper τ :=
  { s with links := s.links.addTail (some u) none, phase := Function.update s.phase u .stopped }

theorem added_links : (s.added u).links = s.links.addTail (some u) none := rfl

theorem added_next_head (hp : s.links.prev none ≠ some none) :
    (s.added u).links.next none = s.links.next none := by
  rw [added_links, Links.addTail, Links.insert]
  cases h : s.links.prev none with
  | none => simp
  | some a =>
    have ha : none ≠ a := by
      rintro rfl
      exact hp h
    simp [ha]

theorem added_prev_head : (s.added u).links.prev none = some (some u) := by
  rw [added_links, Links.addTail, Links.insert]
  simp

theorem added_prev_of_ne {a : Option τ} (h : a ≠ none) (hu : a ≠ some u) :
    (s.added u).links.prev a = s.links.prev a := by
  rw [added_links, Links.addTail, Links.insert]
  simp [h, hu]

/-- A task is lost after those that are. -/
theorem Late.stop (h : Late s xs) (hu : u ∉ xs) (htask : s.place.task ≠ some u) :
    ∃ ys, Late (s.added u) ys ∧ ∀ x ∈ ys, x ∈ xs ∨ x = u := by
  cases h with
  | @next e ts hp hr =>
    refine ⟨e :: (ts ++ [u]), .next hp (hr.addTail hu), fun x hx => ?_⟩
    simpa [or_assoc] using hx
  | @prev e hp hr =>
    rw [hp] at htask
    refine ⟨[u], .added hp (ring_addTail_of_prev hr) ?_, by simp⟩
    rintro (_ | ⟨_, ⟨⟩⟩)
    exact htask rfl
  | @added e x xs hp hr he =>
    rw [hp] at htask
    refine ⟨x :: (xs ++ [u]), .added hp (hr.addTail hu) ?_, fun y hy => ?_⟩
    · rw [← List.cons_append, List.mem_append, not_or, List.mem_singleton]
      exact ⟨he, fun e => htask (congrArg some e)⟩
    · simpa [or_assoc] using hy
  | @dead x hn hp hl ht =>
    refine ⟨[u], .dead ?_ added_prev_head hl htask, by simp⟩
    rw [added_next_head (by rw [hp]; simp), hn]

/-- The stores to `prev` fields of different nodes commute. -/
theorem added_setPrev {a : Option τ} {v : Option (Option τ)} (ha : a ≠ none) (hu : a ≠ some u) (b : Option τ) :
    ((s.added u).links.setPrev (some a) v).next b = ((s.links.setPrev (some a) v).addTail (some u) none).next b ∧
      ((s.added u).links.setPrev (some a) v).prev b = ((s.links.setPrev (some a) v).addTail (some u) none).prev b := by
  have hprev : (s.links.setPrev (some a) v).prev none = s.links.prev none := by
    rw [setPrev_prev, if_neg (Ne.symm ha)]
  unfold added Links.addTail Links.insert
  rw [hprev]
  constructor
  · cases s.links.prev none <;> simp
  · simp only [setNext_prev, setPrev_prev]
    by_cases e : b = a
    · rw [if_pos e, e, if_neg hu, if_neg ha, if_pos rfl]
    · rw [if_neg e, if_neg e]

omit [DecidableEq τ] in
theorem inTime_of_ring (hr : Ring s.links xs)
    (hw : ∀ e n p, s.place ≠ .unlinkNext e n p (some none) ∧ s.place ≠ .unlinkPrev e n p (some none)) : s.InTime := by
  refine ⟨hw, fun hn => ?_⟩
  have hx : xs.head? = none := Option.some.inj (hr.next_head.symm.trans hn)
  rw [List.head?_eq_none_iff] at hx
  subst hx
  exact Circle.prev_head hr

/-- **A task is added in time**, and will be found, or too late. -/
theorem Good.stop (h : Good s xs) (hu : u ∉ xs) (htask : s.place.task ≠ some u) :
    s.InTime ∧ Good (s.added u) (xs ++ [u]) ∨
      ¬ s.InTime ∧ (∃ e, xs = [e] ∧ s.place.task = some e) ∧
        ∃ ys, Late (s.added u) ys ∧ ∀ x ∈ ys, x ∈ xs ∨ x = u := by
  cases hp : s.place with
  | wait =>
    simp only [Good, hp] at h
    refine .inl ⟨inTime_of_ring h (by simp [hp]), ?_⟩
    simp only [Good, added, hp]
    exact h.addTail hu
  | first pos =>
    simp only [Good, hp] at h
    refine .inl ⟨inTime_of_ring h.1 (by simp [hp]), ?_⟩
    simp only [Good, added, hp]
    refine ⟨h.1.addTail hu, ?_⟩
    cases xs with
    | nil => exact .inl (h.2.elim id id)
    | cons x xs => exact h.2
  | test pos n =>
    simp only [Good, hp] at h
    refine .inl ⟨inTime_of_ring h.1 (by simp [hp]), ?_⟩
    simp only [Good, added, hp]
    refine ⟨h.1.addTail hu, ?_⟩
    rcases h.2 with h | ⟨t, ys, rfl, rfl, hn⟩
    · exact .inl h
    · exact .inr ⟨t, ys ++ [u], rfl, rfl, hn.append u⟩
  | load t n p =>
    simp only [Good, hp] at h
    refine .inl ⟨inTime_of_ring h.1 (by simp [hp]), ?_⟩
    simp only [Good, added, hp]
    obtain ⟨hr, hnull, ys, rfl, hn⟩ := h
    exact ⟨hr.addTail hu, hnull, ys ++ [u], rfl, hn.append u⟩
  | unlinkNext t n p q =>
    simp only [Good, hp] at h
    obtain ⟨hr, rfl, ys, rfl, hn, rfl⟩ := h
    cases ys with
    | nil =>
      have hn : n = some none := hn.elim id id
      subst hn
      exact .inr ⟨fun hin => (hin.1 _ _ _).1 hp, ⟨t, rfl, rfl⟩, _, .next (s := s.added u) hp (hr.addTail hu),
        by simp⟩
    | cons y ys =>
      refine .inl ⟨inTime_of_ring hr (by simp [hp]), ?_⟩
      simp only [Good, added, hp]
      exact ⟨hr.addTail hu, trivial, y :: (ys ++ [u]), rfl, hn.append u, rfl⟩
  | unlinkPrev t n p q =>
    simp only [Good, hp] at h
    obtain ⟨rfl, ys, rfl, hn, rfl, hr, hprev⟩ := h
    cases ys with
    | nil =>
      have hn : n = some none := hn.elim id id
      subst hn
      refine .inr ⟨fun hin => (hin.1 _ _ _).2 hp, ⟨t, rfl, rfl⟩, _,
        .added (s := s.added u) hp (ring_addTail_of_prev hprev) ?_, by simp⟩
      rintro (_ | ⟨_, ⟨⟩⟩)
      exact htask (by rw [hp]; rfl)
    | cons y ys =>
      have hyu : some y ≠ some u := by
        rintro ⟨⟩
        exact hu (by simp)
      refine .inl ⟨⟨by simp [hp], fun hnone => ?_⟩, ?_⟩
      · have := hr.next_head
        rw [setPrev_next, hnone] at this
        cases this
      · have hadd : Ring ((s.added u).links.setPrev (some (some y)) (some (some t))) (t :: y :: (ys ++ [u])) :=
          (hr.addTail hu).congr (fun a _ => (added_setPrev (by simp) hyu a).1)
            fun a _ => (added_setPrev (by simp) hyu a).2
        have hprev' := (added_prev_of_ne (s := s) (u := u) (Option.some_ne_none y) hyu).trans hprev
        have hplace : (s.added u).place = .unlinkPrev t n (some none) (some (some y)) := hp
        simp only [Good, hplace]
        exact ⟨trivial, y :: (ys ++ [u]), rfl, hn.append u, rfl, hadd, hprev'⟩
  | clearNext t n | clearPrev t n | freeStack t n | freeTcb t n =>
    simp only [Good, hp] at h
    rw [hp] at htask
    refine .inl ⟨inTime_of_ring h.1 (by simp [hp]), ?_⟩
    simp only [Good, added, hp]
    refine ⟨h.1.addTail hu, ?_, h.2.2.append u⟩
    rw [List.mem_append, not_or, List.mem_singleton]
    exact ⟨h.2.1, fun e => htask (congrArg some e)⟩

/-! ### Runs -/

/-- What holds in all runs: the tasks in the list, and the one that the idle task deals with, have deleted
themselves. -/
structure Inv (s : Reaper τ) : Prop where
  hand : ∀ t, s.place.task = some t → s.phase t = .stopped
  list : ∃ xs, (∀ x ∈ xs, s.phase x = .stopped) ∧ (Good s xs ∨ Late s xs)

theorem inv_init : Inv (init : Reaper τ) where
  hand _ h := by cases h
  list := ⟨[], by simp, .inl (Circle.init _ _)⟩

omit [DecidableEq τ] in
/-- A task that is running is not in the list. -/
theorem not_mem_of_running (hx : ∀ x ∈ xs, s.phase x = .stopped) (hu : s.phase u = .running) : u ∉ xs := by
  intro h
  have := hx u h
  rw [hu] at this
  cases this

omit [DecidableEq τ] in
theorem Late.congr (h : Late s xs) (hl : s'.links = s.links) (hp : s'.place = s.place) : Late s' xs := by
  cases h with
  | next h hr => exact .next (hp.trans h) (hl ▸ hr)
  | prev h hr => exact .prev (hp.trans h) (hl ▸ hr)
  | added h hr he => exact .added (hp.trans h) (hl ▸ hr) he
  | dead hn h hlv ht => exact .dead (hl ▸ hn) (hl ▸ h) (hp ▸ hlv) (hp ▸ ht)

theorem Good.congr (h : Good s xs) (hl : s'.links = s.links) (hp : s'.place = s.place) : Good s' xs := by
  unfold Good at h ⊢
  rw [hp, hl]
  exact h

/-- Only the last step with a task changes its phase. -/
theorem idle_phase {x : τ} (hs : s.idle = some s') (hx : ∀ n, s.place ≠ .freeTcb x n) : s'.phase x = s.phase x := by
  unfold Reaper.idle at hs
  split at hs
  · obtain ⟨pos, -, rfl⟩ := Option.map_eq_some_iff.mp hs
    rfl
  all_goals first
    | cases hs
      rfl
    | skip
  rename_i t n hp
  obtain ⟨pos, -, rfl⟩ := Option.map_eq_some_iff.mp hs
  refine Function.update_of_ne ?_ _ _
  rintro rfl
  exact hx n hp

theorem idle_phase_of_task {x : τ} (hs : s.idle = some s') (hx : s'.place.task = some x) : s'.phase x = s.phase x := by
  refine idle_phase hs fun n hp => ?_
  simp only [Reaper.idle, hp] at hs
  obtain ⟨pos, -, rfl⟩ := Option.map_eq_some_iff.mp hs
  cases hx

theorem Good.idle_phase {x : τ} (h : Good s xs) (hs : s.idle = some s') (hx : x ∈ xs) : s'.phase x = s.phase x := by
  refine Reaper.idle_phase hs fun n hp => ?_
  simp only [Good, hp] at h
  exact h.2.1 hx

theorem Late.idle_phase {x : τ} (h : Late s xs) (hs : s.idle = some s') (hx : x ∈ xs) : s'.phase x = s.phase x := by
  refine Reaper.idle_phase hs fun n hplace => ?_
  cases h with
  | next hp | prev hp | added hp =>
    rw [hplace] at hp
    cases hp
  | dead _ _ _ ht =>
    rw [hplace, List.mem_singleton.mp hx] at ht
    exact ht rfl

theorem phase_stopped_of_ne {ph : TaskPhase} (hx : ∀ x ∈ xs, s.phase x = .stopped) (hu : s.phase u ≠ .stopped) :
    ∀ x ∈ xs, Function.update s.phase u ph x = .stopped := by
  intro x hxs
  rw [Function.update_of_ne, hx x hxs]
  rintro rfl
  exact hu (hx x hxs)

theorem Inv.task_ne_of_running (h : Inv s) (hu : s.phase u = .running) : s.place.task ≠ some u := by
  intro e
  rw [h.hand u e] at hu
  cases hu

theorem added_phase {x : τ} (hx : ∀ x ∈ xs, s.phase x = .stopped) (h : x ∈ xs ∨ x = u) :
    (s.added u).phase x = .stopped := by
  by_cases e : x = u
  · rw [e]
    exact Function.update_self ..
  · exact (Function.update_of_ne e _ _).trans (hx x (h.resolve_right e))

/-- What becomes of other tasks does not matter. -/
theorem Inv.rephase {ph : TaskPhase} (h : Inv s) (hu : s.phase u ≠ .stopped) :
    Inv { s with phase := Function.update s.phase u ph } := by
  obtain ⟨xs, hx, hlist⟩ := h.list
  refine ⟨fun t ht => ?_, xs, phase_stopped_of_ne hx hu, hlist.imp (·.congr rfl rfl) (·.congr rfl rfl)⟩
  refine (Function.update_of_ne ?_ _ _).trans (h.hand t ht)
  rintro rfl
  exact hu (h.hand t ht)

/-- **Every step keeps it.** -/
theorem Inv.step {a : ReapAct τ} (h : Inv s) (hs : s.step a = some s') : Inv s' := by
  obtain ⟨xs, hx, hlist⟩ := h.list
  cases a with
  | idle =>
    have hs : s.idle = some s' := hs
    rcases hlist with hg | hl
    · have hphase : ∀ x ∈ xs, s'.phase x = .stopped := fun x hxs => by rw [hg.idle_phase hs hxs, hx x hxs]
      cases hg.idle hs with
      | same hg' ht _ =>
        refine ⟨fun t hp => ?_, xs, hphase, .inl hg'⟩
        rcases ht t hp with hm | ht
        · exact hphase t hm
        · rw [idle_phase_of_task hs hp]
          exact h.hand t ht
      | @unlink e ys hxs hg' ht ht' _ =>
        subst hxs
        refine ⟨fun t hp => ?_, ys, fun x hxs => hphase x (List.mem_cons_of_mem _ hxs), .inl hg'⟩
        rw [← Option.some.inj (ht'.symm.trans hp)]
        exact hphase e (List.mem_cons_self ..)
    · obtain ⟨hl', ht⟩ := hl.idle hs
      refine ⟨fun t hp => ?_, ?_⟩
      · rw [idle_phase_of_task hs hp]
        exact h.hand t (ht t hp)
      · rcases hl' with ⟨ys, hl', hys⟩ | hg
        · exact ⟨ys, fun x hxs => by rw [hl.idle_phase hs (hys x hxs), hx x (hys x hxs)], .inr hl'⟩
        · exact ⟨[], by simp, .inl hg⟩
  | stop u =>
    simp only [Reaper.step] at hs
    split at hs
    · rename_i hu
      cases hs
      have hmem := not_mem_of_running hx hu
      have hne := h.task_ne_of_running hu
      refine ⟨fun t ht => ?_, ?_⟩
      · by_cases e : t = u
        · rw [e]
          exact Function.update_self ..
        · exact (Function.update_of_ne e _ _).trans (h.hand t ht)
      · have hlate : ∀ ys, Late (s.added u) ys → (∀ y ∈ ys, y ∈ xs ∨ y = u) →
            ∃ zs, (∀ z ∈ zs, (s.added u).phase z = .stopped) ∧ (Good (s.added u) zs ∨ Late (s.added u) zs) :=
          fun ys hl hys => ⟨ys, fun y hy => added_phase hx (hys y hy), .inr hl⟩
        rcases hlist with hg | hl
        · rcases hg.stop hmem hne with ⟨-, hg'⟩ | ⟨-, -, ys, hl', hys⟩
          · exact ⟨xs ++ [u], fun x hxs => added_phase hx (by simpa using hxs), .inl hg'⟩
          · exact hlate ys hl' hys
        · obtain ⟨ys, hl', hys⟩ := hl.stop hmem hne
          exact hlate ys hl' hys
    · cases hs
  | delete u =>
    simp only [Reaper.step] at hs
    split at hs
    · rename_i hu
      cases hs
      exact h.rephase (by rw [hu]; simp)
    · cases hs
  | create u =>
    simp only [Reaper.step] at hs
    split at hs
    · rename_i hu
      cases hs
      exact h.rephase (by rw [hu]; simp)
    · cases hs

theorem inv_of_run {as : List (ReapAct τ)} (hr : run step (init : Reaper τ) as = some s) : Inv s :=
  (path_iff_run.mpr hr).invariant (fun _ _ _ h _ hs => h.step hs) inv_init

/-! ### Memory -/

/-- A pointer to `reap_list`, or to the node of a task whose control block is in use and that will not run. -/
def Usable (s : Reaper τ) (a : Option (Option τ)) : Prop := ∃ b, a = some b ∧ ∀ t, b = some t → s.phase t = .stopped

omit [DecidableEq τ] in
theorem usable_head : Usable s (some none) := ⟨none, rfl, fun _ h => by cases h⟩

omit [DecidableEq τ] in
theorem usable_task (h : s.phase t = .stopped) : Usable s (some (some t)) :=
  ⟨some t, rfl, fun _ e => by rw [← Option.some.inj e, h]⟩

omit [DecidableEq τ] in
theorem usable_head? (hx : ∀ x ∈ xs, s.phase x = .stopped) : Usable s (some xs.head?) := by
  cases xs with
  | nil => exact usable_head
  | cons x xs => exact usable_task (hx x (List.mem_cons_self ..))

omit [DecidableEq τ] in
theorem Ring.usable_prev (h : Ring s.links xs) (hx : ∀ x ∈ xs, s.phase x = .stopped) :
    Usable s (s.links.prev none) := by
  cases xs with
  | nil =>
    rw [Circle.prev_head h]
    exact usable_head
  | cons x xs =>
    obtain ⟨u, hu, hlast⟩ := h.prev_head
    rw [hlast]
    exact usable_task (hx u hu)

/-- What the idle task accesses, and what the next task that deletes itself does. -/
structure Usables (s : Reaper τ) : Prop where
  goes : s.idle.isSome
  idle : ∀ a ∈ s.place.accesses, Usable s a
  stop : Usable s (s.links.prev none)

theorem Good.usables (h : Good s xs) (hand : ∀ t, s.place.task = some t → s.phase t = .stopped)
    (hx : ∀ x ∈ xs, s.phase x = .stopped) : Usables s := by
  have hgoes := h.idle_isSome
  cases hp : s.place with
  | wait =>
    simp only [Good, hp] at h
    refine ⟨hgoes, fun a ha => ?_, h.usable_prev hx⟩
    rw [hp] at ha
    rw [List.mem_singleton.mp ha]
    exact usable_head
  | first pos =>
    simp only [Good, hp] at h
    refine ⟨hgoes, fun a ha => ?_, h.1.usable_prev hx⟩
    rw [hp] at ha
    rw [List.mem_singleton.mp ha]
    rcases h.2 with rfl | rfl
    · exact usable_head
    · exact usable_head? hx
  | test pos n =>
    simp only [Good, hp] at h
    refine ⟨hgoes, fun a ha => ?_, h.1.usable_prev hx⟩
    rw [hp] at ha
    cases pos with
    | none => cases ha
    | some t =>
      rw [List.mem_singleton.mp ha]
      obtain ⟨u, ys, rfl, ⟨⟩, -⟩ := h.2.resolve_left (by simp)
      exact usable_task (hx t (List.mem_cons_self ..))
  | unlinkNext t n p q =>
    simp only [Good, hp] at h
    obtain ⟨hr, -, ys, rfl, -, rfl⟩ := h
    refine ⟨hgoes, fun a ha => ?_, hr.usable_prev hx⟩
    rw [hp] at ha
    rw [List.mem_singleton.mp ha]
    exact usable_head? fun x hxs => hx x (List.mem_cons_of_mem _ hxs)
  | unlinkPrev t n p q =>
    simp only [Good, hp] at h
    obtain ⟨rfl, ys, rfl, -, rfl, hr, hprev⟩ := h
    refine ⟨hgoes, fun a ha => ?_, ?_⟩
    · rw [hp] at ha
      rw [List.mem_singleton.mp ha]
      exact usable_head
    · cases ys with
      | nil =>
        rw [show s.links.prev none = some none from hprev]
        exact usable_head
      | cons y ys =>
        obtain ⟨u, hu, hlast⟩ := hr.prev_head
        rw [show s.links.prev none = _ from hlast]
        exact usable_task (hx u hu)
  | load t n p | clearNext t n | clearPrev t n | freeStack t n | freeTcb t n =>
    simp only [Good, hp] at h
    refine ⟨hgoes, fun a ha => ?_, h.1.usable_prev hx⟩
    rw [hp] at ha
    rw [List.mem_singleton.mp ha]
    exact usable_task (hand t (by rw [hp]; rfl))

theorem Late.usables (h : Late s xs) (hand : ∀ t, s.place.task = some t → s.phase t = .stopped)
    (hx : ∀ x ∈ xs, s.phase x = .stopped) : Usables s := by
  have hgoes := h.idle_isSome
  cases h with
  | next hp hr =>
    refine ⟨hgoes, fun a ha => ?_, hr.usable_prev hx⟩
    rw [hp] at ha
    rw [List.mem_singleton.mp ha]
    exact usable_head
  | prev hp hr =>
    refine ⟨hgoes, fun a ha => ?_, by rw [hr]; exact usable_head⟩
    rw [hp] at ha
    rw [List.mem_singleton.mp ha]
    exact usable_head
  | added hp hr =>
    refine ⟨hgoes, fun a ha => ?_, hr.usable_prev hx⟩
    rw [hp] at ha
    rw [List.mem_singleton.mp ha]
    exact usable_head
  | @dead x hn hprev hl ht =>
    refine ⟨hgoes, fun a ha => ?_, by rw [hprev]; exact usable_task (hx x (List.mem_cons_self ..))⟩
    cases hplace : s.place with
    | wait =>
      rw [hplace] at ha
      rw [List.mem_singleton.mp ha]
      exact usable_head
    | first pos =>
      rw [hplace] at ha hl
      rw [List.mem_singleton.mp ha]
      cases pos with
      | none => exact usable_head
      | some t => cases hl
    | test pos n =>
      rw [hplace] at ha hl
      cases pos with
      | none => cases ha
      | some t => cases hl
    | clearNext t n | clearPrev t n | freeStack t n | freeTcb t n =>
      rw [hplace] at ha
      rw [List.mem_singleton.mp ha]
      exact usable_task (hand t (by rw [hplace]; rfl))
    | load t n p | unlinkNext t n p q | unlinkPrev t n p q =>
      rw [hplace] at hl
      cases hl

/-- **The idle task and the tasks that delete themselves access only** `reap_list` and the nodes of tasks that have
deleted themselves and have not been freed, whatever runs between two of the accesses. -/
theorem reaper_usables {as : List (ReapAct τ)} (hr : run step (init : Reaper τ) as = some s) : Usables s := by
  have hinv := inv_of_run hr
  obtain ⟨xs, hx, hg | hl⟩ := hinv.list
  · exact hg.usables hinv.hand hx
  · exact hl.usables hinv.hand hx

/-- Task 1 has deleted itself while the idle task unlinked task 0: `reap_list.prev` is its node, and `reap_list.next` is
`reap_list`. -/
theorem reaper_usables_two : ∃ s, run step (init : Reaper (Fin 2))
    [.create 0, .create 1, .stop 0, .idle, .idle, .idle, .idle, .idle, .stop 1, .idle, .idle, .idle, .idle, .idle] =
        some s ∧ s.links.next none = some none ∧ s.links.prev none = some (some 1) ∧ Usables s := by
  obtain ⟨s, hr, hp⟩ := exists_run step (init : Reaper (Fin 2))
    [.create 0, .create 1, .stop 0, .idle, .idle, .idle, .idle, .idle, .stop 1, .idle, .idle, .idle, .idle, .idle]
    (fun s => decide (s.links.next none = some none ∧ s.links.prev none = some (some 1))) (by decide)
  exact ⟨s, hr, (of_decide_eq_true hp).1, (of_decide_eq_true hp).2, reaper_usables hr⟩

/-! ### Tasks that are found -/

/-- The idle task finds a task and frees it after at most so many of its steps. -/
inductive Due (s : Reaper τ) (t : τ) : Nat → Prop where
  | list {ys zs : List τ} (hg : Good s (ys ++ t :: zs)) (hx : ∀ x ∈ ys ++ t :: zs, s.phase x = .stopped)
      (ht : s.place.task ≠ some t) : Due s t (12 * (ys.length + 1) + s.place.rank)
  | hand (ht : s.place.task = some t) : Due s t s.place.left

variable {k : Nat}

theorem Due.pos (h : Due s t k) : 0 < k := by
  cases h with
  | list => omega
  | hand ht =>
    cases hp : s.place <;> rw [hp] at ht <;> first | cases ht; done | simp [ReapPlace.left]

/-- The idle task stays with a task until it has freed it. -/
theorem idle_task (hs : s.idle = some s') (ht : s.place.task = some t) :
    s'.place.task = some t ∧ s'.place.left < s.place.left ∨ s'.phase t = .gone := by
  cases hp : s.place with
  | wait | first pos | test pos n =>
    rw [hp] at ht
    cases ht
  | freeTcb u n =>
    rw [hp] at ht
    cases ht
    simp only [Reaper.idle, hp] at hs
    obtain ⟨pos, -, rfl⟩ := Option.map_eq_some_iff.mp hs
    exact .inr (Function.update_self ..)
  | load u n p | unlinkNext u n p q | unlinkPrev u n p q | clearNext u n | clearPrev u n | freeStack u n =>
    rw [hp] at ht
    simp only [Reaper.idle, hp] at hs
    cases hs
    exact .inl ⟨ht, by simp [goto, ReapPlace.left]⟩

omit [DecidableEq τ] in
theorem left_le (p : ReapPlace τ) : p.left ≤ 7 := by
  cases p <;> simp [ReapPlace.left]

theorem Due.idle (h : Due s t k) (hs : s.idle = some s') : (∃ k', k' < k ∧ Due s' t k') ∨ s'.phase t = .gone := by
  cases h with
  | hand ht =>
    rcases idle_task hs ht with ⟨ht, hlt⟩ | hgone
    · exact .inl ⟨_, hlt, .hand ht⟩
    · exact .inr hgone
  | @list ys zs hg hx ht =>
    have hphase : ∀ x ∈ ys ++ t :: zs, s'.phase x = .stopped := fun x hxs => by rw [hg.idle_phase hs hxs, hx x hxs]
    by_cases ht' : s'.place.task = some t
    · have := left_le s'.place
      exact .inl ⟨_, by omega, .hand ht'⟩
    · cases hg.idle hs with
      | same hg' _ hrank =>
        rcases hrank with ⟨-, hxs⟩ | hrank
        · simp at hxs
        · exact .inl ⟨_, by omega, .list hg' hphase ht'⟩
      | @unlink e rest hxs hg' he _ hrank =>
        -- the first task is another, as the idle task deals with it
        cases ys with
        | nil =>
          cases hxs
          exact absurd he ht
        | cons y ys =>
          cases hxs
          refine .inl ⟨_, ?_, .list hg' (fun x hxs => hphase x (List.mem_cons_of_mem _ hxs)) ht'⟩
          rw [List.length_cons]
          omega

theorem Due.rephase {ph : TaskPhase} (h : Due s t k) (hu : s.phase u ≠ .stopped) :
    Due { s with phase := Function.update s.phase u ph } t k := by
  cases h with
  | hand ht => exact .hand (s := { s with phase := Function.update s.phase u ph }) ht
  | list hg hx ht =>
    exact .list (s := { s with phase := Function.update s.phase u ph }) (hg.congr rfl rfl) (phase_stopped_of_ne hx hu) ht

/-- The steps of other tasks do not delay it: a task that is lost can only follow one that is being unlinked. -/
theorem Due.step {a : ReapAct τ} (h : Due s t k) (hinv : Inv s) (hs : s.step a = some s') (ha : a ≠ .idle) :
    Due s' t k := by
  cases a with
  | idle => exact absurd rfl ha
  | stop u =>
    simp only [Reaper.step] at hs
    split at hs
    · rename_i hu
      cases hs
      cases h with
      | hand ht => exact .hand (s := s.added u) ht
      | @list ys zs hg hx ht =>
        rcases hg.stop (not_mem_of_running hx hu) (hinv.task_ne_of_running hu) with ⟨-, hg'⟩ | ⟨-, ⟨e, hxs, he⟩, -⟩
        · rw [List.append_assoc, List.cons_append] at hg'
          refine .list (s := s.added u) hg' (fun x hxs => added_phase hx ?_) ht
          simpa [or_assoc] using hxs
        · cases ys with
          | nil =>
            cases hxs
            exact absurd he ht
          | cons y ys => simp at hxs
    · cases hs
  | delete u | create u =>
    simp only [Reaper.step] at hs
    split at hs
    · rename_i hu
      cases hs
      exact h.rephase (by rw [hu]; simp)
    · cases hs

/-- A task that is due is freed in every run in which the idle task takes enough steps. -/
theorem Due.visits {as : List (ReapAct τ)} (h : Due s t k) (hinv : Inv s)
    (hr : Transition.run Reaper.step s as = some s') (hk : k ≤ as.count .idle) :
    Visits Reaper.step (·.phase t = .gone) s as := by
  induction as generalizing s k with
  | nil =>
    have := h.pos
    rw [List.count_nil] at hk
    omega
  | cons a as ih =>
    rw [Transition.run] at hr
    obtain ⟨m, hs, hr'⟩ := Option.bind_eq_some_iff.mp hr
    refine (visits_cons hs).mpr (.inr ?_)
    by_cases ha : a = .idle
    · subst ha
      rw [List.count_cons_self] at hk
      rcases h.idle hs with ⟨k', hk', h'⟩ | hgone
      · exact ih h' (hinv.step hs) hr' (by omega)
      · cases as with
        | nil => exact hgone
        | cons => exact .inl hgone
    · rw [List.count_cons_of_ne ha] at hk
      exact ih (h.step hinv hs ha) (hinv.step hs) hr' hk

/-! ### Tasks that are lost -/

/-- A task has deleted itself, and the idle task will not find it. -/
structure Lost (s : Reaper τ) (t : τ) : Prop where
  inv : Inv s
  phase : s.phase t = .stopped
  task : s.place.task ≠ some t
  list : ∃ xs, (∀ x ∈ xs, s.phase x = .stopped) ∧ (Good s xs ∧ t ∉ xs ∨ Late s xs)

theorem Lost.idle (h : Lost s t) (hs : s.idle = some s') : Lost s' t := by
  have hinv : Inv s' := h.inv.step (a := .idle) hs
  have hphase : s'.phase t = .stopped := by
    rw [idle_phase hs fun n hp => h.task (by rw [hp]; rfl), h.phase]
  obtain ⟨xs, hx, hlist⟩ := h.list
  rcases hlist with ⟨hg, ht⟩ | hl
  · have hphases : ∀ x ∈ xs, s'.phase x = .stopped := fun x hxs => by rw [hg.idle_phase hs hxs, hx x hxs]
    cases hg.idle hs with
    | same hg' htask =>
      exact ⟨hinv, hphase, fun e => (htask t e).elim ht h.task, xs, hphases, .inl ⟨hg', ht⟩⟩
    | @unlink e ys hxs hg' he he' =>
      subst hxs
      refine ⟨hinv, hphase, fun e' => h.task (he.trans (he'.symm.trans e')), ys, ?_, .inl ⟨hg', ?_⟩⟩
      · exact fun x hxs => hphases x (List.mem_cons_of_mem _ hxs)
      · exact fun hm => ht (List.mem_cons_of_mem _ hm)
  · obtain ⟨hl', htask⟩ := hl.idle hs
    refine ⟨hinv, hphase, fun e => h.task (htask t e), ?_⟩
    rcases hl' with ⟨ys, hl', hys⟩ | hg
    · exact ⟨ys, fun x hxs => by rw [hl.idle_phase hs (hys x hxs), hx x (hys x hxs)], .inr hl'⟩
    · exact ⟨[], by simp, .inl ⟨hg, by simp⟩⟩

/-- What becomes of tasks that have not deleted themselves does not matter. -/
theorem Lost.rephase {ph : TaskPhase} (h : Lost s t) (hu : s.phase u ≠ .stopped) :
    Lost { s with phase := Function.update s.phase u ph } t := by
  obtain ⟨xs, hx, hlist⟩ := h.list
  refine ⟨h.inv.rephase hu, ?_, h.task, xs, phase_stopped_of_ne hx hu,
    hlist.imp (fun hg => ⟨hg.1.congr rfl rfl, hg.2⟩) (·.congr rfl rfl)⟩
  refine (Function.update_of_ne ?_ _ _).trans h.phase
  rintro rfl
  exact hu h.phase

/-- **A task that is lost stays lost.** -/
theorem Lost.step {a : ReapAct τ} (h : Lost s t) (hs : s.step a = some s') : Lost s' t := by
  have hinv := h.inv.step hs
  cases a with
  | idle => exact h.idle hs
  | stop u =>
    simp only [Reaper.step] at hs
    split at hs
    · rename_i hu
      cases hs
      obtain ⟨xs, hx, hlist⟩ := h.list
      have hmem := not_mem_of_running hx hu
      have hne := h.inv.task_ne_of_running hu
      have htu : t ≠ u := by
        rintro rfl
        rw [h.phase] at hu
        cases hu
      have hphase : (s.added u).phase t = .stopped := (Function.update_of_ne htu _ _).trans h.phase
      refine ⟨hinv, hphase, h.task, ?_⟩
      have hlate : ∀ ys, Late (s.added u) ys → (∀ y ∈ ys, y ∈ xs ∨ y = u) →
          ∃ zs, (∀ z ∈ zs, (s.added u).phase z = .stopped) ∧ (Good (s.added u) zs ∧ t ∉ zs ∨ Late (s.added u) zs) :=
        fun ys hl hys => ⟨ys, fun y hy => added_phase hx (hys y hy), .inr hl⟩
      rcases hlist with ⟨hg, ht⟩ | hl
      · rcases hg.stop hmem hne with ⟨-, hg'⟩ | ⟨-, -, ys, hl', hys⟩
        · refine ⟨xs ++ [u], fun x hxs => added_phase hx (by simpa using hxs), .inl ⟨hg', ?_⟩⟩
          rw [List.mem_append, not_or, List.mem_singleton]
          exact ⟨ht, htu⟩
        · exact hlate ys hl' hys
      · obtain ⟨ys, hl', hys⟩ := hl.stop hmem hne
        exact hlate ys hl' hys
    · cases hs
  | delete u =>
    simp only [Reaper.step] at hs
    split at hs
    · rename_i hu
      cases hs
      exact h.rephase (by rw [hu]; simp)
    · cases hs
  | create u =>
    simp only [Reaper.step] at hs
    split at hs
    · rename_i hu
      cases hs
      exact h.rephase (by rw [hu]; simp)
    · cases hs

omit [DecidableEq τ] in
theorem Late.not_inTime (h : Late s xs) : ¬ s.InTime := by
  rintro ⟨hplace, hring⟩
  cases h with
  | next hp => exact (hplace _ _ _).1 hp
  | prev hp | added hp => exact (hplace _ _ _).2 hp
  | dead hn hp =>
    rw [hring hn] at hp
    cases hp

/-- **A task that deletes itself is freed exactly if it does so in time**: the idle task is not between the load of the
`next` field of the last task and the end of `__aixos_list_del`, and was not between the two stores when another deleted
itself. It is freed after some number of steps of the idle task, whatever the other tasks do, or never. -/
theorem freed_iff_inTime {as : List (ReapAct τ)} (hr : run step (init : Reaper τ) as = some s)
    (hs : s.step (.stop t) = some s') :
    (s.InTime → ∃ n, ∀ bs s'', run step s' bs = some s'' → n ≤ bs.count .idle → Visits step (·.phase t = .gone) s' bs) ∧
      (¬ s.InTime → ∀ bs s'', run step s' bs = some s'' → s''.phase t = .stopped) := by
  have hinv := inv_of_run hr
  have hinv' := hinv.step hs
  simp only [Reaper.step] at hs
  split at hs
  · rename_i hu
    cases hs
    obtain ⟨xs, hx, hlist⟩ := hinv.list
    have hmem := not_mem_of_running hx hu
    have hne := hinv.task_ne_of_running hu
    have hself : (s.added t).phase t = .stopped := Function.update_self ..
    -- a task that is lost is never freed
    have hlost : ∀ ys, Late (s.added t) ys → (∀ y ∈ ys, y ∈ xs ∨ y = t) →
        ∀ bs s'', run Reaper.step (s.added t) bs = some s'' → s''.phase t = .stopped := by
      intro ys hl hys bs s'' hrun
      have h : Lost (s.added t) t :=
        ⟨hinv', hself, hne, ys, fun y hy => added_phase hx (hys y hy), .inr hl⟩
      exact ((path_iff_run.mpr hrun).invariant (fun _ _ _ h _ hs => Lost.step h hs) h).phase
    rcases hlist with hg | hl
    · rcases hg.stop hmem hne with ⟨hin, hg'⟩ | ⟨hin, -, ys, hl', hys⟩
      · have hdue : Due (s.added t) t _ := .list hg' (fun x hxs => added_phase hx (by simpa using hxs)) hne
        exact ⟨fun _ => ⟨_, fun bs s'' hrun hn => hdue.visits hinv' hrun hn⟩, absurd hin⟩
      · exact ⟨fun h => absurd h hin, fun _ => hlost ys hl' hys⟩
    · obtain ⟨ys, hl', hys⟩ := hl.stop hmem hne
      exact ⟨fun h => absurd h hl.not_inTime, fun _ => hlost ys hl' hys⟩
  · cases hs

/-- Task 1 deletes itself while the idle task unlinks task 0. -/
theorem freed_iff_inTime_two : ∃ s s', run step (init : Reaper (Fin 2))
    [.create 0, .create 1, .stop 0, .idle, .idle, .idle, .idle] = some s ∧ s.step (.stop 1) = some s' ∧
      ∀ bs s'', run step s' bs = some s'' → s''.phase 1 = .stopped := by
  obtain ⟨s, s', hr, hs, hp⟩ := exists_run_step step (init : Reaper (Fin 2))
    [.create 0, .create 1, .stop 0, .idle, .idle, .idle, .idle] (.stop 1)
    (fun s _ => decide (s.place = .unlinkNext 0 (some none) (some none) (some none))) (by decide)
  exact ⟨s, s', hr, hs, (freed_iff_inTime hr hs).2 fun hin => (hin.1 _ _ _).1 (of_decide_eq_true hp)⟩

end Reaper

end Aixos
