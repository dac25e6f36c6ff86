import Aixos.Kernel.Keys
import Aixos.Library.Transition

/-!
# Values belong to the key under which they were stored

* `Stored` — a task has stored a value under the key that is in a slot now, and it has not been cleared.
* `KeyData` — generations and values, as events change them; `KeyData.stored_iff` tells what a task has stored from them.
* `Keys.values_of_key` — `aixos_pthread_getspecific` and the destructors get these values and no others.
-/

namespace Aixos.Posix

open Transition

variable {τ δ : Type} [DecidableEq τ] {t u : τ} {k : ℕ} {v w : Word} {es : List (KeyEvent τ δ)} {e : KeyEvent τ δ}

/-! ### What has been stored -/

namespace KeyEvent

/-- A key has been created in slot `k`. -/
def creates (k : ℕ) : KeyEvent τ δ → Bool
  | .created key => key = k
  | .began _ | .stored .. | .exits _ | .round _ | .destroys .. => false

/-- What task `t` has stored in slot `k` before is there no more. -/
def ends (t : τ) (k : ℕ) : KeyEvent τ δ → Bool
  | .began t' => t' = t
  | .created key => key = k
  | .stored t' key _ | .destroys t' key .. => t' = t ∧ key = k
  | .exits _ | .round _ => false

end KeyEvent

/-- Task `t` has stored `v` in slot `k`; since then no key has been created there, the task has stored nothing else there,
and no destructor has been called with it. -/
def Stored (es : List (KeyEvent τ δ)) (t : τ) (k : ℕ) (v : Word) : Prop :=
  ∃ pre post, es = pre ++ .stored t k v :: post ∧ ∀ e ∈ post, e.ends t k = false

theorem not_stored_nil : ¬ Stored ([] : List (KeyEvent τ δ)) t k v := by
  rintro ⟨pre, post, heq, -⟩
  exact absurd heq.symm (by simp)

theorem stored_append : Stored (es ++ [e]) t k v ↔ e = .stored t k v ∨ Stored es t k v ∧ e.ends t k = false := by
  constructor
  · rintro ⟨pre, post, heq, hpost⟩
    rcases List.eq_nil_or_concat post with rfl | ⟨post', x, rfl⟩
    · obtain ⟨-, e'⟩ := List.append_inj' heq rfl
      exact .inl (List.singleton_inj.mp e')
    · rw [List.concat_eq_append] at heq hpost
      rw [← List.cons_append, ← List.append_assoc] at heq
      obtain ⟨hpre, e'⟩ := List.append_inj' heq rfl
      cases List.singleton_inj.mp e'
      exact .inr ⟨⟨pre, post', hpre, fun x hx => hpost x (List.mem_append_left _ hx)⟩,
        hpost e (List.mem_append_right _ (List.mem_singleton.mpr rfl))⟩
  · rintro (rfl | ⟨⟨pre, post, rfl, hpost⟩, he⟩)
    · exact ⟨es, [], rfl, fun e he => absurd he List.not_mem_nil⟩
    · refine ⟨pre, post ++ [e], by simp, fun x hx => ?_⟩
      rcases List.mem_append.mp hx with hx | hx
      · exact hpost x hx
      · cases List.mem_singleton.mp hx
        exact he

theorem stored_append_of_ends (he : e.ends t k = true) : Stored (es ++ [e]) t k v ↔ e = .stored t k v := by
  rw [stored_append, he]
  simp

theorem stored_append_of_not (he : e.ends t k = false) : Stored (es ++ [e]) t k v ↔ Stored es t k v := by
  rw [stored_append, he]
  refine ⟨fun h => h.elim (fun h => ?_) And.left, fun h => .inr ⟨h, rfl⟩⟩
  subst h
  simp [KeyEvent.ends] at he

/-! ### Generations and values -/

/-- Generations and values. -/
@[ext] structure KeyData (τ : Type) where
  /-- `generation` of every key -/
  generation : ℕ → Word
  /-- `posix_key_generations` of every task -/
  generations : τ → ℕ → Word
  /-- `posix_values` of every task -/
  values : τ → ℕ → Word

namespace KeyData

/-- At the start. -/
def init : KeyData τ := { generation := fun _ => 0, generations := fun _ _ => 0, values := fun _ _ => 0 }

/-- What an event does to them. -/
def see (d : KeyData τ) : KeyEvent τ δ → KeyData τ
  | .began t => { d with
      generations := Function.update d.generations t fun _ => 0
      values := Function.update d.values t fun _ => 0 }
  | .created k => { d with generation := Function.update d.generation k (Keys.nextGeneration (d.generation k)) }
  | .stored t k v => { d with
      generations := Function.update d.generations t (Function.update (d.generations t) k (d.generation k))
      values := Function.update d.values t (Function.update (d.values t) k v) }
  | .destroys t k .. => { d with values := Function.update d.values t (Function.update (d.values t) k 0) }
  | .exits _ | .round _ => d

/-- What is known after the events `es`, for slot `k`: the key there is of the generation that counts the keys created
there, and a task's value is what it has stored under it if its generation is the same. -/
def Tells (d : KeyData τ) (es : List (KeyEvent τ δ)) (k : ℕ) : Prop :=
  d.generation k = BitVec.ofNat 32 (es.countP (KeyEvent.creates k)) ∧
  ∀ t, ∃ b ≤ es.countP (KeyEvent.creates k), d.generations t k = BitVec.ofNat 32 b ∧
    ∀ v, v ≠ 0 → (Stored es t k v ↔ b = es.countP (KeyEvent.creates k) ∧ d.values t k = v)

variable {d : KeyData τ}

omit [DecidableEq τ] in
theorem countP_append_creates (he : e.creates k = false) :
    (es ++ [e]).countP (KeyEvent.creates k) = es.countP (KeyEvent.creates k) := by
  rw [List.countP_append, List.countP_singleton, he]
  rfl

/-- Nothing is created in the slot; what is known of the tasks remains to be shown. -/
theorem Tells.see_of (h : d.Tells es k) (hc : e.creates k = false) (hg : (d.see e).generation k = d.generation k)
    (ht : ∀ t, (e.ends t k = false ∧ (d.see e).generations t k = d.generations t k ∧ (d.see e).values t k = d.values t k) ∨
      (e.ends t k = true ∧ (∀ v, e ≠ .stored t k v) ∧ (d.see e).values t k = 0 ∧
        ((d.see e).generations t k = d.generations t k ∨ (d.see e).generations t k = 0)) ∨
      ∃ v, e = .stored t k v ∧ (d.see e).generations t k = d.generation k ∧ (d.see e).values t k = v) :
    (d.see e).Tells (es ++ [e]) k := by
  rw [Tells, countP_append_creates hc, hg]
  refine ⟨h.1, fun t => ?_⟩
  obtain ⟨b, hb, hbt, hv⟩ := h.2 t
  rcases ht t with ⟨hne, hgt, hvt⟩ | ⟨he, hns, hvt, hgt⟩ | ⟨v, rfl, hgt, hvt⟩
  · refine ⟨b, hb, by rw [hgt, hbt], fun v hv0 => ?_⟩
    rw [stored_append_of_not hne, hvt]
    exact hv v hv0
  · have hnone : ∀ b v, v ≠ 0 → (Stored (es ++ [e]) t k v ↔
        b = es.countP (KeyEvent.creates k) ∧ (d.see e).values t k = v) := fun b v hv0 => by
      rw [stored_append_of_ends he, hvt]
      exact iff_of_false (hns v) fun h => hv0 h.2.symm
    rcases hgt with hgt | hgt
    · exact ⟨b, hb, by rw [hgt, hbt], hnone b⟩
    · exact ⟨0, Nat.zero_le _, hgt, hnone 0⟩
  · refine ⟨es.countP (KeyEvent.creates k), le_rfl, by rw [hgt, h.1], fun w _ => ?_⟩
    rw [stored_append_of_ends (by simp [KeyEvent.ends]), hvt]
    simp

/-- The counter of a slot goes on by one, as long as it does not come round. -/
theorem nextGeneration_ofNat {n : ℕ} (h : n + 1 < 2 ^ 32) :
    Keys.nextGeneration (BitVec.ofNat 32 n) = BitVec.ofNat 32 (n + 1) := by
  have hadd : BitVec.ofNat 32 n + 1 = BitVec.ofNat 32 (n + 1) := (BitVec.ofNat_add n 1).symm
  rw [Keys.nextGeneration, hadd, if_neg fun h0 => ?_]
  have := congrArg BitVec.toNat h0
  rw [BitVec.toNat_ofNat, Nat.mod_eq_of_lt h] at this
  simp at this

theorem Tells.see (h : d.Tells es k) (hfew : (es ++ [e]).countP (KeyEvent.creates k) < 2 ^ 32) :
    (d.see e).Tells (es ++ [e]) k := by
  cases e with
  | began t =>
    refine h.see_of rfl rfl fun u => ?_
    by_cases hu : u = t
    · subst hu
      exact .inr (.inl ⟨by simp [KeyEvent.ends], by simp, by simp [KeyData.see], .inr (by simp [KeyData.see])⟩)
    · exact .inl ⟨by simpa [KeyEvent.ends] using Ne.symm hu, by simp [KeyData.see, hu], by simp [KeyData.see, hu]⟩
  | created key =>
    by_cases hk : key = k
    · subst hk
      have hcount : (es ++ [KeyEvent.created key]).countP (KeyEvent.creates key) = es.countP (KeyEvent.creates key) + 1 := by
        rw [List.countP_append, List.countP_singleton]
        simp [KeyEvent.creates]
      rw [hcount] at hfew
      rw [Tells, hcount]
      refine ⟨?_, fun t => ?_⟩
      · show Function.update d.generation key _ key = _
        rw [Function.update_self, h.1, nextGeneration_ofNat hfew]
      · obtain ⟨b, hb, hbt, -⟩ := h.2 t
        refine ⟨b, hb.trans (Nat.le_succ _), hbt, fun v _ => ?_⟩
        rw [stored_append_of_ends (by simp [KeyEvent.ends])]
        exact iff_of_false (by simp) fun h => absurd h.1 (by omega)
    · exact h.see_of (by simpa [KeyEvent.creates] using hk) (Function.update_of_ne (Ne.symm hk) ..) fun u =>
        .inl ⟨by simpa [KeyEvent.ends] using hk, rfl, rfl⟩
  | stored t key v =>
    refine h.see_of rfl rfl fun u => ?_
    by_cases hu : u = t ∧ key = k
    · obtain ⟨rfl, rfl⟩ := hu
      exact .inr (.inr ⟨v, rfl, by simp [KeyData.see], by simp [KeyData.see]⟩)
    · refine .inl ⟨decide_eq_false fun h => hu ⟨h.1.symm, h.2⟩, ?_, ?_⟩
      all_goals
        by_cases hut : u = t
        · subst hut
          have hk : k ≠ key := fun h => hu ⟨rfl, h.symm⟩
          simp [KeyData.see, hk]
        · simp [KeyData.see, hut]
  | destroys t key destructor v =>
    refine h.see_of rfl rfl fun u => ?_
    by_cases hu : u = t ∧ key = k
    · obtain ⟨rfl, rfl⟩ := hu
      exact .inr (.inl ⟨by simp [KeyEvent.ends], by simp, by simp [KeyData.see], .inl rfl⟩)
    · refine .inl ⟨decide_eq_false fun h => hu ⟨h.1.symm, h.2⟩, rfl, ?_⟩
      by_cases hut : u = t
      · subst hut
        have hk : k ≠ key := fun h => hu ⟨rfl, h.symm⟩
        simp [KeyData.see, hk]
      · simp [KeyData.see, hut]
  | exits t | round t => exact h.see_of rfl rfl fun u => .inl ⟨rfl, rfl, rfl⟩

/-- **What is known after any events**, if not too many keys have been created in the slot. -/
theorem tells_foldl (hfew : es.countP (KeyEvent.creates k) < 2 ^ 32) : (es.foldl KeyData.see init).Tells es k := by
  induction es using List.reverseRecOn with
  | nil =>
    exact ⟨rfl, fun t => ⟨0, le_rfl, rfl, fun v hv => iff_of_false not_stored_nil fun h => hv h.2.symm⟩⟩
  | append_singleton es e ih =>
    rw [List.foldl_append]
    exact (ih (lt_of_le_of_lt (by rw [List.countP_append]; exact Nat.le_add_right ..) hfew)).see hfew

/-- Whether a task has stored a value under the key of a slot can be seen from the generations. -/
theorem Tells.stored_iff (h : d.Tells es k) (hfew : es.countP (KeyEvent.creates k) < 2 ^ 32) (hv : v ≠ 0) :
    Stored es t k v ↔ d.generations t k = d.generation k ∧ d.values t k = v := by
  obtain ⟨hg, ht⟩ := h
  obtain ⟨b, hb, hbt, hs⟩ := ht t
  rw [hs v hv, hbt, hg]
  refine and_congr_left' ⟨fun h => by rw [h], fun h => ?_⟩
  have := congrArg BitVec.toNat h
  rwa [BitVec.toNat_ofNat, BitVec.toNat_ofNat, Nat.mod_eq_of_lt (by omega), Nat.mod_eq_of_lt hfew] at this

end KeyData

/-! ### Rounds -/

/-- A round of task `t` begins. -/
def KeyEvent.isRound (t : τ) : KeyEvent τ δ → Bool
  | .round t' => t' = t
  | .began _ | .created _ | .stored .. | .exits _ | .destroys .. => false

/-- Task `t` begins, or begins to exit. -/
def KeyEvent.renews (t : τ) : KeyEvent τ δ → Bool
  | .began t' | .exits t' => t' = t
  | .created _ | .stored .. | .round _ | .destroys .. => false

/-- How many rounds a task has begun since it began to exit. -/
def rounds (t : τ) (es : List (KeyEvent τ δ)) : ℕ :=
  es.foldl (fun n e => if e.renews t then 0 else if e.isRound t then n + 1 else n) 0

theorem rounds_append (t : τ) : rounds t (es ++ [e]) =
    if e.renews t then 0 else if e.isRound t then rounds t es + 1 else rounds t es := by
  rw [rounds, List.foldl_append]
  rfl

/-- The rounds after a task has begun to exit are counted. -/
theorem rounds_exits {pre mid : List (KeyEvent τ δ)} (h : ∀ e ∈ mid, e.renews t = false) :
    rounds t (pre ++ .exits t :: mid) = mid.countP (KeyEvent.isRound t) := by
  induction mid using List.reverseRecOn with
  | nil =>
    rw [rounds_append]
    simp [KeyEvent.renews]
  | append_singleton mid e ih =>
    have he : e.renews t = false := h e (List.mem_append_right _ (List.mem_singleton.mpr rfl))
    rw [← List.cons_append, ← List.append_assoc, rounds_append, he, if_neg Bool.false_ne_true,
      ih fun x hx => h x (List.mem_append_left _ hx), List.countP_append, List.countP_singleton]
    split <;> rfl

/-- At all times every task has begun at most four rounds since it began to exit. -/
def FourRounds (es : List (KeyEvent τ δ)) : Prop := ∀ pre, pre <+: es → ∀ t, rounds t pre ≤ 4

theorem FourRounds.append (h : FourRounds es) (he : ∀ t, rounds t (es ++ [e]) ≤ 4) : FourRounds (es ++ [e]) := by
  intro pre hpre t
  rcases List.prefix_concat_iff.mp hpre with rfl | hpre
  · exact he t
  · exact h pre hpre t

namespace Keys

variable [KeyConfig] {s s' : Keys τ δ} {a : KeyAct τ δ}

/-- The generations and values of a state. -/
def data (s : Keys τ δ) : KeyData τ where
  generation := Key.generation ∘ s.keys
  generations := KeyTask.generations ∘ s.tasks
  values := KeyTask.values ∘ s.tasks

omit [DecidableEq τ] [KeyConfig] in
theorem data_setKey (s : Keys τ δ) (k : ℕ) (key : Key δ) :
    (s.setKey k key).data = { s.data with generation := Function.update s.data.generation k key.generation } := by
  simp only [data, setKey, Function.comp_update]

omit [KeyConfig] in
theorem data_setTask (s : Keys τ δ) (t : τ) (task : KeyTask) : (s.setTask t task).data = { s.data with
    generations := Function.update s.data.generations t task.generations
    values := Function.update s.data.values t task.values } := by
  simp only [data, setTask, Function.comp_update]

omit [KeyConfig] in
/-- A task that only goes to another place. -/
theorem data_goto {task : KeyTask} (hg : task.generations = (s.tasks t).generations)
    (hv : task.values = (s.tasks t).values) : (s.setTask t task).data = s.data := by
  rw [data_setTask, hg, hv]
  exact KeyData.ext rfl (Function.update_eq_self t s.data.generations) (Function.update_eq_self t s.data.values)

theorem data_loop (s : Keys τ δ) (t : τ) (l : DestructorLoop) (ls : List DestructorLoop) :
    (s.loop t l ls).1.data = (s.loop t l ls).2.foldl KeyData.see s.data := by
  unfold loop
  split
  · split
    · rw [data_setTask]
      exact KeyData.ext rfl (Function.update_eq_self t s.data.generations) rfl
    · exact data_goto rfl rfl
  · split
    · exact data_goto rfl rfl
    · exact data_goto rfl rfl

/-- **A step changes generations and values as what is seen of it tells.** -/
theorem data_step (h : s.step a = some s') : s'.data = (s.observe a).foldl KeyData.see s.data := by
  obtain ⟨⟨s', es⟩, hx, rfl⟩ := Option.map_eq_some_iff.mp h
  rw [observe, hx]
  show s'.data = es.foldl KeyData.see s.data
  cases a with
  | begins t =>
    cases hx
    exact data_setTask ..
  | create t nullKey destructor =>
    obtain ⟨-, hx⟩ := Option.ite_none_right_eq_some.mp hx
    unfold create at hx
    by_cases hn : nullKey = true
    · rw [if_pos hn] at hx
      cases hx
      rfl
    · rw [if_neg hn] at hx
      cases hf : (List.range KeyConfig.posixKeys).find? (fun k => !(s.keys k).used) with
      | none =>
        rw [hf] at hx
        cases hx
        rfl
      | some k =>
        rw [hf] at hx
        cases hx
        exact data_setKey ..
  | delete t k =>
    obtain ⟨-, hx⟩ := Option.ite_none_right_eq_some.mp hx
    cases hx
    unfold delete
    split
    · rfl
    · rw [data_setKey]
      exact KeyData.ext (Function.update_eq_self k s.data.generation) rfl rfl
  | setspecific t k v =>
    obtain ⟨-, hx⟩ := Option.ite_none_right_eq_some.mp hx
    cases hx
    unfold setspecific
    by_cases hk : KeyConfig.posixKeys ≤ k ∨ (s.keys k).used = false
    · rw [if_pos hk]
      rfl
    · rw [if_neg hk]
      exact data_setTask ..
  | exit t =>
    obtain ⟨-, hx⟩ := Option.ite_none_right_eq_some.mp hx
    cases hx
    exact data_goto rfl rfl
  | next t =>
    cases hl : (s.tasks t).loops with
    | nil =>
      simp only [exec, hl] at hx
      cases hx
    | cons l ls =>
      simp only [exec, hl] at hx
      obtain ⟨-, hx⟩ := Option.ite_none_left_eq_some.mp hx
      have hloop := data_loop s t l ls
      rw [Option.some.inj hx] at hloop
      exact hloop
  | returns t =>
    cases hl : (s.tasks t).loops with
    | nil =>
      simp only [exec, hl] at hx
      cases hx
    | cons l ls =>
      simp only [exec, hl] at hx
      obtain ⟨-, hx⟩ := Option.ite_none_right_eq_some.mp hx
      cases hx
      exact data_goto rfl rfl

/-! ### Where the tasks are -/

omit [KeyConfig] in
@[simp] theorem setTask_self (s : Keys τ δ) (t : τ) (task : KeyTask) : (s.setTask t task).tasks t = task :=
  Function.update_self ..

omit [KeyConfig] in
theorem setTask_ne (s : Keys τ δ) (task : KeyTask) (h : u ≠ t) : (s.setTask t task).tasks u = s.tasks u :=
  Function.update_of_ne h ..

omit [KeyConfig] in
theorem setTask_setTask (s : Keys τ δ) (t : τ) (task task' : KeyTask) :
    (s.setTask t task).setTask t task' = s.setTask t task' := by
  simp only [setTask, Function.update_idem]

/-- A task in a call of `run_key_destructors` has begun one round more than the call has behind it. -/
structure Placed (s : Keys τ δ) (es : List (KeyEvent τ δ)) : Prop where
  four : FourRounds es
  top : ∀ t, ∀ l ∈ (s.tasks t).loops.head?, rounds t es = l.iteration + 1 ∧ l.iteration < 4

omit [KeyConfig] in
theorem placed_init : Placed (init : Keys τ δ) [] where
  four pre hpre t := by
    rw [List.prefix_nil.mp hpre]
    exact Nat.zero_le _
  top t l hl := by cases hl

omit [KeyConfig] in
theorem Placed.rounds_le (h : Placed s es) (t : τ) : rounds t es ≤ 4 := h.four es (List.prefix_refl es) t

omit [KeyConfig] in
/-- What is seen is no matter of rounds, and every task stays in the round in which it is. -/
theorem Placed.quiet {evs : List (KeyEvent τ δ)} (h : Placed s es)
    (hevs : ∀ e ∈ evs, ∀ u, e.renews u = false ∧ e.isRound u = false)
    (htop : ∀ u, ∀ l ∈ (s'.tasks u).loops.head?, ∃ l₀ ∈ (s.tasks u).loops.head?, l₀.iteration = l.iteration) :
    Placed s' (es ++ evs) := by
  have hrounds : FourRounds (es ++ evs) ∧ ∀ u, rounds u (es ++ evs) = rounds u es := by
    induction evs using List.reverseRecOn with
    | nil =>
      rw [List.append_nil]
      exact ⟨h.four, fun u => rfl⟩
    | append_singleton evs e ih =>
      obtain ⟨hfour, hsame⟩ := ih fun e he => hevs e (List.mem_append_left _ he)
      have he : ∀ u, rounds u (es ++ (evs ++ [e])) = rounds u es := fun u => by
        obtain ⟨hr, hi⟩ := hevs e (List.mem_append_right _ (List.mem_singleton.mpr rfl)) u
        rw [← List.append_assoc, rounds_append, hr, hi, if_neg Bool.false_ne_true, if_neg Bool.false_ne_true, hsame]
      refine ⟨?_, he⟩
      rw [← List.append_assoc] at he ⊢
      exact hfour.append fun u => (he u).le.trans (h.rounds_le u)
  refine ⟨hrounds.1, fun u l hl => ?_⟩
  obtain ⟨l₀, hl₀, e⟩ := htop u l hl
  rw [hrounds.2, ← e]
  exact h.top u l₀ hl₀

omit [KeyConfig] in
/-- The innermost call of one task goes on, in its round. -/
theorem head_setTask {task : KeyTask} {l : DestructorLoop} {ls : List DestructorLoop} (hl : (s.tasks t).loops = l :: ls)
    (ht : ∀ l' ∈ task.loops.head?, l'.iteration = l.iteration) (u : τ) :
    ∀ l' ∈ ((s.setTask t task).tasks u).loops.head?, ∃ l₀ ∈ (s.tasks u).loops.head?, l₀.iteration = l'.iteration := by
  intro l' hl'
  by_cases hu : u = t
  · subst hu
    rw [setTask_self] at hl'
    exact ⟨l, by rw [hl]; rfl, (ht l' hl').symm⟩
  · rw [setTask_ne s _ hu] at hl'
    exact ⟨l', hl', rfl⟩

omit [KeyConfig] in
/-- A task with the same calls. -/
theorem head_setTask_same {task : KeyTask} {l : DestructorLoop} (hl : l ∈ ((s.setTask t task).tasks u).loops.head?)
    (ht : task.loops = (s.tasks t).loops) : l ∈ (s.tasks u).loops.head? := by
  by_cases hu : u = t
  · subst hu
    rwa [setTask_self, ht] at hl
  · rwa [setTask_ne s _ hu] at hl

omit [KeyConfig] in
/-- A round of task `t` begins: the first one of a call, or the next one. -/
theorem Placed.begin_round {task : KeyTask} {l : DestructorLoop} (h : Placed s es) (hl : task.loops.head? = some l)
    (hr : rounds t es = l.iteration) (h4 : l.iteration < 4) : Placed (s.setTask t task) (es ++ [.round t]) := by
  have hself : rounds t (es ++ [.round t]) = l.iteration + 1 := by
    rw [rounds_append, hr]
    simp [KeyEvent.renews, KeyEvent.isRound]
  have hother : ∀ u, u ≠ t → rounds u (es ++ [.round t]) = rounds u es := fun u hu => by
    rw [rounds_append]
    simp [KeyEvent.renews, KeyEvent.isRound, Ne.symm hu]
  refine ⟨h.four.append fun u => ?_, fun u l' hl' => ?_⟩
  · by_cases hu : u = t
    · subst hu
      rw [hself]
      exact h4
    · rw [hother u hu]
      exact h.rounds_le u
  · by_cases hu : u = t
    · subst hu
      rw [setTask_self, hl] at hl'
      cases hl'
      exact ⟨hself, h4⟩
    · rw [setTask_ne s _ hu] at hl'
      rw [hother u hu]
      exact h.top u l' hl'

omit [KeyConfig] in
/-- A task begins, or begins to exit; it is in no round yet. -/
theorem Placed.renew (h : Placed s es) (he : ∀ u, e.renews u = decide (t = u)) (hi : ∀ u, e.isRound u = false) :
    Placed (s.setTask t {}) (es ++ [e]) := by
  have hself : rounds t (es ++ [e]) = 0 := by
    rw [rounds_append, he, if_pos (decide_eq_true rfl)]
  have hother : ∀ u, u ≠ t → rounds u (es ++ [e]) = rounds u es := fun u hu => by
    rw [rounds_append, he, hi, if_neg (by simpa using Ne.symm hu), if_neg Bool.false_ne_true]
  refine ⟨h.four.append fun u => ?_, fun u l hl => ?_⟩
  · by_cases hu : u = t
    · subst hu
      rw [hself]
      exact Nat.zero_le _
    · rw [hother u hu]
      exact h.rounds_le u
  · by_cases hu : u = t
    · subst hu
      rw [setTask_self] at hl
      cases hl
    · rw [setTask_ne s _ hu] at hl
      rw [hother u hu]
      exact h.top u l hl

theorem placed_loop {l : DestructorLoop} {ls : List DestructorLoop} (h : Placed s es)
    (hl : (s.tasks t).loops = l :: ls) : Placed (s.loop t l ls).1 (es ++ (s.loop t l ls).2) := by
  unfold loop
  split
  · split
    · refine h.quiet (fun e he u => ?_) (head_setTask hl ?_)
      · cases List.mem_singleton.mp he
        exact ⟨rfl, rfl⟩
      · rintro l' ⟨⟩
        rfl
    · refine h.quiet (fun e he => absurd he List.not_mem_nil) (head_setTask hl ?_)
      rintro l' ⟨⟩
      rfl
  · split
    next h4 => exact h.begin_round rfl (h.top t l (by rw [hl]; rfl)).1 h4.2
    · exact h.quiet (fun e he => absurd he List.not_mem_nil) fun u l' hl' => ⟨l', head_setTask_same hl' rfl, rfl⟩

theorem placed_step (h : Placed s es) (hstep : s.step a = some s') : Placed s' (es ++ s.observe a) := by
  obtain ⟨⟨s', evs⟩, hx, rfl⟩ := Option.map_eq_some_iff.mp hstep
  rw [observe, hx]
  show Placed s' (es ++ evs)
  cases a with
  | begins t =>
    cases hx
    exact h.renew (fun u => rfl) fun u => rfl
  | create t nullKey destructor =>
    obtain ⟨-, hx⟩ := Option.ite_none_right_eq_some.mp hx
    unfold create at hx
    by_cases hn : nullKey = true
    · rw [if_pos hn] at hx
      cases hx
      exact h.quiet (fun e he => absurd he List.not_mem_nil) fun u l hl => ⟨l, hl, rfl⟩
    · rw [if_neg hn] at hx
      cases hf : (List.range KeyConfig.posixKeys).find? (fun k => !(s.keys k).used) with
      | none =>
        rw [hf] at hx
        cases hx
        exact h.quiet (fun e he => absurd he List.not_mem_nil) fun u l hl => ⟨l, hl, rfl⟩
      | some k =>
        rw [hf] at hx
        cases hx
        refine h.quiet (fun e he u => ?_) fun u l hl => ⟨l, hl, rfl⟩
        cases List.mem_singleton.mp he
        exact ⟨rfl, rfl⟩
  | delete t k =>
    obtain ⟨-, hx⟩ := Option.ite_none_right_eq_some.mp hx
    cases hx
    refine h.quiet (fun e he => absurd he List.not_mem_nil) fun u l hl => ⟨l, ?_, rfl⟩
    unfold delete at hl
    split at hl <;> exact hl
  | setspecific t k v =>
    obtain ⟨-, hx⟩ := Option.ite_none_right_eq_some.mp hx
    cases hx
    refine h.quiet (fun e he u => ?_) fun u l hl => ⟨l, ?_, rfl⟩
    · split at he
      · cases List.mem_singleton.mp he
        exact ⟨rfl, rfl⟩
      · exact absurd he List.not_mem_nil
    · unfold setspecific at hl
      split at hl
      · exact hl
      · exact head_setTask_same hl rfl
  | exit t =>
    obtain ⟨-, hx⟩ := Option.ite_none_right_eq_some.mp hx
    cases hx
    have hrenew := h.renew (t := t) (e := .exits t) (fun u => rfl) fun u => rfl
    have hzero : rounds t (es ++ [.exits t]) = 0 := by
      rw [rounds_append]
      simp [KeyEvent.renews]
    have hround : Placed ((s.setTask t {}).setTask t { s.tasks t with loops := {} :: (s.tasks t).loops })
        (es ++ [.exits t] ++ [.round t]) := hrenew.begin_round rfl hzero (by decide)
    rwa [setTask_setTask, List.append_assoc] at hround
  | next t =>
    cases hl : (s.tasks t).loops with
    | nil =>
      simp only [exec, hl] at hx
      cases hx
    | cons l ls =>
      simp only [exec, hl] at hx
      obtain ⟨-, hx⟩ := Option.ite_none_left_eq_some.mp hx
      have hloop := placed_loop h hl
      rw [Option.some.inj hx] at hloop
      exact hloop
  | returns t =>
    cases hl : (s.tasks t).loops with
    | nil =>
      simp only [exec, hl] at hx
      cases hx
    | cons l ls =>
      simp only [exec, hl] at hx
      obtain ⟨-, hx⟩ := Option.ite_none_right_eq_some.mp hx
      cases hx
      refine h.quiet (fun e he => absurd he List.not_mem_nil) (head_setTask hl ?_)
      rintro l' ⟨⟩
      rfl

/-! ### Every run -/

variable {as : List (KeyAct τ δ)}

theorem data_run (h : run step init as = some s) : s.data = (trace step observe init as).foldl KeyData.see KeyData.init := by
  have hi : s.data = ([] ++ trace step observe init as).foldl KeyData.see KeyData.init :=
    (path_iff_run.mpr h).traced (I := fun s es => s.data = es.foldl KeyData.see KeyData.init)
      (fun s a s' es hs _ hstep => by rw [data_step hstep, hs, List.foldl_append]) rfl
  rwa [List.nil_append] at hi

theorem placed_run (h : run step init as = some s) : Placed s (trace step observe init as) := by
  have hi := (path_iff_run.mpr h).traced (I := Placed) (fun s a s' es hs _ hstep => placed_step hs hstep) placed_init
  rwa [List.nil_append] at hi

/-- A key is in slot `k`. -/
def Live (s : Keys τ δ) (k : ℕ) : Prop := k < KeyConfig.posixKeys ∧ (s.keys k).used = true

omit [DecidableEq τ] in
theorem getspecific_live (h : s.Live k) (hv : v ≠ 0) :
    s.getspecific t k = v ↔ s.data.generations t k = s.data.generation k ∧ s.data.values t k = v := by
  unfold getspecific
  have hlt : ¬ KeyConfig.posixKeys ≤ k := not_le.mpr h.1
  by_cases hg : (s.tasks t).generations k = (s.keys k).generation
  · rw [if_neg (by simp [hlt, h.2, hg])]
    exact ⟨fun h => ⟨hg, h⟩, And.right⟩
  · rw [if_pos (.inr (.inr hg))]
    exact iff_of_false (fun h => hv h.symm) fun h => hg h.1

omit [DecidableEq τ] in
theorem getspecific_dead (h : ¬ s.Live k) : s.getspecific t k = 0 := by
  unfold getspecific
  by_cases hk : KeyConfig.posixKeys ≤ k
  · rw [if_pos (.inl hk)]
  · rw [if_pos (.inr (.inl (by simpa using fun hu => h ⟨not_le.mp hk, hu⟩)))]

/-- The events of a step of `run_key_destructors`. -/
theorem destroys_loop {l : DestructorLoop} {ls : List DestructorLoop} {destructor : δ}
    (h : .destroys u k destructor v ∈ (s.loop t l ls).2) : u = t ∧ k < KeyConfig.posixKeys ∧
      s.due t k = some destructor ∧ v = (s.tasks t).values k := by
  unfold loop at h
  split at h
  next hk =>
    split at h
    next d hd =>
      cases List.mem_singleton.mp h
      exact ⟨rfl, hk, hd, rfl⟩
    · exact absurd h List.not_mem_nil
  · split at h
    · cases List.mem_singleton.mp h
    · exact absurd h List.not_mem_nil

/-- Destructors are called in `run_key_destructors`. -/
theorem destroys_exec {evs : List (KeyEvent τ δ)} {destructor : δ} (hx : s.exec a = some (s', evs))
    (h : .destroys t k destructor v ∈ evs) : ∃ u l ls, .destroys t k destructor v ∈ (s.loop u l ls).2 := by
  cases a with
  | begins u =>
    cases hx
    cases List.mem_singleton.mp h
  | create u nullKey d =>
    obtain ⟨-, hx⟩ := Option.ite_none_right_eq_some.mp hx
    split at hx
    · cases hx
      cases List.mem_singleton.mp h
    · cases hx
      exact absurd h List.not_mem_nil
  | delete u k =>
    obtain ⟨-, hx⟩ := Option.ite_none_right_eq_some.mp hx
    cases hx
    exact absurd h List.not_mem_nil
  | setspecific u k v =>
    obtain ⟨-, hx⟩ := Option.ite_none_right_eq_some.mp hx
    cases hx
    split at h
    · cases List.mem_singleton.mp h
    · exact absurd h List.not_mem_nil
  | exit u =>
    obtain ⟨-, hx⟩ := Option.ite_none_right_eq_some.mp hx
    cases hx
    simp at h
  | next u =>
    cases hl : (s.tasks u).loops with
    | nil =>
      simp only [exec, hl] at hx
      cases hx
    | cons l ls =>
      simp only [exec, hl] at hx
      obtain ⟨-, hx⟩ := Option.ite_none_left_eq_some.mp hx
      exact ⟨u, l, ls, by rwa [Option.some.inj hx]⟩
  | returns u =>
    cases hl : (s.tasks u).loops with
    | nil =>
      simp only [exec, hl] at hx
      cases hx
    | cons l ls =>
      simp only [exec, hl] at hx
      obtain ⟨-, hx⟩ := Option.ite_none_right_eq_some.mp hx
      cases hx
      exact absurd h List.not_mem_nil

/-- A destructor is called for a key in its slot, with the value that `aixos_pthread_getspecific` gives. -/
theorem destroys_step {destructor : δ} (hstep : s.step a = some s') (h : .destroys t k destructor v ∈ s.observe a) :
    s.Live k ∧ (s.keys k).destructor = some destructor ∧ v ≠ 0 ∧ s.getspecific t k = v := by
  obtain ⟨⟨s', evs⟩, hx, rfl⟩ := Option.map_eq_some_iff.mp hstep
  rw [observe, hx] at h
  obtain ⟨u, l, ls, hloop⟩ := destroys_exec hx h
  obtain ⟨rfl, hk, hdue, rfl⟩ := destroys_loop hloop
  unfold due at hdue
  obtain ⟨⟨hu, hg, hv⟩, hd⟩ := Option.ite_none_right_eq_some.mp hdue
  exact ⟨⟨hk, hu⟩, hd, hv, (getspecific_live ⟨hk, hu⟩ hv).mpr ⟨hg, rfl⟩⟩

/-- **Values belong to keys**, whatever the tasks do, if fewer than 2³² keys have been created in slot `k`. While a key
is there, `aixos_pthread_getspecific` gives a task what it has stored under this key, and `NULL` if it has stored nothing
since the key was created, or the destructor has been called with it; while no key is there, it gives `NULL`. A destructor
is that of the key that is there, and is called with what the task has stored under it, which is not `NULL`. A task that
exits begins at most four rounds. -/
theorem values_of_key (h : run step init as = some s)
    (hfew : (trace step observe init as).countP (KeyEvent.creates k) < 2 ^ 32) :
    (∀ t v, v ≠ 0 → s.Live k → (s.getspecific t k = v ↔ Stored (trace step observe init as) t k v)) ∧
    (∀ t, ¬ s.Live k → s.getspecific t k = 0) ∧
    (∀ a s' t destructor v, s.step a = some s' → .destroys t k destructor v ∈ s.observe a →
      s.Live k ∧ (s.keys k).destructor = some destructor ∧ v ≠ 0 ∧ Stored (trace step observe init as) t k v) ∧
    ∀ pre mid post t, trace step observe init as = pre ++ .exits t :: (mid ++ post) →
      (∀ e ∈ mid, e.renews t = false) → mid.countP (KeyEvent.isRound t) ≤ 4 := by
  have htells : s.data.Tells (trace step observe init as) k := by
    rw [data_run h]
    exact KeyData.tells_foldl hfew
  have hstored : ∀ t v, v ≠ 0 → s.Live k → (s.getspecific t k = v ↔ Stored (trace step observe init as) t k v) :=
    fun t v hv hk => (getspecific_live hk hv).trans (htells.stored_iff hfew hv).symm
  refine ⟨hstored, fun t => getspecific_dead, fun a s' t destructor v hstep hd => ?_, fun pre mid post t heq hmid => ?_⟩
  · obtain ⟨hk, hdes, hv, hget⟩ := destroys_step hstep hd
    exact ⟨hk, hdes, hv, (hstored t v hv hk).mp hget⟩
  · have hpre : pre ++ .exits t :: mid <+: trace step observe init as := ⟨post, by rw [heq]; simp⟩
    have hle := (placed_run h).four _ hpre t
    rwa [rounds_exits hmid] at hle

end Keys

attribute [local instance] KeyConfig.default

namespace Keys

/-- A key is deleted, and another is created in its slot; then the task exits. -/
def reusedSlot : List (KeyAct ℕ ℕ) :=
  [.create 0 false (some 1), .setspecific 0 0 7, .delete 0 0, .create 1 false (some 2), .setspecific 0 0 9, .exit 0]

theorem values_of_key_reused : ∃ s : Keys ℕ ℕ, run step init reusedSlot = some s ∧ s.Live 0 ∧
    s.getspecific 0 0 = 9 ∧ s.getspecific 1 0 = 0 ∧ Stored (trace step observe init reusedSlot) 0 0 9 := by
  obtain ⟨s, hr, h⟩ := exists_run step (init : Keys ℕ ℕ) reusedSlot
    (fun s => decide ((s.keys 0).used = true ∧ s.getspecific 0 0 = 9 ∧ s.getspecific 1 0 = 0)) (by decide +kernel)
  obtain ⟨hu, h₉, h₀⟩ := of_decide_eq_true h
  have hk : s.Live 0 := ⟨by decide, hu⟩
  exact ⟨s, hr, hk, h₉, h₀, ((values_of_key hr (by decide +kernel)).1 0 9 (by decide) hk).mp h₉⟩

end Keys

end Aixos.Posix
