import Aixos.Library.Census

/-!
# A waiting room with anonymous tokens

A waiting room built of a counter and a semaphore. Who comes in raises the counter, and later
waits at the semaphore for a token; who wakes the others takes them off the counter and posts
a token for each. Tokens do not say for whom they are: whoever comes to the semaphore first
takes one. Who gives up takes itself off the counter.

`Sound` is what such a room keeps as long as nobody leaves an empty counter: there are as many
on the counter, or as many tokens, as there are parties inside. `Exact` is that there are no
more. `Watch` follows the parties that were waiting at some moment; `Served` and `ServedAll`
say that the tokens posted at that moment reach one of them, or all of them.
-/

open Census

namespace TokenRoom

/-- Where a party is on its way through the room. -/
inductive Stage where
  /-- Not in the room: it has not come in, or it has been woken. -/
  | out
  /-- It is on the counter. -/
  | entering
  /-- It was refused, and is still on the counter. -/
  | refused
  /-- It comes to the semaphore. -/
  | ready
  /-- It waits at the semaphore. -/
  | blocked
  /-- It has given up, and has not yet taken itself off the counter. -/
  | failed
  deriving DecidableEq

/-- In the room. -/
def Stage.inside : Stage → Bool
  | .out => false
  | .entering | .refused | .ready | .blocked | .failed => true

/-- On the way to the semaphore. -/
def Stage.coming : Stage → Bool
  | .entering | .ready => true
  | .out | .refused | .blocked | .failed => false

/-- On the way to the semaphore, or waiting there. -/
def Stage.waiting : Stage → Bool
  | .entering | .ready | .blocked => true
  | .out | .refused | .failed => false

structure Room (ι : Type*) where
  waiters : ℕ
  tokens : ℕ
  stage : ι → Stage

variable {ι : Type*} [DecidableEq ι]

namespace Room

/-- How many parties are in the room. -/
def total [Fintype ι] (r : Room ι) : ℕ := census Stage.inside r.stage

def setStage (r : Room ι) (i : ι) (x : Stage) : Room ι := { r with stage := Function.update r.stage i x }

@[simp] theorem waiters_setStage (r : Room ι) (i : ι) (x : Stage) : (r.setStage i x).waiters = r.waiters := rfl

@[simp] theorem tokens_setStage (r : Room ι) (i : ι) (x : Stage) : (r.setStage i x).tokens = r.tokens := rfl

@[simp] theorem stage_setStage (r : Room ι) (i : ι) (x : Stage) : (r.setStage i x).stage i = x := by
  simp [setStage]

theorem stage_setStage_of_ne (r : Room ι) {i j : ι} (x : Stage) (h : j ≠ i) :
    (r.setStage i x).stage j = r.stage j := by
  simp [setStage, h]

theorem total_setStage [Fintype ι] (r : Room ι) (i : ι) (x : Stage) :
    (r.setStage i x).total + (r.stage i).inside.toNat = r.total + x.inside.toNat :=
  census_update _ _ _ _

end Room

/-- A semaphore that holds no more than `limit` tokens is posted. -/
inductive Post (limit : ℕ) (r : Room ι) : Room ι → Prop where
  /-- One who waits is woken. -/
  | wake (j : ι) : r.stage j = .blocked → Post limit r (r.setStage j .out)
  /-- Nobody waits: the token is kept. -/
  | keep : (∀ j, r.stage j ≠ .blocked) → r.tokens ≠ limit → Post limit r { r with tokens := r.tokens + 1 }
  /-- The semaphore is full. -/
  | full : (∀ j, r.stage j ≠ .blocked) → r.tokens = limit → Post limit r r

/-- It is posted several times. -/
inductive Posts (limit : ℕ) : ℕ → Room ι → Room ι → Prop where
  | zero (r : Room ι) : Posts limit 0 r r
  | succ {n : ℕ} {r m r' : Room ι} : Post limit r m → Posts limit n m r' → Posts limit (n + 1) r r'

theorem Posts.waiters_eq {limit n : ℕ} {r r' : Room ι} (h : Posts limit n r r') : r'.waiters = r.waiters := by
  induction h with
  | zero => rfl
  | succ hp _ ih =>
    rw [ih]
    cases hp <;> rfl

/-- A full semaphore stays full. -/
theorem Posts.full {limit : ℕ} {r : Room ι} (hn : ∀ j, r.stage j ≠ .blocked) (hl : r.tokens = limit) :
    ∀ n, Posts limit n r r
  | 0 => .zero r
  | n + 1 => .succ (.full hn hl) (Posts.full hn hl n)

/-- Only who waits at the semaphore is touched. -/
theorem Posts.stage_eq {limit n : ℕ} {r r' : Room ι} (h : Posts limit n r r') (j : ι) :
    r'.stage j = r.stage j ∨ r.stage j = .blocked ∧ r'.stage j = .out := by
  induction h with
  | zero => exact .inl rfl
  | @succ n r m r' hp _ ih =>
    have hm : m.stage j = r.stage j ∨ r.stage j = .blocked ∧ m.stage j = .out := by
      cases hp with
      | wake i hi =>
        by_cases hj : j = i
        · subst hj
          exact .inr ⟨hi, by simp⟩
        · exact .inl (Room.stage_setStage_of_ne _ _ hj)
      | keep => exact .inl rfl
      | full => exact .inl rfl
    rcases hm with hm | ⟨hb, ho⟩
    · rwa [hm] at ih
    · rcases ih with ih | ⟨hb', -⟩
      · exact .inr ⟨hb, by rw [ih, ho]⟩
      · rw [ho] at hb'
        cases hb'

/-- Where nobody waits the tokens are kept. -/
theorem Posts.keeps {limit n : ℕ} {r r' : Room ι} (h : Posts limit n r r') (hn : ∀ j, r.stage j ≠ .blocked) :
    r'.stage = r.stage ∧ r.tokens ≤ r'.tokens := by
  induction h with
  | zero => exact ⟨rfl, le_rfl⟩
  | succ hp _ ih =>
    cases hp with
    | wake j hj => exact absurd hj (hn j)
    | keep _ hlt =>
      obtain ⟨h₁, h₂⟩ := ih hn
      exact ⟨h₁, by simp only at h₂; omega⟩
    | full _ hle => exact ih hn

/-- What the party `i` can do. The counter is kept modulo `modulus`. -/
inductive Move (limit modulus : ℕ) (i : ι) (r : Room ι) : Room ι → Prop where
  | enter : r.stage i = .out →
      Move limit modulus i r ({ r with waiters := (r.waiters + 1) % modulus }.setStage i .entering)
  | pass : r.stage i = .entering → Move limit modulus i r (r.setStage i .ready)
  | refuse : r.stage i = .entering → Move limit modulus i r (r.setStage i .refused)
  /-- Who was refused takes itself off the counter. -/
  | leave : r.stage i = .refused →
      Move limit modulus i r ({ r with waiters := (r.waiters + modulus - 1) % modulus }.setStage i .out)
  | take : r.stage i = .ready → r.tokens ≠ 0 →
      Move limit modulus i r ({ r with tokens := r.tokens - 1 }.setStage i .out)
  | block : r.stage i = .ready → r.tokens = 0 → Move limit modulus i r (r.setStage i .blocked)
  /-- There is no token, and the party does not wait. -/
  | fail : r.stage i = .ready → r.tokens = 0 → Move limit modulus i r (r.setStage i .failed)
  | giveUp : r.stage i = .blocked → Move limit modulus i r (r.setStage i .failed)
  /-- Who has given up takes itself off the counter, unless nobody is on it. -/
  | quit : r.stage i = .failed → Move limit modulus i r ({ r with waiters := r.waiters - 1 }.setStage i .out)
  /-- Some are taken off the counter, and a token is posted for each. -/
  | post {r' : Room ι} (n : ℕ) : n ≤ r.waiters → Posts limit n { r with waiters := r.waiters - n } r' →
      Move limit modulus i r r'
  /-- Something else. -/
  | stay : Move limit modulus i r r

section Balance

variable [Fintype ι] {limit modulus n : ℕ} {r r' : Room ι} {i : ι}

/-- What the room keeps, while `n` tokens are still to be posted. -/
structure Sound (limit n : ℕ) (r : Room ι) : Prop where
  /-- Who waits does not leave a token lying. -/
  idle : r.tokens ≠ 0 → ∀ j, r.stage j ≠ .blocked
  tokens_le : r.tokens ≤ limit
  covered : r.total ≤ r.waiters + n + r.tokens
  bounded : r.waiters + n + r.tokens ≤ limit + r.total

/-- The counter and the tokens are for those inside, and for nobody else. -/
def Exact (n : ℕ) (r : Room ι) : Prop := r.waiters + n + r.tokens = r.total

omit [DecidableEq ι] in
theorem Room.total_le_card : r.total ≤ Fintype.card ι := census_le_card

omit [DecidableEq ι] in
theorem Room.total_pos (h : (r.stage i).inside = true) : 0 < r.total := census_pos i h

/-- A counter that is not empty goes down by one. -/
theorem leave_counter {w : ℕ} (h : w ≠ 0) (hw : w ≤ modulus) : (w + modulus - 1) % modulus = w - 1 := by
  rw [show w + modulus - 1 = w - 1 + modulus by omega, Nat.add_mod_right]
  exact Nat.mod_eq_of_lt (by omega)

/-- What a step of one party does to the number of those inside. -/
theorem Room.total_setStage_of (r : Room ι) {i : ι} {x y : Stage} (h : r.stage i = x) :
    (r.setStage i y).total + x.inside.toNat = r.total + y.inside.toNat := by
  rw [← h]
  exact r.total_setStage i y

/-- The stage of one party changes, and with it the counter or the tokens. -/
theorem Sound.setStage {w k : ℕ} {x y : Stage} (h : Sound limit 0 r) (hi : r.stage i = x)
    (hk : k ≤ limit) (hidle : k ≠ 0 → k ≤ r.tokens ∧ y ≠ .blocked)
    (hcov : r.total + y.inside.toNat ≤ w + k + x.inside.toNat)
    (hbound : w + k + x.inside.toNat ≤ limit + r.total + y.inside.toNat) :
    Sound limit 0 (Room.setStage ⟨w, k, r.stage⟩ i y) := by
  have ht := Room.total_setStage_of ⟨w, k, r.stage⟩ (y := y) hi
  have hr : Room.total ⟨w, k, r.stage⟩ = r.total := rfl
  rw [hr] at ht
  refine ⟨fun h₀ j => ?_, hk, ?_, ?_⟩
  · obtain ⟨hle, hy⟩ := hidle h₀
    by_cases hj : j = i
    · subst hj
      simpa using hy
    · rw [Room.stage_setStage_of_ne _ _ hj]
      exact h.idle (by simp at h₀; omega) j
  · simp only [Room.waiters_setStage, Room.tokens_setStage]
    omega
  · simp only [Room.waiters_setStage, Room.tokens_setStage]
    omega

theorem Exact.setStage {w k : ℕ} {x y : Stage} (hi : r.stage i = x)
    (he : w + k + x.inside.toNat = r.total + y.inside.toNat) :
    Exact 0 (Room.setStage ⟨w, k, r.stage⟩ i y) := by
  have ht := Room.total_setStage_of ⟨w, k, r.stage⟩ (y := y) hi
  have hr : Room.total ⟨w, k, r.stage⟩ = r.total := rfl
  rw [hr] at ht
  simp only [Exact, Room.waiters_setStage, Room.tokens_setStage]
  omega

variable (hl : Fintype.card ι ≤ limit)
include hl

theorem Sound.post (h : Sound limit (n + 1) r) (hp : Post limit r r') : Sound limit n r' := by
  have hc := h.covered
  have hb := h.bounded
  cases hp with
  | wake j hj =>
    have ht := r.total_setStage_of (y := .out) hj
    simp only [Stage.inside, Bool.toNat_true, Bool.toNat_false] at ht
    refine ⟨fun hk => absurd hj (h.idle hk j), h.tokens_le, ?_, ?_⟩ <;> simp <;> omega
  | keep hn hlt =>
    have ht : Room.total { r with tokens := r.tokens + 1 } = r.total := rfl
    exact ⟨fun _ => hn, by have := h.tokens_le; simp only; omega, by simp only [ht]; omega, by simp only [ht]; omega⟩
  | full hn hle =>
    have := r.total_le_card
    exact ⟨fun _ => hn, h.tokens_le, by omega, by omega⟩

theorem Sound.posts (h : Sound limit n r) (hp : Posts limit n r r') : Sound limit 0 r' := by
  induction hp with
  | zero => exact h
  | succ hp _ ih => exact ih (h.post hl hp)

theorem Exact.post (h : Exact (n + 1) r) (hp : Post limit r r') : Exact n r' := by
  unfold Exact at h ⊢
  cases hp with
  | wake j hj =>
    have ht := r.total_setStage_of (y := .out) hj
    simp only [Stage.inside, Bool.toNat_true, Bool.toNat_false] at ht
    simp
    omega
  | keep hn hlt =>
    have ht : Room.total { r with tokens := r.tokens + 1 } = r.total := rfl
    simp only [ht]
    omega
  | full hn hle =>
    have := r.total_le_card
    omega

theorem Exact.posts (h : Exact n r) (hp : Posts limit n r r') : Exact 0 r' := by
  induction hp with
  | zero => exact h
  | succ hp _ ih => exact ih (h.post hl hp)

/-- The room stays sound, as long as nobody who was refused leaves an empty counter. -/
theorem Sound.move (hm : limit + Fintype.card ι < modulus) (h : Sound limit 0 r)
    (hne : r.stage i = .refused → r'.stage i = .out → r.waiters ≠ 0) (hr : Move limit modulus i r r') : Sound limit 0 r' := by
  have hc := h.covered
  have hb := h.bounded
  have hk := h.tokens_le
  have hcard := r.total_le_card
  cases hr with
  | enter hi =>
    have hle := (r.setStage i .entering).total_le_card
    have ht := r.total_setStage_of (y := .entering) hi
    simp only [Stage.inside, Bool.toNat_true, Bool.toNat_false] at ht
    rw [Nat.mod_eq_of_lt (by omega)]
    exact h.setStage hi hk (fun _ => ⟨le_rfl, nofun⟩) (by simp [Stage.inside]; omega) (by simp [Stage.inside]; omega)
  | pass hi => exact h.setStage hi hk (fun _ => ⟨le_rfl, nofun⟩) (by simp [Stage.inside]; omega) (by simp [Stage.inside]; omega)
  | refuse hi => exact h.setStage hi hk (fun _ => ⟨le_rfl, nofun⟩) (by simp [Stage.inside]; omega) (by simp [Stage.inside]; omega)
  | leave hi =>
    have hw := hne hi (Room.stage_setStage ..)
    rw [leave_counter hw (by omega)]
    exact h.setStage hi hk (fun _ => ⟨le_rfl, nofun⟩) (by simp [Stage.inside]; omega) (by simp [Stage.inside]; omega)
  | take hi h₀ =>
    exact h.setStage hi (by omega) (fun _ => ⟨by omega, nofun⟩) (by simp [Stage.inside]; omega) (by simp [Stage.inside]; omega)
  | block hi h₀ => exact h.setStage hi hk (fun h₁ => absurd h₀ h₁) (by simp [Stage.inside]; omega) (by simp [Stage.inside]; omega)
  | fail hi h₀ => exact h.setStage hi hk (fun _ => ⟨le_rfl, nofun⟩) (by simp [Stage.inside]; omega) (by simp [Stage.inside]; omega)
  | giveUp hi => exact h.setStage hi hk (fun _ => ⟨le_rfl, nofun⟩) (by simp [Stage.inside]; omega) (by simp [Stage.inside]; omega)
  | quit hi =>
    have := r.total_pos (i := i) (by rw [hi]; rfl)
    exact h.setStage hi hk (fun _ => ⟨le_rfl, nofun⟩) (by simp [Stage.inside]; omega) (by simp [Stage.inside]; omega)
  | post n hn hp =>
    have hs : Sound limit n { r with waiters := r.waiters - n } := by
      refine ⟨h.idle, hk, ?_, ?_⟩
      · change r.total ≤ r.waiters - n + n + r.tokens
        omega
      · change r.waiters - n + n + r.tokens ≤ limit + r.total
        omega
    exact hs.posts hl hp
  | stay => exact h

/-- The room stays exact, as long as nobody leaves an empty counter. -/
theorem Exact.move (hm : limit + Fintype.card ι < modulus) (h : Exact 0 r)
    (hne : r.stage i = .refused ∨ r.stage i = .failed → r'.stage i = .out → r.waiters ≠ 0) (hr : Move limit modulus i r r') :
    Exact 0 r' := by
  have he : r.waiters + 0 + r.tokens = r.total := h
  have hcard := r.total_le_card
  cases hr with
  | enter hi =>
    have hle := (r.setStage i .entering).total_le_card
    have ht := r.total_setStage_of (y := .entering) hi
    simp only [Stage.inside, Bool.toNat_true, Bool.toNat_false] at ht
    rw [Nat.mod_eq_of_lt (by omega)]
    exact Exact.setStage hi (by simp [Stage.inside]; omega)
  | pass hi => exact Exact.setStage hi (by simp [Stage.inside]; omega)
  | refuse hi => exact Exact.setStage hi (by simp [Stage.inside]; omega)
  | leave hi =>
    have hw := hne (.inl hi) (Room.stage_setStage ..)
    rw [leave_counter hw (by omega)]
    exact Exact.setStage hi (by simp [Stage.inside]; omega)
  | take hi h₀ => exact Exact.setStage hi (by simp [Stage.inside]; omega)
  | block hi h₀ => exact Exact.setStage hi (by simp [Stage.inside]; omega)
  | fail hi h₀ => exact Exact.setStage hi (by simp [Stage.inside]; omega)
  | giveUp hi => exact Exact.setStage hi (by simp [Stage.inside]; omega)
  | quit hi =>
    have hw := hne (.inr hi) (Room.stage_setStage ..)
    exact Exact.setStage hi (by simp [Stage.inside]; omega)
  | post n hn hp =>
    have he' : Exact n { r with waiters := r.waiters - n } := by
      change r.waiters - n + n + r.tokens = r.total
      omega
    exact he'.posts hl hp
  | stay => exact h

end Balance

section Watching

/-- What is seen of the parties that were waiting at some moment. -/
structure Watch (ι : Type*) where
  /-- It has waited ever since. -/
  still : ι → Bool
  /-- One of them has been woken. -/
  woken : Bool

/-- Those who wait now. -/
def Watch.start (r : Room ι) : Watch ι := ⟨fun i => (r.stage i).waiting, false⟩

/-- After a step, which ended in this state. Who leaves the room from where it waits has been woken. -/
def Watch.next [Fintype ι] (w : Watch ι) (r : Room ι) : Watch ι where
  still i := w.still i && (r.stage i).waiting
  woken := w.woken || decide (∃ i, w.still i = true ∧ r.stage i = .out)

variable [Fintype ι] {limit modulus n : ℕ} {r r' : Room ι} {i : ι} {w : Watch ι}

/-- A token reaches one of them: one has been woken, or none waits any more, or there is a token and only they are on
their way to it. -/
def Served (r : Room ι) (w : Watch ι) : Prop :=
  w.woken = true ∨ (∀ i, w.still i = false) ∨
    (r.tokens ≠ 0 ∧ ∀ i, (r.stage i).coming = true → w.still i = true)

/-- Tokens reach all of them: those who still wait are on their way, with nobody else, and there is a token for each. -/
def ServedAll (r : Room ι) (w : Watch ι) : Prop :=
  ∀ i, w.still i = true → (r.stage i).coming = true ∧ census Stage.coming r.stage ≤ r.tokens ∧
    ∀ j, (r.stage j).coming = true → w.still j = true

theorem Stage.coming_waiting {x : Stage} (h : x.coming = true) : x.waiting = true := by cases x <;> simp_all [coming, waiting]

theorem Stage.waiting_inside {x : Stage} (h : x.waiting = true) : x.inside = true := by cases x <;> simp_all [inside, waiting]

theorem Stage.waiting_coming {x : Stage} (h : x.waiting = true) (hb : x ≠ .blocked) : x.coming = true := by
  cases x <;> simp_all [coming, waiting]

omit [DecidableEq ι] in
theorem Watch.still_start_next {r r' : Room ι} (h : ((Watch.start r).next r').still i = true) :
    (r.stage i).waiting = true ∧ (r'.stage i).waiting = true := by
  simpa [Watch.start, Watch.next] using h

omit [DecidableEq ι] in
theorem Watch.woken_start_next {r r' : Room ι} (h : ((Watch.start r).next r').woken = true) :
    ∃ i, (r.stage i).waiting = true ∧ r'.stage i = .out := by
  have h : (false || decide (∃ i, (Watch.start r).still i = true ∧ r'.stage i = .out)) = true := h
  rw [Bool.false_or] at h
  exact of_decide_eq_true h

omit [DecidableEq ι] in
/-- A move after which only they are on their way, and there is a token. -/
theorem Served.of_coming (hk : r'.tokens ≠ 0)
    (hc : ∀ j, (r'.stage j).coming = true → w.still j = true) : Served r' (w.next r') := by
  refine .inr (.inr ⟨hk, fun j hj => ?_⟩)
  simp [Watch.next, hc j hj, Stage.coming_waiting hj]

omit [Fintype ι] in
/-- What a move can do while there is a token: somebody comes in, somebody takes a token, or nobody new is on the way. -/
theorem Move.of_tokens (hb : ∀ j, r.stage j ≠ .blocked) (hk : r.tokens ≠ 0) (hr : Move limit modulus i r r') :
    (r.stage i = .out ∧ r'.stage i = .entering) ∨
      (r.stage i = .ready ∧ r' = Room.setStage { r with tokens := r.tokens - 1 } i .out) ∨
      (r.tokens ≤ r'.tokens ∧ (∀ j, r'.stage j ≠ .blocked) ∧ ∀ j, (r'.stage j).coming = true → (r.stage j).coming = true) := by
  have hset : ∀ {v : ℕ} {y : Stage}, y ≠ .blocked → (y.coming = true → (r.stage i).coming = true) →
      (∀ j, (Room.setStage ⟨v, r.tokens, r.stage⟩ i y).stage j ≠ .blocked) ∧
        ∀ j, ((Room.setStage ⟨v, r.tokens, r.stage⟩ i y).stage j).coming = true → (r.stage j).coming = true := by
    intro v y hy hc
    have hj : ∀ j, (Room.setStage ⟨v, r.tokens, r.stage⟩ i y).stage j = y ∧ j = i ∨
        (Room.setStage ⟨v, r.tokens, r.stage⟩ i y).stage j = r.stage j := by
      intro j
      by_cases hj : j = i
      · subst hj
        exact .inl ⟨Room.stage_setStage .., rfl⟩
      · exact .inr (Room.stage_setStage_of_ne _ _ hj)
    refine ⟨fun j => ?_, fun j h => ?_⟩
    · rcases hj j with ⟨h, -⟩ | h
      · rwa [h]
      · rw [h]
        exact hb j
    · rcases hj j with ⟨h', rfl⟩ | h'
      · rw [h'] at h
        exact hc h
      · rwa [h'] at h
  cases hr with
  | enter hi => exact .inl ⟨hi, by simp⟩
  | pass hi => exact .inr (.inr ⟨le_rfl, hset nofun fun _ => by rw [hi]; rfl⟩)
  | refuse hi => exact .inr (.inr ⟨le_rfl, hset nofun nofun⟩)
  | leave hi => exact .inr (.inr ⟨le_rfl, hset nofun nofun⟩)
  | take hi h₀ => exact .inr (.inl ⟨hi, rfl⟩)
  | block hi h₀ => exact absurd h₀ hk
  | fail hi h₀ => exact absurd h₀ hk
  | giveUp hi => exact absurd hi (hb i)
  | quit hi => exact .inr (.inr ⟨le_rfl, hset nofun nofun⟩)
  | post n hn hp =>
    obtain ⟨h₁, h₂⟩ := hp.keeps hb
    refine .inr (.inr ⟨h₂, fun j => ?_, fun j h => ?_⟩)
    · rw [h₁]
      exact hb j
    · rwa [h₁] at h
  | stay => exact .inr (.inr ⟨le_rfl, hb, fun _ => id⟩)

omit [Fintype ι] in
/-- Who is waiting has been waiting before, or comes in. -/
theorem Move.waiting {limit modulus : ℕ} {i j : ι} {r r' : Room ι} (h : Move limit modulus i r r')
    (hj : (r'.stage j).waiting = true) :
    (r.stage j).waiting = true ∨ j = i ∧ r.stage i = .out ∧ r'.stage i = .entering := by
  have hset : ∀ {v k : ℕ} {y : Stage}, ((Room.setStage ⟨v, k, r.stage⟩ i y).stage j).waiting = true →
      (y.waiting = true → (r.stage i).waiting = true) → (r.stage j).waiting = true := by
    intro v k y h hy
    by_cases hji : j = i
    · subst hji
      rw [Room.stage_setStage] at h
      exact hy h
    · rwa [Room.stage_setStage_of_ne _ _ hji] at h
  cases h with
  | enter hi =>
    by_cases hji : j = i
    · exact .inr ⟨hji, hi, Room.stage_setStage ..⟩
    · rw [Room.stage_setStage_of_ne _ _ hji] at hj
      exact .inl hj
  | pass hi => exact .inl (hset hj fun _ => by rw [hi]; rfl)
  | refuse hi => exact .inl (hset hj nofun)
  | leave hi => exact .inl (hset hj nofun)
  | take hi h₀ => exact .inl (hset hj nofun)
  | block hi h₀ => exact .inl (hset hj fun _ => by rw [hi]; rfl)
  | fail hi h₀ => exact .inl (hset hj nofun)
  | giveUp hi => exact .inl (hset hj nofun)
  | quit hi => exact .inl (hset hj nofun)
  | post k hk hp =>
    rcases hp.stage_eq j with h | ⟨-, h⟩
    · rw [h] at hj
      exact .inl hj
    · rw [h] at hj
      cases hj
  | stay => exact .inl hj

theorem Served.move (hs : Sound limit 0 r) (hw : ∀ j, w.still j = true → (r.stage j).waiting = true)
    (hstart : r.stage i = .out → r'.stage i = .entering → r.tokens ≠ 0 → ∀ j, (r.stage j).coming = false)
    (hr : Move limit modulus i r r') (h : Served r w) : Served r' (w.next r') := by
  rcases h with h | h | ⟨hk, h⟩
  · exact .inl (by simp [Watch.next, h])
  · exact .inr (.inl fun j => by simp [Watch.next, h j])
  have hb := hs.idle hk
  rcases hr.of_tokens hb hk with ⟨hi, hi'⟩ | ⟨hi, rfl⟩ | ⟨hle, -, hc⟩
  · -- nobody is on the way, so that none of them waits any more
    refine .inr (.inl fun j => ?_)
    by_contra hj
    have hj : w.still j = true := by
      cases hs : w.still j <;> simp_all [Watch.next]
    have := Stage.waiting_coming (hw j hj) (hb j)
    rw [hstart hi hi' hk j] at this
    cases this
  · refine .inl ?_
    simp only [Watch.next, Bool.or_eq_true, decide_eq_true_eq]
    exact .inr ⟨i, h i (by rw [hi]; rfl), by simp⟩
  · exact .of_coming (by omega) fun j hj => h j (hc j hj)

theorem ServedAll.move (hs : Sound limit 0 r)
    (hstart : r.stage i = .out → r'.stage i = .entering → r.tokens ≠ 0 → ∀ j, (r.stage j).coming = false)
    (hr : Move limit modulus i r r') (h : ServedAll r w) : ServedAll r' (w.next r') := by
  intro j hj
  obtain ⟨hj, hj'⟩ : w.still j = true ∧ (r'.stage j).waiting = true := by simpa [Watch.next] using hj
  obtain ⟨hc, hle, hall⟩ := h j hj
  have hk : r.tokens ≠ 0 := by
    have := census_pos (p := Stage.coming) (f := r.stage) j hc
    omega
  have hb := hs.idle hk
  rcases hr.of_tokens hb hk with ⟨hi, hi'⟩ | ⟨hi, rfl⟩ | ⟨hle', hb', hc'⟩
  · rw [hstart hi hi' hk j] at hc
    cases hc
  · have hcoming : ∀ k, (r.stage k).coming = true ∧ k ≠ i ↔
        ((Room.setStage { r with tokens := r.tokens - 1 } i .out).stage k).coming = true := by
      intro k
      by_cases hki : k = i
      · subst hki
        simp [Stage.coming]
      · rw [Room.stage_setStage_of_ne _ _ hki]
        simp [hki]
    have hji : j ≠ i := by
      rintro rfl
      simp [Stage.waiting] at hj'
    have hcount := census_update Stage.coming r.stage i .out
    rw [hi] at hcount
    simp only [Stage.coming, Bool.toNat_true, Bool.toNat_false] at hcount
    refine ⟨(hcoming j).mp ⟨hc, hji⟩, ?_, fun k hk => ?_⟩
    · change census Stage.coming (Function.update r.stage i .out) ≤ r.tokens - 1
      omega
    · simp [Watch.next, hall k ((hcoming k).mpr hk).1, Stage.coming_waiting hk]
  · refine ⟨Stage.waiting_coming hj' (hb' j), ?_, fun k hk => ?_⟩
    · exact (census_mono hc').trans (hle.trans hle')
    · simp [Watch.next, hall k (hc' k hk), Stage.coming_waiting hk]

/-- A token is posted if somebody is on the counter. -/
theorem Served.start (hl : Fintype.card ι ≤ limit) (hs : Sound limit 0 r)
    (hp : Posts limit (min 1 r.waiters) { r with waiters := r.waiters - min 1 r.waiters } r') :
    Served r' ((Watch.start r).next r') := by
  by_cases hnone : ∀ j, (r.stage j).waiting = false
  · exact .inr (.inl fun j => by simp [Watch.start, Watch.next, hnone j])
  obtain ⟨j₀, hj₀⟩ := not_forall.mp hnone
  have hj₀ := Stage.waiting_inside (Bool.eq_true_of_not_eq_false hj₀)
  have htot := r.total_pos hj₀
  have hcov := hs.covered
  have hcard := r.total_le_card
  by_cases h₀ : r.waiters = 0
  · rw [h₀] at hp
    cases hp with
    | zero => exact .of_coming (by simp only; omega) fun j hj => Stage.coming_waiting hj
  · rw [show min 1 r.waiters = 1 by omega] at hp
    cases hp with
    | succ hp hz =>
      cases hz with
      | zero =>
        cases hp with
        | wake j hj =>
          refine .inl ?_
          simp only [Watch.next, Bool.or_eq_true, decide_eq_true_eq]
          exact .inr ⟨j, by simp [Watch.start, show r.stage j = _ from hj, Stage.waiting], by simp⟩
        | keep => exact .of_coming (by simp) fun j hj => Stage.coming_waiting hj
        | full _ hle => exact .of_coming (by simp only at hle ⊢; omega) fun j hj => Stage.coming_waiting hj

omit [DecidableEq ι] in
/-- Everybody is taken off the counter. -/
theorem Sound.none_counted (hs : Sound limit 0 r) : Sound limit r.waiters { r with waiters := 0 } := by
  refine ⟨hs.idle, hs.tokens_le, ?_, ?_⟩
  · change r.total ≤ 0 + r.waiters + r.tokens
    have := hs.covered
    omega
  · change 0 + r.waiters + r.tokens ≤ limit + r.total
    have := hs.bounded
    omega

/-- A token is posted for everybody on the counter. -/
theorem ServedAll.start (hl : Fintype.card ι ≤ limit) (hs : Sound limit 0 r)
    (hp : Posts limit r.waiters { r with waiters := 0 } r') : ServedAll r' ((Watch.start r).next r') := by
  have hs' := hs.none_counted.posts hl hp
  have hcov := hs'.covered
  rw [hp.waiters_eq] at hcov
  intro j hj
  obtain ⟨hj, hj'⟩ := Watch.still_start_next hj
  have hk : r'.tokens ≠ 0 := by
    have := r'.total_pos (Stage.waiting_inside hj')
    simp only at hcov
    omega
  refine ⟨Stage.waiting_coming hj' (hs'.idle hk j), ?_, fun k hk => ?_⟩
  · have : census Stage.coming r'.stage ≤ r'.total :=
      census_mono fun i hi => Stage.waiting_inside (Stage.coming_waiting hi)
    simp only at hcov
    omega
  · have hr : (r.stage k).waiting = true := by
      rcases hp.stage_eq k with h | ⟨h, -⟩
      · rw [h] at hk
        exact Stage.coming_waiting hk
      · simp only at h
        rw [h]
        rfl
    simp [Watch.start, Watch.next, hr, Stage.coming_waiting hk]

end Watching

section Groups

variable [Fintype ι] {limit modulus : ℕ} {r r' : Room ι} {i : ι} {group : ι → Bool}

/-- How many of the group are on their way to the semaphore. -/
def Room.coming (group : ι → Bool) (r : Room ι) : ℕ :=
  census (fun x : Bool × Stage => x.1 && x.2.coming) fun i => (group i, r.stage i)

/-- Nobody of the group waits in vain: those on their way find a token each. -/
structure Provided (group : ι → Bool) (r : Room ι) : Prop where
  awake : ∀ i, group i = true → r.stage i ≠ .blocked
  tokens : r.coming group ≤ r.tokens

omit [DecidableEq ι] in
theorem Room.coming_pos (hg : group i = true) (hi : (r.stage i).coming = true) : 0 < r.coming group :=
  census_pos i (by simp [hg, hi])

omit [DecidableEq ι] in
theorem Room.coming_le {group' : ι → Bool}
    (h : ∀ j, group' j = true → (r'.stage j).coming = true → group j = true ∧ (r.stage j).coming = true) :
    r'.coming group' ≤ r.coming group :=
  census_mono fun j hj => by
    obtain ⟨h₁, h₂⟩ := Bool.and_eq_true_iff.mp hj
    obtain ⟨h₃, h₄⟩ := h j h₁ h₂
    exact Bool.and_eq_true_iff.mpr ⟨h₃, h₄⟩

omit [DecidableEq ι] in
/-- Parties of another group that are in the room belong to this one. -/
theorem Provided.congr {group' : ι → Bool} (h : Provided group r)
    (hg : ∀ j, group' j = true → r.stage j ≠ .out → group j = true) : Provided group' r := by
  refine ⟨fun j hj hb => h.awake j (hg j hj (by rw [hb]; nofun)) hb, (Room.coming_le fun j hj hc => ?_).trans h.tokens⟩
  refine ⟨hg j hj fun ho => ?_, hc⟩
  rw [ho] at hc
  cases hc

theorem Room.coming_setStage {w k : ℕ} {x y : Stage} (hi : r.stage i = x) :
    Room.coming group (Room.setStage ⟨w, k, r.stage⟩ i y) + (group i && x.coming).toNat =
      r.coming group + (group i && y.coming).toNat := by
  have h := census_update (fun x : Bool × Stage => x.1 && x.2.coming) (fun j => (group j, r.stage j)) i (group i, y)
  have hf : Function.update (fun j => (group j, r.stage j)) i (group i, y) =
      fun j => (group j, (Room.setStage ⟨w, k, r.stage⟩ i y).stage j) := by
    funext j
    by_cases hj : j = i
    · subst hj
      simp
    · simp [hj, Room.stage_setStage_of_ne]
  rw [hf, hi] at h
  exact h

/-- The stage of one party changes, and with it the counter or the tokens. -/
theorem Provided.setStage {w k : ℕ} {x y : Stage} (h : Provided group r) (hi : r.stage i = x)
    (hb : group i = true → y ≠ .blocked)
    (hk : r.coming group + (group i && y.coming).toNat ≤ k + (group i && x.coming).toNat) :
    Provided group (Room.setStage ⟨w, k, r.stage⟩ i y) := by
  refine ⟨fun j hj => ?_, ?_⟩
  · by_cases hji : j = i
    · subst hji
      rw [Room.stage_setStage]
      exact hb hj
    · rw [Room.stage_setStage_of_ne _ _ hji]
      exact h.awake j hj
  · have : Room.coming group (Room.setStage ⟨w, k, r.stage⟩ i y) + (group i && x.coming).toNat =
        r.coming group + (group i && y.coming).toNat := Room.coming_setStage hi
    simp only [Room.tokens_setStage]
    omega

theorem Provided.posts {n : ℕ} (h : Provided group r) (hp : Posts limit n r r') : Provided group r' := by
  induction hp with
  | zero => exact h
  | succ hp _ ih =>
    refine ih ?_
    cases hp with
    | wake j hj => exact h.setStage hj nofun (by simpa [Stage.coming] using h.tokens)
    | keep => exact ⟨h.awake, h.tokens.trans (Nat.le_succ _)⟩
    | full => exact h

/-- Nobody of the group waits in vain, as long as none of them comes in and the others leave them their tokens. -/
theorem Provided.move (h : Provided group r) (hin : r.stage i = .out → r'.stage i = .entering → group i = false)
    (htake : r.stage i = .ready → r'.stage i = .out → r.tokens ≠ 0 → group i = false → r.coming group < r.tokens)
    (hr : Move limit modulus i r r') : Provided group r' := by
  have hk := h.tokens
  cases hr with
  | enter hi =>
    have hg := hin hi (Room.stage_setStage ..)
    exact h.setStage hi nofun (by simp [hg]; omega)
  | pass hi => exact h.setStage hi nofun (by simp [Stage.coming]; omega)
  | refuse hi => exact h.setStage hi nofun (by simp [Stage.coming]; omega)
  | leave hi => exact h.setStage hi nofun (by simp [Stage.coming]; omega)
  | take hi h₀ =>
    refine h.setStage hi nofun ?_
    cases hg : group i with
    | false =>
      have := htake hi (Room.stage_setStage ..) h₀ hg
      simp
      omega
    | true =>
      simp [Stage.coming]
      omega
  | block hi h₀ =>
    -- who would have to wait is not of the group
    have hg : group i = false := by
      by_contra hg
      have := Room.coming_pos (r := r) (Bool.eq_true_of_not_eq_false hg) (show (r.stage i).coming = true by rw [hi]; rfl)
      omega
    exact h.setStage hi (by simp [hg]) (by simp [hg]; omega)
  | fail hi h₀ => exact h.setStage hi nofun (by simp [Stage.coming]; omega)
  | giveUp hi => exact h.setStage hi nofun (by simp [Stage.coming]; omega)
  | quit hi => exact h.setStage hi nofun (by simp [Stage.coming]; omega)
  | post n hn hp => exact Provided.posts (r := { r with waiters := r.waiters - n }) ⟨h.awake, h.tokens⟩ hp
  | stay => exact h

/-- A token is posted for everybody on the counter. -/
theorem Provided.start (hl : Fintype.card ι ≤ limit) (hs : Sound limit 0 r)
    (hp : Posts limit r.waiters { r with waiters := 0 } r') (group : ι → Bool) : Provided group r' := by
  have hs' := Sound.posts hl (hs.none_counted) hp
  have hcov := hs'.covered
  rw [hp.waiters_eq] at hcov
  simp only at hcov
  have hle : r'.coming group ≤ r'.total :=
    census_mono fun j hj => Stage.waiting_inside (Stage.coming_waiting (Bool.and_eq_true_iff.mp hj).2)
  refine ⟨fun j _ hj => ?_, by omega⟩
  have := r'.total_pos (i := j) (by rw [hj]; rfl)
  exact hs'.idle (by omega) j hj

end Groups

end TokenRoom
