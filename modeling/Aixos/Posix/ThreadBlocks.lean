import Aixos.Kernel.Pthread
import Aixos.Library.Parties
import Mathlib.Data.Fintype.Prod

/-!
# The control block of a thread

Any number of tasks deal with one block: its creator, its thread, those that join or detach it. `lives` says at which
places they may be together, and what is known of the block there; `LifeMove.sound` goes through what they can do.

* `LifePlace`, `LifeFacts` — where a task is as far as one block is concerned, and what is known of the block.
* `LifeMove` — what a task can do to a block.
* `Threads.Inv` — all blocks are as they should be.
* `Threads.Inv.goto` — what a task does to one block keeps that.
-/

namespace Aixos.Posix

open Parties

/-! ### One block -/

/-- Where a task is, as far as one block is concerned. -/
inductive LifePlace where
  | idle
  | semCreate
  | taskCreate
  | link
  | output
  /-- The start routine of its thread runs. -/
  | own
  | completing
  | post
  | wait
  | unjoin
  | joined
  /-- before `aixos_sem_post`, when the thread is detached -/
  | lastPost
  | remove
  | semDelete
  | free
  deriving DecidableEq

instance : Fintype LifePlace where
  elems := {.idle, .semCreate, .taskCreate, .link, .output, .own, .completing, .post, .wait, .unjoin, .joined, .lastPost,
    .remove, .semDelete, .free}
  complete p := by cases p <;> decide

/-- What is known of a block. -/
structure LifeFacts where
  live : Bool
  /-- Its semaphore exists. -/
  sem : Bool
  /-- It is in the list. -/
  listed : Bool
  detached : Bool
  completed : Bool
  joining : Bool
  /-- Its semaphore can be taken. -/
  posted : Bool
  deriving DecidableEq

namespace LifeFacts

/-- What is known, in a row. -/
def ofRow (r : Bool × Bool × Bool × Bool × Bool × Bool × Bool) : LifeFacts :=
  ⟨r.1, r.2.1, r.2.2.1, r.2.2.2.1, r.2.2.2.2.1, r.2.2.2.2.2.1, r.2.2.2.2.2.2⟩

instance : Fintype LifeFacts :=
  .ofBijective ofRow ⟨fun r q h => by
    obtain ⟨_, _, _, _, _, _, _⟩ := r
    obtain ⟨_, _, _, _, _, _, _⟩ := q
    cases h
    rfl, fun d => ⟨(d.live, d.sem, d.listed, d.detached, d.completed, d.joining, d.posted), rfl⟩⟩

end LifeFacts

namespace LifePlace

/-- `aixos_pthread_create` is done, but for its last steps. -/
def creates : LifePlace → Bool
  | .link | .output => true
  | _ => false

/-- The thread is not done. -/
def runs : LifePlace → Bool
  | .own | .completing | .post => true
  | _ => false

/-- A thread waits for it. -/
def waits : LifePlace → Bool
  | .wait | .unjoin => true
  | _ => false

/-- It is about to be freed. -/
def ends : LifePlace → Bool
  | .joined | .lastPost | .remove | .semDelete | .free => true
  | _ => false

/-- What a place says of the block. -/
def fits : LifePlace → LifeFacts → Bool
  | .idle, _ => true
  | .semCreate, d =>
    d.live && !d.sem && !d.listed && !d.detached && !d.completed && !d.joining && !d.posted
  | .taskCreate, d =>
    d.live && d.sem && !d.listed && !d.detached && !d.completed && !d.joining && !d.posted
  | .link, d => d.live && d.sem && !d.listed && !d.joining && !(d.detached && d.completed)
  | .output, d => d.live && d.sem && d.listed && !(d.detached && d.completed)
  | .own, d | .completing, d => d.live && d.sem && !d.completed && !d.posted
  | .post, d => d.live && d.sem && d.completed && !d.posted && !d.detached
  | .wait, d | .unjoin, d => d.live && d.sem && d.listed && d.joining && !d.detached
  | .joined, d => d.live && d.sem && d.listed && d.joining && d.completed && !d.detached
  | .lastPost, d => d.live && d.sem && d.listed && d.detached && d.completed && !d.joining
  | .remove, d => d.live && d.sem && d.listed && d.completed && (d.joining || d.detached)
  | .semDelete, d => d.live && d.sem && !d.listed
  | .free, d => d.live && !d.sem && !d.listed

/-- Two tasks may be there at the same time. -/
def compat (l m : LifePlace) : Bool :=
  l = .idle || m = .idle || (l.creates && m.runs) || (l.runs && m.creates) || (l.runs && m.waits) ||
    (l.waits && m.runs) || (l = .output && m.waits) || (l.waits && m = .output)

/-- Nothing is asked of the others. -/
def anywhere (_ : LifePlace) : Bool := true

/-- The other tasks are not at the end of `aixos_pthread_create`. -/
def created (l : LifePlace) : Bool := !l.creates

/-- They are not at `*thread_out = thread->thread`. -/
def written (l : LifePlace) : Bool := l ≠ .output

/-- Nor are they before `aixos_sem_post`. -/
def settled (l : LifePlace) : Bool := l ≠ .output && l ≠ .post

/-- They are at no other place than the first. -/
def alone (l : LifePlace) : Bool := l = .idle || l = .link

end LifePlace

/-- The life of a block. -/
def lives : Protocol LifePlace LifeFacts where
  fits := LifePlace.fits
  compat := LifePlace.compat
  sane d := (!d.listed || d.live) && (!d.sem || d.live) && (!d.posted || (d.sem && d.completed))
  duties :=
    [(fun d => d.live && d.completed && d.detached, LifePlace.ends),
     (fun d => d.live && d.joining, fun l => l.waits || l.ends),
     (fun d => d.live && !d.listed, fun l => l = .semCreate || l = .taskCreate || l = .link || l.ends),
     (fun d => d.live && d.completed && !d.posted, fun l => l = .post || l.ends),
     (fun d => d.live && !d.sem, fun l => l = .semCreate || l = .free)]

/-- What a task can do to a block. -/
inductive LifeMove where
  | create
  | semCreate (ok : Bool)
  | taskCreate (detached ok : Bool)
  /-- The new task, when the other has gone on. -/
  | born
  | link
  | output
  | join
  | waitOk (posted : Bool)
  | waitFail
  | unjoin
  | joined
  /-- `aixos_pthread_detach` by a thread itself, or by another task -/
  | detach (own : Bool)
  /-- `aixos_pthread_detach`, of a thread that has completed -/
  | reclaim
  | returns
  | exit
  | complete (detached : Bool)
  | post
  | lastPost
  | remove
  | semDelete
  | free

namespace LifeMove

/-- Where the others are. -/
def guard : LifeMove → LifePlace → Bool
  | born => LifePlace.alone
  | waitOk _ => LifePlace.written
  | reclaim => LifePlace.settled
  | complete true => LifePlace.created
  | _ => LifePlace.anywhere

/-- From where. -/
def src : LifeMove → LifePlace
  | create | born | join | reclaim => .idle
  | semCreate _ => .semCreate
  | taskCreate .. => .taskCreate
  | link => .link
  | output => .output
  | waitOk _ | waitFail => .wait
  | unjoin => .unjoin
  | joined => .joined
  | detach own => if own then .own else .idle
  | returns | exit => .own
  | complete _ => .completing
  | post => .post
  | lastPost => .lastPost
  | remove => .remove
  | semDelete => .semDelete
  | free => .free

/-- When. -/
def pre (d : LifeFacts) : LifeMove → Bool
  | create => !d.live
  | born => d.live && d.sem && !d.listed && !d.completed && !d.joining && !d.posted
  | join => d.listed && !d.detached && !d.joining
  | waitOk _ => d.posted
  | detach _ => d.listed && !d.detached && !d.joining && !d.completed
  | reclaim => d.listed && !d.detached && !d.joining && d.completed
  | complete detached => d.detached = detached
  | _ => true

/-- Where to. -/
def dst : LifeMove → LifePlace
  | create => .semCreate
  | semCreate ok => if ok then .taskCreate else .free
  | taskCreate _ ok => if ok then .link else .semDelete
  | born => .own
  | link => .output
  | output | unjoin | exit | post | free => .idle
  | join => .wait
  | waitOk _ => .joined
  | waitFail => .unjoin
  | joined | lastPost => .remove
  | detach own => if own then .own else .idle
  | reclaim | remove => .semDelete
  | returns => .completing
  | complete detached => if detached then .lastPost else .post
  | semDelete => .free

/-- What becomes of the block. -/
def effect (d : LifeFacts) : LifeMove → LifeFacts
  | create => ⟨true, false, false, false, false, false, false⟩
  | semCreate true => { d with sem := true, posted := false }
  | taskCreate detached _ => { d with detached }
  | link => { d with listed := true }
  | join => { d with joining := true }
  | waitOk posted => { d with posted }
  | unjoin => { d with joining := false }
  | detach _ => { d with detached := true }
  | reclaim => { d with detached := true, listed := false }
  | complete _ => { d with completed := true }
  | post | lastPost => { d with posted := d.sem }
  | remove => { d with listed := false }
  | semDelete => { d with sem := false, posted := false }
  | free => { d with live := false }
  | semCreate false | born | output | waitFail | joined | returns | exit => d

/-- **Every move is sound.** -/
theorem sound (a : LifeMove) : ∀ d, a.pre d → lives.Knows a.guard a.src d →
    lives.Sound a.guard a.src d a.dst (a.effect d) := by
  cases a with
  | semCreate ok => revert ok; decide +kernel
  | taskCreate detached ok => revert detached ok; decide +kernel
  | waitOk posted => revert posted; decide +kernel
  | detach own => revert own; decide +kernel
  | complete detached => revert detached; decide +kernel
  | _ => decide +kernel

end LifeMove

/-! ### All blocks -/

namespace ThreadPlace

variable {β : Type}

/-- The block that a task deals with. -/
def block : ThreadPlace β → Option β
  | .unborn | .user | .exited => none
  | .semCreate b _ | .taskCreate b _ | .link b | .output b | .wait b | .unjoin b | .joined b | .completing b _ |
    .post b _ | .remove b _ | .semDelete b _ | .free b _ => some b

/-- Where it is as far as that is concerned. -/
def life : ThreadPlace β → LifePlace
  | .unborn | .user | .exited => .idle
  | .semCreate .. => .semCreate
  | .taskCreate .. => .taskCreate
  | .link _ => .link
  | .output _ => .output
  | .wait _ => .wait
  | .unjoin _ => .unjoin
  | .joined _ => .joined
  | .completing .. => .completing
  | .post _ detached => if detached then .lastPost else .post
  | .remove .. => .remove
  | .semDelete .. => .semDelete
  | .free .. => .free

/-- The start routine of the task is over. -/
@[simp] def ended : ThreadPlace β → Bool
  | .completing .. | .post .. | .remove _ true | .semDelete _ true | .free _ true | .exited => true
  | _ => false

end ThreadPlace

namespace Threads

variable {τ β : Type} [DecidableEq τ] [DecidableEq β] {s s' x : Threads τ β} {t u : τ} {b c : β} {p : ThreadPlace β}
  {m : LifeMove} {f : ThreadBlock τ → ThreadBlock τ}

/-- Where a task is, as far as block `b` is concerned. -/
def lifePlace (s : Threads τ β) (b : β) (t : τ) : LifePlace :=
  if (s.place t).block = some b then (s.place t).life else if s.entry t = some b then .own else .idle

/-- What is known of block `b`. -/
def facts (s : Threads τ β) (b : β) : LifeFacts where
  live := s.live b
  sem := (s.block b).completion.isSome
  listed := decide (b ∈ s.threads)
  detached := (s.block b).detached
  completed := (s.block b).completed
  joining := (s.block b).joining
  posted := decide (0 < (s.block b).completion.getD 0)

/-- A block is in the list, or about to be. -/
def Linked (s : Threads τ β) (b : β) : Prop := b ∈ s.threads ∨ ∃ t, s.place t = .link b

/-- The blocks have the right threads. -/
structure Named (s : Threads τ β) : Prop where
  entry : ∀ t b, s.entry t = some b → (s.block b).thread = some t
  thread : ∀ b u, s.Linked b → (s.block b).thread = some u → s.entry u = some b ∨ (s.place u).ended
  unborn : ∀ u, s.place u = .unborn → s.entry u = none
  apart : ∀ t b, (s.place t).block = some b → s.entry t ≠ some b
  nodup : s.threads.Nodup

/-- What holds in all runs. -/
structure Inv (s : Threads τ β) : Prop where
  blocks : ∀ b, lives.Holds (s.lifePlace b) (s.facts b)
  named : Named s

/-! ### Steps of one task with one block -/

omit [DecidableEq β] in
theorem goto_place_self (s : Threads τ β) (t : τ) (p : ThreadPlace β) : (s.goto t p).place t = p :=
  Function.update_self ..

omit [DecidableEq β] in
theorem goto_place_of_ne (s : Threads τ β) (p : ThreadPlace β) (h : u ≠ t) : (s.goto t p).place u = s.place u :=
  Function.update_of_ne h ..

omit [DecidableEq τ] in
theorem lifePlace_of_block (h : (s.place t).block = some b) : s.lifePlace b t = (s.place t).life := if_pos h

omit [DecidableEq τ] in
theorem lifePlace_of_ne (h : (s.place t).block ≠ some b) :
    s.lifePlace b t = if s.entry t = some b then .own else .idle := if_neg h

omit [DecidableEq τ] in
theorem lifePlace_congr (hp : s'.place u = s.place u) (he : s'.entry u = s.entry u) :
    s'.lifePlace b u = s.lifePlace b u := by
  unfold lifePlace
  rw [hp, he]

/-- A task does something to block `c`. -/
structure Moves (s s' : Threads τ β) (t : τ) (c : β) (m : LifeMove) : Prop where
  others : ∀ u, u ≠ t → ∀ b, s'.lifePlace b u = s.lifePlace b u
  frame : ∀ b, b ≠ c → s'.lifePlace b t = s.lifePlace b t ∧ s'.facts b = s.facts b
  src : s.lifePlace c t = m.src
  guard : ∀ u, u ≠ t → m.guard (s.lifePlace c u)
  pre : m.pre (s.facts c)
  dst : s'.lifePlace c t = m.dst
  effect : s'.facts c = m.effect (s.facts c)

/-- **What a task does to a block**, all blocks stand. -/
theorem Moves.holds (hm : Moves s s' t c m) (h : ∀ b, lives.Holds (s.lifePlace b) (s.facts b)) (b : β) :
    lives.Holds (s'.lifePlace b) (s'.facts b) := by
  by_cases hb : b = c
  · subst hb
    have e : s'.lifePlace b = Function.update (s.lifePlace b) t m.dst := by
      funext u
      by_cases hu : u = t
      · rw [hu, Function.update_self, hm.dst]
      · rw [Function.update_of_ne hu, hm.others u hu]
    rw [e, hm.effect]
    refine (h b).move hm.guard ?_
    rw [hm.src]
    exact m.sound _ hm.pre
  · have e : s'.lifePlace b = s.lifePlace b := by
      funext u
      by_cases hu : u = t
      · rw [hu, (hm.frame b hb).1]
      · rw [hm.others u hu]
    rw [e, (hm.frame b hb).2]
    exact h b

/-- What a task does between two of its places. -/
structure Edits (s x : Threads τ β) (c : β) (m : LifeMove) : Prop where
  place : x.place = s.place
  entry : x.entry = s.entry
  thread : ∀ b, s.Linked b ∨ (∃ u, s.entry u = some b) → (x.block b).thread = (s.block b).thread
  listed : ∀ b ∈ x.threads, s.Linked b
  nodup : x.threads.Nodup
  frame : ∀ b, b ≠ c → x.facts b = s.facts b
  pre : m.pre (s.facts c)
  effect : x.facts c = m.effect (s.facts c)

theorem Named.goto (h : Named s) (hx : Edits s x c m) (hp : p ≠ .unborn) (hlink : ∀ b, p ≠ .link b)
    (hended : (s.place t).ended → p.ended) (hown : ∀ b, p.block = some b → s.entry t ≠ some b) : Named (x.goto t p) := by
  have hplace : ∀ u, u ≠ t → (x.goto t p).place u = s.place u := fun u hu => by
    rw [goto_place_of_ne _ _ hu, hx.place]
  have hentry : ∀ u, (x.goto t p).entry u = s.entry u := fun u => congrFun hx.entry u
  have hself : (x.goto t p).place t = p := goto_place_self ..
  refine ⟨fun u b hu => ?_, fun b u hb hu => ?_, fun u hu => ?_, fun u b hu => ?_, hx.nodup⟩
  · rw [hentry] at hu
    exact (hx.thread b (.inr ⟨u, hu⟩)).trans (h.entry u b hu)
  · rw [hentry]
    have hb : s.Linked b := by
      rcases hb with hb | ⟨v, hv⟩
      · exact hx.listed b hb
      · by_cases e : v = t
        · rw [e, hself] at hv
          exact absurd hv (hlink b)
        · rw [hplace v e] at hv
          exact .inr ⟨v, hv⟩
    rcases h.thread b u hb ((hx.thread b (.inl hb)).symm.trans hu) with he | ho
    · exact .inl he
    · refine .inr ?_
      by_cases e : u = t
      · rw [e, hself]
        exact hended (e ▸ ho)
      · rwa [hplace u e]
  · rw [hentry]
    by_cases e : u = t
    · rw [e, hself] at hu
      exact absurd hu hp
    · rw [hplace u e] at hu
      exact h.unborn u hu
  · rw [hentry]
    by_cases e : u = t
    · rw [e, hself] at hu
      rw [e]
      exact hown b hu
    · rw [hplace u e] at hu
      exact h.apart u b hu

/-- **A task goes on**, and deals with no block but `c`. -/
theorem Inv.goto (h : Inv s) (hx : Edits s x c m) (hq : ∀ b, (s.place t).block = some b → b = c)
    (hsrc : s.lifePlace c t = m.src) (hguard : ∀ u, u ≠ t → m.guard (s.lifePlace c u)) (hp : p ≠ .unborn)
    (hlink : ∀ b, p ≠ .link b) (hended : (s.place t).ended → p.ended)
    (hblock : ∀ b, p.block = some b → b = c ∧ s.entry t ≠ some c)
    (hdst : (if p.block = some c then p.life else if s.entry t = some c then .own else .idle) = m.dst) :
    Inv (x.goto t p) := by
  have hself : (x.goto t p).place t = p := goto_place_self ..
  have hentry : (x.goto t p).entry t = s.entry t := congrFun hx.entry t
  refine ⟨Moves.holds (t := t) (c := c) (m := m) ⟨fun u hu b => ?_, fun b hb => ⟨?_, hx.frame b hb⟩, hsrc, hguard, hx.pre,
    ?_, hx.effect⟩ h.blocks, h.named.goto hx hp hlink hended fun b hb => ?_⟩
  · refine lifePlace_congr ?_ (congrFun hx.entry u)
    rw [goto_place_of_ne _ _ hu, hx.place]
  · rw [lifePlace_of_ne fun e => hb (hblock b (hself ▸ e)).1, hentry, lifePlace_of_ne fun e => hb (hq b e)]
  · rw [← hdst]
    unfold lifePlace
    rw [hself, hentry]
  · obtain ⟨rfl, hown⟩ := hblock b hb
    exact hown

/-- Move `m` goes from place `q` to place `p`. -/
structure Leads (q p : ThreadPlace β) (m : LifeMove) : Prop where
  src : m.src = q.life
  dst : (p.block = q.block ∧ m.dst = p.life) ∨ (p.block = none ∧ m.dst = .idle)
  born : p ≠ .unborn
  link : ∀ b, p ≠ .link b
  ended : q.ended → p.ended

/-- From a place where it deals with it already. -/
theorem Inv.advance {q : ThreadPlace β} (h : Inv s) (hat : s.place t = q) (hc : q.block = some c) (hx : Edits s x c m)
    (hl : Leads q p m) (hguard : ∀ u, u ≠ t → m.guard (s.lifePlace c u)) : Inv (x.goto t p) := by
  subst hat
  have hown := h.named.apart t c hc
  refine h.goto hx (fun b hb => Option.some.inj (hb.symm.trans hc)) ?_ hguard hl.born hl.link hl.ended
    (fun b hb => ?_) ?_
  · rw [lifePlace_of_block hc, hl.src]
  · rcases hl.dst with ⟨he, -⟩ | ⟨he, -⟩
    · exact ⟨Option.some.inj (hb.symm.trans (he.trans hc)), hown⟩
    · rw [he] at hb
      cases hb
  · rcases hl.dst with ⟨he, hd⟩ | ⟨he, hd⟩
    · rw [if_pos (he.trans hc), hd]
    · rw [if_neg (by rw [he]; simp), if_neg hown, hd]

/-- From outside of the functions. -/
theorem Inv.enter (h : Inv s) (ht : s.place t = .user) (hx : Edits s x c m) (hsrc : m.src = .idle)
    (hguard : ∀ u, u ≠ t → m.guard (s.lifePlace c u)) (hown : s.entry t ≠ some c) (hlink : ∀ b, p ≠ .link b)
    (hblock : p.block = some c) (hdst : m.dst = p.life) : Inv (x.goto t p) := by
  refine h.goto hx (fun b hb => ?_) ?_ hguard ?_ hlink (fun ho => ?_) (fun b hb => ?_) ?_
  · rw [ht] at hb
    cases hb
  · rw [lifePlace_of_ne (by rw [ht]; simp [ThreadPlace.block]), if_neg hown, hsrc]
  · rintro rfl
    cases hblock
  · rw [ht] at ho
    cases ho
  · exact ⟨Option.some.inj (hb.symm.trans hblock), hown⟩
  · rw [if_pos hblock, hdst]

end Threads

end Aixos.Posix
