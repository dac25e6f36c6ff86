import Aixos.Kernel.Posix

/-!
# Thread-specific data

The keys of `compat/posix/posix.c`, the values that every task has for them, and the destructors that a thread runs when it
exits. A destructor may call any of these functions, and the thread may exit in it; so a task has a stack of calls of
`run_key_destructors`. Between two calls of destructors, and after every key that is looked at, other tasks may run.

* `Keys.create`, `delete`, `getspecific`, `setspecific` — the functions.
* `Keys.loop` — a step of `run_key_destructors`.
* `Keys.exec`, `step`, `observe` — what tasks do, and what can be seen of it.

A value is the word of a pointer, 0 for `NULL`.
-/

namespace Aixos.Posix

/-- The macro of `aixos_cfg.h` for keys. -/
class KeyConfig where
  /-- `AIXOS_CFG_POSIX_KEYS` -/
  posixKeys : ℕ

/-- Its value when the user overrides nothing. -/
@[reducible] def KeyConfig.default : KeyConfig where
  posixKeys := 16

/-- `posix_key_t` -/
structure Key (δ : Type) where
  /-- `used` -/
  used : Bool := false
  /-- `generation` -/
  generation : Word := 0
  /-- `destructor`, `none` for `NULL` -/
  destructor : Option δ := none

/-- A call of `run_key_destructors`. -/
structure DestructorLoop where
  /-- `iteration` -/
  iteration : ℕ := 0
  /-- `key` -/
  key : ℕ := 0
  /-- `called` -/
  called : Bool := false
  /-- A destructor that it has called has not returned yet. -/
  running : Bool := false
  deriving DecidableEq

/-- What `aixos_tcb_t` has for keys, and where the task is. -/
structure KeyTask where
  /-- `posix_values` -/
  values : ℕ → Word := fun _ => 0
  /-- `posix_key_generations` -/
  generations : ℕ → Word := fun _ => 0
  /-- The calls of `run_key_destructors` that it is in, the innermost first. -/
  loops : List DestructorLoop := []
  /-- It has left the last of them, and exits. -/
  ended : Bool := false

/-- `keys`, and all tasks. -/
structure Keys (τ δ : Type) where
  /-- `keys` -/
  keys : ℕ → Key δ
  /-- The tasks. -/
  tasks : τ → KeyTask

/-- What happens. -/
inductive KeyAct (τ δ : Type) where
  /-- A task begins where another was before, or none. -/
  | begins (t : τ)
  /-- Task `t` calls `aixos_pthread_key_create`. -/
  | create (t : τ) (nullKey : Bool) (destructor : Option δ)
  /-- It calls `aixos_pthread_key_delete`. -/
  | delete (t : τ) (key : ℕ)
  /-- It calls `aixos_pthread_setspecific`. -/
  | setspecific (t : τ) (key : ℕ) (value : Word)
  /-- It exits. -/
  | exit (t : τ)
  /-- `run_key_destructors` goes on. -/
  | next (t : τ)
  /-- The destructor returns. -/
  | returns (t : τ)

/-- What can be seen. -/
inductive KeyEvent (τ δ : Type) where
  /-- A task has begun. -/
  | began (t : τ)
  /-- A key has been created. -/
  | created (key : ℕ)
  /-- A task has stored a value under a key. -/
  | stored (t : τ) (key : ℕ) (value : Word)
  /-- A task exits. -/
  | exits (t : τ)
  /-- A round of its destructors begins. -/
  | round (t : τ)
  /-- The value of a key has been cleared, and the destructor is called with it. -/
  | destroys (t : τ) (key : ℕ) (destructor : δ) (value : Word)
  deriving DecidableEq

namespace Keys

variable [KeyConfig] {τ δ : Type} [DecidableEq τ]

open KeyConfig

/-- No key has been created, and nothing stored. -/
def init : Keys τ δ := { keys := fun _ => {}, tasks := fun _ => {} }

/-- `s` with another key at `k`. -/
def setKey (s : Keys τ δ) (k : ℕ) (key : Key δ) : Keys τ δ := { s with keys := Function.update s.keys k key }

/-- `s` with another task at `t`. -/
def setTask (s : Keys τ δ) (t : τ) (task : KeyTask) : Keys τ δ := { s with tasks := Function.update s.tasks t task }

/-- The generation after `generation`. -/
def nextGeneration (generation : Word) : Word := if generation + 1 = 0 then 1 else generation + 1

/-- `aixos_pthread_key_create` -/
def create (s : Keys τ δ) (nullKey : Bool) (destructor : Option δ) : Keys τ δ × Except Errno ℕ :=
  if nullKey then (s, .error Errno.inval)
  else
    match (List.range posixKeys).find? (fun k => !(s.keys k).used) with
    | some k => (s.setKey k { used := true, generation := nextGeneration (s.keys k).generation, destructor }, .ok k)
    | none => (s, .error Errno.again)

/-- `aixos_pthread_key_delete` -/
def delete (s : Keys τ δ) (k : ℕ) : Keys τ δ × Errno :=
  if posixKeys ≤ k ∨ (s.keys k).used = false then (s, Errno.inval)
  else (s.setKey k { s.keys k with used := false, destructor := none }, 0)

/-- `aixos_pthread_getspecific`, called by task `t` -/
def getspecific (s : Keys τ δ) (t : τ) (k : ℕ) : Word :=
  if posixKeys ≤ k ∨ (s.keys k).used = false ∨ (s.tasks t).generations k ≠ (s.keys k).generation then 0
  else (s.tasks t).values k

/-- `aixos_pthread_setspecific`, called by task `t` -/
def setspecific (s : Keys τ δ) (t : τ) (k : ℕ) (value : Word) : Keys τ δ × Errno :=
  if posixKeys ≤ k ∨ (s.keys k).used = false then (s, Errno.inval)
  else
    (s.setTask t { s.tasks t with
      values := Function.update (s.tasks t).values k value
      generations := Function.update (s.tasks t).generations k (s.keys k).generation }, 0)

/-- The destructor that `run_key_destructors` calls for a key, if it calls one. -/
def due (s : Keys τ δ) (t : τ) (k : ℕ) : Option δ :=
  if (s.keys k).used = true ∧ (s.tasks t).generations k = (s.keys k).generation ∧ (s.tasks t).values k ≠ 0 then
    (s.keys k).destructor
  else none

/-- A step of `run_key_destructors`: it looks at a key, or a round ends. -/
def loop (s : Keys τ δ) (t : τ) (l : DestructorLoop) (ls : List DestructorLoop) : Keys τ δ × List (KeyEvent τ δ) :=
  if l.key < posixKeys then
    match s.due t l.key with
    | some destructor =>
      (s.setTask t { s.tasks t with
        values := Function.update (s.tasks t).values l.key 0
        loops := { l with running := true } :: ls },
      [.destroys t l.key destructor ((s.tasks t).values l.key)])
    | none => (s.setTask t { s.tasks t with loops := { l with key := l.key + 1 } :: ls }, [])
  else if l.called = true ∧ l.iteration + 1 < 4 then
    (s.setTask t { s.tasks t with loops := { iteration := l.iteration + 1 } :: ls }, [.round t])
  else (s.setTask t { s.tasks t with ended := true }, [])

/-- A task may call functions where it does not exit, and in a destructor. -/
def mayCall (s : Keys τ δ) (t : τ) : Bool :=
  !(s.tasks t).ended && ((s.tasks t).loops.head?.map (·.running)).getD true

/-- What an action does, and what is seen of it. -/
def exec (s : Keys τ δ) : KeyAct τ δ → Option (Keys τ δ × List (KeyEvent τ δ))
  | .begins t => some (s.setTask t {}, [.began t])
  | .create t nullKey destructor =>
    if s.mayCall t then
      match s.create nullKey destructor with
      | (s', .ok k) => some (s', [.created k])
      | (s', .error _) => some (s', [])
    else none
  | .delete t k => if s.mayCall t then some ((s.delete k).1, []) else none
  | .setspecific t k value =>
    if s.mayCall t then
      some ((s.setspecific t k value).1, if (s.setspecific t k value).2 = 0 then [.stored t k value] else [])
    else none
  | .exit t =>
    if s.mayCall t then
      some (s.setTask t { s.tasks t with loops := {} :: (s.tasks t).loops }, [.exits t, .round t])
    else none
  | .next t =>
    match (s.tasks t).loops with
    | [] => none
    | l :: ls => if (s.tasks t).ended = true ∨ l.running = true then none else some (s.loop t l ls)
  | .returns t =>
    match (s.tasks t).loops with
    | [] => none
    | l :: ls =>
      if (s.tasks t).ended = false ∧ l.running = true then
        some (s.setTask t { s.tasks t with
          loops := { l with running := false, called := true, key := l.key + 1 } :: ls }, [])
      else none

/-- One step. -/
def step (s : Keys τ δ) (a : KeyAct τ δ) : Option (Keys τ δ) := (s.exec a).map (·.1)

/-- What is seen of a step. -/
def observe (s : Keys τ δ) (a : KeyAct τ δ) : List (KeyEvent τ δ) := ((s.exec a).map (·.2)).getD []

end Keys

end Aixos.Posix
