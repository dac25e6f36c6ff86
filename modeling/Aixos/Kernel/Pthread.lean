import Aixos.Kernel.Posix

/-!
# The life of a thread

`aixos_pthread_create`, `aixos_pthread_join`, `aixos_pthread_detach`, `aixos_pthread_exit`, `thread_entry` and
`thread_complete` of `compat/posix/posix.c`: any number of tasks, each in one of these functions or outside of them. What
the source does with interrupts disabled is one step, as is a call of the kernel, and any other task may run between two
steps.

* `Threads.step` — a task calls one of the functions, or takes its next step.
* `Threads.observe` — what can be seen of a step.

The checks of parameters and an allocation that fails change nothing, and are left out. So are the functions that are
called with a value of a key; they call none of these. Which task runs is left open, and so is when a wait that cannot
succeed is given up.
-/

namespace Aixos.Posix

/-- Where a task is. The blocks are those that it has a pointer to. -/
inductive ThreadPlace (β : Type) where
  /-- It has not been created. -/
  | unborn
  /-- It is outside of these functions. -/
  | user
  /-- in `aixos_pthread_create`, before `aixos_sem_create` -/
  | semCreate (b : β) (detached : Bool)
  /-- before `aixos_task_create` -/
  | taskCreate (b : β) (detached : Bool)
  /-- before the critical section -/
  | link (b : β)
  /-- before `*thread_out = thread->thread` -/
  | output (b : β)
  /-- in `aixos_pthread_join`, before `aixos_sem_wait` or in it -/
  | wait (b : β)
  /-- before `thread->joining = 0U` -/
  | unjoin (b : β)
  /-- before `*value = thread->result` -/
  | joined (b : β)
  /-- in `thread_complete`, before the critical section -/
  | completing (b : β) (result : Word)
  /-- before `aixos_sem_post` -/
  | post (b : β) (detached : Bool)
  /-- before `thread_remove`; whether it is about to exit -/
  | remove (b : β) (leaving : Bool)
  /-- before `aixos_sem_delete` -/
  | semDelete (b : β) (leaving : Bool)
  /-- before `aixos_free` -/
  | free (b : β) (leaving : Bool)
  /-- It has exited. -/
  | exited
  deriving DecidableEq

/-- `posix_thread_t`, without what it is started with. -/
structure ThreadBlock (τ : Type) where
  /-- `thread` -/
  thread : Option τ := none
  /-- `completion`: how often it has been posted, unless it does not exist -/
  completion : Option ℕ := none
  /-- `result` -/
  result : Word := 0
  /-- `detached` -/
  detached : Bool := false
  /-- `completed` -/
  completed : Bool := false
  /-- `joining` -/
  joining : Bool := false

/-- The threads. -/
structure Threads (τ β : Type) where
  /-- The blocks that are allocated. -/
  live : β → Bool
  /-- What is in them. -/
  block : β → ThreadBlock τ
  /-- `threads` -/
  threads : List β
  /-- Where every task is. -/
  place : τ → ThreadPlace β
  /-- `thread` in `thread_entry`, while the start routine runs -/
  entry : τ → Option β

/-- What a task does. -/
inductive ThreadAct (τ β : Type) where
  /-- `aixos_pthread_create` is called, and gets block `b`. -/
  | create (t : τ) (b : β) (detached : Bool)
  /-- `aixos_sem_create` returns, with a semaphore or without. -/
  | semCreate (t : τ) (ok : Bool)
  /-- `aixos_task_create` returns, with a task or without. -/
  | taskCreate (t : τ) (u : Option τ)
  /-- The critical section of `aixos_pthread_create`. -/
  | link (t : τ)
  /-- It returns. -/
  | output (t : τ)
  /-- `aixos_pthread_join` is called, up to its critical section. -/
  | join (t u : τ)
  /-- `aixos_sem_wait` returns `AIXOS_OK`. -/
  | waitOk (t : τ)
  /-- It returns something else. -/
  | waitFail (t : τ)
  /-- The critical section behind it. -/
  | unjoin (t : τ)
  /-- `*value = thread->result` -/
  | joined (t : τ)
  /-- `aixos_pthread_detach` is called, up to its critical section. -/
  | detach (t u : τ)
  /-- The start routine returns. -/
  | returns (t : τ) (result : Word)
  /-- `aixos_pthread_exit` is called, up to its critical section. -/
  | exit (t : τ) (result : Word)
  /-- The critical section of `thread_complete`. -/
  | complete (t : τ)
  /-- `aixos_sem_post` -/
  | post (t : τ)
  /-- `thread_remove` -/
  | remove (t : τ)
  /-- `aixos_sem_delete` -/
  | semDelete (t : τ)
  /-- `aixos_free` -/
  | free (t : τ)

/-- What can be seen. -/
inductive ThreadEvent (τ : Type) where
  /-- The start routine has returned, or `aixos_pthread_exit` has been called. -/
  | ended (u : τ) (result : Word)
  /-- `aixos_pthread_join` has stored a value. -/
  | joined (t u : τ) (result : Word)
  /-- `aixos_pthread_join` or `aixos_pthread_detach` has failed. -/
  | failed (t : τ) (error : Errno)
  deriving DecidableEq

/-- `AIXOS_ESRCH` -/
def Errno.srch : Errno := 3

namespace Threads

variable {τ β : Type} [DecidableEq τ] [DecidableEq β]

/-- No thread has been created. -/
def init (tasks : τ → Bool) : Threads τ β where
  live _ := false
  block _ := {}
  threads := []
  place t := if tasks t then .user else .unborn
  entry _ := none

/-- A task goes to another place. -/
def goto (s : Threads τ β) (t : τ) (p : ThreadPlace β) : Threads τ β := { s with place := Function.update s.place t p }

/-- A block is written to. -/
def modify (s : Threads τ β) (b : β) (f : ThreadBlock τ → ThreadBlock τ) : Threads τ β :=
  { s with block := Function.update s.block b (f (s.block b)) }

/-- `thread_find` -/
def find (s : Threads τ β) (u : τ) : Option β := s.threads.find? fun b => (s.block b).thread = some u

/-- `thread_remove` -/
def unlink (s : Threads τ β) (b : β) : Threads τ β := { s with threads := s.threads.erase b }

/-- Behind the end of `thread_complete`, or of the other functions. -/
def after (leaving : Bool) : ThreadPlace β := if leaving then .exited else .user

/-- One step. -/
def step (s : Threads τ β) : ThreadAct τ β → Option (Threads τ β)
  | .create t b detached =>
    if s.place t = .user ∧ s.live b = false then
      some (({ s with live := Function.update s.live b true }.modify b fun _ => {}).goto t (.semCreate b detached))
    else none
  | .semCreate t ok =>
    match s.place t with
    | .semCreate b detached =>
      if ok then some ((s.modify b fun c => { c with completion := some 0 }).goto t (.taskCreate b detached))
      else some (s.goto t (.free b false))
    | _ => none
  | .taskCreate t u =>
    match s.place t with
    | .taskCreate b detached =>
      match u with
      | none => some ((s.modify b fun c => { c with detached }).goto t (.semDelete b false))
      | some u =>
        if s.place u = .unborn then
          some ((({ s with entry := Function.update s.entry u (some b) }.modify b fun c =>
            { c with detached, thread := some u }).goto u .user).goto t (.link b))
        else none
    | _ => none
  | .link t =>
    match s.place t with
    | .link b => some ({ s with threads := b :: s.threads }.goto t (.output b))
    | _ => none
  | .output t =>
    match s.place t with
    | .output _ => some (s.goto t .user)
    | _ => none
  | .join t u =>
    if s.place t = .user then
      if u = t then some s else
      match s.find u with
      | none => some s
      | some b =>
        if (s.block b).detached ∨ (s.block b).joining then some s
        else some ((s.modify b fun c => { c with joining := true }).goto t (.wait b))
    else none
  | .waitOk t =>
    match s.place t with
    | .wait b =>
      match (s.block b).completion with
      | some (n + 1) => some ((s.modify b fun c => { c with completion := some n }).goto t (.joined b))
      | _ => none
    | _ => none
  | .waitFail t =>
    match s.place t with
    | .wait b => some (s.goto t (.unjoin b))
    | _ => none
  | .unjoin t =>
    match s.place t with
    | .unjoin b => some ((s.modify b fun c => { c with joining := false }).goto t .user)
    | _ => none
  | .joined t =>
    match s.place t with
    | .joined b => some (s.goto t (.remove b false))
    | _ => none
  | .detach t u =>
    if s.place t = .user then
      match s.find u with
      | none => some s
      | some b =>
        if (s.block b).detached ∨ (s.block b).joining then some s
        else
          let s' := s.modify b fun c => { c with detached := true }
          if (s.block b).completed then some ((s'.unlink b).goto t (.semDelete b false)) else some s'
    else none
  | .returns t result =>
    match s.entry t with
    | some b =>
      if s.place t = .user then
        some ({ s with entry := Function.update s.entry t none }.goto t (.completing b result))
      else none
    | none => none
  | .exit t result =>
    if s.place t = .user then
      let s' := { s with entry := Function.update s.entry t none }
      match s.find t with
      | some b => some (s'.goto t (.completing b result))
      | none => some (s'.goto t .exited)
    else none
  | .complete t =>
    match s.place t with
    | .completing b result =>
      some ((s.modify b fun c => if c.completed then c else { c with result, completed := true }).goto t
        (.post b (s.block b).detached))
    | _ => none
  | .post t =>
    match s.place t with
    | .post b detached =>
      some ((s.modify b fun c => { c with completion := c.completion.map (· + 1) }).goto t
        (if detached then .remove b true else .exited))
    | _ => none
  | .remove t =>
    match s.place t with
    | .remove b leaving => some ((s.unlink b).goto t (.semDelete b leaving))
    | _ => none
  | .semDelete t =>
    match s.place t with
    | .semDelete b leaving =>
      some ((s.modify b fun c => { c with completion := none }).goto t (.free b leaving))
    | _ => none
  | .free t =>
    match s.place t with
    | .free b leaving => some ({ s with live := Function.update s.live b false }.goto t (after leaving))
    | _ => none

/-- A step is taken where the task is, and nowhere else. -/
example (s : Threads τ β) (t : τ) (h : s.place t = .user) : s.step (.link t) = none := by simp only [step, h]

/-- What is seen of a step. -/
def observe (s : Threads τ β) : ThreadAct τ β → List (ThreadEvent τ)
  | .join t u =>
    if u = t then [.failed t Errno.inval] else
    match s.find u with
    | none => [.failed t Errno.srch]
    | some b => if (s.block b).detached ∨ (s.block b).joining then [.failed t Errno.inval] else []
  | .detach t u =>
    match s.find u with
    | none => [.failed t Errno.srch]
    | some b => if (s.block b).detached ∨ (s.block b).joining then [.failed t Errno.inval] else []
  | .joined t =>
    match s.place t with
    | .joined b => ((s.block b).thread.map fun u => .joined t u (s.block b).result).toList
    | _ => []
  | .returns t result => [.ended t result]
  | .exit t result => [.ended t result]
  | _ => []

end Threads

end Aixos.Posix
