import Aixos.Kernel.Types
import Mathlib.Logic.Function.Basic
import Mathlib.Data.List.FinRange

/-!
# POSIX mutexes and condition variables

The part of `compat/posix/posix.c` that threads synchronize with: `aixos_pthread_mutex_lock`
and `aixos_pthread_mutex_unlock` over the kernel's mutex, and `cond_wait_common`,
`aixos_pthread_cond_signal` and `aixos_pthread_cond_broadcast` over the kernel's semaphore.

A thread is at a place in that code (`Place`). Between two places it runs without a
preemption: what the source does with interrupts disabled is one step, and a step touches no more
than one variable that is not protected so. Between two steps any other thread may run.

* `Program` — the code that calls these functions: a test program, a read-write lock, a barrier.
* `Monitor` — one mutex, the condition variables used with it, and the data they protect.
* `Monitor.step` — a call begins; a thread takes its next step; a timeout ends; a thread is
  suspended or resumed.

Which of the threads that wait for an object is woken depends on their priorities. They are
left open: the step names it. So is the time: a wait with a timeout may end at any moment.
-/

namespace Aixos.Posix

/-- A task that calls the functions of `posix.c`. -/
abbrev Thread := Fin taskHandleLimit

instance : NeZero taskHandleLimit := ⟨by decide⟩

/-- What a function of `posix.c` returns: 0 or a positive error. -/
abbrev Errno := ℤ

namespace Errno

/-- `AIXOS_EPERM` -/
def perm : Errno := 1

/-- `AIXOS_EAGAIN` -/
def again : Errno := 11

/-- `AIXOS_ENOMEM` -/
def nomem : Errno := 12

/-- `AIXOS_EBUSY` -/
def busy : Errno := 16

/-- `AIXOS_EINVAL` -/
def inval : Errno := 22

/-- `AIXOS_EDEADLK` -/
def deadlk : Errno := 35

/-- `AIXOS_ETIMEDOUT` -/
def timedout : Errno := 60

end Errno

/-- `map_error` -/
def mapError (result : Code) : Errno :=
  if result = Code.ok then 0
  else if result = Code.timeout then Errno.timedout
  else if result = Code.busy then Errno.busy
  else if result = Code.nomem then Errno.nomem
  else if result = Code.again then Errno.again
  else Errno.inval

/-- `aixos_timespec_t` -/
structure Timespec where
  /-- `tv_sec` -/
  sec : ℤ
  /-- `tv_nsec` -/
  nsec : ℤ
  deriving DecidableEq

/-- `relative_timeout`, at the time `now`: the timeout in milliseconds, or `none` for `AIXOS_EINVAL`. -/
def relativeTimeout (absolute now : Timespec) : Option Word :=
  if absolute.sec < 0 ∨ absolute.nsec < 0 ∨ 1000000000 ≤ absolute.nsec then none else
  let borrow := decide (absolute.nsec - now.nsec < 0)
  let seconds := absolute.sec - now.sec - if borrow then 1 else 0
  let nanoseconds := absolute.nsec - now.nsec + if borrow then 1000000000 else 0
  if seconds < 0 then some 0 else
  let milliseconds := (seconds.toNat * 1000 + (nanoseconds.toNat + 999999) / 1000000) % 2 ^ 64
  some (if forever.toNat ≤ milliseconds then forever - 1 else .ofNat 32 milliseconds)

/-- `AIXOS_PTHREAD_MUTEX_NORMAL`, … -/
inductive MutexType where
  | normal
  | recursive
  | errorcheck
  deriving DecidableEq

/-- `aixos_mutex_t`, without its list of waiting tasks: they are the threads at `Place.mutexBlocked`. -/
structure NativeMutex where
  /-- `owner` -/
  owner : Option Thread
  /-- `lock_count` -/
  lockCount : Word

/-- `aixos_pthread_mutex_t` -/
structure Mutex where
  /-- what `native` is a handle of -/
  native : NativeMutex
  /-- `type` -/
  type : MutexType
  /-- `owner` -/
  owner : Option Thread
  /-- `lock_count` -/
  lockCount : BitVec 16

/-- `aixos_pthread_mutex_init` -/
def Mutex.init (type : MutexType) : Mutex := ⟨⟨none, 0⟩, type, none, 0⟩

/-- `aixos_pthread_cond_t`. The tasks that wait for the semaphore are the threads at `Place.semBlocked`. -/
structure Cond where
  /-- the count of the semaphore that `semaphore` is a handle of -/
  count : ℕ
  /-- `waiters` -/
  waiters : Word

/-- `aixos_pthread_cond_init` -/
def Cond.init : Cond := ⟨0, 0⟩

/-- The function that a program calls next. -/
inductive Call (κ : Type) where
  /-- `aixos_pthread_mutex_lock` -/
  | lock
  /-- `aixos_pthread_mutex_trylock` -/
  | trylock
  /-- `aixos_pthread_mutex_timedlock` -/
  | timedlock (absolute : Timespec)
  /-- `aixos_pthread_mutex_unlock` -/
  | unlock
  /-- `aixos_pthread_cond_wait` -/
  | wait (k : κ)
  /-- `aixos_pthread_cond_timedwait` -/
  | timedwait (k : κ) (absolute : Timespec)
  /-- `aixos_pthread_cond_signal` -/
  | signal (k : κ)
  /-- `aixos_pthread_cond_broadcast` -/
  | broadcast (k : κ)

/-- What a program does at one of its places. -/
inductive Outcome (κ γ : Type) where
  /-- It goes on there. -/
  | goto (c : γ)
  /-- It calls a function, and goes on there when it has returned. -/
  | call (f : Call κ) (c : γ)
  /-- It returns. -/
  | done (r : Errno)

/-- Code that calls the functions of this module. Its places are `γ`, and `δ` is its data. -/
structure Program (κ δ ω γ : Type) where
  /-- Where a call of the program begins. -/
  start : ω → γ
  /-- What a thread does at a place, with the result of the function that it called last. -/
  next : γ → Thread → Errno → δ → δ × Outcome κ γ

/-- Where `aixos_pthread_mutex_lock` returns to. -/
inductive LockReturn (γ : Type) where
  | program (c : γ)
  /-- `cond_wait_common`, whose semaphore wait had this result. -/
  | wait (result : Code) (c : γ)

/-- Where `aixos_pthread_mutex_unlock` returns to. -/
inductive UnlockReturn (κ γ : Type) where
  | program (c : γ)
  /-- `cond_wait_common` -/
  | wait (k : κ) (timeout : Word) (c : γ)

/-- Where a thread is. -/
inductive Place (κ γ : Type) where
  /-- Outside; its last call returned `r`. -/
  | idle (r : Errno)
  /-- In the program; the function that it called last returned `r`. -/
  | program (c : γ) (r : Errno)
  /-- `aixos_pthread_mutex_timedlock`, before `relative_timeout` -/
  | timedlock (absolute : Timespec) (c : γ)
  /-- `aixos_pthread_mutex_lock`, with the timeout for the kernel's mutex -/
  | lock (timeout : Word) (ret : LockReturn γ)
  /-- It calls `aixos_mutex_lock`. -/
  | nativeLock (timeout : Word) (ret : LockReturn γ)
  /-- It waits there for the mutex. -/
  | mutexBlocked (timeout : Word) (ret : LockReturn γ)
  /-- `aixos_mutex_lock` has returned. -/
  | locked (result : Code) (ret : LockReturn γ)
  /-- `aixos_pthread_mutex_unlock` -/
  | unlock (ret : UnlockReturn κ γ)
  /-- It calls `aixos_mutex_unlock`. -/
  | nativeUnlock (ret : UnlockReturn κ γ)
  /-- `aixos_pthread_cond_timedwait`, before `relative_timeout` -/
  | timedwait (k : κ) (absolute : Timespec) (c : γ)
  /-- `cond_wait_common`, before `condition->waiters++` -/
  | wait (k : κ) (timeout : Word) (c : γ)
  /-- It could not unlock the mutex: before `condition->waiters--`. -/
  | waitRefused (k : κ) (r : Errno) (c : γ)
  /-- It calls `aixos_sem_wait`. -/
  | semWait (k : κ) (timeout : Word) (c : γ)
  /-- It waits there for the semaphore. -/
  | semBlocked (k : κ) (timeout : Word) (c : γ)
  /-- `aixos_sem_wait` has returned an error. -/
  | waitFailed (k : κ) (result : Code) (c : γ)
  /-- `aixos_pthread_cond_signal` -/
  | signal (k : κ) (c : γ)
  /-- `aixos_pthread_cond_broadcast` -/
  | broadcast (k : κ) (c : γ)

variable {κ δ ω γ : Type}

/-- `aixos_pthread_mutex_lock` returns. -/
def LockReturn.place (ret : LockReturn γ) (r : Errno) : Place κ γ :=
  match ret with
  | .program c => .program c r
  | .wait result c => .program c (if r ≠ 0 then r else mapError result)

/-- `aixos_pthread_mutex_unlock` returns. -/
def UnlockReturn.place (ret : UnlockReturn κ γ) (r : Errno) : Place κ γ :=
  match ret with
  | .program c => .program c r
  | .wait k timeout c => if r ≠ 0 then .waitRefused k r c else .semWait k timeout c

/-- `aixos_sem_wait` returns `AIXOS_OK`: the mutex is taken again. -/
def Place.wakened (c : γ) : Place κ γ := .lock forever (.wait Code.ok c)

/-- A function is called. -/
def Call.place (f : Call κ) (c : γ) : Place κ γ :=
  match f with
  | .lock => .lock forever (.program c)
  | .trylock => .lock 0 (.program c)
  | .timedlock absolute => .timedlock absolute c
  | .unlock => .unlock (.program c)
  | .wait k => .wait k forever c
  | .timedwait k absolute => .timedwait k absolute c
  | .signal k => .signal k c
  | .broadcast k => .broadcast k c

def Outcome.place (n : Outcome κ γ) (r : Errno) : Place κ γ :=
  match n with
  | .goto c => .program c r
  | .call f c => f.place c
  | .done r => .idle r

/-- It waits for the semaphore of the condition variable. -/
def Place.awaits [DecidableEq κ] (p : Place κ γ) (k : κ) : Bool :=
  match p with
  | .semBlocked k' _ _ => k' = k
  | _ => false

/-- It waits for the mutex. -/
def Place.awaitsMutex (p : Place κ γ) : Bool :=
  match p with
  | .mutexBlocked .. => true
  | _ => false

/-- It waits, and not for ever. -/
def Place.timed (p : Place κ γ) : Bool :=
  match p with
  | .mutexBlocked timeout _ | .semBlocked _ timeout _ => timeout ≠ forever
  | _ => false

/-- A mutex, the condition variables that are used with it, and data. -/
structure Monitor (κ δ γ : Type) where
  mutex : Mutex
  cond : κ → Cond
  data : δ
  place : Thread → Place κ γ
  /-- Stopped by `aixos_task_suspend`. -/
  suspended : Thread → Bool

/-- What a step may depend on besides the state. -/
structure Env where
  /-- `aixos_clock_gettime` -/
  now : Timespec
  /-- `aixos_sched_is_locked` -/
  schedLocked : Bool
  /-- The threads that stand first in the list of those who wait, each time one is woken. -/
  first : List Thread

/-- What happens next. -/
inductive Action (ω : Type) where
  /-- The thread calls a function of the program. -/
  | call (t : Thread) (op : ω)
  /-- The thread goes on. -/
  | run (t : Thread) (env : Env)
  /-- The timeout of its wait ends. -/
  | expire (t : Thread)
  /-- `aixos_task_suspend` -/
  | suspend (t : Thread)
  /-- `aixos_task_resume` -/
  | resume (t : Thread)

/-- The thread that acts, or is acted on. -/
def Action.thread {ω : Type} (a : Action ω) : Thread :=
  match a with
  | .call t _ | .run t _ | .expire t | .suspend t | .resume t => t

/-- The thread that goes on. -/
def Action.runner {ω : Type} (a : Action ω) : Option Thread :=
  match a with
  | .run t _ => some t
  | .call .. | .expire _ | .suspend _ | .resume _ => none

namespace Monitor

variable [DecidableEq κ]

def init (type : MutexType) (data : δ) : Monitor κ δ γ where
  mutex := .init type
  cond _ := .init
  data := data
  place _ := .idle 0
  suspended _ := false

def goto (s : Monitor κ δ γ) (t : Thread) (p : Place κ γ) : Monitor κ δ γ :=
  { s with place := Function.update s.place t p }

def setCond (s : Monitor κ δ γ) (k : κ) (c : Cond) : Monitor κ δ γ :=
  { s with cond := Function.update s.cond k c }

/-- The list of the tasks that wait for the semaphore is not empty. -/
@[irreducible] def awaited (s : Monitor κ δ γ) (k : κ) : Bool :=
  (List.finRange taskHandleLimit).any fun u => (s.place u).awaits k

/-- The list of the tasks that wait for the mutex is not empty. -/
@[irreducible] def mutexAwaited (s : Monitor κ δ γ) : Bool :=
  (List.finRange taskHandleLimit).any fun u => (s.place u).awaitsMutex

theorem awaited_iff {s : Monitor κ δ γ} {k : κ} : s.awaited k = true ↔ ∃ u, (s.place u).awaits k = true := by
  simp [awaited, List.any_eq_true]

omit [DecidableEq κ] in
theorem mutexAwaited_iff {s : Monitor κ δ γ} : s.mutexAwaited = true ↔ ∃ u, (s.place u).awaitsMutex = true := by
  simp [mutexAwaited, List.any_eq_true]

/-- `aixos_sem_post`; with its result, and who is woken after it. -/
def post (s : Monitor κ δ γ) (k : κ) (first : List Thread) : Option (Monitor κ δ γ × Code × List Thread) :=
  if s.awaited k then
    match first with
    | [] => none
    | u :: first =>
      match s.place u with
      | .semBlocked k' _ c => if k' = k then some (s.goto u (.wakened c), Code.ok, first) else none
      | _ => none
  else if (s.cond k).count = semMaxCount then some (s, Code.overflow, first)
  else some (s.setCond k { s.cond k with count := (s.cond k).count + 1 }, Code.ok, first)

/-- The loop of `aixos_pthread_cond_broadcast`. -/
def posts (k : κ) : ℕ → Code → Monitor κ δ γ → List Thread → Option (Monitor κ δ γ × Code)
  | 0, result, s, _ => some (s, result)
  | n + 1, _, s, first =>
    match s.post k first with
    | none => none
    | some (s, result, first) => if result ≠ Code.ok then some (s, result) else posts k n result s first

/-- `aixos_mutex_unlock`, when nothing is left of the owner's locks: the mutex goes to one who waits. -/
def handOver (s : Monitor κ δ γ) (first : List Thread) : Option (Monitor κ δ γ) :=
  if s.mutexAwaited then
    match first with
    | [] => none
    | u :: _ =>
      match s.place u with
      | .mutexBlocked _ ret => some ({ s with mutex.native := ⟨some u, 1⟩ }.goto u (.locked Code.ok ret))
      | _ => none
  else some { s with mutex.native := ⟨none, 0⟩ }

/-- The next step of a thread. -/
def exec (P : Program κ δ ω γ) (s : Monitor κ δ γ) (t : Thread) (env : Env) : Option (Monitor κ δ γ) :=
  match s.place t with
  | .idle _ | .mutexBlocked .. | .semBlocked .. => none
  | .program c r =>
    let (data, n) := P.next c t r s.data
    some ({ s with data := data }.goto t (n.place r))
  | .timedlock absolute c =>
    match relativeTimeout absolute env.now with
    | none => some (s.goto t (.program c Errno.inval))
    | some timeout => some (s.goto t (.lock timeout (.program c)))
  | .lock timeout ret =>
    if s.mutex.type = .errorcheck ∧ s.mutex.owner = some t then some (s.goto t (ret.place Errno.deadlk))
    else if s.mutex.type = .recursive ∧ s.mutex.owner = some t then
      some ({ s with mutex.lockCount := s.mutex.lockCount + 1 }.goto t (ret.place 0))
    else some (s.goto t (.nativeLock timeout ret))
  | .nativeLock timeout ret =>
    if s.mutex.native.owner = none then
      some ({ s with mutex.native := ⟨some t, 1⟩ }.goto t (.locked Code.ok ret))
    else if s.mutex.native.owner = some t then
      if s.mutex.native.lockCount = forever then some (s.goto t (.locked Code.overflow ret))
      else some ({ s with mutex.native.lockCount := s.mutex.native.lockCount + 1 }.goto t (.locked Code.ok ret))
    else if timeout = 0 then some (s.goto t (.locked Code.busy ret))
    else if env.schedLocked then some (s.goto t (.locked Code.locked ret))
    else some (s.goto t (.mutexBlocked timeout ret))
  | .locked result ret =>
    if result = Code.ok then some ({ s with mutex.owner := some t, mutex.lockCount := 1 }.goto t (ret.place 0))
    else some (s.goto t (ret.place (mapError result)))
  | .unlock ret =>
    if (s.mutex.type = .errorcheck ∨ s.mutex.type = .recursive) ∧ s.mutex.owner ≠ some t then
      some (s.goto t (ret.place Errno.perm))
    else if s.mutex.type = .recursive ∧ 1 < s.mutex.lockCount then
      some ({ s with mutex.lockCount := s.mutex.lockCount - 1 }.goto t (ret.place 0))
    else some ({ s with mutex.owner := none, mutex.lockCount := 0 }.goto t (.nativeUnlock ret))
  | .nativeUnlock ret =>
    if s.mutex.native.owner ≠ some t then some (s.goto t (ret.place (mapError Code.inval)))
    else if s.mutex.native.lockCount - 1 ≠ 0 then
      some ({ s with mutex.native.lockCount := s.mutex.native.lockCount - 1 }.goto t (ret.place (mapError Code.ok)))
    else (s.handOver env.first).map fun s => s.goto t (ret.place (mapError Code.ok))
  | .timedwait k absolute c =>
    match relativeTimeout absolute env.now with
    | none => some (s.goto t (.program c Errno.inval))
    | some timeout => some (s.goto t (.wait k timeout c))
  | .wait k timeout c =>
    some ((s.setCond k { s.cond k with waiters := (s.cond k).waiters + 1 }).goto t (.unlock (.wait k timeout c)))
  | .waitRefused k r c =>
    some ((s.setCond k { s.cond k with waiters := (s.cond k).waiters - 1 }).goto t (.program c r))
  | .semWait k timeout c =>
    if 0 < (s.cond k).count then
      some ((s.setCond k { s.cond k with count := (s.cond k).count - 1 }).goto t (.wakened c))
    else if timeout = 0 then some (s.goto t (.waitFailed k Code.timeout c))
    else if env.schedLocked then some (s.goto t (.waitFailed k Code.locked c))
    else some (s.goto t (.semBlocked k timeout c))
  | .waitFailed k result c =>
    let s := if (s.cond k).waiters ≠ 0 then s.setCond k { s.cond k with waiters := (s.cond k).waiters - 1 } else s
    some (s.goto t (.lock forever (.wait result c)))
  | .signal k c =>
    if (s.cond k).waiters ≠ 0 then
      ((s.setCond k { s.cond k with waiters := (s.cond k).waiters - 1 }).post k env.first).map
        fun (s, result, _) => s.goto t (.program c (mapError result))
    else some (s.goto t (.program c (mapError Code.ok)))
  | .broadcast k c =>
    (posts k (s.cond k).waiters.toNat Code.ok (s.setCond k { s.cond k with waiters := 0 }) env.first).map
      fun (s, result) => s.goto t (.program c (mapError result))

/-- A blocked thread stops waiting, with an error. -/
def interrupt (s : Monitor κ δ γ) (t : Thread) (result : Code) : Monitor κ δ γ :=
  match s.place t with
  | .mutexBlocked _ ret => s.goto t (.locked result ret)
  | .semBlocked k _ c => s.goto t (.waitFailed k result c)
  | _ => s

/-- One step. -/
def step (P : Program κ δ ω γ) (s : Monitor κ δ γ) (a : Action ω) : Option (Monitor κ δ γ) :=
  match a with
  | .call t op =>
    match s.place t with
    | .idle _ => if s.suspended t then none else some (s.goto t (.program (P.start op) 0))
    | _ => none
  | .run t env => if s.suspended t then none else s.exec P t env
  | .expire t => if (s.place t).timed then some (s.interrupt t Code.timeout) else none
  | .suspend t =>
    if s.suspended t then none else some { s.interrupt t Code.intr with suspended := Function.update s.suspended t true }
  | .resume t => if s.suspended t then some { s with suspended := Function.update s.suspended t false } else none

/-- `aixos_pthread_cond_destroy`: what it returns. -/
def condDestroy (s : Monitor κ δ γ) (k : κ) : Errno :=
  if (s.cond k).waiters ≠ 0 then Errno.busy
  else if s.awaited k then mapError Code.busy
  else mapError Code.ok

end Monitor

end Aixos.Posix
