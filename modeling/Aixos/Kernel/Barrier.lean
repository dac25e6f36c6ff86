import Aixos.Kernel.Posix

/-!
# Barriers

`aixos_pthread_barrier_wait` of `compat/posix/posix.c`, as a program over one mutex and one
condition variable.
-/

namespace Aixos.Posix

/-- The fields of `aixos_pthread_barrier_t` that `mutex` protects. -/
structure Barrier where
  /-- `threshold` -/
  threshold : Word
  /-- `count` -/
  count : Word
  /-- `generation`, counted on where the 32 bits of the source start again -/
  generation : ℕ

/-- `aixos_pthread_barrier_init` -/
def Barrier.init (count : Word) : Barrier := ⟨count, 0, 0⟩

/-- `generation == barrier->generation`, for a copy that was made earlier. -/
def Barrier.Current (b : Barrier) (generation : ℕ) : Prop := generation % 2 ^ 32 = b.generation % 2 ^ 32

instance (b : Barrier) (generation : ℕ) : Decidable (b.Current generation) :=
  inferInstanceAs (Decidable (generation % 2 ^ 32 = b.generation % 2 ^ 32))

/-- `AIXOS_PTHREAD_BARRIER_SERIAL_THREAD` -/
def serialThread : Errno := 1

/-- The places of `aixos_pthread_barrier_wait`. -/
inductive BarrierPlace where
  | entry
  /-- `aixos_pthread_mutex_lock` has returned. -/
  | locked
  /-- Before `barrier->count++`. -/
  | arrive
  /-- Before the count is compared with the threshold. -/
  | arrived (generation : ℕ)
  /-- `aixos_pthread_cond_broadcast` has returned. -/
  | released (generation : ℕ)
  /-- The thread that completed the generation has unlocked the mutex. -/
  | serial (generation : ℕ) (result : Errno)
  /-- Before the condition of the loop. -/
  | loop (generation : ℕ)
  /-- `aixos_pthread_cond_wait` has returned. -/
  | waited (generation : ℕ)
  /-- It had returned an error, and the mutex has been unlocked. -/
  | failed (result : Errno)
  /-- The mutex has been unlocked. -/
  | leave
  deriving DecidableEq

/-- `aixos_pthread_barrier_wait` -/
def barrierWait (c : BarrierPlace) (_self : Thread) (r : Errno) (b : Barrier) : Barrier × Outcome Unit BarrierPlace :=
  match c with
  | .entry => (b, if b.threshold = 0 then .done Errno.inval else .call .lock .locked)
  | .locked => (b, if r ≠ 0 then .done r else .goto .arrive)
  | .arrive => ({ b with count := b.count + 1 }, .goto (.arrived b.generation))
  | .arrived g =>
    if b.count = b.threshold then
      ({ b with count := 0, generation := b.generation + 1 }, .call (.broadcast ()) (.released g))
    else (b, .goto (.loop g))
  | .released g => (b, .call .unlock (.serial g r))
  | .serial _ result => (b, .done (if result ≠ 0 then result else serialThread))
  | .loop g => (b, if b.Current g then .call (.wait ()) (.waited g) else .call .unlock .leave)
  | .waited g => (b, if r ≠ 0 then .call .unlock (.failed r) else .goto (.loop g))
  | .failed result => (b, .done result)
  | .leave => (b, .done r)

/-- A barrier, and the threads that call `aixos_pthread_barrier_wait` on it. -/
def barrier : Program Unit Barrier Unit BarrierPlace where
  start _ := .entry
  next := barrierWait

end Aixos.Posix
