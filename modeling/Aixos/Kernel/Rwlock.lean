import Aixos.Kernel.Posix

/-!
# Read-write locks

`aixos_pthread_rwlock_rdlock`, `aixos_pthread_rwlock_wrlock`, `aixos_pthread_rwlock_unlock` of
`compat/posix/posix.c` and their variants, as a program over one mutex and two condition
variables. The number `n` of reader slots is `AIXOS_CFG_POSIX_RWLOCK_READERS`.

What the source writes to several fields with the mutex held is one step of the program. The
counter `waiting_writers` is also written by who could not take the mutex again: there the load
and the store are two steps.
-/

namespace Aixos.Posix

/-- The condition variables of a lock. -/
inductive RwlockCond where
  /-- `readers_condition` -/
  | readers
  /-- `writers_condition` -/
  | writers
  deriving DecidableEq

/-- The fields of `aixos_pthread_rwlock_t` that `mutex` protects. -/
structure Rwlock (n : ℕ) where
  /-- `readers` -/
  readers : Word
  /-- `waiting_writers` -/
  waitingWriters : Word
  /-- `writer`; `none` for `AIXOS_HANDLE_INVALID` -/
  writer : Option Thread
  /-- `reader_threads` -/
  readerThreads : Fin n → Option Thread
  /-- `reader_counts` -/
  readerCounts : Fin n → Word

/-- `aixos_pthread_rwlock_init` -/
def Rwlock.init (n : ℕ) : Rwlock n := ⟨0, 0, none, fun _ => none, fun _ => 0⟩

/-- `rwlock_reader_slot`: the slot of the thread, or the first free one if there is none and one may be allocated. -/
def Rwlock.readerSlot {n : ℕ} (lock : Rwlock n) (thread : Thread) (allocate : Bool) : Option (Fin n) :=
  match (List.finRange n).find? fun index => lock.readerThreads index = some thread with
  | some index => some index
  | none => if allocate then (List.finRange n).find? fun index => lock.readerThreads index = none else none

/-- `UINT32_MAX` -/
def uint32Max : Word := BitVec.allOnes 32

/-- The functions of a lock. The time of a timed one may be `NULL`. -/
inductive RwlockOp where
  /-- `aixos_pthread_rwlock_rdlock` -/
  | rdlock
  /-- `aixos_pthread_rwlock_tryrdlock` -/
  | tryrdlock
  /-- `aixos_pthread_rwlock_timedrdlock` -/
  | timedrdlock (absolute : Option Timespec)
  /-- `aixos_pthread_rwlock_wrlock` -/
  | wrlock
  /-- `aixos_pthread_rwlock_trywrlock` -/
  | trywrlock
  /-- `aixos_pthread_rwlock_timedwrlock` -/
  | timedwrlock (absolute : Option Timespec)
  /-- `aixos_pthread_rwlock_unlock` -/
  | unlock

/-- The places of these functions. -/
inductive RwlockPlace (n : ℕ) where
  /-- `rwlock_rdlock_common` -/
  | rdEntry (absolute : Option Timespec) (tryOnly : Bool)
  /-- `aixos_pthread_mutex_lock` has returned. -/
  | rdLocked (absolute : Option Timespec) (tryOnly : Bool)
  /-- Before the test of `try_only`. -/
  | rdTry (absolute : Option Timespec) (tryOnly : Bool) (slot : Option (Fin n))
  /-- Before the condition of the loop. -/
  | rdLoop (absolute : Option Timespec) (slot : Option (Fin n))
  /-- The wait has returned. -/
  | rdWaited (absolute : Option Timespec) (slot : Option (Fin n))
  /-- Behind the loop. -/
  | rdCheck
  /-- Before `rwlock_reader_slot` allocates. -/
  | rdSlot
  /-- Before the lock is taken. -/
  | rdTake (slot : Fin n)
  /-- `rwlock_wrlock_common` -/
  | wrEntry (absolute : Option Timespec) (tryOnly : Bool)
  /-- `aixos_pthread_mutex_lock` has returned. -/
  | wrLocked (absolute : Option Timespec) (tryOnly : Bool)
  /-- Before the thread is compared with those that hold the lock. -/
  | wrOwn (absolute : Option Timespec) (tryOnly : Bool)
  /-- Before the test of `try_only`. -/
  | wrTry (absolute : Option Timespec) (tryOnly : Bool)
  /-- Before `lock->waiting_writers++`. -/
  | wrArrive (absolute : Option Timespec)
  /-- Before the condition of the loop. -/
  | wrLoop (absolute : Option Timespec)
  /-- The wait has returned. -/
  | wrWaited (absolute : Option Timespec)
  /-- It had returned an error: before `lock->waiting_writers` is read. -/
  | wrGiveUp (result : Errno)
  /-- Before it is written. -/
  | wrGiveUpStore (result : Errno) (waitingWriters : Word)
  /-- Before the lock is taken. -/
  | wrTake
  /-- `aixos_pthread_rwlock_unlock` -/
  | unEntry
  /-- `aixos_pthread_mutex_lock` has returned. -/
  | unLocked
  /-- Before the thread is compared with those that hold the lock. -/
  | unDecide
  /-- Before the writer gives the lock up. -/
  | unWrite
  /-- Before a reader gives the lock up. -/
  | unRead (slot : Fin n)
  /-- Before it is decided who is woken. -/
  | unWake
  /-- It has been decided, and those have been woken. -/
  | unWoken
  /-- The mutex has been unlocked. -/
  | unLeave (result : Errno)
  /-- The mutex has been unlocked, and a result is returned. -/
  | failed (result : Errno)
  /-- The mutex has been unlocked. -/
  | leave
  deriving DecidableEq

variable {n : ℕ}

/-- `aixos_pthread_cond_wait`, or `aixos_pthread_cond_timedwait` -/
def waitCall (k : RwlockCond) (absolute : Option Timespec) : Call RwlockCond :=
  match absolute with
  | none => .wait k
  | some absolute => .timedwait k absolute

/-- The condition on which a reader waits. -/
def Rwlock.HoldsBack (lock : Rwlock n) (slot : Option (Fin n)) : Prop :=
  lock.writer ≠ none ∨ lock.waitingWriters ≠ 0 ∧ slot = none

instance (lock : Rwlock n) (slot : Option (Fin n)) : Decidable (lock.HoldsBack slot) :=
  inferInstanceAs (Decidable (lock.writer ≠ none ∨ lock.waitingWriters ≠ 0 ∧ slot = none))

/-- A reader takes the lock. -/
def Rwlock.read (lock : Rwlock n) (self : Thread) (slot : Fin n) : Rwlock n :=
  { lock with
    readerThreads := Function.update lock.readerThreads slot (some self)
    readerCounts := Function.update lock.readerCounts slot (lock.readerCounts slot + 1)
    readers := lock.readers + 1 }

/-- A reader gives the lock up. -/
def Rwlock.unread (lock : Rwlock n) (slot : Fin n) : Rwlock n :=
  { lock with
    readerCounts := Function.update lock.readerCounts slot (lock.readerCounts slot - 1)
    readerThreads :=
      if lock.readerCounts slot - 1 = 0 then Function.update lock.readerThreads slot none else lock.readerThreads
    readers := lock.readers - 1 }

/-- `rwlock_rdlock_common`, `rwlock_wrlock_common` and `aixos_pthread_rwlock_unlock` -/
def rwlockNext (c : RwlockPlace n) (self : Thread) (r : Errno) (lock : Rwlock n) :
    Rwlock n × Outcome RwlockCond (RwlockPlace n) :=
  match c with
  | .rdEntry absolute tryOnly => (lock, .call .lock (.rdLocked absolute tryOnly))
  | .rdLocked absolute tryOnly =>
    (lock, if r ≠ 0 then .done r else .goto (.rdTry absolute tryOnly (lock.readerSlot self false)))
  | .rdTry absolute tryOnly slot =>
    (lock, if tryOnly = true ∧ lock.HoldsBack slot then .call .unlock (.failed Errno.busy) else .goto (.rdLoop absolute slot))
  | .rdLoop absolute slot =>
    (lock, if lock.HoldsBack slot then .call (waitCall .readers absolute) (.rdWaited absolute slot) else .goto .rdCheck)
  | .rdWaited absolute slot => (lock, if r ≠ 0 then .call .unlock (.failed r) else .goto (.rdLoop absolute slot))
  | .rdCheck => (lock, if lock.readers = uint32Max then .call .unlock (.failed Errno.again) else .goto .rdSlot)
  | .rdSlot =>
    (lock, match lock.readerSlot self true with
      | none => .call .unlock (.failed Errno.again)
      | some slot =>
        if lock.readerCounts slot = uint32Max then .call .unlock (.failed Errno.again) else .goto (.rdTake slot))
  | .rdTake slot => (lock.read self slot, .call .unlock .leave)
  | .wrEntry absolute tryOnly => (lock, .call .lock (.wrLocked absolute tryOnly))
  | .wrLocked absolute tryOnly => (lock, if r ≠ 0 then .done r else .goto (.wrOwn absolute tryOnly))
  | .wrOwn absolute tryOnly =>
    (lock, if lock.writer = some self ∨ lock.readerSlot self false ≠ none then .call .unlock (.failed Errno.busy)
      else .goto (.wrTry absolute tryOnly))
  | .wrTry absolute tryOnly =>
    (lock, if tryOnly = true ∧ (lock.writer ≠ none ∨ lock.readers ≠ 0) then .call .unlock (.failed Errno.busy)
      else .goto (.wrArrive absolute))
  | .wrArrive absolute => ({ lock with waitingWriters := lock.waitingWriters + 1 }, .goto (.wrLoop absolute))
  | .wrLoop absolute =>
    (lock, if lock.writer ≠ none ∨ lock.readers ≠ 0 then .call (waitCall .writers absolute) (.wrWaited absolute)
      else .goto .wrTake)
  | .wrWaited absolute => (lock, if r ≠ 0 then .goto (.wrGiveUp r) else .goto (.wrLoop absolute))
  | .wrGiveUp result => (lock, .goto (.wrGiveUpStore result lock.waitingWriters))
  | .wrGiveUpStore result waitingWriters =>
    ({ lock with waitingWriters := waitingWriters - 1 }, .call .unlock (.failed result))
  | .wrTake => ({ lock with waitingWriters := lock.waitingWriters - 1, writer := some self }, .call .unlock .leave)
  | .unEntry => (lock, .call .lock .unLocked)
  | .unLocked => (lock, if r ≠ 0 then .done r else .goto .unDecide)
  | .unDecide =>
    (lock, if lock.writer = some self then .goto .unWrite else
      match lock.readerSlot self false with
      | none => .call .unlock (.failed Errno.perm)
      | some slot =>
        if lock.readerCounts slot ≠ 0 then .goto (.unRead slot) else .call .unlock (.failed Errno.perm))
  | .unWrite => ({ lock with writer := none }, .goto .unWake)
  | .unRead slot => (lock.unread slot, .goto .unWake)
  | .unWake =>
    (lock, if lock.writer = none ∧ lock.readers = 0 ∧ lock.waitingWriters ≠ 0 then .call (.signal .writers) .unWoken
      else if lock.writer = none ∧ lock.waitingWriters = 0 then .call (.broadcast .readers) .unWoken
      else .goto .unWoken)
  | .unWoken => (lock, .call .unlock (.unLeave r))
  | .unLeave result => (lock, .done (if result ≠ 0 then result else r))
  | .failed result => (lock, .done result)
  | .leave => (lock, .done r)

/-- Where a function begins. -/
def RwlockOp.start (op : RwlockOp) : RwlockPlace n :=
  match op with
  | .rdlock => .rdEntry none false
  | .tryrdlock => .rdEntry none true
  | .timedrdlock none => .failed Errno.inval
  | .timedrdlock (some absolute) => .rdEntry (some absolute) false
  | .wrlock => .wrEntry none false
  | .trywrlock => .wrEntry none true
  | .timedwrlock none => .failed Errno.inval
  | .timedwrlock (some absolute) => .wrEntry (some absolute) false
  | .unlock => .unEntry

/-- A lock, and the threads that call its functions. -/
def rwlock (n : ℕ) : Program RwlockCond (Rwlock n) RwlockOp (RwlockPlace n) where
  start := RwlockOp.start
  next := rwlockNext

end Aixos.Posix
