import Aixos.Library.IntrusiveList
import Aixos.Library.Requeue
import Aixos.Library.Propagation
import Aixos.Library.OrderedQueue
import Aixos.Library.Transition
import Aixos.Library.Alarms
import Aixos.Library.Ring
import Aixos.Library.RoundRobin
import Aixos.Library.ByteMemory
import Aixos.Library.BlockList
import Aixos.Library.WaitingRoom
import Aixos.Kernel.Types
import Aixos.Kernel.Sched
import Aixos.Kernel.Core
import Aixos.Kernel.Strings
import Aixos.Kernel.System
import Aixos.Kernel.Backends
import Aixos.Kernel.Isr
import Aixos.Kernel.TimeWheel
import Aixos.Kernel.Timer
import Aixos.Time.TimerService
import Aixos.Kernel.Object
import Aixos.Kernel.Microkernel
import Aixos.Core.WellFormed
import Aixos.Core.Deadlines
import Aixos.Core.Undisturbed
import Aixos.System.Membership
import Aixos.System.Inheritance
import Aixos.System.Locked
import Aixos.System.Waiters
import Aixos.System.Messages
import Aixos.System.Dispatch
import Aixos.System.Machine
import Aixos.Messages.Queues
import Aixos.Messages.Stale
import Aixos.Messages.Replies
import Aixos.Messages.Abandoned
import Aixos.Messages.Incarnations
import Aixos.Objects.MessageQueue
import Aixos.Objects.PipeStream
import Aixos.Objects.Semaphore
import Aixos.Objects.Wakeups
import Aixos.Objects.QueueWakeups
import Aixos.Objects.PipeWakeups
import Aixos.Objects.HandleTypes
import Aixos.Objects.StaleHandles
import Aixos.Objects.SlotPools
import Aixos.Scheduling.Backends
import Aixos.Scheduling.Requests
import Aixos.Time.Wheel
import Aixos.Time.Visits
import Aixos.Time.Conversions
import Aixos.Time.Timeouts
import Aixos.Scheduling.Turns
import Aixos.Kernel.Heap
import Aixos.Heap.Layout
import Aixos.Heap.Blocks
import Aixos.Heap.Intact
import Aixos.Heap.Calls
import Aixos.Heap.Clients
import Aixos.Heap.Tilings
import Aixos.Heap.Contents
import Aixos.Heap.Alignment
import Aixos.Kernel.Named
import Aixos.Kernel.Namespace
import Aixos.Objects.Namespace
import Aixos.Library.Census
import Aixos.Library.TokenRoom
import Aixos.Kernel.Posix
import Aixos.Kernel.Clock
import Aixos.Posix.Conditions
import Aixos.Posix.CondWaits
import Aixos.Posix.MutexOwners
import Aixos.Posix.Nesting
import Aixos.Posix.Mutexes
import Aixos.Posix.MutexMoves
import Aixos.Posix.Programs
import Aixos.Kernel.Barrier
import Aixos.Kernel.Rwlock
import Aixos.Posix.Barriers
import Aixos.Kernel.Once
import Aixos.Posix.Once
import Aixos.Kernel.Keys
import Aixos.Posix.Keys
import Aixos.Kernel.Signals
import Aixos.System.Signals
import Aixos.Posix.Releases
import Aixos.Posix.Rwlocks
import Aixos.Posix.RwlockWakeups
import Aixos.Kernel.Entries
import Aixos.Objects.InvalidHandles
import Aixos.System.Loops
import Aixos.Time.Reloads
import Aixos.Kernel.TimerRuns
import Aixos.Time.Reference
import Aixos.Time.Cancellation
import Aixos.Time.Remaining
import Aixos.Time.Sleeps
import Aixos.System.GivingUp
import Aixos.System.Domains
import Aixos.Kernel.Receive
import Aixos.Syscalls.Receives
import Aixos.Library.Areas
import Aixos.Kernel.Mpu
import Aixos.Protection.Regions
import Aixos.Protection.Grants
import Aixos.Kernel.UserMemory
import Aixos.Protection.Copies
import Aixos.Kernel.Traps
import Aixos.Syscalls.FastPath
import Aixos.Protection.Encodings
import Aixos.Library.Catalogue
import Aixos.Objects.Natives
import Aixos.Posix.NamedMoves
import Aixos.Posix.NamedLaw
import Aixos.Posix.NamedRetries
import Aixos.Kernel.Descriptors
import Aixos.Posix.PipeOwners
import Aixos.Kernel.PosixTimer
import Aixos.Time.TimerPool
import Aixos.Posix.TimerHandles
import Aixos.Posix.TimerPeriods
import Aixos.Heap.Mempool
import Aixos.Heap.Holdings
import Aixos.Heap.Creations
import Aixos.Kernel.Creates
import Aixos.Diagnostics.Trace
import Aixos.Diagnostics.Crash
import Aixos.Diagnostics.Decode
import Aixos.Diagnostics.Formatting
import Aixos.Objects.Notifications
import Aixos.System.Creations
import Aixos.Ports.RiscvContexts
import Aixos.Posix.ThreadResults
import Aixos.System.Reaping
import Aixos.Objects.Authority
