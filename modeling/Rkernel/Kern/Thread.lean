import Mathlib.Data.Fintype.Basic
import Rkernel.Kern.Ring
import Rkernel.Lib.Word

/-!
# Threads

The part of `struct thread` (`sys/thread.h`) that the wait queues and the
scheduler read and write. The two ring nodes embedded in a thread are addresses
of the ring heap; the head nodes embedded in the scheduler and in the wait
queues are addresses of the same heap.
-/

namespace Rkernel

abbrev schedNrqs : ℕ := 32

/-- Every `linked_ring` structure that the kernel embeds somewhere. -/
inductive RingAddr (Tid Wq : Type) where
  | schedRunRing (priority : Fin schedNrqs)
  | schedBlocked
  | tQueueEntry (thread : Tid)
  | wqThreads (queue : Wq)
  | tWaitEntry (thread : Tid)
  deriving DecidableEq

def threadSfPreempt : BitVec 32 := 0x0002#32

def threadSfLockSched : BitVec 32 := 0x0004#32

def threadSfQueueWait : BitVec 32 := 0x0008#32

/-- The scheduling fields of `struct thread`; `tCurrentCpu` and `tWaitQueue` may be null. -/
structure Thread (Wq : Type) where
  tCurrentCpu : Option ℕ
  tStateflags : BitVec 32
  tPriority : BitVec 32
  tNonpreempt : BitVec 32
  tWaitQueue : Option Wq

/-- `thread_template` as `thread_init` fills it in; every thread starts as a copy. -/
def threadTemplate (Wq : Type) : Thread Wq where
  tCurrentCpu := none
  tStateflags := 0
  tPriority := 16
  tNonpreempt := 0
  tWaitQueue := none

variable {Wq : Type}

/-- `sched_is_suspended`: the flag is set and the wait-queue pointer is not null. -/
def schedIsSuspended (thread : Thread Wq) : Bool :=
  thread.tStateflags &&& threadSfQueueWait ≠ 0 && thread.tWaitQueue.isSome

@[simp]
theorem schedIsSuspended_of_tWaitQueue_none {thread : Thread Wq}
    (noQueue : thread.tWaitQueue = none) : schedIsSuspended thread = false := by
  simp [schedIsSuspended, noQueue]

end Rkernel
