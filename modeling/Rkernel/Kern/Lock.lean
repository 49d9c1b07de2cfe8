import Mathlib.Algebra.Group.Nat.Defs
import Mathlib.Algebra.Ring.Int.Defs
import Mathlib.Data.Finset.Basic
import Mathlib.Logic.Function.Basic
import Mathlib.Data.Nat.Notation
import Mathlib.Data.Int.Notation
import Rkernel.Lib.Transition

/-!
# Shared locks

The operations of `kern/kern_lock.c` on one `shared_lock`, run by any number of
threads. A thread is at one program point of the operation it is in; one step is
one statement of one thread. The internal spinlock is taken at the beginning of
every operation, and `waitqueue_wait` gives it up in the middle: the thread is
linked in the wait queue, the spinlock is free, and some later step of the thread
takes the spinlock again and goes on behind the call.

The wait queue is a parameter. Whether `waitqueue_wait` may come back while the
caller is still linked is part of it, so that one model serves both the results
that hold with spurious wake-ups and those about a queue that really blocks.

`held` counts the grants a thread has been given and has not returned. It is not
part of the code; a grant begins when `sl_lock_internal` is left with result 0
and ends in the matching `sl_unlock`.
-/

namespace Rkernel

/-- `SL_TYPE_SHARED` and `SL_TYPE_EXCLUSIVE`. -/
inductive SlType where
  | shared
  | exclusive
  deriving DecidableEq

/-- The error number `ENOLCK`. -/
def enolck : ℕ := 77

def slFlagDrain : BitVec 32 := 1

/-- The calls of a thread. -/
inductive SlCall where
  | lock (type : SlType)
  | lockGreedy (type : SlType)
  | unlock (type : SlType)
  | touch (type : SlType)
  | drain
  deriving DecidableEq

/-- The calls of `waitqueue_wait`. -/
inductive WaitSite where
  | fair (type : SlType)
  | internal (type : SlType)
  | touch (type : SlType)
  | drainNumber
  | drainQueue
  deriving DecidableEq

/-- The program points of a thread. Except `outside`, `entering` and `asleep` they lie between
`kernlock_lock` and `kernlock_unlock`. -/
inductive SlPc where
  | outside
  | entering (call : SlCall)
  | asleep (site : WaitSite)
  | lockEntry (type : SlType)
  | internalEntry (type : SlType)
  | internalTest (type : SlType)
  | internalRetest (type : SlType)
  | sharedWake
  | lockReturn (result : ℕ)
  | unlockEntry (type : SlType)
  | unlockWake
  | unlockReturn
  | touchTest (type : SlType)
  | touchWake
  | touchReturn
  | drainEntry
  | drainWake
  | drainNumberTest
  | drainQueueTest
  | drainReturn
  deriving DecidableEq

/-- The program point behind the `kernlock_lock` of an operation. -/
def SlCall.entry : SlCall → SlPc
  | .lock type => .lockEntry type
  | .lockGreedy type => .internalEntry type
  | .unlock type => .unlockEntry type
  | .touch type => .touchTest type
  | .drain => .drainEntry

/-- The program point behind a `waitqueue_wait`. -/
def WaitSite.resume : WaitSite → SlPc
  | .fair type => .internalEntry type
  | .internal type => .internalRetest type
  | .touch type => .touchTest type
  | .drainNumber => .drainNumberTest
  | .drainQueue => .drainQueueTest

/-- Whether a thread at this point holds the internal spinlock. -/
def SlPc.holds : SlPc → Bool
  | .outside | .entering _ | .asleep _ => false
  | _ => true

/-- The loop conditions `sl_number<0` and `sl_number!=0`. -/
def SlType.mustWait : SlType → ℤ → Prop
  | .shared, number => number < 0
  | .exclusive, number => number ≠ 0

/-- A 32-bit signed value. -/
def int32 (value : ℤ) : ℤ :=
  value.bmod (2 ^ 32)

theorem int32_eq_self {value : ℤ} (lower : -2 ^ 31 ≤ value) (upper : value < 2 ^ 31) :
    int32 value = value := by
  simp only [int32, Int.bmod]
  omega

theorem int32_lower (value : ℤ) : -2 ^ 31 ≤ int32 value := by
  simp only [int32, Int.bmod]
  omega

theorem int32_upper (value : ℤ) : int32 value < 2 ^ 31 := by
  simp only [int32, Int.bmod]
  omega

theorem int32_sub_one (value : ℤ) : int32 (int32 value - 1) = int32 (value - 1) := by
  simp only [int32, Int.bmod]
  omega

theorem int32_succ_ne_zero {value : ℤ} (nonnegative : 0 ≤ value) (upper : value < 2 ^ 31) :
    int32 (value + 1) ≠ 0 := by
  simp only [int32, Int.bmod]
  omega

/-- The wait queue under a lock: its contents, the two operations on it, and the condition
under which `waitqueue_wait` comes back. -/
structure WaitQueueOps (Queue Tid : Type) where
  isEmpty : Queue → Bool
  enter : Queue → Tid → (after : Bool) → Option Queue
  getFirst : Queue → Option Queue
  mayReturn : Queue → Tid → Prop

/-- The queue as the sequence from the head's `next` to its `prev`: `waitqueue_get_first` takes
from the `prev` end, and a thread sleeps until it has been taken out. -/
def sequenceOps (Tid : Type) : WaitQueueOps (List Tid) Tid where
  isEmpty queue := queue.isEmpty
  enter queue thread after := some (if after then thread :: queue else queue ++ [thread])
  getFirst queue := some queue.dropLast
  mayReturn queue thread := thread ∉ queue

/-- The lock, with the holder of its spinlock, and the threads around it. -/
structure SharedLock (Queue Tid : Type) where
  slQueue : Queue
  slNumber : ℤ
  slFlags : BitVec 32
  slLock : Option Tid
  pc : Tid → SlPc
  held : Tid → SlType → ℕ

namespace SharedLock

variable {Queue Tid : Type}

/-- The flag of `sl_drain` is set. -/
def Draining (lock : SharedLock Queue Tid) : Prop :=
  lock.slFlags &&& slFlagDrain ≠ 0

def initial (queue : Queue) : SharedLock Queue Tid where
  slQueue := queue
  slNumber := 0
  slFlags := 0
  slLock := none
  pc _ := .outside
  held _ _ := 0

theorem not_draining_of_clear {lock : SharedLock Queue Tid} (clear : lock.slFlags = 0) :
    ¬lock.Draining := by
  simp [Draining, clear]

variable [DecidableEq Tid]

/-- The thread goes on in its call. -/
def goto (lock : SharedLock Queue Tid) (thread : Tid) (target : SlPc) : SharedLock Queue Tid :=
  { lock with pc := Function.update lock.pc thread target }

/-- The first half of `waitqueue_wait`: the thread is linked and the spinlock released. -/
def sleep (lock : SharedLock Queue Tid) (thread : Tid) (site : WaitSite) (queue : Queue) :
    SharedLock Queue Tid :=
  { lock with
    slQueue := queue
    slLock := none
    pc := Function.update lock.pc thread (.asleep site) }

/-- The thread takes the internal lock and goes on. -/
def acquire (lock : SharedLock Queue Tid) (thread : Tid) (target : SlPc) :
    SharedLock Queue Tid :=
  { lock with slLock := some thread, pc := Function.update lock.pc thread target }

/-- `kernlock_unlock` and the return from the operation. -/
def release (lock : SharedLock Queue Tid) (thread : Tid) : SharedLock Queue Tid :=
  { lock with slLock := none, pc := Function.update lock.pc thread .outside }

def setHeld (lock : SharedLock Queue Tid) (thread : Tid) (type : SlType) (count : ℕ) :
    SharedLock Queue Tid :=
  { lock with
    held := Function.update lock.held thread (Function.update (lock.held thread) type count) }

@[simp]
theorem goto_pc (lock : SharedLock Queue Tid) (thread : Tid) (target : SlPc) :
    (lock.goto thread target).pc thread = target :=
  Function.update_self ..

@[simp]
theorem acquire_pc (lock : SharedLock Queue Tid) (thread : Tid) (target : SlPc) :
    (lock.acquire thread target).pc thread = target :=
  Function.update_self ..

/-- One statement of a thread that holds the spinlock. -/
inductive Exec (ops : WaitQueueOps Queue Tid) (lock : SharedLock Queue Tid) (thread : Tid) :
    SharedLock Queue Tid → Prop where
  -- sl_lock
  | lockDraining {type : SlType} (atPc : lock.pc thread = .lockEntry type)
      (draining : lock.Draining) :
      Exec ops lock thread (lock.goto thread (.lockReturn enolck))
  | lockFair {type : SlType} {queue : Queue} (atPc : lock.pc thread = .lockEntry type)
      (notDraining : ¬lock.Draining) (nonempty : ops.isEmpty lock.slQueue = false)
      (entered : ops.enter lock.slQueue thread true = some queue) :
      Exec ops lock thread (lock.sleep thread (.fair type) queue)
  | lockDirect {type : SlType} (atPc : lock.pc thread = .lockEntry type)
      (notDraining : ¬lock.Draining) (empty : ops.isEmpty lock.slQueue = true) :
      Exec ops lock thread (lock.goto thread (.internalEntry type))
  -- sl_lock_internal
  | internalDraining {type : SlType} (atPc : lock.pc thread = .internalEntry type)
      (draining : lock.Draining) :
      Exec ops lock thread (lock.goto thread (.lockReturn enolck))
  | internalEnter {type : SlType} (atPc : lock.pc thread = .internalEntry type)
      (notDraining : ¬lock.Draining) :
      Exec ops lock thread (lock.goto thread (.internalTest type))
  | internalWait {type : SlType} {queue : Queue} (atPc : lock.pc thread = .internalTest type)
      (mustWait : type.mustWait lock.slNumber)
      (entered : ops.enter lock.slQueue thread false = some queue) :
      Exec ops lock thread (lock.sleep thread (.internal type) queue)
  | retestDraining {type : SlType} {queue : Queue} (atPc : lock.pc thread = .internalRetest type)
      (draining : lock.Draining) (woken : ops.getFirst lock.slQueue = some queue) :
      Exec ops lock thread
        ({ lock with slQueue := queue }.goto thread (.lockReturn enolck))
  | retest {type : SlType} (atPc : lock.pc thread = .internalRetest type)
      (notDraining : ¬lock.Draining) :
      Exec ops lock thread (lock.goto thread (.internalTest type))
  | sharedCount (atPc : lock.pc thread = .internalTest .shared)
      (free : ¬SlType.shared.mustWait lock.slNumber) :
      Exec ops lock thread
        ({ lock with slNumber := int32 (lock.slNumber + 1) }.goto thread .sharedWake)
  | sharedGrant {queue : Queue} (atPc : lock.pc thread = .sharedWake)
      (woken : ops.getFirst lock.slQueue = some queue) :
      Exec ops lock thread
        (({ lock with slQueue := queue }.setHeld thread .shared
          (lock.held thread .shared + 1)).goto thread (.lockReturn 0))
  | exclusiveGrant (atPc : lock.pc thread = .internalTest .exclusive)
      (free : ¬SlType.exclusive.mustWait lock.slNumber) :
      Exec ops lock thread
        (({ lock with slNumber := -1 }.setHeld thread .exclusive
          (lock.held thread .exclusive + 1)).goto thread (.lockReturn 0))
  | lockReturn {result : ℕ} (atPc : lock.pc thread = .lockReturn result) :
      Exec ops lock thread (lock.release thread)
  -- sl_unlock
  | unlockShared (atPc : lock.pc thread = .unlockEntry .shared) :
      Exec ops lock thread
        (({ lock with slNumber := int32 (lock.slNumber - 1) }.setHeld thread .shared
          (lock.held thread .shared - 1)).goto thread .unlockWake)
  | unlockExclusive (atPc : lock.pc thread = .unlockEntry .exclusive) :
      Exec ops lock thread
        (({ lock with slNumber := 0 }.setHeld thread .exclusive
          (lock.held thread .exclusive - 1)).goto thread .unlockWake)
  | unlockWake {queue : Queue} (atPc : lock.pc thread = .unlockWake)
      (woken : ops.getFirst lock.slQueue = some queue) :
      Exec ops lock thread ({ lock with slQueue := queue }.goto thread .unlockReturn)
  | unlockReturn (atPc : lock.pc thread = .unlockReturn) :
      Exec ops lock thread (lock.release thread)
  -- sl_touch
  | touchWait {type : SlType} {queue : Queue} (atPc : lock.pc thread = .touchTest type)
      (mustWait : type.mustWait lock.slNumber)
      (entered : ops.enter lock.slQueue thread false = some queue) :
      Exec ops lock thread (lock.sleep thread (.touch type) queue)
  | touchPass {type : SlType} (atPc : lock.pc thread = .touchTest type)
      (free : ¬type.mustWait lock.slNumber) :
      Exec ops lock thread (lock.goto thread .touchWake)
  | touchWake {queue : Queue} (atPc : lock.pc thread = .touchWake)
      (woken : ops.getFirst lock.slQueue = some queue) :
      Exec ops lock thread ({ lock with slQueue := queue }.goto thread .touchReturn)
  | touchReturn (atPc : lock.pc thread = .touchReturn) :
      Exec ops lock thread (lock.release thread)
  -- sl_drain
  | drainFlag (atPc : lock.pc thread = .drainEntry) :
      Exec ops lock thread
        ({ lock with slFlags := lock.slFlags ||| slFlagDrain }.goto thread .drainWake)
  | drainWake {queue : Queue} (atPc : lock.pc thread = .drainWake)
      (woken : ops.getFirst lock.slQueue = some queue) :
      Exec ops lock thread ({ lock with slQueue := queue }.goto thread .drainNumberTest)
  | drainNumberWait {queue : Queue} (atPc : lock.pc thread = .drainNumberTest)
      (nonzero : lock.slNumber ≠ 0) (entered : ops.enter lock.slQueue thread true = some queue) :
      Exec ops lock thread (lock.sleep thread .drainNumber queue)
  | drainNumberDone (atPc : lock.pc thread = .drainNumberTest) (zero : lock.slNumber = 0) :
      Exec ops lock thread (lock.goto thread .drainQueueTest)
  | drainQueueWait {queue : Queue} (atPc : lock.pc thread = .drainQueueTest)
      (nonempty : ops.isEmpty lock.slQueue = false)
      (entered : ops.enter lock.slQueue thread true = some queue) :
      Exec ops lock thread (lock.sleep thread .drainQueue queue)
  | drainQueueDone (atPc : lock.pc thread = .drainQueueTest)
      (empty : ops.isEmpty lock.slQueue = true) :
      Exec ops lock thread (lock.goto thread .drainReturn)
  | drainReturn (atPc : lock.pc thread = .drainReturn) :
      Exec ops lock thread (lock.release thread)

end SharedLock

/-- The indivisible steps of a thread. -/
inductive SlEvent (Tid : Type) where
  | call (thread : Tid) (call : SlCall)
  | acquire (thread : Tid)
  | exec (thread : Tid)
  | resume (thread : Tid)

namespace SharedLock

variable {Queue Tid : Type}

/-- The spinlock is held by the thread that is between its two ends, and by no other. -/
def Exclusive (lock : SharedLock Queue Tid) : Prop :=
  ∀ thread, (lock.pc thread).holds = true ↔ lock.slLock = some thread

theorem Exclusive.initial (empty : Queue) : (initial empty : SharedLock Queue Tid).Exclusive := by
  intro thread
  simp [SharedLock.initial, SlPc.holds]

/-- Nobody is between the two ends of the spinlock section if it is free. -/
theorem Exclusive.not_holds {lock : SharedLock Queue Tid} (exclusive : lock.Exclusive)
    (free : lock.slLock = none) (thread : Tid) : (lock.pc thread).holds = false := by
  rw [← Bool.not_eq_true]
  intro holds
  have holder := (exclusive thread).mp holds
  rw [free] at holder
  cases holder

variable [DecidableEq Tid]

/-- A step of the system. An operation is called from outside, and `sl_unlock` only for a grant
of its type that the caller holds. -/
inductive Step (ops : WaitQueueOps Queue Tid) (lock : SharedLock Queue Tid) :
    SlEvent Tid → SharedLock Queue Tid → Prop where
  | call {thread : Tid} {call : SlCall} (atPc : lock.pc thread = .outside)
      (matching : ∀ type, call = .unlock type → 0 < lock.held thread type) :
      Step ops lock (.call thread call) (lock.goto thread (.entering call))
  | acquire {thread : Tid} {call : SlCall} (atPc : lock.pc thread = .entering call)
      (free : lock.slLock = none) :
      Step ops lock (.acquire thread) (lock.acquire thread call.entry)
  | exec {thread : Tid} {next : SharedLock Queue Tid} (exec : lock.Exec ops thread next) :
      Step ops lock (.exec thread) next
  | resume {thread : Tid} {site : WaitSite} (atPc : lock.pc thread = .asleep site)
      (mayReturn : ops.mayReturn lock.slQueue thread) (free : lock.slLock = none) :
      Step ops lock (.resume thread) (lock.acquire thread site.resume)

/-- All interleavings of the operations on one lock, from the given empty queue. -/
def system (ops : WaitQueueOps Queue Tid) (empty : Queue) :
    TransitionSystem (SharedLock Queue Tid) (SlEvent Tid) where
  init lock := lock = initial empty
  step := Step ops

/-- Every thread between `kernlock_lock` and `kernlock_unlock` has a next statement. -/
theorem exists_exec (ops : WaitQueueOps Queue Tid) {lock : SharedLock Queue Tid} {thread : Tid}
    (enters : ∀ after, (ops.enter lock.slQueue thread after).isSome)
    (wakes : (ops.getFirst lock.slQueue).isSome) (holds : (lock.pc thread).holds = true) :
    ∃ next, lock.Exec ops thread next := by
  rcases Option.isSome_iff_exists.mp (enters true) with ⟨back, enteredBack⟩
  rcases Option.isSome_iff_exists.mp (enters false) with ⟨front, enteredFront⟩
  rcases Option.isSome_iff_exists.mp wakes with ⟨woken, wokenEq⟩
  cases atPc : lock.pc thread with
  | outside => simp [SlPc.holds, atPc] at holds
  | entering call => simp [SlPc.holds, atPc] at holds
  | asleep site => simp [SlPc.holds, atPc] at holds
  | lockEntry type =>
      by_cases draining : lock.Draining
      · exact ⟨_, .lockDraining atPc draining⟩
      · cases empty : ops.isEmpty lock.slQueue with
        | false => exact ⟨_, .lockFair atPc draining empty enteredBack⟩
        | true => exact ⟨_, .lockDirect atPc draining empty⟩
  | internalEntry type =>
      by_cases draining : lock.Draining
      · exact ⟨_, .internalDraining atPc draining⟩
      · exact ⟨_, .internalEnter atPc draining⟩
  | internalTest type =>
      by_cases mustWait : type.mustWait lock.slNumber
      · exact ⟨_, .internalWait atPc mustWait enteredFront⟩
      · cases type with
        | shared => exact ⟨_, .sharedCount atPc mustWait⟩
        | exclusive => exact ⟨_, .exclusiveGrant atPc mustWait⟩
  | internalRetest type =>
      by_cases draining : lock.Draining
      · exact ⟨_, .retestDraining atPc draining wokenEq⟩
      · exact ⟨_, .retest atPc draining⟩
  | sharedWake => exact ⟨_, .sharedGrant atPc wokenEq⟩
  | lockReturn result => exact ⟨_, .lockReturn atPc⟩
  | unlockEntry type =>
      cases type with
      | shared => exact ⟨_, .unlockShared atPc⟩
      | exclusive => exact ⟨_, .unlockExclusive atPc⟩
  | unlockWake => exact ⟨_, .unlockWake atPc wokenEq⟩
  | unlockReturn => exact ⟨_, .unlockReturn atPc⟩
  | touchTest type =>
      by_cases mustWait : type.mustWait lock.slNumber
      · exact ⟨_, .touchWait atPc mustWait enteredFront⟩
      · exact ⟨_, .touchPass atPc mustWait⟩
  | touchWake => exact ⟨_, .touchWake atPc wokenEq⟩
  | touchReturn => exact ⟨_, .touchReturn atPc⟩
  | drainEntry => exact ⟨_, .drainFlag atPc⟩
  | drainWake => exact ⟨_, .drainWake atPc wokenEq⟩
  | drainNumberTest =>
      by_cases zero : lock.slNumber = 0
      · exact ⟨_, .drainNumberDone atPc zero⟩
      · exact ⟨_, .drainNumberWait atPc zero enteredBack⟩
  | drainQueueTest =>
      cases empty : ops.isEmpty lock.slQueue with
      | false => exact ⟨_, .drainQueueWait atPc empty enteredBack⟩
      | true => exact ⟨_, .drainQueueDone atPc empty⟩
  | drainReturn => exact ⟨_, .drainReturn atPc⟩

section Exclusive

variable {ops : WaitQueueOps Queue Tid} {lock next : SharedLock Queue Tid} {thread : Tid}

theorem Exclusive.inside (exclusive : lock.Exclusive) (holds : (lock.pc thread).holds = true)
    {target : SlPc} (targetHolds : target.holds = true)
    (sameLock : next.slLock = lock.slLock)
    (moved : next.pc = Function.update lock.pc thread target) : next.Exclusive := by
  intro other
  rw [sameLock, moved, ← exclusive other]
  by_cases same : other = thread
  · subst other
    simp [holds, targetHolds]
  · simp [same]

theorem Exclusive.leave (exclusive : lock.Exclusive) (holds : (lock.pc thread).holds = true)
    (target : SlPc) (targetFree : target.holds = false) (free : next.slLock = none)
    (moved : next.pc = Function.update lock.pc thread target) : next.Exclusive := by
  intro other
  rw [free, moved]
  by_cases same : other = thread
  · subst other
    simp [targetFree]
  · have notHolder : (lock.pc other).holds ≠ true := by
      intro otherHolds
      have left := (exclusive thread).mp holds
      have right := (exclusive other).mp otherHolds
      rw [left, Option.some.injEq] at right
      exact same right.symm
    simp [same, notHolder]

theorem Exec.holds (exec : lock.Exec ops thread next) : (lock.pc thread).holds = true := by
  cases exec <;> simp_all [SlPc.holds]

theorem Exec.lower (exec : lock.Exec ops thread next) (lower : -2 ^ 31 ≤ lock.slNumber) :
    -2 ^ 31 ≤ next.slNumber := by
  cases exec with
  | sharedCount atPc | unlockShared atPc => exact int32_lower _
  | exclusiveGrant atPc | unlockExclusive atPc => simp [goto, setHeld]
  | _ => exact lower

theorem Exec.upper (exec : lock.Exec ops thread next) (upper : lock.slNumber < 2 ^ 31) :
    next.slNumber < 2 ^ 31 := by
  cases exec with
  | sharedCount atPc | unlockShared atPc => exact int32_upper _
  | exclusiveGrant atPc | unlockExclusive atPc => simp [goto, setHeld]
  | _ => exact upper

theorem Exclusive.exec (exclusive : lock.Exclusive) (exec : lock.Exec ops thread next) :
    next.Exclusive := by
  have holds := exec.holds
  cases exec
  case lockFair | internalWait | touchWait | drainNumberWait | drainQueueWait =>
    exact exclusive.leave holds (.asleep _) rfl rfl rfl
  case lockReturn | unlockReturn | touchReturn | drainReturn =>
    exact exclusive.leave holds .outside rfl rfl rfl
  all_goals exact exclusive.inside holds rfl rfl rfl

theorem Exclusive.step {event : SlEvent Tid} (exclusive : lock.Exclusive)
    (step : Step ops lock event next) : next.Exclusive := by
  cases step with
  | @call thread call atPc matching =>
      intro other
      simp only [goto]
      rw [← exclusive other]
      by_cases same : other = thread
      · subst other
        simp [atPc, SlPc.holds]
      · simp [same]
  | @acquire thread call atPc free =>
      intro other
      simp only [SharedLock.acquire]
      by_cases same : other = thread
      · subst other
        cases call <;> simp [SlCall.entry, SlPc.holds]
      · simp [same, exclusive.not_holds free other, Ne.symm same]
  | exec exec => exact exclusive.exec exec
  | @resume thread site atPc mayReturn free =>
      intro other
      simp only [SharedLock.acquire]
      by_cases same : other = thread
      · subst other
        cases site <;> simp [WaitSite.resume, SlPc.holds]
      · simp [same, exclusive.not_holds free other, Ne.symm same]

end Exclusive

end SharedLock

end Rkernel
