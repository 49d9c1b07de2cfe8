import Rkernel.Kern.SchedQueue
import Rkernel.Kern.Wait

/-!
# Waking a thread that is about to block

A thread that waits on a wait queue is switched away from by `sched_preempt`, while
`waitqueue_get_first` on another CPU takes it off the queue. The waker clears
`t_wait_queue` without the scheduler lock and then refiles the thread under it, if the
thread is preempted by then; the other CPU sets `THREAD_SF_PREEMPT` and tests
`t_wait_queue` under the lock. Both are modeled step by step, so that the steps of the
waker in front of its critical section fall between any two steps of the other CPU.

Whatever the order, the thread ends up on its run ring: a test that still saw the
queue is made up for by the waker, which has to come behind it.
-/

namespace Rkernel

/-- The CPU that switches away from the thread, and the waker. -/
inductive Party where
  | switcher
  | waker
  deriving DecidableEq

/-- Where `sched_preempt` is in its critical section, from the switch on. -/
inductive SwitchPc where
  | before
  | locked
  | preempted
  | tested (suspended : Bool)
  | filed
  | done
  deriving DecidableEq

/-- Where the waker is in `waitqueue_get_first`. -/
inductive WakePc (Tid : Type) where
  | before
  | unlinked (thread : Tid)
  | cleared (thread : Tid)
  | marked (thread : Tid)
  | locked (thread : Tid)
  | refiled
  | released
  | done

/-- The scheduler with its lock, and where the two critical sections are. -/
structure WakeState (Tid Wq : Type) where
  scheduler : Scheduler Tid Wq
  schedLock : Option Party
  switch : SwitchPc
  wake : WakePc Tid

section Code

variable {Tid Wq : Type} [DecidableEq Tid] [DecidableEq Wq]

/-- `waitqueue_get_first` up to the removal: the thread it takes, if the queue is not empty. -/
def waitqueueUnlink (heap : RingHeap (RingAddr Tid Wq) Tid) (queue : Wq) :
    Option (Option (Tid × RingHeap (RingAddr Tid Wq) Tid)) := do
  let elem ← (heap (.wqThreads queue)).prev
  if elem = .wqThreads queue then
    return none
  let thread ← (heap elem).data
  let removed ← linkedRingRemove heap elem
  return some (thread, removed)

theorem waitqueueGetFirst_eq (heap : RingHeap (RingAddr Tid Wq) Tid) (threads : Tid → Thread Wq)
    (queue : Wq) :
    waitqueueGetFirst heap threads queue = (waitqueueUnlink heap queue).map fun
      | none => (0, heap, threads)
      | some (thread, removed) =>
          (1, removed,
            Function.update threads thread { threads thread with tWaitQueue := none }) := by
  simp only [waitqueueGetFirst, waitqueueUnlink, Option.bind_eq_bind, Option.pure_def]
  cases (heap (.wqThreads queue)).prev with
  | none => rfl
  | some elem =>
      simp only [Option.bind_some]
      split
      · rfl
      · cases (heap elem).data with
        | none => rfl
        | some thread => cases linkedRingRemove heap elem <;> rfl

end Code

/-- The thread is the one that the next waker of the queue takes. -/
def Scheduler.WaitsLast {Tid Wq : Type} (heap : RingHeap (RingAddr Tid Wq) Tid) (queue : Wq)
    (thread : Tid) : Prop :=
  (∃ others : List Tid,
    heap.IsRing (.wqThreads queue) ((others ++ [thread]).map RingAddr.tWaitEntry)) ∧
      (heap (.tWaitEntry thread)).data = some thread

namespace WakeState

variable {Tid Wq : Type} [DecidableEq Tid] [DecidableEq Wq]

/-- One step of one of the two, where `thread` is switched away from and `myself` is the thread
that wakes a thread of `queue`. -/
inductive Step (thread myself : Tid) (queue : Wq) (state : WakeState Tid Wq) :
    Party → WakeState Tid Wq → Prop where
  | lock (isBefore : state.switch = .before) (free : state.schedLock = none) :
      Step thread myself queue state .switcher
        { state with schedLock := some .switcher, switch := .locked }
  | preempt (isLocked : state.switch = .locked) :
      Step thread myself queue state .switcher
        { state with
          scheduler := state.scheduler.modifyThread thread fun thread =>
            { thread with tStateflags := thread.tStateflags ||| threadSfPreempt }
          switch := .preempted }
  | skip (isPreempted : state.switch = .preempted)
      (isIdle : state.scheduler.schedIdle = some thread) :
      Step thread myself queue state .switcher { state with switch := .filed }
  | test (isPreempted : state.switch = .preempted)
      (notIdle : state.scheduler.schedIdle ≠ some thread) :
      Step thread myself queue state .switcher
        { state with switch := .tested (schedIsSuspended (state.scheduler.threads thread)) }
  | file {suspended : Bool} {scheduler : Scheduler Tid Wq}
      (isTested : state.switch = .tested suspended)
      (filed : state.scheduler.schedFile thread suspended = .ok scheduler) :
      Step thread myself queue state .switcher
        { state with scheduler := scheduler, switch := .filed }
  | unlock (isFiled : state.switch = .filed) :
      Step thread myself queue state .switcher { state with schedLock := none, switch := .done }
  | nobody (isBefore : state.wake = .before)
      (empty : waitqueueUnlink state.scheduler.heap queue = some none) :
      Step thread myself queue state .waker { state with wake := .done }
  | unlink {woken : Tid} {heap : RingHeap (RingAddr Tid Wq) Tid} (isBefore : state.wake = .before)
      (unlinked : waitqueueUnlink state.scheduler.heap queue = some (some (woken, heap))) :
      Step thread myself queue state .waker
        { state with
          scheduler := { state.scheduler with heap := heap }
          wake := .unlinked woken }
  | clear {woken : Tid} (isUnlinked : state.wake = .unlinked woken) :
      Step thread myself queue state .waker
        { state with
          scheduler := state.scheduler.modifyThread woken fun thread =>
            { thread with tWaitQueue := none }
          wake := .cleared woken }
  | leave {woken : Tid} (isCleared : state.wake = .cleared woken)
      (nowhere : (state.scheduler.threads woken).tCurrentCpu = none) :
      Step thread myself queue state .waker { state with wake := .done }
  | mark {woken : Tid} (isCleared : state.wake = .cleared woken)
      (onCpu : (state.scheduler.threads woken).tCurrentCpu ≠ none) :
      Step thread myself queue state .waker
        { state with
          scheduler := state.scheduler.orderedApply myself (· ||| threadSfLockSched)
          wake := .marked woken }
  | acquire {woken : Tid} (isMarked : state.wake = .marked woken)
      (free : state.schedLock = none) :
      Step thread myself queue state .waker
        { state with schedLock := some .waker, wake := .locked woken }
  | refile {woken : Tid} {scheduler : Scheduler Tid Wq} (isLocked : state.wake = .locked woken)
      (refiled : state.scheduler.schedRefile woken = .ok scheduler) :
      Step thread myself queue state .waker
        { state with scheduler := scheduler, wake := .refiled }
  | release (isRefiled : state.wake = .refiled) :
      Step thread myself queue state .waker { state with schedLock := none, wake := .released }
  | unmark (isReleased : state.wake = .released) :
      Step thread myself queue state .waker
        { state with
          scheduler := state.scheduler.orderedApply myself (· &&& ~~~threadSfLockSched)
          wake := .done }

/-- The thread runs and waits on the queue, from which the waker takes it next; all rings of the
scheduler are well formed. -/
structure Ready (thread myself : Tid) (queue : Wq) (queues : Option (Fin schedNrqs) → List Tid)
    (state : WakeState Tid Wq) : Prop where
  filed : Scheduler.Filed id state.scheduler queues
  waits : Scheduler.WaitsLast state.scheduler.heap queue thread
  notQueued : ∀ key, thread ∉ queues key
  notIdle : state.scheduler.schedIdle ≠ some thread
  waiting : (state.scheduler.threads thread).tStateflags &&& threadSfQueueWait ≠ 0
  onQueue : (state.scheduler.threads thread).tWaitQueue = some queue
  running : (state.scheduler.threads thread).tStateflags &&& threadSfPreempt = 0
  onCpu : (state.scheduler.threads thread).tCurrentCpu ≠ none
  different : myself ≠ thread
  free : state.schedLock = none
  isBefore : state.switch = .before ∧ state.wake = .before

/-- The runs of the two from one state. -/
def system (thread myself : Tid) (queue : Wq) (start : WakeState Tid Wq) :
    TransitionSystem (WakeState Tid Wq) Party where
  init state := state = start
  step := Step thread myself queue

end WakeState

def SwitchPc.Holds : SwitchPc → Prop
  | locked | preempted | tested _ | filed => True
  | before | done => False

/-- The number of steps that lead here. -/
def SwitchPc.rank : SwitchPc → ℕ
  | before => 0
  | locked => 1
  | preempted => 2
  | tested _ => 3
  | filed => 4
  | done => 5

theorem SwitchPc.rank_le (pc : SwitchPc) : pc.rank ≤ 5 := by
  cases pc <;> simp [rank]

theorem SwitchPc.eq_of_not_holds {pc : SwitchPc} (notHeld : ¬pc.Holds) :
    pc = .before ∨ pc = .done := by
  cases pc with
  | before => exact Or.inl rfl
  | done => exact Or.inr rfl
  | locked => exact absurd trivial notHeld
  | preempted => exact absurd trivial notHeld
  | tested suspended => exact absurd trivial notHeld
  | filed => exact absurd trivial notHeld

namespace WakePc

variable {Tid : Type}

def Holds : WakePc Tid → Prop
  | locked _ | refiled => True
  | before | unlinked _ | cleared _ | marked _ | released | done => False

/-- The waker has not refiled the thread yet. -/
def Pending : WakePc Tid → Prop
  | before | unlinked _ | cleared _ | marked _ | locked _ => True
  | refiled | released | done => False

/-- The waker has cleared `t_wait_queue`. -/
def Cleared : WakePc Tid → Prop
  | cleared _ | marked _ | locked _ | refiled | released | done => True
  | before | unlinked _ => False

/-- The thread that the waker has taken off the queue. -/
def woken? : WakePc Tid → Option Tid
  | unlinked woken | cleared woken | marked woken | locked woken => some woken
  | before | refiled | released | done => none

/-- The number of steps that lead here. -/
def rank : WakePc Tid → ℕ
  | before => 0
  | unlinked _ => 1
  | cleared _ => 2
  | marked _ => 3
  | locked _ => 4
  | refiled => 5
  | released => 6
  | done => 7

theorem rank_le (pc : WakePc Tid) : pc.rank ≤ 7 := by
  cases pc <;> simp [rank]

theorem cleared_of_not_pending {pc : WakePc Tid} (notPending : ¬pc.Pending) : pc.Cleared := by
  cases pc with
  | before => exact absurd trivial notPending
  | unlinked woken => exact absurd trivial notPending
  | cleared woken => trivial
  | marked woken => trivial
  | locked woken => trivial
  | refiled => trivial
  | released => trivial
  | done => trivial

end WakePc

namespace Scheduler

variable {Tid Wq : Type} {Key : Type} {place : Key → Option (Fin schedNrqs)}
  {scheduler next : Scheduler Tid Wq} {queues : Key → List Tid} {thread : Tid}

/-- Rings are not affected by what happens to other nodes. -/
theorem Filed.congr_on (filed : Filed place scheduler queues)
    (sameHead : ∀ key, next.heap (RunQueues.head Tid Wq key) =
      scheduler.heap (RunQueues.head Tid Wq key))
    (sameEntry : ∀ thread, next.heap (.tQueueEntry thread) =
      scheduler.heap (.tQueueEntry thread)) : Filed place next queues := by
  refine ⟨⟨?_, filed.rings.disjoint⟩, ?_, ?_⟩
  · intro key
    have same : ∀ addr ∈ RunQueues.head Tid Wq (place key) ::
        (queues key).map RingAddr.tQueueEntry, next.heap addr = scheduler.heap addr := by
      intro addr addrMem
      rcases List.mem_cons.mp addrMem with rfl | addrMem
      · exact sameHead _
      · rcases List.mem_map.mp addrMem with ⟨queued, _, rfl⟩
        exact sameEntry queued
    apply (filed.rings.isRing key).congr
    · exact fun addr addrMem => by rw [same addr addrMem]
    · exact fun addr addrMem => by rw [same addr addrMem]
  · intro key queued queuedMem
    rw [sameEntry]
    exact filed.entryData key queued queuedMem
  · intro priority
    have same := sameHead (some priority)
    rw [RunQueues.head] at same
    rw [same]
    exact filed.headData priority

/-- Filing a thread does not affect the wait queues. -/
theorem WaitsLast.untouched {heap after : RingHeap (RingAddr Tid Wq) Tid} {queue : Wq}
    {filed : Tid} (waits : WaitsLast heap queue thread)
    (untouched : Untouched place queues filed heap after) : WaitsLast after queue thread := by
  have sameHead : after (.wqThreads queue) = heap (.wqThreads queue) := by
    apply untouched
    · simp
    · intro key
      cases place key <;> simp [RunQueues.head]
  have sameEntry : ∀ waiter, after (.tWaitEntry waiter) = heap (.tWaitEntry waiter) := by
    intro waiter
    apply untouched
    · simp
    · intro key
      cases place key <;> simp [RunQueues.head]
  rcases waits with ⟨⟨others, ring⟩, data⟩
  have same : ∀ addr ∈ RingAddr.wqThreads queue :: (others ++ [thread]).map RingAddr.tWaitEntry,
      after addr = heap addr := by
    intro addr addrMem
    rcases List.mem_cons.mp addrMem with rfl | addrMem
    · exact sameHead
    · rcases List.mem_map.mp addrMem with ⟨waiter, _, rfl⟩
      exact sameEntry waiter
  refine ⟨⟨others, ring.congr ?_ ?_⟩, ?_⟩
  · exact fun addr addrMem => by rw [same addr addrMem]
  · exact fun addr addrMem => by rw [same addr addrMem]
  · rw [sameEntry]
    exact data

variable [DecidableEq Tid] [DecidableEq Wq]

/-- The waker takes the thread off the wait queue and leaves the scheduler alone. -/
theorem Filed.waitqueueUnlink (filed : Filed place scheduler queues) {queue : Wq}
    (waits : WaitsLast scheduler.heap queue thread) :
    ∃ heap, waitqueueUnlink scheduler.heap queue = some (some (thread, heap)) ∧
      Filed place { scheduler with heap := heap } queues := by
  rcases waits with ⟨⟨others, ring⟩, data⟩
  have prev := ring.prev_head
  rw [List.map_append, List.map_singleton] at ring prev
  rw [List.getLastD_concat] at prev
  have removed := linkedRingRemove_mem ring
  generalize isHeap : scheduler.heap.unsplice _ _ = heap at removed
  refine ⟨heap, ?_, ?_⟩
  · simp [Rkernel.waitqueueUnlink, prev, data, removed]
  · have same : ∀ addr ∉ RingAddr.wqThreads queue :: (others.map RingAddr.tWaitEntry ++ []),
        heap addr = scheduler.heap addr := by
      intro addr notMem
      have links := linkedRingRemove_links ring notMem removed
      exact RingNode.ext links.1 links.2 (linkedRingRemove_data removed addr)
    apply filed.congr_on
    · intro key
      apply same
      cases key <;> simp [RunQueues.head]
    · intro queued
      apply same
      simp

end Scheduler

namespace WakeState

section Handshake

variable {Tid Wq : Type}

/-- The rings with the thread on one of them, or on none. -/
def placed [DecidableEq Tid] (queues : Option (Fin schedNrqs) → List Tid) (thread : Tid) :
    Option (Option (Fin schedNrqs)) → Option (Fin schedNrqs) → List Tid
  | none => queues
  | some key => Function.update queues key (Scheduler.enqueue key thread (queues key))

/-- Where the thread is on the way: on no ring before it is filed, and on `sched_blocked` only
while the waker is still to come. -/
def Spot (ring : Fin schedNrqs) (switch : SwitchPc) (wake : WakePc Tid) :
    Option (Option (Fin schedNrqs)) → Prop :=
  match switch with
  | .before | .locked | .preempted => fun spot => spot = none
  | .tested suspended => fun spot => spot = none ∧ (suspended = true → wake.Pending)
  | .filed | .done => fun spot => spot = some (some ring) ∨ spot = some none ∧ wake.Pending

/-- What holds of the two on the way. -/
structure Handshake [DecidableEq Tid] (thread : Tid) (queue : Wq)
    (queues : Option (Fin schedNrqs) → List Tid) (ring : Fin schedNrqs)
    (state : WakeState Tid Wq) : Prop where
  filed : ∃ spot, Spot ring state.switch state.wake spot ∧
    Scheduler.Filed id state.scheduler (placed queues thread spot)
  waits : state.wake = .before → Scheduler.WaitsLast state.scheduler.heap queue thread
  woken : ∀ woken, state.wake.woken? = some woken → woken = thread
  isRing : runRing (state.scheduler.threads thread) = ring
  cleared : state.wake.Cleared → (state.scheduler.threads thread).tWaitQueue = none
  preempted : (state.scheduler.threads thread).tStateflags &&& threadSfPreempt = 0 ↔
    state.switch = .before ∨ state.switch = .locked
  notIdle : state.scheduler.schedIdle ≠ some thread
  onCpu : (state.scheduler.threads thread).tCurrentCpu ≠ none
  switcherHolds : state.schedLock = some .switcher ↔ state.switch.Holds
  wakerHolds : state.schedLock = some .waker ↔ state.wake.Holds

end Handshake

section Steps

variable {Tid Wq : Type} [DecidableEq Tid] [DecidableEq Wq] {thread myself : Tid} {queue : Wq}
  {queues : Option (Fin schedNrqs) → List Tid} {ring : Fin schedNrqs}
  {state next : WakeState Tid Wq}

omit [DecidableEq Wq] in
theorem Ready.handshake (ready : Ready thread myself queue queues state) :
    Handshake thread queue queues (runRing (state.scheduler.threads thread)) state := by
  rcases ready.isBefore with ⟨isSwitch, isWake⟩
  refine ⟨⟨none, ?_, ready.filed⟩, fun _ => ready.waits, ?_, rfl, ?_, ?_,
    ready.notIdle, ready.onCpu, ?_, ?_⟩
  · rw [isSwitch]
    exact rfl
  · simp [isWake, WakePc.woken?]
  · simp [isWake, WakePc.Cleared]
  · simp [isSwitch, ready.running]
  · simp [isSwitch, ready.free, SwitchPc.Holds]
  · simp [isWake, ready.free, WakePc.Holds]

omit [DecidableEq Wq] in
/-- The two are never in their critical sections at once. -/
theorem Handshake.exclusive (handshake : Handshake thread queue queues ring state)
    (held : state.switch.Holds) : ¬state.wake.Holds := by
  intro heldToo
  have isSwitcher := handshake.switcherHolds.mpr held
  rw [handshake.wakerHolds.mpr heldToo] at isSwitcher
  cases isSwitcher

/-- `sched_preempt` files the thread as it has tested it. -/
theorem Handshake.schedFile (handshake : Handshake thread queue queues ring state)
    (notQueued : ∀ key, thread ∉ queues key) {suspended : Bool}
    (isTested : state.switch = .tested suspended) :
    ∃ scheduler, state.scheduler.schedFile thread suspended = .ok scheduler ∧
      Handshake thread queue queues ring
        { state with scheduler := scheduler, switch := .filed } := by
  rcases handshake.filed with ⟨spot, isSpot, filed⟩
  rw [isTested] at isSpot
  rcases isSpot with ⟨rfl, early⟩
  have isPlace : id (ringOf (state.scheduler.threads thread) suspended) =
      ringOf (state.scheduler.threads thread) suspended := rfl
  rcases filed.schedFile isPlace notQueued with ⟨heap, decay, ok, filedAfter, untouched⟩
  have isPreempted := handshake.preempted
  have isHeld := handshake.switcherHolds
  rw [isTested] at isPreempted isHeld
  refine ⟨_, ok, ⟨some (ringOf (state.scheduler.threads thread) suspended), ?_, filedAfter⟩,
    fun isBefore => (handshake.waits isBefore).untouched untouched, handshake.woken,
    handshake.isRing, handshake.cleared, ?_, handshake.notIdle, handshake.onCpu, isHeld,
    handshake.wakerHolds⟩
  · cases suspended with
    | true => exact Or.inr ⟨rfl, early rfl⟩
    | false => exact Or.inl (congrArg (fun ring => some (some ring)) handshake.isRing)
  · simpa using isPreempted

/-- Taking a filed thread off its ring leaves the other threads as they were. -/
theorem enqueue_split {Entry : Type} (place : Option (Fin schedNrqs)) (entry : Entry)
    (queue : List Entry) :
    ∃ front back, Scheduler.enqueue place entry queue = front ++ entry :: back ∧
      front ++ back = queue := by
  cases place with
  | none => exact ⟨queue, [], rfl, List.append_nil queue⟩
  | some i => exact ⟨[], queue, rfl, rfl⟩

/-- A filed thread is taken off its ring and filed again. -/
theorem refile_placed {scheduler : Scheduler Tid Wq} {key : Option (Fin schedNrqs)}
    (filed : Scheduler.Filed id scheduler (placed queues thread (some key)))
    (notQueued : ∀ key, thread ∉ queues key) (notIdle : scheduler.schedIdle ≠ some thread)
    (preempted : (scheduler.threads thread).tStateflags &&& threadSfPreempt ≠ 0) :
    ∃ heap decay,
      scheduler.schedRefile thread =
        .ok { scheduler with heap := heap, schedRunDecay := decay } ∧
      Scheduler.Filed id { scheduler with heap := heap, schedRunDecay := decay }
        (placed queues thread (some (filedOn (scheduler.threads thread)))) := by
  rcases enqueue_split key thread (queues key) with ⟨front, back, isEnqueued, isQueue⟩
  have split : placed queues thread (some key) key = front ++ thread :: back := by
    rw [← isEnqueued]
    exact Function.update_self ..
  rcases filed.linkedRingRemove split with ⟨middle, removed, filedMiddle, _⟩
  have isMiddle : Function.update (placed queues thread (some key)) key (front ++ back) =
      queues := by
    rw [isQueue, placed, Function.update_idem, Function.update_eq_self]
  rw [isMiddle] at filedMiddle
  have isPlace : id (filedOn (scheduler.threads thread)) = filedOn (scheduler.threads thread) := rfl
  rcases filedMiddle.schedReenqueue notIdle isPlace notQueued with
    ⟨heap, decay, reenqueued, filedAfter, _⟩
  refine ⟨heap, decay, ?_, filedAfter⟩
  rw [Scheduler.schedRefile, if_pos preempted, removed]
  exact reenqueued

/-- The waker refiles the thread if it has been filed already. -/
theorem Handshake.schedRefile (handshake : Handshake thread queue queues ring state)
    (notQueued : ∀ key, thread ∉ queues key) (isLocked : state.wake = .locked thread) :
    ∃ scheduler, state.scheduler.schedRefile thread = .ok scheduler ∧
      Handshake thread queue queues ring
        { state with scheduler := scheduler, wake := .refiled } := by
  have noQueue := handshake.cleared (by rw [isLocked]; trivial)
  have isHeld := handshake.wakerHolds
  have notHeld : ¬state.switch.Holds :=
    fun held => handshake.exclusive held (by rw [isLocked]; trivial)
  rw [isLocked] at isHeld
  rcases handshake.filed with ⟨spot, isSpot, filed⟩
  rcases SwitchPc.eq_of_not_holds notHeld with isSwitch | isSwitch
  · have running := handshake.preempted.mpr (Or.inl isSwitch)
    rw [isSwitch] at isSpot
    refine ⟨_, if_neg (not_not.mpr running), ⟨spot, ?_, filed⟩, ?_, ?_, handshake.isRing,
      fun _ => noQueue, handshake.preempted, handshake.notIdle, handshake.onCpu,
      handshake.switcherHolds, isHeld⟩
    · rw [isSwitch]
      exact isSpot
    · rintro ⟨⟩
    · rintro _ ⟨⟩
  · have preempted : (state.scheduler.threads thread).tStateflags &&& threadSfPreempt ≠ 0 := by
      rw [Ne, handshake.preempted, isSwitch]
      simp
    rw [isSwitch] at isSpot
    have isSome : ∃ key, spot = some key := by
      rcases isSpot with isSpot | ⟨isSpot, _⟩
      · exact ⟨_, isSpot⟩
      · exact ⟨_, isSpot⟩
    rcases isSome with ⟨key, rfl⟩
    rcases refile_placed filed notQueued handshake.notIdle preempted with
      ⟨heap, decay, refiled, filedAfter⟩
    have isPlace : filedOn (state.scheduler.threads thread) = some ring := by
      rw [← handshake.isRing]
      simp [filedOn, ringOf, noQueue]
    rw [isPlace] at filedAfter
    refine ⟨_, refiled, ⟨some (some ring), ?_, filedAfter⟩, ?_, ?_, handshake.isRing,
      fun _ => noQueue, handshake.preempted, handshake.notIdle, handshake.onCpu,
      handshake.switcherHolds, isHeld⟩
    · rw [isSwitch]
      exact Or.inl rfl
    · rintro ⟨⟩
    · rintro _ ⟨⟩

omit [DecidableEq Tid] in
theorem Spot.mono {switch : SwitchPc} {wake wakeNext : WakePc Tid}
    {spot : Option (Option (Fin schedNrqs))} (isSpot : Spot ring switch wake spot)
    (pending : wake.Pending → wakeNext.Pending) : Spot ring switch wakeNext spot := by
  cases switch with
  | before => exact isSpot
  | locked => exact isSpot
  | preempted => exact isSpot
  | tested suspended => exact ⟨isSpot.1, fun isSuspended => pending (isSpot.2 isSuspended)⟩
  | filed => exact isSpot.imp_right fun blocked => ⟨blocked.1, pending blocked.2⟩
  | done => exact isSpot.imp_right fun blocked => ⟨blocked.1, pending blocked.2⟩

theorem or_preempt_and_preempt (flags : BitVec 32) :
    (flags ||| threadSfPreempt) &&& threadSfPreempt ≠ 0 := by
  rw [BitVec.setFlag_and_self]
  decide

omit [DecidableEq Wq] in
/-- The waker marks its own thread only. -/
theorem Handshake.orderedApply (handshake : Handshake thread queue queues ring state)
    (different : myself ≠ thread) (applial : BitVec 32 → BitVec 32) :
    Handshake thread queue queues ring
      { state with scheduler := state.scheduler.orderedApply myself applial } := by
  have same : (state.scheduler.orderedApply myself applial).threads thread =
      state.scheduler.threads thread := Function.update_of_ne different.symm ..
  rcases handshake.filed with ⟨spot, isSpot, filed⟩
  refine ⟨⟨spot, isSpot, filed.congr rfl⟩, handshake.waits, handshake.woken, ?_, ?_, ?_,
    handshake.notIdle, ?_, handshake.switcherHolds, handshake.wakerHolds⟩
  · rw [same]
    exact handshake.isRing
  · rw [same]
    exact handshake.cleared
  · rw [same]
    exact handshake.preempted
  · rw [same]
    exact handshake.onCpu

/-- The steps of `sched_preempt`. -/
theorem Handshake.step_switcher (handshake : Handshake thread queue queues ring state)
    (notQueued : ∀ key, thread ∉ queues key)
    (step : Step thread myself queue state .switcher next) :
    Handshake thread queue queues ring next := by
  rcases handshake.filed with ⟨spot, isSpot, filed⟩
  have isPreempted := handshake.preempted
  have isHeld := handshake.switcherHolds
  cases step with
  | lock isBefore free =>
      rw [isBefore] at isSpot isPreempted
      have notHeld := handshake.wakerHolds
      rw [free] at notHeld
      refine ⟨⟨spot, isSpot, filed⟩, handshake.waits, handshake.woken, handshake.isRing,
        handshake.cleared, ?_, handshake.notIdle, handshake.onCpu, iff_of_true rfl trivial, ?_⟩
      · simpa using isPreempted
      · simpa using notHeld
  | preempt isLocked =>
      rw [isLocked] at isSpot isHeld
      refine ⟨⟨spot, isSpot, filed.congr rfl⟩, handshake.waits, handshake.woken, ?_, ?_, ?_,
        handshake.notIdle, ?_, isHeld, handshake.wakerHolds⟩
      · simpa [Scheduler.modifyThread, runRing] using handshake.isRing
      · simpa [Scheduler.modifyThread] using handshake.cleared
      · simpa [Scheduler.modifyThread] using or_preempt_and_preempt _
      · simpa [Scheduler.modifyThread] using handshake.onCpu
  | skip _ isIdle => exact absurd isIdle handshake.notIdle
  | test isTested _ =>
      rw [isTested] at isSpot isPreempted isHeld
      refine ⟨⟨spot, ⟨isSpot, ?_⟩, filed⟩, handshake.waits, handshake.woken, handshake.isRing,
        handshake.cleared, ?_, handshake.notIdle, handshake.onCpu, isHeld, handshake.wakerHolds⟩
      · intro isSuspended
        by_contra notPending
        have noQueue := handshake.cleared (WakePc.cleared_of_not_pending notPending)
        rw [schedIsSuspended_of_tWaitQueue_none noQueue] at isSuspended
        cases isSuspended
      · simpa using isPreempted
  | file isTested filedThere =>
      rcases handshake.schedFile notQueued isTested with ⟨scheduler, ok, kept⟩
      rw [ok] at filedThere
      cases filedThere
      exact kept
  | unlock isFiled =>
      have notHeld := handshake.exclusive (by rw [isFiled]; trivial)
      rw [isFiled] at isSpot isPreempted
      refine ⟨⟨spot, isSpot, filed⟩, handshake.waits, handshake.woken, handshake.isRing,
        handshake.cleared, ?_, handshake.notIdle, handshake.onCpu, ?_, ?_⟩
      · simpa using isPreempted
      · simp [SwitchPc.Holds]
      · simpa using notHeld

/-- The steps of the waker. -/
theorem Handshake.step_waker (handshake : Handshake thread queue queues ring state)
    (notQueued : ∀ key, thread ∉ queues key) (different : myself ≠ thread)
    (step : Step thread myself queue state .waker next) :
    Handshake thread queue queues ring next := by
  rcases handshake.filed with ⟨spot, isSpot, filed⟩
  have isHeld := handshake.wakerHolds
  cases step with
  | nobody isBefore empty =>
      rcases filed.waitqueueUnlink (handshake.waits isBefore) with ⟨heap, unlinked, _⟩
      rw [unlinked] at empty
      cases empty
  | unlink isBefore unlinkedThere =>
      rcases filed.waitqueueUnlink (handshake.waits isBefore) with ⟨heap, unlinked, filedAfter⟩
      rw [unlinked] at unlinkedThere
      cases unlinkedThere
      rw [isBefore] at isHeld
      refine ⟨⟨spot, isSpot.mono fun _ => trivial, filedAfter⟩, ?_, ?_, handshake.isRing, ?_,
        handshake.preempted, handshake.notIdle, handshake.onCpu, handshake.switcherHolds, isHeld⟩
      · rintro ⟨⟩
      · rintro _ ⟨⟩
        rfl
      · exact False.elim
  | clear isUnlinked =>
      have isThread := handshake.woken _ (by rw [isUnlinked]; rfl)
      subst isThread
      rw [isUnlinked] at isHeld
      refine ⟨⟨spot, isSpot.mono fun _ => trivial, filed.congr rfl⟩, ?_, ?_, ?_, ?_, ?_,
        handshake.notIdle, ?_, handshake.switcherHolds, isHeld⟩
      · rintro ⟨⟩
      · rintro _ ⟨⟩
        rfl
      · simpa [Scheduler.modifyThread, runRing] using handshake.isRing
      · simp [Scheduler.modifyThread]
      · simpa [Scheduler.modifyThread] using handshake.preempted
      · simpa [Scheduler.modifyThread] using handshake.onCpu
  | leave isCleared nowhere =>
      have isThread := handshake.woken _ (by rw [isCleared]; rfl)
      subst isThread
      exact absurd nowhere handshake.onCpu
  | mark isCleared _ =>
      have kept := handshake.orderedApply different (· ||| threadSfLockSched)
      have isThread := handshake.woken _ (by rw [isCleared]; rfl)
      have noQueue := kept.cleared (by simp only [isCleared]; trivial)
      rw [isCleared] at isHeld
      refine ⟨⟨spot, isSpot.mono fun _ => trivial, filed.congr rfl⟩, ?_, ?_, kept.isRing,
        fun _ => noQueue, kept.preempted, kept.notIdle, kept.onCpu, kept.switcherHolds, isHeld⟩
      · rintro ⟨⟩
      · rintro _ ⟨⟩
        exact isThread
  | acquire isMarked free =>
      have noQueue := handshake.cleared (by rw [isMarked]; trivial)
      have isThread := handshake.woken _ (by rw [isMarked]; rfl)
      have notHeld := handshake.switcherHolds
      rw [free] at notHeld
      refine ⟨⟨spot, isSpot.mono fun _ => trivial, filed⟩, ?_, ?_, handshake.isRing,
        fun _ => noQueue, handshake.preempted, handshake.notIdle, handshake.onCpu, ?_,
        iff_of_true rfl trivial⟩
      · rintro ⟨⟩
      · rintro _ ⟨⟩
        exact isThread
      · simpa using notHeld
  | refile isLocked refiledThere =>
      have isThread := handshake.woken _ (by rw [isLocked]; rfl)
      subst isThread
      rcases handshake.schedRefile notQueued isLocked with ⟨scheduler, ok, kept⟩
      rw [ok] at refiledThere
      cases refiledThere
      exact kept
  | release isRefiled =>
      have noQueue := handshake.cleared (by rw [isRefiled]; trivial)
      have notHeld : ¬state.switch.Holds :=
        fun held => handshake.exclusive held (by rw [isRefiled]; trivial)
      rw [isRefiled] at isSpot
      refine ⟨⟨spot, isSpot.mono id, filed⟩, ?_, ?_, handshake.isRing, fun _ => noQueue,
        handshake.preempted, handshake.notIdle, handshake.onCpu, ?_, ?_⟩
      · rintro ⟨⟩
      · rintro _ ⟨⟩
      · simpa using notHeld
      · simp [WakePc.Holds]
  | unmark isReleased =>
      have kept := handshake.orderedApply different (· &&& ~~~threadSfLockSched)
      have noQueue := kept.cleared (by simp only [isReleased]; trivial)
      rw [isReleased] at isSpot isHeld
      refine ⟨⟨spot, isSpot.mono id, filed.congr rfl⟩, ?_, ?_, kept.isRing, fun _ => noQueue,
        kept.preempted, kept.notIdle, kept.onCpu, kept.switcherHolds, isHeld⟩
      · rintro ⟨⟩
      · rintro _ ⟨⟩

end Steps

section Runs

variable {Tid Wq : Type} [DecidableEq Tid] [DecidableEq Wq] {thread myself : Tid} {queue : Wq}
  {queues : Option (Fin schedNrqs) → List Tid} {ring : Fin schedNrqs}
  {start state next : WakeState Tid Wq}

/-- Both critical sections are over. -/
def Done (state : WakeState Tid Wq) : Prop :=
  state.switch = .done ∧ state.wake = .done

/-- The thread is on its run ring, once and on no other ring, and all other threads are where
they were. -/
def Woken (thread : Tid) (queues : Option (Fin schedNrqs) → List Tid)
    (state : WakeState Tid Wq) : Prop :=
  (∀ key, thread ∉ queues key) ∧
    Scheduler.Filed id state.scheduler
      (Function.update queues (some (runRing (state.scheduler.threads thread)))
        (thread :: queues (some (runRing (state.scheduler.threads thread)))))

omit [DecidableEq Wq] in
theorem Handshake.woken_of_done (handshake : Handshake thread queue queues ring state)
    (notQueued : ∀ key, thread ∉ queues key) (done : state.Done) : state.Woken thread queues := by
  rcases handshake.filed with ⟨spot, isSpot, filed⟩
  rcases done with ⟨isSwitch, isWake⟩
  rw [isSwitch, isWake] at isSpot
  refine ⟨notQueued, ?_⟩
  rw [handshake.isRing]
  rcases isSpot with rfl | ⟨_, pending⟩
  · exact filed
  · exact pending.elim

/-- The waker goes on, unless it waits for the lock. -/
theorem Handshake.waker_steps (handshake : Handshake thread queue queues ring state)
    (notQueued : ∀ key, thread ∉ queues key) (myself : Tid) (notDone : state.wake ≠ .done)
    (free : ∀ woken, state.wake = .marked woken → state.schedLock = none) :
    ∃ next, Step thread myself queue state .waker next := by
  cases isWake : state.wake with
  | before =>
      rcases handshake.filed with ⟨spot, _, filed⟩
      rcases filed.waitqueueUnlink (handshake.waits isWake) with ⟨heap, unlinked, _⟩
      exact ⟨_, .unlink isWake unlinked⟩
  | unlinked woken => exact ⟨_, .clear isWake⟩
  | cleared woken =>
      have isThread := handshake.woken woken (by rw [isWake]; rfl)
      subst isThread
      exact ⟨_, .mark isWake handshake.onCpu⟩
  | marked woken => exact ⟨_, .acquire isWake (free woken isWake)⟩
  | locked woken =>
      have isThread := handshake.woken woken (by rw [isWake]; rfl)
      subst isThread
      rcases handshake.schedRefile notQueued isWake with ⟨scheduler, ok, _⟩
      exact ⟨_, .refile isWake ok⟩
  | refiled => exact ⟨_, .release isWake⟩
  | released => exact ⟨_, .unmark isWake⟩
  | done => exact absurd isWake notDone

omit [DecidableEq Wq] in
theorem Handshake.not_switcher_at_end (handshake : Handshake thread queue queues ring state)
    (atEnd : state.switch = .before ∨ state.switch = .done) :
    state.schedLock ≠ some .switcher := by
  intro isLock
  have held := handshake.switcherHolds.mp isLock
  rcases atEnd with isSwitch | isSwitch
  · rw [isSwitch] at held
    exact held
  · rw [isSwitch] at held
    exact held

omit [DecidableEq Wq] in
theorem Handshake.not_waker_of_marked (handshake : Handshake thread queue queues ring state)
    {woken : Tid} (isMarked : state.wake = .marked woken) : state.schedLock ≠ some .waker := by
  intro isLock
  have held := handshake.wakerHolds.mp isLock
  rw [isMarked] at held
  exact held

/-- Nobody waits for a lock that is never released, and no link that is followed is null. -/
theorem Handshake.progress (handshake : Handshake thread queue queues ring state)
    (notQueued : ∀ key, thread ∉ queues key) (myself : Tid) :
    state.Done ∨ ∃ party next, Step thread myself queue state party next := by
  have byWaker : (∃ next, Step thread myself queue state .waker next) →
      ∃ party next, Step thread myself queue state party next :=
    fun ⟨next, step⟩ => ⟨.waker, next, step⟩
  cases isSwitch : state.switch with
  | before =>
      right
      cases isLock : state.schedLock with
      | none => exact ⟨_, _, .lock isSwitch isLock⟩
      | some party =>
          cases party with
          | switcher => exact absurd isLock (handshake.not_switcher_at_end (Or.inl isSwitch))
          | waker =>
              have held := handshake.wakerHolds.mp isLock
              apply byWaker
              apply handshake.waker_steps notQueued myself
              · intro isDone
                rw [isDone] at held
                exact held
              · intro woken isMarked
                exact absurd isLock (handshake.not_waker_of_marked isMarked)
  | locked => exact Or.inr ⟨_, _, .preempt isSwitch⟩
  | preempted => exact Or.inr ⟨_, _, .test isSwitch handshake.notIdle⟩
  | tested suspended =>
      rcases handshake.schedFile notQueued isSwitch with ⟨scheduler, ok, _⟩
      exact Or.inr ⟨_, _, .file isSwitch ok⟩
  | filed => exact Or.inr ⟨_, _, .unlock isSwitch⟩
  | done =>
      by_cases isDone : state.wake = .done
      · exact Or.inl ⟨isSwitch, isDone⟩
      · right
        apply byWaker
        apply handshake.waker_steps notQueued myself isDone
        intro woken isMarked
        cases isLock : state.schedLock with
        | none => rfl
        | some party =>
            cases party with
            | switcher => exact absurd isLock (handshake.not_switcher_at_end (Or.inr isSwitch))
            | waker => exact absurd isLock (handshake.not_waker_of_marked isMarked)

theorem Ready.handshake_of_reachable (ready : Ready thread myself queue queues start)
    (reachable : (system thread myself queue start).Reachable state) :
    Handshake thread queue queues (runRing (start.scheduler.threads thread)) state := by
  apply reachable.invariant
  · rintro _ rfl
    exact ready.handshake
  · intro state party next handshake step
    cases party with
    | switcher => exact handshake.step_switcher ready.notQueued step
    | waker => exact handshake.step_waker ready.notQueued ready.different step

/-- How far the two have come. -/
def rank (state : WakeState Tid Wq) : ℕ :=
  state.switch.rank + state.wake.rank

omit [DecidableEq Tid] [DecidableEq Wq] in
theorem rank_le (state : WakeState Tid Wq) : state.rank ≤ 12 := by
  have switchRank := state.switch.rank_le
  have wakeRank := state.wake.rank_le
  rw [rank]
  omega

theorem Step.rank_lt {party : Party} (step : Step thread myself queue state party next) :
    state.rank < next.rank := by
  cases step <;> simp only [rank, SwitchPc.rank, WakePc.rank, *] <;> omega

/-- Both get to their end. -/
theorem Ready.exists_done (ready : Ready thread myself queue queues start)
    (reachable : (system thread myself queue start).Reachable state) :
    ∃ final, (system thread myself queue start).Leads state final ∧ final.Done := by
  have bounded := rank_le state
  obtain ⟨left, isLeft⟩ : ∃ left, left = 12 - state.rank := ⟨_, rfl⟩
  induction left using Nat.strong_induction_on generalizing state with
  | _ left ih =>
      have handshake := ready.handshake_of_reachable reachable
      rcases handshake.progress ready.notQueued myself with done | ⟨party, next, step⟩
      · exact ⟨state, Relation.ReflTransGen.refl, done⟩
      · have further := step.rank_lt
        have bound := rank_le next
        rcases ih (12 - next.rank) (by omega) (reachable.step step) bound rfl with
          ⟨final, leads, done⟩
        exact ⟨final, Relation.ReflTransGen.head ⟨party, step⟩ leads, done⟩

/-- The thread is woken at the end of every interleaving, and every interleaving gets there. -/
theorem woken_of_interleaving (ready : Ready thread myself queue queues start)
    (reachable : (system thread myself queue start).Reachable state) :
    (state.Done → state.Woken thread queues) ∧
      ∃ final, (system thread myself queue start).Leads state final ∧ final.Done := by
  refine ⟨?_, ready.exists_done reachable⟩
  exact (ready.handshake_of_reachable reachable).woken_of_done ready.notQueued

end Runs

/-- The thread `true` waits on the only queue, and the rings of the scheduler are empty. -/
def lastWaiter : WakeState Bool Unit where
  scheduler :=
    { heap
        | .wqThreads _ => ⟨some (.tWaitEntry true), some (.tWaitEntry true), none⟩
        | .tWaitEntry thread => ⟨some (.wqThreads ()), some (.wqThreads ()), some thread⟩
        | addr => ⟨some addr, some addr, none⟩
      threads _ := { threadTemplate Unit with
        tCurrentCpu := some 0, tStateflags := threadSfQueueWait, tWaitQueue := some () }
      schedRunDecay := schedPrios
      schedIdle := none
      schedThreadCount := 2 }
  schedLock := none
  switch := .before
  wake := .before

theorem lastWaiter_ready : Ready true false () (fun _ => []) lastWaiter := by
  refine ⟨?_, ⟨⟨[], ⟨⟨rfl, rfl⟩, ⟨rfl, rfl⟩⟩, by simp⟩, rfl⟩,
    by simp, by simp [lastWaiter], by simp [lastWaiter, threadSfQueueWait], rfl, by rfl,
    by simp [lastWaiter], by decide, rfl, rfl, rfl⟩
  apply Scheduler.filed_of_empty Function.injective_id
  · intro key
    cases key <;> exact ⟨⟨rfl, rfl⟩, by simp⟩
  · exact fun _ => rfl

theorem lastWaiter_woken : Ready true false () (fun _ => []) lastWaiter ∧
    ∃ final, (system true false () lastWaiter).Reachable final ∧ final.Done ∧
      final.Woken true fun _ => [] := by
  have start : (system true false () lastWaiter).Reachable lastWaiter := .init rfl
  rcases (woken_of_interleaving lastWaiter_ready start).2 with ⟨final, leads, done⟩
  have reached := start.leads leads
  exact ⟨lastWaiter_ready, final, reached, done,
    (woken_of_interleaving lastWaiter_ready reached).1 done⟩

end WakeState

end Rkernel
