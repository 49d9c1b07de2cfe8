import Rkernel.Kern.SchedWake
import Rkernel.Utils.ListNode

/-!
# The order of wait queues

`waitqueue_enter` with `after` set puts a thread behind the head of the queue's ring, otherwise
in front of it; `waitqueue_get_first` takes the thread in front of the head. Read against the
direction of `next`, the ring is a line with two entrances: threads entered with `after` clear
stand in front of all others, the latest first, and the others queue up behind them.

The runs consist of the two functions, on any number of wait queues, and of whatever else
happens to threads and to the rings of the scheduler, in any order. `waitqueue_get_first` refiles
the thread that it takes, which needs the rings of the scheduler to be well formed.
-/

namespace Rkernel

universe u

/-- The threads that wait on a queue: those entered with `after` clear, the latest first, and
those entered with `after` set in the order of their arrival. -/
structure WaitLine (Tid : Type) where
  urgent : List Tid
  patient : List Tid

namespace WaitLine

variable {Tid : Type}

def empty : WaitLine Tid := ⟨[], []⟩

def threads (line : WaitLine Tid) : List Tid := line.urgent ++ line.patient

def enter (line : WaitLine Tid) (thread : Tid) (after : Bool) : WaitLine Tid :=
  if after then { line with patient := line.patient ++ [thread] }
  else { line with urgent := thread :: line.urgent }

/-- The thread that is served next, and the line behind it. -/
def takeFirst : WaitLine Tid → Option (Tid × WaitLine Tid)
  | ⟨thread :: urgent, patient⟩ => some (thread, ⟨urgent, patient⟩)
  | ⟨[], thread :: patient⟩ => some (thread, ⟨[], patient⟩)
  | ⟨[], []⟩ => none

theorem threads_enter (line : WaitLine Tid) (thread : Tid) (after : Bool) :
    (line.enter thread after).threads =
      if after then line.threads ++ [thread] else thread :: line.threads := by
  cases after <;> simp [enter, threads]

theorem threads_of_takeFirst {line rest : WaitLine Tid} {thread : Tid}
    (taken : line.takeFirst = some (thread, rest)) : line.threads = thread :: rest.threads := by
  rcases line with ⟨_ | ⟨first, urgent⟩, _ | ⟨second, patient⟩⟩ <;>
    simp only [takeFirst, Option.some.injEq, Prod.mk.injEq, reduceCtorEq] at taken
  all_goals
    rcases taken with ⟨rfl, rfl⟩
    rfl

theorem threads_of_takeFirst_none {line : WaitLine Tid} (nobody : line.takeFirst = none) :
    line.threads = [] := by
  rcases line with ⟨_ | ⟨first, urgent⟩, _ | ⟨second, patient⟩⟩
  · rfl
  all_goals simp [takeFirst] at nobody

end WaitLine

/-- A node of a wait queue. -/
def RingAddr.IsWait {Tid Wq : Type} : RingAddr Tid Wq → Prop
  | wqThreads _ | tWaitEntry _ => True
  | schedRunRing _ | schedBlocked | tQueueEntry _ => False

section Rings

variable {Tid Wq : Type}

/-- The rings of the wait queues are their lines, from the last thread to the first. -/
structure Lined (heap : RingHeap (RingAddr Tid Wq) Tid) (lines : Wq → WaitLine Tid) : Prop where
  rings : heap.Rings RingAddr.wqThreads
    fun queue => (lines queue).threads.reverse.map RingAddr.tWaitEntry
  entryData : ∀ queue, ∀ thread ∈ (lines queue).threads,
    (heap (.tWaitEntry thread)).data = some thread

variable {heap other : RingHeap (RingAddr Tid Wq) Tid} {lines : Wq → WaitLine Tid} {queue : Wq}
  {thread : Tid}

theorem Lined.congr (lined : Lined heap lines)
    (same : ∀ addr : RingAddr Tid Wq, addr.IsWait → other addr = heap addr) :
    Lined other lines := by
  refine ⟨⟨?_, lined.rings.disjoint⟩, ?_⟩
  · intro queue
    have onRing : ∀ addr ∈ RingAddr.wqThreads queue ::
        (lines queue).threads.reverse.map RingAddr.tWaitEntry, other addr = heap addr := by
      intro addr addrMem
      rcases List.mem_cons.mp addrMem with rfl | inLine
      · exact same _ trivial
      · rcases List.mem_map.mp inLine with ⟨waiting, _, rfl⟩
        exact same _ trivial
    apply (lined.rings.isRing queue).congr
    · exact fun addr addrMem => by rw [onRing addr addrMem]
    · exact fun addr addrMem => by rw [onRing addr addrMem]
  · intro queue waiting waits
    rw [same (.tWaitEntry waiting) trivial]
    exact lined.entryData queue waiting waits

theorem lined_update [DecidableEq Wq] (line : WaitLine Tid) :
    (fun other => (Function.update lines queue line other).threads.reverse.map
        (@RingAddr.tWaitEntry Tid Wq)) =
      Function.update (fun other => (lines other).threads.reverse.map RingAddr.tWaitEntry) queue
        (line.threads.reverse.map RingAddr.tWaitEntry) := by
  funext other
  exact Function.apply_update
    (fun _ line => (WaitLine.threads line).reverse.map (@RingAddr.tWaitEntry Tid Wq)) lines queue
    line other

variable [DecidableEq Tid] [DecidableEq Wq]

/-- `waitqueue_enter` of an unlinked thread. -/
theorem Lined.enter (lined : Lined heap lines) (unlinked : ∀ other, thread ∉ (lines other).threads)
    (queue : Wq) (after : Bool) :
    ∃ next, waitqueueEnter heap queue thread after = some next ∧
      Lined next (Function.update lines queue ((lines queue).enter thread after)) ∧
      ∀ addr, ¬addr.IsWait → next addr = heap addr := by
  have prepared := lined.rings.setData (.tWaitEntry thread) thread
  have fresh : ∀ other, RingAddr.tWaitEntry thread ∉ RingAddr.wqThreads other ::
      (lines other).threads.reverse.map RingAddr.tWaitEntry := by
    intro other
    simpa using unlinked other
  rcases linkedRingInsert_rings prepared queue fresh after with ⟨next, inserted, rings⟩
  have sameData := linkedRingInsert_data inserted
  refine ⟨next, inserted, ⟨?_, ?_⟩, ?_⟩
  · rw [lined_update, WaitLine.threads_enter]
    cases after with
    | true => simpa using rings
    | false => simpa using rings
  · intro other waiting waits
    rw [sameData, RingHeap.setData_data]
    by_cases same : waiting = thread
    · subst same
      exact if_pos rfl
    · rw [if_neg (by simpa using same)]
      by_cases here : other = queue
      · subst other
        apply lined.entryData queue waiting
        rw [Function.update_self, WaitLine.threads_enter] at waits
        cases after <;> simpa [same] using waits
      · rw [Function.update_of_ne here] at waits
        exact lined.entryData other waiting waits
  · intro addr notWait
    have notEntry : addr ≠ .tWaitEntry thread := by
      rintro rfl
      exact notWait trivial
    have notMem : addr ∉ RingAddr.wqThreads queue ::
        (lines queue).threads.reverse.map RingAddr.tWaitEntry := by
      intro addrMem
      rcases List.mem_cons.mp addrMem with rfl | inLine
      · exact notWait trivial
      · rcases List.mem_map.mp inLine with ⟨waiting, _, rfl⟩
        exact notWait trivial
    rw [linkedRingInsert_frame (prepared.isRing queue) notEntry notMem inserted]
    simp [RingHeap.setData, notEntry]

/-- `waitqueue_get_first` finds nobody on an empty line. -/
theorem Lined.unlink_none (lined : Lined heap lines)
    (nobody : (lines queue).takeFirst = none) : waitqueueUnlink heap queue = some none := by
  have prev := (lined.rings.isRing queue).prev_head
  rw [WaitLine.threads_of_takeFirst_none nobody] at prev
  simp only [List.reverse_nil, List.map_nil, List.getLastD_nil] at prev
  simp [waitqueueUnlink, prev]

/-- `waitqueue_get_first` takes the first thread of the line. -/
theorem Lined.unlink (lined : Lined heap lines) {rest : WaitLine Tid}
    (taken : (lines queue).takeFirst = some (thread, rest)) :
    ∃ next, waitqueueUnlink heap queue = some (some (thread, next)) ∧
      Lined next (Function.update lines queue rest) ∧
      ∀ addr, ¬addr.IsWait → next addr = heap addr := by
  have isLine := WaitLine.threads_of_takeFirst taken
  have split : (lines queue).threads.reverse.map (@RingAddr.tWaitEntry Tid Wq) =
      rest.threads.reverse.map .tWaitEntry ++ .tWaitEntry thread :: [] := by
    rw [isLine, List.reverse_cons, List.map_append]
    rfl
  have ring := lined.rings.isRing queue
  rw [split] at ring
  have prev := ring.prev_head
  rw [List.getLastD_concat] at prev
  have data := lined.entryData queue thread (by rw [isLine]; exact List.mem_cons_self)
  rcases linkedRingRemove_rings lined.rings split with ⟨next, removed, rings⟩
  refine ⟨next, ?_, ⟨?_, ?_⟩, ?_⟩
  · simp [waitqueueUnlink, prev, data, removed]
  · rw [lined_update]
    simpa using rings
  · intro other waiting waits
    rw [linkedRingRemove_data removed]
    apply lined.entryData other waiting
    by_cases here : other = queue
    · subst other
      rw [Function.update_self] at waits
      rw [isLine]
      exact List.mem_cons_of_mem _ waits
    · rwa [Function.update_of_ne here] at waits
  · intro addr notWait
    apply linkedRingRemove_frame ring _ removed
    rw [List.append_nil]
    intro addrMem
    rcases List.mem_cons.mp addrMem with rfl | inLine
    · exact notWait trivial
    · rcases List.mem_map.mp inLine with ⟨waiting, _, rfl⟩
      exact notWait trivial

end Rings

namespace Scheduler

variable {Tid Wq : Type} [DecidableEq Tid] [DecidableEq Wq]

def waitqueueEnter (queue : Wq) (thread : Tid) (after : Bool) (scheduler : Scheduler Tid Wq) :
    Except SchedFault (Scheduler Tid Wq) := do
  let heap ← deref (Rkernel.waitqueueEnter scheduler.heap queue thread after)
  return { scheduler with heap := heap }

/-- `waitqueue_get_first`, called by `myself`. -/
def waitqueueGetFirst (myself : Tid) (queue : Wq) (scheduler : Scheduler Tid Wq) :
    Except SchedFault (ℤ × Scheduler Tid Wq) := do
  match ← deref (waitqueueUnlink scheduler.heap queue) with
  | none => return (0, scheduler)
  | some (thread, heap) =>
      let scheduler := { scheduler with heap := heap }.modifyThread thread fun thread =>
        { thread with tWaitQueue := none }
      let scheduler ← scheduler.schedActualize myself thread
      return (1, scheduler)

/-- A thread that `sched_actualize` takes off its ring. -/
def Preempted (scheduler : Scheduler Tid Wq) (thread : Tid) : Prop :=
  (scheduler.threads thread).tCurrentCpu ≠ none ∧
    (scheduler.threads thread).tStateflags &&& threadSfPreempt ≠ 0

/-- The rings of the scheduler are well formed and hold every preempted thread; the idle thread
has never been inserted, so that `sched_actualize` leaves it alone. -/
structure Orderly {Key : Type} (place : Key → Option (Fin schedNrqs))
    (scheduler : Scheduler Tid Wq) : Prop where
  queued : ∃ queues, Filed place scheduler queues ∧
    ∀ thread, scheduler.Preempted thread → ∃ key, thread ∈ queues key
  idle : ∀ thread, scheduler.schedIdle = some thread →
    (scheduler.threads thread).tCurrentCpu = none

section Orderly

variable {Key : Type} {place : Key → Option (Fin schedNrqs)} {lines : Wq → WaitLine Tid}
  {scheduler next : Scheduler Tid Wq} {thread : Tid}

omit [DecidableEq Tid] [DecidableEq Wq] in
theorem isWait_head (key : Option (Fin schedNrqs)) :
    ¬(RunQueues.head Tid Wq key).IsWait := by
  cases key <;> exact id

omit [DecidableEq Tid] [DecidableEq Wq] in
/-- What happens to the nodes of the wait queues is no matter to the scheduler. -/
theorem Orderly.congr (orderly : Orderly place scheduler)
    (sameNode : ∀ addr : RingAddr Tid Wq, ¬addr.IsWait → next.heap addr = scheduler.heap addr)
    (samePreempted : ∀ thread, next.Preempted thread → scheduler.Preempted thread)
    (sameIdle : next.schedIdle = scheduler.schedIdle)
    (sameCpu : ∀ thread, (next.threads thread).tCurrentCpu =
      (scheduler.threads thread).tCurrentCpu) : Orderly place next := by
  rcases orderly.queued with ⟨queues, filed, queued⟩
  refine ⟨⟨queues, ?_, ?_⟩, ?_⟩
  · apply filed.congr_on
    · exact fun key => sameNode _ (isWait_head key)
    · exact fun thread => sameNode (.tQueueEntry thread) id
  · exact fun thread preempted => queued thread (samePreempted thread preempted)
  · intro thread isIdle
    rw [sameCpu]
    exact orderly.idle thread (sameIdle ▸ isIdle)

omit [DecidableEq Wq] in
theorem preempted_modifyThread {change : Thread Wq → Thread Wq} (changedThread : Tid)
    (sameCpu : ∀ thread, (change thread).tCurrentCpu = thread.tCurrentCpu)
    (sameFlag : ∀ thread, (change thread).tStateflags &&& threadSfPreempt =
      thread.tStateflags &&& threadSfPreempt) (thread : Tid) :
    (scheduler.modifyThread changedThread change).Preempted thread ↔
      scheduler.Preempted thread := by
  by_cases same : thread = changedThread
  · subst same
    simp only [Preempted, modifyThread, Function.update_self, sameCpu, sameFlag]
  · simp only [Preempted, modifyThread, Function.update_of_ne same]

omit [DecidableEq Tid] [DecidableEq Wq] in
theorem Untouched.sameWait {queues : Key → List Tid} {heap other : RingHeap (RingAddr Tid Wq) Tid}
    (untouched : Untouched place queues thread heap other) (addr : RingAddr Tid Wq)
    (isWait : addr.IsWait) : other addr = heap addr := by
  apply untouched addr
  · rintro rfl
    exact isWait
  · intro key addrMem
    rcases List.mem_cons.mp addrMem with rfl | inQueue
    · exact isWait_head _ isWait
    · rcases List.mem_map.mp inQueue with ⟨queued, _, rfl⟩
      exact isWait

/-- `sched_actualize` under the lock, of a thread that is not suspended. -/
theorem Orderly.schedRefile (orderly : Orderly place scheduler)
    (covers : ∀ i, ∃ key, place key = some i)
    (onCpu : (scheduler.threads thread).tCurrentCpu ≠ none)
    (awake : (scheduler.threads thread).tWaitQueue = none) :
    ∃ next, scheduler.schedRefile thread = .ok next ∧ Orderly place next ∧
      next.threads = scheduler.threads ∧
      ∀ addr, addr.IsWait → next.heap addr = scheduler.heap addr := by
  classical
  have notIdle : scheduler.schedIdle ≠ some thread := fun isIdle =>
    onCpu (orderly.idle thread isIdle)
  rw [Scheduler.schedRefile]
  split
  · rename_i flagged
    rcases orderly.queued with ⟨queues, filed, queued⟩
    rcases queued thread ⟨onCpu, flagged⟩ with ⟨key, inQueue⟩
    rcases List.append_of_mem inQueue with ⟨front, back, split⟩
    rcases filed.linkedRingRemove split with ⟨heap, removed, filedRemoved, untouchedRemoved⟩
    have others := filed.mem_removed split
    have suspended := schedIsSuspended_of_tWaitQueue_none awake
    rcases covers (runRing (scheduler.threads thread)) with ⟨target, isTarget⟩
    have isPlace : place target = filedOn (scheduler.threads thread) := by
      rw [isTarget, filedOn, suspended]
      rfl
    have notQueued : ∀ other, thread ∉ Function.update queues key (front ++ back) other :=
      fun other inOther => ((others other thread).mp inOther).1 rfl
    rcases filedRemoved.schedReenqueue notIdle isPlace notQueued with
      ⟨filedHeap, decay, reenqueued, filedAgain, untouchedFiled⟩
    refine ⟨_, ?_, ⟨⟨_, filedAgain, ?_⟩, orderly.idle⟩, rfl, ?_⟩
    · rw [removed]
      exact reenqueued
    · intro other preempted
      by_cases same : other = thread
      · subst same
        exact ⟨target, by rw [Function.update_self, mem_enqueue]; exact Or.inl rfl⟩
      · rcases queued other preempted with ⟨there, inThere⟩
        have kept := (others there other).mpr ⟨same, inThere⟩
        refine ⟨there, ?_⟩
        by_cases isThere : there = target
        · subst isThere
          rw [Function.update_self, mem_enqueue]
          exact Or.inr kept
        · rw [Function.update_of_ne isThere]
          exact kept
    · intro addr isWait
      exact (untouchedFiled.sameWait addr isWait).trans (untouchedRemoved.sameWait addr isWait)
  · exact ⟨scheduler, rfl, orderly, rfl, fun _ _ => rfl⟩

/-- `sched_actualize` of a thread that is not suspended. -/
theorem Orderly.schedActualize (orderly : Orderly place scheduler)
    (covers : ∀ i, ∃ key, place key = some i)
    (awake : (scheduler.threads thread).tWaitQueue = none) (myself : Tid) :
    ∃ next, scheduler.schedActualize myself thread = .ok next ∧ Orderly place next ∧
      (∀ other, (next.threads other).tWaitQueue = (scheduler.threads other).tWaitQueue) ∧
      ∀ addr, addr.IsWait → next.heap addr = scheduler.heap addr := by
  by_cases nowhere : (scheduler.threads thread).tCurrentCpu = none
  · refine ⟨scheduler, ?_, orderly, fun _ => rfl, fun _ _ => rfl⟩
    rw [Scheduler.schedActualize, if_pos nowhere]
    rfl
  · have sameQueue (state : Scheduler Tid Wq) (applial : BitVec 32 → BitVec 32) (other : Tid) :
        ((state.orderedApply myself applial).threads other).tWaitQueue =
          (state.threads other).tWaitQueue := by
      by_cases same : other = myself
      · subst same
        simp [orderedApply, modifyThread]
      · simp [orderedApply, modifyThread, same]
    have flags (state : Scheduler Tid Wq) {applial : BitVec 32 → BitVec 32}
        (keeps : ∀ flags, applial flags &&& threadSfPreempt = flags &&& threadSfPreempt)
        (ready : Orderly place state) : Orderly place (state.orderedApply myself applial) := by
      have same := @preempted_modifyThread Tid Wq _ state
        (fun thread => { thread with tStateflags := applial thread.tStateflags }) myself
        (fun _ => rfl) (fun thread => keeps thread.tStateflags)
      exact ready.congr (fun _ _ => rfl) (fun other => (same other).mp) rfl fun _ =>
        orderedApply_tCurrentCpu myself applial
    have marked := flags scheduler (fun flags => BitVec.setFlag_and flags
      (show threadSfLockSched &&& threadSfPreempt = 0 from rfl)) orderly
    have onCpu : ((scheduler.orderedApply myself (· ||| threadSfLockSched)).threads
        thread).tCurrentCpu ≠ none := by
      rw [orderedApply_tCurrentCpu]
      exact nowhere
    rcases marked.schedRefile covers onCpu ((sameQueue _ _ thread).trans awake) with
      ⟨refiled, isRefiled, orderlyRefiled, sameThreads, sameWait⟩
    refine ⟨refiled.orderedApply myself (· &&& ~~~threadSfLockSched), ?_, ?_, ?_, sameWait⟩
    · rw [Scheduler.schedActualize, if_neg nowhere]
      simp only [isRefiled]
      rfl
    · exact flags refiled (fun flags => BitVec.clearFlag_and flags
        (show threadSfLockSched &&& threadSfPreempt = 0 from rfl)) orderlyRefiled
    · intro other
      rw [sameQueue, sameThreads, sameQueue]

/-- `waitqueue_get_first` serves the first thread of the line. -/
structure Serves (place : Key → Option (Fin schedNrqs)) (lines : Wq → WaitLine Tid) (queue : Wq)
    (scheduler : Scheduler Tid Wq) (ret : ℤ) (next : Scheduler Tid Wq) : Prop where
  nobody : (lines queue).takeFirst = none → ret = 0 ∧ next = scheduler
  served : ∀ thread rest, (lines queue).takeFirst = some (thread, rest) → ret = 1 ∧
    Lined next.heap (Function.update lines queue rest) ∧
    Orderly place next ∧
    ∀ other, (next.threads other).tWaitQueue =
      if other = thread then none else (scheduler.threads other).tWaitQueue

theorem Orderly.waitqueueGetFirst (orderly : Orderly place scheduler)
    (lined : Lined scheduler.heap lines) (covers : ∀ i, ∃ key, place key = some i) (myself : Tid)
    (queue : Wq) :
    ∃ ret next, scheduler.waitqueueGetFirst myself queue = .ok (ret, next) ∧
      Serves place lines queue scheduler ret next := by
  cases taken : (lines queue).takeFirst with
  | none =>
      refine ⟨0, scheduler, ?_, fun _ => ⟨rfl, rfl⟩, ?_⟩
      · simp only [Scheduler.waitqueueGetFirst, lined.unlink_none taken]
        rfl
      · intro thread rest isTaken
        rw [taken] at isTaken
        cases isTaken
  | some entry =>
      rcases entry with ⟨thread, rest⟩
      rcases lined.unlink taken with ⟨heap, unlinked, linedRest, sameNode⟩
      generalize isCleared : { scheduler with heap := heap }.modifyThread thread
        (fun thread => { thread with tWaitQueue := none }) = cleared
      have sameHeap : cleared.heap = heap := by rw [← isCleared]; rfl
      have sameIdle : cleared.schedIdle = scheduler.schedIdle := by rw [← isCleared]; rfl
      have waitQueue (other : Tid) : (cleared.threads other).tWaitQueue =
          if other = thread then none else (scheduler.threads other).tWaitQueue := by
        rw [← isCleared]
        by_cases same : other = thread
        · subst same
          simp [modifyThread]
        · simp [modifyThread, same]
      have samePreempted : ∀ other, cleared.Preempted other → scheduler.Preempted other := by
        intro other preempted
        rw [← isCleared] at preempted
        exact (@preempted_modifyThread Tid Wq _ { scheduler with heap := heap }
          (fun thread => { thread with tWaitQueue := none }) thread (fun _ => rfl) (fun _ => rfl)
          other).mp preempted
      have sameCpu (other : Tid) : (cleared.threads other).tCurrentCpu =
          (scheduler.threads other).tCurrentCpu := by
        rw [← isCleared]
        by_cases same : other = thread
        · subst same
          simp [modifyThread]
        · simp [modifyThread, same]
      have orderlyCleared : Orderly place cleared := by
        apply orderly.congr (fun addr notWait => ?_) samePreempted sameIdle sameCpu
        rw [sameHeap]
        exact sameNode addr notWait
      have awake : (cleared.threads thread).tWaitQueue = none := by
        rw [waitQueue, if_pos rfl]
      rcases orderlyCleared.schedActualize covers awake myself with
        ⟨next, actualized, orderlyNext, sameQueue, sameWait⟩
      refine ⟨1, next, ?_, ?_, ?_⟩
      · simp only [Scheduler.waitqueueGetFirst, unlinked, deref, bind, Except.bind, isCleared,
          actualized]
        rfl
      · intro nobody
        rw [taken] at nobody
        cases nobody
      · intro first others isTaken
        rw [taken, Option.some.injEq, Prod.mk.injEq] at isTaken
        rcases isTaken with ⟨rfl, rfl⟩
        refine ⟨rfl, linedRest.congr (fun addr isWait => ?_), orderlyNext, fun other => ?_⟩
        · rw [sameWait addr isWait, sameHeap]
        · rw [sameQueue, waitQueue]

end Orderly

end Scheduler

/-- A scheduler with its wait queues, and the lines as the calls make them. -/
structure WaitOrder (Tid Wq : Type) where
  scheduler : Scheduler Tid Wq
  lines : Wq → WaitLine Tid

/-- The calls that change the order of the waiters; all other steps leave it. -/
inductive WaitOrderLabel (Tid Wq : Type) where
  | enter (queue : Wq) (thread : Tid) (after : Bool)
  | getFirst (myself : Tid) (queue : Wq)
  | other

namespace WaitOrder

variable {Tid Wq Key : Type} [DecidableEq Tid] [DecidableEq Wq]

/-- The line of a queue after `waitqueue_get_first`. -/
def served (lines : Wq → WaitLine Tid) (queue : Wq) : Wq → WaitLine Tid :=
  match (lines queue).takeFirst with
  | none => lines
  | some (_, rest) => Function.update lines queue rest

/-- A thread enters a queue while it is on none, a waker takes a thread off a queue, or something
happens that leaves the nodes of the wait queues alone and the rings of the scheduler in order. -/
inductive Step (place : Key → Option (Fin schedNrqs)) (state : WaitOrder Tid Wq) :
    WaitOrderLabel Tid Wq → WaitOrder Tid Wq → Prop where
  | enter {queue : Wq} {thread : Tid} {after : Bool} {next : Scheduler Tid Wq}
      (unlinked : ∀ other nodes, state.scheduler.heap.IsRing (.wqThreads other) nodes →
        .tWaitEntry thread ∉ nodes)
      (entered : state.scheduler.waitqueueEnter queue thread after = .ok next) :
      Step place state (.enter queue thread after)
        ⟨next, Function.update state.lines queue ((state.lines queue).enter thread after)⟩
  | getFirst {myself : Tid} {queue : Wq} {ret : ℤ} {next : Scheduler Tid Wq}
      (returned : state.scheduler.waitqueueGetFirst myself queue = .ok (ret, next)) :
      Step place state (.getFirst myself queue) ⟨next, served state.lines queue⟩
  | other {next : Scheduler Tid Wq}
      (sameWait : ∀ addr : RingAddr Tid Wq, addr.IsWait →
        next.heap addr = state.scheduler.heap addr)
      (orderly : Scheduler.Orderly place next) :
      Step place state .other ⟨next, state.lines⟩

/-- Empty wait queues, and a scheduler in order. -/
structure Initial (place : Key → Option (Fin schedNrqs)) (state : WaitOrder Tid Wq) : Prop where
  queues : state.scheduler.heap.Rings RingAddr.wqThreads fun _ => []
  lines : state.lines = fun _ => .empty
  orderly : Scheduler.Orderly place state.scheduler

def system (Tid Wq : Type) [DecidableEq Tid] [DecidableEq Wq]
    (place : Key → Option (Fin schedNrqs)) :
    TransitionSystem (WaitOrder Tid Wq) (WaitOrderLabel Tid Wq) where
  init := Initial place
  step := Step place

variable {place : Key → Option (Fin schedNrqs)} {state next : WaitOrder Tid Wq}

/-- The rings are the lines, and the scheduler is in order. -/
structure Refined (place : Key → Option (Fin schedNrqs)) (state : WaitOrder Tid Wq) : Prop where
  lined : Lined state.scheduler.heap state.lines
  orderly : Scheduler.Orderly place state.scheduler

omit [DecidableEq Tid] [DecidableEq Wq] in
theorem Initial.refined (initial : Initial place state) : Refined place state := by
  refine ⟨⟨?_, ?_⟩, initial.orderly⟩
  · rw [initial.lines]
    exact initial.queues
  · rw [initial.lines]
    intro queue thread waits
    simp [WaitLine.empty, WaitLine.threads] at waits

theorem Refined.enter (refined : Refined place state) {queue : Wq} {thread : Tid} {after : Bool}
    {next : Scheduler Tid Wq}
    (unlinked : ∀ other nodes, state.scheduler.heap.IsRing (.wqThreads other) nodes →
      .tWaitEntry thread ∉ nodes)
    (entered : state.scheduler.waitqueueEnter queue thread after = .ok next) :
    Refined place
      ⟨next, Function.update state.lines queue ((state.lines queue).enter thread after)⟩ := by
  have notWaiting : ∀ other, thread ∉ (state.lines other).threads := by
    intro other waits
    apply unlinked other _ (refined.lined.rings.isRing other)
    exact List.mem_map_of_mem (List.mem_reverse.mpr waits)
  rcases refined.lined.enter notWaiting queue after with ⟨heap, inserted, lined, sameNode⟩
  rw [Scheduler.waitqueueEnter, inserted] at entered
  cases entered
  exact ⟨lined, refined.orderly.congr sameNode (fun _ => id) rfl fun _ => rfl⟩

theorem Refined.step (covers : ∀ i, ∃ key, place key = some i) (refined : Refined place state)
    {label : WaitOrderLabel Tid Wq} (stepped : Step place state label next) :
    Refined place next := by
  cases stepped with
  | enter unlinked entered => exact refined.enter unlinked entered
  | @getFirst myself queue ret next returned =>
      obtain ⟨answer, target, returnedAgain, serves⟩ :=
        refined.orderly.waitqueueGetFirst refined.lined covers myself queue
      rw [returned, Except.ok.injEq, Prod.mk.injEq] at returnedAgain
      rcases returnedAgain with ⟨rfl, rfl⟩
      rw [served]
      cases taken : (state.lines queue).takeFirst with
      | none =>
          rw [(serves.nobody taken).2]
          exact refined
      | some entry =>
          obtain ⟨_, lined, orderly, _⟩ := serves.served entry.1 entry.2 taken
          exact ⟨lined, orderly⟩
  | other sameWait orderly => exact ⟨refined.lined.congr sameWait, orderly⟩

theorem refined_of_reachable (covers : ∀ i, ∃ key, place key = some i)
    (reachable : (system Tid Wq place).Reachable state) : Refined place state := by
  apply reachable.invariant
  · intro booted initial
    exact Initial.refined initial
  · intro source label target refined stepped
    exact Refined.step covers refined stepped

/-- A thread that is on no queue can enter one. -/
theorem exists_enter (covers : ∀ i, ∃ key, place key = some i)
    (reachable : (system Tid Wq place).Reachable state) (queue : Wq) (thread : Tid) (after : Bool)
    (notWaiting : ∀ other, thread ∉ (state.lines other).threads) :
    ∃ next, (system Tid Wq place).Reachable
      ⟨next, Function.update state.lines queue ((state.lines queue).enter thread after)⟩ := by
  have refined := refined_of_reachable covers reachable
  rcases refined.lined.enter notWaiting queue after with ⟨heap, inserted, _⟩
  refine ⟨{ state.scheduler with heap := heap }, reachable.step (.enter ?_ ?_)⟩
  · intro other nodes ring entryMem
    rw [← (refined.lined.rings.isRing other).unique ring] at entryMem
    apply notWaiting other
    simpa using entryMem
  · rw [Scheduler.waitqueueEnter, inserted]
    rfl

end WaitOrder

/-- The operations on rings and lists are those on sequences, and the wait queues serve their
lines in order. -/
theorem rings_refine_sequences :
    (∀ (Addr Data : Type u) [DecidableEq Addr],
      (∀ after, InsertsBeside Addr Data after (linkedRingInsert · · · after)) ∧
        Deletes Addr Data linkedRingRemove ∧ Resets Addr Data linkedRingInit ∧
        TestsEmpty Addr Data linkedRingEmpty) ∧
    (∀ (Addr : Type u) [DecidableEq Addr],
      InsertsBeside Addr PEmpty true listAddAfter ∧
        InsertsBeside Addr PEmpty false listAddBefore ∧ Deletes Addr PEmpty listItemRemove ∧
        Resets Addr PEmpty listInit ∧ Pops Addr false listPopHead ∧ Pops Addr true listPopTail) ∧
    ∀ (Tid Wq Key : Type) [DecidableEq Tid] [DecidableEq Wq]
      (place : Key → Option (Fin schedNrqs)), (∀ i, ∃ key, place key = some i) →
      ∀ state, (WaitOrder.system Tid Wq place).Reachable state →
        Lined state.scheduler.heap state.lines ∧
        ∀ myself queue, ∃ ret next,
          state.scheduler.waitqueueGetFirst myself queue = .ok (ret, next) ∧
            Scheduler.Serves place state.lines queue state.scheduler ret next := by
  refine ⟨?_, ?_, ?_⟩
  · intro Addr Data _
    exact ⟨linkedRingInsert_insertsBeside, linkedRingRemove_deletes, linkedRingInit_resets,
      linkedRingEmpty_testsEmpty⟩
  · intro Addr _
    exact ⟨listAddAfter_insertsBeside, listAddBefore_insertsBeside, listItemRemove_deletes,
      listInit_resets, listPopHead_pops, listPopTail_pops⟩
  · intro Tid Wq Key _ _ place covers state reachable
    have refined := WaitOrder.refined_of_reachable covers reachable
    exact ⟨refined.lined, refined.orderly.waitqueueGetFirst refined.lined covers⟩

/-- Three threads and one wait queue, with all rings empty. -/
def restingScheduler : Scheduler (Fin 3) Unit where
  heap
    | .schedRunRing i => ⟨some (.schedRunRing i), some (.schedRunRing i), none⟩
    | .wqThreads queue => ⟨some (.wqThreads queue), some (.wqThreads queue), none⟩
    | _ => ⟨none, none, none⟩
  threads _ := threadTemplate Unit
  schedRunDecay := schedPrios
  schedIdle := none
  schedThreadCount := 1

theorem restingScheduler_initial :
    WaitOrder.Initial (@some (Fin schedNrqs)) ⟨restingScheduler, fun _ => .empty⟩ := by
  have isRing (addr : RingAddr (Fin 3) Unit)
      (node : restingScheduler.heap addr = ⟨some addr, some addr, none⟩) :
      restingScheduler.heap.IsRing addr [] := by
    refine ⟨?_, by simp⟩
    simp [RingHeap.Segment, RingHeap.Link, node]
  refine ⟨⟨fun queue => isRing _ rfl, ?_⟩, rfl, ⟨⟨fun _ => [], ?_, ?_⟩, ?_⟩⟩
  · intro queue other different
    exact absurd rfl different
  · exact Scheduler.filed_of_empty (Option.some_injective _) (fun priority => isRing _ rfl)
      fun _ => rfl
  · intro thread preempted
    exact absurd rfl preempted.1
  · exact fun _ _ => rfl

/-- The third thread enters last, with `after` clear, and is served first. -/
theorem rings_refine_sequences_overtaking :
    ∃ state, (WaitOrder.system (Fin 3) Unit (@some (Fin schedNrqs))).Reachable state ∧
      state.lines () = ⟨[2], [0, 1]⟩ ∧ ∃ next,
        state.scheduler.waitqueueGetFirst 0 () = .ok (1, next) ∧
          Lined next.heap (Function.update state.lines () ⟨[], [0, 1]⟩) := by
  have covers (i : Fin schedNrqs) : ∃ key, some key = some i := ⟨i, rfl⟩
  have booted : (WaitOrder.system (Fin 3) Unit (@some (Fin schedNrqs))).Reachable _ :=
    .init restingScheduler_initial
  obtain ⟨_, first⟩ := WaitOrder.exists_enter covers booted () 0 true
    (by simp [WaitLine.empty, WaitLine.threads])
  obtain ⟨_, second⟩ := WaitOrder.exists_enter covers first () 1 true
    (by simp [WaitLine.empty, WaitLine.threads, WaitLine.enter])
  obtain ⟨_, third⟩ := WaitOrder.exists_enter covers second () 2 false
    (by simp [WaitLine.empty, WaitLine.threads, WaitLine.enter])
  obtain ⟨_, serves⟩ := rings_refine_sequences.{0}.2.2 _ _ _ _ covers _ third
  obtain ⟨ret, next, returned, served⟩ := serves 0 ()
  obtain ⟨isOne, lined, _⟩ := served.served 2 ⟨[], [0, 1]⟩ rfl
  subst isOne
  exact ⟨_, third, rfl, next, returned, lined⟩

end Rkernel
