import Rkernel.Kern.Sched

/-!
# Filing threads on the rings of the scheduler

`sched_instanciate`, `sched_reenqueue`, `sched_insert` and `sched_actualize` of
`kern/kern_sched.c`. The lock is taken and given back inside each call; what a call
does in between is translated statement by statement, with a null dereference as an
explicit fault.

`sched_instanciate` zeroes the whole scheduler and then initialises the 32 run rings,
but not `sched_blocked`, whose links stay null. On the run rings the calls keep every
thread where its priority puts it; a thread that is suspended when it is filed makes
them follow a null link.
-/

namespace Rkernel

variable {Tid Wq : Type}

/-- The run ring of a thread: `t_priority % SCHED_NRQS`. -/
def runRing (thread : Thread Wq) : Fin schedNrqs :=
  ⟨thread.tPriority.toNat % schedNrqs, Nat.mod_lt _ (by decide)⟩

/-- The ring on which a thread is filed; `none` stands for `sched_blocked`. -/
def ringOf (thread : Thread Wq) (suspended : Bool) : Option (Fin schedNrqs) :=
  if suspended then none else some (runRing thread)

/-- The ring on which `sched_reenqueue` files a thread. -/
def filedOn (thread : Thread Wq) : Option (Fin schedNrqs) :=
  ringOf thread (schedIsSuspended thread)

namespace Scheduler

section Code

variable [DecidableEq Tid] [DecidableEq Wq]

/-- `sched_reenqueue` behind its test of `sched_is_suspended`. -/
def schedFile (scheduler : Scheduler Tid Wq) (thread : Tid) (suspended : Bool) :
    Except SchedFault (Scheduler Tid Wq) := do
  if suspended then
    let heap ← deref (linkedRingInsert (schedElem scheduler.heap thread) .schedBlocked
      (.tQueueEntry thread) false)
    return { scheduler with heap := heap }
  let i := runRing (scheduler.threads thread)
  let decay := if scheduler.schedRunnable i = 0 then
      Function.update scheduler.schedRunDecay i (schedPrios i)
    else scheduler.schedRunDecay
  let heap ← deref (linkedRingInsert (schedElem scheduler.heap thread) (.schedRunRing i)
    (.tQueueEntry thread) true)
  return { scheduler with heap := heap, schedRunDecay := decay }

def schedReenqueue (scheduler : Scheduler Tid Wq) (thread : Tid) :
    Except SchedFault (Scheduler Tid Wq) :=
  if scheduler.schedIdle = some thread then .ok scheduler
  else scheduler.schedFile thread (schedIsSuspended (scheduler.threads thread))

/-- `sched_instanciate`, on the ring nodes and threads that exist already. -/
def schedInstanciate (heap : RingHeap (RingAddr Tid Wq) Tid) (threads : Tid → Thread Wq) :
    Scheduler Tid Wq where
  heap :=
    let zeroed : RingHeap (RingAddr Tid Wq) Tid
      | .schedRunRing _ | .schedBlocked => ⟨none, none, none⟩
      | addr => heap addr
    (List.finRange schedNrqs).foldl (fun heap i => linkedRingInit heap (.schedRunRing i)) zeroed
  threads := threads
  schedRunDecay := schedPrios
  schedIdle := none
  schedThreadCount := 1

def modifyThread (scheduler : Scheduler Tid Wq) (thread : Tid) (change : Thread Wq → Thread Wq) :
    Scheduler Tid Wq :=
  { scheduler with
    threads := Function.update scheduler.threads thread (change (scheduler.threads thread)) }

/-- `ORDERED_APPLY` on the `t_stateflags` of the calling thread. -/
def orderedApply (scheduler : Scheduler Tid Wq) (myself : Tid)
    (applial : BitVec 32 → BitVec 32) : Scheduler Tid Wq :=
  scheduler.modifyThread myself fun thread =>
    { thread with tStateflags := applial thread.tStateflags }

/-- `sched_insert`, called by `myself`. -/
def schedInsert (cpu : ℕ) (myself thread : Tid) (scheduler : Scheduler Tid Wq) :
    Except SchedFault (Scheduler Tid Wq) := do
  let scheduler := scheduler.modifyThread thread fun thread =>
    { thread with tCurrentCpu := some cpu }
  let scheduler := scheduler.orderedApply myself (· ||| threadSfLockSched)
  let scheduler ← scheduler.schedReenqueue thread
  let scheduler := { scheduler with schedThreadCount := scheduler.schedThreadCount + 1 }
  return scheduler.orderedApply myself (· &&& ~~~threadSfLockSched)

/-- What `sched_actualize` does while it holds the lock. -/
def schedRefile (scheduler : Scheduler Tid Wq) (thread : Tid) :
    Except SchedFault (Scheduler Tid Wq) :=
  if (scheduler.threads thread).tStateflags &&& threadSfPreempt ≠ 0 then do
    let heap ← deref (linkedRingRemove scheduler.heap (.tQueueEntry thread))
    { scheduler with heap := heap }.schedReenqueue thread
  else .ok scheduler

/-- `sched_actualize`, called by `myself`. -/
def schedActualize (myself thread : Tid) (scheduler : Scheduler Tid Wq) :
    Except SchedFault (Scheduler Tid Wq) := do
  if (scheduler.threads thread).tCurrentCpu = none then
    return scheduler
  let scheduler := scheduler.orderedApply myself (· ||| threadSfLockSched)
  let scheduler ← scheduler.schedRefile thread
  return scheduler.orderedApply myself (· &&& ~~~threadSfLockSched)

end Code

/-- The end of a queue at which `sched_reenqueue` adds a thread. -/
def enqueue {Entry : Type} (place : Option (Fin schedNrqs)) (entry : Entry)
    (queue : List Entry) : List Entry :=
  if place.isSome then entry :: queue else queue ++ [entry]

theorem mem_enqueue {Entry : Type} {place : Option (Fin schedNrqs)} {entry other : Entry}
    {queue : List Entry} : other ∈ enqueue place entry queue ↔ other = entry ∨ other ∈ queue := by
  cases place
  · simp [enqueue, or_comm]
  · simp [enqueue]

theorem map_enqueue {Entry Other : Type} (f : Entry → Other) (place : Option (Fin schedNrqs))
    (entry : Entry) (queue : List Entry) :
    (enqueue place entry queue).map f = enqueue place (f entry) (queue.map f) := by
  cases place <;> simp [enqueue]

theorem map_update {Key Entry Other : Type} [DecidableEq Key] (f : Entry → Other)
    (queues : Key → List Entry) (key : Key) (changed : List Entry) :
    (fun other => (Function.update queues key changed other).map f) =
      Function.update (fun other => (queues other).map f) key (changed.map f) := by
  funext other
  exact Function.apply_update (fun _ queue => queue.map f) queues key changed other

/-- Some of the rings are well formed, and hold these threads. -/
structure Filed {Key : Type} (place : Key → Option (Fin schedNrqs)) (scheduler : Scheduler Tid Wq)
    (queues : Key → List Tid) : Prop where
  rings : scheduler.heap.Rings (fun key => RunQueues.head Tid Wq (place key))
    fun key => (queues key).map RingAddr.tQueueEntry
  entryData : ∀ key, ∀ thread ∈ queues key,
    (scheduler.heap (.tQueueEntry thread)).data = some thread
  headData : ∀ priority, (scheduler.heap (.schedRunRing priority)).data = none

/-- A call that files `thread` changes nothing but its entry and the nodes of the rings. -/
def Untouched {Key : Type} (place : Key → Option (Fin schedNrqs)) (queues : Key → List Tid)
    (thread : Tid) (heap next : RingHeap (RingAddr Tid Wq) Tid) : Prop :=
  ∀ addr, addr ≠ .tQueueEntry thread →
    (∀ key, addr ∉ RunQueues.head Tid Wq (place key) :: (queues key).map RingAddr.tQueueEntry) →
      next addr = heap addr

/-- The links of `sched_blocked` are null. -/
def NullBlocked (scheduler : Scheduler Tid Wq) : Prop :=
  (scheduler.heap .schedBlocked).next = none ∧ (scheduler.heap .schedBlocked).prev = none

section Filed

variable {Key : Type} {place : Key → Option (Fin schedNrqs)} {scheduler next : Scheduler Tid Wq}
  {queues : Key → List Tid} {key : Key} {thread : Tid}

/-- Empty rings hold no threads. -/
theorem filed_of_empty (injective : Function.Injective place)
    (isEmpty : ∀ key, scheduler.heap.IsRing (RunQueues.head Tid Wq (place key)) [])
    (headData : ∀ priority, (scheduler.heap (.schedRunRing priority)).data = none) :
    Filed place scheduler fun _ => [] := by
  refine ⟨⟨isEmpty, ?_⟩, by simp, headData⟩
  intro key other different
  have apart := ((RunQueues.head_injective Tid Wq).comp injective).ne different
  simpa using apart.symm

theorem Filed.congr (filed : Filed place scheduler queues) (sameHeap : next.heap = scheduler.heap) :
    Filed place next queues := by
  refine ⟨?_, ?_, ?_⟩
  · rw [sameHeap]
    exact filed.rings
  · rw [sameHeap]
    exact filed.entryData
  · rw [sameHeap]
    exact filed.headData

theorem schedBlocked_notMem (runOnly : ∀ key, place key ≠ none) (key : Key) :
    RingAddr.schedBlocked ∉
      RunQueues.head Tid Wq (place key) :: (queues key).map RingAddr.tQueueEntry := by
  cases isPlace : place key with
  | none => exact absurd isPlace (runOnly key)
  | some i => simp [RunQueues.head]

theorem NullBlocked.untouched (null : NullBlocked scheduler) (runOnly : ∀ key, place key ≠ none)
    (untouched : Untouched place queues thread scheduler.heap next.heap) : NullBlocked next := by
  have same := untouched .schedBlocked (by simp) (schedBlocked_notMem runOnly)
  rw [NullBlocked, same]
  exact null

theorem NullBlocked.congr (null : NullBlocked scheduler) (sameHeap : next.heap = scheduler.heap) :
    NullBlocked next := by
  rw [NullBlocked, sameHeap]
  exact null

theorem Filed.nodup (filed : Filed place scheduler queues) (key : Key) : (queues key).Nodup := by
  have nodup := (List.nodup_cons.mp (filed.rings.isRing key).nodup).2
  exact nodup.of_map _

/-- A thread is on one ring only. -/
theorem Filed.eq_of_mem (filed : Filed place scheduler queues) {other : Key}
    (inKey : thread ∈ queues key) (inOther : thread ∈ queues other) : key = other := by
  by_contra different
  apply filed.rings.disjoint key other different
  · exact List.mem_cons_of_mem _ (List.mem_map_of_mem inKey)
  · exact List.mem_cons_of_mem _ (List.mem_map_of_mem inOther)

theorem tQueueEntry_notMem (notQueued : thread ∉ queues key) :
    RingAddr.tQueueEntry thread ∉
      RunQueues.head Tid Wq (place key) :: (queues key).map RingAddr.tQueueEntry := by
  cases isPlace : place key <;> simpa [RunQueues.head] using notQueued

variable [DecidableEq Tid] [DecidableEq Wq]

theorem schedReenqueue_of_idle (isIdle : scheduler.schedIdle = some thread) :
    scheduler.schedReenqueue thread = .ok scheduler := by
  rw [schedReenqueue, if_pos isIdle]

/-- The thread is inserted at one ring, or a null link is followed. -/
theorem schedFile_eq (scheduler : Scheduler Tid Wq) (thread : Tid) (suspended : Bool) :
    ∃ decay, scheduler.schedFile thread suspended =
      (deref (linkedRingInsert (schedElem scheduler.heap thread)
        (RunQueues.head Tid Wq (ringOf (scheduler.threads thread) suspended)) (.tQueueEntry thread)
        (ringOf (scheduler.threads thread) suspended).isSome)).map
          fun heap => { scheduler with heap := heap, schedRunDecay := decay } := by
  cases suspended with
  | true => exact ⟨scheduler.schedRunDecay, rfl⟩
  | false => exact ⟨_, rfl⟩

theorem schedReenqueue_threads (ok : scheduler.schedReenqueue thread = .ok next) :
    next.threads = scheduler.threads := by
  by_cases isIdle : scheduler.schedIdle = some thread
  · rw [schedReenqueue_of_idle isIdle] at ok
    cases ok
    rfl
  · rw [schedReenqueue, if_neg isIdle] at ok
    rcases schedFile_eq scheduler thread (schedIsSuspended (scheduler.threads thread)) with
      ⟨decay, filed⟩
    rw [filed] at ok
    generalize linkedRingInsert (schedElem scheduler.heap thread) _ _ _ = inserted at ok
    cases inserted <;> cases ok
    rfl

/-- A suspended thread is filed through the links of `sched_blocked`. -/
theorem NullBlocked.schedReenqueue (null : NullBlocked scheduler)
    (notIdle : scheduler.schedIdle ≠ some thread)
    (suspended : filedOn (scheduler.threads thread) = none) :
    scheduler.schedReenqueue thread = .error .nullDereference := by
  rcases schedFile_eq scheduler thread (schedIsSuspended (scheduler.threads thread)) with
    ⟨decay, filed⟩
  have inserted : linkedRingInsert (schedElem scheduler.heap thread) .schedBlocked
      (.tQueueEntry thread) false = none := by
    simp [linkedRingInsert, schedElem, null.2]
  rw [filedOn] at suspended
  rw [Scheduler.schedReenqueue, if_neg notIdle, filed, suspended]
  simp only [RunQueues.head, Option.isSome_none, inserted]
  rfl

variable [DecidableEq Key]

/-- A thread that is on none of the rings is filed. -/
theorem Filed.schedFile (filed : Filed place scheduler queues) {suspended : Bool}
    (isPlace : place key = ringOf (scheduler.threads thread) suspended)
    (notQueued : ∀ other, thread ∉ queues other) :
    ∃ heap decay,
      scheduler.schedFile thread suspended =
        .ok { scheduler with heap := heap, schedRunDecay := decay } ∧
      Filed place { scheduler with heap := heap, schedRunDecay := decay }
        (Function.update queues key (enqueue (place key) thread (queues key))) ∧
      Untouched place queues thread scheduler.heap heap := by
  have prepared := filed.rings.setData (.tQueueEntry thread) thread
  have fresh : ∀ other, RingAddr.tQueueEntry thread ∉
      RunQueues.head Tid Wq (place other) :: (queues other).map RingAddr.tQueueEntry :=
    fun other => tQueueEntry_notMem (notQueued other)
  rcases linkedRingInsert_rings prepared key fresh (place key).isSome with
    ⟨heap, inserted, rings⟩
  rcases schedFile_eq scheduler thread suspended with ⟨decay, isFiled⟩
  rw [← isPlace, schedElem, inserted] at isFiled
  have sameData := linkedRingInsert_data inserted
  refine ⟨heap, decay, isFiled, ⟨?_, ?_, ?_⟩, ?_⟩
  · rw [map_update, map_enqueue]
    exact rings
  · intro other queued queuedMem
    rw [sameData]
    by_cases same : queued = thread
    · rw [same]
      simp [RingHeap.setData]
    · have before : queued ∈ queues other := by
        by_cases sameKey : other = key
        · subst other
          rw [Function.update_self, mem_enqueue] at queuedMem
          exact queuedMem.resolve_left same
        · rwa [Function.update_of_ne sameKey] at queuedMem
      simpa [same] using filed.entryData other queued before
  · intro priority
    rw [sameData]
    simpa using filed.headData priority
  · intro addr notEntry notMem
    have links := linkedRingInsert_links (prepared.isRing key) (notMem key) notEntry inserted
    have data := sameData addr
    have sameNode : scheduler.heap.setData (.tQueueEntry thread) thread addr =
        scheduler.heap addr := by
      simp [RingHeap.setData, notEntry]
    rw [sameNode] at links data
    exact RingNode.ext links.1 links.2 data

theorem Filed.schedReenqueue (filed : Filed place scheduler queues)
    (notIdle : scheduler.schedIdle ≠ some thread)
    (isPlace : place key = filedOn (scheduler.threads thread))
    (notQueued : ∀ other, thread ∉ queues other) :
    ∃ heap decay,
      scheduler.schedReenqueue thread =
        .ok { scheduler with heap := heap, schedRunDecay := decay } ∧
      Filed place { scheduler with heap := heap, schedRunDecay := decay }
        (Function.update queues key (enqueue (place key) thread (queues key))) ∧
      Untouched place queues thread scheduler.heap heap := by
  rw [Scheduler.schedReenqueue, if_neg notIdle]
  exact filed.schedFile isPlace notQueued

theorem Filed.linkedRingRemove {front back : List Tid} (filed : Filed place scheduler queues)
    (split : queues key = front ++ thread :: back) :
    ∃ heap, linkedRingRemove scheduler.heap (.tQueueEntry thread) = some heap ∧
      Filed place { scheduler with heap := heap } (Function.update queues key (front ++ back)) ∧
      Untouched place queues thread scheduler.heap heap := by
  have splitEntries : (queues key).map (@RingAddr.tQueueEntry Tid Wq) =
      front.map .tQueueEntry ++ .tQueueEntry thread :: back.map .tQueueEntry := by
    rw [split, List.map_append, List.map_cons]
  rcases linkedRingRemove_rings filed.rings splitEntries with ⟨heap, removed, rings⟩
  have sameData := linkedRingRemove_data removed
  refine ⟨heap, removed, ⟨?_, ?_, ?_⟩, ?_⟩
  · rw [map_update, List.map_append]
    exact rings
  · intro other queued queuedMem
    rw [sameData]
    apply filed.entryData other queued
    by_cases same : other = key
    · subst other
      rw [Function.update_self] at queuedMem
      rw [split]
      simp only [List.mem_append, List.mem_cons] at queuedMem ⊢
      exact queuedMem.imp_right Or.inr
    · rwa [Function.update_of_ne same] at queuedMem
  · intro priority
    rw [sameData]
    exact filed.headData priority
  · intro addr notEntry notMem
    have ring := filed.rings.isRing key
    have notThere := notMem key
    rw [splitEntries] at ring notThere
    simp only [List.mem_cons, List.mem_append, not_or] at notThere
    have links := linkedRingRemove_links ring (by simp only [List.mem_cons, List.mem_append]; tauto)
      removed
    exact RingNode.ext links.1 links.2 (sameData addr)

end Filed

section Threads

variable [DecidableEq Tid] {scheduler : Scheduler Tid Wq} {thread : Tid}

@[simp]
theorem orderedApply_heap (myself : Tid) (applial : BitVec 32 → BitVec 32) :
    (scheduler.orderedApply myself applial).heap = scheduler.heap :=
  rfl

@[simp]
theorem orderedApply_schedIdle (myself : Tid) (applial : BitVec 32 → BitVec 32) :
    (scheduler.orderedApply myself applial).schedIdle = scheduler.schedIdle :=
  rfl

@[simp]
theorem orderedApply_tCurrentCpu (myself : Tid) (applial : BitVec 32 → BitVec 32) :
    ((scheduler.orderedApply myself applial).threads thread).tCurrentCpu =
      (scheduler.threads thread).tCurrentCpu := by
  by_cases same : thread = myself
  · subst same
    simp [orderedApply, modifyThread]
  · simp [orderedApply, modifyThread, same]

theorem filedOn_modifyThread (scheduler : Scheduler Tid Wq) (changed thread : Tid)
    {change : Thread Wq → Thread Wq} (keeps : ∀ thread, filedOn (change thread) = filedOn thread) :
    filedOn ((scheduler.modifyThread changed change).threads thread) =
      filedOn (scheduler.threads thread) := by
  by_cases same : thread = changed
  · subst same
    simp [modifyThread, keeps]
  · simp [modifyThread, same]

/-- The flag of the caller changes nothing about where a thread is filed. -/
theorem filedOn_orderedApply (scheduler : Scheduler Tid Wq) (myself thread : Tid)
    {applial : BitVec 32 → BitVec 32}
    (keeps : ∀ flags, applial flags &&& threadSfQueueWait = flags &&& threadSfQueueWait) :
    filedOn ((scheduler.orderedApply myself applial).threads thread) =
      filedOn (scheduler.threads thread) := by
  apply filedOn_modifyThread
  intro thread
  have same : schedIsSuspended { thread with tStateflags := applial thread.tStateflags } =
      schedIsSuspended thread := by
    simp [schedIsSuspended, keeps]
  rw [filedOn, filedOn, same]
  rfl

theorem orderedApply_and_preempt (scheduler : Scheduler Tid Wq) (myself thread : Tid)
    {applial : BitVec 32 → BitVec 32}
    (keeps : ∀ flags, applial flags &&& threadSfPreempt = flags &&& threadSfPreempt) :
    ((scheduler.orderedApply myself applial).threads thread).tStateflags &&& threadSfPreempt =
      (scheduler.threads thread).tStateflags &&& threadSfPreempt := by
  by_cases same : thread = myself
  · subst same
    simp [orderedApply, modifyThread, keeps]
  · simp [orderedApply, modifyThread, same]

end Threads

end Scheduler

/-- Which threads have been inserted, and the ring each was last filed on. -/
structure Filing (Tid : Type) where
  inserted : List Tid
  place : Tid → Option (Fin schedNrqs)

/-- A call of the thread `myself`, or what other code stores into a thread between calls. -/
inductive SchedOp (Tid Wq : Type) where
  | insert (myself thread : Tid)
  | actualize (myself thread : Tid)
  | prioritize (thread : Tid) (priority : BitVec 32)
  | store (thread : Tid) (stateflags : BitVec 32) (waitQueue : Option Wq)

namespace SchedOp

variable [DecidableEq Tid] [DecidableEq Wq]

def run (cpu : ℕ) (scheduler : Scheduler Tid Wq) :
    SchedOp Tid Wq → Except SchedFault (Scheduler Tid Wq)
  | insert myself thread => scheduler.schedInsert cpu myself thread
  | actualize myself thread => scheduler.schedActualize myself thread
  | prioritize thread priority =>
      .ok (scheduler.modifyThread thread fun thread => { thread with tPriority := priority })
  | store thread stateflags waitQueue =>
      .ok (scheduler.modifyThread thread fun thread =>
        { thread with tStateflags := stateflags, tWaitQueue := waitQueue })

/-- Where the call is meant to file its thread. -/
def file (scheduler : Scheduler Tid Wq) (filing : Filing Tid) : SchedOp Tid Wq → Filing Tid
  | insert _ thread =>
      ⟨thread :: filing.inserted,
        Function.update filing.place thread (filedOn (scheduler.threads thread))⟩
  | actualize _ thread =>
      { filing with
        place := Function.update filing.place thread (filedOn (scheduler.threads thread)) }
  | prioritize _ _ | store _ _ _ => filing

/-- Threads are inserted once, and actualized while they are queued and preempted. -/
def Allowed (scheduler : Scheduler Tid Wq) (filing : Filing Tid) : SchedOp Tid Wq → Prop
  | insert _ thread => thread ∉ filing.inserted
  | actualize _ thread =>
      thread ∈ filing.inserted ∧ scheduler.schedIdle ≠ some thread ∧
        (scheduler.threads thread).tStateflags &&& threadSfPreempt ≠ 0
  | prioritize _ _ | store _ _ _ => True

/-- The thread that a call files. -/
def thread? : SchedOp Tid Wq → Option Tid
  | insert _ thread | actualize _ thread => some thread
  | prioritize _ _ | store _ _ _ => none

def runAll (cpu : ℕ) : List (SchedOp Tid Wq) → Scheduler Tid Wq → Filing Tid →
    Except SchedFault (Scheduler Tid Wq × Filing Tid)
  | [], scheduler, filing => .ok (scheduler, filing)
  | op :: ops, scheduler, filing => do
      let next ← op.run cpu scheduler
      runAll cpu ops next (op.file scheduler filing)

/-- Every call of the sequence is allowed when it is made. -/
def AllAllowed (cpu : ℕ) : List (SchedOp Tid Wq) → Scheduler Tid Wq → Filing Tid → Prop
  | [], _, _ => True
  | op :: ops, scheduler, filing =>
      op.Allowed scheduler filing ∧
        ∀ next, op.run cpu scheduler = .ok next → AllAllowed cpu ops next (op.file scheduler filing)

end SchedOp

namespace Scheduler

/-- All rings are well formed, every inserted thread other than the idle one is on the ring it
was filed on, once, and on no other, and all of them are counted. -/
def Files (scheduler : Scheduler Tid Wq) (filing : Filing Tid) [DecidableEq Tid] : Prop :=
  ∃ queues : Option (Fin schedNrqs) → List Tid, Filed id scheduler queues ∧
    (∀ thread ∈ filing.inserted, scheduler.schedIdle ≠ some thread →
      ∀ key, (queues key).count thread = if key = filing.place thread then 1 else 0) ∧
    scheduler.schedThreadCount = 1 + BitVec.ofNat 32 filing.inserted.length

/-- The queues hold the inserted threads where they were filed. -/
structure Tracked {Key : Type} (place : Key → Option (Fin schedNrqs)) (scheduler : Scheduler Tid Wq)
    (filing : Filing Tid) (queues : Key → List Tid) : Prop where
  filed : Filed place scheduler queues
  mem : ∀ key thread, thread ∈ queues key ↔ thread ∈ filing.inserted ∧
    scheduler.schedIdle ≠ some thread ∧ filing.place thread = place key
  covers : ∀ thread ∈ filing.inserted, scheduler.schedIdle ≠ some thread →
    ∃ key, filing.place thread = place key
  onCpu : ∀ thread ∈ filing.inserted, (scheduler.threads thread).tCurrentCpu ≠ none

section Tracked

variable {Key : Type} {place : Key → Option (Fin schedNrqs)} {scheduler : Scheduler Tid Wq}
  {filing : Filing Tid} {queues : Key → List Tid} {thread : Tid} {key : Key}

theorem Tracked.notMem (tracked : Tracked place scheduler filing queues)
    (fresh : thread ∉ filing.inserted) (key : Key) : thread ∉ queues key := by
  intro queued
  exact fresh ((tracked.mem key thread).mp queued).1

variable [DecidableEq Tid] [DecidableEq Wq] [DecidableEq Key]

/-- The queues after a thread that was on none of them has been filed. -/
theorem mem_refile (injective : Function.Injective place) {idle : Option Tid}
    {inserted : List Tid} {filedAt : Tid → Option (Fin schedNrqs)}
    (others : ∀ other thread', thread' ∈ queues other ↔ thread' ≠ thread ∧ thread' ∈ inserted ∧
      idle ≠ some thread' ∧ filedAt thread' = place other)
    (isInserted : thread ∈ inserted) (notIdle : idle ≠ some thread) (other : Key) (thread' : Tid) :
    thread' ∈ Function.update queues key (enqueue (place key) thread (queues key)) other ↔
      thread' ∈ inserted ∧ idle ≠ some thread' ∧
        Function.update filedAt thread (place key) thread' = place other := by
  by_cases isThread : thread' = thread
  · subst isThread
    rw [Function.update_self]
    by_cases isKey : other = key
    · subst isKey
      rw [Function.update_self, mem_enqueue]
      exact iff_of_true (Or.inl rfl) ⟨isInserted, notIdle, rfl⟩
    · rw [Function.update_of_ne isKey, others]
      apply iff_of_false
      · exact fun queued => queued.1 rfl
      · exact fun filed => isKey (injective filed.2.2).symm
  · rw [Function.update_of_ne isThread]
    have unchanged : thread' ∈ Function.update queues key
        (enqueue (place key) thread (queues key)) other ↔ thread' ∈ queues other := by
      by_cases isKey : other = key
      · subst isKey
        rw [Function.update_self, mem_enqueue]
        exact or_iff_right isThread
      · rw [Function.update_of_ne isKey]
    rw [unchanged, others]
    exact and_iff_right isThread

/-- What a call makes of the scheduler and of where the threads are filed. -/
def Advances (place : Key → Option (Fin schedNrqs)) (scheduler next : Scheduler Tid Wq)
    (filing : Filing Tid) : Prop :=
  (∃ queues, Tracked place next filing queues) ∧ next.schedIdle = scheduler.schedIdle ∧
    ((∀ key, place key ≠ none) → NullBlocked scheduler → NullBlocked next)

/-- `sched_insert` of a new thread whose ring is well formed. -/
theorem Tracked.schedInsert (tracked : Tracked place scheduler filing queues)
    (injective : Function.Injective place) (fresh : thread ∉ filing.inserted)
    (covered : scheduler.schedIdle ≠ some thread →
      ∃ key, place key = filedOn (scheduler.threads thread)) (cpu : ℕ) (myself : Tid) :
    ∃ next, scheduler.schedInsert cpu myself thread = .ok next ∧
      Advances place scheduler next ((SchedOp.insert myself thread).file scheduler filing) := by
  have keepsWait := fun flags => BitVec.setFlag_and flags
    (show threadSfLockSched &&& threadSfQueueWait = 0 from rfl)
  generalize isPrepared : (scheduler.modifyThread thread fun thread =>
    { thread with tCurrentCpu := some cpu }).orderedApply myself (· ||| threadSfLockSched) =
      prepared
  have sameHeap : prepared.heap = scheduler.heap := by rw [← isPrepared]; rfl
  have sameIdle : prepared.schedIdle = scheduler.schedIdle := by rw [← isPrepared]; rfl
  have samePlace : filedOn (prepared.threads thread) = filedOn (scheduler.threads thread) := by
    rw [← isPrepared, filedOn_orderedApply _ myself thread keepsWait]
    exact filedOn_modifyThread _ _ _ fun _ => rfl
  have isOnCpu : ∀ other ∈ thread :: filing.inserted,
      (prepared.threads other).tCurrentCpu ≠ none := by
    intro other isInserted
    rw [← isPrepared, orderedApply_tCurrentCpu]
    by_cases same : other = thread
    · simp [modifyThread, same]
    · simpa [modifyThread, same] using tracked.onCpu other (List.mem_of_ne_of_mem same isInserted)
  have filed := tracked.filed.congr sameHeap
  have returns : ∀ reenqueued, prepared.schedReenqueue thread = .ok reenqueued →
      scheduler.schedInsert cpu myself thread =
        .ok ({ reenqueued with schedThreadCount := reenqueued.schedThreadCount + 1 }.orderedApply
          myself (· &&& ~~~threadSfLockSched)) := by
    intro reenqueued ok
    simp only [Scheduler.schedInsert, isPrepared, ok]
    rfl
  by_cases isIdle : scheduler.schedIdle = some thread
  · have ok := schedReenqueue_of_idle (sameIdle.trans isIdle)
    refine ⟨_, returns _ ok, ⟨queues, filed.congr rfl, ?_, ?_, ?_⟩, sameIdle, ?_⟩
    · intro other thread'
      rw [orderedApply_schedIdle, tracked.mem, sameIdle, isIdle]
      by_cases same : thread' = thread
      · subst same
        simp
      · simp [SchedOp.file, same]
    · intro other isInserted notIdle
      rw [orderedApply_schedIdle, sameIdle] at notIdle
      have different : other ≠ thread := by
        rintro rfl
        exact notIdle isIdle
      simp only [SchedOp.file, Function.update_of_ne different]
      exact tracked.covers other (List.mem_of_ne_of_mem different isInserted) notIdle
    · intro other isInserted
      rw [orderedApply_tCurrentCpu]
      exact isOnCpu other isInserted
    · exact fun _ null => null.congr sameHeap
  · rcases covered isIdle with ⟨key, isPlace⟩
    have notQueued := tracked.notMem fresh
    rcases filed.schedReenqueue (by rw [sameIdle]; exact isIdle)
      (isPlace.trans samePlace.symm) notQueued with ⟨heap, decay, ok, filedThere, untouched⟩
    refine ⟨_, returns _ ok, ⟨_, filedThere.congr rfl, ?_, ?_, ?_⟩, sameIdle, ?_⟩
    · rw [SchedOp.file, ← isPlace, orderedApply_schedIdle, sameIdle]
      apply mem_refile injective _ List.mem_cons_self isIdle
      intro other thread'
      rw [tracked.mem]
      by_cases same : thread' = thread
      · subst same
        simp [fresh]
      · simp [same]
    · intro other isInserted notIdle
      rw [orderedApply_schedIdle, sameIdle] at notIdle
      by_cases same : other = thread
      · subst same
        simp only [SchedOp.file, Function.update_self]
        exact ⟨key, isPlace.symm⟩
      · simp only [SchedOp.file, Function.update_of_ne same]
        exact tracked.covers other (List.mem_of_ne_of_mem same isInserted) notIdle
    · intro other isInserted
      rw [orderedApply_tCurrentCpu]
      exact isOnCpu other isInserted
    · exact fun runOnly null => (null.congr sameHeap).untouched runOnly untouched

omit [DecidableEq Tid] [DecidableEq Wq] in
/-- The queues after a thread has been taken off its ring. -/
theorem Filed.mem_removed (filed : Filed place scheduler queues) {front back : List Tid}
    (split : queues key = front ++ thread :: back) (other : Key) (thread' : Tid) :
    thread' ∈ Function.update queues key (front ++ back) other ↔
      thread' ≠ thread ∧ thread' ∈ queues other := by
  by_cases isKey : other = key
  · subst isKey
    have nodup := filed.nodup other
    rw [split, List.nodup_middle, List.nodup_cons] at nodup
    rw [Function.update_self, split, List.mem_append, List.mem_append, List.mem_cons]
    constructor
    · intro kept
      refine ⟨?_, kept.imp_right Or.inr⟩
      rintro rfl
      exact nodup.1 (List.mem_append.mpr kept)
    · rintro ⟨different, inFront | isThread | inBack⟩
      · exact Or.inl inFront
      · exact absurd isThread different
      · exact Or.inr inBack
  · rw [Function.update_of_ne isKey]
    constructor
    · intro queued
      refine ⟨?_, queued⟩
      rintro rfl
      apply isKey
      apply filed.eq_of_mem queued
      rw [split]
      simp
    · exact fun queued => queued.2

/-- `sched_actualize` of a queued thread that is preempted, up to `sched_reenqueue`. -/
theorem Tracked.actualize_cases (tracked : Tracked place scheduler filing queues)
    (isInserted : thread ∈ filing.inserted) (notIdle : scheduler.schedIdle ≠ some thread)
    (preempted : (scheduler.threads thread).tStateflags &&& threadSfPreempt ≠ 0) (myself : Tid) :
    ∃ heap removed, Filed place { scheduler with heap := heap } removed ∧
      (∀ other thread', thread' ∈ removed other ↔ thread' ≠ thread ∧ thread' ∈ queues other) ∧
      Untouched place queues thread scheduler.heap heap ∧
      scheduler.schedActualize myself thread =
        ({ scheduler.orderedApply myself (· ||| threadSfLockSched) with
          heap := heap }.schedReenqueue thread).map
            fun next : Scheduler Tid Wq =>
              next.orderedApply myself (· &&& ~~~threadSfLockSched) := by
  rcases tracked.covers thread isInserted notIdle with ⟨key, isPlace⟩
  have queued := (tracked.mem key thread).mpr ⟨isInserted, notIdle, isPlace⟩
  rcases List.mem_iff_append.mp queued with ⟨front, back, split⟩
  rcases tracked.filed.linkedRingRemove split with
    ⟨heap, removed, filed, untouched⟩
  refine ⟨heap, _, filed, tracked.filed.mem_removed split, untouched, ?_⟩
  have flag := orderedApply_and_preempt scheduler myself thread
    fun flags => BitVec.setFlag_and flags (show threadSfLockSched &&& threadSfPreempt = 0 from rfl)
  rw [← flag] at preempted
  simp only [Scheduler.schedActualize, tracked.onCpu thread isInserted, if_false]
  rw [schedRefile, if_pos preempted, orderedApply_heap, removed]
  rfl

theorem Tracked.schedActualize (tracked : Tracked place scheduler filing queues)
    (injective : Function.Injective place) (isInserted : thread ∈ filing.inserted)
    (notIdle : scheduler.schedIdle ≠ some thread)
    (preempted : (scheduler.threads thread).tStateflags &&& threadSfPreempt ≠ 0)
    (isPlace : place key = filedOn (scheduler.threads thread)) (myself : Tid) :
    ∃ next, scheduler.schedActualize myself thread = .ok next ∧
      Advances place scheduler next ((SchedOp.actualize myself thread).file scheduler filing) := by
  rcases tracked.actualize_cases isInserted notIdle preempted myself with
    ⟨heap, removed, filed, isRemoved, untouchedRemoved, actualized⟩
  have keepsWait := fun flags => BitVec.setFlag_and flags
    (show threadSfLockSched &&& threadSfQueueWait = 0 from rfl)
  have samePlace := filedOn_orderedApply scheduler myself thread keepsWait
  have filedThere : Filed place { scheduler.orderedApply myself (· ||| threadSfLockSched) with
      heap := heap } removed := filed.congr rfl
  rcases filedThere.schedReenqueue notIdle (isPlace.trans samePlace.symm)
    (fun other queued => ((isRemoved other thread).mp queued).1 rfl) with
    ⟨heapAfter, decay, reenqueued, filedAfter, untouched⟩
  rw [reenqueued] at actualized
  refine ⟨_, actualized, ⟨_, filedAfter.congr rfl, ?_, ?_, ?_⟩, rfl, ?_⟩
  · rw [SchedOp.file, ← isPlace]
    apply mem_refile injective _ isInserted notIdle
    intro other thread'
    rw [isRemoved, tracked.mem]
  · intro other otherInserted otherNotIdle
    by_cases same : other = thread
    · subst same
      simp only [SchedOp.file, Function.update_self]
      exact ⟨key, isPlace.symm⟩
    · simp only [SchedOp.file, Function.update_of_ne same]
      exact tracked.covers other otherInserted otherNotIdle
  · intro other otherInserted
    rw [orderedApply_tCurrentCpu, orderedApply_tCurrentCpu]
    exact tracked.onCpu other otherInserted
  · intro runOnly null
    have nullRemoved : NullBlocked { scheduler.orderedApply myself (· ||| threadSfLockSched) with
        heap := heap } := null.untouched runOnly untouchedRemoved
    exact nullRemoved.untouched runOnly untouched

omit [DecidableEq Wq] [DecidableEq Key] in
theorem Tracked.modifyThread (tracked : Tracked place scheduler filing queues) (thread : Tid)
    {change : Thread Wq → Thread Wq}
    (sameCpu : (change (scheduler.threads thread)).tCurrentCpu =
      (scheduler.threads thread).tCurrentCpu) :
    Advances place scheduler (scheduler.modifyThread thread change) filing := by
  refine ⟨⟨queues, tracked.filed.congr rfl, tracked.mem, tracked.covers, ?_⟩, rfl, ?_⟩
  · intro other isInserted
    by_cases same : other = thread
    · subst same
      simpa [Scheduler.modifyThread, sameCpu] using tracked.onCpu other isInserted
    · simpa [Scheduler.modifyThread, same] using tracked.onCpu other isInserted
  · exact fun _ null => null.congr rfl

/-- A call whose thread belongs on a well-formed ring. -/
theorem Tracked.run (tracked : Tracked place scheduler filing queues)
    (injective : Function.Injective place) {op : SchedOp Tid Wq}
    (allowed : op.Allowed scheduler filing)
    (covered : ∀ thread, op.thread? = some thread → scheduler.schedIdle ≠ some thread →
      ∃ key, place key = filedOn (scheduler.threads thread)) (cpu : ℕ) :
    ∃ next, op.run cpu scheduler = .ok next ∧
      Advances place scheduler next (op.file scheduler filing) := by
  cases op with
  | insert myself thread =>
      exact tracked.schedInsert injective allowed (covered thread rfl) cpu myself
  | actualize myself thread =>
      rcases allowed with ⟨isInserted, notIdle, preempted⟩
      rcases covered thread rfl notIdle with ⟨key, isPlace⟩
      exact tracked.schedActualize injective isInserted notIdle preempted isPlace myself
  | prioritize thread priority => exact ⟨_, rfl, tracked.modifyThread thread rfl⟩
  | store thread stateflags waitQueue => exact ⟨_, rfl, tracked.modifyThread thread rfl⟩

/-- A call that files a suspended thread follows a null link. -/
theorem Tracked.run_suspended {queues : Fin schedNrqs → List Tid}
    (tracked : Tracked some scheduler filing queues) (null : NullBlocked scheduler)
    {op : SchedOp Tid Wq} (allowed : op.Allowed scheduler filing)
    (isFiled : op.thread? = some thread) (notIdle : scheduler.schedIdle ≠ some thread)
    (suspended : filedOn (scheduler.threads thread) = none) (cpu : ℕ) :
    op.run cpu scheduler = .error .nullDereference := by
  have keepsWait := fun flags => BitVec.setFlag_and flags
    (show threadSfLockSched &&& threadSfQueueWait = 0 from rfl)
  cases op with
  | insert myself other =>
      cases isFiled
      have stillSuspended : filedOn (((scheduler.modifyThread thread fun thread =>
          { thread with tCurrentCpu := some cpu }).orderedApply myself
            (· ||| threadSfLockSched)).threads thread) = none := by
        rw [filedOn_orderedApply _ myself thread keepsWait, ← suspended]
        exact filedOn_modifyThread _ _ _ fun _ => rfl
      have nullThere : NullBlocked ((scheduler.modifyThread thread fun thread =>
          { thread with tCurrentCpu := some cpu }).orderedApply myself
            (· ||| threadSfLockSched)) := null.congr rfl
      have faults := nullThere.schedReenqueue notIdle stillSuspended
      simp only [SchedOp.run, Scheduler.schedInsert, faults]
      rfl
  | actualize myself other =>
      cases isFiled
      rcases allowed with ⟨isInserted, _, preempted⟩
      rcases tracked.actualize_cases isInserted notIdle preempted myself with
        ⟨heap, removed, _, _, untouched, actualized⟩
      have nullThere : NullBlocked { scheduler.orderedApply myself (· ||| threadSfLockSched) with
          heap := heap } := null.untouched (by simp) untouched
      have stillSuspended :=
        (filedOn_orderedApply scheduler myself thread keepsWait).trans suspended
      rw [SchedOp.run, actualized, nullThere.schedReenqueue notIdle stillSuspended]
      rfl
  | prioritize _ _ => cases isFiled
  | store _ _ _ => cases isFiled

/-- Calls that succeed leave the links of `sched_blocked` null. -/
theorem Tracked.runAll_nullBlocked {queues : Fin schedNrqs → List Tid}
    (tracked : Tracked some scheduler filing queues) (null : NullBlocked scheduler) {cpu : ℕ}
    {ops : List (SchedOp Tid Wq)} (allowed : SchedOp.AllAllowed cpu ops scheduler filing)
    {final : Scheduler Tid Wq} {filed : Filing Tid}
    (ran : SchedOp.runAll cpu ops scheduler filing = .ok (final, filed)) :
    (∃ queues : Fin schedNrqs → List Tid, Tracked some final filed queues) ∧
      NullBlocked final := by
  induction ops generalizing scheduler filing queues with
  | nil =>
      cases ran
      exact ⟨⟨queues, tracked⟩, null⟩
  | cons op ops ih =>
      rcases allowed with ⟨isAllowed, restAllowed⟩
      have covered : ∀ thread, op.thread? = some thread → scheduler.schedIdle ≠ some thread →
          ∃ key, some key = filedOn (scheduler.threads thread) := by
        intro thread isFiled notIdle
        cases place : filedOn (scheduler.threads thread) with
        | some key => exact ⟨key, rfl⟩
        | none =>
            have faults := tracked.run_suspended null isAllowed isFiled notIdle place cpu
            simp [SchedOp.runAll, faults, Bind.bind, Except.bind] at ran
      rcases tracked.run (Option.some_injective _) isAllowed covered cpu with
        ⟨next, ok, ⟨_, trackedNext⟩, _, kept⟩
      have rest : SchedOp.runAll cpu ops next (op.file scheduler filing) = .ok (final, filed) := by
        simpa [SchedOp.runAll, ok, Bind.bind, Except.bind] using ran
      exact ih trackedNext (kept (by simp) null) (restAllowed next ok) rest

end Tracked

section Instanciate

variable [DecidableEq Tid] [DecidableEq Wq]

theorem foldl_linkedRingInit (priorities : List (Fin schedNrqs))
    (heap : RingHeap (RingAddr Tid Wq) Tid) (addr : RingAddr Tid Wq) :
    priorities.foldl (fun heap i => linkedRingInit heap (.schedRunRing i)) heap addr =
      if ∃ i ∈ priorities, addr = .schedRunRing i then ⟨some addr, some addr, (heap addr).data⟩
      else heap addr := by
  induction priorities generalizing heap with
  | nil => simp
  | cons i priorities ih =>
      rw [List.foldl_cons, ih]
      by_cases isHead : addr = .schedRunRing i
      · subst isHead
        simp [linkedRingInit, RingHeap.setNext, RingHeap.setPrev]
      · have untouched : linkedRingInit heap (.schedRunRing i) addr = heap addr := by
          simp [linkedRingInit, RingHeap.setNext, RingHeap.setPrev, isHead]
        simp [untouched, isHead]

/-- The scheduler of a CPU when its first threads are inserted: `sched_instanciate` has built it
and `sched_idle` may have been stored. -/
def fresh (heap : RingHeap (RingAddr Tid Wq) Tid) (threads : Tid → Thread Wq)
    (idle : Option Tid) : Scheduler Tid Wq :=
  { schedInstanciate heap threads with schedIdle := idle }

variable (heap : RingHeap (RingAddr Tid Wq) Tid) (threads : Tid → Thread Wq) (idle : Option Tid)

theorem fresh_schedRunRing (i : Fin schedNrqs) :
    (fresh heap threads idle).heap (.schedRunRing i) =
      ⟨some (.schedRunRing i), some (.schedRunRing i), none⟩ := by
  simp [fresh, schedInstanciate, foldl_linkedRingInit]

theorem fresh_nullBlocked : NullBlocked (fresh heap threads idle) := by
  simp [NullBlocked, fresh, schedInstanciate, foldl_linkedRingInit]

theorem fresh_tracked :
    Tracked some (fresh heap threads idle) ⟨[], fun _ => none⟩ fun _ : Fin schedNrqs => [] := by
  refine ⟨?_, by simp, by simp, by simp⟩
  apply filed_of_empty (Option.some_injective _)
  · intro i
    refine ⟨?_, by simp⟩
    simp [RingHeap.Segment, RingHeap.Link, RunQueues.head, fresh_schedRunRing]
  · intro i
    rw [fresh_schedRunRing]

/-- No sequence of calls ends with well-formed rings: `sched_blocked` has never been one. -/
theorem not_files_of_instanciate (cpu : ℕ) {ops : List (SchedOp Tid Wq)}
    (allowed : SchedOp.AllAllowed cpu ops (fresh heap threads idle) ⟨[], fun _ => none⟩) :
    ¬∃ final filing,
      SchedOp.runAll cpu ops (fresh heap threads idle) ⟨[], fun _ => none⟩ = .ok (final, filing) ∧
        final.Files filing := by
  rintro ⟨final, filing, ran, queues, filed, _, _⟩
  have null := ((fresh_tracked heap threads idle).runAll_nullBlocked
    (fresh_nullBlocked heap threads idle) allowed ran).2
  have next := (filed.rings.isRing none).next_head
  simp [RunQueues.head, null.1] at next

end Instanciate

/-- A thread that waits on a wait queue. -/
def waiting : Thread Unit :=
  { threadTemplate Unit with tStateflags := threadSfQueueWait, tWaitQueue := some () }

/-- The first insertion of a suspended thread follows a null link. -/
theorem insert_waiting_faults :
    SchedOp.AllAllowed 0 [.insert false true]
        (fresh (fun _ => ⟨none, none, none⟩) (fun _ => waiting) (some false)) ⟨[], fun _ => none⟩ ∧
      SchedOp.runAll 0 [.insert false true]
        (fresh (fun _ => ⟨none, none, none⟩) (fun _ => waiting) (some false)) ⟨[], fun _ => none⟩ =
          .error .nullDereference := by
  have allowed : (SchedOp.insert false true : SchedOp Bool Unit).Allowed
      (fresh (fun _ => ⟨none, none, none⟩) (fun _ => waiting) (some false)) ⟨[], fun _ => none⟩ :=
    List.not_mem_nil
  have faults := (fresh_tracked _ (fun _ => waiting) _).run_suspended (fresh_nullBlocked _ _ _)
    allowed rfl (show some false ≠ some true from by decide) (by decide) 0
  refine ⟨⟨allowed, fun _ _ => trivial⟩, ?_⟩
  rw [SchedOp.runAll, faults]
  rfl

/-- The insertion of a runnable thread succeeds and leaves `sched_blocked` as it was. -/
theorem not_files_runnable :
    SchedOp.AllAllowed 0 [.insert false true]
        (fresh (fun _ => ⟨none, none, none⟩) (fun _ => threadTemplate Unit) none)
        ⟨[], fun _ => none⟩ ∧
      ¬∃ final filing, SchedOp.runAll 0 [.insert false true]
        (fresh (fun _ => ⟨none, none, none⟩) (fun _ => threadTemplate Unit) none)
        ⟨[], fun _ => none⟩ = .ok (final, filing) ∧ final.Files filing := by
  have allowed : SchedOp.AllAllowed 0 [.insert false true]
      (fresh (fun _ => ⟨none, none, none⟩) (fun _ => threadTemplate Unit) none)
      ⟨[], fun _ => none⟩ := ⟨List.not_mem_nil, fun _ _ => trivial⟩
  exact ⟨allowed, not_files_of_instanciate _ _ _ 0 allowed⟩

end Scheduler

end Rkernel
