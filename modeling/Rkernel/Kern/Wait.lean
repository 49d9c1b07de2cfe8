import Rkernel.Kern.Thread
import Rkernel.Lib.Transition

/-!
# Waiting on wait queues

`waitqueue_wait` and `waitqueue_get_first` (`kern/kern_wait.c`) as a transition
system over any number of threads and wait queues. Every queue has the spinlock
that its callers hold around both functions; `waitqueue_wait` gives it back after
the caller's entry is on the queue. The store of the flag, the induced preemption
and the clearing of the flag run without the lock, so each of them is a step of its
own.

A thread comes back from the induced preemption when the scheduler does not take it
for suspended. What else the scheduler does to a thread is to change flags other than
`THREAD_SF_QUEUE_WAIT`, at any time; its own rings are left out.

No function stores anything but null to `t_wait_queue`. So a thread is never
suspended, and it blocks correctly only if a waker has taken it off the queue before
it stores the flag.
-/

namespace Rkernel

/-- Where a thread is in `waitqueue_wait`. -/
inductive WaitPc (Wq : Type) where
  | outside
  | entered (queue : Wq)
  | unlocked (queue : Wq)
  | flagged (queue : Wq)
  | resumed (queue : Wq)
  | cleared (queue : Wq)

/-- The steps of the callers, of `waitqueue_wait`, of `waitqueue_get_first` and of the
scheduler. -/
inductive WaitLabel (Tid Wq : Type) where
  | acquire (thread : Tid) (queue : Wq)
  | release (thread : Tid) (queue : Wq)
  | enter (thread : Tid) (queue : Wq) (after : Bool)
  | unlock (thread : Tid)
  | setFlag (thread : Tid)
  | resume (thread : Tid)
  | clearFlag (thread : Tid)
  | relock (thread : Tid)
  | getFirst (thread : Tid) (queue : Wq)
  | schedule (thread : Tid) (stateflags : BitVec 32)

/-- The rings, the threads, who holds the lock of each queue, and where every thread is. -/
structure WaitState (Tid Wq : Type) where
  heap : RingHeap (RingAddr Tid Wq) Tid
  threads : Tid → Thread Wq
  locks : Wq → Option Tid
  pcs : Tid → WaitPc Wq

section Code

variable {Tid Wq : Type} [DecidableEq Tid] [DecidableEq Wq]

def waitqueueElem (heap : RingHeap (RingAddr Tid Wq) Tid) (thread : Tid) :
    RingHeap (RingAddr Tid Wq) Tid :=
  heap.setData (.tWaitEntry thread) thread

def waitqueueEnter (heap : RingHeap (RingAddr Tid Wq) Tid) (queue : Wq) (thread : Tid)
    (after : Bool) : Option (RingHeap (RingAddr Tid Wq) Tid) :=
  linkedRingInsert (waitqueueElem heap thread) (.wqThreads queue) (.tWaitEntry thread) after

/-- `waitqueue_get_first` up to `sched_actualize`: the result, the rings and the threads. -/
def waitqueueGetFirst (heap : RingHeap (RingAddr Tid Wq) Tid) (threads : Tid → Thread Wq)
    (queue : Wq) : Option (ℤ × RingHeap (RingAddr Tid Wq) Tid × (Tid → Thread Wq)) := do
  let elem ← (heap (.wqThreads queue)).prev
  if elem = .wqThreads queue then
    return (0, heap, threads)
  let thread ← (heap elem).data
  let removed ← linkedRingRemove heap elem
  return (1, removed, Function.update threads thread { threads thread with tWaitQueue := none })

end Code

namespace WaitState

variable {Tid Wq : Type} [DecidableEq Tid] [DecidableEq Wq]

def goto (state : WaitState Tid Wq) (thread : Tid) (pc : WaitPc Wq) : WaitState Tid Wq :=
  { state with pcs := Function.update state.pcs thread pc }

def setStateflags (state : WaitState Tid Wq) (thread : Tid) (stateflags : BitVec 32) :
    WaitState Tid Wq :=
  { state with
    threads := Function.update state.threads thread
      { state.threads thread with tStateflags := stateflags } }

def setLock (state : WaitState Tid Wq) (queue : Wq) (holder : Option Tid) : WaitState Tid Wq :=
  { state with locks := Function.update state.locks queue holder }

/-- One step of one thread, or of the scheduler. -/
inductive Step (state : WaitState Tid Wq) : WaitLabel Tid Wq → WaitState Tid Wq → Prop where
  | acquire {thread : Tid} {queue : Wq} (isOutside : state.pcs thread = .outside)
      (free : state.locks queue = none) :
      Step state (.acquire thread queue) (state.setLock queue (some thread))
  | release {thread : Tid} {queue : Wq} (isOutside : state.pcs thread = .outside)
      (held : state.locks queue = some thread) :
      Step state (.release thread queue) (state.setLock queue none)
  | enter {thread : Tid} {queue : Wq} {after : Bool} {heap : RingHeap (RingAddr Tid Wq) Tid}
      (isOutside : state.pcs thread = .outside) (held : state.locks queue = some thread)
      (inserted : waitqueueEnter state.heap queue thread after = some heap) :
      Step state (.enter thread queue after)
        ({ state with heap := heap }.goto thread (.entered queue))
  | unlock {thread : Tid} {queue : Wq} (isEntered : state.pcs thread = .entered queue) :
      Step state (.unlock thread) ((state.setLock queue none).goto thread (.unlocked queue))
  | setFlag {thread : Tid} {queue : Wq} (isUnlocked : state.pcs thread = .unlocked queue) :
      Step state (.setFlag thread)
        ((state.setStateflags thread
          ((state.threads thread).tStateflags ||| threadSfQueueWait)).goto thread (.flagged queue))
  | resume {thread : Tid} {queue : Wq} (isFlagged : state.pcs thread = .flagged queue)
      (runs : schedIsSuspended (state.threads thread) = false) :
      Step state (.resume thread) (state.goto thread (.resumed queue))
  | clearFlag {thread : Tid} {queue : Wq} (isResumed : state.pcs thread = .resumed queue) :
      Step state (.clearFlag thread)
        ((state.setStateflags thread
          ((state.threads thread).tStateflags &&& ~~~threadSfQueueWait)).goto thread
            (.cleared queue))
  | relock {thread : Tid} {queue : Wq} (isCleared : state.pcs thread = .cleared queue)
      (free : state.locks queue = none) :
      Step state (.relock thread) ((state.setLock queue (some thread)).goto thread .outside)
  | getFirst {thread : Tid} {queue : Wq} {ret : ℤ} {heap : RingHeap (RingAddr Tid Wq) Tid}
      {threads : Tid → Thread Wq} (isOutside : state.pcs thread = .outside)
      (held : state.locks queue = some thread)
      (woken : waitqueueGetFirst state.heap state.threads queue = some (ret, heap, threads)) :
      Step state (.getFirst thread queue) { state with heap := heap, threads := threads }
  | schedule {thread : Tid} {stateflags : BitVec 32}
      (sameWait : stateflags &&& threadSfQueueWait =
        (state.threads thread).tStateflags &&& threadSfQueueWait) :
      Step state (.schedule thread stateflags) (state.setStateflags thread stateflags)

/-- Threads as `thread_allocate` makes them, on queues whose rings are empty. -/
structure Initial (state : WaitState Tid Wq) : Prop where
  queues : state.heap.Rings RingAddr.wqThreads fun _ => []
  threads : ∀ thread, state.threads thread = threadTemplate Wq
  locks : ∀ queue, state.locks queue = none
  pcs : ∀ thread, state.pcs thread = .outside

def system (Tid Wq : Type) [DecidableEq Tid] [DecidableEq Wq] :
    TransitionSystem (WaitState Tid Wq) (WaitLabel Tid Wq) where
  init := Initial
  step := Step

/-- The thread's `t_wait_entry` is on the ring of some wait queue. -/
def Linked (state : WaitState Tid Wq) (thread : Tid) : Prop :=
  ∃ queue nodes, state.heap.IsRing (.wqThreads queue) nodes ∧ .tWaitEntry thread ∈ nodes

/-- The thread has entered a queue and set `THREAD_SF_QUEUE_WAIT`. -/
def Waiting (state : WaitState Tid Wq) (thread : Tid) : Prop :=
  ∃ queue, state.pcs thread = .flagged queue ∨ state.pcs thread = .resumed queue

/-- After the step every waiting thread that is still linked is suspended; the step does not
return from `waitqueue_wait` to a linked thread and does not insert a linked entry. -/
structure Blocks (source : WaitState Tid Wq) (label : WaitLabel Tid Wq)
    (target : WaitState Tid Wq) : Prop where
  suspended : ∀ thread, target.Waiting thread → target.Linked thread →
    schedIsSuspended (target.threads thread) = true
  returns : ∀ thread, label = .relock thread → ¬target.Linked thread
  inserts : ∀ thread queue after, label = .enter thread queue after → ¬source.Linked thread

/-- If the step stores the flag, the thread is off the queue already. -/
def FlagsUnlinked (source : WaitState Tid Wq) (label : WaitLabel Tid Wq) : Prop :=
  ∀ thread, label = .setFlag thread → ¬source.Linked thread

/-- The rings of the wait queues, which hold entries of threads between the enqueue and the
store of the flag only. -/
structure Queued (state : WaitState Tid Wq) (nodes : Wq → List (RingAddr Tid Wq)) : Prop where
  rings : state.heap.Rings RingAddr.wqThreads nodes
  places : ∀ thread queue, .tWaitEntry thread ∈ nodes queue →
    ∃ other, state.pcs thread = .entered other ∨ state.pcs thread = .unlocked other

variable {state next : WaitState Tid Wq} {nodes : Wq → List (RingAddr Tid Wq)}
  {label : WaitLabel Tid Wq}

omit [DecidableEq Tid] [DecidableEq Wq] in
theorem Queued.linked_iff (queued : state.Queued nodes) (thread : Tid) :
    state.Linked thread ↔ ∃ queue, .tWaitEntry thread ∈ nodes queue := by
  constructor
  · rintro ⟨queue, others, ring, entryMem⟩
    rw [← (queued.rings.isRing queue).unique ring] at entryMem
    exact ⟨queue, entryMem⟩
  · rintro ⟨queue, entryMem⟩
    exact ⟨queue, nodes queue, queued.rings.isRing queue, entryMem⟩

omit [DecidableEq Tid] [DecidableEq Wq] in
theorem Queued.not_linked (queued : state.Queued nodes) {thread : Tid}
    (notEntered : ∀ queue, state.pcs thread ≠ .entered queue)
    (notUnlocked : ∀ queue, state.pcs thread ≠ .unlocked queue) : ¬state.Linked thread := by
  rw [queued.linked_iff]
  rintro ⟨queue, entryMem⟩
  rcases queued.places thread queue entryMem with ⟨other, isEntered | isUnlocked⟩
  · exact notEntered other isEntered
  · exact notUnlocked other isUnlocked

omit [DecidableEq Tid] [DecidableEq Wq] in
theorem Queued.congr (queued : state.Queued nodes) (sameHeap : next.heap = state.heap)
    (samePcs : next.pcs = state.pcs) : next.Queued nodes := by
  refine ⟨?_, ?_⟩
  · rw [sameHeap]
    exact queued.rings
  · rw [samePcs]
    exact queued.places

omit [DecidableEq Wq] in
theorem Queued.goto_unlinked (queued : state.Queued nodes) {thread : Tid}
    (notLinked : ¬state.Linked thread) (pc : WaitPc Wq) : (state.goto thread pc).Queued nodes := by
  refine ⟨queued.rings, ?_⟩
  intro other queue entryMem
  have different : other ≠ thread := by
    rintro rfl
    exact notLinked ((queued.linked_iff other).mpr ⟨queue, entryMem⟩)
  simp only [goto, Function.update_of_ne different]
  exact queued.places other queue entryMem

omit [DecidableEq Wq] in
theorem Queued.goto_place (queued : state.Queued nodes) (thread : Tid) {pc : WaitPc Wq}
    (place : ∃ queue, pc = .entered queue ∨ pc = .unlocked queue) :
    (state.goto thread pc).Queued nodes := by
  refine ⟨queued.rings, ?_⟩
  intro other queue entryMem
  by_cases same : other = thread
  · subst other
    simpa only [goto, Function.update_self] using place
  · simp only [goto, Function.update_of_ne same]
    exact queued.places other queue entryMem

theorem Queued.enter (queued : state.Queued nodes) {thread : Tid} {queue : Wq} {after : Bool}
    {heap : RingHeap (RingAddr Tid Wq) Tid} (notLinked : ¬state.Linked thread)
    (inserted : waitqueueEnter state.heap queue thread after = some heap) :
    ∃ changed, ({ state with heap := heap }.goto thread (.entered queue)).Queued changed := by
  have fresh : ∀ other, RingAddr.tWaitEntry thread ∉ RingAddr.wqThreads other :: nodes other := by
    intro other entryMem
    rcases List.mem_cons.mp entryMem with isHead | entryMem
    · simp at isHead
    · exact notLinked ((queued.linked_iff thread).mpr ⟨other, entryMem⟩)
  have prepared : (waitqueueElem state.heap thread).Rings RingAddr.wqThreads nodes :=
    queued.rings.setData _ _
  rcases linkedRingInsert_rings prepared queue fresh after with ⟨linked, insertedAgain, rings⟩
  rw [waitqueueEnter, insertedAgain, Option.some.injEq] at inserted
  subst linked
  refine ⟨_, rings, ?_⟩
  intro other place entryMem
  by_cases same : other = thread
  · subst other
    exact ⟨queue, Or.inl (by simp [goto])⟩
  · have before : .tWaitEntry other ∈ nodes place := by
      by_cases here : place = queue
      · subst place
        cases after <;> simpa [same] using entryMem
      · simpa [Function.update_of_ne here] using entryMem
    simp only [goto, Function.update_of_ne same]
    exact queued.places other place before

theorem Queued.getFirst (queued : state.Queued nodes) {queue : Wq} {ret : ℤ}
    {heap : RingHeap (RingAddr Tid Wq) Tid} {threads : Tid → Thread Wq}
    (woken : waitqueueGetFirst state.heap state.threads queue = some (ret, heap, threads)) :
    ∃ changed, { state with heap := heap, threads := threads }.Queued changed := by
  have ring := queued.rings.isRing queue
  have prev := ring.prev_head
  rcases List.eq_nil_or_concat' (nodes queue) with empty | ⟨front, last, split⟩
  · simp [waitqueueGetFirst, prev, empty] at woken
    exact ⟨nodes, queued.congr woken.2.1.symm rfl⟩
  · rw [split] at ring prev
    have notHead : last ≠ .wqThreads queue := by
      rintro rfl
      simpa using (List.nodup_cons.mp ring.nodup).1
    have prevLast : (state.heap (.wqThreads queue)).prev = some last := by simp [prev]
    have removed := linkedRingRemove_mem ring
    have rings := queued.rings.unsplice split
    generalize state.heap.unsplice _ _ = unspliced at removed rings
    cases payload : (state.heap last).data with
    | none => simp [waitqueueGetFirst, prevLast, notHead, payload] at woken
    | some thread =>
        simp [waitqueueGetFirst, prevLast, notHead, payload, removed] at woken
        rcases woken with ⟨_, rfl, _⟩
        refine ⟨_, rings, ?_⟩
        intro other place entryMem
        apply queued.places other place
        by_cases here : place = queue
        · subst place
          rw [split]
          simp at entryMem
          exact List.mem_append_left _ entryMem
        · simpa [Function.update_of_ne here] using entryMem

/-- A step keeps the queues in order if it does not store the flag of a linked thread. -/
theorem Queued.step (queued : state.Queued nodes) (stepped : Step state label next)
    (unlinked : state.FlagsUnlinked label) : ∃ changed, next.Queued changed := by
  have parked {thread : Tid} (notEntered : ∀ queue, state.pcs thread ≠ .entered queue)
      (notUnlocked : ∀ queue, state.pcs thread ≠ .unlocked queue) (pc : WaitPc Wq) :
      (state.goto thread pc).Queued nodes :=
    queued.goto_unlinked (queued.not_linked notEntered notUnlocked) pc
  cases stepped with
  | acquire _ _ => exact ⟨nodes, queued.congr rfl rfl⟩
  | release _ _ => exact ⟨nodes, queued.congr rfl rfl⟩
  | enter isOutside _ inserted =>
      exact queued.enter (queued.not_linked (by simp [isOutside]) (by simp [isOutside])) inserted
  | unlock _ =>
      exact ⟨nodes, (queued.goto_place _ ⟨_, Or.inr rfl⟩).congr rfl rfl⟩
  | setFlag _ =>
      exact ⟨nodes, (queued.goto_unlinked (unlinked _ rfl) _).congr rfl rfl⟩
  | resume isFlagged _ =>
      exact ⟨nodes, parked (by simp [isFlagged]) (by simp [isFlagged]) _⟩
  | clearFlag isResumed =>
      exact ⟨nodes, (parked (by simp [isResumed]) (by simp [isResumed]) _).congr rfl rfl⟩
  | relock isCleared _ =>
      exact ⟨nodes, (parked (by simp [isCleared]) (by simp [isCleared]) _).congr rfl rfl⟩
  | getFirst _ _ woken => exact queued.getFirst woken
  | schedule _ => exact ⟨nodes, queued.congr rfl rfl⟩

theorem Queued.blocks (queued : state.Queued nodes) (stepped : Step state label next)
    {changed : Wq → List (RingAddr Tid Wq)} (queuedNext : next.Queued changed) :
    Blocks state label next := by
  refine ⟨?_, ?_, ?_⟩
  · rintro thread ⟨queue, isFlagged | isResumed⟩ linked
    · exact absurd linked (queuedNext.not_linked (by simp [isFlagged]) (by simp [isFlagged]))
    · exact absurd linked (queuedNext.not_linked (by simp [isResumed]) (by simp [isResumed]))
  · rintro thread rfl
    cases stepped with
    | relock _ _ => exact queuedNext.not_linked (by simp [goto]) (by simp [goto])
  · rintro thread queue after rfl
    cases stepped with
    | enter isOutside _ _ => exact queued.not_linked (by simp [isOutside]) (by simp [isOutside])

/-- No thread has a wait queue in its fields. -/
def NoWaitQueue (state : WaitState Tid Wq) : Prop :=
  ∀ thread, (state.threads thread).tWaitQueue = none

theorem waitqueueGetFirst_noWaitQueue {queue : Wq} {ret : ℤ}
    {heap : RingHeap (RingAddr Tid Wq) Tid} {threads : Tid → Thread Wq}
    (noQueue : state.NoWaitQueue)
    (woken : waitqueueGetFirst state.heap state.threads queue = some (ret, heap, threads)) :
    ∀ thread, (threads thread).tWaitQueue = none := by
  intro other
  simp only [waitqueueGetFirst, Option.bind_eq_bind, Option.bind_eq_some_iff] at woken
  rcases woken with ⟨elem, _, woken⟩
  split at woken
  · simp only [Option.pure_def, Option.some.injEq, Prod.mk.injEq] at woken
    rw [← woken.2.2]
    exact noQueue other
  · simp only [Option.pure_def, Option.bind_eq_some_iff, Option.some.injEq, Prod.mk.injEq] at woken
    rcases woken with ⟨thread, _, removed, _, _, _, rfl⟩
    by_cases same : other = thread
    · subst other
      simp
    · simp [Function.update_of_ne same, noQueue other]

omit [DecidableEq Wq] in
theorem NoWaitQueue.setStateflags (noQueue : state.NoWaitQueue) (thread : Tid)
    (stateflags : BitVec 32) : (state.setStateflags thread stateflags).NoWaitQueue := by
  intro other
  by_cases same : other = thread
  · subst other
    simp [WaitState.setStateflags, noQueue thread]
  · simp [WaitState.setStateflags, Function.update_of_ne same, noQueue other]

theorem NoWaitQueue.step (noQueue : state.NoWaitQueue) (stepped : Step state label next) :
    next.NoWaitQueue := by
  cases stepped with
  | acquire _ _ => exact noQueue
  | release _ _ => exact noQueue
  | enter _ _ _ => exact noQueue
  | unlock _ => exact noQueue
  | setFlag _ => exact noQueue.setStateflags _ _
  | resume _ _ => exact noQueue
  | clearFlag _ => exact noQueue.setStateflags _ _
  | relock _ _ => exact noQueue
  | getFirst _ _ woken => exact waitqueueGetFirst_noWaitQueue noQueue woken
  | schedule _ => exact noQueue.setStateflags _ _

/-- Storing the flag of a linked thread leaves it waiting and not suspended. -/
theorem NoWaitQueue.not_blocks (noQueue : state.NoWaitQueue) {thread : Tid}
    (stepped : Step state (.setFlag thread) next) (linked : state.Linked thread) :
    ¬Blocks state (.setFlag thread) next := by
  intro blocks
  have noQueueNext := noQueue.step stepped
  have waiting : next.Waiting thread ∧ next.Linked thread := by
    cases stepped with
    | setFlag _ => exact ⟨⟨_, Or.inl (Function.update_self _ _ _)⟩, linked⟩
  have suspended := blocks.suspended thread waiting.1 waiting.2
  rw [schedIsSuspended_of_tWaitQueue_none (noQueueNext thread)] at suspended
  simp at suspended

/-- A run blocks correctly exactly if every thread that stores its flag is off the queue
by then. -/
theorem blocks_iff {start final : WaitState Tid Wq}
    {trace : List (WaitState Tid Wq × WaitLabel Tid Wq × WaitState Tid Wq)}
    (run : (system Tid Wq).Run start trace final) :
    (∀ source label target, (source, label, target) ∈ trace → Blocks source label target) ↔
      ∀ source label target, (source, label, target) ∈ trace → source.FlagsUnlinked label := by
  constructor
  · rintro blocks source label target stepMem thread rfl linked
    have initially : ∀ state, (system Tid Wq).init state → state.NoWaitQueue := by
      intro state initial thread
      rw [initial.threads thread]
      rfl
    have states := (run.invariant NoWaitQueue (fun _ _ _ => True) initially
      (fun _ _ _ noQueue stepped _ => noQueue.step stepped) (fun _ _ _ _ => trivial)).2
    rcases states source (.setFlag thread) target stepMem with ⟨noQueue, stepped, _⟩
    exact noQueue.not_blocks stepped linked (blocks _ _ _ stepMem)
  · intro unlinked source label target stepMem
    have initially : ∀ state, (system Tid Wq).init state → ∃ nodes, state.Queued nodes :=
      fun state initial => ⟨_, initial.queues, by simp⟩
    have kept : ∀ state label next, (∃ nodes, state.Queued nodes) →
        (system Tid Wq).step state label next → state.FlagsUnlinked label →
          ∃ nodes, next.Queued nodes :=
      fun state label next ⟨_, queued⟩ stepped allowed => queued.step stepped allowed
    have states := (run.invariant (fun state => ∃ nodes, state.Queued nodes)
      (fun state label _ => state.FlagsUnlinked label) initially kept unlinked).2
    rcases states source label target stepMem with ⟨⟨nodes, queued⟩, stepped, changed, queuedNext⟩
    exact queued.blocks stepped queuedNext

/-- Threads that have just been allocated, and one empty queue. -/
def idle (Tid : Type) : WaitState Tid Unit where
  heap
    | .wqThreads queue => ⟨some (.wqThreads queue), some (.wqThreads queue), none⟩
    | _ => ⟨none, none, none⟩
  threads _ := threadTemplate Unit
  locks _ := none
  pcs _ := .outside

theorem idle_initial (Tid : Type) [DecidableEq Tid] : (idle Tid).Initial := by
  refine ⟨⟨fun queue => ⟨⟨rfl, rfl⟩, by simp⟩, ?_⟩, fun _ => rfl, fun _ => rfl, fun _ => rfl⟩
  intro queue other different
  exact absurd rfl different

/-- A waker takes the thread off the queue before it stores the flag. -/
theorem blocks_woken :
    ∃ trace final, (system Bool Unit).Run (idle Bool) trace final ∧
      trace.map (fun step => step.2.1) =
        [.acquire true (), .enter true () false, .unlock true, .acquire false (),
          .getFirst false (), .setFlag true] ∧
      ∀ source label target, (source, label, target) ∈ trace → Blocks source label target := by
  have started : (system Bool Unit).Run (idle Bool) [] (idle Bool) := .nil (idle_initial Bool)
  have acquired := started.snoc (@Step.acquire Bool Unit _ _ _ true () rfl rfl)
  have entered := acquired.snoc (@Step.enter Bool Unit _ _ _ true () false _ rfl rfl rfl)
  have unlocked := entered.snoc (@Step.unlock Bool Unit _ _ _ true () rfl)
  have waker := unlocked.snoc (@Step.acquire Bool Unit _ _ _ false () rfl rfl)
  have woken := waker.snoc (@Step.getFirst Bool Unit _ _ _ false () _ _ _ rfl rfl rfl)
  have flagged := woken.snoc (@Step.setFlag Bool Unit _ _ _ true () rfl)
  refine ⟨_, _, flagged, rfl, (blocks_iff flagged).mpr ?_⟩
  intro source label target stepMem thread isSetFlag
  subst isSetFlag
  simp only [List.nil_append, List.cons_append, List.mem_cons, Prod.mk.injEq, reduceCtorEq,
    false_and, and_false, List.not_mem_nil, or_false, false_or] at stepMem
  rcases stepMem with ⟨rfl, _, _⟩
  rintro ⟨queue, nodes, ring, entryMem⟩
  have empty : nodes = [] := by
    apply ring.unique
    exact ⟨⟨rfl, rfl⟩, by simp⟩
  simp [empty] at entryMem

/-- A thread that waits alone returns from `waitqueue_wait` with its entry on the queue. -/
theorem not_blocks_alone :
    ∃ trace final, (system Unit Unit).Run (idle Unit) trace final ∧
      (¬∀ source label target, (source, label, target) ∈ trace → Blocks source label target) ∧
      final.pcs () = .outside ∧ final.Linked () := by
  have started : (system Unit Unit).Run (idle Unit) [] (idle Unit) := .nil (idle_initial Unit)
  have acquired := started.snoc (@Step.acquire Unit Unit _ _ _ () () rfl rfl)
  have entered := acquired.snoc (@Step.enter Unit Unit _ _ _ () () false _ rfl rfl rfl)
  have unlocked := entered.snoc (@Step.unlock Unit Unit _ _ _ () () rfl)
  have flagged := unlocked.snoc (@Step.setFlag Unit Unit _ _ _ () () rfl)
  have resumed := flagged.snoc (@Step.resume Unit Unit _ _ _ () () rfl rfl)
  have cleared := resumed.snoc (@Step.clearFlag Unit Unit _ _ _ () () rfl)
  have returned := cleared.snoc (@Step.relock Unit Unit _ _ _ () () rfl rfl)
  refine ⟨_, _, returned, ?_, rfl, ?_⟩
  · intro blocks
    have last := (blocks _ _ _ (List.mem_append_right _ (List.mem_singleton_self _))).returns () rfl
    exact last ⟨(), [.tWaitEntry ()], ⟨⟨⟨rfl, rfl⟩, ⟨rfl, rfl⟩⟩, by simp⟩, by simp⟩
  · exact ⟨(), [.tWaitEntry ()], ⟨⟨⟨rfl, rfl⟩, ⟨rfl, rfl⟩⟩, by simp⟩, by simp⟩

end WaitState

end Rkernel
