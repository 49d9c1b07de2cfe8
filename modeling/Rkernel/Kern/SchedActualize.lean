import Rkernel.Kern.SchedQueue

/-!
# Refiling a queued thread

`sched_actualize` takes `THREAD_SF_PREEMPT` as the sign that a thread is on a ring of
the scheduler. `sched_preempt` sets the flag when it puts a thread on a ring;
`sched_insert` puts a thread there as well and does not. So a thread that has been
inserted and not yet run stays where it was filed, whatever becomes of its priority.
-/

namespace Rkernel

variable {Tid Wq : Type}

/-- An insertion or a change of a priority. -/
def SchedOp.Plain : SchedOp Tid Wq → Prop
  | insert _ _ | prioritize _ _ => True
  | actualize _ _ | store _ _ _ => False

namespace Scheduler

/-- No thread is preempted or waits, as `thread_allocate` leaves them. -/
def Calm (scheduler : Scheduler Tid Wq) : Prop :=
  ∀ thread, (scheduler.threads thread).tStateflags &&& threadSfPreempt = 0 ∧
    (scheduler.threads thread).tWaitQueue = none

variable {scheduler next : Scheduler Tid Wq} {thread : Tid}

theorem Filed.unique {Key : Type} {place : Key → Option (Fin schedNrqs)}
    {queues others : Key → List Tid} (filed : Filed place scheduler queues)
    (again : Filed place scheduler others) : queues = others := by
  funext key
  have same := (filed.rings.isRing key).unique (again.rings.isRing key)
  exact List.map_injective_iff.mpr (fun _ _ => RingAddr.tQueueEntry.inj) same

theorem Calm.congr (calm : Calm scheduler) (sameThreads : next.threads = scheduler.threads) :
    Calm next := by
  rw [Calm, sameThreads]
  exact calm

theorem Calm.filedOn_eq (calm : Calm scheduler) (thread : Tid) :
    filedOn (scheduler.threads thread) = some (runRing (scheduler.threads thread)) := by
  simp [filedOn, ringOf, (calm thread).2]

variable [DecidableEq Tid]

/-- The thread is on the ring that fits its priority and its state, once, and on no other. -/
def Refiled (scheduler : Scheduler Tid Wq) (thread : Tid) : Prop :=
  ∃ queues : Option (Fin schedNrqs) → List Tid, Filed id scheduler queues ∧
    ∀ key, (queues key).count thread = if key = filedOn (scheduler.threads thread) then 1 else 0

theorem Calm.modifyThread (calm : Calm scheduler) (thread : Tid)
    {change : Thread Wq → Thread Wq}
    (keepsPreempt : ∀ thread, (change thread).tStateflags &&& threadSfPreempt =
      thread.tStateflags &&& threadSfPreempt)
    (keepsQueue : ∀ thread, (change thread).tWaitQueue = thread.tWaitQueue) :
    Calm (scheduler.modifyThread thread change) := by
  intro other
  by_cases same : other = thread
  · subst same
    simpa [Scheduler.modifyThread, keepsPreempt, keepsQueue] using calm other
  · simpa [Scheduler.modifyThread, same] using calm other

theorem Calm.orderedApply (calm : Calm scheduler) (myself : Tid) {applial : BitVec 32 → BitVec 32}
    (keeps : ∀ flags, applial flags &&& threadSfPreempt = flags &&& threadSfPreempt) :
    Calm (scheduler.orderedApply myself applial) :=
  calm.modifyThread myself (fun _ => keeps _) (fun _ => rfl)

variable [DecidableEq Wq]

theorem Calm.schedInsert (calm : Calm scheduler) {cpu : ℕ} {myself : Tid}
    (ok : scheduler.schedInsert cpu myself thread = .ok next) : Calm next := by
  have onCpu : Calm (scheduler.modifyThread thread fun thread =>
      { thread with tCurrentCpu := some cpu }) :=
    calm.modifyThread thread (fun _ => rfl) (fun _ => rfl)
  have prepared := onCpu.orderedApply myself fun flags =>
    BitVec.setFlag_and flags (show threadSfLockSched &&& threadSfPreempt = 0 from rfl)
  cases reenqueued : ((scheduler.modifyThread thread fun thread =>
      { thread with tCurrentCpu := some cpu }).orderedApply myself
        (· ||| threadSfLockSched)).schedReenqueue thread with
  | error fault =>
      simp only [Scheduler.schedInsert, reenqueued] at ok
      cases ok
  | ok middle =>
      have calmMiddle := prepared.congr (schedReenqueue_threads reenqueued)
      have counted : Calm { middle with schedThreadCount := middle.schedThreadCount + 1 } :=
        calmMiddle.congr rfl
      simp only [Scheduler.schedInsert, reenqueued] at ok
      cases ok
      exact counted.orderedApply myself fun flags => BitVec.clearFlag_and flags rfl

theorem Calm.run (calm : Calm scheduler) {cpu : ℕ} {op : SchedOp Tid Wq} (plain : op.Plain)
    (ok : op.run cpu scheduler = .ok next) : Calm next := by
  cases op with
  | insert myself thread => exact calm.schedInsert ok
  | prioritize thread priority =>
      cases ok
      exact calm.modifyThread thread (fun _ => rfl) (fun _ => rfl)
  | actualize _ _ => exact plain.elim
  | store _ _ _ => exact plain.elim

variable {filing filed : Filing Tid} {queues : Option (Fin schedNrqs) → List Tid} {cpu : ℕ}

/-- Insertions into a scheduler with well-formed rings. -/
theorem Tracked.runAll_calm (tracked : Tracked id scheduler filing queues) (calm : Calm scheduler)
    {ops : List (SchedOp Tid Wq)} (plain : ∀ op ∈ ops, op.Plain)
    (allowed : SchedOp.AllAllowed cpu ops scheduler filing) {final : Scheduler Tid Wq}
    (ran : SchedOp.runAll cpu ops scheduler filing = .ok (final, filed)) :
    (∃ queues, Tracked id final filed queues) ∧ Calm final := by
  induction ops generalizing scheduler filing queues with
  | nil =>
      cases ran
      exact ⟨⟨queues, tracked⟩, calm⟩
  | cons op ops ih =>
      rcases allowed with ⟨isAllowed, restAllowed⟩
      rcases tracked.run Function.injective_id isAllowed (fun _ _ _ => ⟨_, rfl⟩) cpu with
        ⟨next, ok, ⟨_, trackedNext⟩, _⟩
      have rest : SchedOp.runAll cpu ops next (op.file scheduler filing) = .ok (final, filed) := by
        simpa [SchedOp.runAll, ok, Bind.bind, Except.bind] using ran
      have calmNext := calm.run (plain op List.mem_cons_self) ok
      exact ih trackedNext calmNext
        (fun other otherMem => plain other (List.mem_cons_of_mem _ otherMem))
        (restAllowed next ok) rest

/-- `sched_actualize` of a queued thread whose flag is clear. -/
theorem Tracked.refiled_iff (tracked : Tracked id scheduler filing queues) (calm : Calm scheduler)
    (isInserted : thread ∈ filing.inserted) (notIdle : scheduler.schedIdle ≠ some thread)
    (myself : Tid) :
    (∃ next, scheduler.schedActualize myself thread = .ok next ∧ next.Refiled thread) ↔
      filing.place thread = some (runRing (scheduler.threads thread)) := by
  have flag := orderedApply_and_preempt scheduler myself thread
    fun flags => BitVec.setFlag_and flags (show threadSfLockSched &&& threadSfPreempt = 0 from rfl)
  have actualized : scheduler.schedActualize myself thread =
      .ok ((scheduler.orderedApply myself (· ||| threadSfLockSched)).orderedApply myself
        (· &&& ~~~threadSfLockSched)) := by
    have running := not_not.mpr (flag.trans (calm thread).1)
    simp only [Scheduler.schedActualize, tracked.onCpu thread isInserted, if_false]
    rw [schedRefile, if_neg running]
    rfl
  have samePlace : filedOn (((scheduler.orderedApply myself (· ||| threadSfLockSched)).orderedApply
      myself (· &&& ~~~threadSfLockSched)).threads thread) =
        some (runRing (scheduler.threads thread)) := by
    rw [filedOn_orderedApply _ _ _ fun flags => BitVec.clearFlag_and flags rfl,
      filedOn_orderedApply _ _ _ fun flags => BitVec.setFlag_and flags rfl, calm.filedOn_eq]
  have counted : ∀ key, (queues key).count thread = if key = filing.place thread then 1 else 0 := by
    intro key
    rw [(tracked.filed.nodup key).count, if_congr (tracked.mem key thread) rfl rfl]
    simp [isInserted, notIdle, eq_comm]
  constructor
  · rintro ⟨next, ok, others, filed, once⟩
    rw [actualized] at ok
    cases ok
    have same : others = queues := filed.unique (tracked.filed.congr rfl)
    have there := once (filing.place thread)
    rw [same, counted, samePlace, if_pos rfl] at there
    by_contra different
    rw [if_neg different] at there
    cases there
  · intro matching
    refine ⟨_, actualized, queues, tracked.filed.congr rfl, ?_⟩
    rw [samePlace, ← matching]
    exact counted

omit [DecidableEq Tid] [DecidableEq Wq] in
theorem tracked_of_empty (wellFormed : Filed id scheduler fun _ => []) :
    Tracked id scheduler ⟨[], fun _ => none⟩ fun _ => [] :=
  ⟨wellFormed, by simp, by simp, by simp⟩

omit [DecidableEq Tid] [DecidableEq Wq] in
theorem calm_of_template (allocated : ∀ thread, scheduler.threads thread = threadTemplate Wq) :
    Calm scheduler := by
  intro thread
  rw [allocated]
  exact ⟨BitVec.zero_and, rfl⟩

/-- A thread that has been inserted is refiled exactly if its ring is still the same. -/
theorem refiled_iff_runRing_eq {start state : Scheduler Tid Wq} {ops : List (SchedOp Tid Wq)}
    (wellFormed : Filed id start fun _ => [])
    (allocated : ∀ thread, start.threads thread = threadTemplate Wq)
    (plain : ∀ op ∈ ops, op.Plain)
    (allowed : SchedOp.AllAllowed cpu ops start ⟨[], fun _ => none⟩)
    (ran : SchedOp.runAll cpu ops start ⟨[], fun _ => none⟩ = .ok (state, filing))
    (isInserted : thread ∈ filing.inserted) (notIdle : state.schedIdle ≠ some thread)
    (myself : Tid) :
    (∃ next, state.schedActualize myself thread = .ok next ∧ next.Refiled thread) ↔
      filing.place thread = some (runRing (state.threads thread)) := by
  rcases (tracked_of_empty wellFormed).runAll_calm (calm_of_template allocated) plain allowed ran
    with ⟨⟨queues, tracked⟩, calm⟩
  exact tracked.refiled_iff calm isInserted notIdle myself

/-- A scheduler with empty rings. -/
def empty : Scheduler Bool Unit where
  heap addr := ⟨some addr, some addr, none⟩
  threads _ := threadTemplate Unit
  schedRunDecay := schedPrios
  schedIdle := none
  schedThreadCount := 1

theorem empty_filed : Filed id empty fun _ => [] := by
  apply filed_of_empty Function.injective_id
  · exact fun key => ⟨⟨rfl, rfl⟩, by simp⟩
  · exact fun _ => rfl

/-- The thread `true` is inserted and then gets another priority. -/
def insertThenPrioritize (priority : BitVec 32) : List (SchedOp Bool Unit) :=
  [.insert false true, .prioritize true priority]

theorem insertThenPrioritize_plain (priority : BitVec 32) :
    ∀ op ∈ insertThenPrioritize priority, op.Plain := by
  simp [insertThenPrioritize, SchedOp.Plain]

theorem insertThenPrioritize_allowed (priority : BitVec 32) :
    SchedOp.AllAllowed 0 (insertThenPrioritize priority) empty ⟨[], fun _ => none⟩ :=
  ⟨List.not_mem_nil, fun _ _ => ⟨trivial, fun _ _ => trivial⟩⟩

theorem insertThenPrioritize_run (priority : BitVec 32) :
    ∃ state filing, SchedOp.runAll 0 (insertThenPrioritize priority) empty ⟨[], fun _ => none⟩ =
        .ok (state, filing) ∧ true ∈ filing.inserted ∧ state.schedIdle ≠ some true ∧
      filing.place true = some 16 ∧ (state.threads true).tPriority = priority := by
  have notInserted : true ∉ ([] : List Bool) := List.not_mem_nil
  rcases (tracked_of_empty empty_filed).schedInsert Function.injective_id notInserted
    (fun _ => ⟨_, rfl⟩) 0 false with ⟨next, ok, _, sameIdle, _⟩
  refine ⟨next.modifyThread true fun thread => { thread with tPriority := priority },
    (SchedOp.insert false true : SchedOp Bool Unit).file empty ⟨[], fun _ => none⟩, ?_, ?_⟩
  · simp only [SchedOp.runAll, insertThenPrioritize, SchedOp.run, ok]
    rfl
  · refine ⟨List.mem_cons_self, ?_, by decide, ?_⟩
    · have noIdle : next.schedIdle = none := sameIdle
      simp [modifyThread, noIdle]
    · simp [modifyThread]

/-- A queued thread stays on the ring of priority 16 when its priority becomes 0. -/
theorem exists_not_refiled :
    Filed id empty (fun _ => []) ∧
    SchedOp.AllAllowed 0 (insertThenPrioritize 0) empty ⟨[], fun _ => none⟩ ∧
    ∃ state filing, SchedOp.runAll 0 (insertThenPrioritize 0) empty ⟨[], fun _ => none⟩ =
        .ok (state, filing) ∧ true ∈ filing.inserted ∧ state.schedIdle ≠ some true ∧
      ¬∃ next, state.schedActualize false true = .ok next ∧ next.Refiled true := by
  rcases insertThenPrioritize_run 0 with ⟨state, filing, ran, isInserted, notIdle, place, priority⟩
  rcases (tracked_of_empty empty_filed).runAll_calm (calm_of_template fun _ => rfl)
    (insertThenPrioritize_plain 0) (insertThenPrioritize_allowed 0) ran with
    ⟨⟨queues, tracked⟩, calm⟩
  refine ⟨empty_filed, insertThenPrioritize_allowed 0, state, filing, ran, isInserted, notIdle, ?_⟩
  rw [tracked.refiled_iff calm isInserted notIdle false, place]
  simp [runRing, priority]

/-- The priority 48 belongs to the ring of priority 16. -/
theorem refiled_same_ring :
    ∃ state filing, SchedOp.runAll 0 (insertThenPrioritize 48) empty ⟨[], fun _ => none⟩ =
        .ok (state, filing) ∧ true ∈ filing.inserted ∧
      ∃ next, state.schedActualize false true = .ok next ∧ next.Refiled true := by
  rcases insertThenPrioritize_run 48 with ⟨state, filing, ran, isInserted, notIdle, place, priority⟩
  refine ⟨state, filing, ran, isInserted, ?_⟩
  rw [refiled_iff_runRing_eq empty_filed (fun _ => rfl) (insertThenPrioritize_plain 48)
    (insertThenPrioritize_allowed 48) ran isInserted notIdle false, place]
  simp only [runRing, priority]
  rfl

end Scheduler

end Rkernel
