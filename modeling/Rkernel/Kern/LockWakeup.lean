import Mathlib.Data.List.Nodup
import Rkernel.Kern.Lock

/-!
# Wake-ups of a shared lock

Every operation wakes at most one sleeper, so a wake-up has to be handed on. This
file takes the wait queue as a sequence from which a thread returns only after it
has been taken out, and shows for the operations without `sl_drain` that no
wake-up is lost: while threads are queued, either the lock is held or some thread
has been woken and has not run its test again.

The obligation moves with the spinlock. A woken thread that has taken the spinlock
owes nothing until it leaves: it leaves with the lock granted, or asleep because
the lock is held, or after it has woken the next sleeper.
-/

namespace Rkernel

/-- The program points of `sl_drain`. -/
def SlPc.inDrain : SlPc → Bool
  | .entering .drain | .asleep .drainNumber | .asleep .drainQueue | .drainEntry | .drainWake
  | .drainNumberTest | .drainQueueTest | .drainReturn => true
  | _ => false

namespace SharedLock

variable {Tid : Type}

/-- Some thread has been taken out of the queue and has not gone on yet. -/
def Woken (lock : SharedLock (List Tid) Tid) : Prop :=
  ∃ thread site, lock.pc thread = .asleep site ∧ thread ∉ lock.slQueue

theorem not_woken_of_forall {lock : SharedLock (List Tid) Tid}
    (notSleeping : ∀ thread, lock.pc thread = .outside ∨ thread ∈ lock.slQueue) :
    ¬lock.Woken := by
  rintro ⟨thread, site, isAsleep, unlinked⟩
  rcases notSleeping thread with isOutside | linked
  · simp [isOutside] at isAsleep
  · exact unlinked linked

/-- The queue is served: someone holds the lock or someone has been woken. -/
def Served (lock : SharedLock (List Tid) Tid) : Prop :=
  lock.slQueue ≠ [] → lock.slNumber ≠ 0 ∨ lock.Woken

/-- The queue holds sleeping threads, each once. -/
structure Queued (lock : SharedLock (List Tid) Tid) : Prop where
  asleep : ∀ thread ∈ lock.slQueue, ∃ site, lock.pc thread = .asleep site
  nodup : lock.slQueue.Nodup

/-- What is owed to the queue while the spinlock is free, or by its holder. -/
def Owed (lock : SharedLock (List Tid) Tid) : Prop :=
  match lock.slLock with
  | none => lock.Served
  | some thread =>
      match lock.pc thread with
      | .lockEntry _ | .lockReturn _ | .unlockReturn | .touchReturn => lock.Served
      | .sharedWake => lock.slNumber ≠ 0
      | _ => True

section Queue

variable {lock next : SharedLock (List Tid) Tid} {thread : Tid}

theorem Queued.notMem (queued : lock.Queued) (awake : ∀ site, lock.pc thread ≠ .asleep site) :
    thread ∉ lock.slQueue := by
  intro threadMem
  rcases queued.asleep thread threadMem with ⟨site, isAsleep⟩
  exact awake site isAsleep

theorem Served.of_number_ne_zero (nonzero : lock.slNumber ≠ 0) : lock.Served :=
  fun _ => Or.inl nonzero

theorem Served.of_empty (empty : lock.slQueue = []) : lock.Served :=
  fun nonempty => absurd empty nonempty

variable [DecidableEq Tid]

theorem Queued.move (queued : lock.Queued) (notMem : thread ∉ lock.slQueue) {target : SlPc}
    (moved : next.pc = Function.update lock.pc thread target)
    (shrinks : next.slQueue.Sublist lock.slQueue) : next.Queued := by
  refine ⟨?_, queued.nodup.sublist shrinks⟩
  intro other otherMem
  have inQueue := shrinks.subset otherMem
  have different : other ≠ thread := by
    rintro rfl
    exact notMem inQueue
  rw [moved, Function.update_of_ne different]
  exact queued.asleep other inQueue

theorem Queued.sleep (queued : lock.Queued) (notMem : thread ∉ lock.slQueue) {site : WaitSite}
    (moved : next.pc = Function.update lock.pc thread (.asleep site))
    (grows : next.slQueue.Perm (thread :: lock.slQueue)) : next.Queued := by
  refine ⟨?_, grows.nodup_iff.mpr (List.nodup_cons.mpr ⟨notMem, queued.nodup⟩)⟩
  intro other otherMem
  rw [moved]
  by_cases same : other = thread
  · subst other
    exact ⟨site, Function.update_self ..⟩
  · rw [Function.update_of_ne same]
    have inQueue := grows.subset otherMem
    simp only [List.mem_cons, same, false_or] at inQueue
    exact queued.asleep other inQueue

theorem Woken.move (woken : lock.Woken) (awake : ∀ site, lock.pc thread ≠ .asleep site)
    {target : SlPc} (moved : next.pc = Function.update lock.pc thread target)
    (grows : ∀ other ∈ next.slQueue, other = thread ∨ other ∈ lock.slQueue) : next.Woken := by
  rcases woken with ⟨sleeper, site, isAsleep, unlinked⟩
  have different : sleeper ≠ thread := by
    rintro rfl
    exact awake site isAsleep
  refine ⟨sleeper, site, ?_, ?_⟩
  · rw [moved, Function.update_of_ne different]
    exact isAsleep
  · intro inNext
    exact (grows sleeper inNext).elim different unlinked

theorem Served.move (served : lock.Served) (awake : ∀ site, lock.pc thread ≠ .asleep site)
    {target : SlPc} (moved : next.pc = Function.update lock.pc thread target)
    (sameNumber : next.slNumber = lock.slNumber) (sameQueue : next.slQueue = lock.slQueue) :
    next.Served := by
  intro nonempty
  rw [sameQueue] at nonempty
  rw [sameNumber]
  refine (served nonempty).imp_right fun woken => woken.move awake moved ?_
  intro other otherMem
  rw [sameQueue] at otherMem
  exact Or.inr otherMem

theorem Queued.served_getFirst (queued : lock.Queued)
    (awake : ∀ site, lock.pc thread ≠ .asleep site) {target : SlPc}
    (moved : next.pc = Function.update lock.pc thread target)
    (taken : next.slQueue = lock.slQueue.dropLast) : next.Served := by
  intro nonempty
  right
  rcases List.eq_nil_or_concat' lock.slQueue with isNil | ⟨rest, first, isConcat⟩
  · simp [taken, isNil] at nonempty
  · have firstMem : first ∈ lock.slQueue := by simp [isConcat]
    have different : first ≠ thread := by
      rintro rfl
      exact queued.notMem awake firstMem
    rcases queued.asleep first firstMem with ⟨site, isAsleep⟩
    refine ⟨first, site, ?_, ?_⟩
    · rw [moved, Function.update_of_ne different]
      exact isAsleep
    · have nodup := queued.nodup
      rw [isConcat, List.nodup_append] at nodup
      rw [taken, isConcat, List.dropLast_concat]
      intro firstRest
      exact nodup.2.2 first firstRest first (by simp) rfl

theorem Served.sleep (served : lock.Served) (awake : ∀ site, lock.pc thread ≠ .asleep site)
    {target : SlPc} (moved : next.pc = Function.update lock.pc thread target)
    (sameNumber : next.slNumber = lock.slNumber) (nonempty : lock.slQueue ≠ [])
    (grows : next.slQueue = thread :: lock.slQueue) : next.Served := by
  intro _
  rw [sameNumber]
  refine (served nonempty).imp_right fun woken => woken.move awake moved ?_
  intro other otherMem
  rw [grows, List.mem_cons] at otherMem
  exact otherMem

end Queue

/-- The inductive invariant of the runs without `sl_drain`. -/
structure WakeInvariant (lock : SharedLock (List Tid) Tid) : Prop where
  exclusive : lock.Exclusive
  queued : lock.Queued
  noDrain : ∀ thread, (lock.pc thread).inDrain = false
  notDraining : ¬lock.Draining
  lower : -2 ^ 31 ≤ lock.slNumber
  upper : lock.slNumber < 2 ^ 31
  owed : lock.Owed

section Preservation

variable [DecidableEq Tid] {lock next : SharedLock (List Tid) Tid} {thread : Tid}

theorem Exec.awake (exec : lock.Exec (sequenceOps Tid) thread next) (site : WaitSite) :
    lock.pc thread ≠ .asleep site := by
  intro isAsleep
  have holds := exec.holds
  simp [isAsleep, SlPc.holds] at holds

theorem Queued.exec (queued : lock.Queued) (exec : lock.Exec (sequenceOps Tid) thread next) :
    next.Queued := by
  have notMem : thread ∉ lock.slQueue := queued.notMem exec.awake
  cases exec with
  | lockFair atPc notDraining nonempty entered | drainNumberWait atPc nonzero entered
  | drainQueueWait atPc nonempty entered =>
      simp only [sequenceOps, if_true, Option.some.injEq] at entered
      subst entered
      exact queued.sleep notMem rfl (List.Perm.refl _)
  | internalWait atPc mustWait entered | touchWait atPc mustWait entered =>
      simp only [sequenceOps, Bool.false_eq_true, if_false, Option.some.injEq] at entered
      subst entered
      exact queued.sleep notMem rfl (List.perm_append_singleton _ _)
  | retestDraining atPc draining woken =>
      simp only [sequenceOps, Option.some.injEq] at woken
      subst woken
      exact queued.move notMem rfl (List.dropLast_sublist _)
  | sharedGrant atPc woken | unlockWake atPc woken | touchWake atPc woken
  | drainWake atPc woken =>
      simp only [sequenceOps, Option.some.injEq] at woken
      subst woken
      exact queued.move notMem rfl (List.dropLast_sublist _)
  | _ => exact queued.move notMem rfl (List.Sublist.refl _)

/-- A statement of an operation other than `sl_drain` keeps what is owed. -/
theorem Owed.exec (owed : lock.Owed) (exclusive : lock.Exclusive) (queued : lock.Queued)
    (upper : lock.slNumber < 2 ^ 31) (stillOpen : ¬lock.Draining)
    (noDrain : (lock.pc thread).inDrain = false)
    (exec : lock.Exec (sequenceOps Tid) thread next) : next.Owed := by
  have holder := (exclusive thread).mp exec.holds
  have awake := exec.awake
  simp only [Owed, holder] at owed
  cases exec with
  | lockDraining atPc draining | internalDraining atPc draining
  | retestDraining atPc draining =>
      exact (stillOpen draining).elim
  | drainFlag atPc | drainWake atPc | drainNumberWait atPc | drainNumberDone atPc
  | drainQueueWait atPc | drainQueueDone atPc | drainReturn atPc =>
      simp [atPc, SlPc.inDrain] at noDrain
  | lockFair atPc notDraining nonempty entered =>
      simp only [sequenceOps, if_true, Option.some.injEq] at entered
      simp only [atPc] at owed
      have isNonempty : lock.slQueue ≠ [] := by simpa [sequenceOps] using nonempty
      exact owed.sleep awake rfl rfl isNonempty entered.symm
  | lockDirect atPc | internalEnter atPc | retest atPc | unlockShared atPc
  | unlockExclusive atPc | touchPass atPc =>
      simp [Owed, goto, setHeld, holder]
  | internalWait atPc mustWait entered | touchWait atPc mustWait entered =>
      apply Served.of_number_ne_zero
      rename_i type queue
      cases type <;> simp only [SlType.mustWait, sleep] at mustWait ⊢ <;> omega
  | sharedCount atPc free =>
      simp only [SlType.mustWait, not_lt] at free
      simpa [Owed, goto, holder] using int32_succ_ne_zero free upper
  | sharedGrant atPc woken =>
      simp only [atPc] at owed
      simp only [Owed, goto, setHeld, holder, Function.update_self]
      exact Served.of_number_ne_zero owed
  | exclusiveGrant atPc free =>
      simp only [Owed, goto, setHeld, holder, Function.update_self]
      exact Served.of_number_ne_zero (by simp)
  | lockReturn atPc | unlockReturn atPc | touchReturn atPc =>
      simp only [atPc] at owed
      exact owed.move awake rfl rfl rfl
  | unlockWake atPc woken | touchWake atPc woken =>
      simp only [sequenceOps, Option.some.injEq] at woken
      simp only [Owed, goto, holder, Function.update_self]
      exact queued.served_getFirst awake rfl woken.symm

theorem Owed.call (owed : lock.Owed) (exclusive : lock.Exclusive) {call : SlCall}
    (atPc : lock.pc thread = .outside) : (lock.goto thread (.entering call)).Owed := by
  have awake : ∀ site, lock.pc thread ≠ .asleep site := by simp [atPc]
  cases isHolder : lock.slLock with
  | none =>
      simp only [Owed, goto, isHolder] at owed ⊢
      exact owed.move awake rfl rfl rfl
  | some holder =>
      have different : holder ≠ thread := by
        rintro rfl
        have holds := (exclusive holder).mpr isHolder
        simp [atPc, SlPc.holds] at holds
      simp only [Owed, goto, isHolder, Function.update_of_ne different] at owed ⊢
      cases atHolder : lock.pc holder <;> simp only [atHolder] at owed ⊢ <;>
        first | exact owed | exact owed.move awake rfl rfl rfl

theorem Owed.acquire (owed : lock.Owed) {call : SlCall} (atPc : lock.pc thread = .entering call)
    (free : lock.slLock = none) : (lock.acquire thread call.entry).Owed := by
  have awake : ∀ site, lock.pc thread ≠ .asleep site := by simp [atPc]
  simp only [Owed, free] at owed
  simp only [Owed, SharedLock.acquire, Function.update_self]
  cases call with
  | lock type => exact owed.move awake rfl rfl rfl
  | _ => simp [SlCall.entry]

/-- A thread that comes back from `waitqueue_wait` owes nothing yet. -/
theorem owed_resume (site : WaitSite) : (lock.acquire thread site.resume).Owed := by
  cases site <;> simp [Owed, SharedLock.acquire, WaitSite.resume]

theorem WakeInvariant.noDrain_move {target : SlPc} (invariant : lock.WakeInvariant)
    (targetFree : target.inDrain = false)
    (moved : next.pc = Function.update lock.pc thread target) (other : Tid) :
    (next.pc other).inDrain = false := by
  rw [moved]
  by_cases same : other = thread
  · subst other
    simpa using targetFree
  · simpa [same] using invariant.noDrain other

theorem WakeInvariant.exec (invariant : lock.WakeInvariant)
    (exec : lock.Exec (sequenceOps Tid) thread next) : next.WakeInvariant := by
  have noDrain := invariant.noDrain
  refine ⟨invariant.exclusive.exec exec, invariant.queued.exec exec, ?_, ?_, ?_, ?_,
    invariant.owed.exec invariant.exclusive invariant.queued invariant.upper
      invariant.notDraining (noDrain thread) exec⟩
  · have here := noDrain thread
    cases exec with
    | drainFlag atPc | drainWake atPc | drainNumberWait atPc | drainNumberDone atPc
    | drainQueueWait atPc | drainQueueDone atPc | drainReturn atPc =>
        simp [atPc, SlPc.inDrain] at here
    | _ => exact invariant.noDrain_move rfl rfl
  · have here := noDrain thread
    cases exec with
    | drainFlag atPc => simp [atPc, SlPc.inDrain] at here
    | _ => exact invariant.notDraining
  · exact exec.lower invariant.lower
  · exact exec.upper invariant.upper

theorem WakeInvariant.step {event : SlEvent Tid} (invariant : lock.WakeInvariant)
    (step : Step (sequenceOps Tid) lock event next)
    (noDrain : ∀ other, event ≠ .call other .drain) : next.WakeInvariant := by
  have exclusive := invariant.exclusive.step step
  cases step with
  | @call mover call atPc matching =>
      have awake : ∀ site, lock.pc mover ≠ .asleep site := by simp [atPc]
      have notMem := invariant.queued.notMem awake
      refine ⟨exclusive, invariant.queued.move notMem rfl (List.Sublist.refl _), ?_,
        invariant.notDraining, invariant.lower, invariant.upper,
        invariant.owed.call invariant.exclusive atPc⟩
      refine invariant.noDrain_move ?_ rfl
      cases call with
      | drain => exact (noDrain mover rfl).elim
      | _ => rfl
  | @acquire mover call atPc free =>
      have awake : ∀ site, lock.pc mover ≠ .asleep site := by simp [atPc]
      have notMem := invariant.queued.notMem awake
      refine ⟨exclusive, invariant.queued.move notMem rfl (List.Sublist.refl _), ?_,
        invariant.notDraining, invariant.lower, invariant.upper, invariant.owed.acquire atPc free⟩
      refine invariant.noDrain_move ?_ rfl
      have here := invariant.noDrain mover
      rw [atPc] at here
      cases call <;> simp_all [SlPc.inDrain, SlCall.entry]
  | exec exec => exact invariant.exec exec
  | @resume mover site atPc mayReturn free =>
      refine ⟨exclusive, invariant.queued.move mayReturn rfl (List.Sublist.refl _), ?_,
        invariant.notDraining, invariant.lower, invariant.upper, owed_resume site⟩
      refine invariant.noDrain_move ?_ rfl
      have here := invariant.noDrain mover
      rw [atPc] at here
      cases site <;> simp_all [SlPc.inDrain, WaitSite.resume]

end Preservation

variable [DecidableEq Tid]

/-- The runs in which `sl_drain` is never called. -/
def undrainedSystem (Tid : Type) [DecidableEq Tid] :
    TransitionSystem (SharedLock (List Tid) Tid) (SlEvent Tid) :=
  (system (sequenceOps Tid) []).restrict fun _ event _ => ∀ thread, event ≠ .call thread .drain

theorem wakeInvariant_of_reachable {lock : SharedLock (List Tid) Tid}
    (reachable : (undrainedSystem Tid).Reachable lock) : lock.WakeInvariant := by
  apply reachable.invariant
  · rintro lock rfl
    refine ⟨Exclusive.initial [], ⟨?_, ?_⟩, ?_, ?_, ?_, ?_, ?_⟩
    · simp [initial]
    · simp [initial]
    · simp [initial, SlPc.inDrain]
    · simp [Draining, initial]
    · simp [initial]
    · simp [initial]
    · simp [Owed, Served, initial]
  · rintro lock event next invariant ⟨step, noDrain⟩
    exact invariant.step step noDrain

/-- No wake-up is lost: with the spinlock free, a queue that is not empty has a lock that is
held, or a thread that was woken and has not run its test again. -/
theorem served_of_reachable {lock : SharedLock (List Tid) Tid}
    (reachable : (undrainedSystem Tid).Reachable lock) (free : lock.slLock = none)
    (nonempty : lock.slQueue ≠ []) :
    lock.slNumber ≠ 0 ∨ ∃ thread site, lock.pc thread = .asleep site ∧ thread ∉ lock.slQueue := by
  have owed := (wakeInvariant_of_reachable reachable).owed
  simp only [Owed, free] at owed
  exact owed nonempty

/-- Thread `false` holds the lock exclusively and thread `true` sleeps behind it. -/
def contended : SharedLock (List Bool) Bool where
  slQueue := [true]
  slNumber := -1
  slFlags := 0
  slLock := none
  pc thread := if thread then .asleep (.internal .exclusive) else .outside
  held thread type := if thread then 0 else if type = .exclusive then 1 else 0

theorem reachable_contended : (undrainedSystem Bool).Reachable contended := by
  have start : (undrainedSystem Bool).Reachable (initial []) := .init rfl
  have called : (undrainedSystem Bool).Reachable
      ((initial []).goto false (.entering (.lockGreedy .exclusive))) :=
    start.step ⟨Step.call rfl (by simp), by simp⟩
  have acquired := called.step ⟨Step.acquire (goto_pc ..) rfl, by simp⟩
  have entered := acquired.step
    ⟨Step.exec (Exec.internalEnter (acquire_pc ..) (not_draining_of_clear rfl)), by simp⟩
  have granted := entered.step ⟨Step.exec (Exec.exclusiveGrant (goto_pc ..)
    (by simp [SlType.mustWait, initial, goto, SharedLock.acquire])), by simp⟩
  have returned := granted.step ⟨Step.exec (Exec.lockReturn (goto_pc ..)), by simp⟩
  have calledToo := returned.step
    ⟨@Step.call _ _ _ _ _ true (.lockGreedy .exclusive) rfl (by simp), by simp⟩
  have acquiredToo := calledToo.step ⟨Step.acquire (goto_pc ..) rfl, by simp⟩
  have enteredToo := acquiredToo.step
    ⟨Step.exec (Exec.internalEnter (acquire_pc ..) (not_draining_of_clear rfl)), by simp⟩
  have asleep := enteredToo.step ⟨Step.exec (Exec.internalWait (goto_pc ..)
    (by simp [SlType.mustWait, initial, goto, SharedLock.acquire, release, setHeld]) rfl), by simp⟩
  convert asleep using 1
  simp only [contended, sleep, goto, SharedLock.acquire, release, setHeld, initial,
    SharedLock.mk.injEq, true_and]
  refine ⟨?_, ?_, ?_⟩
  · rfl
  · funext thread
    cases thread <;> simp
  · funext thread type
    cases thread <;> cases type <;> simp

theorem served_contended :
    (undrainedSystem Bool).Reachable contended ∧ contended.slLock = none ∧
      contended.slQueue ≠ [] ∧
      (contended.slNumber ≠ 0 ∨
        ∃ thread site, contended.pc thread = .asleep site ∧ thread ∉ contended.slQueue) :=
  ⟨reachable_contended, rfl, by simp [contended],
    served_of_reachable reachable_contended rfl (by simp [contended])⟩

end SharedLock

end Rkernel
