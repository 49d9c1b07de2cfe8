import Rkernel.Kern.LockDrain
import Rkernel.Kern.LockWakeup

/-!
# Wake-ups of a draining lock

While a lock is drained every sleeper has to be woken in turn: `sl_drain` wakes the
first one, and each thread that gives up with `ENOLCK` is meant to wake the next. The
exit behind the `waitqueue_wait` of `sl_lock_internal` does so. The exit at the entry
of `sl_lock_internal` does not, and a thread that comes from the fair `waitqueue_wait`
of `sl_lock` takes that exit with the wake-up it was given.

So no sleeper is stranded as long as such a thread is the last one on the queue. The
drainer itself queues behind all others; while the flag is set nobody else joins the
queue, hence the drainer is woken last.
-/

namespace Rkernel

/-- The program points of `sl_touch`. -/
def SlPc.inTouch : SlPc → Bool
  | .entering (.touch _) | .asleep (.touch _) | .touchTest _ | .touchWake | .touchReturn => true
  | _ => false

/-- The two places where `sl_drain` sleeps. -/
def SlPc.drainAsleep : SlPc → Bool
  | .asleep .drainNumber | .asleep .drainQueue => true
  | _ => false

theorem SlPc.flagged_of_drainAsleep {pc : SlPc} (isAsleep : pc.drainAsleep = true) :
    pc.flagged = true := by
  revert isAsleep
  fun_cases SlPc.drainAsleep pc <;> simp [SlPc.flagged]

theorem SlPc.inDrain_of_drainAsleep {pc : SlPc} (isAsleep : pc.drainAsleep = true) :
    pc.inDrain = true := by
  revert isAsleep
  fun_cases SlPc.drainAsleep pc <;> simp [SlPc.inDrain]

namespace SharedLock

variable {Tid : Type}

/-- `sl_drain` has not been called. -/
def Undrained (lock : SharedLock (List Tid) Tid) : Prop :=
  ¬lock.Draining ∧ ∀ thread, (lock.pc thread).inDrain = false

/-- What is owed to the queue of a lock that may be drained, see `Owed`. -/
def DrainOwed (lock : SharedLock (List Tid) Tid) : Prop :=
  match lock.slLock with
  | none => lock.Served
  | some thread =>
      match lock.pc thread with
      | .lockEntry _ | .lockReturn _ | .unlockReturn | .drainEntry | .drainNumberTest
      | .drainQueueTest | .drainReturn => lock.Served
      | .internalEntry _ => lock.Draining → lock.Served
      | .sharedWake => lock.slNumber ≠ 0
      | _ => True

/-- The inductive invariant of the runs with at most one `sl_drain` and no `sl_touch`. -/
structure DrainWakeInvariant (lock : SharedLock (List Tid) Tid) : Prop where
  flags : lock.FlagInvariant
  queued : lock.Queued
  upper : lock.slNumber < 2 ^ 31
  noTouch : ∀ thread, (lock.pc thread).inTouch = false
  one : ∀ thread other, (lock.pc thread).inDrain = true → (lock.pc other).inDrain = true →
    thread = other
  behind : ∀ thread, (lock.pc thread).drainAsleep = true →
    lock.slQueue = [] ∨ ∃ rest, lock.slQueue = thread :: rest
  owed : lock.DrainOwed

/-- A wake-up of a fair sleeper is not lost: the lock is not draining, or nobody else sleeps. -/
def FairLast (lock : SharedLock (List Tid) Tid) (event : SlEvent Tid)
    (_next : SharedLock (List Tid) Tid) : Prop :=
  ∀ thread type, event = .resume thread → lock.pc thread = .asleep (.fair type) →
    lock.Draining → lock.slQueue = []

section Preservation

variable [DecidableEq Tid] {lock next : SharedLock (List Tid) Tid} {thread : Tid}

/-- Nobody but a drainer joins the queue of a draining lock. -/
theorem DrainWakeInvariant.queue_exec (invariant : lock.DrainWakeInvariant)
    (exec : lock.Exec (sequenceOps Tid) thread next) (draining : lock.Draining)
    (notDrain : (lock.pc thread).inDrain = false) :
    next.slQueue = lock.slQueue ∨ next.slQueue = lock.slQueue.dropLast := by
  have noTouch := invariant.noTouch thread
  have testing := invariant.flags.testing thread
  cases exec with
  | lockFair atPc notDraining => exact absurd draining notDraining
  | internalWait atPc => exact absurd draining (testing (by simp [atPc, SlPc.granting]))
  | touchWait atPc => simp [atPc, SlPc.inTouch] at noTouch
  | drainNumberWait atPc | drainQueueWait atPc => simp [atPc, SlPc.inDrain] at notDrain
  | retestDraining atPc _ woken =>
      simp only [sequenceOps, Option.some.injEq] at woken
      exact Or.inr woken.symm
  | sharedGrant atPc woken | unlockWake atPc woken | touchWake atPc woken
  | drainWake atPc woken =>
      simp only [sequenceOps, Option.some.injEq] at woken
      exact Or.inr woken.symm
  | _ => exact Or.inl rfl

theorem DrainWakeInvariant.behind_exec (invariant : lock.DrainWakeInvariant)
    (exec : lock.Exec (sequenceOps Tid) thread next) (sleeper : Tid)
    (isAsleep : (next.pc sleeper).drainAsleep = true) :
    next.slQueue = [] ∨ ∃ rest, next.slQueue = sleeper :: rest := by
  by_cases same : sleeper = thread
  · subst sleeper
    cases exec
    case drainNumberWait entered | drainQueueWait entered =>
      simp only [sequenceOps, if_true, Option.some.injEq] at entered
      exact Or.inr ⟨_, entered.symm⟩
    all_goals simp [goto, SharedLock.sleep, release, setHeld, SlPc.drainAsleep] at isAsleep
  · rw [exec.pc_of_ne same] at isAsleep
    have draining := invariant.flags.flagged sleeper (SlPc.flagged_of_drainAsleep isAsleep)
    have notDrain : (lock.pc thread).inDrain = false := by
      rw [← Bool.not_eq_true]
      intro threadDrains
      exact same (invariant.one sleeper thread (SlPc.inDrain_of_drainAsleep isAsleep)
        threadDrains)
    have before := invariant.behind sleeper isAsleep
    rcases invariant.queue_exec exec draining notDrain with unchanged | shorter
    · rw [unchanged]
      exact before
    · rw [shorter]
      rcases before with empty | ⟨rest, isFirst⟩
      · exact Or.inl (by simp [empty])
      · rw [isFirst]
        cases rest with
        | nil => exact Or.inl rfl
        | cons other rest => exact Or.inr ⟨_, List.dropLast_cons_cons⟩

theorem DrainWakeInvariant.owed_exec (invariant : lock.DrainWakeInvariant)
    (exec : lock.Exec (sequenceOps Tid) thread next) : next.DrainOwed := by
  have queued := invariant.queued
  have holder := (invariant.flags.exclusive thread).mp exec.holds
  have owed := invariant.owed
  have noTouch := invariant.noTouch thread
  have awake := exec.awake
  simp only [DrainOwed, holder] at owed
  cases exec with
  | touchWait atPc | touchPass atPc | touchWake atPc | touchReturn atPc =>
      simp [atPc, SlPc.inTouch] at noTouch
  | lockDraining atPc draining =>
      simp only [atPc] at owed
      simp only [DrainOwed, goto, holder, Function.update_self]
      exact owed.move awake rfl rfl rfl
  | internalDraining atPc draining =>
      simp only [atPc] at owed
      simp only [DrainOwed, goto, holder, Function.update_self]
      exact (owed draining).move awake rfl rfl rfl
  | retestDraining atPc draining woken =>
      simp only [sequenceOps, Option.some.injEq] at woken
      simp only [DrainOwed, goto, holder, Function.update_self]
      exact queued.served_getFirst awake rfl woken.symm
  | lockFair atPc notDraining nonempty entered =>
      simp only [sequenceOps, if_true, Option.some.injEq] at entered
      simp only [atPc] at owed
      have isNonempty : lock.slQueue ≠ [] := by simpa [sequenceOps] using nonempty
      exact owed.sleep awake rfl rfl isNonempty entered.symm
  | lockDirect atPc notDraining =>
      simp only [DrainOwed, goto, holder, Function.update_self]
      exact fun draining => absurd draining notDraining
  | internalEnter atPc | retest atPc | unlockShared atPc | unlockExclusive atPc
  | drainFlag atPc =>
      simp [DrainOwed, goto, setHeld, holder]
  | internalWait atPc mustWait entered =>
      apply Served.of_number_ne_zero
      rename_i type queue
      cases type <;> simp only [SlType.mustWait, sleep] at mustWait ⊢ <;> omega
  | sharedCount atPc free =>
      simp only [SlType.mustWait, not_lt] at free
      simpa [DrainOwed, goto, holder] using int32_succ_ne_zero free invariant.upper
  | sharedGrant atPc woken =>
      simp only [atPc] at owed
      simp only [DrainOwed, goto, setHeld, holder, Function.update_self]
      exact Served.of_number_ne_zero owed
  | exclusiveGrant atPc free =>
      simp only [DrainOwed, goto, setHeld, holder, Function.update_self]
      exact Served.of_number_ne_zero (by simp)
  | lockReturn atPc | unlockReturn atPc | drainReturn atPc =>
      simp only [atPc] at owed
      exact owed.move awake rfl rfl rfl
  | unlockWake atPc woken | drainWake atPc woken =>
      simp only [sequenceOps, Option.some.injEq] at woken
      simp only [DrainOwed, goto, holder, Function.update_self]
      exact queued.served_getFirst awake rfl woken.symm
  | drainNumberWait atPc nonzero entered =>
      exact Served.of_number_ne_zero nonzero
  | drainNumberDone atPc | drainQueueDone atPc =>
      simp only [atPc] at owed
      simp only [DrainOwed, goto, holder, Function.update_self]
      exact owed.move awake rfl rfl rfl
  | drainQueueWait atPc nonempty entered =>
      simp only [sequenceOps, if_true, Option.some.injEq] at entered
      simp only [atPc] at owed
      have isNonempty : lock.slQueue ≠ [] := by simpa [sequenceOps] using nonempty
      exact owed.sleep awake rfl rfl isNonempty entered.symm

theorem Exec.inDrain (exec : lock.Exec (sequenceOps Tid) thread next) (other : Tid)
    (drains : (next.pc other).inDrain = true) : (lock.pc other).inDrain = true := by
  by_cases same : other = thread
  · subst other
    cases exec <;> simp_all [goto, SharedLock.sleep, release, setHeld, SlPc.inDrain]
  · rwa [exec.pc_of_ne same] at drains

theorem Exec.noTouch (exec : lock.Exec (sequenceOps Tid) thread next)
    (noTouch : ∀ other, (lock.pc other).inTouch = false) (other : Tid) :
    (next.pc other).inTouch = false := by
  by_cases same : other = thread
  · subst other
    have before := noTouch thread
    cases exec <;> simp_all [goto, SharedLock.sleep, release, setHeld, SlPc.inTouch]
  · rw [exec.pc_of_ne same]
    exact noTouch other

theorem DrainWakeInvariant.exec (invariant : lock.DrainWakeInvariant)
    (exec : lock.Exec (sequenceOps Tid) thread next) : next.DrainWakeInvariant := by
  refine ⟨invariant.flags.exec exec, invariant.queued.exec exec, ?_,
    exec.noTouch invariant.noTouch, ?_, invariant.behind_exec exec, invariant.owed_exec exec⟩
  · exact exec.upper invariant.upper
  · intro drainer other drains otherDrains
    exact invariant.one drainer other (exec.inDrain drainer drains)
      (exec.inDrain other otherDrains)

/-- A thread that is neither asleep nor inside the spinlock section can move freely. -/
theorem DrainOwed.call (owed : lock.DrainOwed) (exclusive : lock.Exclusive) {call : SlCall}
    (atPc : lock.pc thread = .outside) : (lock.goto thread (.entering call)).DrainOwed := by
  have awake : ∀ site, lock.pc thread ≠ .asleep site := by simp [atPc]
  cases isHolder : lock.slLock with
  | none =>
      simp only [DrainOwed, goto, isHolder] at owed ⊢
      exact owed.move awake rfl rfl rfl
  | some holder =>
      have different : holder ≠ thread := by
        rintro rfl
        have holds := (exclusive holder).mpr isHolder
        simp [atPc, SlPc.holds] at holds
      simp only [DrainOwed, goto, isHolder, Function.update_of_ne different] at owed ⊢
      cases atHolder : lock.pc holder <;> simp only [atHolder] at owed ⊢ <;>
        first
        | exact owed
        | exact owed.move awake rfl rfl rfl
        | exact fun draining => (owed draining).move awake rfl rfl rfl

/-- What a step outside the spinlock section keeps, see `DrainInvariant.move`. -/
theorem DrainWakeInvariant.move (invariant : lock.DrainWakeInvariant) {target : SlPc}
    (flags : next.FlagInvariant) (owed : next.DrainOwed) (notMem : thread ∉ lock.slQueue)
    (moved : next.pc = Function.update lock.pc thread target)
    (sameNumber : next.slNumber = lock.slNumber) (sameQueue : next.slQueue = lock.slQueue)
    (noTouch : target.inTouch = false)
    (one : target.inDrain = true → ∀ other, (lock.pc other).inDrain = true → other = thread)
    (notAsleep : target.drainAsleep = false) : next.DrainWakeInvariant := by
  refine ⟨flags, invariant.queued.move notMem moved (by rw [sameQueue]), ?_, ?_, ?_, ?_, owed⟩
  · rw [sameNumber]
    exact invariant.upper
  · intro other
    rw [moved]
    by_cases same : other = thread
    · rw [same, Function.update_self]
      exact noTouch
    · rw [Function.update_of_ne same]
      exact invariant.noTouch other
  · intro drainer other drains otherDrains
    rw [moved] at drains otherDrains
    by_cases same : drainer = thread <;> by_cases otherSame : other = thread
    · rw [same, otherSame]
    · rw [same, Function.update_self] at drains
      rw [Function.update_of_ne otherSame] at otherDrains
      exact absurd (one drains other otherDrains) otherSame
    · rw [otherSame, Function.update_self] at otherDrains
      rw [Function.update_of_ne same] at drains
      exact absurd (one otherDrains drainer drains) same
    · rw [Function.update_of_ne same] at drains
      rw [Function.update_of_ne otherSame] at otherDrains
      exact invariant.one drainer other drains otherDrains
  · intro sleeper isAsleep
    rw [moved] at isAsleep
    by_cases same : sleeper = thread
    · rw [same, Function.update_self, notAsleep] at isAsleep
      cases isAsleep
    · rw [Function.update_of_ne same] at isAsleep
      rw [sameQueue]
      exact invariant.behind sleeper isAsleep

theorem DrainWakeInvariant.owed_resume (invariant : lock.DrainWakeInvariant) {site : WaitSite}
    (atPc : lock.pc thread = .asleep site) (unlinked : thread ∉ lock.slQueue)
    (fairLast : ∀ type, site = .fair type → lock.Draining → lock.slQueue = []) :
    (lock.acquire thread site.resume).DrainOwed := by
  cases site with
  | fair type =>
      simp only [DrainOwed, SharedLock.acquire, WaitSite.resume, Function.update_self]
      exact fun draining => Served.of_empty (fairLast type rfl draining)
  | internal type | touch type => simp [DrainOwed, SharedLock.acquire, WaitSite.resume]
  | drainNumber | drainQueue =>
      simp only [DrainOwed, SharedLock.acquire, WaitSite.resume, Function.update_self]
      apply Served.of_empty
      rcases invariant.behind thread (by simp [atPc, SlPc.drainAsleep]) with empty | ⟨rest, first⟩
      · exact empty
      · exact absurd (by simp [first]) unlinked

theorem DrainWakeInvariant.step {event : SlEvent Tid} (invariant : lock.DrainWakeInvariant)
    (step : Step (sequenceOps Tid) lock event next)
    (noTouch : ∀ other type, event ≠ .call other (.touch type))
    (oneDrain : ∀ other, event = .call other .drain → lock.Undrained)
    (fairLast : FairLast lock event next) : next.DrainWakeInvariant := by
  have flags := invariant.flags.step step
  cases step with
  | @call mover call atPc matching =>
      have awake : ∀ site, lock.pc mover ≠ .asleep site := by simp [atPc]
      have notMem := invariant.queued.notMem awake
      refine invariant.move flags (invariant.owed.call invariant.flags.exclusive atPc) notMem rfl
        rfl rfl ?_ ?_ rfl
      · cases call with
        | touch type => exact absurd rfl (noTouch mover type)
        | _ => rfl
      · intro drains other otherDrains
        cases call with
        | drain =>
            have undrained := (oneDrain mover rfl).2 other
            simp [otherDrains] at undrained
        | _ => simp [SlPc.inDrain] at drains
  | @acquire mover call atPc free =>
      have awake : ∀ site, lock.pc mover ≠ .asleep site := by simp [atPc]
      have noTouchHere := invariant.noTouch mover
      have owed := invariant.owed
      simp only [DrainOwed, free] at owed
      refine invariant.move flags ?_ (invariant.queued.notMem awake) rfl rfl rfl ?_ ?_ ?_
      · simp only [DrainOwed, SharedLock.acquire, Function.update_self]
        cases call with
        | lock type | drain => exact owed.move awake rfl rfl rfl
        | lockGreedy type => exact fun _ => owed.move awake rfl rfl rfl
        | unlock type | touch type => simp [SlCall.entry]
      · rw [atPc] at noTouchHere
        cases call <;> simp_all [SlPc.inTouch, SlCall.entry]
      · intro drains other otherDrains
        apply invariant.one other mover otherDrains
        rw [atPc]
        cases call <;> simp_all [SlPc.inDrain, SlCall.entry]
      · cases call <;> rfl
  | exec exec => exact invariant.exec exec
  | @resume mover site atPc mayReturn free =>
      have noTouchHere := invariant.noTouch mover
      have owed := invariant.owed_resume atPc mayReturn fun type isFair =>
        fairLast mover type rfl (by rw [atPc, isFair])
      refine invariant.move flags owed mayReturn rfl rfl rfl ?_ ?_ ?_
      · rw [atPc] at noTouchHere
        cases site <;> simp_all [SlPc.inTouch, WaitSite.resume]
      · intro drains other otherDrains
        apply invariant.one other mover otherDrains
        rw [atPc]
        cases site <;> simp_all [SlPc.inDrain, WaitSite.resume]
      · cases site <;> rfl

end Preservation

variable [DecidableEq Tid]

/-- The runs without `sl_touch` and with at most one call of `sl_drain`. -/
def drainSystem (Tid : Type) [DecidableEq Tid] :
    TransitionSystem (SharedLock (List Tid) Tid) (SlEvent Tid) :=
  (system (sequenceOps Tid) []).restrict fun lock event _ =>
    (∀ thread type, event ≠ .call thread (.touch type)) ∧
      ∀ thread, event = .call thread .drain → lock.Undrained

theorem drainWakeInvariant_of_reachable {lock : SharedLock (List Tid) Tid}
    (reachable : ((drainSystem Tid).restrict FairLast).Reachable lock) :
    lock.DrainWakeInvariant := by
  apply reachable.invariant
  · rintro lock rfl
    refine ⟨FlagInvariant.initial [], ⟨?_, ?_⟩, ?_, ?_, ?_, ?_, ?_⟩
    · simp [initial]
    · simp [initial]
    · simp [initial]
    · simp [initial, SlPc.inTouch]
    · simp [initial, SlPc.inDrain]
    · simp [initial, SlPc.drainAsleep]
    · simp [DrainOwed, Served, initial]
  · rintro lock event next invariant ⟨⟨step, noTouch, oneDrain⟩, fairLast⟩
    exact invariant.step step noTouch oneDrain fairLast

/-- Draining strands no sleeper if no fair sleeper is woken before the others. -/
theorem slQueue_eq_nil_of_drained {lock : SharedLock (List Tid) Tid}
    (reachable : ((drainSystem Tid).restrict FairLast).Reachable lock) (free : lock.slLock = none)
    (_draining : lock.Draining) (zero : lock.slNumber = 0) (noneWoken : ¬lock.Woken) :
    lock.slQueue = [] := by
  have owed := (drainWakeInvariant_of_reachable reachable).owed
  simp only [DrainOwed, free] at owed
  by_contra nonempty
  rcases owed nonempty with held | woken
  · exact held zero
  · exact noneWoken woken

theorem admitsOrdinary_drainSystem : AdmitsOrdinary (drainSystem Tid) := by
  refine admitsOrdinary_system.restrict fun lock event _ _ ordinary => ⟨?_, ?_⟩
  · rintro thread type rfl
    exact ordinary
  · rintro thread rfl
    exact absurd ordinary id

theorem admitsOrdinary_fairLast : AdmitsOrdinary ((drainSystem Tid).restrict FairLast) := by
  apply admitsOrdinary_drainSystem.restrict
  rintro lock event next - ordinary thread type rfl
  exact absurd ordinary id

omit [DecidableEq Tid] in
theorem fairLast_of_internal {lock next : SharedLock (List Tid) Tid} {thread : Tid} {type : SlType}
    (atPc : lock.pc thread = .asleep (.internal type)) : FairLast lock (.resume thread) next := by
  rintro _ fair ⟨⟩ isFair
  rw [atPc] at isFair
  cases isFair

/-- Thread 0 drains while 1 sleeps in `sl_lock_greedy` and 2 and 3 in `sl_lock`. The wake-up that
2 and 3 are given ends with them, and the drainer sleeps on. -/
theorem exists_drain_stranded : ∃ lock : SharedLock (List (Fin 4)) (Fin 4),
    (drainSystem (Fin 4)).Reachable lock ∧ lock.slLock = none ∧ lock.Draining ∧
      lock.slNumber = 0 ∧ ¬lock.Woken ∧ lock.slQueue ≠ [] := by
  have admits : AdmitsOrdinary (drainSystem (Fin 4)) := admitsOrdinary_drainSystem
  have start : (drainSystem (Fin 4)).Reachable (initial []) := .init rfl
  have held := admits.lockGreedy 0 start rfl rfl (not_draining_of_clear rfl) rfl
  have greedy := admits.lockGreedy_asleep 1 held rfl rfl
    (not_draining_of_clear rfl) (by simp [setHeld])
  have fair := admits.lock_asleep 2 greedy rfl rfl (not_draining_of_clear rfl) rfl
  have fairToo := admits.lock_asleep 3 fair rfl rfl (not_draining_of_clear rfl) rfl
  have unlocked := admits.unlock 0 fairToo rfl rfl (by decide)
  have flagged := admits.drain 0 unlocked
    ⟨.call rfl (by simp), by simp,
      fun _ _ => ⟨not_draining_of_clear rfl, by decide⟩⟩
    ⟨.acquire (goto_pc ..) rfl, by simp, by simp⟩
  have counted := admits.exec flagged (.drainNumberDone (acquire_pc ..) rfl)
  have asleep := admits.exec counted (.drainQueueWait (goto_pc ..) rfl rfl)
  have greedyLeft := admits.internal_enolck 1 asleep .exclusive
    ⟨.resume_unlinked 1 rfl (by decide) rfl, by simp, by simp⟩ (flag_ne_zero _)
  have fairLeft := admits.fair_enolck 2 greedyLeft .exclusive
    ⟨.resume_unlinked 2 rfl (by decide) rfl, by simp, by simp⟩ (flag_ne_zero _)
  have fairTooLeft := admits.fair_enolck 3 fairLeft .exclusive
    ⟨.resume_unlinked 3 rfl (by decide) rfl, by simp, by simp⟩ (flag_ne_zero _)
  refine ⟨_, fairTooLeft, rfl, flag_ne_zero _, rfl, ?_, by decide⟩
  exact not_woken_of_forall (by decide)

/-- Thread 0 drains while 1 and 3 sleep in `sl_lock_greedy` and 2 in `sl_lock`, and sleeps itself.
Thread 3 wakes 2, and 1 wakes 0; when 2 comes back with `ENOLCK` nobody is left to be woken. -/
theorem slQueue_eq_nil_drained_sleepers : ∃ lock : SharedLock (List (Fin 4)) (Fin 4),
    ((drainSystem (Fin 4)).restrict FairLast).Reachable lock ∧ lock.slLock = none ∧
      lock.Draining ∧ lock.slNumber = 0 ∧ ¬lock.Woken ∧ lock.slQueue = [] := by
  have admits : AdmitsOrdinary ((drainSystem (Fin 4)).restrict FairLast) :=
    admitsOrdinary_fairLast
  have start : ((drainSystem (Fin 4)).restrict FairLast).Reachable (initial []) := .init rfl
  have held := admits.lockGreedy 0 start rfl rfl (not_draining_of_clear rfl) rfl
  have greedy := admits.lockGreedy_asleep 1 held rfl rfl
    (not_draining_of_clear rfl) (by simp [setHeld])
  have fair := admits.lock_asleep 2 greedy rfl rfl (not_draining_of_clear rfl) rfl
  have greedyToo := admits.lockGreedy_asleep 3 fair rfl rfl
    (not_draining_of_clear rfl) (by simp [setHeld, SharedLock.sleep])
  have unlocked := admits.unlock 0 greedyToo rfl rfl (by decide)
  have flagged := admits.drain 0 unlocked
    ⟨⟨.call rfl (by simp), by simp,
      fun _ _ => ⟨not_draining_of_clear rfl, by decide⟩⟩,
      by simp [FairLast]⟩
    ⟨⟨.acquire (goto_pc ..) rfl, by simp, by simp⟩, by simp [FairLast]⟩
  have counted := admits.exec flagged (.drainNumberDone (acquire_pc ..) rfl)
  have asleep := admits.exec counted (.drainQueueWait (goto_pc ..) rfl rfl)
  -- the queue is [0, 2], the thread that is woken first at its end
  have greedyTooLeft := admits.internal_enolck 3 asleep .exclusive
    ⟨⟨.resume_unlinked 3 rfl (by decide) rfl, by simp, by simp⟩, fairLast_of_internal rfl⟩
    (flag_ne_zero _)
  have greedyLeft := admits.internal_enolck 1 greedyTooLeft .exclusive
    ⟨⟨.resume_unlinked 1 rfl (by decide) rfl, by simp, by simp⟩, fairLast_of_internal rfl⟩
    (flag_ne_zero _)
  have fairLeft := admits.fair_enolck 2 greedyLeft .exclusive
    ⟨⟨.resume_unlinked 2 rfl (by decide) rfl, by simp, by simp⟩, fun _ _ _ _ _ => rfl⟩
    (flag_ne_zero _)
  have resumed := fairLeft.step
    ⟨⟨.resume_unlinked 0 rfl (by decide) rfl, by simp, by simp⟩, fun _ _ _ _ _ => rfl⟩
  have emptied := admits.exec resumed (.drainQueueDone (acquire_pc ..) rfl)
  have returned := admits.exec emptied (.drainReturn (goto_pc ..))
  refine ⟨_, returned, rfl, flag_ne_zero _, rfl, not_woken_of_forall (by decide), ?_⟩
  exact slQueue_eq_nil_of_drained returned rfl (flag_ne_zero _) rfl
    (not_woken_of_forall (by decide))

end SharedLock

end Rkernel
