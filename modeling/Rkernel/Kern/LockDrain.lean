import Rkernel.Kern.LockCalls
import Rkernel.Kern.LockCount

/-!
# Draining a shared lock is final

`sl_drain` sets a flag that nothing clears. Every path to a grant tests the flag and
gives the grant under one spinlock section, and the flag is stored under the same
spinlock, so a draining lock gives no more grants. Its counter can then only go down,
and once it is zero no grant is left that could be returned.

The results hold for any number of calls of `sl_drain` and for every wait queue.
-/

namespace Rkernel

/-- The program points between the last test of the flag and the return with a grant. -/
def SlPc.granting : SlPc → Bool
  | .internalTest _ | .sharedWake | .lockReturn 0 => true
  | _ => false

/-- The program points of `sl_drain` behind the store of the flag. -/
def SlPc.flagged : SlPc → Bool
  | .drainWake | .drainNumberTest | .asleep .drainNumber | .drainQueueTest | .asleep .drainQueue
  | .drainReturn => true
  | _ => false

/-- The program points of `sl_drain` behind its first loop. -/
def SlPc.emptied : SlPc → Bool
  | .drainQueueTest | .asleep .drainQueue | .drainReturn => true
  | _ => false

theorem SlPc.holds_of_granting {pc : SlPc} (granting : pc.granting = true) : pc.holds = true := by
  cases pc <;> simp_all [SlPc.granting, SlPc.holds]

theorem SlPc.flagged_of_emptied {pc : SlPc} (emptied : pc.emptied = true) :
    pc.flagged = true := by
  revert emptied
  fun_cases SlPc.emptied pc <;> simp [SlPc.flagged]

namespace SharedLock

variable {Queue Tid : Type} [DecidableEq Tid] {ops : WaitQueueOps Queue Tid}
  {lock next : SharedLock Queue Tid} {thread : Tid} {event : SlEvent Tid}

theorem flag_ne_zero (flags : BitVec 32) : (flags ||| slFlagDrain) &&& slFlagDrain ≠ 0 := by
  intro isZero
  have bit := congrArg (fun word => word.getLsbD 0) isZero
  simp [slFlagDrain] at bit

theorem Draining.exec (draining : lock.Draining) (exec : lock.Exec ops thread next) :
    next.Draining := by
  cases exec
  case drainFlag => exact flag_ne_zero lock.slFlags
  all_goals exact draining

theorem Draining.step (draining : lock.Draining) (step : Step ops lock event next) :
    next.Draining := by
  cases step with
  | call | acquire | resume => exact draining
  | exec exec => exact draining.exec exec

theorem Draining.leads {empty : Queue} (draining : lock.Draining)
    (leads : (system ops empty).Leads lock next) : next.Draining := by
  induction leads with
  | refl => exact draining
  | tail _ stepped ih =>
      rcases stepped with ⟨event, step⟩
      exact ih.step step

theorem Exec.moved (exec : lock.Exec ops thread next) :
    ∃ target, next.pc = Function.update lock.pc thread target := by
  cases exec <;> exact ⟨_, rfl⟩

theorem Exec.pc_of_ne (exec : lock.Exec ops thread next) {other : Tid}
    (different : other ≠ thread) : next.pc other = lock.pc other := by
  rcases exec.moved with ⟨target, moved⟩
  rw [moved, Function.update_of_ne different]

/-- Only the thread that makes a step is between the two ends of the spinlock section. -/
theorem Exclusive.holds_of_ne (exclusive : lock.Exclusive) (exec : lock.Exec ops thread next)
    {other : Tid} (different : other ≠ thread) : (lock.pc other).holds = false := by
  rw [← Bool.not_eq_true]
  intro otherHolds
  have holder := (exclusive thread).mp exec.holds
  rw [(exclusive other).mp otherHolds, Option.some.injEq] at holder
  exact different holder

/-- No thread is about to get a grant from a draining lock, and `sl_drain` sets the flag. -/
structure FlagInvariant (lock : SharedLock Queue Tid) : Prop where
  exclusive : lock.Exclusive
  testing : ∀ thread, (lock.pc thread).granting = true → ¬lock.Draining
  flagged : ∀ thread, (lock.pc thread).flagged = true → lock.Draining

omit [DecidableEq Tid] in
theorem FlagInvariant.initial (empty : Queue) :
    (initial empty : SharedLock Queue Tid).FlagInvariant := by
  refine ⟨Exclusive.initial empty, ?_, ?_⟩
  · simp [SharedLock.initial, SlPc.granting]
  · simp [SharedLock.initial, SlPc.flagged]

theorem FlagInvariant.exec (invariant : lock.FlagInvariant) (exec : lock.Exec ops thread next) :
    next.FlagInvariant := by
  refine ⟨invariant.exclusive.exec exec, ?_, ?_⟩
  · intro other granting
    by_cases same : other = thread
    · subst other
      have before := invariant.testing thread
      cases exec
      case internalEnter notDraining => exact notDraining
      case retest notDraining => exact notDraining
      case sharedCount atPc _ | sharedGrant atPc _ | exclusiveGrant atPc _ =>
        exact before (by simp [atPc, SlPc.granting])
      all_goals simp [goto, sleep, release, SlPc.granting, enolck] at granting
    · rw [exec.pc_of_ne same] at granting
      have holds := invariant.exclusive.holds_of_ne exec same
      rw [SlPc.holds_of_granting granting] at holds
      cases holds
  · intro other isFlagged
    by_cases same : other = thread
    · subst other
      have before := invariant.flagged thread
      cases exec
      case drainFlag => exact flag_ne_zero lock.slFlags
      case drainWake atPc _ | drainNumberWait atPc _ _ | drainNumberDone atPc _
        | drainQueueWait atPc _ _ | drainQueueDone atPc _ =>
        exact before (by simp [atPc, SlPc.flagged])
      all_goals simp [goto, sleep, release, setHeld, SlPc.flagged] at isFlagged
    · rw [exec.pc_of_ne same] at isFlagged
      exact (invariant.flagged other isFlagged).exec exec

/-- A thread that enters or wakes up has not passed the test. -/
theorem FlagInvariant.move (invariant : lock.FlagInvariant) {target : SlPc}
    (exclusive : next.Exclusive) (moved : next.pc = Function.update lock.pc thread target)
    (sameFlags : next.slFlags = lock.slFlags) (notGranting : target.granting = false)
    (flagged : target.flagged = true → (lock.pc thread).flagged = true) : next.FlagInvariant := by
  have isDraining : next.Draining ↔ lock.Draining := by rw [Draining, Draining, sameFlags]
  refine ⟨exclusive, ?_, ?_⟩
  all_goals
    intro other atPoint
    rw [moved] at atPoint
    rw [isDraining]
    by_cases same : other = thread
  · subst other
    rw [Function.update_self, notGranting] at atPoint
    cases atPoint
  · rw [Function.update_of_ne same] at atPoint
    exact invariant.testing other atPoint
  · subst other
    rw [Function.update_self] at atPoint
    exact invariant.flagged thread (flagged atPoint)
  · rw [Function.update_of_ne same] at atPoint
    exact invariant.flagged other atPoint

theorem FlagInvariant.step (invariant : lock.FlagInvariant) (step : Step ops lock event next) :
    next.FlagInvariant := by
  have exclusive := invariant.exclusive.step step
  cases step with
  | call atPc matching => exact invariant.move exclusive rfl rfl rfl (by simp [SlPc.flagged])
  | @acquire mover call atPc free =>
      cases call with
      | _ => exact invariant.move exclusive rfl rfl rfl (by simp [SlCall.entry, SlPc.flagged])
  | exec exec => exact invariant.exec exec
  | @resume mover site atPc mayReturn free =>
      cases site with
      | _ => exact invariant.move exclusive rfl rfl rfl
              (by simp [atPc, WaitSite.resume, SlPc.flagged])

variable [Fintype Tid]

/-- The inductive invariant of a lock that may be drained. -/
structure DrainInvariant (ops : WaitQueueOps Queue Tid) (lock : SharedLock Queue Tid) : Prop where
  tally : lock.TallyInvariant
  flags : lock.FlagInvariant
  emptied : ∀ thread, (lock.pc thread).emptied = true → lock.slNumber = 0
  unqueued : ∀ thread, lock.pc thread = .drainReturn → ops.isEmpty lock.slQueue = true

/-- A draining lock that nobody holds stays so. -/
theorem DrainInvariant.number_exec (invariant : lock.DrainInvariant ops)
    (draining : lock.Draining) (zero : lock.slNumber = 0) (exec : lock.Exec ops thread next) :
    next.slNumber = 0 := by
  cases exec with
  | sharedCount atPc | exclusiveGrant atPc =>
      exact absurd draining (invariant.flags.testing thread (by simp [atPc, SlPc.granting]))
  | unlockShared atPc =>
      have holdsOne := invariant.tally.matching thread .shared (Or.inr atPc)
      have atMost := lock.held_le_grants thread .shared
      have noGrants := invariant.tally.tallied.grants_eq_zero zero .shared
      omega
  | unlockExclusive => rfl
  | _ => exact zero

theorem DrainInvariant.number_step (invariant : lock.DrainInvariant ops)
    (draining : lock.Draining) (zero : lock.slNumber = 0) (step : Step ops lock event next) :
    next.slNumber = 0 := by
  cases step with
  | call | acquire | resume => exact zero
  | exec exec => exact invariant.number_exec draining zero exec

theorem DrainInvariant.exec (invariant : lock.DrainInvariant ops)
    (exec : lock.Exec ops thread next) : next.DrainInvariant ops := by
  refine ⟨invariant.tally.exec exec, invariant.flags.exec exec, ?_, ?_⟩
  · intro other isEmptied
    by_cases same : other = thread
    · subst other
      have before := invariant.emptied thread
      cases exec
      case drainNumberDone zero => exact zero
      case drainQueueWait atPc _ _ | drainQueueDone atPc _ =>
        exact before (by simp [atPc, SlPc.emptied])
      all_goals simp [goto, sleep, release, setHeld, SlPc.emptied] at isEmptied
    · rw [exec.pc_of_ne same] at isEmptied
      have draining := invariant.flags.flagged other (SlPc.flagged_of_emptied isEmptied)
      exact invariant.number_exec draining (invariant.emptied other isEmptied) exec
  · intro other returning
    by_cases same : other = thread
    · subst other
      cases exec
      case drainQueueDone empty => exact empty
      all_goals simp [goto, sleep, release, setHeld] at returning
    · rw [exec.pc_of_ne same] at returning
      have holds := invariant.flags.exclusive.holds_of_ne exec same
      simp [returning, SlPc.holds] at holds

theorem DrainInvariant.move (invariant : lock.DrainInvariant ops) {target : SlPc}
    (tally : next.TallyInvariant) (flags : next.FlagInvariant)
    (moved : next.pc = Function.update lock.pc thread target)
    (sameNumber : next.slNumber = lock.slNumber) (sameQueue : next.slQueue = lock.slQueue)
    (emptied : target.emptied = true → (lock.pc thread).emptied = true)
    (notReturning : target ≠ .drainReturn) : next.DrainInvariant ops := by
  refine ⟨tally, flags, ?_, ?_⟩
  all_goals
    intro other atPoint
    rw [moved] at atPoint
    by_cases same : other = thread
  · subst other
    rw [Function.update_self] at atPoint
    exact sameNumber.trans (invariant.emptied thread (emptied atPoint))
  · rw [Function.update_of_ne same] at atPoint
    exact sameNumber.trans (invariant.emptied other atPoint)
  · subst other
    rw [Function.update_self] at atPoint
    exact absurd atPoint notReturning
  · rw [Function.update_of_ne same] at atPoint
    rw [sameQueue]
    exact invariant.unqueued other atPoint

theorem DrainInvariant.step (invariant : lock.DrainInvariant ops)
    (step : Step ops lock event next) : next.DrainInvariant ops := by
  have tally := invariant.tally.step step
  have flags := invariant.flags.step step
  cases step with
  | call atPc matching =>
      exact invariant.move tally flags rfl rfl rfl (by simp [SlPc.emptied]) (by simp)
  | @acquire mover call atPc free =>
      cases call with
      | _ => exact invariant.move tally flags rfl rfl rfl
              (by simp [SlCall.entry, SlPc.emptied]) (by simp [SlCall.entry])
  | exec exec => exact invariant.exec exec
  | @resume mover site atPc mayReturn free =>
      cases site with
      | _ => exact invariant.move tally flags rfl rfl rfl
              (by simp [atPc, WaitSite.resume, SlPc.emptied]) (by simp [WaitSite.resume])

theorem drainInvariant_of_reachable {empty : Queue}
    (reachable : (system ops empty).Reachable lock) : lock.DrainInvariant ops := by
  apply reachable.invariant
  · rintro lock rfl
    refine ⟨tallyInvariant_initial empty, FlagInvariant.initial empty, ?_, ?_⟩
    · simp [initial, SlPc.emptied]
    · simp [initial]
  · intro lock event next invariant step
    exact invariant.step step

theorem number_leads {empty : Queue} (reachable : (system ops empty).Reachable lock)
    (draining : lock.Draining) (zero : lock.slNumber = 0)
    (leads : (system ops empty).Leads lock next) : next.slNumber = 0 := by
  induction leads with
  | refl => exact zero
  | tail before stepped ih =>
      rcases stepped with ⟨event, step⟩
      have invariant := drainInvariant_of_reachable (reachable.leads before)
      exact invariant.number_step (draining.leads before) ih step

/-- No call gets a grant any more once the lock is draining, and `sl_drain` returns with an
empty queue and a counter that is zero from then on. -/
def DrainFinal (ops : WaitQueueOps Queue Tid) (empty : Queue) (lock : SharedLock Queue Tid) :
    Prop :=
  (lock.Draining → ∀ later, (system ops empty).Leads lock later →
    later.Draining ∧ ∀ thread, later.pc thread ≠ .lockReturn 0) ∧
  ∀ thread, lock.pc thread = .drainReturn →
    lock.slNumber = 0 ∧ ops.isEmpty lock.slQueue = true ∧
      ∀ later, (system ops empty).Leads lock later → later.slNumber = 0

theorem drainFinal_of_reachable (ops : WaitQueueOps Queue Tid) (empty : Queue)
    (reachable : (system ops empty).Reachable lock) : lock.DrainFinal ops empty := by
  constructor
  · intro draining later leads
    have stillDraining := draining.leads leads
    refine ⟨stillDraining, ?_⟩
    intro thread granted
    have invariant := drainInvariant_of_reachable (reachable.leads leads)
    exact invariant.flags.testing thread (by simp [granted, SlPc.granting]) stillDraining
  · intro thread returning
    have invariant := drainInvariant_of_reachable reachable
    have zero := invariant.emptied thread (by simp [returning, SlPc.emptied])
    have draining := invariant.flags.flagged thread (by simp [returning, SlPc.flagged])
    refine ⟨zero, invariant.unqueued thread returning, ?_⟩
    intro later leads
    exact number_leads reachable draining zero leads

/-- Thread 2 drains while 0 holds the lock and 1 sleeps. It goes on when 0 has unlocked. -/
theorem drainFinal_of_sleeper : ∃ lock : SharedLock (List (Fin 3)) (Fin 3),
    (system (sequenceOps (Fin 3)) []).Reachable lock ∧ lock.Draining ∧
      lock.pc 2 = .drainReturn ∧ lock.pc 1 = .asleep (.internal .exclusive) ∧
      lock.DrainFinal (sequenceOps (Fin 3)) [] := by
  have admits : AdmitsOrdinary (system (sequenceOps (Fin 3)) []) := admitsOrdinary_system
  have start : (system (sequenceOps (Fin 3)) []).Reachable (initial []) := .init rfl
  have held := admits.lockGreedy 0 start rfl rfl (not_draining_of_clear rfl) rfl
  have greedy := admits.lockGreedy_asleep 1 held rfl rfl (not_draining_of_clear rfl)
    (by simp [setHeld])
  have flagged := admits.drain 2 greedy (.call rfl (by simp)) (.acquire (goto_pc ..) rfl)
  have asleep := admits.exec flagged (.drainNumberWait (acquire_pc ..) (by decide) rfl)
  have unlocked := admits.unlock 0 asleep rfl rfl (by decide)
  have resumed := unlocked.step (.resume_unlinked 2 rfl (by decide) rfl)
  have counted := admits.exec resumed (.drainNumberDone (acquire_pc ..) rfl)
  have emptied := admits.exec counted (.drainQueueDone (goto_pc ..) rfl)
  refine ⟨_, emptied, flag_ne_zero _, goto_pc .., rfl, ?_⟩
  exact drainFinal_of_reachable (sequenceOps (Fin 3)) [] emptied

end SharedLock

end Rkernel
