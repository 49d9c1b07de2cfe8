import Mathlib.Algebra.BigOperators.Group.Finset.Basic
import Mathlib.Algebra.Order.BigOperators.Group.Finset
import Mathlib.Data.Fintype.Card
import Mathlib.Tactic.NormNum
import Rkernel.Kern.Lock

/-!
# The counter of a shared lock

`sl_number` is meant to be `-1` while an exclusive grant is outstanding and the
number of outstanding shared grants otherwise. The invariant is proved for every
wait queue, in particular for one from which threads return while they are still
linked, since it only rests on the tests that follow every `waitqueue_wait`.

Between the increment of `sl_number` and the end of `sl_lock_internal` a shared
grant is counted that has not begun yet; `pending` is that difference. The counter
has 32 bits and is never checked for overflow. It wraps around with the grant number
`2 ^ 31`, after which no further grant is given because the counter is negative, so
`sl_number` agrees with the grants modulo `2 ^ 32` in every run and counts them as
long as they stay below `2 ^ 31`.
-/

namespace Rkernel

namespace SharedLock

open scoped BigOperators

variable {Queue Tid : Type}

/-- Shared grants that are counted in `sl_number` and have not begun. -/
def pending (lock : SharedLock Queue Tid) : ℕ :=
  match lock.slLock with
  | some thread => if lock.pc thread = .sharedWake then 1 else 0
  | none => 0

theorem pending_of_holder {lock : SharedLock Queue Tid} {thread : Tid}
    (holder : lock.slLock = some thread) :
    lock.pending = if lock.pc thread = .sharedWake then 1 else 0 := by
  simp [pending, holder]

variable [Fintype Tid]

def grants (lock : SharedLock Queue Tid) (type : SlType) : ℕ :=
  ∑ thread, lock.held thread type

/-- What the counter says about the outstanding grants. -/
def CountsGrants (lock : SharedLock Queue Tid) : Prop :=
  (lock.slNumber = -1 ↔ lock.grants .exclusive = 1 ∧ lock.grants .shared = 0) ∧
    (lock.slNumber ≠ -1 →
      0 ≤ lock.slNumber ∧ lock.slNumber = lock.grants .shared ∧ lock.grants .exclusive = 0)

/-- `CountsGrants` at every program point. -/
def Counted (lock : SharedLock Queue Tid) : Prop :=
  (lock.slNumber = -1 ∧ lock.grants .exclusive = 1 ∧ lock.grants .shared = 0 ∧ lock.pending = 0) ∨
    (lock.slNumber = int32 (lock.grants .shared + lock.pending) ∧ lock.grants .exclusive = 0)

/-- What is known about the counter at every program point of every run. -/
structure Tallied (lock : SharedLock Queue Tid) : Prop where
  counted : lock.Counted
  bounded : lock.grants .shared + lock.pending ≤ 2 ^ 31

/-- The inductive invariant behind `Tallied`. -/
structure TallyInvariant (lock : SharedLock Queue Tid) : Prop where
  exclusive : lock.Exclusive
  matching : ∀ thread type,
    lock.pc thread = .entering (.unlock type) ∨ lock.pc thread = .unlockEntry type →
      0 < lock.held thread type
  tallied : lock.Tallied

/-- The invariant while fewer than `2 ^ 31` shared grants are outstanding. -/
structure CountInvariant (lock : SharedLock Queue Tid) : Prop where
  exclusive : lock.Exclusive
  matching : ∀ thread type,
    lock.pc thread = .entering (.unlock type) ∨ lock.pc thread = .unlockEntry type →
      0 < lock.held thread type
  counted : lock.Counted
  bounded : lock.grants .shared < 2 ^ 31

theorem CountInvariant.countsGrants {lock : SharedLock Queue Tid}
    (invariant : lock.CountInvariant) (free : lock.slLock = none) : lock.CountsGrants := by
  have bounded := invariant.bounded
  have notPending : lock.pending = 0 := by simp [pending, free]
  rcases invariant.counted with ⟨number, exclusives, shareds, -⟩ | ⟨number, exclusives⟩
  · exact ⟨by simp [number, exclusives, shareds], by simp [number]⟩
  · rw [notPending, int32_eq_self (by omega) (by omega)] at number
    refine ⟨?_, ?_⟩
    · omega
    · omega

section Preservation

variable {lock next : SharedLock Queue Tid} {thread : Tid}

theorem Tallied.congr (tallied : lock.Tallied) (sameNumber : next.slNumber = lock.slNumber)
    (sameHeld : next.held = lock.held) (samePending : next.pending = lock.pending) :
    next.Tallied := by
  rcases tallied with ⟨counted, bounded⟩
  constructor
  · simpa only [Counted, grants, sameNumber, sameHeld, samePending] using counted
  · simpa only [grants, sameHeld, samePending] using bounded

/-- A free lock has no grants, although the counter may have wrapped around. -/
theorem Tallied.grants_eq_zero (tallied : lock.Tallied) (zero : lock.slNumber = 0)
    (type : SlType) : lock.grants type = 0 := by
  rcases tallied with ⟨⟨number, -, -, -⟩ | ⟨number, exclusives⟩, bounded⟩
  · omega
  · cases type with
    | exclusive => exact exclusives
    | shared =>
        simp only [zero, int32, Int.bmod] at number
        omega

theorem Tallied.countShared (tallied : lock.Tallied) (free : 0 ≤ lock.slNumber)
    (notPending : lock.pending = 0) (nextPending : next.pending = 1)
    (counts : next.slNumber = int32 (lock.slNumber + 1)) (sameHeld : next.held = lock.held) :
    next.Tallied := by
  rcases tallied with ⟨⟨number, -, -, -⟩ | ⟨number, exclusives⟩, bounded⟩
  · omega
  · have small : lock.grants .shared < 2 ^ 31 := by
      simp only [notPending, int32, Int.bmod] at number
      omega
    rw [notPending, int32_eq_self (by omega) (by omega)] at number
    simp only [grants] at number exclusives small ⊢
    refine ⟨Or.inr ⟨?_, ?_⟩, ?_⟩
    · rw [counts, number, nextPending]
      simp [grants, sameHeld]
    · simpa only [grants, sameHeld] using exclusives
    · simp only [grants, sameHeld, nextPending]
      omega

theorem held_le_grants (lock : SharedLock Queue Tid) (thread : Tid) (type : SlType) :
    lock.held thread type ≤ lock.grants type :=
  Finset.single_le_sum (f := fun other => lock.held other type) (fun _ _ => Nat.zero_le _)
    (Finset.mem_univ thread)

variable [DecidableEq Tid]

theorem grants_setHeld {type : SlType} {count : ℕ}
    (changed : next.held = (lock.setHeld thread type count).held) :
    next.grants type + lock.held thread type = lock.grants type + count := by
  have before := Finset.add_sum_erase Finset.univ (fun other => lock.held other type)
    (Finset.mem_univ thread)
  have after := Finset.add_sum_erase Finset.univ (fun other => next.held other type)
    (Finset.mem_univ thread)
  have others : ∑ other ∈ Finset.univ.erase thread, next.held other type =
      ∑ other ∈ Finset.univ.erase thread, lock.held other type := by
    apply Finset.sum_congr rfl
    intro other otherMem
    simp [changed, setHeld, Finset.ne_of_mem_erase otherMem]
  have here : next.held thread type = count := by simp [changed, setHeld]
  simp only [grants]
  simp only [here, others] at before after
  omega

theorem grants_setHeld_of_ne {type other : SlType} {count : ℕ}
    (changed : next.held = (lock.setHeld thread type count).held) (different : other ≠ type) :
    next.grants other = lock.grants other := by
  apply Finset.sum_congr rfl
  intro holder _
  rw [changed]
  by_cases same : holder = thread
  · subst holder
    simp [setHeld, different]
  · simp [setHeld, same]

theorem TallyInvariant.matching_update (invariant : lock.TallyInvariant) {target : SlPc}
    (notEntering : ∀ type, target ≠ .entering (.unlock type))
    (notEntry : ∀ type, target ≠ .unlockEntry type)
    (moved : next.pc = Function.update lock.pc thread target)
    (sameHeld : ∀ other, other ≠ thread → next.held other = lock.held other) (other : Tid)
    (type : SlType)
    (atUnlock : next.pc other = .entering (.unlock type) ∨ next.pc other = .unlockEntry type) :
    0 < next.held other type := by
  rw [moved] at atUnlock
  by_cases same : other = thread
  · subst other
    simp only [Function.update_self] at atUnlock
    exact (atUnlock.elim (notEntering type) (notEntry type)).elim
  · rw [Function.update_of_ne same] at atUnlock
    rw [sameHeld other same]
    exact invariant.matching other type atUnlock

variable {ops : WaitQueueOps Queue Tid}

theorem Tallied.move (tallied : lock.Tallied) (holder : lock.slLock = some thread)
    {target : SlPc} (notWake : lock.pc thread ≠ .sharedWake) (targetNotWake : target ≠ .sharedWake)
    (sameNumber : next.slNumber = lock.slNumber) (sameHeld : next.held = lock.held)
    (sameLock : next.slLock = lock.slLock ∨ next.slLock = none)
    (moved : next.pc = Function.update lock.pc thread target) : next.Tallied := by
  apply tallied.congr sameNumber sameHeld
  rw [pending_of_holder holder, if_neg notWake]
  rcases sameLock with same | free
  · rw [pending_of_holder (same.trans holder), moved]
    simp [targetNotWake]
  · simp [pending, free]

theorem Tallied.grantShared (tallied : lock.Tallied) (isPending : lock.pending = 1)
    (nextNotPending : next.pending = 0) (sameNumber : next.slNumber = lock.slNumber)
    (changed : next.held = (lock.setHeld thread .shared (lock.held thread .shared + 1)).held) :
    next.Tallied := by
  have shareds := grants_setHeld changed
  have exclusivesSame : next.grants .exclusive = lock.grants .exclusive :=
    grants_setHeld_of_ne changed (by simp)
  have sum : next.grants .shared + next.pending = lock.grants .shared + lock.pending := by
    omega
  rcases tallied with ⟨⟨-, -, -, notPending⟩ | ⟨number, exclusives⟩, bounded⟩
  · omega
  · refine ⟨Or.inr ⟨?_, ?_⟩, ?_⟩
    · rw [sameNumber, number, ← Nat.cast_add, ← Nat.cast_add, sum]
    · rw [exclusivesSame, exclusives]
    · rw [sum]
      exact bounded

theorem Tallied.grantExclusive (tallied : lock.Tallied) (free : lock.slNumber = 0)
    (nextNotPending : next.pending = 0) (counts : next.slNumber = -1)
    (changed : next.held =
      (lock.setHeld thread .exclusive (lock.held thread .exclusive + 1)).held) :
    next.Tallied := by
  have exclusivesNext := grants_setHeld changed
  have sharedsSame : next.grants .shared = lock.grants .shared :=
    grants_setHeld_of_ne changed (by simp)
  have noShared := tallied.grants_eq_zero free .shared
  have noExclusive := tallied.grants_eq_zero free .exclusive
  refine ⟨Or.inl ⟨counts, ?_, ?_, nextNotPending⟩, ?_⟩
  · omega
  · omega
  · omega

theorem Tallied.endShared (tallied : lock.Tallied) (holdsOne : 0 < lock.held thread .shared)
    (notPending : lock.pending = 0) (nextNotPending : next.pending = 0)
    (counts : next.slNumber = int32 (lock.slNumber - 1))
    (changed : next.held = (lock.setHeld thread .shared (lock.held thread .shared - 1)).held) :
    next.Tallied := by
  have shareds := grants_setHeld changed
  have exclusivesSame : next.grants .exclusive = lock.grants .exclusive :=
    grants_setHeld_of_ne changed (by simp)
  have someShared := lock.held_le_grants thread .shared
  rcases tallied with ⟨⟨-, -, noShared, -⟩ | ⟨number, exclusives⟩, bounded⟩
  · omega
  · have fewer : (next.grants .shared : ℤ) + next.pending =
        lock.grants .shared + lock.pending - 1 := by
      omega
    refine ⟨Or.inr ⟨?_, ?_⟩, ?_⟩
    · rw [counts, number, int32_sub_one, fewer]
    · rw [exclusivesSame, exclusives]
    · omega

theorem Tallied.endExclusive (tallied : lock.Tallied)
    (holdsOne : 0 < lock.held thread .exclusive) (nextNotPending : next.pending = 0)
    (counts : next.slNumber = 0)
    (changed : next.held =
      (lock.setHeld thread .exclusive (lock.held thread .exclusive - 1)).held) :
    next.Tallied := by
  have exclusivesNext := grants_setHeld changed
  have sharedsSame : next.grants .shared = lock.grants .shared :=
    grants_setHeld_of_ne changed (by simp)
  have someExclusive := lock.held_le_grants thread .exclusive
  rcases tallied with ⟨⟨-, oneExclusive, noShared, -⟩ | ⟨-, noExclusive⟩, bounded⟩
  · have zero : (next.grants .shared : ℤ) + next.pending = 0 := by omega
    refine ⟨Or.inr ⟨?_, ?_⟩, ?_⟩
    · rw [counts, zero, int32_eq_self (by omega) (by omega)]
    · omega
    · omega
  · omega

theorem TallyInvariant.tallied_exec (invariant : lock.TallyInvariant)
    (exec : lock.Exec ops thread next) : next.Tallied := by
  have holder := (invariant.exclusive thread).mp exec.holds
  have tallied := invariant.tallied
  cases exec with
  | lockDraining atPc | lockDirect atPc | internalDraining atPc | internalEnter atPc
  | retestDraining atPc | retest atPc | unlockWake atPc | touchPass atPc | touchWake atPc
  | drainFlag atPc | drainWake atPc | drainNumberDone atPc | drainQueueDone atPc =>
      exact tallied.move holder (by simp [atPc]) (by simp) rfl rfl (Or.inl rfl) rfl
  | lockFair atPc | internalWait atPc | touchWait atPc | drainNumberWait atPc
  | drainQueueWait atPc | lockReturn atPc | unlockReturn atPc | touchReturn atPc
  | drainReturn atPc =>
      exact tallied.move holder (by simp [atPc]) (by simp) rfl rfl (Or.inr rfl) rfl
  | sharedCount atPc free =>
      exact tallied.countShared (by simpa [SlType.mustWait] using free)
        (by simp [pending, holder, atPc]) (by simp [pending, goto, holder]) rfl rfl
  | sharedGrant atPc woken =>
      exact tallied.grantShared (by simp [pending, holder, atPc])
        (by simp [pending, goto, setHeld, holder]) rfl rfl
  | exclusiveGrant atPc free =>
      exact tallied.grantExclusive (by simpa [SlType.mustWait] using free)
        (by simp [pending, goto, setHeld, holder]) rfl rfl
  | unlockShared atPc =>
      exact tallied.endShared (invariant.matching thread .shared (Or.inr atPc))
        (by simp [pending, holder, atPc]) (by simp [pending, goto, setHeld, holder]) rfl rfl
  | unlockExclusive atPc =>
      exact tallied.endExclusive (invariant.matching thread .exclusive (Or.inr atPc))
        (by simp [pending, goto, setHeld, holder]) rfl rfl

theorem TallyInvariant.exec (invariant : lock.TallyInvariant)
    (exec : lock.Exec ops thread next) : next.TallyInvariant := by
  refine ⟨invariant.exclusive.exec exec, ?_, invariant.tallied_exec exec⟩
  cases exec
  all_goals
    apply invariant.matching_update (by simp) (by simp) rfl
    intro other different
    simp [goto, sleep, release, setHeld, different]

theorem TallyInvariant.step {event : SlEvent Tid} (invariant : lock.TallyInvariant)
    (step : Step ops lock event next) : next.TallyInvariant := by
  have exclusive := invariant.exclusive.step step
  cases step with
  | @call thread call atPc matching =>
      have otherHolder : ∀ holder, lock.slLock = some holder → holder ≠ thread := by
        rintro holder isHolder rfl
        have holds := (invariant.exclusive holder).mpr isHolder
        simp [atPc, SlPc.holds] at holds
      refine ⟨exclusive, ?_, ?_⟩
      · intro other type atUnlock
        by_cases same : other = thread
        · subst other
          simp only [goto, Function.update_self, reduceCtorEq, or_false, SlPc.entering.injEq]
            at atUnlock
          exact matching type atUnlock
        · simp only [goto, Function.update_of_ne same] at atUnlock
          exact invariant.matching other type atUnlock
      · refine invariant.tallied.congr rfl rfl ?_
        cases isHolder : lock.slLock with
        | none => simp [pending, goto, isHolder]
        | some holder => simp [pending, goto, isHolder, otherHolder holder isHolder]
  | @acquire thread call atPc free =>
      refine ⟨exclusive, ?_, ?_⟩
      · intro other type atUnlock
        by_cases same : other = thread
        · subst other
          apply invariant.matching thread type
          left
          simp only [SharedLock.acquire, Function.update_self] at atUnlock
          cases call <;> simp_all [SlCall.entry]
        · simp only [SharedLock.acquire, Function.update_of_ne same] at atUnlock
          exact invariant.matching other type atUnlock
      · refine invariant.tallied.congr rfl rfl ?_
        cases call <;> simp [pending, SharedLock.acquire, free, SlCall.entry]
  | exec exec => exact invariant.exec exec
  | @resume thread site atPc mayReturn free =>
      refine ⟨exclusive, ?_, ?_⟩
      · apply invariant.matching_update _ _ rfl
        · intro other _
          rfl
        · cases site <;> simp [WaitSite.resume]
        · cases site <;> simp [WaitSite.resume]
      · refine invariant.tallied.congr rfl rfl ?_
        cases site <;> simp [pending, SharedLock.acquire, free, WaitSite.resume]

end Preservation

section Main

theorem tallyInvariant_initial (empty : Queue) :
    (initial empty : SharedLock Queue Tid).TallyInvariant := by
  refine ⟨Exclusive.initial empty, ?_, Or.inr ?_, ?_⟩
  · simp [initial]
  · simp [initial, pending, grants, int32]
  · simp [initial, pending, grants]

variable [DecidableEq Tid]

/-- The runs in which fewer than `2 ^ 31` shared grants are outstanding at any time. -/
def boundedSystem (ops : WaitQueueOps Queue Tid) (empty : Queue) :
    TransitionSystem (SharedLock Queue Tid) (SlEvent Tid) :=
  (system ops empty).restrict fun _ _ next => next.grants .shared < 2 ^ 31

theorem tallyInvariant_of_reachable {ops : WaitQueueOps Queue Tid} {empty : Queue}
    {lock : SharedLock Queue Tid} (reachable : (system ops empty).Reachable lock) :
    lock.TallyInvariant := by
  apply reachable.invariant
  · rintro lock rfl
    exact tallyInvariant_initial empty
  · intro lock event next invariant step
    exact invariant.step step

theorem countInvariant_of_reachable {ops : WaitQueueOps Queue Tid} {empty : Queue}
    {lock : SharedLock Queue Tid} (reachable : (boundedSystem ops empty).Reachable lock) :
    lock.CountInvariant := by
  have invariant := tallyInvariant_of_reachable reachable.of_restrict
  refine ⟨invariant.exclusive, invariant.matching, invariant.tallied.counted, ?_⟩
  cases reachable with
  | init isInit =>
      rw [isInit]
      simp [initial, grants]
  | step _ stepped => exact stepped.2

/-- Whatever the wait queue does, `sl_number` counts the outstanding grants whenever the
spinlock is free. -/
theorem countsGrants_of_reachable (ops : WaitQueueOps Queue Tid) (empty : Queue)
    {lock : SharedLock Queue Tid} (reachable : (boundedSystem ops empty).Reachable lock)
    (free : lock.slLock = none) : lock.CountsGrants :=
  (countInvariant_of_reachable reachable).countsGrants free

/-- The bound is met by fewer than `2 ^ 31` threads that never nest their grants. -/
theorem countsGrants_of_not_nested (ops : WaitQueueOps Queue Tid) (empty : Queue)
    (fewThreads : Fintype.card Tid < 2 ^ 31) {lock : SharedLock Queue Tid}
    (reachable : ((system ops empty).restrict fun _ _ next =>
      ∀ thread, next.held thread .shared ≤ 1).Reachable lock)
    (free : lock.slLock = none) : lock.CountsGrants := by
  have bounded : (boundedSystem ops empty).Reachable lock := by
    apply reachable.mono
    intro before event after single
    have atMost : after.grants .shared ≤ Fintype.card Tid := by
      calc after.grants .shared ≤ ∑ _thread : Tid, 1 :=
            Finset.sum_le_sum fun thread _ => single thread
        _ = Fintype.card Tid := by simp
    omega
  exact (countInvariant_of_reachable bounded).countsGrants free

/-- One thread that has been given `count` shared grants and returned none. -/
def nested (count : ℕ) : SharedLock (List Unit) Unit where
  slQueue := []
  slNumber := int32 count
  slFlags := 0
  slLock := none
  pc _ := .outside
  held _ type := if type = .shared then count else 0

theorem nested_zero : nested 0 = initial [] := by
  simp [nested, initial, int32]

@[simp]
theorem nested_grants_shared (count : ℕ) : (nested count).grants .shared = count := by
  simp [grants, nested]

/-- The steps of an `sl_lock_greedy(SL_TYPE_SHARED)` that does not have to wait. -/
theorem reachable_lockGreedy_shared {ops : WaitQueueOps Queue Tid} {empty queue : Queue}
    {allowed : SharedLock Queue Tid → SlEvent Tid → SharedLock Queue Tid → Prop}
    {lock : SharedLock Queue Tid} {thread : Tid}
    (reachable : ((system ops empty).restrict allowed).Reachable lock)
    (permits : ∀ before event after, after.grants .shared ≤ lock.grants .shared + 1 →
      allowed before event after)
    (atPc : lock.pc thread = .outside) (free : lock.slLock = none) (notDraining : ¬lock.Draining)
    (notWaiting : ¬SlType.shared.mustWait lock.slNumber)
    (woken : ops.getFirst lock.slQueue = some queue) :
    ((system ops empty).restrict allowed).Reachable
      ({ lock with slQueue := queue, slNumber := int32 (lock.slNumber + 1) }.setHeld thread .shared
        (lock.held thread .shared + 1)) := by
  have early : ∀ before event after, after.held = lock.held → allowed before event after := by
    intro before event after sameHeld
    apply permits
    simp [grants, sameHeld]
  have late : ∀ before event after,
      after.held = (lock.setHeld thread .shared (lock.held thread .shared + 1)).held →
        allowed before event after := by
    intro before event after changed
    apply permits
    have sum := grants_setHeld changed
    omega
  have called : ((system ops empty).restrict allowed).Reachable
      (lock.goto thread (.entering (.lockGreedy .shared))) :=
    reachable.step ⟨Step.call atPc (by simp), early _ _ _ rfl⟩
  have acquired := called.step ⟨Step.acquire (goto_pc ..) free, early _ _ _ rfl⟩
  have entered := acquired.step
    ⟨Step.exec (Exec.internalEnter (acquire_pc ..) notDraining), early _ _ _ rfl⟩
  have counted := entered.step
    ⟨Step.exec (Exec.sharedCount (goto_pc ..) notWaiting), early _ _ _ rfl⟩
  have granted := counted.step ⟨Step.exec (Exec.sharedGrant (goto_pc ..) woken), late _ _ _ rfl⟩
  have returned := granted.step ⟨Step.exec (Exec.lockReturn (goto_pc ..)), late _ _ _ rfl⟩
  have samePc : lock.pc = Function.update lock.pc thread .outside := by
    rw [← atPc, Function.update_eq_self]
  convert returned using 1
  simp [release, goto, setHeld, SharedLock.acquire, ← samePc, free]

theorem reachable_nested
    {allowed : SharedLock (List Unit) Unit → SlEvent Unit → SharedLock (List Unit) Unit → Prop}
    {count : ℕ} (small : count ≤ 2 ^ 31)
    (permits : ∀ before event after, after.grants .shared ≤ count → allowed before event after) :
    ((system (sequenceOps Unit) []).restrict allowed).Reachable (nested count) := by
  induction count with
  | zero => exact .init nested_zero
  | succ count ih =>
      have previous := ih (by omega) (fun before event after few =>
        permits before event after (by omega))
      have number : (nested count).slNumber = count := by
        rw [nested, int32_eq_self (by omega) (by omega)]
      have more : ((system (sequenceOps Unit) []).restrict allowed).Reachable
          ({ nested count with
              slQueue := []
              slNumber := int32 ((nested count).slNumber + 1) }.setHeld
            () .shared ((nested count).held () .shared + 1)) := by
        apply reachable_lockGreedy_shared previous
        · simpa using permits
        · rfl
        · rfl
        · simp [Draining, nested]
        · rw [number, SlType.mustWait]
          omega
        · rfl
      convert more using 1
      rw [number]
      simp only [nested, setHeld, SharedLock.mk.injEq, true_and]
      refine ⟨by simp, ?_⟩
      funext thread type
      cases type <;> simp

theorem countsGrants_nested :
    (boundedSystem (sequenceOps Unit) []).Reachable (nested 3) ∧ (nested 3).slLock = none ∧
      (nested 3).CountsGrants := by
  have reachable : (boundedSystem (sequenceOps Unit) []).Reachable (nested 3) :=
    reachable_nested (by norm_num) fun _ _ _ few => lt_of_le_of_lt few (by norm_num)
  exact ⟨reachable, rfl, countsGrants_of_reachable (sequenceOps Unit) [] reachable rfl⟩

/-- A single thread that nests `2 ^ 31` shared grants drives the counter below zero. -/
theorem not_countsGrants_nested :
    Fintype.card Unit < 2 ^ 31 ∧ ∃ lock : SharedLock (List Unit) Unit,
      (system (sequenceOps Unit) []).Reachable lock ∧ lock.slLock = none ∧ ¬lock.CountsGrants := by
  refine ⟨by simp, nested (2 ^ 31), ?_, rfl, ?_⟩
  · have reachable : ((system (sequenceOps Unit) []).restrict fun _ _ _ => True).Reachable
        (nested (2 ^ 31)) := reachable_nested le_rfl fun _ _ _ _ => trivial
    exact reachable.of_restrict
  · have number : (nested (2 ^ 31)).slNumber = -2 ^ 31 := by
      simp [nested, int32, Int.bmod]
    rintro ⟨-, counts⟩
    have nonnegative := (counts (by rw [number]; norm_num)).1
    rw [number] at nonnegative
    norm_num at nonnegative

end Main

end SharedLock

end Rkernel
