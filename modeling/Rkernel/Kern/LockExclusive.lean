import Rkernel.Kern.LockWakeup
import Rkernel.Kern.LockDrain

/-!
# Exclusive use of a shared lock

All threads call `sl_lock` and `sl_unlock` with `SL_TYPE_EXCLUSIVE` and nothing else. Then the
lock is never drained, few program points are left, and a lock that is held has one holder.
-/

namespace Rkernel

/-- The program points of `sl_lock` and `sl_unlock` with `SL_TYPE_EXCLUSIVE`. -/
def SlPc.exclusiveOnly : SlPc → Bool
  | .outside | .entering (.lock .exclusive) | .entering (.unlock .exclusive)
  | .asleep (.fair .exclusive) | .asleep (.internal .exclusive) | .lockEntry .exclusive
  | .internalEntry .exclusive | .internalTest .exclusive | .internalRetest .exclusive
  | .lockReturn _ | .unlockEntry .exclusive | .unlockWake | .unlockReturn => true
  | _ => false

theorem SlPc.call_of_exclusiveOnly {call : SlCall}
    (only : (SlPc.entering call).exclusiveOnly = true) :
    call = .lock .exclusive ∨ call = .unlock .exclusive := by
  cases call with
  | lock type => cases type <;> simp_all [SlPc.exclusiveOnly]
  | unlock type => cases type <;> simp_all [SlPc.exclusiveOnly]
  | _ => simp [SlPc.exclusiveOnly] at only

theorem SlPc.site_of_exclusiveOnly {site : WaitSite}
    (only : (SlPc.asleep site).exclusiveOnly = true) :
    site = .fair .exclusive ∨ site = .internal .exclusive := by
  cases site with
  | fair type => cases type <;> simp_all [SlPc.exclusiveOnly]
  | internal type => cases type <;> simp_all [SlPc.exclusiveOnly]
  | _ => simp [SlPc.exclusiveOnly] at only

/-- The threads that only call `sl_lock` and `sl_unlock` with `SL_TYPE_EXCLUSIVE`. -/
def SlEvent.ExclusiveCall {Tid : Type} (event : SlEvent Tid) : Prop :=
  ∀ thread call, event = .call thread call → call = .lock .exclusive ∨ call = .unlock .exclusive

namespace SharedLock

variable {Tid : Type} [DecidableEq Tid]

/-- The runs in which the lock is used exclusively and through `sl_lock` only. -/
def exclusiveSystem (Tid : Type) [DecidableEq Tid] :
    TransitionSystem (SharedLock (List Tid) Tid) (SlEvent Tid) :=
  (system (sequenceOps Tid) []).restrict fun _ event _ => event.ExclusiveCall

/-- The statements of a thread that uses the lock exclusively and through `sl_lock`. -/
inductive ExclusiveExec (lock : SharedLock (List Tid) Tid) (thread : Tid) :
    SharedLock (List Tid) Tid → Prop where
  | queueUp (atPc : lock.pc thread = .lockEntry .exclusive) (nonempty : lock.slQueue ≠ []) :
      ExclusiveExec lock thread (lock.sleep thread (.fair .exclusive) (thread :: lock.slQueue))
  | goOn (atPc : lock.pc thread = .lockEntry .exclusive) (empty : lock.slQueue = []) :
      ExclusiveExec lock thread (lock.goto thread (.internalEntry .exclusive))
  | toTest (atPc : lock.pc thread = .internalEntry .exclusive ∨
        lock.pc thread = .internalRetest .exclusive) :
      ExclusiveExec lock thread (lock.goto thread (.internalTest .exclusive))
  | wait (atPc : lock.pc thread = .internalTest .exclusive) (taken : lock.slNumber ≠ 0) :
      ExclusiveExec lock thread
        (lock.sleep thread (.internal .exclusive) (lock.slQueue ++ [thread]))
  | grant (atPc : lock.pc thread = .internalTest .exclusive) (free : lock.slNumber = 0) :
      ExclusiveExec lock thread
        (({ lock with slNumber := -1 }.setHeld thread .exclusive
          (lock.held thread .exclusive + 1)).goto thread (.lockReturn 0))
  | unlock (atPc : lock.pc thread = .unlockEntry .exclusive) :
      ExclusiveExec lock thread
        (({ lock with slNumber := 0 }.setHeld thread .exclusive
          (lock.held thread .exclusive - 1)).goto thread .unlockWake)
  | wakeNext (atPc : lock.pc thread = .unlockWake) :
      ExclusiveExec lock thread
        ({ lock with slQueue := lock.slQueue.dropLast }.goto thread .unlockReturn)
  | leave (atPc : (∃ result, lock.pc thread = .lockReturn result) ∨
        lock.pc thread = .unlockReturn) :
      ExclusiveExec lock thread (lock.release thread)

/-- The invariant that does not depend on the order of the calls: a lock that is held is marked
as taken and has one holder. -/
structure ExclusiveInvariant (lock : SharedLock (List Tid) Tid) : Prop where
  wake : lock.WakeInvariant
  only : ∀ thread, (lock.pc thread).exclusiveOnly = true
  matching : ∀ thread, lock.pc thread = .entering (.unlock .exclusive) ∨
    lock.pc thread = .unlockEntry .exclusive → 0 < lock.held thread .exclusive
  holder : ∀ thread, 0 < lock.held thread .exclusive → lock.slNumber ≠ 0 ∧
    lock.held thread .exclusive = 1 ∧ ∀ other, 0 < lock.held other .exclusive → other = thread

section Exclusive

variable {lock next : SharedLock (List Tid) Tid} {thread : Tid}

theorem Exec.exclusive (exec : lock.Exec (sequenceOps Tid) thread next)
    (only : (lock.pc thread).exclusiveOnly = true) (notDraining : ¬lock.Draining) :
    lock.ExclusiveExec thread next := by
  cases exec with
  | lockDraining atPc draining | internalDraining atPc draining
  | retestDraining atPc draining => exact absurd draining notDraining
  | @lockFair type queue atPc _ nonempty entered =>
      cases type with
      | shared => simp [atPc, SlPc.exclusiveOnly] at only
      | exclusive =>
          simp only [sequenceOps, if_true, Option.some.injEq] at entered
          subst entered
          exact .queueUp atPc (by simpa [sequenceOps] using nonempty)
  | @lockDirect type atPc _ empty =>
      cases type with
      | shared => simp [atPc, SlPc.exclusiveOnly] at only
      | exclusive => exact .goOn atPc (by simpa [sequenceOps] using empty)
  | @internalEnter type atPc =>
      cases type with
      | shared => simp [atPc, SlPc.exclusiveOnly] at only
      | exclusive => exact .toTest (Or.inl atPc)
  | @retest type atPc =>
      cases type with
      | shared => simp [atPc, SlPc.exclusiveOnly] at only
      | exclusive => exact .toTest (Or.inr atPc)
  | @internalWait type queue atPc mustWait entered =>
      cases type with
      | shared => simp [atPc, SlPc.exclusiveOnly] at only
      | exclusive =>
          simp only [sequenceOps, Bool.false_eq_true, if_false, Option.some.injEq] at entered
          subst entered
          exact .wait atPc mustWait
  | exclusiveGrant atPc free => exact .grant atPc (not_not.mp free)
  | lockReturn atPc => exact .leave (Or.inl ⟨_, atPc⟩)
  | unlockReturn atPc => exact .leave (Or.inr atPc)
  | unlockExclusive atPc => exact .unlock atPc
  | unlockWake atPc woken =>
      simp only [sequenceOps, Option.some.injEq] at woken
      subst woken
      exact .wakeNext atPc
  | sharedCount atPc | sharedGrant atPc | unlockShared atPc | touchWait atPc | touchPass atPc
  | touchWake atPc | touchReturn atPc | drainFlag atPc | drainWake atPc | drainNumberWait atPc
  | drainNumberDone atPc | drainQueueWait atPc | drainQueueDone atPc | drainReturn atPc =>
      simp [atPc, SlPc.exclusiveOnly] at only

/-- What is known of a thread holds afterwards if it holds at its new point. -/
theorem ExclusiveInvariant.only_move (invariant : lock.ExclusiveInvariant) {target : SlPc}
    (targetOnly : target.exclusiveOnly = true)
    (moved : next.pc = Function.update lock.pc thread target) (other : Tid) :
    (next.pc other).exclusiveOnly = true := by
  rw [moved]
  by_cases same : other = thread
  · rw [same, Function.update_self]
    exact targetOnly
  · rw [Function.update_of_ne same]
    exact invariant.only other

theorem ExclusiveInvariant.matching_move (invariant : lock.ExclusiveInvariant) {target : SlPc}
    (moved : next.pc = Function.update lock.pc thread target)
    (sameHeld : ∀ other, other ≠ thread → next.held other = lock.held other)
    (targetMatches : target = .entering (.unlock .exclusive) ∨ target = .unlockEntry .exclusive →
      0 < next.held thread .exclusive) (other : Tid)
    (unlocking : next.pc other = .entering (.unlock .exclusive) ∨
      next.pc other = .unlockEntry .exclusive) : 0 < next.held other .exclusive := by
  rw [moved] at unlocking
  by_cases same : other = thread
  · subst other
    rw [Function.update_self] at unlocking
    exact targetMatches unlocking
  · rw [Function.update_of_ne same] at unlocking
    rw [sameHeld other same]
    exact invariant.matching other unlocking

theorem ExclusiveInvariant.exec (invariant : lock.ExclusiveInvariant)
    (exec : lock.Exec (sequenceOps Tid) thread next) : next.ExclusiveInvariant := by
  have wake := invariant.wake.exec exec
  have sameHeld (count : ℕ) (other : Tid) (different : other ≠ thread) :
      (lock.setHeld thread .exclusive count).held other = lock.held other :=
    Function.update_of_ne different ..
  have ownHeld (count : ℕ) :
      (lock.setHeld thread .exclusive count).held thread .exclusive = count := by
    simp [setHeld]
  cases exec.exclusive (invariant.only thread) invariant.wake.notDraining with
  | queueUp atPc | goOn atPc | toTest atPc | wait atPc | wakeNext atPc | leave atPc =>
      exact ⟨wake, invariant.only_move rfl rfl,
        invariant.matching_move rfl (fun _ _ => rfl) (by simp), invariant.holder⟩
  | grant atPc free =>
      have nobody (other : Tid) : lock.held other .exclusive = 0 := by
        by_contra isHeld
        exact (invariant.holder other (Nat.pos_of_ne_zero isHeld)).1 free
      have holds (other : Tid)
          (isHeld : 0 < (lock.setHeld thread .exclusive
            (lock.held thread .exclusive + 1)).held other .exclusive) : other = thread := by
        by_contra different
        rw [sameHeld _ other different, nobody] at isHeld
        exact absurd isHeld (Nat.lt_irrefl _)
      refine ⟨wake, invariant.only_move rfl rfl,
        invariant.matching_move rfl (sameHeld _) (by simp), ?_⟩
      intro other isHeld
      have isThread := holds other isHeld
      subst isThread
      refine ⟨by simp [goto, setHeld], ?_, fun another anotherHeld => holds another anotherHeld⟩
      exact (ownHeld _).trans (by rw [nobody])
  | unlock atPc =>
      obtain ⟨-, one, alone⟩ := invariant.holder thread (invariant.matching thread (Or.inr atPc))
      refine ⟨wake, invariant.only_move rfl rfl,
        invariant.matching_move rfl (sameHeld _) (by simp), ?_⟩
      intro other isHeld
      exfalso
      by_cases same : other = thread
      · subst other
        have isPositive := (ownHeld (lock.held thread .exclusive - 1)).symm.trans_gt isHeld
        omega
      · have stillHeld : 0 < lock.held other .exclusive := by
          rw [← sameHeld (lock.held thread .exclusive - 1) other same]
          exact isHeld
        exact same (alone other stillHeld)

theorem ExclusiveInvariant.step {event : SlEvent Tid} (invariant : lock.ExclusiveInvariant)
    (step : Step (sequenceOps Tid) lock event next) (isExclusive : event.ExclusiveCall) :
    next.ExclusiveInvariant := by
  have wake : next.WakeInvariant := by
    apply invariant.wake.step step
    intro other isDrain
    rcases isExclusive other .drain isDrain with isLock | isUnlock
    · cases isLock
    · cases isUnlock
  cases step with
  | @call mover call atPc matching =>
      rcases isExclusive mover call rfl with rfl | rfl
      · exact ⟨wake, invariant.only_move rfl rfl,
          invariant.matching_move rfl (fun _ _ => rfl) (by simp), invariant.holder⟩
      · exact ⟨wake, invariant.only_move rfl rfl,
          invariant.matching_move rfl (fun _ _ => rfl) (fun _ => matching .exclusive rfl),
          invariant.holder⟩
  | @acquire mover call atPc free =>
      have only := invariant.only mover
      rw [atPc] at only
      rcases SlPc.call_of_exclusiveOnly only with rfl | rfl
      · exact ⟨wake, invariant.only_move rfl rfl,
          invariant.matching_move rfl (fun _ _ => rfl) (by simp [SlCall.entry]),
          invariant.holder⟩
      · exact ⟨wake, invariant.only_move rfl rfl,
          invariant.matching_move rfl (fun _ _ => rfl)
            (fun _ => invariant.matching mover (Or.inl atPc)), invariant.holder⟩
  | exec exec => exact invariant.exec exec
  | @resume mover site atPc mayReturn free =>
      have only := invariant.only mover
      rw [atPc] at only
      refine ⟨wake, invariant.only_move ?_ rfl,
        invariant.matching_move rfl (fun _ _ => rfl) ?_, invariant.holder⟩
      · rcases SlPc.site_of_exclusiveOnly only with rfl | rfl
        · rfl
        · rfl
      · cases site <;> simp [WaitSite.resume]

end Exclusive

end SharedLock

end Rkernel
