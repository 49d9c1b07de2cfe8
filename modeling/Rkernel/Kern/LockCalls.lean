import Rkernel.Kern.Lock

/-!
# Calls of a lock as runs

What one undisturbed call of an operation makes of a lock whose queue is a sequence. The
system is a parameter: it has to admit the steps of `sl_lock`, `sl_lock_greedy` and
`sl_unlock`, and may put conditions on `sl_drain`, `sl_touch` and the return from
`waitqueue_wait`. Those steps are given where they are needed.
-/

namespace Rkernel

/-- A step of `sl_lock`, `sl_lock_greedy` or `sl_unlock` other than a return from
`waitqueue_wait`, or any statement inside the spinlock section. -/
def SlEvent.Ordinary {Tid : Type} (lock : SharedLock (List Tid) Tid) : SlEvent Tid → Prop
  | .call _ (.lock _) | .call _ (.lockGreedy _) | .call _ (.unlock _) | .exec _ => True
  | .acquire thread => lock.pc thread ≠ .entering .drain
  | _ => False

namespace SharedLock

variable {Tid : Type} [DecidableEq Tid]

/-- The steps of the system are steps of the lock, and no ordinary one is excluded. -/
def AdmitsOrdinary (sys : TransitionSystem (SharedLock (List Tid) Tid) (SlEvent Tid)) : Prop :=
  ∀ lock event next, Step (sequenceOps Tid) lock event next → event.Ordinary lock →
    sys.step lock event next

theorem admitsOrdinary_system : AdmitsOrdinary (system (sequenceOps Tid) []) :=
  fun _ _ _ step _ => step

theorem AdmitsOrdinary.restrict
    {sys : TransitionSystem (SharedLock (List Tid) Tid) (SlEvent Tid)}
    {allowed : SharedLock (List Tid) Tid → SlEvent Tid → SharedLock (List Tid) Tid → Prop}
    (admits : AdmitsOrdinary sys)
    (weaker : ∀ lock event next, Step (sequenceOps Tid) lock event next → event.Ordinary lock →
      allowed lock event next) : AdmitsOrdinary (sys.restrict allowed) :=
  fun _ _ _ step ordinary => ⟨admits _ _ _ step ordinary, weaker _ _ _ step ordinary⟩

section Calls

variable {sys : TransitionSystem (SharedLock (List Tid) Tid) (SlEvent Tid)}
  {lock next : SharedLock (List Tid) Tid} {thread : Tid}

theorem AdmitsOrdinary.exec (admits : AdmitsOrdinary sys) (reachable : sys.Reachable lock)
    (exec : lock.Exec (sequenceOps Tid) thread next) : sys.Reachable next :=
  reachable.step (admits _ _ _ (.exec exec) trivial)

variable (thread)

/-- A sleeper that has been taken out of the queue comes back. -/
theorem Step.resume_unlinked {site : WaitSite} (atPc : lock.pc thread = .asleep site)
    (unlinked : thread ∉ lock.slQueue) (free : lock.slLock = none) :
    Step (sequenceOps Tid) lock (.resume thread) (lock.acquire thread site.resume) :=
  .resume atPc unlinked free

/-- A thread calls an operation other than `sl_touch` and `sl_drain` and takes the spinlock. -/
theorem AdmitsOrdinary.enter (admits : AdmitsOrdinary sys) (reachable : sys.Reachable lock)
    (call : SlCall) (ordinary : (SlEvent.call thread call).Ordinary lock)
    (atPc : lock.pc thread = .outside) (free : lock.slLock = none)
    (matching : ∀ type, call = .unlock type → 0 < lock.held thread type) :
    sys.Reachable (lock.acquire thread call.entry) := by
  have called := reachable.step (admits _ _ _ (.call atPc matching) ordinary)
  have notDrain : (SlEvent.acquire thread).Ordinary (lock.goto thread (.entering call)) := by
    simp only [SlEvent.Ordinary, goto_pc]
    rintro ⟨⟩
    exact ordinary
  have acquired := called.step (admits _ _ _ (.acquire (goto_pc ..) free) notDrain)
  simpa [SharedLock.acquire, goto] using acquired

/-- `sl_lock_greedy(SL_TYPE_EXCLUSIVE)` on a free lock. -/
theorem AdmitsOrdinary.lockGreedy (admits : AdmitsOrdinary sys) (reachable : sys.Reachable lock)
    (atPc : lock.pc thread = .outside) (free : lock.slLock = none) (notDraining : ¬lock.Draining)
    (zero : lock.slNumber = 0) :
    sys.Reachable ({ lock with slNumber := -1 }.setHeld thread .exclusive
      (lock.held thread .exclusive + 1)) := by
  have acquired := admits.enter thread reachable (.lockGreedy .exclusive) trivial atPc free
    (by simp)
  have entered := admits.exec acquired (.internalEnter (acquire_pc ..) notDraining)
  have granted := admits.exec entered (.exclusiveGrant (goto_pc ..) (not_not.mpr zero))
  have returned := admits.exec granted (.lockReturn (goto_pc ..))
  have samePc : lock.pc = Function.update lock.pc thread .outside := by
    rw [← atPc, Function.update_eq_self]
  convert returned using 1
  simp [release, goto, setHeld, SharedLock.acquire, ← samePc, free]

/-- `sl_lock_greedy(SL_TYPE_EXCLUSIVE)` on a lock that is held. -/
theorem AdmitsOrdinary.lockGreedy_asleep (admits : AdmitsOrdinary sys)
    (reachable : sys.Reachable lock) (atPc : lock.pc thread = .outside)
    (free : lock.slLock = none) (notDraining : ¬lock.Draining) (nonzero : lock.slNumber ≠ 0) :
    sys.Reachable (lock.sleep thread (.internal .exclusive) (lock.slQueue ++ [thread])) := by
  have acquired := admits.enter thread reachable (.lockGreedy .exclusive) trivial atPc free
    (by simp)
  have entered := admits.exec acquired (.internalEnter (acquire_pc ..) notDraining)
  have asleep := admits.exec entered (.internalWait (goto_pc ..) nonzero rfl)
  convert asleep using 1
  simp [SharedLock.sleep, goto, SharedLock.acquire]

/-- `sl_lock(SL_TYPE_EXCLUSIVE)` behind other sleepers. -/
theorem AdmitsOrdinary.lock_asleep (admits : AdmitsOrdinary sys) (reachable : sys.Reachable lock)
    (atPc : lock.pc thread = .outside) (free : lock.slLock = none) (notDraining : ¬lock.Draining)
    (nonempty : lock.slQueue.isEmpty = false) :
    sys.Reachable (lock.sleep thread (.fair .exclusive) (thread :: lock.slQueue)) := by
  have acquired := admits.enter thread reachable (.lock .exclusive) trivial atPc free (by simp)
  have asleep := admits.exec acquired (.lockFair (acquire_pc ..) notDraining nonempty rfl)
  convert asleep using 1
  simp [SharedLock.sleep, SharedLock.acquire]

/-- `sl_unlock(SL_TYPE_EXCLUSIVE)`, which takes the first sleeper out of the queue. -/
theorem AdmitsOrdinary.unlock (admits : AdmitsOrdinary sys) (reachable : sys.Reachable lock)
    (atPc : lock.pc thread = .outside) (free : lock.slLock = none)
    (holdsOne : 0 < lock.held thread .exclusive) :
    sys.Reachable
      ({ lock with slNumber := 0, slQueue := lock.slQueue.dropLast }.setHeld thread .exclusive
        (lock.held thread .exclusive - 1)) := by
  have acquired := admits.enter thread reachable (.unlock .exclusive) trivial atPc free
    (by rintro type ⟨⟩; exact holdsOne)
  have counted := admits.exec acquired (.unlockExclusive (acquire_pc ..))
  have woken := admits.exec counted (.unlockWake (goto_pc ..) rfl)
  have returned := admits.exec woken (.unlockReturn (goto_pc ..))
  have samePc : lock.pc = Function.update lock.pc thread .outside := by
    rw [← atPc, Function.update_eq_self]
  convert returned using 1
  simp [release, goto, setHeld, SharedLock.acquire, ← samePc, free]

/-- `sl_drain` up to the test of the counter. -/
theorem AdmitsOrdinary.drain (admits : AdmitsOrdinary sys) (reachable : sys.Reachable lock)
    (calls : sys.step lock (.call thread .drain) (lock.goto thread (.entering .drain)))
    (takes : sys.step (lock.goto thread (.entering .drain)) (.acquire thread)
      ((lock.goto thread (.entering .drain)).acquire thread .drainEntry)) :
    sys.Reachable
      ({ lock with
          slFlags := lock.slFlags ||| slFlagDrain
          slQueue := lock.slQueue.dropLast }.acquire thread .drainNumberTest) := by
  have acquired := (reachable.step calls).step takes
  have flagged := admits.exec acquired (.drainFlag (acquire_pc ..))
  have woken := admits.exec flagged (.drainWake (goto_pc ..) rfl)
  convert woken using 1
  simp [goto, SharedLock.acquire]

/-- A woken sleeper of `sl_lock_internal` gives up and wakes the next one. -/
theorem AdmitsOrdinary.internal_enolck (admits : AdmitsOrdinary sys)
    (reachable : sys.Reachable lock) (type : SlType)
    (resumes : sys.step lock (.resume thread) (lock.acquire thread (WaitSite.internal type).resume))
    (draining : lock.Draining) :
    sys.Reachable ({ lock with slQueue := lock.slQueue.dropLast, slLock := none }.goto thread
      .outside) := by
  have resumed := reachable.step resumes
  have woken := admits.exec resumed (.retestDraining (acquire_pc ..) draining rfl)
  have returned := admits.exec woken (.lockReturn (goto_pc ..))
  convert returned using 1
  simp [release, goto, SharedLock.acquire]

/-- A woken fair sleeper gives up and wakes nobody. -/
theorem AdmitsOrdinary.fair_enolck (admits : AdmitsOrdinary sys) (reachable : sys.Reachable lock)
    (type : SlType)
    (resumes : sys.step lock (.resume thread) (lock.acquire thread (WaitSite.fair type).resume))
    (draining : lock.Draining) :
    sys.Reachable ({ lock with slLock := none }.goto thread .outside) := by
  have resumed := reachable.step resumes
  have given := admits.exec resumed (.internalDraining (acquire_pc ..) draining)
  have returned := admits.exec given (.lockReturn (goto_pc ..))
  convert returned using 1
  simp [release, goto, SharedLock.acquire]

end Calls

end SharedLock

end Rkernel
