import Rkernel.Kern.LockDrain

/-!
# Touching a lock

`sl_touch` is documented as equal to `sl_lock_greedy` followed by `sl_unlock`. It has a wait
loop of its own, which tests `sl_number` as the loop of `sl_lock_internal` does, but not
`SL_FLAG_DRAIN`: on a lock that is drained it waits on and returns 0.

A caller is alone with the lock except while it sleeps, so what the other threads do is given
by their steps during each of its sleeps. Both callers are compared under the same steps of
the others. They agree as long as the flag is clear at each of their tests, and only then.

`waitqueue_wait` may come back under any condition on the queue.
-/

namespace Rkernel

/-- The thread that makes a step. -/
def SlEvent.thread {Tid : Type} : SlEvent Tid → Tid
  | .call thread _ | .acquire thread | .exec thread | .resume thread => thread

/-- The result of a thread that only has to leave its operation: it neither tests nor changes
`sl_number` and `sl_flags` any more. -/
def SlPc.leaving : SlPc → Option ℕ
  | .lockReturn result => some result
  | .sharedWake | .unlockWake | .unlockReturn | .touchWake | .touchReturn => some 0
  | _ => none

/-- What a grant makes of `sl_number`. -/
def SlType.granted : SlType → ℤ → ℤ
  | .shared, number => int32 (number + 1)
  | .exclusive, _ => -1

/-- What `sl_unlock` makes of `sl_number`. -/
def SlType.unlocked : SlType → ℤ → ℤ
  | .shared, number => int32 (number - 1)
  | .exclusive, _ => 0

/-- The steps of the other threads during one sleep of a caller, and the flags of the lock when
the caller goes on. -/
structure OtherSteps (Tid : Type) where
  events : List (SlEvent Tid)
  slFlags : BitVec 32

/-- The queue as a sequence, with any condition under which `waitqueue_wait` comes back. -/
def returningOps {Tid : Type} (mayReturn : List Tid → Tid → Prop) : WaitQueueOps (List Tid) Tid :=
  { sequenceOps Tid with mayReturn }

namespace SharedLock

variable {Queue Tid : Type} [DecidableEq Tid]

/-- Steps of threads other than the caller. -/
inductive OthersStep (ops : WaitQueueOps Queue Tid) (caller : Tid) :
    SharedLock Queue Tid → List (SlEvent Tid) → SharedLock Queue Tid → Prop where
  | nil {lock : SharedLock Queue Tid} : OthersStep ops caller lock [] lock
  | cons {lock next final : SharedLock Queue Tid} {event : SlEvent Tid}
      {events : List (SlEvent Tid)} (isOther : event.thread ≠ caller)
      (step : Step ops lock event next) (rest : OthersStep ops caller next events final) :
      OthersStep ops caller lock (event :: events) final

/-- The caller goes on from its program point until it returns, with its result. During each of
its sleeps the others make the given steps. -/
inductive Returns (ops : WaitQueueOps Queue Tid) (caller : Tid) :
    SharedLock Queue Tid → List (OtherSteps Tid) → ℕ → SharedLock Queue Tid → Prop where
  | lockReturn {lock : SharedLock Queue Tid} {result : ℕ}
      (atPc : lock.pc caller = .lockReturn result) :
      Returns ops caller lock [] result (lock.release caller)
  | unlockReturn {lock : SharedLock Queue Tid} (atPc : lock.pc caller = .unlockReturn) :
      Returns ops caller lock [] 0 (lock.release caller)
  | touchReturn {lock : SharedLock Queue Tid} (atPc : lock.pc caller = .touchReturn) :
      Returns ops caller lock [] 0 (lock.release caller)
  | exec {lock next final : SharedLock Queue Tid} {sleeps : List (OtherSteps Tid)} {code : ℕ}
      (exec : lock.Exec ops caller next) (rest : Returns ops caller next sleeps code final) :
      Returns ops caller lock sleeps code final
  | wake {lock woken final : SharedLock Queue Tid} {site : WaitSite} {others : OtherSteps Tid}
      {sleeps : List (OtherSteps Tid)} {code : ℕ} (atPc : lock.pc caller = .asleep site)
      (steps : OthersStep ops caller lock others.events woken)
      (flags : woken.slFlags = others.slFlags)
      (mayReturn : ops.mayReturn woken.slQueue caller) (free : woken.slLock = none)
      (rest : Returns ops caller (woken.acquire caller site.resume) sleeps code final) :
      Returns ops caller lock (others :: sleeps) code final

/-- A call that takes the spinlock and runs until it returns. -/
def Calls (ops : WaitQueueOps Queue Tid) (caller : Tid) (call : SlCall)
    (lock : SharedLock Queue Tid) (sleeps : List (OtherSteps Tid)) (code : ℕ)
    (final : SharedLock Queue Tid) : Prop :=
  Returns ops caller (lock.acquire caller call.entry) sleeps code final

/-- `sl_lock_greedy` and then, if the lock is granted, `sl_unlock`. -/
def LocksAndUnlocks (ops : WaitQueueOps Queue Tid) (caller : Tid) (type : SlType)
    (lock : SharedLock Queue Tid) (sleeps : List (OtherSteps Tid)) (code : ℕ)
    (final : SharedLock Queue Tid) : Prop :=
  ∃ locked, lock.Calls ops caller (.lockGreedy type) sleeps code locked ∧
    if code = 0 then locked.Calls ops caller (.unlock type) [] 0 final else final = locked

/-- Both callers return with the same result and leave the same counter and flags. -/
def TouchAgrees (ops : WaitQueueOps Queue Tid) (caller : Tid) (type : SlType)
    (lock : SharedLock Queue Tid) (sleeps : List (OtherSteps Tid)) : Prop :=
  ∀ code number flags,
    (∃ final, lock.Calls ops caller (.touch type) sleeps code final ∧
      final.slNumber = number ∧ final.slFlags = flags) ↔
    ∃ final, lock.LocksAndUnlocks ops caller type sleeps code final ∧
      final.slNumber = number ∧ final.slFlags = flags

/-- The flag is clear when the caller goes on after each of its sleeps. -/
def StaysClear (sleeps : List (OtherSteps Tid)) : Prop :=
  ∀ others ∈ sleeps, others.slFlags &&& slFlagDrain = 0

section Frame

variable {ops : WaitQueueOps Queue Tid} {lock next : SharedLock Queue Tid} {caller thread : Tid}

theorem goto_comm (lock : SharedLock Queue Tid) (different : thread ≠ caller)
    (target pc : SlPc) :
    (lock.goto thread target).goto caller pc = (lock.goto caller pc).goto thread target := by
  simp only [goto, Function.update_comm different]

theorem sleep_goto (lock : SharedLock Queue Tid) (different : thread ≠ caller) (site : WaitSite)
    (queue : Queue) (pc : SlPc) :
    (lock.sleep thread site queue).goto caller pc =
      (lock.goto caller pc).sleep thread site queue := by
  simp only [goto, SharedLock.sleep, Function.update_comm different]

theorem release_goto (lock : SharedLock Queue Tid) (different : thread ≠ caller) (pc : SlPc) :
    (lock.release thread).goto caller pc = (lock.goto caller pc).release thread := by
  simp only [goto, release, Function.update_comm different]

theorem acquire_goto (lock : SharedLock Queue Tid) (different : thread ≠ caller)
    (target pc : SlPc) :
    (lock.acquire thread target).goto caller pc = (lock.goto caller pc).acquire thread target := by
  simp only [goto, SharedLock.acquire, Function.update_comm different]

/-- What another thread does depends neither on the caller's program point nor changes it. -/
theorem Exec.frame (exec : lock.Exec ops thread next) (different : thread ≠ caller) (pc : SlPc) :
    (lock.goto caller pc).Exec ops thread (next.goto caller pc) := by
  have samePc : (lock.goto caller pc).pc thread = lock.pc thread :=
    Function.update_of_ne different ..
  cases exec with
  | lockDraining atPc draining =>
      rw [goto_comm _ different]
      exact .lockDraining (samePc.trans atPc) draining
  | lockFair atPc notDraining nonempty entered =>
      rw [sleep_goto _ different]
      exact .lockFair (samePc.trans atPc) notDraining nonempty entered
  | lockDirect atPc notDraining empty =>
      rw [goto_comm _ different]
      exact .lockDirect (samePc.trans atPc) notDraining empty
  | internalDraining atPc draining =>
      rw [goto_comm _ different]
      exact .internalDraining (samePc.trans atPc) draining
  | internalEnter atPc notDraining =>
      rw [goto_comm _ different]
      exact .internalEnter (samePc.trans atPc) notDraining
  | internalWait atPc mustWait entered =>
      rw [sleep_goto _ different]
      exact .internalWait (samePc.trans atPc) mustWait entered
  | retestDraining atPc draining woken =>
      rw [goto_comm _ different]
      exact .retestDraining (samePc.trans atPc) draining woken
  | retest atPc notDraining =>
      rw [goto_comm _ different]
      exact .retest (samePc.trans atPc) notDraining
  | sharedCount atPc free =>
      rw [goto_comm _ different]
      exact .sharedCount (samePc.trans atPc) free
  | sharedGrant atPc woken =>
      rw [goto_comm _ different]
      exact .sharedGrant (samePc.trans atPc) woken
  | exclusiveGrant atPc free =>
      rw [goto_comm _ different]
      exact .exclusiveGrant (samePc.trans atPc) free
  | lockReturn atPc =>
      rw [release_goto _ different]
      exact .lockReturn (samePc.trans atPc)
  | unlockShared atPc =>
      rw [goto_comm _ different]
      exact .unlockShared (samePc.trans atPc)
  | unlockExclusive atPc =>
      rw [goto_comm _ different]
      exact .unlockExclusive (samePc.trans atPc)
  | unlockWake atPc woken =>
      rw [goto_comm _ different]
      exact .unlockWake (samePc.trans atPc) woken
  | unlockReturn atPc =>
      rw [release_goto _ different]
      exact .unlockReturn (samePc.trans atPc)
  | touchWait atPc mustWait entered =>
      rw [sleep_goto _ different]
      exact .touchWait (samePc.trans atPc) mustWait entered
  | touchPass atPc free =>
      rw [goto_comm _ different]
      exact .touchPass (samePc.trans atPc) free
  | touchWake atPc woken =>
      rw [goto_comm _ different]
      exact .touchWake (samePc.trans atPc) woken
  | touchReturn atPc =>
      rw [release_goto _ different]
      exact .touchReturn (samePc.trans atPc)
  | drainFlag atPc =>
      rw [goto_comm _ different]
      exact .drainFlag (samePc.trans atPc)
  | drainWake atPc woken =>
      rw [goto_comm _ different]
      exact .drainWake (samePc.trans atPc) woken
  | drainNumberWait atPc nonzero entered =>
      rw [sleep_goto _ different]
      exact .drainNumberWait (samePc.trans atPc) nonzero entered
  | drainNumberDone atPc zero =>
      rw [goto_comm _ different]
      exact .drainNumberDone (samePc.trans atPc) zero
  | drainQueueWait atPc nonempty entered =>
      rw [sleep_goto _ different]
      exact .drainQueueWait (samePc.trans atPc) nonempty entered
  | drainQueueDone atPc empty =>
      rw [goto_comm _ different]
      exact .drainQueueDone (samePc.trans atPc) empty
  | drainReturn atPc =>
      rw [release_goto _ different]
      exact .drainReturn (samePc.trans atPc)

theorem Step.frame {event : SlEvent Tid} (step : Step ops lock event next)
    (isOther : event.thread ≠ caller) (pc : SlPc) :
    Step ops (lock.goto caller pc) event (next.goto caller pc) := by
  have samePc {thread : Tid} (different : thread ≠ caller) :
      (lock.goto caller pc).pc thread = lock.pc thread := Function.update_of_ne different ..
  cases step with
  | call atPc matching =>
      rw [goto_comm _ (by exact isOther)]
      exact .call ((samePc isOther).trans atPc) matching
  | acquire atPc free =>
      rw [acquire_goto _ (by exact isOther)]
      exact .acquire ((samePc isOther).trans atPc) free
  | exec exec => exact .exec (exec.frame isOther pc)
  | resume atPc mayReturn free =>
      rw [acquire_goto _ (by exact isOther)]
      exact .resume ((samePc isOther).trans atPc) mayReturn free

theorem OthersStep.frame {events : List (SlEvent Tid)}
    (steps : OthersStep ops caller lock events next) (pc : SlPc) :
    OthersStep ops caller (lock.goto caller pc) events (next.goto caller pc) := by
  induction steps with
  | nil => exact .nil
  | cons isOther step rest ih => exact .cons isOther (step.frame isOther pc) ih

end Frame

section Caller

variable {mayReturn : List Tid → Tid → Prop} {lock next final : SharedLock (List Tid) Tid}
  {caller : Tid} {type : SlType} {sleeps : List (OtherSteps Tid)} {code : ℕ}

theorem Returns.not_outside
    (returned : Returns (returningOps mayReturn) caller lock sleeps code final) :
    lock.pc caller ≠ .outside := by
  intro isOutside
  cases returned with
  | lockReturn atPc | unlockReturn atPc | touchReturn atPc | wake atPc =>
      rw [isOutside] at atPc
      cases atPc
  | exec exec =>
      have holds := exec.holds
      rw [isOutside] at holds
      cases holds

/-- A thread that only has to leave does not sleep. -/
theorem Returns.of_leaving
    (returned : Returns (returningOps mayReturn) caller lock sleeps code final) {result : ℕ}
    (leaving : (lock.pc caller).leaving = some result) :
    sleeps = [] ∧ code = result ∧ final.slNumber = lock.slNumber ∧
      final.slFlags = lock.slFlags := by
  induction returned with
  | lockReturn atPc | unlockReturn atPc | touchReturn atPc =>
      rw [atPc] at leaving
      cases leaving
      exact ⟨rfl, rfl, rfl, rfl⟩
  | wake atPc =>
      rw [atPc] at leaving
      cases leaving
  | exec exec rest ih =>
      have notOutside := rest.not_outside
      cases exec with
      | lockReturn | unlockReturn | touchReturn =>
          simp [release] at notOutside
      | sharedGrant atPc | unlockWake atPc | touchWake atPc =>
          rw [atPc] at leaving
          cases leaving
          exact ih (by simp [SlPc.leaving])
      | lockDraining atPc | lockFair atPc | lockDirect atPc | internalDraining atPc
      | internalEnter atPc | internalWait atPc | retestDraining atPc | retest atPc
      | sharedCount atPc | exclusiveGrant atPc | unlockShared atPc | unlockExclusive atPc
      | touchWait atPc | touchPass atPc | drainFlag atPc | drainWake atPc | drainNumberWait atPc
      | drainNumberDone atPc | drainQueueWait atPc | drainQueueDone atPc | drainReturn atPc =>
          rw [atPc] at leaving
          cases leaving

theorem exists_returns_of_leaving (mayReturn : List Tid → Tid → Prop) {result : ℕ}
    (leaving : (lock.pc caller).leaving = some result) :
    ∃ final, Returns (returningOps mayReturn) caller lock [] result final ∧
      final.slNumber = lock.slNumber ∧ final.slFlags = lock.slFlags := by
  cases atPc : lock.pc caller with
  | lockReturn result =>
      rw [atPc] at leaving
      cases leaving
      exact ⟨_, .lockReturn atPc, rfl, rfl⟩
  | unlockReturn =>
      rw [atPc] at leaving
      cases leaving
      exact ⟨_, .unlockReturn atPc, rfl, rfl⟩
  | touchReturn =>
      rw [atPc] at leaving
      cases leaving
      exact ⟨_, .touchReturn atPc, rfl, rfl⟩
  | sharedWake =>
      rw [atPc] at leaving
      cases leaving
      exact ⟨_, .exec (.sharedGrant atPc rfl) (.lockReturn (goto_pc ..)), rfl, rfl⟩
  | unlockWake =>
      rw [atPc] at leaving
      cases leaving
      exact ⟨_, .exec (.unlockWake atPc rfl) (.unlockReturn (goto_pc ..)), rfl, rfl⟩
  | touchWake =>
      rw [atPc] at leaving
      cases leaving
      exact ⟨_, .exec (.touchWake atPc rfl) (.touchReturn (goto_pc ..)), rfl, rfl⟩
  | _ =>
      rw [atPc] at leaving
      cases leaving

/-- The statement behind the test of `sl_touch`. -/
theorem Exec.of_touchTest (exec : lock.Exec (returningOps mayReturn) caller next)
    (atPc : lock.pc caller = .touchTest type) :
    (type.mustWait lock.slNumber ∧
      next = lock.sleep caller (.touch type) (lock.slQueue ++ [caller])) ∨
    (¬type.mustWait lock.slNumber ∧ next = lock.goto caller .touchWake) := by
  cases exec with
  | touchWait isAt mustWait entered =>
      rw [atPc] at isAt
      cases isAt
      simp only [returningOps, sequenceOps, Bool.false_eq_true, if_false,
        Option.some.injEq] at entered
      exact Or.inl ⟨mustWait, by rw [entered]⟩
  | touchPass isAt free =>
      rw [atPc] at isAt
      cases isAt
      exact Or.inr ⟨free, rfl⟩
  | _ => simp_all

/-- The statement behind the test of `sl_lock_internal`. -/
theorem Exec.of_internalTest (exec : lock.Exec (returningOps mayReturn) caller next)
    (atPc : lock.pc caller = .internalTest type) :
    (type.mustWait lock.slNumber ∧
      next = lock.sleep caller (.internal type) (lock.slQueue ++ [caller])) ∨
    (¬type.mustWait lock.slNumber ∧ (next.pc caller).leaving = some 0 ∧
      next.slNumber = type.granted lock.slNumber ∧ next.slFlags = lock.slFlags) := by
  cases exec with
  | internalWait isAt mustWait entered =>
      rw [atPc] at isAt
      cases isAt
      simp only [returningOps, sequenceOps, Bool.false_eq_true, if_false,
        Option.some.injEq] at entered
      exact Or.inl ⟨mustWait, by rw [entered]⟩
  | sharedCount isAt free | exclusiveGrant isAt free =>
      rw [atPc] at isAt
      cases isAt
      exact Or.inr ⟨free, by simp [SlPc.leaving], rfl, rfl⟩
  | _ => simp_all

/-- The lock that one caller has been granted, and the one that the other has touched. -/
structure IsGrant (type : SlType) (touched granted : SharedLock (List Tid) Tid) : Prop where
  free : ¬type.mustWait touched.slNumber
  number : granted.slNumber = type.granted touched.slNumber
  flags : granted.slFlags = touched.slFlags

/-- A lock that is free is granted, and can be touched. -/
theorem exists_isGrant (mayReturn : List Tid → Tid → Prop) (caller : Tid)
    (lock : SharedLock (List Tid) Tid) (free : ¬type.mustWait lock.slNumber) :
    ∃ touched granted,
      Returns (returningOps mayReturn) caller (lock.goto caller (.touchTest type)) [] 0 touched ∧
      Returns (returningOps mayReturn) caller (lock.goto caller (.internalTest type)) [] 0 granted ∧
      touched.slNumber = lock.slNumber ∧ touched.slFlags = lock.slFlags ∧
      IsGrant type touched granted := by
  have pass : (lock.goto caller (.touchTest type)).Exec (returningOps mayReturn) caller
      ((lock.goto caller (.touchTest type)).goto caller .touchWake) :=
    .touchPass (goto_pc ..) free
  obtain ⟨touched, touchReturns, touchNumber, touchFlags⟩ := exists_returns_of_leaving mayReturn
    (show (((lock.goto caller (.touchTest type)).goto caller .touchWake).pc caller).leaving =
      some 0 by simp [SlPc.leaving])
  obtain ⟨next, grants, leaving, nextNumber, nextFlags⟩ : ∃ next,
      (lock.goto caller (.internalTest type)).Exec (returningOps mayReturn) caller next ∧
      (next.pc caller).leaving = some 0 ∧ next.slNumber = type.granted lock.slNumber ∧
      next.slFlags = lock.slFlags := by
    cases type with
    | shared =>
        exact ⟨_, .sharedCount (goto_pc ..) free, by simp [SlPc.leaving], rfl, rfl⟩
    | exclusive =>
        exact ⟨_, .exclusiveGrant (goto_pc ..) free, by simp [SlPc.leaving], rfl, rfl⟩
  obtain ⟨granted, grantReturns, grantNumber, grantFlags⟩ :=
    exists_returns_of_leaving mayReturn leaving
  have sameNumber : touched.slNumber = lock.slNumber := touchNumber
  have sameFlags : touched.slFlags = lock.slFlags := touchFlags
  refine ⟨touched, granted, .exec pass touchReturns, .exec grants grantReturns, sameNumber,
    sameFlags, ?_, ?_, ?_⟩
  · rw [sameNumber]
    exact free
  · rw [grantNumber, nextNumber, sameNumber]
  · rw [grantFlags, nextFlags, sameFlags]

omit [DecidableEq Tid] in
theorem staysClear_cons {others : OtherSteps Tid} :
    StaysClear (others :: sleeps) ↔ others.slFlags &&& slFlagDrain = 0 ∧ StaysClear sleeps := by
  simp [StaysClear]

theorem goto_goto (lock : SharedLock Queue Tid) (caller : Tid) (first second : SlPc) :
    (lock.goto caller first).goto caller second = lock.goto caller second := by
  simp only [goto, Function.update_idem]

theorem sleep_goto_self (lock : SharedLock (List Tid) Tid) (caller : Tid) (site other : WaitSite)
    (queue : List Tid) (pc : SlPc) :
    (lock.sleep caller site queue).goto caller (.asleep other) =
      (lock.goto caller pc).sleep caller other queue := by
  simp only [goto, SharedLock.sleep, Function.update_idem]

theorem acquire_goto_self (lock : SharedLock Queue Tid) (caller : Tid)
    (first second : SlPc) :
    (lock.acquire caller first).goto caller second = lock.acquire caller second := by
  simp only [goto, SharedLock.acquire, Function.update_idem]

theorem goto_acquire_self (lock : SharedLock Queue Tid) (caller : Tid)
    (first second : SlPc) :
    (lock.goto caller first).acquire caller second = lock.acquire caller second := by
  simp only [goto, SharedLock.acquire, Function.update_idem]

theorem Exec.of_internalRetest (exec : lock.Exec (returningOps mayReturn) caller next)
    (atPc : lock.pc caller = .internalRetest type) :
    (lock.Draining ∧ (next.pc caller).leaving = some enolck) ∨
    (¬lock.Draining ∧ next = lock.goto caller (.internalTest type)) := by
  cases exec with
  | retestDraining isAt draining woken =>
      exact Or.inl ⟨draining, by simp [SlPc.leaving]⟩
  | retest isAt notDraining =>
      rw [atPc] at isAt
      cases isAt
      exact Or.inr ⟨notDraining, rfl⟩
  | _ => simp_all

/-- `sl_touch` returns 0. If the flag stays clear, `sl_lock_greedy` goes the same way. -/
theorem Returns.touch_to_lock
    (returned : Returns (returningOps mayReturn) caller lock sleeps code final) :
    (∀ type, lock.pc caller = .touchTest type → code = 0 ∧ (StaysClear sleeps →
      ∃ granted, Returns (returningOps mayReturn) caller (lock.goto caller (.internalTest type))
        sleeps 0 granted ∧ IsGrant type final granted)) ∧
    ∀ type, lock.pc caller = .asleep (.touch type) → code = 0 ∧ (StaysClear sleeps →
      ∃ granted, Returns (returningOps mayReturn) caller
        (lock.goto caller (.asleep (.internal type))) sleeps 0 granted ∧
          IsGrant type final granted) := by
  induction returned with
  | lockReturn atPc | unlockReturn atPc | touchReturn atPc => simp [atPc]
  | @exec lock next final sleeps code exec rest ih =>
      have awake : ∀ site, lock.pc caller ≠ .asleep site := by
        intro site isAsleep
        have holds := exec.holds
        simp [isAsleep, SlPc.holds] at holds
      refine ⟨?_, fun type isAsleep => absurd isAsleep (awake _)⟩
      intro type atPc
      rcases exec.of_touchTest atPc with ⟨mustWait, rfl⟩ | ⟨free, rfl⟩
      · obtain ⟨isZero, granted⟩ := ih.2 type (by simp [SharedLock.sleep])
        refine ⟨isZero, fun clear => ?_⟩
        obtain ⟨granted, returned, isGrant⟩ := granted clear
        rw [sleep_goto_self lock caller _ _ _ (.internalTest type)] at returned
        exact ⟨granted, .exec (.internalWait (goto_pc ..) mustWait rfl) returned, isGrant⟩
      · obtain ⟨noSleeps, isZero, sameNumber, sameFlags⟩ :=
          rest.of_leaving (show _ = some 0 by simp [SlPc.leaving])
        refine ⟨isZero, fun _ => ?_⟩
        obtain ⟨touched, granted, -, returned, number, flags, isGrant⟩ :=
          exists_isGrant mayReturn caller lock free
        have finalNumber : final.slNumber = touched.slNumber := sameNumber.trans number.symm
        have finalFlags : final.slFlags = touched.slFlags := sameFlags.trans flags.symm
        rw [noSleeps]
        refine ⟨granted, returned, ?_, ?_, ?_⟩
        · rw [finalNumber]
          exact isGrant.free
        · rw [finalNumber]
          exact isGrant.number
        · rw [finalFlags]
          exact isGrant.flags
  | @wake lock woken final site others sleeps code atPc steps flags returns free rest ih =>
      refine ⟨fun type atTest => by simp [atPc] at atTest, ?_⟩
      intro type isAsleep
      rw [atPc] at isAsleep
      cases isAsleep
      obtain ⟨isZero, granted⟩ := ih.1 type (by simp [WaitSite.resume])
      refine ⟨isZero, fun clear => ?_⟩
      obtain ⟨clearNow, clearLater⟩ := staysClear_cons.mp clear
      obtain ⟨granted, returned, isGrant⟩ := granted clearLater
      have notDraining : ¬woken.Draining := by
        rw [Draining, flags, not_not]
        exact clearNow
      have retested : Returns (returningOps mayReturn) caller
          ((woken.goto caller (.asleep (.internal type))).acquire caller (.internalRetest type))
          sleeps 0 granted := by
        refine .exec (.retest (acquire_pc ..) notDraining) ?_
        rw [goto_acquire_self, acquire_goto_self]
        rw [acquire_goto_self] at returned
        exact returned
      exact ⟨granted, .wake (goto_pc ..) (steps.frame _) flags returns free retested, isGrant⟩

/-- How `sl_lock_greedy` ends: it finds the flag set, or `sl_touch` goes the same way. -/
def LockOutcome (mayReturn : List Tid → Tid → Prop) (caller : Tid) (type : SlType)
    (lock : SharedLock (List Tid) Tid) (sleeps : List (OtherSteps Tid)) (code : ℕ)
    (granted : SharedLock (List Tid) Tid) : Prop :=
  (code = enolck ∧ ¬StaysClear sleeps) ∨
    (code = 0 ∧ StaysClear sleeps ∧ ∃ touched,
      Returns (returningOps mayReturn) caller lock sleeps 0 touched ∧ IsGrant type touched granted)

theorem Returns.lock_to_touch
    (returned : Returns (returningOps mayReturn) caller lock sleeps code final) :
    (∀ type, lock.pc caller = .internalTest type →
      LockOutcome mayReturn caller type (lock.goto caller (.touchTest type)) sleeps code final) ∧
    (∀ type, lock.pc caller = .internalRetest type → (lock.Draining → code = enolck) ∧
      (¬lock.Draining → LockOutcome mayReturn caller type (lock.goto caller (.touchTest type))
        sleeps code final)) ∧
    ∀ type, lock.pc caller = .asleep (.internal type) →
      LockOutcome mayReturn caller type (lock.goto caller (.asleep (.touch type))) sleeps code
        final := by
  induction returned with
  | lockReturn atPc | unlockReturn atPc | touchReturn atPc => simp [atPc]
  | @exec lock next final sleeps code exec rest ih =>
      refine ⟨?_, ?_, ?_⟩
      · intro type atPc
        rcases exec.of_internalTest atPc with ⟨mustWait, rfl⟩ | ⟨free, leaving, number, flags⟩
        · rcases ih.2.2 type (by simp [SharedLock.sleep]) with
            ended | ⟨isZero, clear, touched, returned, isGrant⟩
          · exact Or.inl ended
          · rw [sleep_goto_self lock caller _ _ _ (.touchTest type)] at returned
            exact Or.inr ⟨isZero, clear, touched,
              .exec (.touchWait (goto_pc ..) mustWait rfl) returned, isGrant⟩
        · obtain ⟨noSleeps, isZero, sameNumber, sameFlags⟩ := rest.of_leaving leaving
          obtain ⟨touched, granted, returned, -, touchNumber, touchFlags, isGrant⟩ :=
            exists_isGrant mayReturn caller lock free
          rw [noSleeps]
          refine Or.inr ⟨isZero, by simp [StaysClear], touched, returned, isGrant.free, ?_, ?_⟩
          · rw [sameNumber, number, touchNumber]
          · rw [sameFlags, flags, touchFlags]
      · intro type atPc
        rcases exec.of_internalRetest atPc with ⟨draining, leaving⟩ | ⟨notDraining, rfl⟩
        · exact ⟨fun _ => (rest.of_leaving leaving).2.1, fun clear => absurd draining clear⟩
        · refine ⟨fun draining => absurd draining notDraining, fun _ => ?_⟩
          have outcome := ih.1 type (goto_pc ..)
          rw [goto_goto] at outcome
          exact outcome
      · intro type isAsleep
        have holds := exec.holds
        rw [isAsleep] at holds
        cases holds
  | @wake lock woken final site others sleeps code atPc steps flags returns free rest ih =>
      refine ⟨fun type atTest => by simp [atPc] at atTest,
        fun type atTest => by simp [atPc] at atTest, ?_⟩
      intro type isAsleep
      rw [atPc] at isAsleep
      cases isAsleep
      obtain ⟨whenDraining, otherwise⟩ := ih.2.1 type (by simp [WaitSite.resume])
      by_cases draining : woken.Draining
      · refine Or.inl ⟨whenDraining draining, ?_⟩
        intro clear
        rw [Draining, flags] at draining
        exact draining (staysClear_cons.mp clear).1
      · have clearNow : others.slFlags &&& slFlagDrain = 0 := by
          rw [← flags]
          exact not_not.mp draining
        rcases otherwise draining with
          ⟨isEnolck, notClear⟩ | ⟨isZero, clear, touched, returned, isGrant⟩
        · exact Or.inl ⟨isEnolck, fun clear => notClear (staysClear_cons.mp clear).2⟩
        · rw [acquire_goto_self, ← goto_acquire_self woken caller (.asleep (.touch type))]
            at returned
          exact Or.inr ⟨isZero, staysClear_cons.mpr ⟨clearNow, clear⟩, touched,
            .wake (goto_pc ..) (steps.frame _) flags returns free returned, isGrant⟩

/-- How a call of `sl_lock_greedy` ends. -/
theorem Calls.lockOutcome
    (called : lock.Calls (returningOps mayReturn) caller (.lockGreedy type) sleeps code final) :
    (lock.Draining → code = enolck) ∧
      (¬lock.Draining → LockOutcome mayReturn caller type (lock.acquire caller (.touchTest type))
        sleeps code final) := by
  cases called with
  | lockReturn atPc | unlockReturn atPc | touchReturn atPc | wake atPc =>
      simp [SlCall.entry] at atPc
  | exec exec rest =>
      cases exec with
      | internalDraining isAt draining =>
          have leaving := rest.of_leaving (show _ = some enolck by simp [SlPc.leaving])
          exact ⟨fun _ => leaving.2.1, fun notDraining => absurd draining notDraining⟩
      | internalEnter isAt notDraining =>
          simp only [acquire_pc, SlCall.entry, SlPc.internalEntry.injEq] at isAt
          subst isAt
          refine ⟨fun draining => absurd draining notDraining, fun _ => ?_⟩
          have outcome := rest.lock_to_touch.1 _ (goto_pc ..)
          rw [goto_goto, acquire_goto_self] at outcome
          exact outcome
      | _ => simp_all [SlCall.entry]

theorem Calls.lock_of_touch
    (called : lock.Calls (returningOps mayReturn) caller (.touch type) sleeps code final)
    (notDraining : ¬lock.Draining) (clear : StaysClear sleeps) :
    ∃ granted, lock.Calls (returningOps mayReturn) caller (.lockGreedy type) sleeps 0 granted ∧
      IsGrant type final granted := by
  obtain ⟨-, granted⟩ := Returns.touch_to_lock called |>.1 type (acquire_pc ..)
  obtain ⟨granted, returned, isGrant⟩ := granted clear
  rw [acquire_goto_self] at returned
  refine ⟨granted, .exec (.internalEnter (acquire_pc ..) notDraining) ?_, isGrant⟩
  rw [acquire_goto_self]
  exact returned

theorem Calls.touch_code
    (called : lock.Calls (returningOps mayReturn) caller (.touch type) sleeps code final) :
    code = 0 :=
  (Returns.touch_to_lock called |>.1 type (acquire_pc ..)).1

/-- `sl_unlock` never sleeps. -/
theorem exists_calls_unlock (mayReturn : List Tid → Tid → Prop) (caller : Tid) (type : SlType)
    (lock : SharedLock (List Tid) Tid) :
    ∃ final, lock.Calls (returningOps mayReturn) caller (.unlock type) [] 0 final := by
  obtain ⟨next, exec, leaving⟩ : ∃ next, (lock.acquire caller (.unlockEntry type)).Exec
      (returningOps mayReturn) caller next ∧ (next.pc caller).leaving = some 0 := by
    cases type with
    | shared => exact ⟨_, .unlockShared (acquire_pc ..), by simp [SlPc.leaving]⟩
    | exclusive => exact ⟨_, .unlockExclusive (acquire_pc ..), by simp [SlPc.leaving]⟩
  obtain ⟨final, returned, -⟩ := exists_returns_of_leaving mayReturn leaving
  exact ⟨final, .exec exec returned⟩

theorem Calls.unlock_spec
    (called : lock.Calls (returningOps mayReturn) caller (.unlock type) sleeps code final) :
    final.slNumber = type.unlocked lock.slNumber ∧ final.slFlags = lock.slFlags := by
  cases called with
  | lockReturn atPc | unlockReturn atPc | touchReturn atPc | wake atPc =>
      simp [SlCall.entry] at atPc
  | exec exec rest =>
      cases exec with
      | unlockShared isAt | unlockExclusive isAt =>
          simp only [acquire_pc, SlCall.entry, SlPc.unlockEntry.injEq] at isAt
          subst isAt
          have leaving := rest.of_leaving (show _ = some 0 by simp [SlPc.leaving])
          exact ⟨leaving.2.2.1, leaving.2.2.2⟩
      | _ => simp_all [SlCall.entry]

end Caller

section Reachable

variable {ops : WaitQueueOps Queue Tid} {empty : Queue} {lock next final : SharedLock Queue Tid}
  {caller : Tid}

theorem Step.pc_of_ne {event : SlEvent Tid} (step : Step ops lock event next)
    (isOther : event.thread ≠ caller) : next.pc caller = lock.pc caller := by
  cases step with
  | call | acquire | resume => exact Function.update_of_ne (Ne.symm isOther) ..
  | exec exec => exact exec.pc_of_ne (Ne.symm isOther)

theorem OthersStep.pc_caller {events : List (SlEvent Tid)}
    (steps : OthersStep ops caller lock events next) : next.pc caller = lock.pc caller := by
  induction steps with
  | nil => rfl
  | cons isOther step _ ih => exact ih.trans (step.pc_of_ne isOther)

theorem OthersStep.leads {events : List (SlEvent Tid)}
    (steps : OthersStep ops caller lock events next) : (system ops empty).Leads lock next := by
  induction steps with
  | nil => exact .refl
  | cons _ step _ ih => exact .head ⟨_, step⟩ ih

/-- What a caller and the others do is a run of the system. -/
theorem Returns.leads {sleeps : List (OtherSteps Tid)} {code : ℕ}
    (returned : Returns ops caller lock sleeps code final) :
    (system ops empty).Leads lock final := by
  induction returned with
  | lockReturn atPc => exact .single ⟨_, .exec (.lockReturn atPc)⟩
  | unlockReturn atPc => exact .single ⟨_, .exec (.unlockReturn atPc)⟩
  | touchReturn atPc => exact .single ⟨_, .exec (.touchReturn atPc)⟩
  | exec exec _ ih => exact .head ⟨_, .exec exec⟩ ih
  | wake atPc steps flags mayReturn free rest ih =>
      have resumes := Step.resume (steps.pc_caller.trans atPc) mayReturn free
      exact steps.leads.trans (.head ⟨_, resumes⟩ ih)

theorem Calls.leads {call : SlCall} {sleeps : List (OtherSteps Tid)} {code : ℕ}
    (called : lock.Calls ops caller call sleeps code final) (atPc : lock.pc caller = .outside)
    (matching : ∀ type, call = .unlock type → 0 < lock.held caller type)
    (free : lock.slLock = none) : (system ops empty).Leads lock final := by
  have acquires : Step ops (lock.goto caller (.entering call)) (.acquire caller)
      ((lock.goto caller (.entering call)).acquire caller call.entry) :=
    .acquire (goto_pc ..) free
  rw [goto_acquire_self] at acquires
  exact .head ⟨_, .call atPc matching⟩ (.head ⟨_, acquires⟩ (Returns.leads called))

/-- The counter is a 32-bit value. -/
theorem number_range_of_reachable (reachable : (system ops empty).Reachable lock) :
    -2 ^ 31 ≤ lock.slNumber ∧ lock.slNumber < 2 ^ 31 := by
  apply reachable.invariant
  · rintro lock rfl
    simp [initial]
  · intro lock event next range step
    cases step with
    | call | acquire | resume => exact range
    | exec exec => exact ⟨exec.lower range.1, exec.upper range.2⟩

end Reachable

section Agreement

variable {mayReturn : List Tid → Tid → Prop} {lock : SharedLock (List Tid) Tid} {caller : Tid}
  {sleeps : List (OtherSteps Tid)}

theorem SlType.unlocked_granted {type : SlType} {number : ℤ} (free : ¬type.mustWait number)
    (lower : -2 ^ 31 ≤ number) (upper : number < 2 ^ 31) :
    type.unlocked (type.granted number) = number := by
  cases type with
  | shared =>
      rw [SlType.granted, SlType.unlocked, int32_sub_one, Int.add_sub_cancel,
        int32_eq_self lower upper]
  | exclusive => exact (not_not.mp free).symm

/-- A caller that is granted the lock finds the flag clear at each of its tests. -/
theorem LocksAndUnlocks.staysClear {type : SlType} {final : SharedLock (List Tid) Tid}
    (locks : lock.LocksAndUnlocks (returningOps mayReturn) caller type sleeps 0 final) :
    ¬lock.Draining ∧ StaysClear sleeps := by
  have notEnolck : 0 ≠ enolck := by decide
  obtain ⟨locked, called, -⟩ := locks
  obtain ⟨whenDraining, otherwise⟩ := called.lockOutcome
  have notDraining : ¬lock.Draining := fun draining => notEnolck (whenDraining draining)
  refine ⟨notDraining, ?_⟩
  rcases otherwise notDraining with ⟨isEnolck, -⟩ | ⟨-, clear, -⟩
  · exact absurd isEnolck notEnolck
  · exact clear

/-- `sl_unlock` takes back what the grant did to the counter. -/
theorem IsGrant.unlock {type : SlType} {touched granted unlocked : SharedLock (List Tid) Tid}
    (isGrant : IsGrant type touched granted) (lower : -2 ^ 31 ≤ touched.slNumber)
    (upper : touched.slNumber < 2 ^ 31)
    (unlocks : granted.Calls (returningOps mayReturn) caller (.unlock type) [] 0 unlocked) :
    unlocked.slNumber = touched.slNumber ∧ unlocked.slFlags = touched.slFlags := by
  obtain ⟨number, flags⟩ := unlocks.unlock_spec
  refine ⟨?_, flags.trans isGrant.flags⟩
  rw [number, isGrant.number, SlType.unlocked_granted isGrant.free lower upper]

/-- `sl_touch` agrees with `sl_lock_greedy` and `sl_unlock` if and only if the drain flag is clear
when it is called and when it goes on after each of its sleeps. -/
theorem touchAgrees_iff (reachable : (system (returningOps mayReturn) []).Reachable lock)
    (atPc : lock.pc caller = .outside) (free : lock.slLock = none) (type : SlType)
    (returns : ∃ code final,
      lock.Calls (returningOps mayReturn) caller (.touch type) sleeps code final ∨
        lock.LocksAndUnlocks (returningOps mayReturn) caller type sleeps code final) :
    lock.TouchAgrees (returningOps mayReturn) caller type sleeps ↔
      ¬lock.Draining ∧ StaysClear sleeps := by
  have range {touched : SharedLock (List Tid) Tid}
      (called : lock.Calls (returningOps mayReturn) caller (.touch type) sleeps 0 touched) :
      -2 ^ 31 ≤ touched.slNumber ∧ touched.slNumber < 2 ^ 31 :=
    number_range_of_reachable (reachable.leads (called.leads atPc (by simp) free))
  constructor
  · intro agrees
    obtain ⟨code, final, touches | locks⟩ := returns
    · obtain rfl := touches.touch_code
      obtain ⟨other, locks, -⟩ := (agrees 0 _ _).mp ⟨final, touches, rfl, rfl⟩
      exact locks.staysClear
    · obtain ⟨other, touches, -⟩ := (agrees code _ _).mpr ⟨final, locks, rfl, rfl⟩
      obtain rfl := touches.touch_code
      exact locks.staysClear
  · rintro ⟨notDraining, clear⟩ code number flags
    constructor
    · rintro ⟨touched, called, rfl, rfl⟩
      obtain rfl := called.touch_code
      obtain ⟨granted, grants, isGrant⟩ := called.lock_of_touch notDraining clear
      obtain ⟨unlocked, unlocks⟩ := exists_calls_unlock mayReturn caller type granted
      obtain ⟨sameNumber, sameFlags⟩ := isGrant.unlock (range called).1 (range called).2 unlocks
      exact ⟨unlocked, ⟨granted, grants, unlocks⟩, sameNumber, sameFlags⟩
    · rintro ⟨unlocked, ⟨granted, grants, unlocks⟩, rfl, rfl⟩
      rcases grants.lockOutcome.2 notDraining with
        ⟨-, notClear⟩ | ⟨rfl, -, touched, called, isGrant⟩
      · exact absurd clear notClear
      · obtain ⟨sameNumber, sameFlags⟩ :=
          isGrant.unlock (range called).1 (range called).2 unlocks
        exact ⟨touched, called, sameNumber.symm, sameFlags.symm⟩

/-- On a lock that is free and drained the callers return at once, with different results. -/
theorem not_touchAgrees_of_draining {type : SlType} (draining : lock.Draining)
    (free : ¬type.mustWait lock.slNumber) :
    ¬lock.TouchAgrees (returningOps mayReturn) caller type [] := by
  intro agrees
  obtain ⟨touched, granted, touches, -⟩ :=
    exists_isGrant mayReturn caller (lock.acquire caller (.touchTest type)) free
  rw [acquire_goto_self] at touches
  obtain ⟨final, ⟨locked, locks, -⟩, -⟩ := (agrees 0 _ _).mp ⟨touched, touches, rfl, rfl⟩
  exact absurd (locks.lockOutcome.1 draining) (by decide)

end Agreement

section Unlocked

variable {lock : SharedLock (List Tid) Tid} {caller other : Tid}

/-- The steps of a thread that calls `sl_unlock(SL_TYPE_EXCLUSIVE)` and returns. -/
def unlockSteps (other : Tid) : List (SlEvent Tid) :=
  [.call other (.unlock .exclusive), .acquire other, .exec other, .exec other, .exec other]

theorem exists_othersStep_unlock (isOther : other ≠ caller) (atPc : lock.pc other = .outside)
    (free : lock.slLock = none) (holdsOne : 0 < lock.held other .exclusive) :
    ∃ next, OthersStep (sequenceOps Tid) caller lock (unlockSteps other) next ∧
      next.slQueue = lock.slQueue.dropLast ∧ next.slNumber = 0 ∧
      next.slFlags = lock.slFlags ∧ next.slLock = none := by
  have matching : ∀ type, SlCall.unlock .exclusive = .unlock type → 0 < lock.held other type := by
    rintro type ⟨⟩
    exact holdsOne
  exact ⟨_, .cons isOther (.call atPc matching) (.cons isOther (.acquire (goto_pc ..) free)
    (.cons isOther (.exec (.unlockExclusive (acquire_pc ..)))
      (.cons isOther (.exec (.unlockWake (goto_pc ..) rfl))
        (.cons isOther (.exec (.unlockReturn (goto_pc ..))) .nil)))), rfl, rfl, rfl, rfl⟩

/-- `sl_touch` sleeps while another thread holds the lock, and returns when it has unlocked. -/
theorem exists_calls_touch_of_unlock (isOther : other ≠ caller)
    (atPc : lock.pc other = .outside) (holdsOne : 0 < lock.held other .exclusive)
    (empty : lock.slQueue = []) {type : SlType} (mustWait : type.mustWait lock.slNumber) :
    ∃ final, lock.Calls (sequenceOps Tid) caller (.touch type)
      [⟨unlockSteps other, lock.slFlags⟩] 0 final := by
  have waits : (lock.acquire caller (.touchTest type)).Exec (sequenceOps Tid) caller
      ((lock.acquire caller (.touchTest type)).sleep caller (.touch type) [caller]) :=
    .touchWait (acquire_pc ..) mustWait (by simp [sequenceOps, SharedLock.acquire, empty])
  have stillOutside : ((lock.acquire caller (.touchTest type)).sleep caller (.touch type)
      [caller]).pc other = .outside := by
    simpa [SharedLock.sleep, SharedLock.acquire, isOther] using atPc
  obtain ⟨woken, steps, sameQueue, zero, sameFlags, free⟩ :=
    exists_othersStep_unlock isOther stillOutside rfl holdsOne
  have unlinked : caller ∉ woken.slQueue := by simp [sameQueue, SharedLock.sleep]
  have isFree : ¬type.mustWait (woken.acquire caller (.touchTest type)).slNumber := by
    cases type <;> simp [SlType.mustWait, SharedLock.acquire, zero]
  exact ⟨_, .exec waits (.wake (Function.update_self ..) steps sameFlags unlinked free
    (.exec (.touchPass (acquire_pc ..) isFree)
      (.exec (.touchWake (goto_pc ..) rfl) (.touchReturn (goto_pc ..)))))⟩

end Unlocked

/-- Thread `false` holds the lock when `true` touches it, and unlocks it while `true` sleeps. -/
theorem touchAgrees_of_unlock : ∃ lock : SharedLock (List Bool) Bool,
    (system (sequenceOps Bool) []).Reachable lock ∧ lock.held false .exclusive = 1 ∧
      lock.TouchAgrees (sequenceOps Bool) true .shared [⟨unlockSteps false, 0⟩] := by
  have start : (system (sequenceOps Bool) []).Reachable (initial []) := .init rfl
  have held := admitsOrdinary_system.lockGreedy false start rfl rfl (not_draining_of_clear rfl)
    rfl
  refine ⟨_, held, rfl, ?_⟩
  have isOutside : ({ initial [] with slNumber := -1 }.setHeld false .exclusive 1 :
      SharedLock (List Bool) Bool).pc false = .outside := rfl
  have mustWait : SlType.shared.mustWait ({ initial [] with slNumber := -1 }.setHeld false
      .exclusive 1 : SharedLock (List Bool) Bool).slNumber := by
    simp [SlType.mustWait, setHeld]
  obtain ⟨final, touches⟩ := exists_calls_touch_of_unlock (show false ≠ true by decide) isOutside
    (by decide) rfl mustWait
  exact (touchAgrees_iff held rfl rfl .shared ⟨0, _, Or.inl touches⟩).mpr
    ⟨not_draining_of_clear rfl, by simp [StaysClear, initial, setHeld]⟩

/-- After thread `false` has drained the lock, `sl_touch` of thread `true` returns 0, while
`sl_lock_greedy` returns `ENOLCK`. -/
theorem exists_not_touchAgrees : ∃ lock : SharedLock (List Bool) Bool,
    (system (sequenceOps Bool) []).Reachable lock ∧ lock.pc true = .outside ∧
      lock.slLock = none ∧ ¬lock.TouchAgrees (sequenceOps Bool) true .shared [] := by
  have start : (system (sequenceOps Bool) []).Reachable (initial []) := .init rfl
  have called := start.step (@Step.call _ _ _ _ _ false .drain rfl (by simp))
  have acquired := called.step (Step.acquire (goto_pc ..) rfl)
  have flagged := acquired.step (Step.exec (Exec.drainFlag (acquire_pc ..)))
  have woken := flagged.step (Step.exec (Exec.drainWake (goto_pc ..) rfl))
  have counted := woken.step (Step.exec (Exec.drainNumberDone (goto_pc ..) rfl))
  have emptied := counted.step (Step.exec (Exec.drainQueueDone (goto_pc ..) rfl))
  have drained := emptied.step (Step.exec (Exec.drainReturn (goto_pc ..)))
  refine ⟨_, drained, rfl, rfl, not_touchAgrees_of_draining (flag_ne_zero _) ?_⟩
  simp [SlType.mustWait, initial, SharedLock.acquire, goto, release]

end SharedLock

end Rkernel
