import Rkernel.Kern.LockDrainWakeup

/-!
# Quiescence of a drained lock

`sl_drain` returns when the counter is zero and the queue is empty. A thread that a
wake-up has taken out of the queue is no longer linked, but it still has to come back
from `waitqueue_wait` and to take the spinlock of the lock; `sl_drain` does not wait
for it.

The last spinlock section of `sl_drain` decides: it begins when the drainer takes the
spinlock and will not wait again. If at that moment no thread is in the window between
its wake-up and its return, then nobody sleeps in the lock when `sl_drain` returns.
Otherwise the drainer returns before that thread.
-/

namespace Rkernel

namespace SharedLock

variable {Tid : Type}

/-- When `sl_drain` returns nobody else has slept and is still in his operation: a thread
inside the spinlock section there is none, and the others have not slept. -/
def Quiescent (lock : SharedLock (List Tid) Tid) : Prop :=
  ∀ drainer, lock.pc drainer = .drainReturn → ∀ other, other ≠ drainer →
    lock.pc other = .outside ∨ ∃ call, lock.pc other = .entering call

/-- The thread runs `sl_drain` and will not wait again if it takes the spinlock now. -/
def LastSection (lock : SharedLock (List Tid) Tid) (thread : Tid) : Prop :=
  match lock.pc thread with
  | .entering .drain => lock.slNumber = 0 ∧ lock.slQueue.length ≤ 1
  | .asleep .drainNumber => lock.slNumber = 0 ∧ lock.slQueue = []
  | .asleep .drainQueue => lock.slQueue = []
  | _ => False

/-- `sl_drain` does not begin its last section while another thread has been woken and has not
run since. -/
def QuietDrain (lock : SharedLock (List Tid) Tid) (event : SlEvent Tid)
    (_next : SharedLock (List Tid) Tid) : Prop :=
  ∀ thread, event = .acquire thread ∨ event = .resume thread → lock.LastSection thread →
    ∀ other site, other ≠ thread → lock.pc other = .asleep site → other ∈ lock.slQueue

/-- No thread but this one sleeps. -/
def Alone (lock : SharedLock (List Tid) Tid) (thread : Tid) : Prop :=
  ∀ other site, other ≠ thread → lock.pc other ≠ .asleep site

/-- What the drainer has to know inside its spinlock section to be alone at its end. -/
def Settled (lock : SharedLock (List Tid) Tid) (thread : Tid) : Prop :=
  match lock.pc thread with
  | .drainEntry | .drainWake => lock.slNumber = 0 → lock.slQueue.length ≤ 1 → lock.Alone thread
  | .drainNumberTest => lock.slNumber = 0 → lock.slQueue = [] → lock.Alone thread
  | .drainQueueTest => lock.slQueue = [] → lock.Alone thread
  | .drainReturn => lock.Alone thread
  | _ => True

/-- The inductive invariant of the runs with at most one `sl_drain`. -/
structure QuietInvariant (lock : SharedLock (List Tid) Tid) : Prop where
  flags : lock.FlagInvariant
  queued : lock.Queued
  upper : lock.slNumber < 2 ^ 31
  one : ∀ thread other, (lock.pc thread).inDrain = true → (lock.pc other).inDrain = true →
    thread = other
  entering : ∀ thread, lock.pc thread = .entering .drain → ¬lock.Draining
  owed : ¬lock.Draining → (∀ thread, lock.pc thread ≠ .drainEntry) → lock.Owed
  settled : ∀ thread, lock.Settled thread

section Preservation

variable [DecidableEq Tid] {lock next : SharedLock (List Tid) Tid} {thread : Tid}

theorem Alone.move (alone : lock.Alone thread) {target : SlPc}
    (moved : next.pc = Function.update lock.pc thread target) : next.Alone thread := by
  intro other site different
  rw [moved, Function.update_of_ne different]
  exact alone other site different

theorem Alone.call (alone : lock.Alone thread) (mover : Tid) (call : SlCall) :
    (lock.goto mover (.entering call)).Alone thread := by
  intro other site different
  simp only [goto]
  by_cases same : other = mover
  · simp [same]
  · rw [Function.update_of_ne same]
    exact alone other site different

theorem Settled.call (settled : lock.Settled thread) {mover : Tid} (different : thread ≠ mover)
    (call : SlCall) : (lock.goto mover (.entering call)).Settled thread := by
  have samePc : (lock.goto mover (.entering call)).pc thread = lock.pc thread :=
    Function.update_of_ne different ..
  simp only [Settled, samePc] at settled ⊢
  cases atPc : lock.pc thread with
  | drainEntry | drainWake | drainNumberTest =>
      simp only [atPc] at settled ⊢
      exact fun zero queue => (settled zero queue).call mover call
  | drainQueueTest =>
      simp only [atPc] at settled ⊢
      exact fun queue => (settled queue).call mover call
  | drainReturn =>
      simp only [atPc] at settled ⊢
      exact settled.call mover call
  | _ => trivial

omit [DecidableEq Tid] in
theorem settled_of_not_holds (free : (lock.pc thread).holds = false) : lock.Settled thread := by
  unfold Settled
  cases atPc : lock.pc thread with
  | drainEntry | drainWake | drainNumberTest | drainQueueTest | drainReturn =>
      simp [atPc, SlPc.holds] at free
  | _ => trivial

/-- The statements of the drainer carry the knowledge to the end of the section. -/
theorem Settled.exec (settled : lock.Settled thread)
    (exec : lock.Exec (sequenceOps Tid) thread next) : next.Settled thread := by
  simp only [Settled] at settled
  cases exec with
  | drainFlag atPc =>
      simp only [atPc] at settled
      simp only [Settled, goto, Function.update_self]
      exact fun zero short => (settled zero short).move rfl
  | drainWake atPc woken =>
      simp only [sequenceOps, Option.some.injEq] at woken
      subst woken
      simp only [atPc] at settled
      simp only [Settled, goto, Function.update_self]
      intro zero empty
      have short : lock.slQueue.length ≤ 1 := by
        have length := congrArg List.length empty
        rw [List.length_dropLast, List.length_nil] at length
        omega
      exact (settled zero short).move rfl
  | drainNumberDone atPc zero =>
      simp only [atPc] at settled
      simp only [Settled, goto, Function.update_self]
      exact fun empty => (settled zero empty).move rfl
  | drainQueueDone atPc empty =>
      simp only [atPc] at settled
      simp only [Settled, goto, Function.update_self]
      have isEmpty : lock.slQueue = [] := by simpa [sequenceOps] using empty
      exact (settled isEmpty).move rfl
  | lockFair | internalWait | touchWait | drainNumberWait | drainQueueWait | lockReturn
  | unlockReturn | touchReturn | drainReturn =>
      apply settled_of_not_holds
      simp [SharedLock.sleep, release, SlPc.holds]
  | _ => simp [Settled, goto, setHeld]

omit [DecidableEq Tid] in
/-- A queue nobody holds the lock for and from which nobody was woken is empty. -/
theorem Served.alone (served : lock.Served) (zero : lock.slNumber = 0)
    (linked : ∀ other site, other ≠ thread → lock.pc other = .asleep site → other ∈ lock.slQueue)
    (awake : ∀ site, lock.pc thread ≠ .asleep site) : lock.Alone thread := by
  have noneWoken : ¬lock.Woken := by
    rintro ⟨sleeper, site, isAsleep, unlinked⟩
    have different : sleeper ≠ thread := by
      rintro rfl
      exact awake site isAsleep
    exact unlinked (linked sleeper site different isAsleep)
  have empty : lock.slQueue = [] := by
    by_contra nonempty
    rcases served nonempty with held | woken
    · exact held zero
    · exact noneWoken woken
  intro other site different isAsleep
  have inQueue := linked other site different isAsleep
  simp [empty] at inQueue

/-- Only the holder of the spinlock has something to know. -/
theorem settled_of_free (exclusive : lock.Exclusive) (free : lock.slLock = none)
    {mover : Tid} {target : SlPc} (different : thread ≠ mover)
    (moved : next.pc = Function.update lock.pc mover target) : next.Settled thread := by
  apply settled_of_not_holds
  rw [moved, Function.update_of_ne different, ← Bool.not_eq_true, exclusive thread, free]
  simp

theorem QuietInvariant.settled_step {event : SlEvent Tid} (invariant : lock.QuietInvariant)
    (step : Step (sequenceOps Tid) lock event next) (quiet : QuietDrain lock event next)
    (thread : Tid) : next.Settled thread := by
  have exclusive := invariant.flags.exclusive
  cases step with
  | @call mover call atPc matching =>
      by_cases same : thread = mover
      · subst thread
        apply settled_of_not_holds
        simp [goto, SlPc.holds]
      · exact (invariant.settled thread).call same call
  | @acquire mover call atPc free =>
      by_cases same : thread = mover
      · subst thread
        have awake : ∀ site, lock.pc mover ≠ .asleep site := by simp [atPc]
        have linked := quiet mover (Or.inl rfl)
        cases call with
        | drain =>
            simp only [LastSection, atPc] at linked
            simp only [Settled, SharedLock.acquire, Function.update_self, SlCall.entry]
            intro zero short
            have notEntry : ∀ other, lock.pc other ≠ .drainEntry := by
              intro other atEntry
              have drains : (lock.pc mover).inDrain = true := by simp [atPc, SlPc.inDrain]
              have otherDrains : (lock.pc other).inDrain = true := by simp [atEntry, SlPc.inDrain]
              have same := invariant.one mover other drains otherDrains
              simp [← same, atPc] at atEntry
            have owed := invariant.owed (invariant.entering mover atPc) notEntry
            simp only [Owed, free] at owed
            exact (owed.alone zero (linked ⟨zero, short⟩) awake).move rfl
        | _ => simp [Settled, SharedLock.acquire, SlCall.entry]
      · exact settled_of_free exclusive free same rfl
  | @exec mover _ exec =>
      by_cases same : thread = mover
      · subst thread
        exact (invariant.settled mover).exec exec
      · apply settled_of_not_holds
        rw [exec.pc_of_ne same]
        exact exclusive.holds_of_ne exec same
  | @resume mover site atPc mayReturn free =>
      by_cases same : thread = mover
      · subst thread
        have linked := quiet mover (Or.inr rfl)
        have aloneIfEmpty (empty : lock.slQueue = [])
            (inQueue : ∀ other site, other ≠ mover → lock.pc other = .asleep site →
              other ∈ lock.slQueue) : lock.Alone mover := by
          intro other site different isAsleep
          simpa [empty] using inQueue other site different isAsleep
        cases site with
        | drainNumber =>
            simp only [LastSection, atPc] at linked
            simp only [Settled, SharedLock.acquire, Function.update_self, WaitSite.resume]
            exact fun zero empty => (aloneIfEmpty empty (linked ⟨zero, empty⟩)).move rfl
        | drainQueue =>
            simp only [LastSection, atPc] at linked
            simp only [Settled, SharedLock.acquire, Function.update_self, WaitSite.resume]
            exact fun empty => (aloneIfEmpty empty (linked empty)).move rfl
        | _ => simp [Settled, SharedLock.acquire, WaitSite.resume]
      · exact settled_of_free exclusive free same rfl

/-- Only `sl_drain` brings a thread to a program point of `sl_drain`. -/
theorem Step.inDrain {event : SlEvent Tid} (step : Step (sequenceOps Tid) lock event next)
    (drains : (next.pc thread).inDrain = true) :
    (lock.pc thread).inDrain = true ∨ event = .call thread .drain := by
  cases step with
  | @call mover call atPc matching =>
      by_cases same : thread = mover
      · subst thread
        cases call with
        | drain => exact Or.inr rfl
        | _ => simp [goto, SlPc.inDrain] at drains
      · exact Or.inl (by simpa [goto, same] using drains)
  | @acquire mover call atPc free =>
      left
      by_cases same : thread = mover
      · subst thread
        cases call <;> simp_all [SharedLock.acquire, SlPc.inDrain, SlCall.entry]
      · simpa [SharedLock.acquire, same] using drains
  | exec exec => exact Or.inl (exec.inDrain thread drains)
  | @resume mover site atPc mayReturn free =>
      left
      by_cases same : thread = mover
      · subst thread
        cases site <;> simp_all [SharedLock.acquire, SlPc.inDrain, WaitSite.resume]
      · simpa [SharedLock.acquire, same] using drains

/-- A thread that has entered `sl_drain` did so before the flag was set, and is there alone. -/
theorem QuietInvariant.entering_step {event : SlEvent Tid} (invariant : lock.QuietInvariant)
    (step : Step (sequenceOps Tid) lock event next)
    (oneDrain : ∀ other, event = .call other .drain → lock.Undrained)
    (entered : next.pc thread = .entering .drain) : ¬next.Draining := by
  have drains : (next.pc thread).inDrain = true := by simp [entered, SlPc.inDrain]
  cases step with
  | @call mover call atPc matching =>
      by_cases same : thread = mover
      · subst thread
        have isDrain : call = .drain := by simpa [goto] using entered
        exact (oneDrain mover (by rw [isDrain])).1
      · exact invariant.entering thread (by simpa [goto, same] using entered)
  | @acquire mover call atPc free =>
      by_cases same : thread = mover
      · subst thread
        cases call <;> simp [SharedLock.acquire, SlCall.entry] at entered
      · exact invariant.entering thread (by simpa [SharedLock.acquire, same] using entered)
  | @exec mover _ exec =>
      by_cases same : thread = mover
      · subst thread
        cases exec <;> simp [goto, SharedLock.sleep, release, setHeld] at entered
      · rw [exec.pc_of_ne same] at entered
        have before := invariant.entering thread entered
        have notDrain := invariant.one mover thread
        cases exec with
        | drainFlag atPc =>
            have same' := notDrain (by simp [atPc, SlPc.inDrain]) (by simp [entered, SlPc.inDrain])
            exact absurd same'.symm same
        | _ => exact before
  | @resume mover site atPc mayReturn free =>
      by_cases same : thread = mover
      · subst thread
        cases site <;> simp [SharedLock.acquire, WaitSite.resume] at entered
      · exact invariant.entering thread (by simpa [SharedLock.acquire, same] using entered)

/-- Before the flag is set the lock works as one that is never drained. -/
theorem QuietInvariant.owed_step {event : SlEvent Tid} (invariant : lock.QuietInvariant)
    (step : Step (sequenceOps Tid) lock event next) (notDraining : ¬next.Draining)
    (notEntry : ∀ thread, next.pc thread ≠ .drainEntry) : next.Owed := by
  have exclusive := invariant.flags.exclusive
  have stillOpen : ¬lock.Draining := fun draining => notDraining (draining.step step)
  have owed : lock.Owed := by
    apply invariant.owed stillOpen
    intro thread atEntry
    have stays := notEntry thread
    cases step with
    | @call mover call atPc matching =>
        have different : thread ≠ mover := by
          rintro rfl
          simp [atEntry] at atPc
        simp [goto, different, atEntry] at stays
    | @acquire mover call atPc free | @resume mover site atPc mayReturn free =>
        have holder := (exclusive thread).mp (by simp [atEntry, SlPc.holds])
        simp [free] at holder
    | @exec mover _ exec =>
        by_cases same : thread = mover
        · subst thread
          cases exec
          case drainFlag => exact notDraining (flag_ne_zero _)
          all_goals simp_all
        · rw [exec.pc_of_ne same] at stays
          exact stays atEntry
  cases step with
  | call atPc matching => exact owed.call exclusive atPc
  | acquire atPc free => exact owed.acquire atPc free
  | @exec mover _ exec =>
      refine owed.exec exclusive invariant.queued invariant.upper stillOpen ?_ exec
      have flagged := invariant.flags.flagged mover
      cases exec with
      | drainFlag atPc => exact absurd (flag_ne_zero _) notDraining
      | drainWake atPc | drainNumberWait atPc | drainNumberDone atPc | drainQueueWait atPc
      | drainQueueDone atPc | drainReturn atPc =>
          exact absurd (flagged (by simp [atPc, SlPc.flagged])) stillOpen
      | _ => simp [*, SlPc.inDrain]
  | @resume mover site => exact owed_resume site

theorem QuietInvariant.step {event : SlEvent Tid} (invariant : lock.QuietInvariant)
    (step : Step (sequenceOps Tid) lock event next)
    (oneDrain : ∀ other, event = .call other .drain → lock.Undrained)
    (quiet : QuietDrain lock event next) : next.QuietInvariant := by
  refine ⟨invariant.flags.step step, ?_, ?_, ?_,
    fun thread => invariant.entering_step step oneDrain, invariant.owed_step step,
    invariant.settled_step step quiet⟩
  · cases step with
    | call atPc | acquire atPc =>
        exact invariant.queued.move (invariant.queued.notMem (by simp [atPc])) rfl
          (List.Sublist.refl _)
    | exec exec => exact invariant.queued.exec exec
    | resume atPc mayReturn => exact invariant.queued.move mayReturn rfl (List.Sublist.refl _)
  · cases step with
    | exec exec => exact exec.upper invariant.upper
    | _ => exact invariant.upper
  · intro drainer other drains otherDrains
    rcases step.inDrain drains with before | called <;>
      rcases step.inDrain otherDrains with otherBefore | otherCalled
    · exact invariant.one drainer other before otherBefore
    · have free := (oneDrain other otherCalled).2 drainer
      simp [before] at free
    · have free := (oneDrain drainer called).2 other
      simp [otherBefore] at free
    · rw [called] at otherCalled
      cases otherCalled
      rfl

end Preservation

variable [DecidableEq Tid]

/-- The runs with at most one call of `sl_drain`. -/
def oneDrainSystem (Tid : Type) [DecidableEq Tid] :
    TransitionSystem (SharedLock (List Tid) Tid) (SlEvent Tid) :=
  (system (sequenceOps Tid) []).restrict fun lock event _ =>
    ∀ thread, event = .call thread .drain → lock.Undrained

theorem quietInvariant_of_reachable {lock : SharedLock (List Tid) Tid}
    (reachable : ((oneDrainSystem Tid).restrict QuietDrain).Reachable lock) :
    lock.QuietInvariant := by
  apply reachable.invariant
  · rintro lock rfl
    refine ⟨FlagInvariant.initial [], ⟨?_, ?_⟩, ?_, ?_, ?_, ?_, ?_⟩
    · simp [initial]
    · simp [initial]
    · simp [initial]
    · simp [initial, SlPc.inDrain]
    · simp [initial]
    · simp [Owed, Served, initial]
    · simp [Settled, initial]
  · rintro lock event next invariant ⟨⟨step, oneDrain⟩, quiet⟩
    exact invariant.step step oneDrain quiet

/-- No thread that has slept is left in the lock when `sl_drain` returns, if the drainer does
not begin its last section before the threads that were woken have run. -/
theorem quiescent_of_reachable {lock : SharedLock (List Tid) Tid}
    (reachable : ((oneDrainSystem Tid).restrict QuietDrain).Reachable lock) :
    lock.Quiescent := by
  intro drainer returning other different
  have invariant := quietInvariant_of_reachable reachable
  have alone := invariant.settled drainer
  simp only [Settled, returning] at alone
  have notHolds : (lock.pc other).holds ≠ true := by
    intro otherHolds
    have holder := (invariant.flags.exclusive other).mp otherHolds
    rw [(invariant.flags.exclusive drainer).mp (by simp [returning, SlPc.holds]),
      Option.some.injEq] at holder
    exact different holder.symm
  cases atPc : lock.pc other with
  | outside => exact Or.inl rfl
  | entering call => exact Or.inr ⟨call, rfl⟩
  | asleep site => exact absurd atPc (alone other site different)
  | _ => simp [atPc, SlPc.holds] at notHolds

section Converse

variable {lock next : SharedLock (List Tid) Tid} {thread other : Tid}

theorem exists_not_quiescent_of_queueTest (reachable : (oneDrainSystem Tid).Reachable lock)
    (atPc : lock.pc thread = .drainQueueTest) (empty : lock.slQueue = []) {site : WaitSite}
    (different : other ≠ thread) (isAsleep : lock.pc other = .asleep site) :
    ∃ later, (oneDrainSystem Tid).Reachable later ∧ ¬later.Quiescent := by
  have emptied := reachable.step
    ⟨Step.exec (Exec.drainQueueDone atPc (by simp [sequenceOps, empty])), by simp⟩
  refine ⟨_, emptied, ?_⟩
  intro quiescent
  have left := quiescent thread (goto_pc ..) other different
  simp [goto, different, isAsleep] at left

theorem exists_not_quiescent_of_numberTest (reachable : (oneDrainSystem Tid).Reachable lock)
    (atPc : lock.pc thread = .drainNumberTest) (zero : lock.slNumber = 0)
    (empty : lock.slQueue = []) {site : WaitSite} (different : other ≠ thread)
    (isAsleep : lock.pc other = .asleep site) :
    ∃ later, (oneDrainSystem Tid).Reachable later ∧ ¬later.Quiescent := by
  have counted := reachable.step ⟨Step.exec (Exec.drainNumberDone atPc zero), by simp⟩
  apply exists_not_quiescent_of_queueTest counted (goto_pc ..) empty different
  simpa [goto, different] using isAsleep

/-- The condition is exact: if the drainer begins its last section while another thread has been
woken and has not run, then some run goes on to a return of `sl_drain` before that thread. -/
theorem exists_not_quiescent {event : SlEvent Tid} (reachable : (oneDrainSystem Tid).Reachable lock)
    (step : (oneDrainSystem Tid).step lock event next) (notQuiet : ¬QuietDrain lock event next) :
    ∃ later, (oneDrainSystem Tid).Reachable later ∧ ¬later.Quiescent := by
  have reached := reachable.step step
  simp only [QuietDrain, not_forall] at notQuiet
  rcases notQuiet with ⟨thread, takes, last, other, site, different, isAsleep, unlinked⟩
  rcases step with ⟨step, _⟩
  cases step with
  | call | exec => simp at takes
  | @acquire mover call atPc free =>
      have same : mover = thread := by simpa using takes
      subst thread
      cases call with
      | drain =>
          simp only [LastSection, atPc] at last
          have flagged := reached.step ⟨Step.exec (Exec.drainFlag (acquire_pc ..)), by simp⟩
          have woken := flagged.step ⟨Step.exec (Exec.drainWake (goto_pc ..) rfl), by simp⟩
          apply exists_not_quiescent_of_numberTest woken (goto_pc ..) last.1 ?_ different
          · simpa [goto, SharedLock.acquire, different] using isAsleep
          · apply List.eq_nil_of_length_eq_zero
            simp only [goto, SharedLock.acquire, List.length_dropLast]
            omega
      | _ => simp [LastSection, atPc] at last
  | @resume mover wait atPc mayReturn free =>
      have same : mover = thread := by simpa using takes
      subst thread
      have stillAsleep : (lock.acquire mover wait.resume).pc other = .asleep site := by
        simpa [SharedLock.acquire, different] using isAsleep
      cases wait with
      | drainNumber =>
          simp only [LastSection, atPc] at last
          exact exists_not_quiescent_of_numberTest reached (acquire_pc ..) last.1 last.2 different
            stillAsleep
      | drainQueue =>
          simp only [LastSection, atPc] at last
          exact exists_not_quiescent_of_queueTest reached (acquire_pc ..) last different stillAsleep
      | _ => simp [LastSection, atPc] at last

end Converse

theorem admitsOrdinary_oneDrainSystem : AdmitsOrdinary (oneDrainSystem Tid) := by
  apply admitsOrdinary_system.restrict
  rintro lock event next - ordinary thread rfl
  exact absurd ordinary id

/-- Thread `false` unlocks and drains before `true`, which the unlock has woken, has run. -/
theorem exists_drain_not_quiescent : ∃ lock : SharedLock (List Bool) Bool,
    (oneDrainSystem Bool).Reachable lock ∧ ¬lock.Quiescent := by
  have admits : AdmitsOrdinary (oneDrainSystem Bool) := admitsOrdinary_oneDrainSystem
  have start : (oneDrainSystem Bool).Reachable (initial []) := .init rfl
  have held := admits.lockGreedy false start rfl rfl (not_draining_of_clear rfl) rfl
  have asleep := admits.lockGreedy_asleep true held rfl rfl
    (not_draining_of_clear rfl) (by simp [setHeld])
  have unlocked := admits.unlock false asleep rfl rfl (by decide)
  have flagged := admits.drain false unlocked
    ⟨.call rfl (by simp),
      fun _ _ => ⟨not_draining_of_clear rfl, by decide⟩⟩
    ⟨.acquire (goto_pc ..) rfl, by simp⟩
  have counted := admits.exec flagged (.drainNumberDone (acquire_pc ..) rfl)
  exact exists_not_quiescent_of_queueTest counted (goto_pc ..) rfl (show true ≠ false by decide)
    rfl

section Quiet

variable {lock next : SharedLock (List Tid) Tid} {thread : Tid} {event : SlEvent Tid}

omit [DecidableEq Tid] in
theorem quietDrain_of_not_lastSection (takes : event = .acquire thread ∨ event = .resume thread)
    (notLast : ¬lock.LastSection thread) : QuietDrain lock event next := by
  rintro taker taken last
  have same : taker = thread := by
    rcases takes with rfl | rfl <;> simp_all
  rw [same] at last
  exact absurd last notLast

omit [DecidableEq Tid] in
theorem quietDrain_of_outside (takes : event = .acquire thread ∨ event = .resume thread)
    (outside : ∀ other, other ≠ thread → lock.pc other = .outside) :
    QuietDrain lock event next := by
  intro taker taken _ other site different isAsleep
  have same : taker = thread := by
    rcases takes with rfl | rfl <;> simp_all
  rw [outside other (same ▸ different)] at isAsleep
  cases isAsleep

theorem admitsOrdinary_quietDrain : AdmitsOrdinary ((oneDrainSystem Tid).restrict QuietDrain) := by
  apply admitsOrdinary_oneDrainSystem.restrict
  intro lock event next step ordinary
  cases step with
  | call | exec => simp [QuietDrain]
  | resume => exact absurd ordinary id
  | @acquire thread call atPc free =>
      apply quietDrain_of_not_lastSection (Or.inl rfl)
      cases call with
      | drain => exact absurd atPc ordinary
      | _ => simp [LastSection, atPc]

end Quiet

/-- Thread 0 holds the lock, 1 sleeps and 2 drains. Thread 1 gives up, 0 unlocks, and only then
does 2 begin its last section. -/
theorem quiescent_drained_sleeper : ∃ lock : SharedLock (List (Fin 3)) (Fin 3),
    ((oneDrainSystem (Fin 3)).restrict QuietDrain).Reachable lock ∧ lock.pc 2 = .drainReturn ∧
      lock.Quiescent := by
  have admits : AdmitsOrdinary ((oneDrainSystem (Fin 3)).restrict QuietDrain) :=
    admitsOrdinary_quietDrain
  have start : ((oneDrainSystem (Fin 3)).restrict QuietDrain).Reachable (initial []) := .init rfl
  have held := admits.lockGreedy 0 start rfl rfl (not_draining_of_clear rfl) rfl
  have greedy := admits.lockGreedy_asleep 1 held rfl rfl (not_draining_of_clear rfl)
    (by simp [setHeld])
  have flagged := admits.drain 2 greedy
    ⟨⟨.call rfl (by simp), fun _ _ => ⟨not_draining_of_clear rfl, by decide⟩⟩,
      by simp [QuietDrain]⟩
    ⟨⟨.acquire (goto_pc ..) rfl, by simp⟩,
      quietDrain_of_not_lastSection (Or.inl rfl) fun last => absurd last.1 (by decide)⟩
  have asleep := admits.exec flagged (.drainNumberWait (acquire_pc ..) (by decide) rfl)
  have greedyLeft := admits.internal_enolck 1 asleep .exclusive
    ⟨⟨.resume_unlinked 1 rfl (by decide) rfl, by simp⟩,
      quietDrain_of_not_lastSection (Or.inr rfl) id⟩ (flag_ne_zero _)
  have unlocked := admits.unlock 0 greedyLeft rfl rfl (by decide)
  have resumed := unlocked.step ⟨⟨.resume_unlinked 2 rfl (by decide) rfl, by simp⟩,
    quietDrain_of_outside (Or.inr rfl) (by decide)⟩
  have counted := admits.exec resumed (.drainNumberDone (acquire_pc ..) rfl)
  have emptied := admits.exec counted (.drainQueueDone (goto_pc ..) rfl)
  exact ⟨_, emptied, goto_pc .., quiescent_of_reachable emptied⟩

end SharedLock

end Rkernel
