import Rkernel.Kern.LockExclusive

/-!
# The order of the grants

`sl_lock` lets a thread that finds others in the wait queue queue behind them, so that the
lock is granted in the order in which the calls came. A thread that has been woken is not in
the queue any more, and until it has taken the spinlock again nothing tells that it is still
waiting: a call that finds the queue empty and the lock free in the meantime is granted at
once, before the woken thread.

If no call takes the spinlock in that situation, the grants come in the order of the calls.
In such a run at most one thread is woken at a time, and it is the first of those that wait.
-/

namespace Rkernel

/-- The program points at which a thread is about to test whether the lock is free. -/
def SlPc.testing : SlPc → Bool
  | .internalEntry _ | .internalTest _ | .internalRetest _ => true
  | _ => false

namespace SharedLock

variable {Tid : Type} [DecidableEq Tid]

/-- A step with its source and its target. -/
abbrev SlStep (Tid : Type) : Type :=
  SharedLock (List Tid) Tid × SlEvent Tid × SharedLock (List Tid) Tid

/-- The thread whose call of `sl_lock` takes the spinlock for the first time. -/
def arrivedBy : SlStep Tid → List Tid
  | (lock, .acquire thread, _) =>
      if lock.pc thread = .entering (.lock .exclusive) then [thread] else []
  | _ => []

/-- The thread to which the lock is granted. -/
def grantedBy : SlStep Tid → List Tid
  | (lock, .exec thread, next) =>
      if lock.pc thread = .internalTest .exclusive ∧ next.pc thread = .lockReturn 0 then [thread]
      else []
  | _ => []

def arrivals (trace : List (SlStep Tid)) : List Tid :=
  trace.flatMap arrivedBy

def grantOrder (trace : List (SlStep Tid)) : List Tid :=
  trace.flatMap grantedBy

/-- The grants of a run come in the order of the calls. In particular no thread that called
`sl_lock` when another one was asleep in it is granted before that thread. -/
structure FairGrants (trace : List (SlStep Tid)) : Prop where
  inOrder : grantOrder trace <+: arrivals trace
  notOvertaken : ∀ front middle back lock called test granted newcomer sleeper site,
    trace = front ++ (lock, .call newcomer (.lock .exclusive), called) ::
      (middle ++ (test, .exec newcomer, granted) :: back) →
    lock.pc sleeper = .asleep site → grantedBy (test, .exec newcomer, granted) = [newcomer] →
    sleeper ∈ grantOrder middle

/-- No call of `sl_lock` takes the spinlock while the queue is empty, the lock is free and a
thread that was woken has not gone on. -/
def NotBarging (lock : SharedLock (List Tid) Tid) (event : SlEvent Tid) : Prop :=
  ∀ thread, event = .acquire thread → lock.pc thread = .entering (.lock .exclusive) →
    lock.slQueue = [] → lock.slNumber = 0 → ∀ other site, lock.pc other ≠ .asleep site

/-- A thread whose turn it is: it has been woken, or is about to test the lock. -/
def HasTurn (lock : SharedLock (List Tid) Tid) (thread : Tid) : Prop :=
  ((∃ site, lock.pc thread = .asleep site) ∧ thread ∉ lock.slQueue) ∨
    (lock.pc thread).testing = true

/-- The waiting threads in the order in which they came: the one whose turn it is, the queue
from its `prev` end on, and the one that has just taken the spinlock. -/
def waiting (lock : SharedLock (List Tid) Tid) (turn last : Option Tid) : List Tid :=
  turn.toList ++ lock.slQueue.reverse ++ last.toList

/-- The part of the invariant that is about the order. A thread is woken while the lock is free
and keeps its turn until it has the lock. -/
structure FairOrder (lock : SharedLock (List Tid) Tid) (turn last : Option Tid) : Prop where
  turnIff : ∀ thread, turn = some thread ↔ lock.HasTurn thread
  lastIff : ∀ thread, last = some thread ↔ lock.pc thread = .lockEntry .exclusive
  free : ∀ thread, turn = some thread →
    lock.slNumber = 0 ∨ lock.slQueue = [] ∧ (lock.pc thread).testing = true
  direct : ∀ thread, last = some thread → lock.slQueue = [] → turn = none
  waking : ∀ thread, lock.pc thread = .unlockWake → turn = none ∧ lock.slNumber = 0

section Order

variable {lock next : SharedLock (List Tid) Tid} {thread : Tid} {turn last : Option Tid}

omit [DecidableEq Tid] in
theorem pc_ne_of_not_holds (quiet : (lock.pc thread).holds = false) {pc : SlPc}
    (pcHolds : pc.holds = true) : lock.pc thread ≠ pc := by
  intro isPc
  rw [isPc, pcHolds] at quiet
  cases quiet

omit [DecidableEq Tid] in
theorem not_testing_of_not_holds (quiet : (lock.pc thread).holds = false) :
    (lock.pc thread).testing ≠ true := by
  cases atPc : lock.pc thread <;> simp_all [SlPc.testing, SlPc.holds]

/-- A step of another thread does not change whose turn it is, as long as it does not wake. -/
theorem hasTurn_of_ne {target : SlPc} (moved : next.pc = Function.update lock.pc thread target)
    {other : Tid} (different : other ≠ thread)
    (sameQueue : other ∈ next.slQueue ↔ other ∈ lock.slQueue) :
    next.HasTurn other ↔ lock.HasTurn other := by
  rw [HasTurn, HasTurn, moved, Function.update_of_ne different, sameQueue]

/-- The turns after a step that wakes nobody. -/
theorem FairOrder.turnIff_move (order : lock.FairOrder turn last) {target : SlPc}
    (moved : next.pc = Function.update lock.pc thread target)
    (sameQueue : ∀ other, other ≠ thread → (other ∈ next.slQueue ↔ other ∈ lock.slQueue))
    (same : next.HasTurn thread ↔ lock.HasTurn thread) (other : Tid) :
    turn = some other ↔ next.HasTurn other := by
  rw [order.turnIff]
  by_cases isThread : other = thread
  · rw [isThread]
    exact same.symm
  · exact (hasTurn_of_ne moved isThread (sameQueue other isThread)).symm

theorem FairOrder.lastIff_move (order : lock.FairOrder turn last) {target : SlPc}
    (moved : next.pc = Function.update lock.pc thread target)
    (notThread : lock.pc thread ≠ .lockEntry .exclusive)
    (notTarget : target ≠ .lockEntry .exclusive) (other : Tid) :
    last = some other ↔ next.pc other = .lockEntry .exclusive := by
  rw [order.lastIff, moved]
  by_cases isThread : other = thread
  · rw [isThread, Function.update_self]
    exact iff_of_false notThread notTarget
  · rw [Function.update_of_ne isThread]

/-- A thread outside the spinlock section that stays outside, or the thread inside at points
where nothing is decided. -/
theorem FairOrder.move (order : lock.FairOrder turn last) {target : SlPc}
    (moved : next.pc = Function.update lock.pc thread target)
    (sameQueue : next.slQueue = lock.slQueue) (sameNumber : next.slNumber = lock.slNumber)
    (notEntry : lock.pc thread ≠ .lockEntry .exclusive)
    (notTarget : target ≠ .lockEntry .exclusive) (notWaking : target ≠ .unlockWake)
    (same : next.HasTurn thread ↔ lock.HasTurn thread)
    (sameTesting : (lock.pc thread).testing = true → target.testing = true) :
    next.FairOrder turn last := by
  refine ⟨order.turnIff_move moved (fun other _ => by rw [sameQueue]) same,
    order.lastIff_move moved notEntry notTarget, ?_, ?_, ?_⟩
  · intro other isTurn
    rw [sameNumber, sameQueue, moved]
    rcases order.free other isTurn with isFree | ⟨empty, testing⟩
    · exact Or.inl isFree
    · right
      refine ⟨empty, ?_⟩
      by_cases isThread : other = thread
      · rw [isThread] at testing
        rw [isThread, Function.update_self]
        exact sameTesting testing
      · rw [Function.update_of_ne isThread]
        exact testing
  · intro other isLast empty
    rw [sameQueue] at empty
    exact order.direct other isLast empty
  · intro other isWaking
    rw [moved] at isWaking
    by_cases isThread : other = thread
    · rw [isThread, Function.update_self] at isWaking
      exact absurd isWaking notWaking
    · rw [Function.update_of_ne isThread] at isWaking
      rw [sameNumber]
      exact order.waking other isWaking

/-- The order after a step: those that wait, and the one that arrives, are the one that is
granted and those that wait then. -/
def Follows (lock : SharedLock (List Tid) Tid) (turn last : Option Tid)
    (arrived granted : List Tid) (next : SharedLock (List Tid) Tid) : Prop :=
  ∃ nextTurn nextLast, next.FairOrder nextTurn nextLast ∧
    lock.waiting turn last ++ arrived = granted ++ next.waiting nextTurn nextLast

theorem FairOrder.follows_move (order : lock.FairOrder turn last) {target : SlPc}
    (moved : next.pc = Function.update lock.pc thread target)
    (sameQueue : next.slQueue = lock.slQueue) (sameNumber : next.slNumber = lock.slNumber)
    (notEntry : lock.pc thread ≠ .lockEntry .exclusive)
    (notTarget : target ≠ .lockEntry .exclusive) (notWaking : target ≠ .unlockWake)
    (same : next.HasTurn thread ↔ lock.HasTurn thread)
    (sameTesting : (lock.pc thread).testing = true → target.testing = true) :
    lock.Follows turn last [] [] next := by
  refine ⟨turn, last, order.move moved sameQueue sameNumber notEntry notTarget notWaking same
    sameTesting, ?_⟩
  rw [waiting, waiting, sameQueue]
  simp

omit [DecidableEq Tid] in
theorem not_hasTurn (awake : ∀ site, lock.pc thread ≠ .asleep site)
    (notTesting : (lock.pc thread).testing = false) : ¬lock.HasTurn thread := by
  rintro (⟨⟨site, isAsleep⟩, -⟩ | testing)
  · exact awake site isAsleep
  · rw [notTesting] at testing
    cases testing

/-- A newcomer takes the spinlock and is last. -/
theorem FairOrder.arrive (order : lock.FairOrder turn last) (exclusive : lock.Exclusive)
    (spinlockFree : lock.slLock = none)
    (atPc : lock.pc thread = .entering (.lock .exclusive))
    (notBarging : lock.NotBarging (.acquire thread)) :
    lock.Follows turn last [thread] []
      (lock.acquire thread (SlCall.lock .exclusive).entry) := by
  have quiet := exclusive.not_holds spinlockFree
  have moved : (lock.acquire thread (SlCall.lock .exclusive).entry).pc =
      Function.update lock.pc thread (.lockEntry .exclusive) := rfl
  have noLast : last = none := by
    cases last with
    | none => rfl
    | some other =>
        exact absurd ((order.lastIff other).mp rfl) (pc_ne_of_not_holds (quiet other) rfl)
  have isFree (other : Tid) (isTurn : turn = some other) : lock.slNumber = 0 := by
    rcases order.free other isTurn with isFree | ⟨-, testing⟩
    · exact isFree
    · exact absurd testing (not_testing_of_not_holds (quiet other))
  refine ⟨turn, some thread, ⟨order.turnIff_move moved (fun _ _ => Iff.rfl) ?_, ?_, ?_, ?_, ?_⟩,
    ?_⟩
  · apply iff_of_false
    · exact not_hasTurn (by simp [SlCall.entry]) (by simp [SlCall.entry, SlPc.testing])
    · exact not_hasTurn (by simp [atPc]) (by simp [atPc, SlPc.testing])
  · intro other
    rw [moved]
    by_cases isThread : other = thread
    · simp [isThread]
    · rw [Function.update_of_ne isThread]
      apply iff_of_false
      · simpa using Ne.symm isThread
      · exact pc_ne_of_not_holds (quiet other) rfl
  · intro other isTurn
    exact Or.inl (isFree other isTurn)
  · intro _ _ empty
    cases turn with
    | none => rfl
    | some other =>
        have nobodyAsleep := notBarging thread rfl atPc empty (isFree other rfl) other
        rcases (order.turnIff other).mp rfl with ⟨⟨site, isAsleep⟩, -⟩ | testing
        · exact absurd isAsleep (nobodyAsleep site)
        · exact absurd testing (not_testing_of_not_holds (quiet other))
  · intro other isWaking
    rw [moved] at isWaking
    by_cases isThread : other = thread
    · simp [isThread] at isWaking
    · rw [Function.update_of_ne isThread] at isWaking
      exact absurd isWaking (pc_ne_of_not_holds (quiet other) rfl)
  · simp [waiting, noLast, SharedLock.acquire]

section Inside

variable {target : SlPc}

/-- After a step of the thread inside, nobody else is at a point inside. -/
theorem pc_ne_of_quiet (quiet : ∀ other, other ≠ thread → (lock.pc other).holds = false)
    (moved : next.pc = Function.update lock.pc thread target) {pc : SlPc}
    (pcHolds : pc.holds = true) (notTarget : target ≠ pc) (other : Tid) : next.pc other ≠ pc := by
  rw [moved]
  by_cases isThread : other = thread
  · rw [isThread, Function.update_self]
    exact notTarget
  · rw [Function.update_of_ne isThread]
    exact pc_ne_of_not_holds (quiet other isThread) pcHolds

theorem FairOrder.last_eq_none (order : lock.FairOrder turn last)
    (quiet : ∀ other, other ≠ thread → (lock.pc other).holds = false)
    (notEntry : lock.pc thread ≠ .lockEntry .exclusive) : last = none := by
  cases last with
  | none => rfl
  | some other =>
      have atEntry := (order.lastIff other).mp rfl
      by_cases isThread : other = thread
      · rw [isThread] at atEntry
        exact absurd atEntry notEntry
      · exact absurd atEntry (pc_ne_of_not_holds (quiet other isThread) rfl)

/-- Only the thread whose turn it is can lose it, or a thread can get it if nobody has it. -/
theorem FairOrder.turn_of_ne (order : lock.FairOrder turn last)
    (moved : next.pc = Function.update lock.pc thread target) {other : Tid}
    (different : other ≠ thread) (sameQueue : other ∈ next.slQueue ↔ other ∈ lock.slQueue)
    (noTurn : turn ≠ some other) : ¬next.HasTurn other := by
  rw [hasTurn_of_ne moved different sameQueue, ← order.turnIff]
  exact noTurn

theorem FairOrder.queueUp (order : lock.FairOrder turn last)
    (quiet : ∀ other, other ≠ thread → (lock.pc other).holds = false)
    (atPc : lock.pc thread = .lockEntry .exclusive) (nonempty : lock.slQueue ≠ []) :
    lock.Follows turn last [] []
      (lock.sleep thread (.fair .exclusive) (thread :: lock.slQueue)) := by
  have moved : (lock.sleep thread (.fair .exclusive) (thread :: lock.slQueue)).pc =
      Function.update lock.pc thread (.asleep (.fair .exclusive)) := rfl
  have isLast := (order.lastIff thread).mpr atPc
  refine ⟨turn, none, ⟨order.turnIff_move moved ?_ ?_, ?_, ?_, by simp, ?_⟩, ?_⟩
  · intro other different
    simp [SharedLock.sleep, different]
  · apply iff_of_false
    · rintro (⟨-, unlinked⟩ | testing)
      · exact unlinked List.mem_cons_self
      · simp [SharedLock.sleep, SlPc.testing] at testing
    · exact not_hasTurn (by simp [atPc]) (by simp [atPc, SlPc.testing])
  · intro other
    exact iff_of_false (by simp) (pc_ne_of_quiet quiet moved rfl (by simp) other)
  · intro other isTurn
    rcases order.free other isTurn with isFree | ⟨empty, -⟩
    · exact Or.inl isFree
    · exact absurd empty nonempty
  · intro other isWaking
    exact absurd isWaking (pc_ne_of_quiet quiet moved rfl (by simp) other)
  · simp [waiting, isLast, SharedLock.sleep]

theorem FairOrder.goOn (order : lock.FairOrder turn last)
    (quiet : ∀ other, other ≠ thread → (lock.pc other).holds = false)
    (atPc : lock.pc thread = .lockEntry .exclusive) (empty : lock.slQueue = []) :
    lock.Follows turn last [] [] (lock.goto thread (.internalEntry .exclusive)) := by
  have moved : (lock.goto thread (.internalEntry .exclusive)).pc =
      Function.update lock.pc thread (.internalEntry .exclusive) := rfl
  have isLast := (order.lastIff thread).mpr atPc
  have noTurn := order.direct thread isLast empty
  refine ⟨some thread, none, ⟨?_, ?_, ?_, by simp, ?_⟩, ?_⟩
  · intro other
    by_cases isThread : other = thread
    · rw [isThread]
      exact iff_of_true rfl (Or.inr (by simp [SlPc.testing]))
    · apply iff_of_false
      · simpa using Ne.symm isThread
      · exact order.turn_of_ne moved isThread Iff.rfl (by simp [noTurn])
  · intro other
    exact iff_of_false (by simp) (pc_ne_of_quiet quiet moved rfl (by simp) other)
  · intro other isTurn
    obtain rfl := Option.some.inj isTurn
    exact Or.inr ⟨empty, by simp [SlPc.testing]⟩
  · intro other isWaking
    exact absurd isWaking (pc_ne_of_quiet quiet moved rfl (by simp) other)
  · simp [waiting, isLast, noTurn, empty, goto]

/-- A thread that gives up its turn: it goes to sleep again, or has the lock. -/
theorem FairOrder.endTurn (order : lock.FairOrder turn last)
    (quiet : ∀ other, other ≠ thread → (lock.pc other).holds = false)
    (isTurn : turn = some thread) (moved : next.pc = Function.update lock.pc thread target)
    (sameQueue : ∀ other, other ≠ thread → (other ∈ next.slQueue ↔ other ∈ lock.slQueue))
    (noTurn : ¬next.HasTurn thread) (notEntry : target ≠ .lockEntry .exclusive)
    (notWaking : target ≠ .unlockWake) : next.FairOrder none none := by
  refine ⟨?_, ?_, by simp, by simp, ?_⟩
  · intro other
    apply iff_of_false (by simp)
    by_cases isThread : other = thread
    · rw [isThread]
      exact noTurn
    · apply order.turn_of_ne moved isThread (sameQueue other isThread)
      rw [isTurn]
      simpa using Ne.symm isThread
  · intro other
    exact iff_of_false (by simp) (pc_ne_of_quiet quiet moved rfl notEntry other)
  · intro other isWaking
    exact absurd isWaking (pc_ne_of_quiet quiet moved rfl notWaking other)

theorem FairOrder.wait (order : lock.FairOrder turn last)
    (quiet : ∀ other, other ≠ thread → (lock.pc other).holds = false)
    (atPc : lock.pc thread = .internalTest .exclusive) (taken : lock.slNumber ≠ 0) :
    lock.Follows turn last [] []
      (lock.sleep thread (.internal .exclusive) (lock.slQueue ++ [thread])) := by
  have isTurn := (order.turnIff thread).mpr (Or.inr (by simp [atPc, SlPc.testing]))
  have noLast := order.last_eq_none quiet (by simp [atPc])
  have empty := ((order.free thread isTurn).resolve_left taken).1
  refine ⟨none, none, order.endTurn quiet isTurn rfl ?_ ?_ (by simp) (by simp), ?_⟩
  · intro other different
    simp [SharedLock.sleep, different]
  · rintro (⟨-, unlinked⟩ | testing)
    · exact unlinked (List.mem_append_right _ List.mem_cons_self)
    · simp [SharedLock.sleep, SlPc.testing] at testing
  · simp [waiting, isTurn, noLast, empty, SharedLock.sleep]

theorem FairOrder.grant (order : lock.FairOrder turn last)
    (quiet : ∀ other, other ≠ thread → (lock.pc other).holds = false)
    (atPc : lock.pc thread = .internalTest .exclusive) :
    lock.Follows turn last [] [thread]
      (({ lock with slNumber := -1 }.setHeld thread .exclusive
        (lock.held thread .exclusive + 1)).goto thread (.lockReturn 0)) := by
  have isTurn := (order.turnIff thread).mpr (Or.inr (by simp [atPc, SlPc.testing]))
  have noLast := order.last_eq_none quiet (by simp [atPc])
  refine ⟨none, none, order.endTurn quiet isTurn rfl (fun _ _ => Iff.rfl) ?_ (by simp) (by simp),
    ?_⟩
  · exact not_hasTurn (by simp) (by simp [SlPc.testing])
  · simp [waiting, isTurn, noLast, goto, setHeld]

/-- Nobody has been woken while the lock is held, so that at most one thread is woken. -/
theorem FairOrder.unlock (order : lock.FairOrder turn last)
    (quiet : ∀ other, other ≠ thread → (lock.pc other).holds = false)
    (atPc : lock.pc thread = .unlockEntry .exclusive) (taken : lock.slNumber ≠ 0) :
    lock.Follows turn last [] []
      (({ lock with slNumber := 0 }.setHeld thread .exclusive
        (lock.held thread .exclusive - 1)).goto thread .unlockWake) := by
  have noLast := order.last_eq_none quiet (by simp [atPc])
  have noTurn : turn = none := by
    cases turn with
    | none => rfl
    | some other =>
        obtain ⟨-, testing⟩ := (order.free other rfl).resolve_left taken
        by_cases isThread : other = thread
        · simp [isThread, atPc, SlPc.testing] at testing
        · exact absurd testing (not_testing_of_not_holds (quiet other isThread))
  subst noTurn noLast
  have moved : (({ lock with slNumber := 0 }.setHeld thread .exclusive
      (lock.held thread .exclusive - 1)).goto thread .unlockWake).pc =
        Function.update lock.pc thread .unlockWake := rfl
  refine ⟨none, none, ⟨order.turnIff_move moved (fun _ _ => Iff.rfl) ?_, ?_, by simp, by simp,
    fun _ _ => ⟨rfl, rfl⟩⟩, ?_⟩
  · apply iff_of_false
    · exact not_hasTurn (by simp) (by simp [SlPc.testing])
    · exact not_hasTurn (by simp [atPc]) (by simp [atPc, SlPc.testing])
  · intro other
    exact iff_of_false (by simp) (pc_ne_of_quiet quiet moved rfl (by simp) other)
  · simp [waiting, goto, setHeld]

theorem FairOrder.wakeNext (order : lock.FairOrder turn last) (queued : lock.Queued)
    (quiet : ∀ other, other ≠ thread → (lock.pc other).holds = false)
    (atPc : lock.pc thread = .unlockWake) :
    lock.Follows turn last [] []
      ({ lock with slQueue := lock.slQueue.dropLast }.goto thread .unlockReturn) := by
  have noLast := order.last_eq_none quiet (by simp [atPc])
  obtain ⟨noTurn, free⟩ := order.waking thread atPc
  subst noTurn noLast
  have moved : ({ lock with slQueue := lock.slQueue.dropLast }.goto thread .unlockReturn).pc =
      Function.update lock.pc thread .unlockReturn := rfl
  have notThread : ¬({ lock with slQueue := lock.slQueue.dropLast }.goto thread
      .unlockReturn).HasTurn thread := not_hasTurn (by simp) (by simp [SlPc.testing])
  have noEntry (other : Tid) := pc_ne_of_quiet quiet moved (show
    (SlPc.lockEntry .exclusive).holds = true from rfl) (by simp) other
  have noWaking (other : Tid) := pc_ne_of_quiet quiet moved (show
    SlPc.unlockWake.holds = true from rfl) (by simp) other
  rcases List.eq_nil_or_concat' lock.slQueue with empty | ⟨rest, first, isConcat⟩
  · refine ⟨none, none, ⟨?_, ?_, by simp, by simp, ?_⟩, ?_⟩
    · intro other
      apply iff_of_false (by simp)
      by_cases isThread : other = thread
      · rw [isThread]
        exact notThread
      · exact order.turn_of_ne moved isThread (by simp [goto, empty]) (by simp)
    · exact fun other => iff_of_false (by simp) (noEntry other)
    · exact fun other isWaking => absurd isWaking (noWaking other)
    · simp [waiting, empty, goto]
  · have firstMem : first ∈ lock.slQueue := by simp [isConcat]
    obtain ⟨site, isAsleep⟩ := queued.asleep first firstMem
    have different : first ≠ thread := by
      rintro rfl
      rw [atPc] at isAsleep
      cases isAsleep
    have unlinked : first ∉ rest := by
      intro inRest
      have nodup := queued.nodup
      rw [isConcat, List.nodup_append] at nodup
      exact nodup.2.2 first inRest first (by simp) rfl
    have woken : ({ lock with slQueue := lock.slQueue.dropLast }.goto thread
        .unlockReturn).HasTurn first := by
      refine Or.inl ⟨⟨site, ?_⟩, ?_⟩
      · rw [moved, Function.update_of_ne different]
        exact isAsleep
      · simpa [goto, isConcat] using unlinked
    refine ⟨some first, none, ⟨?_, ?_, fun _ _ => Or.inl free, by simp, ?_⟩, ?_⟩
    · intro other
      by_cases isFirst : other = first
      · rw [isFirst]
        exact iff_of_true rfl woken
      · apply iff_of_false (by simpa using Ne.symm isFirst)
        by_cases isThread : other = thread
        · rw [isThread]
          exact notThread
        · exact order.turn_of_ne moved isThread (by simp [goto, isConcat, isFirst]) (by simp)
    · exact fun other => iff_of_false (by simp) (noEntry other)
    · exact fun other isWaking => absurd isWaking (noWaking other)
    · simp [waiting, isConcat, goto]

end Inside

theorem FairOrder.exec (order : lock.FairOrder turn last) (invariant : lock.ExclusiveInvariant)
    (exec : lock.Exec (sequenceOps Tid) thread next) :
    lock.Follows turn last [] (grantedBy (lock, .exec thread, next)) next := by
  have quiet : ∀ other, other ≠ thread → (lock.pc other).holds = false :=
    fun other different => invariant.wake.exclusive.holds_of_ne exec different
  cases exec.exclusive (invariant.only thread) invariant.wake.notDraining with
  | queueUp atPc nonempty =>
      simpa [grantedBy, atPc] using order.queueUp quiet atPc nonempty
  | goOn atPc empty =>
      simpa [grantedBy, atPc] using order.goOn quiet atPc empty
  | toTest atPc =>
      have testing : (lock.pc thread).testing = true := by
        rcases atPc with atPc | atPc <;> rw [atPc] <;> rfl
      have notEntry : lock.pc thread ≠ .lockEntry .exclusive := by
        rcases atPc with atPc | atPc <;> simp [atPc]
      have moved : (lock.goto thread (.internalTest .exclusive)).pc =
          Function.update lock.pc thread (.internalTest .exclusive) := rfl
      have follows := order.follows_move moved rfl rfl notEntry (by simp) (by simp)
        (iff_of_true (Or.inr (by simp [SlPc.testing])) (Or.inr testing)) (fun _ => rfl)
      simpa [grantedBy] using follows
  | wait atPc taken =>
      simpa [grantedBy, SharedLock.sleep] using order.wait quiet atPc taken
  | grant atPc free =>
      simpa [grantedBy, atPc] using order.grant quiet atPc
  | unlock atPc =>
      have taken := (invariant.holder thread (invariant.matching thread (Or.inr atPc))).1
      simpa [grantedBy, atPc] using order.unlock quiet atPc taken
  | wakeNext atPc =>
      simpa [grantedBy, atPc] using order.wakeNext invariant.wake.queued quiet atPc
  | leave atPc =>
      have awake : ∀ site, lock.pc thread ≠ .asleep site := exec.awake
      have notTesting : (lock.pc thread).testing = false := by
        rcases atPc with ⟨result, atPc⟩ | atPc <;> rw [atPc] <;> rfl
      have notEntry : lock.pc thread ≠ .lockEntry .exclusive := by
        rcases atPc with ⟨result, atPc⟩ | atPc <;> simp [atPc]
      have moved : (lock.release thread).pc = Function.update lock.pc thread .outside := rfl
      have follows := order.follows_move moved rfl rfl notEntry (by simp) (by simp)
        (iff_of_false (not_hasTurn (by simp [release]) (by simp [release, SlPc.testing]))
          (not_hasTurn awake notTesting)) (fun testing => by simp [notTesting] at testing)
      simpa [grantedBy, release] using follows

theorem FairOrder.step {event : SlEvent Tid} (order : lock.FairOrder turn last)
    (invariant : lock.ExclusiveInvariant) (step : Step (sequenceOps Tid) lock event next)
    (isExclusive : event.ExclusiveCall) (notBarging : lock.NotBarging event) :
    lock.Follows turn last (arrivedBy (lock, event, next)) (grantedBy (lock, event, next))
      next := by
  cases step with
  | @call mover call atPc matching =>
      have moved : (lock.goto mover (.entering call)).pc =
          Function.update lock.pc mover (.entering call) := rfl
      apply order.follows_move moved rfl rfl (by simp [atPc]) (by simp) (by simp)
      · apply iff_of_false
        · exact not_hasTurn (by simp) (by simp [SlPc.testing])
        · exact not_hasTurn (by simp [atPc]) (by simp [atPc, SlPc.testing])
      · simp [atPc, SlPc.testing]
  | @acquire mover call atPc free =>
      have only := invariant.only mover
      rw [atPc] at only
      rcases SlPc.call_of_exclusiveOnly only with rfl | rfl
      · simpa [arrivedBy, grantedBy, atPc] using
          order.arrive invariant.wake.exclusive free atPc notBarging
      · have moved : (lock.acquire mover (.unlockEntry .exclusive)).pc =
            Function.update lock.pc mover (.unlockEntry .exclusive) := rfl
        have follows := order.follows_move moved rfl rfl (by simp [atPc]) (by simp) (by simp)
          (iff_of_false (not_hasTurn (by simp) (by simp [SlPc.testing]))
            (not_hasTurn (by simp [atPc]) (by simp [atPc, SlPc.testing])))
          (by simp [atPc, SlPc.testing])
        simpa [arrivedBy, grantedBy, atPc, SlCall.entry] using follows
  | exec exec => exact order.exec invariant exec
  | @resume mover site atPc mayReturn free =>
      have only := invariant.only mover
      rw [atPc] at only
      have testing : site.resume.testing = true := by
        rcases SlPc.site_of_exclusiveOnly only with rfl | rfl
        · rfl
        · rfl
      have moved : (lock.acquire mover site.resume).pc =
          Function.update lock.pc mover site.resume := rfl
      apply order.follows_move moved rfl rfl (by simp [atPc])
      · rintro isEntry
        simp [isEntry, SlPc.testing] at testing
      · rintro isWaking
        simp [isWaking, SlPc.testing] at testing
      · apply iff_of_true
        · exact Or.inr (by simp [testing])
        · exact Or.inl ⟨⟨site, atPc⟩, mayReturn⟩
      · exact fun _ => testing

end Order

section Run

variable {start final : SharedLock (List Tid) Tid} {trace : List (SlStep Tid)}

/-- Those that have come are those that have been granted, and then those that wait. -/
theorem fairOrder_of_run (run : (exclusiveSystem Tid).Run start trace final)
    (steps : ∀ lock event next, (lock, event, next) ∈ trace → lock.NotBarging event) :
    final.ExclusiveInvariant ∧ ∃ turn last, final.FairOrder turn last ∧
      arrivals trace = grantOrder trace ++ final.waiting turn last := by
  induction run with
  | nil isInit =>
      obtain rfl := isInit
      refine ⟨⟨wakeInvariant_of_reachable (.init rfl), ?_, ?_, ?_⟩, none, none,
        ⟨?_, ?_, by simp, by simp, ?_⟩, rfl⟩
      · simp [initial, SlPc.exclusiveOnly]
      · simp [initial]
      · simp [initial]
      · simp [initial, HasTurn, SlPc.testing]
      · simp [initial]
      · simp [initial]
  | snoc run stepped ih =>
      rename_i lock next event trace
      obtain ⟨invariant, turn, last, order, inOrder⟩ := ih fun lock event next stepMem =>
        steps lock event next (List.mem_append_left _ stepMem)
      obtain ⟨nextTurn, nextLast, nextOrder, waitingEq⟩ :=
        order.step invariant stepped.1 stepped.2 (steps lock event next (by simp))
      refine ⟨invariant.step stepped.1 stepped.2, nextTurn, nextLast, nextOrder, ?_⟩
      rw [arrivals, grantOrder, List.flatMap_append, List.flatMap_append]
      simp only [List.flatMap_cons, List.flatMap_nil, List.append_nil]
      rw [← arrivals, inOrder, List.append_assoc, waitingEq, ← List.append_assoc]
      rfl

/-- Those that waited before anything else came are served first. -/
theorem prefix_of_notMem {α : Type} {waiting later served : List α} {one : α}
    (isPrefix : served ++ [one] <+: waiting ++ later) (notMem : one ∉ waiting) :
    waiting <+: served := by
  have servedPrefix : served <+: waiting ++ later :=
    (List.prefix_append served [one]).trans isPrefix
  have enough : waiting.length ≤ served.length := by
    by_contra fewer
    have inside : served ++ [one] <+: waiting := by
      apply List.prefix_of_prefix_length_le isPrefix (List.prefix_append _ _)
      simp only [List.length_append, List.length_cons, List.length_nil]
      omega
    exact notMem (inside.subset (by simp))
  exact List.prefix_of_prefix_length_le (List.prefix_append _ _) servedPrefix enough

theorem FairOrder.mem_waiting {lock : SharedLock (List Tid) Tid} {turn last : Option Tid}
    (order : lock.FairOrder turn last) {sleeper : Tid} {site : WaitSite}
    (isAsleep : lock.pc sleeper = .asleep site) : sleeper ∈ lock.waiting turn last := by
  by_cases linked : sleeper ∈ lock.slQueue
  · simp [waiting, linked]
  · have isTurn := (order.turnIff sleeper).mpr (Or.inl ⟨⟨site, isAsleep⟩, linked⟩)
    simp [waiting, isTurn]

omit [DecidableEq Tid] in
theorem FairOrder.notMem_waiting {lock : SharedLock (List Tid) Tid} {turn last : Option Tid}
    (order : lock.FairOrder turn last) (queued : lock.Queued) {newcomer : Tid}
    (isOutside : lock.pc newcomer = .outside) : newcomer ∉ lock.waiting turn last := by
  have notTurn : turn ≠ some newcomer := by
    rw [Ne, order.turnIff]
    exact not_hasTurn (by simp [isOutside]) (by simp [isOutside, SlPc.testing])
  have notLast : last ≠ some newcomer := by
    rw [Ne, order.lastIff, isOutside]
    simp
  have unlinked : newcomer ∉ lock.slQueue := queued.notMem (by simp [isOutside])
  simp [waiting, notTurn, notLast, unlinked]

/-- In every run of `sl_lock` and `sl_unlock` with `SL_TYPE_EXCLUSIVE` in which no call overtakes
a woken thread at the spinlock, the lock is granted in the order of the calls. -/
theorem fairGrants_of_run (run : (exclusiveSystem Tid).Run start trace final)
    (steps : ∀ lock event next, (lock, event, next) ∈ trace → lock.NotBarging event) :
    FairGrants trace := by
  constructor
  · obtain ⟨-, turn, last, -, inOrder⟩ := fairOrder_of_run run steps
    rw [inOrder]
    exact List.prefix_append _ _
  · rintro front middle back lock called test granted newcomer sleeper site rfl isAsleep isGrant
    obtain ⟨beforeCall, callStep⟩ := run.cut
    obtain ⟨invariant, turn, last, order, frontOrder⟩ := fairOrder_of_run beforeCall
      fun lock event next stepMem => steps lock event next (List.mem_append_left _ stepMem)
    have isOutside : lock.pc newcomer = .outside := by
      cases callStep.1 with
      | call atPc => exact atPc
    rw [← List.cons_append, ← List.append_assoc] at run steps
    obtain ⟨beforeGrant, grantStep⟩ := run.cut
    obtain ⟨-, testTurn, testLast, -, testOrder⟩ :=
      fairOrder_of_run (beforeGrant.snoc grantStep) fun lock event next stepMem => by
        apply steps lock event next
        rw [List.mem_append] at stepMem ⊢
        exact stepMem.imp_right fun isLast => List.mem_cons.mpr
          (Or.inl (List.mem_singleton.mp isLast))
    have callArrives : arrivedBy (lock, .call newcomer (.lock .exclusive), called) = [] := rfl
    have callGrants : grantedBy (lock, .call newcomer (.lock .exclusive), called) = [] := rfl
    have grantArrives : arrivedBy (test, .exec newcomer, granted) = [] := rfl
    rw [arrivals, grantOrder] at testOrder
    simp only [List.flatMap_append, List.flatMap_cons, List.flatMap_nil, callArrives, callGrants,
      grantArrives, isGrant, List.nil_append, List.append_nil] at testOrder
    change arrivals front ++ arrivals middle =
      grantOrder front ++ grantOrder middle ++ [newcomer] ++ _ at testOrder
    rw [frontOrder, List.append_assoc, List.append_assoc, List.append_assoc,
      List.append_cancel_left_eq, ← List.append_assoc] at testOrder
    have served : lock.waiting turn last <+: grantOrder middle := by
      refine prefix_of_notMem ⟨_, testOrder.symm⟩ ?_
      exact order.notMem_waiting invariant.wake.queued isOutside
    exact served.subset (order.mem_waiting isAsleep)

end Run

section Overtaking

variable {allowed : SharedLock (List Tid) Tid → SlEvent Tid → Prop}

/-- A run to a state, of allowed steps, with the threads that have come and been granted. -/
def Tracked (allowed : SharedLock (List Tid) Tid → SlEvent Tid → Prop)
    (lock : SharedLock (List Tid) Tid) (arrived granted : List Tid) : Prop :=
  ∃ trace, (exclusiveSystem Tid).Run (initial []) trace lock ∧
    (∀ source event target, (source, event, target) ∈ trace → allowed source event) ∧
    arrivals trace = arrived ∧ grantOrder trace = granted

variable {lock next : SharedLock (List Tid) Tid} {arrived granted : List Tid}

theorem Tracked.step {event : SlEvent Tid} (tracked : Tracked allowed lock arrived granted)
    (step : Step (sequenceOps Tid) lock event next) (isExclusive : event.ExclusiveCall)
    (isAllowed : allowed lock event) :
    Tracked allowed next (arrived ++ arrivedBy (lock, event, next))
      (granted ++ grantedBy (lock, event, next)) := by
  obtain ⟨trace, run, steps, isArrived, isGranted⟩ := tracked
  refine ⟨_, run.snoc ⟨step, isExclusive⟩, ?_, ?_, ?_⟩
  · intro source label target stepMem
    rw [List.mem_append, List.mem_singleton] at stepMem
    rcases stepMem with earlier | isLast
    · exact steps source label target earlier
    · cases isLast
      exact isAllowed
  · simp [arrivals, ← isArrived]
  · simp [grantOrder, ← isGranted]

/-- Steps other than taking the spinlock are allowed. -/
def AllowsOthers (allowed : SharedLock (List Tid) Tid → SlEvent Tid → Prop) : Prop :=
  ∀ lock event, (∀ thread, event ≠ .acquire thread) → allowed lock event

variable {thread : Tid}

/-- A statement that does not grant the lock. -/
theorem Tracked.exec (tracked : Tracked allowed lock arrived granted)
    (others : AllowsOthers allowed) (exec : lock.Exec (sequenceOps Tid) thread next)
    (notTest : lock.pc thread ≠ .internalTest .exclusive ∨ next.pc thread ≠ .lockReturn 0) :
    Tracked allowed next arrived granted := by
  have stepped := tracked.step (.exec exec) (by simp [SlEvent.ExclusiveCall])
    (others lock _ (by simp))
  have nobodyComes : arrivedBy (lock, .exec thread, next) = [] := rfl
  have nobodyGranted : grantedBy (lock, .exec thread, next) = [] := by
    simp only [grantedBy]
    rw [if_neg fun both => notTest.elim (absurd both.1) (absurd both.2)]
  rw [nobodyComes, nobodyGranted, List.append_nil, List.append_nil] at stepped
  exact stepped

theorem Tracked.call (tracked : Tracked allowed lock arrived granted)
    (others : AllowsOthers allowed) {call : SlCall}
    (isExclusive : call = .lock .exclusive ∨ call = .unlock .exclusive)
    (atPc : lock.pc thread = .outside)
    (matching : ∀ type, call = .unlock type → 0 < lock.held thread type) :
    Tracked allowed (lock.goto thread (.entering call)) arrived granted := by
  have stepped := tracked.step (.call atPc matching)
    (by
      intro other called isCall
      cases isCall
      exact isExclusive)
    (others lock _ (by simp))
  simpa [arrivedBy, grantedBy] using stepped

variable (thread)

/-- A call of `sl_lock` up to the test of the lock, with nobody in the queue. -/
theorem Tracked.lock_test (tracked : Tracked allowed lock arrived granted)
    (others : AllowsOthers allowed) (atPc : lock.pc thread = .outside)
    (spinlockFree : lock.slLock = none) (notDraining : ¬lock.Draining)
    (empty : lock.slQueue = [])
    (isAllowed : allowed (lock.goto thread (.entering (.lock .exclusive))) (.acquire thread)) :
    Tracked allowed (lock.acquire thread (.internalTest .exclusive)) (arrived ++ [thread])
      granted := by
  have called := tracked.call others (Or.inl rfl) atPc (by simp)
  have acquired := called.step (.acquire (goto_pc ..) spinlockFree)
    (by simp [SlEvent.ExclusiveCall]) isAllowed
  have entry := acquired.exec others (Exec.lockDirect (acquire_pc ..) notDraining
    (by simp [sequenceOps, SharedLock.acquire, goto, empty])) (by simp [SlCall.entry])
  have test := entry.exec others (Exec.internalEnter (goto_pc ..) notDraining) (by simp)
  convert test using 1
  · simp [goto, SharedLock.acquire]
  · simp [arrivedBy]
  · simp [grantedBy]

theorem Tracked.lock_granted (tracked : Tracked allowed lock arrived granted)
    (others : AllowsOthers allowed) (atPc : lock.pc thread = .outside)
    (spinlockFree : lock.slLock = none) (notDraining : ¬lock.Draining)
    (empty : lock.slQueue = []) (free : lock.slNumber = 0)
    (isAllowed : allowed (lock.goto thread (.entering (.lock .exclusive))) (.acquire thread)) :
    Tracked allowed ({ lock with slNumber := -1 }.setHeld thread .exclusive
      (lock.held thread .exclusive + 1)) (arrived ++ [thread]) (granted ++ [thread]) := by
  have test := tracked.lock_test thread others atPc spinlockFree notDraining empty isAllowed
  have grant := test.step (.exec (Exec.exclusiveGrant (acquire_pc ..) (not_not.mpr free)))
    (by simp [SlEvent.ExclusiveCall]) (others _ _ (by simp))
  have returned := grant.exec others (Exec.lockReturn (goto_pc ..)) (by simp)
  have samePc : lock.pc = Function.update lock.pc thread .outside := by
    rw [← atPc, Function.update_eq_self]
  convert returned using 1
  · simp [release, goto, setHeld, SharedLock.acquire, ← samePc, spinlockFree]
  · simp [arrivedBy]
  · simp [grantedBy]

theorem Tracked.lock_asleep (tracked : Tracked allowed lock arrived granted)
    (others : AllowsOthers allowed) (atPc : lock.pc thread = .outside)
    (spinlockFree : lock.slLock = none) (notDraining : ¬lock.Draining)
    (empty : lock.slQueue = []) (taken : lock.slNumber ≠ 0)
    (isAllowed : allowed (lock.goto thread (.entering (.lock .exclusive))) (.acquire thread)) :
    Tracked allowed (lock.sleep thread (.internal .exclusive) [thread]) (arrived ++ [thread])
      granted := by
  have test := tracked.lock_test thread others atPc spinlockFree notDraining empty isAllowed
  have asleep := test.exec others (Exec.internalWait (acquire_pc ..) taken rfl)
    (by simp [SharedLock.sleep])
  convert asleep using 1
  simp [SharedLock.sleep, SharedLock.acquire, empty]

theorem Tracked.unlock (tracked : Tracked allowed lock arrived granted)
    (others : AllowsOthers allowed) (atPc : lock.pc thread = .outside)
    (spinlockFree : lock.slLock = none) (holdsOne : 0 < lock.held thread .exclusive)
    (isAllowed : allowed (lock.goto thread (.entering (.unlock .exclusive))) (.acquire thread)) :
    Tracked allowed ({ lock with slNumber := 0, slQueue := lock.slQueue.dropLast }.setHeld thread
      .exclusive (lock.held thread .exclusive - 1)) arrived granted := by
  have called := tracked.call others (Or.inr rfl) atPc (by rintro type ⟨⟩; exact holdsOne)
  have acquired := called.step (.acquire (goto_pc ..) spinlockFree)
    (by simp [SlEvent.ExclusiveCall]) isAllowed
  have counted := acquired.exec others (Exec.unlockExclusive (acquire_pc ..))
    (by simp [SlCall.entry])
  have woken := counted.exec others (Exec.unlockWake (goto_pc ..) rfl) (by simp)
  have returned := woken.exec others (Exec.unlockReturn (goto_pc ..)) (by simp)
  have samePc : lock.pc = Function.update lock.pc thread .outside := by
    rw [← atPc, Function.update_eq_self]
  convert returned using 1
  · simp [release, goto, setHeld, SharedLock.acquire, ← samePc, spinlockFree]
  · simp [arrivedBy]
  · simp [grantedBy]

end Overtaking

/-- Thread 1 sleeps behind thread 0 and is woken. Before it goes on thread 2 calls `sl_lock`,
and is granted. -/
theorem exists_run_not_fairGrants : ∃ trace final,
    (exclusiveSystem (Fin 3)).Run (initial []) trace final ∧ arrivals trace = [0, 1, 2] ∧
      grantOrder trace = [0, 2] ∧ final.pc 1 = .asleep (.internal .exclusive) ∧
      ¬FairGrants trace := by
  have others : AllowsOthers fun (_ : SharedLock (List (Fin 3)) (Fin 3)) _ => True :=
    fun _ _ _ => trivial
  have start : Tracked (fun _ _ => True) (initial [] : SharedLock (List (Fin 3)) (Fin 3)) [] [] :=
    ⟨[], .nil rfl, by simp, rfl, rfl⟩
  have held := start.lock_granted 0 others rfl rfl (not_draining_of_clear rfl) rfl rfl trivial
  have asleep := held.lock_asleep 1 others rfl rfl (not_draining_of_clear rfl) rfl
    (by simp [setHeld]) trivial
  have woken := asleep.unlock 0 others rfl rfl (by decide) trivial
  have overtaken := woken.lock_granted 2 others rfl rfl (not_draining_of_clear rfl) rfl rfl trivial
  obtain ⟨trace, run, -, isArrived, isGranted⟩ := overtaken
  refine ⟨trace, _, run, isArrived, isGranted, rfl, ?_⟩
  intro fair
  have inOrder := fair.inOrder
  rw [isArrived, isGranted] at inOrder
  revert inOrder
  decide

/-- Thread 1 sleeps behind thread 0, is woken, and is granted before anyone else comes. -/
theorem fairGrants_two_threads : ∃ trace final,
    (exclusiveSystem (Fin 2)).Run (initial []) trace final ∧ arrivals trace = [0, 1] ∧
      grantOrder trace = [0, 1] ∧ FairGrants trace := by
  have others : AllowsOthers
      (NotBarging : SharedLock (List (Fin 2)) (Fin 2) → SlEvent (Fin 2) → Prop) := by
    intro lock event notAcquire thread isAcquire
    exact absurd isAcquire (notAcquire thread)
  have start : Tracked NotBarging (initial [] : SharedLock (List (Fin 2)) (Fin 2)) [] [] :=
    ⟨[], .nil rfl, by simp, rfl, rfl⟩
  have held := start.lock_granted 0 others rfl rfl (not_draining_of_clear rfl) rfl rfl
    (by
      intro thread _ _ _ _ other site
      simp only [goto, Function.update_apply]
      split
      · simp
      · simp [initial])
  have asleep := held.lock_asleep 1 others rfl rfl (not_draining_of_clear rfl) rfl
    (by simp [setHeld]) (by
      intro thread _ _ _ free
      exact absurd free (by decide))
  have woken := asleep.unlock 0 others rfl rfl (by decide) (by
    intro thread isAcquire isLock
    cases isAcquire
    simp at isLock)
  have resumed := woken.step
    (@Step.resume _ _ _ (sequenceOps (Fin 2)) _ 1 (.internal .exclusive) rfl List.not_mem_nil rfl)
    (by simp [SlEvent.ExclusiveCall]) (others _ _ (by simp))
  have test := resumed.exec others (Exec.retest (acquire_pc ..)
    (not_draining_of_clear rfl)) (by simp)
  have granted := test.step (.exec (Exec.exclusiveGrant (goto_pc ..) (not_not.mpr rfl)))
    (by simp [SlEvent.ExclusiveCall]) (others _ _ (by simp))
  obtain ⟨trace, run, steps, isArrived, isGranted⟩ := granted
  refine ⟨trace, _, run, ?_, ?_, fairGrants_of_run run steps⟩
  · rw [isArrived]
    rfl
  · rw [isGranted]
    simp [grantedBy]

end SharedLock

end Rkernel
