import Mathlib.Algebra.Group.Nat.Defs
import Rkernel.Kern.Thread

/-!
# The scheduler

The run queues of `kern/kern_sched.c`: 32 run rings with a decaying value each,
and a ring of blocked threads. `schedScheduleNext` is translated statement by
statement, with its restart as recursion on fuel and with a null dereference as
an explicit fault.

`RunQueues` is the abstract view: one sequence of threads per ring. The head of
a ring is zeroed when the scheduler is allocated and nothing stores a payload in
it, so the payload of a head is null in every well-formed scheduler.
-/

namespace Rkernel

/-- Why `sched_schedule_next` does not return. -/
inductive SchedFault where
  | nullDereference
  | outOfFuel
  deriving DecidableEq

/-- Follow a pointer that may be null. -/
def deref {α : Type} : Option α → Except SchedFault α
  | some target => .ok target
  | none => .error .nullDereference

def schedPrios (priority : Fin schedNrqs) : ℤ :=
  (#v[1, 5, 11, 19, 28, 38, 49, 60, 72, 84,
    97, 110, 123, 137, 151, 165, 180, 195,
    210, 225, 240, 256, 272, 288, 304, 320,
    337, 354, 371, 388, 405, 422] : Vector ℤ schedNrqs)[priority]

/-- A scheduler together with the threads and ring nodes it reaches. -/
structure Scheduler (Tid Wq : Type) where
  heap : RingHeap (RingAddr Tid Wq) Tid
  threads : Tid → Thread Wq
  schedRunDecay : Fin schedNrqs → ℤ
  schedIdle : Option Tid
  schedThreadCount : BitVec 32

/-- The decrement of a 32-bit `signed int`. -/
def decayed (value : ℤ) : ℤ :=
  (value - 1).bmod (2 ^ 32)

namespace Scheduler

variable {Tid Wq : Type} [DecidableEq Tid] [DecidableEq Wq]

/-- The macro `sched_runnable`, with the value of `linked_ring_empty` it expands to. -/
def schedRunnable (scheduler : Scheduler Tid Wq) (priority : Fin schedNrqs) : ℤ :=
  linkedRingEmpty scheduler.heap (.schedRunRing priority)

/-- The variables of the loop in `sched_schedule_next`: `mi` is `none` for a negative index. -/
structure Pass where
  decay : Fin schedNrqs → ℤ
  mi : Option (Fin schedNrqs)
  mdecay : ℤ

def passBody (scheduler : Scheduler Tid Wq) (pass : Pass) (i : Fin schedNrqs) : Pass :=
  if scheduler.schedRunnable i = 0 then
    { pass with decay := Function.update pass.decay i (schedPrios i) }
  else
    let value := decayed (pass.decay i)
    let pass := { pass with decay := Function.update pass.decay i value }
    if pass.mi = none ∨ value < pass.mdecay then
      { pass with mi := some i, mdecay := value }
    else
      pass

def pass (scheduler : Scheduler Tid Wq) : Pass :=
  (List.finRange schedNrqs).foldl scheduler.passBody
    { decay := scheduler.schedRunDecay, mi := none, mdecay := 0 }

/-- `sched_elem`: the queue entry of a thread, with its payload set. -/
def schedElem (heap : RingHeap (RingAddr Tid Wq) Tid) (thread : Tid) :
    RingHeap (RingAddr Tid Wq) Tid :=
  heap.setData (.tQueueEntry thread) thread

def schedScheduleNext :
    ℕ → Scheduler Tid Wq → Except SchedFault (Option Tid × Scheduler Tid Wq)
  | 0, _ => .error .outOfFuel
  | fuel + 1, scheduler => do
      let pass := scheduler.pass
      let scheduler := { scheduler with schedRunDecay := pass.decay }
      match pass.mi with
      | none => return (none, scheduler)
      | some mi =>
          let scheduler := { scheduler with
            schedRunDecay := Function.update scheduler.schedRunDecay mi (schedPrios mi) }
          let elem ← deref (scheduler.heap (.schedRunRing mi)).prev
          let heap ← deref (linkedRingRemove scheduler.heap elem)
          let current ← deref (heap elem).data
          if schedIsSuspended (scheduler.threads current) then
            let heap ← deref (linkedRingInsert (schedElem heap current) .schedBlocked
              (.tQueueEntry current) false)
            schedScheduleNext fuel { scheduler with heap := heap }
          else
            return (some current, { scheduler with heap := heap })

section Pass

variable {scheduler : Scheduler Tid Wq} {start : Pass} {priorities : List (Fin schedNrqs)}

theorem foldl_passBody_mi_of_zero
    (allZero : ∀ i ∈ priorities, scheduler.schedRunnable i = 0) :
    (priorities.foldl scheduler.passBody start).mi = start.mi := by
  induction priorities generalizing start with
  | nil => rfl
  | cons i priorities ih =>
      simp only [List.mem_cons, forall_eq_or_imp] at allZero
      rw [List.foldl_cons, ih allZero.2]
      simp [passBody, allZero.1]

theorem foldl_passBody_mi_runnable
    (startRunnable : ∀ mi, start.mi = some mi → scheduler.schedRunnable mi ≠ 0) {mi : Fin schedNrqs}
    (chosen : (priorities.foldl scheduler.passBody start).mi = some mi) :
    scheduler.schedRunnable mi ≠ 0 := by
  induction priorities generalizing start with
  | nil => exact startRunnable mi chosen
  | cons i priorities ih =>
      rw [List.foldl_cons] at chosen
      refine ih ?_ chosen
      intro other isOther
      by_cases isZero : scheduler.schedRunnable i = 0
      · simp only [passBody, isZero, if_true] at isOther
        exact startRunnable other isOther
      · simp only [passBody, isZero, if_false] at isOther
        split at isOther
        · simp only [Option.some.injEq] at isOther
          subst other
          exact isZero
        · exact startRunnable other isOther

theorem foldl_passBody_mi_ne_none
    (found : start.mi ≠ none ∨ ∃ i ∈ priorities, scheduler.schedRunnable i ≠ 0) :
    (priorities.foldl scheduler.passBody start).mi ≠ none := by
  induction priorities generalizing start with
  | nil => simpa using found
  | cons i priorities ih =>
      rw [List.foldl_cons]
      apply ih
      by_cases isZero : scheduler.schedRunnable i = 0
      · simp only [passBody, isZero, if_true]
        rcases found with started | ⟨other, otherMem, nonzero⟩
        · exact Or.inl started
        · simp only [List.mem_cons] at otherMem
          rcases otherMem with rfl | otherMem
          · exact absurd isZero nonzero
          · exact Or.inr ⟨other, otherMem, nonzero⟩
      · left
        simp only [passBody, isZero, if_false]
        split
        · simp
        · rename_i kept
          rw [not_or] at kept
          exact kept.1

end Pass

end Scheduler

/-- The contents of the rings of a scheduler, each from its head's `next` to its `prev`. -/
structure RunQueues (Tid : Type) where
  run : Fin schedNrqs → List Tid
  blocked : List Tid

namespace RunQueues

variable {Tid Wq : Type}

/-- The ring head that keeps each sequence; `none` stands for `sched_blocked`. -/
def head (Tid Wq : Type) : Option (Fin schedNrqs) → RingAddr Tid Wq
  | some priority => .schedRunRing priority
  | none => .schedBlocked

theorem head_injective (Tid Wq : Type) : Function.Injective (head Tid Wq) := by
  intro key other same
  cases key <;> cases other <;> simp_all [head]

def entries (Wq : Type) (queues : RunQueues Tid) : Option (Fin schedNrqs) → List (RingAddr Tid Wq)
  | some priority => (queues.run priority).map .tQueueEntry
  | none => queues.blocked.map .tQueueEntry

end RunQueues

namespace Scheduler

variable {Tid Wq : Type}

/-- The rings of the scheduler are well formed and hold `queues`. -/
structure Represents (scheduler : Scheduler Tid Wq) (queues : RunQueues Tid) : Prop where
  rings : scheduler.heap.Rings (RunQueues.head Tid Wq) (queues.entries Wq)
  entryData : ∀ key, ∀ thread, .tQueueEntry thread ∈ queues.entries Wq key →
    (scheduler.heap (.tQueueEntry thread)).data = some thread
  headData : ∀ priority, (scheduler.heap (.schedRunRing priority)).data = none

/-- The non-empty run ring with the least decremented decay value, lowest index first. -/
def Picks (decay : Fin schedNrqs → ℤ) (queues : RunQueues Tid) (mi : Fin schedNrqs) : Prop :=
  queues.run mi ≠ [] ∧ ∀ i, queues.run i ≠ [] →
    decayed (decay mi) ≤ decayed (decay i) ∧ (i < mi → decayed (decay mi) < decayed (decay i))

/-- What choosing the next thread is meant to do to the queues: suspended threads met at the
tail of the chosen ring move to the blocked ring, and the first other one is taken out. -/
inductive Schedules (suspended : Tid → Prop) :
    (Fin schedNrqs → ℤ) → RunQueues Tid → Option Tid → (Fin schedNrqs → ℤ) → RunQueues Tid → Prop
    where
  | none {decay decay' : Fin schedNrqs → ℤ} {queues : RunQueues Tid}
      (noneRunnable : ∀ i, ∀ thread ∈ queues.run i, suspended thread) :
      Schedules suspended decay queues none decay' queues
  | take {decay decay' : Fin schedNrqs → ℤ} {queues : RunQueues Tid} {mi : Fin schedNrqs}
      {front : List Tid} {thread : Tid} (picks : Picks decay queues mi)
      (tail : queues.run mi = front ++ [thread]) (runnable : ¬suspended thread)
      (reset : decay' mi = schedPrios mi) :
      Schedules suspended decay queues (some thread) decay'
        { queues with run := Function.update queues.run mi front }
  | block {decay middle decay' : Fin schedNrqs → ℤ} {queues queues' : RunQueues Tid}
      {mi : Fin schedNrqs} {front left right : List Tid} {thread : Tid} {result : Option Tid}
      (picks : Picks decay queues mi) (tail : queues.run mi = front ++ [thread])
      (isSuspended : suspended thread) (reset : middle mi = schedPrios mi)
      (kept : ∀ i, i ≠ mi → queues.run i ≠ [] → middle i = decayed (decay i))
      (place : queues.blocked = left ++ right)
      (rest : Schedules suspended middle
        { run := Function.update queues.run mi front, blocked := left ++ thread :: right }
        result decay' queues') :
      Schedules suspended decay queues result decay' queues'

variable [DecidableEq Tid] [DecidableEq Wq]

/-- `sched_schedule_next` returns, without a null dereference, what it is meant to return. -/
def SchedulesCorrectly (scheduler : Scheduler Tid Wq) (queues : RunQueues Tid) : Prop :=
  ∃ fuel result scheduler' queues',
    schedScheduleNext fuel scheduler = .ok (result, scheduler') ∧
    scheduler'.Represents queues' ∧
    (result = none ↔
      ∀ i, ∀ thread ∈ queues.run i, schedIsSuspended (scheduler.threads thread) = true) ∧
    Schedules (fun thread => schedIsSuspended (scheduler.threads thread) = true)
      scheduler.schedRunDecay queues result scheduler'.schedRunDecay queues'

variable {scheduler : Scheduler Tid Wq} {queues : RunQueues Tid}

theorem Represents.schedRunnable_eq_zero_iff (represents : scheduler.Represents queues)
    (i : Fin schedNrqs) : scheduler.schedRunnable i = 0 ↔ queues.run i ≠ [] := by
  have ring := represents.rings.isRing (some i)
  have emptyIff := linkedRingEmpty_eq_zero_iff ring
  simpa [schedRunnable, RunQueues.head, RunQueues.entries] using emptyIff

/-- With an empty run ring the loop settles on an empty ring, whose head carries no thread. -/
theorem schedScheduleNext_of_empty (represents : scheduler.Represents queues)
    {i : Fin schedNrqs} (isEmpty : queues.run i = []) (fuel : ℕ) :
    schedScheduleNext (fuel + 1) scheduler = .error .nullDereference := by
  have someChosen : scheduler.pass.mi ≠ none := by
    apply foldl_passBody_mi_ne_none
    refine Or.inr ⟨i, List.mem_finRange i, ?_⟩
    rw [Ne, represents.schedRunnable_eq_zero_iff]
    simpa using isEmpty
  rcases Option.ne_none_iff_exists'.mp someChosen with ⟨mi, chosen⟩
  have miEmpty : queues.run mi = [] := by
    have nonzero : scheduler.schedRunnable mi ≠ 0 :=
      foldl_passBody_mi_runnable (by simp) chosen
    rw [Ne, represents.schedRunnable_eq_zero_iff] at nonzero
    simpa using nonzero
  have ring : scheduler.heap.IsRing (.schedRunRing mi) [] := by
    simpa [RunQueues.head, RunQueues.entries, miEmpty] using represents.rings.isRing (some mi)
  have prev := ring.prev_head
  rw [List.getLastD_nil] at prev
  have removed := linkedRingRemove_head ring
  have noData := represents.headData mi
  simp [schedScheduleNext, chosen, prev, removed, noData, deref, Bind.bind, Except.bind]

/-- With threads on every run ring the loop chooses nothing and resets every decay value. -/
theorem schedScheduleNext_of_nonempty (represents : scheduler.Represents queues)
    (nonempty : ∀ i, queues.run i ≠ []) (fuel : ℕ) :
    schedScheduleNext (fuel + 1) scheduler =
      .ok (none, { scheduler with schedRunDecay := scheduler.pass.decay }) := by
  have noneChosen : scheduler.pass.mi = none := by
    apply foldl_passBody_mi_of_zero
    intro i _
    rw [represents.schedRunnable_eq_zero_iff]
    exact nonempty i
  simp [schedScheduleNext, noneChosen, Pure.pure, Except.pure]

theorem not_schedulesCorrectly_of_empty (represents : scheduler.Represents queues)
    {i : Fin schedNrqs} (isEmpty : queues.run i = []) :
    ¬scheduler.SchedulesCorrectly queues := by
  rintro ⟨fuel, result, scheduler', queues', returns, -⟩
  cases fuel with
  | zero => simp [schedScheduleNext] at returns
  | succ fuel =>
      rw [schedScheduleNext_of_empty represents isEmpty] at returns
      cases returns

/-- `sched_runnable` tests for an empty ring where a non-empty one is meant, so the function is
right only where it has nothing to choose and finds no empty ring to stumble over. -/
theorem schedulesCorrectly_iff (represents : scheduler.Represents queues) :
    scheduler.SchedulesCorrectly queues ↔
      (∀ i, queues.run i ≠ []) ∧
        ∀ i, ∀ thread ∈ queues.run i, schedIsSuspended (scheduler.threads thread) = true := by
  constructor
  · intro correct
    have nonempty : ∀ i, queues.run i ≠ [] := by
      intro i isEmpty
      exact not_schedulesCorrectly_of_empty represents isEmpty correct
    refine ⟨nonempty, ?_⟩
    rcases correct with ⟨fuel, result, scheduler', queues', returns, -, noneIff, -⟩
    cases fuel with
    | zero => simp [schedScheduleNext] at returns
    | succ fuel =>
        rw [schedScheduleNext_of_nonempty represents nonempty] at returns
        cases returns
        exact noneIff.mp rfl
  · rintro ⟨nonempty, allSuspended⟩
    refine ⟨1, none, _, queues, schedScheduleNext_of_nonempty represents nonempty 0, ?_, ?_, ?_⟩
    · exact ⟨represents.rings, represents.entryData, represents.headData⟩
    · exact iff_of_true rfl allSuspended
    · exact Schedules.none allSuspended

/-- A scheduler with one runnable thread, which waits on the run ring of its priority. -/
def lone : Scheduler Unit Unit where
  heap
    | .schedRunRing i =>
        if i = 16 then ⟨some (.tQueueEntry ()), some (.tQueueEntry ()), none⟩
        else ⟨some (.schedRunRing i), some (.schedRunRing i), none⟩
    | .tQueueEntry thread => ⟨some (.schedRunRing 16), some (.schedRunRing 16), some thread⟩
    | addr => ⟨some addr, some addr, none⟩
  threads _ := threadTemplate Unit
  schedRunDecay := schedPrios
  schedIdle := none
  schedThreadCount := 2

def loneQueues : RunQueues Unit where
  run i := if i = 16 then [()] else []
  blocked := []

theorem lone_represents : lone.Represents loneQueues := by
  refine ⟨⟨?_, ?_⟩, ?_, ?_⟩
  · intro key
    rcases key with _ | i
    · exact ⟨⟨rfl, rfl⟩, by simp [RunQueues.entries, loneQueues]⟩
    · by_cases isPriority : i = 16
      · subst i
        exact ⟨⟨⟨rfl, rfl⟩, rfl, rfl⟩, by simp [RunQueues.entries, loneQueues, RunQueues.head]⟩
      · constructor
        · simp [RunQueues.entries, loneQueues, RunQueues.head, isPriority, RingHeap.Segment,
            RingHeap.Link, lone]
        · simp [RunQueues.entries, loneQueues, isPriority]
  · intro key other different
    rcases key with _ | i <;> rcases other with _ | j
    · exact absurd rfl different
    · by_cases jPriority : j = 16 <;>
        simp [RunQueues.entries, loneQueues, RunQueues.head, jPriority]
    · by_cases iPriority : i = 16 <;>
        simp [RunQueues.entries, loneQueues, RunQueues.head, iPriority]
    · have apart : i ≠ j := fun same => different (congrArg some same)
      have apartSymm : j ≠ i := Ne.symm apart
      by_cases iPriority : i = 16 <;> by_cases jPriority : j = 16 <;>
        simp_all [RunQueues.entries, loneQueues, RunQueues.head]
  · intro key thread _
    rfl
  · intro i
    by_cases isPriority : i = 16 <;> simp [lone, isPriority]

/-- The one runnable thread is not found. -/
theorem lone_not_schedulesCorrectly :
    lone.Represents loneQueues ∧ ¬lone.SchedulesCorrectly loneQueues :=
  ⟨lone_represents, not_schedulesCorrectly_of_empty (i := 0) lone_represents rfl⟩

/-- A scheduler with one suspended thread on every run ring. -/
def crowded : Scheduler (Fin schedNrqs) Unit where
  heap
    | .schedRunRing i => ⟨some (.tQueueEntry i), some (.tQueueEntry i), none⟩
    | .tQueueEntry i => ⟨some (.schedRunRing i), some (.schedRunRing i), some i⟩
    | addr => ⟨some addr, some addr, none⟩
  threads _ := { threadTemplate Unit with tStateflags := threadSfQueueWait, tWaitQueue := some () }
  schedRunDecay := schedPrios
  schedIdle := none
  schedThreadCount := 33

def crowdedQueues : RunQueues (Fin schedNrqs) where
  run i := [i]
  blocked := []

theorem crowded_represents : crowded.Represents crowdedQueues := by
  refine ⟨⟨?_, ?_⟩, ?_, ?_⟩
  · intro key
    rcases key with _ | i
    · exact ⟨⟨rfl, rfl⟩, by simp [RunQueues.entries, crowdedQueues]⟩
    · exact ⟨⟨⟨rfl, rfl⟩, rfl, rfl⟩, by simp [RunQueues.entries, crowdedQueues, RunQueues.head]⟩
  · intro key other different
    rcases key with _ | i <;> rcases other with _ | j <;>
      simp_all [RunQueues.entries, crowdedQueues, RunQueues.head, eq_comm]
  · intro key thread _
    rfl
  · intro i
    rfl

theorem crowded_schedulesCorrectly :
    crowded.Represents crowdedQueues ∧ crowded.SchedulesCorrectly crowdedQueues :=
  ⟨crowded_represents, (schedulesCorrectly_iff crowded_represents).mpr
    ⟨fun _ isEmpty => List.cons_ne_nil _ _ isEmpty,
      fun _ _ _ => by simp [schedIsSuspended, crowded, threadSfQueueWait]⟩⟩

end Scheduler

end Rkernel
