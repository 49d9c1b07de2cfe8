import Rkernel.Kern.Thread
import Rkernel.Lib.Transition

/-!
# The scheduler lock and preemption

`sched_insert`, `sched_remove` and `sched_actualize` mark the calling thread with
`THREAD_SF_LOCK_SCHED` while they hold the lock of a scheduler, and `sched_preempt`
gives up when it has interrupted a marked thread. The mark is set and cleared by a load
and a store, and `sched_preempt` changes `THREAD_SF_PREEMPT` in the same word.

The model has any number of CPUs. A step is one load, one store, one exchange on a lock
or one release; the interrupt comes between any two steps of the thread that runs on a
CPU and its handler runs there to its end, while the other CPUs go on. The rings are
left out: what a critical section does to them is to put a thread on the rings of a
scheduler, to take one off, or to leave it there. `sched_schedule_next` may return null
or any thread on the rings, so nothing depends on how it chooses. The source only ever
returns null (`schedScheduleNext_of_nonempty`) or faults (`schedScheduleNext_of_empty`);
its runs are among those of the model.

`sched_insert` is for new threads, as its comment says, and since nothing is ever returned
by `sched_remove` in the source there are no others to insert. So a thread stays with the
CPU it was inserted on, and it finds itself as the current thread of the CPU it has asked
for, even when it has been preempted in between.
-/

namespace Rkernel

section Code

variable {Tid Wq : Type}

/-- Where a thread is: not inserted yet, on its way into a scheduler, on the rings of a
scheduler, with a CPU that runs it or switches to or from it, or removed. -/
inductive Place (Tid : Type) where
  | new
  | handed (caller : Tid) (cpu : ℕ)
  | queued (cpu : ℕ)
  | onCpu (cpu : ℕ)
  | removed (cpu : ℕ)
  deriving DecidableEq

/-- The calls that hold the lock of a scheduler, with the thread they are for. -/
inductive SchedCall (Tid : Type) where
  | insert (thread : Tid)
  | remove
  | actualize (thread : Tid)

/-- Where a thread is in a call for the scheduler of `cpu`. -/
inductive CallPc (Tid : Type) where
  | outside
  | entered (call : SchedCall Tid) (cpu : ℕ)
  | gotCpu (call : SchedCall Tid) (cpu self : ℕ)
  | gotMyself (call : SchedCall Tid) (cpu : ℕ) (myself : Tid)
  | prepared (call : SchedCall Tid) (cpu : ℕ) (myself : Tid)
  | setting (call : SchedCall Tid) (cpu : ℕ) (myself : Tid) (flags : BitVec 32)
  | acquiring (call : SchedCall Tid) (cpu : ℕ) (myself : Tid)
  | critical (call : SchedCall Tid) (cpu : ℕ) (myself : Tid)
  | leaving (cpu : ℕ) (myself : Tid) (taken : Option Tid)
  | unlocked (myself : Tid) (taken : Option Tid)
  | clearing (myself : Tid) (flags : BitVec 32) (taken : Option Tid)
  | finishing (taken : Option Tid)

/-- Where a CPU is in `sched_preempt`. -/
inductive HandlerPc (Tid : Type) where
  | start
  | testing (othr : Tid)
  | counting (othr : Tid)
  | acquiring (othr : Tid)
  | choosing (othr : Tid)
  | chosen (othr nthr : Tid)
  | resuming (othr nthr : Tid) (flags : BitVec 32)
  | resumed (othr nthr : Tid)
  | switched (othr nthr : Tid)
  | moved (othr : Tid)
  | suspending (othr : Tid) (flags : BitVec 32)
  | suspended (othr : Tid)
  | unlocking

/-- Who holds a scheduler lock. -/
inductive Holder (Tid : Type) where
  | thread (thread : Tid)
  | handler (cpu : ℕ)

/-- The words the functions read and write, with the lock of the scheduler of each CPU, and where
every thread and every CPU is. -/
structure PreemptState (Tid Wq : Type) where
  threads : Tid → Thread Wq
  place : Tid → Place Tid
  cpuCurrentThread : ℕ → Option Tid
  schedIdle : ℕ → Option Tid
  schedLock : ℕ → Option (Holder Tid)
  pcs : Tid → CallPc Tid
  handlers : ℕ → Option (HandlerPc Tid)

/-- One step of the thread that runs on a CPU, the interrupt, or one step of its handler. -/
inductive PreemptLabel where
  | run (cpu : ℕ)
  | interrupt (cpu : ℕ)
  | handle (cpu : ℕ)

namespace PreemptState

variable [DecidableEq Tid]

/-- The thread goes on in its call. -/
def goto (state : PreemptState Tid Wq) (thread : Tid) (pc : CallPc Tid) : PreemptState Tid Wq :=
  { state with pcs := Function.update state.pcs thread pc }

/-- The CPU goes on in its handler, or returns from it. -/
def handle (state : PreemptState Tid Wq) (cpu : ℕ) (pc : Option (HandlerPc Tid)) :
    PreemptState Tid Wq :=
  { state with handlers := Function.update state.handlers cpu pc }

/-- The flags of a thread, as a load sees them. -/
def flags (state : PreemptState Tid Wq) (thread : Tid) : BitVec 32 :=
  (state.threads thread).tStateflags

/-- Store the fields of a thread. -/
def storeThread (state : PreemptState Tid Wq) (thread : Tid) (fields : Thread Wq) :
    PreemptState Tid Wq :=
  { state with threads := Function.update state.threads thread fields }

/-- Store to the word of the flags. -/
def storeFlags (state : PreemptState Tid Wq) (thread : Tid) (flags : BitVec 32) :
    PreemptState Tid Wq :=
  state.storeThread thread { state.threads thread with tStateflags := flags }

/-- Store to `t_current_cpu`. -/
def storeCurrentCpu (state : PreemptState Tid Wq) (thread : Tid) (cpu : Option ℕ) :
    PreemptState Tid Wq :=
  state.storeThread thread { state.threads thread with tCurrentCpu := cpu }

/-- Store to `cpu_current_thread`. -/
def setCurrentThread (state : PreemptState Tid Wq) (cpu : ℕ) (thread : Tid) :
    PreemptState Tid Wq :=
  { state with
    cpuCurrentThread := Function.update state.cpuCurrentThread cpu (some thread) }

/-- The thread comes to another place. -/
def put (state : PreemptState Tid Wq) (thread : Tid) (place : Place Tid) : PreemptState Tid Wq :=
  { state with place := Function.update state.place thread place }

/-- Take or release the lock of a scheduler. -/
def setLock (state : PreemptState Tid Wq) (cpu : ℕ) (holder : Option (Holder Tid)) :
    PreemptState Tid Wq :=
  { state with schedLock := Function.update state.schedLock cpu holder }

/-- `sched_reenqueue` does not queue the idle thread. -/
def reenqueue (state : PreemptState Tid Wq) (cpu : ℕ) (thread : Tid) : PreemptState Tid Wq :=
  if state.schedIdle cpu = some thread then state else state.put thread (.queued cpu)

section Flags

variable (state : PreemptState Tid Wq)

@[simp]
theorem flags_goto (thread : Tid) (pc : CallPc Tid) :
    (state.goto thread pc).flags = state.flags := rfl

@[simp]
theorem flags_put (thread : Tid) (place : Place Tid) :
    (state.put thread place).flags = state.flags := rfl

@[simp]
theorem flags_reenqueue (cpu : ℕ) (thread : Tid) :
    (state.reenqueue cpu thread).flags = state.flags := by
  unfold reenqueue
  split <;> rfl

theorem flags_storeThread_self (thread : Tid) (fields : Thread Wq) :
    (state.storeThread thread fields).flags thread = fields.tStateflags := by
  simp [flags, storeThread]

theorem flags_storeThread_of_ne {stored thread : Tid} (fields : Thread Wq)
    (different : thread ≠ stored) :
    (state.storeThread stored fields).flags thread = state.flags thread := by
  simp [flags, storeThread, different]

theorem flags_storeThread_of_eq {stored : Tid} {fields : Thread Wq}
    (same : fields.tStateflags = state.flags stored) :
    (state.storeThread stored fields).flags = state.flags := by
  funext thread
  by_cases isStored : thread = stored
  · subst isStored
    rw [flags_storeThread_self, same]
  · exact state.flags_storeThread_of_ne fields isStored

@[simp]
theorem flags_storeCurrentCpu (stored : Tid) (cpu : Option ℕ) :
    (state.storeCurrentCpu stored cpu).flags = state.flags :=
  state.flags_storeThread_of_eq rfl

/-- A store of the updated word updates the word of that thread and no other. -/
theorem flags_storeFlags (stored thread : Tid) (update : BitVec 32 → BitVec 32) :
    (state.storeFlags stored (update (state.flags stored))).flags thread =
      if thread = stored then update (state.flags thread) else state.flags thread := by
  split
  · subst thread
    exact state.flags_storeThread_self stored _
  · rename_i different
    exact state.flags_storeThread_of_ne _ different

omit [DecidableEq Tid]

@[simp]
theorem flags_handle (cpu : ℕ) (pc : Option (HandlerPc Tid)) :
    (state.handle cpu pc).flags = state.flags := rfl

@[simp]
theorem flags_setLock (cpu : ℕ) (holder : Option (Holder Tid)) :
    (state.setLock cpu holder).flags = state.flags := rfl

@[simp]
theorem flags_setCurrentThread (cpu : ℕ) (thread : Tid) :
    (state.setCurrentThread cpu thread).flags = state.flags := rfl

end Flags

/-- The thread is the current one of the CPU, which is not in the handler. -/
def Runs (state : PreemptState Tid Wq) (cpu : ℕ) (thread : Tid) : Prop :=
  state.cpuCurrentThread cpu = some thread ∧ state.handlers cpu = none

/-- One step of a thread in one of the calls. Outside of them it may change the priority, the
count of non-preemptible sections and the wait queue of any thread. -/
inductive CallStep (state : PreemptState Tid Wq) (cpu : ℕ) (thread : Tid) :
    PreemptState Tid Wq → Prop where
  | insert {target : ℕ} {inserted : Tid} (isOutside : state.pcs thread = .outside)
      (isNew : state.place inserted = .new) :
      CallStep state cpu thread
        ((state.put inserted (.handed thread target)).goto thread
          (.entered (.insert inserted) target))
  | remove {target : ℕ} (isOutside : state.pcs thread = .outside) :
      CallStep state cpu thread (state.goto thread (.entered .remove target))
  | actualize {target : ℕ} {actualized : Tid} (isOutside : state.pcs thread = .outside)
      (loaded : (state.threads actualized).tCurrentCpu = some target) :
      CallStep state cpu thread (state.goto thread (.entered (.actualize actualized) target))
  | loadCpu {call : SchedCall Tid} {target : ℕ}
      (isEntered : state.pcs thread = .entered call target) :
      CallStep state cpu thread (state.goto thread (.gotCpu call target cpu))
  | loadMyself {call : SchedCall Tid} {target self : ℕ} {myself : Tid}
      (isGotCpu : state.pcs thread = .gotCpu call target self)
      (loaded : state.cpuCurrentThread self = some myself) :
      CallStep state cpu thread (state.goto thread (.gotMyself call target myself))
  | announce {target : ℕ} {inserted myself : Tid}
      (isGotMyself : state.pcs thread = .gotMyself (.insert inserted) target myself) :
      CallStep state cpu thread
        ((state.storeCurrentCpu inserted (some target)).goto thread
          (.prepared (.insert inserted) target myself))
  | prepare {call : SchedCall Tid} {target : ℕ} {myself : Tid}
      (isGotMyself : state.pcs thread = .gotMyself call target myself)
      (noInsert : ∀ inserted, call ≠ .insert inserted) :
      CallStep state cpu thread (state.goto thread (.prepared call target myself))
  | loadSet {call : SchedCall Tid} {target : ℕ} {myself : Tid}
      (isPrepared : state.pcs thread = .prepared call target myself) :
      CallStep state cpu thread
        (state.goto thread (.setting call target myself (state.flags myself)))
  | storeSet {call : SchedCall Tid} {target : ℕ} {myself : Tid} {loaded : BitVec 32}
      (isSetting : state.pcs thread = .setting call target myself loaded) :
      CallStep state cpu thread
        ((state.storeFlags myself (loaded ||| threadSfLockSched)).goto thread
          (.acquiring call target myself))
  | acquire {call : SchedCall Tid} {target : ℕ} {myself : Tid}
      (isAcquiring : state.pcs thread = .acquiring call target myself)
      (free : state.schedLock target = none) :
      CallStep state cpu thread
        ((state.setLock target (some (.thread thread))).goto thread (.critical call target myself))
  | insertBody {target : ℕ} {inserted myself : Tid}
      (isCritical : state.pcs thread = .critical (.insert inserted) target myself) :
      CallStep state cpu thread
        ((state.reenqueue target inserted).goto thread (.leaving target myself none))
  | removeNothing {target : ℕ} {myself : Tid}
      (isCritical : state.pcs thread = .critical .remove target myself) :
      CallStep state cpu thread (state.goto thread (.leaving target myself none))
  | removeBody {target : ℕ} {myself taken : Tid}
      (isCritical : state.pcs thread = .critical .remove target myself)
      (isQueued : state.place taken = .queued target) :
      CallStep state cpu thread
        ((state.put taken (.removed target)).goto thread (.leaving target myself (some taken)))
  | actualizeBody {target : ℕ} {actualized myself : Tid}
      (isCritical : state.pcs thread = .critical (.actualize actualized) target myself)
      (preempted : state.flags actualized &&& threadSfPreempt ≠ 0) :
      CallStep state cpu thread
        ((state.reenqueue target actualized).goto thread (.leaving target myself none))
  | actualizeNothing {target : ℕ} {actualized myself : Tid}
      (isCritical : state.pcs thread = .critical (.actualize actualized) target myself)
      (running : state.flags actualized &&& threadSfPreempt = 0) :
      CallStep state cpu thread (state.goto thread (.leaving target myself none))
  | release {target : ℕ} {myself : Tid} {taken : Option Tid}
      (isLeaving : state.pcs thread = .leaving target myself taken) :
      CallStep state cpu thread
        ((state.setLock target none).goto thread (.unlocked myself taken))
  | loadClear {myself : Tid} {taken : Option Tid}
      (isUnlocked : state.pcs thread = .unlocked myself taken) :
      CallStep state cpu thread
        (state.goto thread (.clearing myself (state.flags myself) taken))
  | storeClear {myself : Tid} {loaded : BitVec 32} {taken : Option Tid}
      (isClearing : state.pcs thread = .clearing myself loaded taken) :
      CallStep state cpu thread
        ((state.storeFlags myself (loaded &&& ~~~threadSfLockSched)).goto thread
          (.finishing taken))
  | finish (isFinishing : state.pcs thread = .finishing none) :
      CallStep state cpu thread (state.goto thread .outside)
  | forget {taken : Tid} (isFinishing : state.pcs thread = .finishing (some taken)) :
      CallStep state cpu thread ((state.storeCurrentCpu taken none).goto thread .outside)
  | other {changed : Tid} {fields : Thread Wq} (isOutside : state.pcs thread = .outside)
      (sameFlags : fields.tStateflags = state.flags changed)
      (sameCpu : fields.tCurrentCpu = (state.threads changed).tCurrentCpu) :
      CallStep state cpu thread (state.storeThread changed fields)

/-- One step of `sched_preempt` on a CPU. -/
inductive HandlerStep (state : PreemptState Tid Wq) (cpu : ℕ) :
    HandlerPc Tid → PreemptState Tid Wq → Prop where
  | load {othr : Tid} (loaded : state.cpuCurrentThread cpu = some othr) :
      HandlerStep state cpu .start (state.handle cpu (some (.testing othr)))
  | marked {othr : Tid} (isMarked : state.flags othr &&& threadSfLockSched ≠ 0) :
      HandlerStep state cpu (.testing othr) (state.handle cpu none)
  | unmarked {othr : Tid} (notMarked : state.flags othr &&& threadSfLockSched = 0) :
      HandlerStep state cpu (.testing othr) (state.handle cpu (some (.counting othr)))
  | nonpreempt {othr : Tid} (counted : (state.threads othr).tNonpreempt ≠ 0) :
      HandlerStep state cpu (.counting othr) (state.handle cpu none)
  | preemptible {othr : Tid} (uncounted : (state.threads othr).tNonpreempt = 0) :
      HandlerStep state cpu (.counting othr) (state.handle cpu (some (.acquiring othr)))
  | acquire {othr : Tid} (free : state.schedLock cpu = none) :
      HandlerStep state cpu (.acquiring othr)
        ((state.setLock cpu (some (.handler cpu))).handle cpu (some (.choosing othr)))
  | chooseQueued {othr nthr : Tid} (isQueued : state.place nthr = .queued cpu) :
      HandlerStep state cpu (.choosing othr)
        ((state.put nthr (.onCpu cpu)).handle cpu (some (.chosen othr nthr)))
  | chooseOld {othr : Tid} (runnable : schedIsSuspended (state.threads othr) = false) :
      HandlerStep state cpu (.choosing othr) (state.handle cpu (some .unlocking))
  | chooseIdle {othr idle : Tid} (suspended : schedIsSuspended (state.threads othr) = true)
      (isIdle : state.schedIdle cpu = some idle) (different : idle ≠ othr) :
      HandlerStep state cpu (.choosing othr) (state.handle cpu (some (.chosen othr idle)))
  | stayIdle {othr : Tid} (suspended : schedIsSuspended (state.threads othr) = true)
      (isIdle : state.schedIdle cpu = some othr) :
      HandlerStep state cpu (.choosing othr) (state.handle cpu (some .unlocking))
  | loadNext {othr nthr : Tid} :
      HandlerStep state cpu (.chosen othr nthr)
        (state.handle cpu (some (.resuming othr nthr (state.flags nthr))))
  | storeNext {othr nthr : Tid} {loaded : BitVec 32} :
      HandlerStep state cpu (.resuming othr nthr loaded)
        ((state.storeFlags nthr (loaded &&& ~~~threadSfPreempt)).handle cpu
          (some (.resumed othr nthr)))
  | setCurrent {othr nthr : Tid} :
      HandlerStep state cpu (.resumed othr nthr)
        ((state.setCurrentThread cpu nthr).handle cpu (some (.switched othr nthr)))
  | move {othr nthr : Tid} :
      HandlerStep state cpu (.switched othr nthr)
        ((state.storeCurrentCpu nthr (some cpu)).handle cpu (some (.moved othr)))
  | loadOld {othr : Tid} :
      HandlerStep state cpu (.moved othr)
        (state.handle cpu (some (.suspending othr (state.flags othr))))
  | storeOld {othr : Tid} {loaded : BitVec 32} :
      HandlerStep state cpu (.suspending othr loaded)
        ((state.storeFlags othr (loaded ||| threadSfPreempt)).handle cpu (some (.suspended othr)))
  | enqueue {othr : Tid} :
      HandlerStep state cpu (.suspended othr)
        ((state.reenqueue cpu othr).handle cpu (some .unlocking))
  | unlock :
      HandlerStep state cpu .unlocking ((state.setLock cpu none).handle cpu none)

/-- One step of a CPU. -/
inductive Step (state : PreemptState Tid Wq) : PreemptLabel → PreemptState Tid Wq → Prop where
  | run {cpu : ℕ} {thread : Tid} {next : PreemptState Tid Wq} (runs : state.Runs cpu thread)
      (step : CallStep state cpu thread next) : Step state (.run cpu) next
  | interrupt {cpu : ℕ} (enabled : state.handlers cpu = none) :
      Step state (.interrupt cpu) (state.handle cpu (some .start))
  | handle {cpu : ℕ} {pc : HandlerPc Tid} {next : PreemptState Tid Wq}
      (inHandler : state.handlers cpu = some pc) (step : HandlerStep state cpu pc next) :
      Step state (.handle cpu) next

/-- Every CPU runs a thread of its own, and nothing is under way. -/
structure Initial (state : PreemptState Tid Wq) : Prop where
  current : ∀ cpu thread, state.cpuCurrentThread cpu = some thread →
    state.place thread = .onCpu cpu ∧ state.flags thread &&& threadSfPreempt = 0
  idle : ∀ cpu thread, state.schedIdle cpu = some thread → state.place thread = .onCpu cpu
  fresh : ∀ thread, state.place thread = .new → state.flags thread &&& threadSfPreempt = 0
  handed : ∀ thread caller cpu, state.place thread ≠ .handed caller cpu
  currentCpu : ∀ thread cpu, (state.threads thread).tCurrentCpu = some cpu →
    state.place thread = .onCpu cpu ∨ state.place thread = .queued cpu
  locks : ∀ cpu, state.schedLock cpu = none
  pcs : ∀ thread, state.pcs thread = .outside
  handlers : ∀ cpu, state.handlers cpu = none

def system (Tid Wq : Type) [DecidableEq Tid] :
    TransitionSystem (PreemptState Tid Wq) PreemptLabel where
  init := Initial
  step := Step

end PreemptState

end Code

end Rkernel
