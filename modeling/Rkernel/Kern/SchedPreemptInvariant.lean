import Rkernel.Kern.SchedPreempt

/-!
# The invariant of preemption

The invariant has one part for every thread, stated by where the thread is in a call,
and one for every CPU, stated by where the CPU is in `sched_preempt`. A step of one
party leaves the parts of the others alone; what such a step may change is said once
for the parts of threads and once for those of CPUs.

`threadSfPreempt` of a word is changed only by the handler of the CPU the thread belongs
to, and only while the thread does not run there. The other bits are changed only by the
thread itself. So a thread that stores a word it loaded before it was preempted stores
what has been there in between, except for the bit that has been cleared again.
-/

namespace Rkernel

section Bits

variable {flags loaded : BitVec 32}

theorem or_lockSched_ne_zero (flags : BitVec 32) :
    (flags ||| threadSfLockSched) &&& threadSfLockSched ≠ 0 := by
  rw [BitVec.setFlag_and_self]
  decide

theorem and_lockSched_of_and_not_preempt
    (same : flags &&& ~~~threadSfPreempt = loaded &&& ~~~threadSfPreempt) :
    flags &&& threadSfLockSched = loaded &&& threadSfLockSched := by
  have apart : threadSfPreempt &&& threadSfLockSched = 0 := by decide
  rw [← BitVec.clearFlag_and flags apart, same, BitVec.clearFlag_and loaded apart]

end Bits

variable {Tid Wq : Type}

namespace Place

/-- The CPU a thread belongs to. -/
def cpu? : Place Tid → Option ℕ
  | .new => none
  | .handed _ cpu => some cpu
  | .queued cpu => some cpu
  | .onCpu cpu => some cpu
  | .removed cpu => some cpu

/-- The thread has not run yet. -/
def Fresh : Place Tid → Prop
  | .new => True
  | .handed _ _ => True
  | _ => False

end Place

namespace CallPc

/-- The CPU whose scheduler the thread has locked. -/
def holding? : CallPc Tid → Option ℕ
  | .critical _ cpu _ => some cpu
  | .leaving cpu _ _ => some cpu
  | _ => none

end CallPc

namespace PreemptState

/-- What a call relies on about the thread it is given. -/
def CallOk (state : PreemptState Tid Wq) (thread : Tid) (cpu : ℕ) : SchedCall Tid → Prop
  | .insert inserted => state.place inserted = .handed thread cpu
  | .remove => True
  | .actualize actualized => (state.place actualized).cpu? = some cpu

/-- What holds where a thread is in a call. -/
def PcOk (state : PreemptState Tid Wq) (thread : Tid) : CallPc Tid → Prop
  | .outside => True
  | .entered call cpu => state.CallOk thread cpu call
  | .gotCpu call cpu self => state.CallOk thread cpu call ∧ (state.place thread).cpu? = some self
  | .gotMyself call cpu myself => state.CallOk thread cpu call ∧ myself = thread
  | .prepared call cpu myself => state.CallOk thread cpu call ∧ myself = thread
  | .setting call cpu myself loaded =>
      state.CallOk thread cpu call ∧ myself = thread ∧
        state.flags thread &&& ~~~threadSfPreempt = loaded
  | .acquiring call cpu myself =>
      state.CallOk thread cpu call ∧ myself = thread ∧
        state.flags thread &&& threadSfLockSched ≠ 0
  | .critical call cpu myself =>
      state.CallOk thread cpu call ∧ myself = thread ∧
        state.flags thread &&& threadSfLockSched ≠ 0
  | .leaving _ myself _ => myself = thread ∧ state.flags thread &&& threadSfLockSched ≠ 0
  | .unlocked myself _ => myself = thread ∧ state.flags thread &&& threadSfLockSched ≠ 0
  | .clearing myself loaded _ =>
      myself = thread ∧ state.flags thread &&& ~~~threadSfPreempt = loaded
  | .finishing _ => True

/-- The part of the invariant for a thread. -/
structure ThreadOk (state : PreemptState Tid Wq) (thread : Tid) : Prop where
  pc : state.PcOk thread (state.pcs thread)
  lock : ∀ cpu, state.schedLock cpu = some (.thread thread) ↔
    (state.pcs thread).holding? = some cpu
  fresh : (state.place thread).Fresh →
    state.pcs thread = .outside ∧ state.flags thread &&& threadSfPreempt = 0
  currentCpu : ∀ cpu, (state.threads thread).tCurrentCpu = some cpu →
    (state.place thread).cpu? = some cpu

/-- What holds where a CPU is in `sched_preempt`. -/
def HandlerOk (state : PreemptState Tid Wq) (cpu : ℕ) : HandlerPc Tid → Prop
  | .start => True
  | .testing othr => state.cpuCurrentThread cpu = some othr
  | .counting othr =>
      state.cpuCurrentThread cpu = some othr ∧ state.flags othr &&& threadSfLockSched = 0
  | .acquiring othr =>
      state.cpuCurrentThread cpu = some othr ∧ state.flags othr &&& threadSfLockSched = 0
  | .choosing othr =>
      state.schedLock cpu = some (.handler cpu) ∧ state.cpuCurrentThread cpu = some othr
  | .chosen othr nthr =>
      state.schedLock cpu = some (.handler cpu) ∧ state.cpuCurrentThread cpu = some othr ∧
        nthr ≠ othr ∧ state.place nthr = .onCpu cpu
  | .resuming othr nthr loaded =>
      state.schedLock cpu = some (.handler cpu) ∧ state.cpuCurrentThread cpu = some othr ∧
        nthr ≠ othr ∧ state.place nthr = .onCpu cpu ∧ state.flags nthr = loaded
  | .resumed othr nthr =>
      state.schedLock cpu = some (.handler cpu) ∧ state.cpuCurrentThread cpu = some othr ∧
        nthr ≠ othr ∧ state.place nthr = .onCpu cpu ∧
        state.flags nthr &&& threadSfPreempt = 0
  | .switched othr nthr =>
      state.schedLock cpu = some (.handler cpu) ∧ state.cpuCurrentThread cpu = some nthr ∧
        nthr ≠ othr ∧ state.place othr = .onCpu cpu
  | .moved othr =>
      state.schedLock cpu = some (.handler cpu) ∧ state.cpuCurrentThread cpu ≠ some othr ∧
        state.place othr = .onCpu cpu
  | .suspending othr loaded =>
      state.schedLock cpu = some (.handler cpu) ∧ state.cpuCurrentThread cpu ≠ some othr ∧
        state.place othr = .onCpu cpu ∧ state.flags othr = loaded
  | .suspended othr =>
      state.schedLock cpu = some (.handler cpu) ∧ state.cpuCurrentThread cpu ≠ some othr ∧
        state.place othr = .onCpu cpu
  | .unlocking => state.schedLock cpu = some (.handler cpu)

/-- The part of the invariant for a CPU. -/
structure CpuOk (state : PreemptState Tid Wq) (cpu : ℕ) : Prop where
  current : ∀ thread, state.cpuCurrentThread cpu = some thread →
    state.place thread = .onCpu cpu ∧ state.flags thread &&& threadSfPreempt = 0
  idle : ∀ thread, state.schedIdle cpu = some thread → state.place thread = .onCpu cpu
  handler : ∀ pc, state.handlers cpu = some pc → state.HandlerOk cpu pc

/-- The invariant: what it says of every thread and of every CPU. -/
structure PreemptOk (state : PreemptState Tid Wq) : Prop where
  threads : ∀ thread, state.ThreadOk thread
  cpus : ∀ cpu, state.CpuOk cpu

section Frames

/-- What the steps of others leave alone of a thread. -/
structure ThreadFrame (state next : PreemptState Tid Wq) (thread : Tid) : Prop where
  pc : next.pcs thread = state.pcs thread
  flags : next.flags thread &&& ~~~threadSfPreempt = state.flags thread &&& ~~~threadSfPreempt
  home : ∀ other cpu, (state.place other).cpu? = some cpu → (next.place other).cpu? = some cpu
  handed : ∀ other cpu, state.place other = .handed thread cpu →
    next.place other = .handed thread cpu
  fresh : (next.place thread).Fresh → (state.place thread).Fresh ∧
    next.flags thread &&& threadSfPreempt = state.flags thread &&& threadSfPreempt
  lock : ∀ cpu, next.schedLock cpu = some (.thread thread) ↔
    state.schedLock cpu = some (.thread thread)
  currentCpu : ∀ cpu, (next.threads thread).tCurrentCpu = some cpu →
    (state.threads thread).tCurrentCpu = some cpu ∨ (next.place thread).cpu? = some cpu

/-- The CPU runs the thread, may run it, or its handler has it. -/
def Keeps (state : PreemptState Tid Wq) (cpu : ℕ) (thread : Tid) : Prop :=
  state.place thread = .onCpu cpu ∧
    (state.flags thread &&& threadSfPreempt = 0 ∨ state.schedIdle cpu = some thread ∨
      state.schedLock cpu = some (.handler cpu))

/-- What the steps of others leave alone of a CPU. -/
structure CpuFrame (state next : PreemptState Tid Wq) (cpu : ℕ) : Prop where
  current : next.cpuCurrentThread cpu = state.cpuCurrentThread cpu
  idle : next.schedIdle cpu = state.schedIdle cpu
  handler : next.handlers cpu = state.handlers cpu
  lock : state.schedLock cpu = some (.handler cpu) → next.schedLock cpu = some (.handler cpu)
  place : ∀ thread, state.Keeps cpu thread → next.place thread = .onCpu cpu
  preempt : ∀ thread, state.Keeps cpu thread →
    next.flags thread &&& threadSfPreempt = state.flags thread &&& threadSfPreempt
  flags : state.handlers cpu ≠ none → ∀ thread, state.Keeps cpu thread →
    next.flags thread = state.flags thread

variable {state next : PreemptState Tid Wq} {thread : Tid} {cpu : ℕ}

theorem CallOk.frame {call : SchedCall Tid} {target : ℕ} (framed : ThreadFrame state next thread)
    (ok : state.CallOk thread target call) : next.CallOk thread target call := by
  cases call with
  | insert inserted => exact framed.handed inserted target ok
  | remove => trivial
  | actualize actualized => exact framed.home actualized target ok

theorem ThreadFrame.marked (framed : ThreadFrame state next thread)
    (marked : state.flags thread &&& threadSfLockSched ≠ 0) :
    next.flags thread &&& threadSfLockSched ≠ 0 := by
  rw [and_lockSched_of_and_not_preempt framed.flags]
  exact marked

theorem PcOk.frame {pc : CallPc Tid} (framed : ThreadFrame state next thread)
    (ok : state.PcOk thread pc) : next.PcOk thread pc := by
  cases pc with
  | outside => trivial
  | entered call target => exact CallOk.frame framed ok
  | gotCpu call target self => exact ⟨ok.1.frame framed, framed.home thread self ok.2⟩
  | gotMyself call target myself => exact ⟨ok.1.frame framed, ok.2⟩
  | prepared call target myself => exact ⟨ok.1.frame framed, ok.2⟩
  | setting call target myself loaded =>
      exact ⟨ok.1.frame framed, ok.2.1, framed.flags.trans ok.2.2⟩
  | acquiring call target myself =>
      exact ⟨ok.1.frame framed, ok.2.1, framed.marked ok.2.2⟩
  | critical call target myself =>
      exact ⟨ok.1.frame framed, ok.2.1, framed.marked ok.2.2⟩
  | leaving target myself taken => exact ⟨ok.1, framed.marked ok.2⟩
  | unlocked myself taken => exact ⟨ok.1, framed.marked ok.2⟩
  | clearing myself loaded taken => exact ⟨ok.1, framed.flags.trans ok.2⟩
  | finishing taken => trivial

theorem ThreadOk.frame (framed : ThreadFrame state next thread) (ok : state.ThreadOk thread) :
    next.ThreadOk thread where
  pc := by
    rw [framed.pc]
    exact ok.pc.frame framed
  lock target := by
    rw [framed.lock, framed.pc]
    exact ok.lock target
  fresh isFresh := by
    have before := framed.fresh isFresh
    rw [framed.pc, before.2]
    exact ok.fresh before.1
  currentCpu target isCurrent := by
    rcases framed.currentCpu target isCurrent with before | home
    · exact framed.home thread target (ok.currentCpu target before)
    · exact home

theorem CpuOk.keeps_current (ok : state.CpuOk cpu)
    (isCurrent : state.cpuCurrentThread cpu = some thread) : state.Keeps cpu thread :=
  ⟨(ok.current thread isCurrent).1, Or.inl (ok.current thread isCurrent).2⟩

theorem HandlerOk.frame {pc : HandlerPc Tid} (framed : CpuFrame state next cpu)
    (ok : state.CpuOk cpu) (inHandler : state.handlers cpu = some pc) :
    next.HandlerOk cpu pc := by
  have words := framed.flags (by simp [inHandler])
  have before := ok.handler pc inHandler
  have locked {thread : Tid} (lock : state.schedLock cpu = some (.handler cpu))
      (place : state.place thread = .onCpu cpu) : state.Keeps cpu thread :=
    ⟨place, Or.inr (Or.inr lock)⟩
  cases pc with
  | start => trivial
  | testing othr => exact framed.current.trans before
  | counting othr =>
      refine ⟨framed.current.trans before.1, ?_⟩
      rw [words othr (ok.keeps_current before.1)]
      exact before.2
  | acquiring othr =>
      refine ⟨framed.current.trans before.1, ?_⟩
      rw [words othr (ok.keeps_current before.1)]
      exact before.2
  | choosing othr => exact ⟨framed.lock before.1, framed.current.trans before.2⟩
  | chosen othr nthr =>
      rcases before with ⟨lock, current, different, place⟩
      exact ⟨framed.lock lock, framed.current.trans current, different,
        framed.place nthr (locked lock place)⟩
  | resuming othr nthr loaded =>
      rcases before with ⟨lock, current, different, place, isLoaded⟩
      exact ⟨framed.lock lock, framed.current.trans current, different,
        framed.place nthr (locked lock place), (words nthr (locked lock place)).trans isLoaded⟩
  | resumed othr nthr =>
      rcases before with ⟨lock, current, different, place, clear⟩
      exact ⟨framed.lock lock, framed.current.trans current, different,
        framed.place nthr (locked lock place),
        (framed.preempt nthr (locked lock place)).trans clear⟩
  | switched othr nthr =>
      rcases before with ⟨lock, current, different, place⟩
      exact ⟨framed.lock lock, framed.current.trans current, different,
        framed.place othr (locked lock place)⟩
  | moved othr =>
      rcases before with ⟨lock, notCurrent, place⟩
      exact ⟨framed.lock lock, framed.current ▸ notCurrent, framed.place othr (locked lock place)⟩
  | suspending othr loaded =>
      rcases before with ⟨lock, notCurrent, place, isLoaded⟩
      exact ⟨framed.lock lock, framed.current ▸ notCurrent, framed.place othr (locked lock place),
        (words othr (locked lock place)).trans isLoaded⟩
  | suspended othr =>
      rcases before with ⟨lock, notCurrent, place⟩
      exact ⟨framed.lock lock, framed.current ▸ notCurrent, framed.place othr (locked lock place)⟩
  | unlocking => exact framed.lock before

theorem CpuOk.frame (framed : CpuFrame state next cpu) (ok : state.CpuOk cpu) :
    next.CpuOk cpu where
  current thread isCurrent := by
    rw [framed.current] at isCurrent
    have keeps := ok.keeps_current isCurrent
    refine ⟨framed.place thread keeps, ?_⟩
    rw [framed.preempt thread keeps]
    exact (ok.current thread isCurrent).2
  idle thread isIdle := by
    rw [framed.idle] at isIdle
    exact framed.place thread ⟨ok.idle thread isIdle, Or.inr (Or.inl isIdle)⟩
  handler pc inHandler := by
    rw [framed.handler] at inHandler
    exact HandlerOk.frame framed ok inHandler

theorem ThreadFrame.refl (state : PreemptState Tid Wq) (thread : Tid) :
    ThreadFrame state state thread where
  pc := rfl
  flags := rfl
  home _ _ home := home
  handed _ _ isHanded := isHanded
  fresh isFresh := ⟨isFresh, rfl⟩
  lock _ := Iff.rfl
  currentCpu _ isCurrent := Or.inl isCurrent

theorem ThreadFrame.trans {last : PreemptState Tid Wq} (first : ThreadFrame state next thread)
    (second : ThreadFrame next last thread) : ThreadFrame state last thread where
  pc := second.pc.trans first.pc
  flags := second.flags.trans first.flags
  home other target home := second.home other target (first.home other target home)
  handed other target isHanded := second.handed other target (first.handed other target isHanded)
  fresh isFresh := by
    have between := second.fresh isFresh
    have before := first.fresh between.1
    exact ⟨before.1, between.2.trans before.2⟩
  lock target := (second.lock target).trans (first.lock target)
  currentCpu target isCurrent := by
    rcases second.currentCpu target isCurrent with between | home
    · rcases first.currentCpu target between with before | home
      · exact Or.inl before
      · exact Or.inr (second.home thread target home)
    · exact Or.inr home

theorem CpuFrame.refl (state : PreemptState Tid Wq) (cpu : ℕ) : CpuFrame state state cpu where
  current := rfl
  idle := rfl
  handler := rfl
  lock isLocked := isLocked
  place _ keeps := keeps.1
  preempt _ _ := rfl
  flags _ _ _ := rfl

theorem CpuFrame.keeps (framed : CpuFrame state next cpu) (keeps : state.Keeps cpu thread) :
    next.Keeps cpu thread := by
  refine ⟨framed.place thread keeps, ?_⟩
  rw [framed.preempt thread keeps, framed.idle]
  exact keeps.2.imp_right (Or.imp_right framed.lock)

theorem CpuFrame.trans {last : PreemptState Tid Wq} (first : CpuFrame state next cpu)
    (second : CpuFrame next last cpu) : CpuFrame state last cpu where
  current := second.current.trans first.current
  idle := second.idle.trans first.idle
  handler := second.handler.trans first.handler
  lock isLocked := second.lock (first.lock isLocked)
  place thread keeps := second.place thread (first.keeps keeps)
  preempt thread keeps := by
    rw [second.preempt thread (first.keeps keeps), first.preempt thread keeps]
  flags inHandler thread keeps := by
    rw [second.flags (first.handler ▸ inHandler) thread (first.keeps keeps),
      first.flags inHandler thread keeps]

end Frames

section Updates

variable {state next : PreemptState Tid Wq} {thread other : Tid} {cpu target : ℕ}

theorem threadFrame_handle (pc : Option (HandlerPc Tid)) :
    ThreadFrame state (state.handle target pc) thread where
  __ := ThreadFrame.refl state thread

theorem threadFrame_setLock {holder : Option (Holder Tid)}
    (before : state.schedLock target ≠ some (.thread thread))
    (after : holder ≠ some (.thread thread)) :
    ThreadFrame state (state.setLock target holder) thread where
  __ := ThreadFrame.refl state thread
  lock other := by
    by_cases same : other = target
    · subst same
      simp [setLock, before, after]
    · simp [setLock, same]

theorem threadFrame_setCurrentThread :
    ThreadFrame state (state.setCurrentThread target other) thread where
  __ := ThreadFrame.refl state thread

theorem cpuFrame_handle (different : cpu ≠ target) (pc : Option (HandlerPc Tid)) :
    CpuFrame state (state.handle target pc) cpu where
  __ := CpuFrame.refl state cpu
  handler := Function.update_of_ne different _ _

theorem cpuFrame_setLock {holder : Option (Holder Tid)}
    (before : state.schedLock target ≠ some (.handler cpu)) :
    CpuFrame state (state.setLock target holder) cpu where
  __ := CpuFrame.refl state cpu
  lock isLocked := by
    have different : cpu ≠ target := by
      rintro rfl
      exact before isLocked
    simpa [setLock, different] using isLocked

theorem cpuFrame_setCurrentThread (different : cpu ≠ target) :
    CpuFrame state (state.setCurrentThread target other) cpu where
  __ := CpuFrame.refl state cpu
  current := Function.update_of_ne different _ _

variable [DecidableEq Tid]

theorem threadFrame_goto (different : thread ≠ other) (pc : CallPc Tid) :
    ThreadFrame state (state.goto other pc) thread where
  __ := ThreadFrame.refl state thread
  pc := Function.update_of_ne different _ _

theorem threadFrame_storeThread {fields : Thread Wq}
    (sameFlags : thread = other → fields.tStateflags &&& ~~~threadSfPreempt =
      state.flags other &&& ~~~threadSfPreempt)
    (samePreempt : thread = other → (state.place other).Fresh →
      fields.tStateflags &&& threadSfPreempt = state.flags other &&& threadSfPreempt)
    (sameCpu : ∀ cpu, thread = other → fields.tCurrentCpu = some cpu →
      (state.threads other).tCurrentCpu = some cpu ∨ (state.place other).cpu? = some cpu) :
    ThreadFrame state (state.storeThread other fields) thread where
  __ := ThreadFrame.refl state thread
  flags := by
    by_cases same : thread = other
    · subst same
      rw [flags_storeThread_self, sameFlags rfl]
    · rw [state.flags_storeThread_of_ne fields same]
  fresh isFresh := by
    refine ⟨isFresh, ?_⟩
    by_cases same : thread = other
    · subst same
      rw [flags_storeThread_self, samePreempt rfl isFresh]
    · rw [state.flags_storeThread_of_ne fields same]
  currentCpu target isCurrent := by
    by_cases same : thread = other
    · subst same
      apply sameCpu target rfl
      simpa [storeThread] using isCurrent
    · left
      simpa [storeThread, same] using isCurrent

theorem threadFrame_put {place : Place Tid}
    (home : ∀ cpu, (state.place other).cpu? = some cpu → place.cpu? = some cpu)
    (notHanded : ∀ cpu, state.place other ≠ .handed thread cpu)
    (fresh : thread = other → place.Fresh → (state.place other).Fresh) :
    ThreadFrame state (state.put other place) thread where
  __ := ThreadFrame.refl state thread
  home changed target isHome := by
    by_cases same : changed = other
    · subst same
      simpa [put] using home target isHome
    · simpa [put, same] using isHome
  handed changed target isHanded := by
    have different : changed ≠ other := by
      rintro rfl
      exact notHanded target isHanded
    simpa [put, different] using isHanded
  fresh isFresh := by
    refine ⟨?_, rfl⟩
    by_cases same : thread = other
    · subst same
      apply fresh rfl
      simpa [put] using isFresh
    · simpa [put, same] using isFresh
  currentCpu _ isCurrent := Or.inl isCurrent

theorem cpuFrame_goto (pc : CallPc Tid) : CpuFrame state (state.goto other pc) cpu where
  __ := CpuFrame.refl state cpu

theorem cpuFrame_storeThread {fields : Thread Wq}
    (samePreempt : state.Keeps cpu other →
      fields.tStateflags &&& threadSfPreempt = state.flags other &&& threadSfPreempt)
    (sameFlags : state.handlers cpu ≠ none → state.Keeps cpu other →
      fields.tStateflags = state.flags other) :
    CpuFrame state (state.storeThread other fields) cpu where
  __ := CpuFrame.refl state cpu
  preempt thread keeps := by
    by_cases same : thread = other
    · subst same
      rw [flags_storeThread_self, samePreempt keeps]
    · rw [state.flags_storeThread_of_ne fields same]
  flags inHandler thread keeps := by
    by_cases same : thread = other
    · subst same
      rw [flags_storeThread_self, sameFlags inHandler keeps]
    · rw [state.flags_storeThread_of_ne fields same]

theorem cpuFrame_put {place : Place Tid} (notKept : ¬state.Keeps cpu other) :
    CpuFrame state (state.put other place) cpu where
  __ := CpuFrame.refl state cpu
  place thread keeps := by
    have different : thread ≠ other := by
      rintro rfl
      exact notKept keeps
    simpa [put, different] using keeps.1

end Updates

end PreemptState

end Rkernel
