import Rkernel.Kern.SchedPreemptInvariant

/-!
# No deadlock on the scheduler lock, no lost flag

Every step of a thread and every step of a handler keeps the invariant. While a handler
tries to get a scheduler lock the thread it interrupted is not marked, so it does not
hold one; and what a step stores in `t_stateflags` is its update of the word that is
there at that moment, so the word is always the result of all the updates made so far.
-/

namespace Rkernel

variable {Tid Wq : Type}

namespace PreemptState

section Calls

variable {state next : PreemptState Tid Wq} {thread : Tid} {cpu : ℕ}

theorem PreemptOk.frame (ok : state.PreemptOk) (threads : ∀ thread, ThreadFrame state next thread)
    (cpus : ∀ cpu, CpuFrame state next cpu) : next.PreemptOk where
  threads thread := (ok.threads thread).frame (threads thread)
  cpus cpu := (ok.cpus cpu).frame (cpus cpu)

theorem PreemptOk.keeps_of_runs (ok : state.PreemptOk) (runs : state.Runs cpu thread) :
    state.Keeps cpu thread :=
  (ok.cpus cpu).keeps_current runs.1

theorem PreemptOk.place_of_runs (ok : state.PreemptOk) (runs : state.Runs cpu thread) :
    state.place thread = .onCpu cpu :=
  (ok.keeps_of_runs runs).1

theorem PreemptOk.clear_of_runs (ok : state.PreemptOk) (runs : state.Runs cpu thread) :
    state.flags thread &&& threadSfPreempt = 0 :=
  ((ok.cpus cpu).current thread runs.1).2

/-- A thread that is off its CPU or has not run yet is kept by no CPU. -/
theorem not_keeps_of_place {moved : Tid} (notOn : ∀ cpu, state.place moved ≠ .onCpu cpu)
    (target : ℕ) : ¬state.Keeps target moved :=
  fun keeps => notOn target keeps.1

/-- With the scheduler locked by a thread, no CPU keeps a preempted thread of that scheduler
except the idle thread. -/
theorem not_keeps_of_preempted {target : ℕ} {moved : Tid}
    (locked : state.schedLock target = some (.thread thread))
    (home : (state.place moved).cpu? = some target)
    (preempted : state.flags moved &&& threadSfPreempt ≠ 0)
    (notIdle : state.schedIdle target ≠ some moved) (other : ℕ) : ¬state.Keeps other moved := by
  rintro ⟨place, clear | isIdle | byHandler⟩
  · exact preempted clear
  · simp only [place, Place.cpu?, Option.some.injEq] at home
    exact notIdle (home ▸ isIdle)
  · simp only [place, Place.cpu?, Option.some.injEq] at home
    simp [home, locked] at byHandler

variable [DecidableEq Tid]

theorem pcOk_goto {other : Tid} {pc pc' : CallPc Tid} (ok : state.PcOk thread pc) :
    (state.goto other pc').PcOk thread pc := by
  cases pc <;> exact ok

/-- A step of a running thread that leaves the others alone keeps the invariant if the thread
itself is all right where it is now. -/
theorem PreemptOk.goto (ok : state.PreemptOk) (runs : state.Runs cpu thread) {pc : CallPc Tid}
    (threads : ∀ other, other ≠ thread → ThreadFrame state next other)
    (cpus : ∀ cpu, CpuFrame state next cpu)
    (pcOk : next.PcOk thread pc)
    (lock : ∀ cpu, next.schedLock cpu = some (.thread thread) ↔ pc.holding? = some cpu)
    (currentCpu : ∀ cpu, (next.threads thread).tCurrentCpu = some cpu →
      (state.threads thread).tCurrentCpu = some cpu) :
    (next.goto thread pc).PreemptOk where
  threads other := by
    have place : next.place thread = .onCpu cpu := (cpus cpu).place thread (ok.keeps_of_runs runs)
    by_cases same : other = thread
    · subst same
      constructor
      · simpa [goto] using pcOk_goto pcOk
      · intro target
        simpa [goto] using lock target
      · intro isFresh
        rw [show (next.goto other pc).place other = .onCpu cpu from place] at isFresh
        exact isFresh.elim
      · intro target isCurrent
        have home := (ok.threads other).currentCpu target (currentCpu target isCurrent)
        rw [ok.place_of_runs runs] at home
        rw [show (next.goto other pc).place other = .onCpu cpu from place]
        exact home
    · exact (ok.threads other).frame ((threads other same).trans (threadFrame_goto same pc))
  cpus target := (ok.cpus target).frame ((cpus target).trans (cpuFrame_goto pc))

/-- The same for a step that only moves on in the call. -/
theorem PreemptOk.goto_self (ok : state.PreemptOk) (runs : state.Runs cpu thread)
    {pc : CallPc Tid} (pcOk : state.PcOk thread pc)
    (sameLock : pc.holding? = (state.pcs thread).holding?) :
    (state.goto thread pc).PreemptOk := by
  apply ok.goto runs
  · intro other _
    exact ThreadFrame.refl state other
  · intro target
    exact CpuFrame.refl state target
  · exact pcOk
  · intro target
    rw [sameLock]
    exact (ok.threads thread).lock target
  · exact fun _ isCurrent => isCurrent

/-- A running thread may store any word to its own flags that leaves the preemption bit clear. -/
theorem PreemptOk.goto_storeFlags (ok : state.PreemptOk) (runs : state.Runs cpu thread)
    {pc : CallPc Tid} {flags : BitVec 32} (clear : flags &&& threadSfPreempt = 0)
    (pcOk : (state.storeFlags thread flags).PcOk thread pc)
    (sameLock : pc.holding? = (state.pcs thread).holding?) :
    ((state.storeFlags thread flags).goto thread pc).PreemptOk := by
  apply ok.goto runs
  · intro other different
    apply threadFrame_storeThread
    · exact fun same => absurd same different
    · exact fun same => absurd same different
    · exact fun _ same => absurd same different
  · intro target
    apply cpuFrame_storeThread
    · intro _
      rw [ok.clear_of_runs runs]
      exact clear
    · intro inHandler keeps
      have sameCpu : cpu = target := by
        simpa [ok.place_of_runs runs] using keeps.1
      exact absurd runs.2 (sameCpu ▸ inHandler)
  · exact pcOk
  · intro target
    rw [sameLock]
    exact (ok.threads thread).lock target
  · intro target isCurrent
    simpa [storeFlags, storeThread] using isCurrent

/-- A running thread may put a thread that no CPU keeps somewhere else with its CPU. -/
theorem PreemptOk.goto_put (ok : state.PreemptOk) (runs : state.Runs cpu thread)
    {pc : CallPc Tid} {moved : Tid} {place : Place Tid}
    (home : ∀ cpu, (state.place moved).cpu? = some cpu → place.cpu? = some cpu)
    (notHanded : ∀ other cpu, other ≠ thread → state.place moved ≠ .handed other cpu)
    (fresh : place.Fresh → (state.place moved).Fresh)
    (notKept : ∀ cpu, ¬state.Keeps cpu moved)
    (pcOk : (state.put moved place).PcOk thread pc)
    (sameLock : pc.holding? = (state.pcs thread).holding?) :
    ((state.put moved place).goto thread pc).PreemptOk := by
  apply ok.goto runs
  · intro other different
    exact threadFrame_put home (fun cpu => notHanded other cpu different) fun _ => fresh
  · intro target
    exact cpuFrame_put (notKept target)
  · exact pcOk
  · intro target
    rw [sameLock]
    exact (ok.threads thread).lock target
  · exact fun _ isCurrent => isCurrent

theorem PreemptOk.goto_storeCurrentCpu (ok : state.PreemptOk) (runs : state.Runs cpu thread)
    {pc : CallPc Tid} {stored : Tid} {target : Option ℕ}
    (home : ∀ cpu, target = some cpu → (state.place stored).cpu? = some cpu)
    (pcOk : (state.storeCurrentCpu stored target).PcOk thread pc)
    (sameLock : pc.holding? = (state.pcs thread).holding?)
    (notOther : target ≠ none → stored ≠ thread) :
    ((state.storeCurrentCpu stored target).goto thread pc).PreemptOk := by
  apply ok.goto runs
  · intro other _
    apply threadFrame_storeThread
    · exact fun _ => rfl
    · exact fun _ _ => rfl
    · exact fun cpu _ isCurrent => Or.inr (home cpu isCurrent)
  · intro other
    apply cpuFrame_storeThread
    · exact fun _ => rfl
    · exact fun _ _ => rfl
  · exact pcOk
  · intro other
    rw [sameLock]
    exact (ok.threads thread).lock other
  · intro other isCurrent
    by_cases same : thread = stored
    · subst same
      have isNone : target = none := by
        by_contra isSome
        exact notOther isSome rfl
      simp [storeCurrentCpu, storeThread, isNone] at isCurrent
    · simpa [storeCurrentCpu, storeThread, same] using isCurrent

/-- A running thread may take a free lock and release one that it holds. -/
theorem PreemptOk.goto_setLock (ok : state.PreemptOk) (runs : state.Runs cpu thread)
    {pc : CallPc Tid} {target : ℕ} {holder : Option (Holder Tid)}
    (before : state.schedLock target = none ∨
      state.schedLock target = some (.thread thread))
    (after : ∀ other, holder = some (.thread other) → other = thread)
    (pcOk : (state.setLock target holder).PcOk thread pc)
    (holds : holder = some (.thread thread) ↔ pc.holding? = some target)
    (elsewhere : ∀ other, other ≠ target →
      (pc.holding? = some other ↔ (state.pcs thread).holding? = some other)) :
    ((state.setLock target holder).goto thread pc).PreemptOk := by
  apply ok.goto runs
  · intro other different
    apply threadFrame_setLock
    · rcases before with free | locked
      · simp [free]
      · simpa [locked] using different.symm
    · exact fun isHolder => different (after other isHolder)
  · intro other
    apply cpuFrame_setLock
    rcases before with free | locked
    · simp [free]
    · simp [locked]
  · exact pcOk
  · intro other
    by_cases same : other = target
    · subst same
      simpa [setLock] using holds
    · rw [elsewhere other same, ← (ok.threads thread).lock other]
      simp [setLock, same]
  · exact fun _ isCurrent => isCurrent

/-- `sched_reenqueue` by a thread that has locked the scheduler. -/
theorem PreemptOk.goto_reenqueue (ok : state.PreemptOk) (runs : state.Runs cpu thread)
    {pc : CallPc Tid} {moved : Tid} {target : ℕ} (home : (state.place moved).cpu? = some target)
    (notHanded : ∀ other cpu, other ≠ thread → state.place moved ≠ .handed other cpu)
    (notKept : state.schedIdle target ≠ some moved → ∀ cpu, ¬state.Keeps cpu moved)
    (pcOk : ∀ state : PreemptState Tid Wq, state.flags thread &&& threadSfLockSched ≠ 0 →
      state.PcOk thread pc)
    (marked : state.flags thread &&& threadSfLockSched ≠ 0)
    (sameLock : pc.holding? = (state.pcs thread).holding?) :
    ((state.reenqueue target moved).goto thread pc).PreemptOk := by
  unfold reenqueue
  split
  · exact ok.goto_self runs (pcOk state marked) sameLock
  · rename_i notIdle
    apply ok.goto_put runs
    · intro other isHome
      exact home.symm.trans isHome
    · exact notHanded
    · exact fun isFresh => isFresh.elim
    · exact notKept notIdle
    · exact pcOk _ marked
    · exact sameLock

theorem PreemptOk.callStep (ok : state.PreemptOk) (runs : state.Runs cpu thread)
    (step : CallStep state cpu thread next) : next.PreemptOk := by
  have own := (ok.threads thread).pc
  have place := ok.place_of_runs runs
  cases step with
  | insert isOutside isNew =>
      apply ok.goto_put runs
      · simp [isNew, Place.cpu?]
      · simp [isNew]
      · simp [isNew, Place.Fresh]
      · exact not_keeps_of_place (by simp [isNew])
      · simp [PcOk, CallOk, put]
      · simp [isOutside, CallPc.holding?]
  | remove isOutside =>
      apply ok.goto_self runs
      · trivial
      · simp [isOutside, CallPc.holding?]
  | actualize isOutside loaded =>
      apply ok.goto_self runs
      · exact (ok.threads _).currentCpu _ loaded
      · simp [isOutside, CallPc.holding?]
  | loadCpu isEntered =>
      rw [isEntered] at own
      apply ok.goto_self runs
      · exact ⟨own, by simp [place, Place.cpu?]⟩
      · simp [isEntered, CallPc.holding?]
  | loadMyself isGotCpu loaded =>
      rw [isGotCpu] at own
      have sameCpu := own.2
      simp only [place, Place.cpu?, Option.some.injEq] at sameCpu
      subst sameCpu
      apply ok.goto_self runs
      · exact ⟨own.1, Option.some.inj (loaded.symm.trans runs.1)⟩
      · simp [isGotCpu, CallPc.holding?]
  | announce isGotMyself =>
      rw [isGotMyself] at own
      have handed : state.place _ = .handed thread _ := own.1
      apply ok.goto_storeCurrentCpu runs
      · intro target isTarget
        rw [handed, ← isTarget]
        rfl
      · exact own
      · simp [isGotMyself, CallPc.holding?]
      · rintro - rfl
        simp [place] at handed
  | prepare isGotMyself noInsert =>
      rw [isGotMyself] at own
      apply ok.goto_self runs
      · exact own
      · simp [isGotMyself, CallPc.holding?]
  | loadSet isPrepared =>
      rw [isPrepared] at own
      rcases own with ⟨callOk, rfl⟩
      apply ok.goto_self runs
      · exact ⟨callOk, rfl, BitVec.clearFlag_of_clear (ok.clear_of_runs runs)⟩
      · simp [isPrepared, CallPc.holding?]
  | storeSet isSetting =>
      rw [isSetting] at own
      rcases own with ⟨callOk, rfl, rfl⟩
      apply ok.goto_storeFlags runs
      · rw [BitVec.setFlag_and _ (by decide)]
        exact BitVec.clearFlag_and_self _ _
      · refine ⟨callOk, rfl, ?_⟩
        rw [storeFlags, flags_storeThread_self]
        exact or_lockSched_ne_zero _
      · simp [isSetting, CallPc.holding?]
  | acquire isAcquiring free =>
      rw [isAcquiring] at own
      apply ok.goto_setLock runs (Or.inl free)
      · rintro _ ⟨⟩
        rfl
      · exact own
      · simp [CallPc.holding?]
      · intro other different
        simp [isAcquiring, CallPc.holding?, different.symm]
  | insertBody isCritical =>
      rw [isCritical] at own
      rcases own with ⟨handed, rfl, marked⟩
      simp only [CallOk] at handed
      apply ok.goto_reenqueue runs
      · simp [handed, Place.cpu?]
      · intro other _ different isHanded
        simp [handed] at isHanded
        exact different isHanded.1.symm
      · intro _
        exact not_keeps_of_place (by simp [handed])
      · exact fun _ stillMarked => ⟨rfl, stillMarked⟩
      · exact marked
      · simp [isCritical, CallPc.holding?]
  | removeNothing isCritical =>
      rw [isCritical] at own
      apply ok.goto_self runs
      · exact own.2
      · simp [isCritical, CallPc.holding?]
  | removeBody isCritical isQueued =>
      rw [isCritical] at own
      apply ok.goto_put runs
      · simp [isQueued, Place.cpu?]
      · simp [isQueued]
      · simp [Place.Fresh]
      · exact not_keeps_of_place (by simp [isQueued])
      · exact own.2
      · simp [isCritical, CallPc.holding?]
  | actualizeBody isCritical preempted =>
      rename_i target actualized myself
      rw [isCritical] at own
      rcases own with ⟨home, rfl, marked⟩
      have locked : state.schedLock target = some (.thread myself) := by
        simp [(ok.threads myself).lock, isCritical, CallPc.holding?]
      apply ok.goto_reenqueue runs home
      · intro other _ _ isHanded
        apply preempted
        exact ((ok.threads actualized).fresh (by simp [isHanded, Place.Fresh])).2
      · exact not_keeps_of_preempted locked home preempted
      · exact fun _ stillMarked => ⟨rfl, stillMarked⟩
      · exact marked
      · simp [isCritical, CallPc.holding?]
  | actualizeNothing isCritical running =>
      rw [isCritical] at own
      apply ok.goto_self runs
      · exact own.2
      · simp [isCritical, CallPc.holding?]
  | release isLeaving =>
      rename_i target myself taken
      rw [isLeaving] at own
      have locked : state.schedLock target = some (.thread thread) := by
        simp [(ok.threads thread).lock, isLeaving, CallPc.holding?]
      apply ok.goto_setLock runs (Or.inr locked)
      · simp
      · exact own
      · simp [CallPc.holding?]
      · intro other different
        simp [isLeaving, CallPc.holding?, different.symm]
  | loadClear isUnlocked =>
      rw [isUnlocked] at own
      rcases own with ⟨rfl, marked⟩
      apply ok.goto_self runs
      · exact ⟨rfl, BitVec.clearFlag_of_clear (ok.clear_of_runs runs)⟩
      · simp [isUnlocked, CallPc.holding?]
  | storeClear isClearing =>
      rw [isClearing] at own
      rcases own with ⟨rfl, rfl⟩
      apply ok.goto_storeFlags runs
      · rw [BitVec.clearFlag_and _ (by decide)]
        exact BitVec.clearFlag_and_self _ _
      · trivial
      · simp [isClearing, CallPc.holding?]
  | finish isFinishing =>
      apply ok.goto_self runs
      · trivial
      · simp [isFinishing, CallPc.holding?]
  | forget isFinishing =>
      apply ok.goto_storeCurrentCpu runs
      · simp
      · trivial
      · simp [isFinishing, CallPc.holding?]
      · simp
  | other isOutside sameFlags sameCpu =>
      apply ok.frame
      · intro other
        apply threadFrame_storeThread
        · exact fun _ => by rw [sameFlags]
        · exact fun _ _ => by rw [sameFlags]
        · exact fun _ _ isCurrent => Or.inl (sameCpu ▸ isCurrent)
      · intro target
        apply cpuFrame_storeThread
        · exact fun _ => by rw [sameFlags]
        · exact fun _ _ => sameFlags

end Calls

section Handler

variable {state next : PreemptState Tid Wq} {cpu : ℕ}

theorem handlerOk_handle {target : ℕ} {pc : HandlerPc Tid} {pc' : Option (HandlerPc Tid)}
    (ok : state.HandlerOk cpu pc) : (state.handle target pc').HandlerOk cpu pc := by
  cases pc <;> exact ok

/-- A step of a handler that leaves the threads and the other CPUs alone keeps the invariant if
its own CPU is all right. -/
theorem PreemptOk.handle (ok : state.PreemptOk) {pc : Option (HandlerPc Tid)}
    (threads : ∀ thread, ThreadFrame state next thread)
    (cpus : ∀ other, other ≠ cpu → CpuFrame state next other)
    (current : ∀ thread, next.cpuCurrentThread cpu = some thread →
      next.place thread = .onCpu cpu ∧ next.flags thread &&& threadSfPreempt = 0)
    (idle : ∀ thread, next.schedIdle cpu = some thread → next.place thread = .onCpu cpu)
    (handlerOk : ∀ pc', pc = some pc' → next.HandlerOk cpu pc') :
    (next.handle cpu pc).PreemptOk where
  threads thread := (ok.threads thread).frame ((threads thread).trans (threadFrame_handle pc))
  cpus other := by
    by_cases same : other = cpu
    · subst same
      refine ⟨current, idle, ?_⟩
      intro pc' inHandler
      apply handlerOk_handle
      apply handlerOk
      simpa [PreemptState.handle] using inHandler
    · exact (ok.cpus other).frame ((cpus other same).trans (cpuFrame_handle same pc))

/-- The same for a step that only moves on in the handler. -/
theorem PreemptOk.handle_self (ok : state.PreemptOk) {pc : Option (HandlerPc Tid)}
    (handlerOk : ∀ pc', pc = some pc' → state.HandlerOk cpu pc') :
    (state.handle cpu pc).PreemptOk := by
  apply ok.handle
  · exact ThreadFrame.refl state
  · exact fun other _ => CpuFrame.refl state other
  · exact (ok.cpus cpu).current
  · exact (ok.cpus cpu).idle
  · exact handlerOk

theorem PreemptOk.handle_setLock (ok : state.PreemptOk) {holder : Option (Holder Tid)}
    {pc : Option (HandlerPc Tid)}
    (before : state.schedLock cpu = none ∨ state.schedLock cpu = some (.handler cpu))
    (after : ∀ thread, holder ≠ some (.thread thread))
    (handlerOk : ∀ pc', pc = some pc' → (state.setLock cpu holder).HandlerOk cpu pc') :
    ((state.setLock cpu holder).handle cpu pc).PreemptOk := by
  apply ok.handle
  · intro thread
    apply threadFrame_setLock _ (after thread)
    rcases before with free | locked
    · simp [free]
    · simp [locked]
  · intro other different
    apply cpuFrame_setLock
    rcases before with free | locked
    · simp [free]
    · simpa [locked] using different.symm
  · exact (ok.cpus cpu).current
  · exact (ok.cpus cpu).idle
  · exact handlerOk

variable [DecidableEq Tid]

/-- A handler may change the preemption bit of a thread that its CPU has and does not run. -/
theorem PreemptOk.handle_storeFlags (ok : state.PreemptOk) {stored : Tid} {flags : BitVec 32}
    {pc : Option (HandlerPc Tid)} (place : state.place stored = .onCpu cpu)
    (notCurrent : state.cpuCurrentThread cpu ≠ some stored)
    (sameFlags : flags &&& ~~~threadSfPreempt = state.flags stored &&& ~~~threadSfPreempt)
    (handlerOk : ∀ pc', pc = some pc' → (state.storeFlags stored flags).HandlerOk cpu pc') :
    ((state.storeFlags stored flags).handle cpu pc).PreemptOk := by
  apply ok.handle
  · intro thread
    apply threadFrame_storeThread
    · exact fun _ => sameFlags
    · intro _ isFresh
      rw [place] at isFresh
      exact isFresh.elim
    · exact fun _ _ isCurrent => Or.inl isCurrent
  · intro other different
    have notKept : ¬state.Keeps other stored := by
      intro keeps
      have sameCpu : cpu = other := by simpa [place] using keeps.1
      exact different sameCpu.symm
    apply cpuFrame_storeThread
    · exact fun keeps => absurd keeps notKept
    · exact fun _ keeps => absurd keeps notKept
  · intro thread isCurrent
    have different : thread ≠ stored := by
      rintro rfl
      exact notCurrent isCurrent
    rw [storeFlags, state.flags_storeThread_of_ne _ different]
    exact (ok.cpus cpu).current thread isCurrent
  · exact (ok.cpus cpu).idle
  · exact handlerOk

/-- A handler may move a thread of its CPU that is neither the current nor the idle one. -/
theorem PreemptOk.handle_put (ok : state.PreemptOk) {moved : Tid} {place : Place Tid}
    {pc : Option (HandlerPc Tid)}
    (before : state.place moved = .queued cpu ∨ state.place moved = .onCpu cpu)
    (home : place.cpu? = some cpu) (notCurrent : state.cpuCurrentThread cpu ≠ some moved)
    (notIdle : state.schedIdle cpu ≠ some moved) (notFresh : ¬place.Fresh)
    (handlerOk : ∀ pc', pc = some pc' → (state.put moved place).HandlerOk cpu pc') :
    ((state.put moved place).handle cpu pc).PreemptOk := by
  apply ok.handle
  · intro thread
    apply threadFrame_put
    · intro other isHome
      rw [home]
      rcases before with isQueued | isOn
      · simpa [isQueued, Place.cpu?] using isHome
      · simpa [isOn, Place.cpu?] using isHome
    · intro other
      rcases before with isQueued | isOn
      · simp [isQueued]
      · simp [isOn]
    · exact fun _ isFresh => absurd isFresh notFresh
  · intro other notOwn
    apply cpuFrame_put
    rintro ⟨onOther, -⟩
    rcases before with isQueued | isOn
    · simp [isQueued] at onOther
    · simp only [isOn, Place.onCpu.injEq] at onOther
      exact notOwn onOther.symm
  · intro thread isCurrent
    have different : thread ≠ moved := by
      rintro rfl
      exact notCurrent isCurrent
    have current := (ok.cpus cpu).current thread isCurrent
    refine ⟨?_, current.2⟩
    simpa [put, different] using current.1
  · intro thread isIdle
    have different : thread ≠ moved := by
      rintro rfl
      exact notIdle isIdle
    simpa [put, different] using (ok.cpus cpu).idle thread isIdle
  · exact handlerOk

theorem PreemptOk.handlerStep (ok : state.PreemptOk) {pc : HandlerPc Tid}
    (inHandler : state.handlers cpu = some pc) (step : HandlerStep state cpu pc next) :
    next.PreemptOk := by
  have own := (ok.cpus cpu).handler pc inHandler
  cases step with
  | load loaded =>
      apply ok.handle_self
      rintro _ ⟨⟩
      exact loaded
  | marked isMarked =>
      apply ok.handle_self
      simp
  | unmarked notMarked =>
      apply ok.handle_self
      rintro _ ⟨⟩
      exact ⟨own, notMarked⟩
  | nonpreempt counted =>
      apply ok.handle_self
      simp
  | preemptible uncounted =>
      apply ok.handle_self
      rintro _ ⟨⟩
      exact own
  | acquire free =>
      apply ok.handle_setLock (Or.inl free)
      · simp
      · rintro _ ⟨⟩
        exact ⟨by simp [setLock], own.1⟩
  | chooseQueued isQueued =>
      rename_i othr nthr
      have notCurrent : state.cpuCurrentThread cpu ≠ some nthr := by
        intro isCurrent
        have place := ((ok.cpus cpu).current nthr isCurrent).1
        simp [isQueued] at place
      have notIdle : state.schedIdle cpu ≠ some nthr := by
        intro isIdle
        have place := (ok.cpus cpu).idle nthr isIdle
        simp [isQueued] at place
      apply ok.handle_put (Or.inl isQueued) rfl notCurrent notIdle
      · exact fun isFresh => isFresh
      · rintro _ ⟨⟩
        refine ⟨own.1, own.2, ?_, by simp [put]⟩
        rintro rfl
        exact notCurrent own.2
  | chooseOld runnable =>
      apply ok.handle_self
      rintro _ ⟨⟩
      exact own.1
  | chooseIdle suspended isIdle different =>
      apply ok.handle_self
      rintro _ ⟨⟩
      exact ⟨own.1, own.2, different, (ok.cpus cpu).idle _ isIdle⟩
  | stayIdle suspended isIdle =>
      apply ok.handle_self
      rintro _ ⟨⟩
      exact own.1
  | loadNext =>
      apply ok.handle_self
      rintro _ ⟨⟩
      rcases own with ⟨locked, current, different, place⟩
      exact ⟨locked, current, different, place, rfl⟩
  | storeNext =>
      rcases own with ⟨locked, current, different, place, rfl⟩
      apply ok.handle_storeFlags place
      · simpa [current] using different.symm
      · rw [BitVec.and_assoc, BitVec.and_self]
      · rintro _ ⟨⟩
        refine ⟨locked, current, different, place, ?_⟩
        rw [storeFlags, flags_storeThread_self]
        exact BitVec.clearFlag_and_self _ _
  | setCurrent =>
      rename_i othr nthr
      rcases own with ⟨locked, current, different, place, clear⟩
      apply ok.handle
      · exact fun thread => threadFrame_setCurrentThread
      · exact fun other notOwn => cpuFrame_setCurrentThread notOwn
      · intro thread isCurrent
        have sameThread : nthr = thread := by simpa [setCurrentThread] using isCurrent
        subst sameThread
        exact ⟨place, clear⟩
      · exact (ok.cpus cpu).idle
      · rintro _ ⟨⟩
        refine ⟨locked, ?_, different, ((ok.cpus cpu).current othr current).1⟩
        simp [setCurrentThread]
  | move =>
      rename_i othr nthr
      rcases own with ⟨locked, current, different, place⟩
      have running := (ok.cpus cpu).current nthr current
      apply ok.handle
      · intro thread
        apply threadFrame_storeThread
        · exact fun _ => rfl
        · exact fun _ _ => rfl
        · intro other _ isCurrent
          right
          rw [running.1]
          exact isCurrent
      · intro other _
        apply cpuFrame_storeThread
        · exact fun _ => rfl
        · exact fun _ _ => rfl
      · intro thread isCurrent
        have sameThread : nthr = thread := Option.some.inj (current.symm.trans isCurrent)
        subst sameThread
        rw [storeCurrentCpu, flags_storeThread_self]
        exact running
      · exact (ok.cpus cpu).idle
      · rintro _ ⟨⟩
        refine ⟨locked, ?_, place⟩
        intro isOld
        exact different (Option.some.inj (current.symm.trans isOld))
  | loadOld =>
      apply ok.handle_self
      rintro _ ⟨⟩
      rcases own with ⟨locked, notCurrent, place⟩
      exact ⟨locked, notCurrent, place, rfl⟩
  | storeOld =>
      rcases own with ⟨locked, notCurrent, place, rfl⟩
      apply ok.handle_storeFlags place notCurrent
      · exact BitVec.setFlag_and _ (by decide)
      · rintro _ ⟨⟩
        exact ⟨locked, notCurrent, place⟩
  | enqueue =>
      rename_i othr
      rcases own with ⟨locked, notCurrent, place⟩
      unfold reenqueue
      split
      · apply ok.handle_self
        rintro _ ⟨⟩
        exact locked
      · rename_i notIdle
        apply ok.handle_put (Or.inr place) rfl notCurrent notIdle
        · exact fun isFresh => isFresh
        · rintro _ ⟨⟩
          exact locked
  | unlock =>
      apply ok.handle_setLock (Or.inr own)
      · simp
      · simp

end Handler

section Runs

variable {state next : PreemptState Tid Wq}

theorem Initial.preemptOk (initial : state.Initial) : state.PreemptOk where
  threads thread := by
    constructor
    · rw [initial.pcs]
      trivial
    · simp [initial.locks, initial.pcs, CallPc.holding?]
    · intro isFresh
      refine ⟨initial.pcs thread, initial.fresh thread ?_⟩
      cases place : state.place thread with
      | new => rfl
      | handed caller cpu => exact absurd place (initial.handed thread caller cpu)
      | queued cpu => simp [place, Place.Fresh] at isFresh
      | onCpu cpu => simp [place, Place.Fresh] at isFresh
      | removed cpu => simp [place, Place.Fresh] at isFresh
    · intro cpu isCurrent
      rcases initial.currentCpu thread cpu isCurrent with isOn | isQueued
      · simp [isOn, Place.cpu?]
      · simp [isQueued, Place.cpu?]
  cpus cpu := by
    refine ⟨initial.current cpu, initial.idle cpu, ?_⟩
    simp [initial.handlers]

/-- The scheduler lock that `sched_preempt` spins on is not held by the thread it interrupted. -/
theorem PreemptOk.not_locked (ok : state.PreemptOk) {cpu : ℕ} {othr : Tid}
    (isAcquiring : state.handlers cpu = some (.acquiring othr)) (other : ℕ) :
    state.schedLock other ≠ some (.thread othr) := by
  intro locked
  have unmarked := ((ok.cpus cpu).handler _ isAcquiring).2
  have own := ok.threads othr
  have holding := (own.lock other).mp locked
  have pcOk := own.pc
  cases pc : state.pcs othr with
  | critical call target myself =>
      rw [pc] at pcOk
      exact pcOk.2.2 unmarked
  | leaving target myself taken =>
      rw [pc] at pcOk
      exact pcOk.2 unmarked
  | _ => simp [pc, CallPc.holding?] at holding

variable [DecidableEq Tid]

theorem PreemptOk.step {label : PreemptLabel} (ok : state.PreemptOk)
    (step : Step state label next) : next.PreemptOk := by
  cases step with
  | run runs step => exact ok.callStep runs step
  | interrupt enabled =>
      apply ok.handle_self
      rintro _ ⟨⟩
      trivial
  | handle inHandler step => exact ok.handlerStep inHandler step

end Runs

end PreemptState

namespace CallPc

/-- What the next step of the thread is to do to its own `t_stateflags`. -/
def update : CallPc Tid → BitVec 32 → BitVec 32
  | .setting _ _ _ _, flags => flags ||| threadSfLockSched
  | .clearing _ _ _, flags => flags &&& ~~~threadSfLockSched
  | _, flags => flags

end CallPc

namespace HandlerPc

variable [DecidableEq Tid]

/-- What the next step of the handler is to do to the `t_stateflags` of a thread. -/
def update (thread : Tid) : HandlerPc Tid → BitVec 32 → BitVec 32
  | .resuming _ nthr _, flags => if thread = nthr then flags &&& ~~~threadSfPreempt else flags
  | .suspending othr _, flags => if thread = othr then flags ||| threadSfPreempt else flags
  | _, flags => flags

end HandlerPc

namespace PreemptState

section Updates

variable [DecidableEq Tid] {state next : PreemptState Tid Wq}

/-- What a step is to do to the `t_stateflags` of a thread. -/
def update (state : PreemptState Tid Wq) (thread : Tid) (flags : BitVec 32) :
    PreemptLabel → BitVec 32
  | .run cpu =>
      if state.cpuCurrentThread cpu = some thread then (state.pcs thread).update flags else flags
  | .interrupt _ => flags
  | .handle cpu =>
      match state.handlers cpu with
      | some pc => pc.update thread flags
      | none => flags

theorem PreemptOk.flags_callStep (ok : state.PreemptOk) {cpu : ℕ} {running : Tid}
    (runs : state.Runs cpu running) (step : CallStep state cpu running next) (thread : Tid) :
    next.flags thread =
      if thread = running then (state.pcs running).update (state.flags thread)
      else state.flags thread := by
  have own := (ok.threads running).pc
  have whole := BitVec.clearFlag_of_clear (ok.clear_of_runs runs)
  cases step with
  | storeSet isSetting =>
      rw [isSetting] at own
      rcases own with ⟨-, rfl, rfl⟩
      rw [flags_goto, isSetting, whole]
      exact state.flags_storeFlags _ thread (· ||| threadSfLockSched)
  | storeClear isClearing =>
      rw [isClearing] at own
      rcases own with ⟨rfl, rfl⟩
      rw [flags_goto, isClearing, whole]
      exact state.flags_storeFlags _ thread (· &&& ~~~threadSfLockSched)
  | other isOutside sameFlags sameCpu =>
      rw [state.flags_storeThread_of_eq sameFlags]
      simp [isOutside, CallPc.update]
  | _ => simp_all [CallPc.update]

theorem PreemptOk.flags_handlerStep (ok : state.PreemptOk) {cpu : ℕ} {pc : HandlerPc Tid}
    (inHandler : state.handlers cpu = some pc) (step : HandlerStep state cpu pc next)
    (thread : Tid) : next.flags thread = pc.update thread (state.flags thread) := by
  have own := (ok.cpus cpu).handler pc inHandler
  cases step with
  | storeNext =>
      rcases own with ⟨-, -, -, -, rfl⟩
      rw [flags_handle]
      exact state.flags_storeFlags _ thread (· &&& ~~~threadSfPreempt)
  | storeOld =>
      rcases own with ⟨-, -, -, rfl⟩
      rw [flags_handle]
      exact state.flags_storeFlags _ thread (· ||| threadSfPreempt)
  | _ => simp [HandlerPc.update]

theorem PreemptOk.flags_step (ok : state.PreemptOk) {label : PreemptLabel}
    (step : Step state label next) (thread : Tid) :
    next.flags thread = state.update thread (state.flags thread) label := by
  cases step with
  | run runs step =>
      rename_i cpu running
      rw [ok.flags_callStep runs step, update, runs.1]
      by_cases same : thread = running
      · simp [same]
      · simp [same, Ne.symm same]
  | interrupt enabled => rfl
  | handle inHandler step =>
      rw [ok.flags_handlerStep inHandler step, update, inHandler]

/-- Along a run the invariant holds, and every word is what the updates have made of it. -/
theorem run_preemptOk {start final : PreemptState Tid Wq}
    {trace : List (PreemptState Tid Wq × PreemptLabel × PreemptState Tid Wq)}
    (run : (system Tid Wq).Run start trace final) :
    final.PreemptOk ∧ ∀ thread, final.flags thread =
      trace.foldl (fun flags step => step.1.update thread flags step.2.1)
        (start.flags thread) := by
  induction run with
  | nil isInit => exact ⟨Initial.preemptOk isInit, fun _ => rfl⟩
  | snoc run stepped ih =>
      refine ⟨ih.1.step stepped, ?_⟩
      intro thread
      rw [ih.1.flags_step stepped, List.foldl_append, ← ih.2 thread]
      rfl

/-- On every CPU, `sched_preempt` never tries to get a scheduler lock that the thread it
interrupted holds, and no update of `t_stateflags` is lost. -/
theorem schedPreempt_safe {start final : PreemptState Tid Wq}
    {trace : List (PreemptState Tid Wq × PreemptLabel × PreemptState Tid Wq)}
    (run : (system Tid Wq).Run start trace final) :
    (∀ cpu othr, final.handlers cpu = some (.acquiring othr) →
      final.cpuCurrentThread cpu = some othr ∧
        ∀ other, final.schedLock other ≠ some (.thread othr)) ∧
    ∀ thread, final.flags thread =
      trace.foldl (fun flags step => step.1.update thread flags step.2.1)
        (start.flags thread) := by
  have spec := run_preemptOk run
  refine ⟨?_, spec.2⟩
  intro cpu othr isAcquiring
  exact ⟨((spec.1.cpus cpu).handler _ isAcquiring).1, spec.1.not_locked isAcquiring⟩

end Updates

section OneCpu

/-- One CPU, whose thread is the only one that has been inserted. -/
def oneCpu : PreemptState ℕ ℕ where
  threads thread :=
    if thread = 0 then { threadTemplate ℕ with tCurrentCpu := some 0 } else threadTemplate ℕ
  place thread := if thread = 0 then .onCpu 0 else .new
  cpuCurrentThread cpu := if cpu = 0 then some 0 else none
  schedIdle _ := none
  schedLock _ := none
  pcs _ := .outside
  handlers _ := none

theorem oneCpu_initial : oneCpu.Initial where
  current cpu thread isCurrent := by
    by_cases first : cpu = 0
    · subst first
      have same : 0 = thread := by simpa [oneCpu] using isCurrent
      subst same
      exact ⟨rfl, rfl⟩
    · simp [oneCpu, first] at isCurrent
  idle := by simp [oneCpu]
  fresh thread isNew := by
    have different : thread ≠ 0 := by
      rintro rfl
      simp [oneCpu] at isNew
    simp [oneCpu, flags, different, threadTemplate]
  handed thread caller cpu := by
    by_cases first : thread = 0
    · simp [oneCpu, first]
    · simp [oneCpu, first]
  currentCpu thread cpu isCurrent := by
    by_cases first : thread = 0
    · left
      subst first
      have same : 0 = cpu := by simpa [oneCpu] using isCurrent
      rw [← same]
      rfl
    · simp [oneCpu, first, threadTemplate] at isCurrent
  locks _ := rfl
  pcs _ := rfl
  handlers _ := rfl

/-- The thread is interrupted between the load and the store that mark it, and the handler tries
to get the lock. -/
theorem schedPreempt_safe_interrupted : ∃ trace final,
    (system ℕ ℕ).Run oneCpu trace final ∧
      final.pcs 0 = .setting .remove 0 0 0 ∧ final.handlers 0 = some (.acquiring 0) ∧
      (∀ cpu othr, final.handlers cpu = some (.acquiring othr) →
        final.cpuCurrentThread cpu = some othr ∧
          ∀ other, final.schedLock other ≠ some (.thread othr)) ∧
      ∀ thread, final.flags thread =
        trace.foldl (fun flags step => step.1.update thread flags step.2.1)
          (oneCpu.flags thread) := by
  have entered := TransitionSystem.Run.snoc (.nil oneCpu_initial)
    (show (system ℕ ℕ).step oneCpu (.run 0) (oneCpu.goto 0 (.entered .remove 0)) from
      .run ⟨rfl, rfl⟩ (.remove rfl))
  have gotCpu := entered.snoc (Step.run ⟨rfl, rfl⟩ (.loadCpu rfl) : Step _ (.run 0) _)
  have gotMyself := gotCpu.snoc (Step.run ⟨rfl, rfl⟩ (.loadMyself rfl rfl) : Step _ (.run 0) _)
  have prepared := gotMyself.snoc
    (Step.run ⟨rfl, rfl⟩ (.prepare rfl (by simp)) : Step _ (.run 0) _)
  have setting := prepared.snoc (Step.run ⟨rfl, rfl⟩ (.loadSet rfl) : Step _ (.run 0) _)
  have started := setting.snoc (Step.interrupt rfl : Step _ (.interrupt 0) _)
  have testing := started.snoc (Step.handle rfl (.load rfl) : Step _ (.handle 0) _)
  have counting := testing.snoc (Step.handle rfl (.unmarked rfl) : Step _ (.handle 0) _)
  have acquiring := counting.snoc (Step.handle rfl (.preemptible rfl) : Step _ (.handle 0) _)
  exact ⟨_, _, acquiring, rfl, rfl, schedPreempt_safe acquiring⟩

end OneCpu

end PreemptState

end Rkernel
