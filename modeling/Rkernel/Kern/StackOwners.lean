import Rkernel.Kern.ThreadAllocate

/-!
# Owners of kernel stacks

The ownership of stacks is a partition: every stack object that was ever made is on the list of
the released ones, in a slot of a live thread, or with a direct caller of
`kernel_stack_allocate`. The operations of `kern_stacks.c` move an object from one part to another,
and `thread_allocate` is made of them, so that the partition holds in every run, whichever calls of
`zalloc` and `vm_kalloc_ll` fail.

The thread objects come from a zone, and the results about zones tell that the object of a new
thread is not that of another one, and that `zfree` puts it back.
-/

namespace Rkernel

/-- `vm_kalloc_ll`, which may also fail for no reason. -/
def kallocFailing (fails : Bool) : Kalloc := fun kernel =>
  if fails then (none, kernel) else kallocStack kernel

/-- The calls of `vm_kalloc_ll` for the two stacks of a thread. -/
def kallocsFailing (fails : Fin 2 → Bool) (i : Fin 2) : Kalloc :=
  kallocFailing (fails i)

/-- `zalloc`, which may also fail for no reason. -/
def zallocFailing (fails : Bool) (fuel : ℕ) (supply : VmSupply) (zone : ℕ) (memory : Memory) :
    Except ZoneStop (ℕ × Memory) :=
  if fails then .ok (0, memory) else zalloc fuel supply memory zone

/-- The stack objects of a state: the released ones, those in use, and all that were made. -/
structure StackPool (slots : List (ℕ × Paddr)) (count : ℕ) (state : KernelStacks)
    (free held created : List Vaddr) : Prop where
  grown : Grown slots count state.kernel
  linked : LinkedFrom state.stTail 0 state.stacksHead free
  parts : (free ++ held).Perm created
  nodup : created.Nodup
  below : ∀ kstack ∈ created, kstack.toNat < (regionPage count).toNat

namespace StackPool

variable {slots : List (ℕ × Paddr)} {count : ℕ} {state : KernelStacks}
  {free held created : List Vaddr}

theorem held_perm {others : List Vaddr} (pool : StackPool slots count state free held created)
    (same : held.Perm others) : StackPool slots count state free others created :=
  ⟨pool.grown, pool.linked, (same.symm.append_left free).trans pool.parts, pool.nodup, pool.below⟩

/-- Other code may take kernel memory. -/
theorem grow (pool : StackPool slots count state free held created) {kernel : KernelVm} {added : ℕ}
    (grown : Grown slots (count + added) kernel) :
    StackPool slots (count + added) { state with kernel := kernel } free held created := by
  refine ⟨grown, pool.linked, pool.parts, pool.nodup, ?_⟩
  intro kstack kstackMem
  have inside := grown.inside
  have before := pool.below kstack kstackMem
  have begins := toNat_regionPage (show count ≤ 128 by omega)
  have ends := toNat_regionPage inside
  omega

theorem kallocFailing_spec (good : GoodSlots slots) (grown : Grown slots count state.kernel)
    (fails : Bool) :
    kallocFailing fails state.kernel = (none, state.kernel) ∨
      ∃ added size kernel, kallocFailing fails state.kernel =
          (some (regionPage count, size), kernel) ∧
        added ≠ 0 ∧ size.toNat = added * 4096 ∧ Grown slots (count + added) kernel := by
  cases fails with
  | true => exact Or.inl rfl
  | false =>
      rcases kallocStack_spec good grown with ⟨added, _, grownNext, failure, success⟩
      by_cases isZero : added = 0
      · exact Or.inl (failure isZero)
      · rcases success isZero with ⟨size, given, isSize⟩
        exact Or.inr ⟨added, size, _, Prod.ext given rfl, isZero, isSize, grownNext⟩

/-- A stack object of new pages. -/
theorem create (pool : StackPool slots count state free held created) {kernel : KernelVm}
    {added : ℕ} {size : Vaddr} (grown : Grown slots (count + added) kernel) (some : added ≠ 0)
    (isSize : size.toNat = added * 4096) :
    StackPool slots (count + added)
      (KernelStacks.setSp { state with kernel := kernel } (regionPage count + (size - 8))
        (regionPage count + (size - 8)))
      free ((regionPage count + (size - 8)) :: held)
      ((regionPage count + (size - 8)) :: created) := by
  have inside := grown.inside
  have header := toNat_header inside some isSize
  have begins := toNat_regionPage (show count ≤ 128 by omega)
  have ends := toNat_regionPage inside
  have grownPool := pool.grow grown
  refine ⟨grown, pool.linked, ?_, List.nodup_cons.mpr ⟨?_, pool.nodup⟩, ?_⟩
  · exact List.perm_middle.trans (pool.parts.cons _)
  · intro createdMem
    have before := pool.below _ createdMem
    omega
  · rintro kstack (_ | ⟨_, kstackMem⟩)
    · omega
    · exact grownPool.below kstack kstackMem

/-- `kernel_stack_allocate` moves an object to its caller. -/
theorem allocate (good : GoodSlots slots) (pool : StackPool slots count state free held created)
    (fails : Bool) :
    ∃ next others, StackPool slots next (kernelStackAllocate (kallocFailing fails) state).2 others
      (stackResult (kernelStackAllocate (kallocFailing fails) state).1 ++ held)
      (stackCreated (kallocFailing fails) state ++ created) := by
  by_cases empty : state.stacksHead = 0
  · rw [stackCreated, if_pos empty]
    rcases kallocFailing_spec good pool.grown fails with
      failed | ⟨added, size, kernel, given, some, isSize, grown⟩
    · refine ⟨count, free, ?_⟩
      rw [kernelStackAllocate_none empty failed, stackResult, if_pos rfl]
      exact pool
    · refine ⟨count + added, free, ?_⟩
      have nonNull := ne_zero_header grown.inside some isSize
      rw [kernelStackAllocate_some empty given, stackResult, if_neg nonNull]
      exact pool.create grown some isSize
  · rcases pool.linked.pop empty with ⟨rest, isFree, linked⟩
    refine ⟨count, rest, ?_⟩
    rw [stackCreated, if_neg empty, kernelStackAllocate_released empty, stackResult, if_neg empty]
    refine ⟨pool.grown, linked, ?_, pool.nodup, pool.below⟩
    have parts := pool.parts
    rw [isFree] at parts
    exact List.perm_middle.trans parts

/-- `kernel_stack_release` moves an object from its caller to the list. -/
theorem release {kstack : Vaddr}
    (pool : StackPool slots count state free (stackResult kstack ++ held) created) :
    StackPool slots count (kernelStackRelease kstack state) (stackResult kstack ++ free) held
      created := by
  by_cases isNull : kstack = 0
  · rw [stackResult, if_pos isNull] at pool ⊢
    rw [kernelStackRelease, if_pos isNull]
    exact pool
  · rw [stackResult, if_neg isNull] at pool ⊢
    rw [kernelStackRelease, if_neg isNull]
    have parts : (kstack :: (free ++ held)).Perm created := List.perm_middle.symm.trans pool.parts
    have notFree : kstack ∉ free := by
      have nodup := parts.nodup_iff.mpr pool.nodup
      intro inFree
      exact (List.nodup_cons.mp nodup).1 (List.mem_append_left held inFree)
    exact ⟨pool.grown, pool.linked.push isNull notFree, parts, pool.nodup, pool.below⟩

/-- The two stacks of a thread. -/
theorem thread (good : GoodSlots slots) (pool : StackPool slots count state free held created)
    (fails : Fin 2 → Bool) :
    ∃ next others, StackPool slots next
      (secondStack (kallocsFailing fails) state).2 others
      (stackResult (secondStack (kallocsFailing fails) state).1 ++
        (stackResult (firstStack (kallocsFailing fails) state).1 ++ held))
      (threadCreated (kallocsFailing fails) state ++ created) := by
  rcases pool.allocate good (fails 0) with ⟨middle, between, first⟩
  rcases first.allocate good (fails 1) with ⟨next, others, second⟩
  refine ⟨next, others, ?_⟩
  rw [threadCreated, List.append_assoc]
  exact second

theorem giveBack {first second : Vaddr}
    (pool : StackPool slots count state free (stackResult second ++ (stackResult first ++ held))
      created) :
    StackPool slots count (kernelStackRelease second (kernelStackRelease first state))
      (stackResult second ++ (stackResult first ++ free)) held created :=
  (pool.held_perm (List.perm_append_comm_assoc ..)).release.release

/-- If the same objects are in use, the others are on the list. -/
theorem free_perm {next : ℕ} {after : KernelStacks} {others new : List Vaddr}
    (pool : StackPool slots count state free held created)
    (poolAfter : StackPool slots next after others held (new ++ created)) :
    others.Perm (new ++ free) := by
  apply (List.perm_append_right_iff held).mp
  rw [List.append_assoc]
  exact poolAfter.parts.trans (pool.parts.symm.append_left new)

end StackPool

/-- A run: the zones with what was taken from them, the stacks, the thread objects and ring nodes,
the live threads, the stacks that direct callers hold, and all stack objects ever made. -/
structure ThreadRun (Wq : Type) where
  zone : ZoneState
  kstacks : KernelStacks
  thread : ℕ → ThreadObject Wq
  rings : RingHeap (RingAddr ℕ Wq) ℕ
  threads : List ℕ
  callers : List Vaddr
  created : List Vaddr

/-- A call, with the calls of `zalloc` and `vm_kalloc_ll` in it that fail. -/
inductive ThreadOp where
  | threadAllocate (zallocFails : Bool) (supply : VmSupply) (kallocFails : Fin 2 → Bool)
  | kernelStackAllocate (kallocFails : Bool)
  | kernelStackRelease (kstack : Vaddr)
  | other (call : KernelCall)

/-- The memory that the zone of the threads gets in a call of `zalloc`. -/
def threadSupply (zallocFails : Bool) (supply : VmSupply) (memory : Memory) (threadZone : ℕ) :
    List (ℕ × ℕ) :=
  if zallocFails then [] else (supply.answer memory threadZone 32).toList

namespace ThreadRun

variable {Wq : Type}

def kernel (run : ThreadRun Wq) : ThreadKernel Wq :=
  ⟨run.zone.memory, run.kstacks, run.thread, run.rings⟩

/-- The stacks in the slots of the live threads. -/
def slotStacks (run : ThreadRun Wq) : List Vaddr :=
  run.threads.flatMap fun thr => (run.thread thr).stackObjects

/-- The run behind a call of `thread_allocate` that returned a thread or null. -/
def afterAllocate (run : ThreadRun Wq) (threadZone : ℕ) (used : List (ℕ × ℕ))
    (created : List Vaddr) (thr : ℕ) (after : ThreadKernel Wq) : ThreadRun Wq where
  zone :=
    { run.zone with
      memory := after.memory
      live := if thr = 0 then run.zone.live else (threadZone, thr) :: run.zone.live
      used := used ++ run.zone.used }
  kstacks := after.kstacks
  thread := after.thread
  rings := after.rings
  threads := if thr = 0 then run.threads else thr :: run.threads
  callers := run.callers
  created := created ++ run.created

/-- One returning call; a caller releases only what it holds, or null. -/
inductive Step [DecidableEq Wq] (threadZone : ℕ) (run : ThreadRun Wq) :
    ThreadOp → ThreadRun Wq → Prop where
  | threadAllocate {zallocFails : Bool} {supply : VmSupply} {kallocFails : Fin 2 → Bool}
      {fuel object thr : ℕ} {memory : Memory} {after : ThreadKernel Wq}
      (fresh : ∀ range ∈ supply.answer run.zone.memory threadZone 32, run.zone.Fresh range)
      (taken : zallocFailing zallocFails fuel supply threadZone run.zone.memory =
        .ok (object, memory))
      (returned : threadAllocate (zallocFailing zallocFails fuel supply threadZone)
        (kallocsFailing kallocFails) run.kernel = .ok (thr, after)) :
      Step threadZone run (.threadAllocate zallocFails supply kallocFails)
        (run.afterAllocate threadZone
          (threadSupply zallocFails supply run.zone.memory threadZone)
          (if object = 0 then []
            else threadCreated (kallocsFailing kallocFails) run.kstacks) thr after)
  | kernelStackAllocate {kallocFails : Bool} :
      Step threadZone run (.kernelStackAllocate kallocFails)
        { run with
          kstacks := (kernelStackAllocate (kallocFailing kallocFails) run.kstacks).2
          callers := stackResult
            (kernelStackAllocate (kallocFailing kallocFails) run.kstacks).1 ++ run.callers
          created := stackCreated (kallocFailing kallocFails) run.kstacks ++ run.created }
  | kernelStackRelease {kstack : Vaddr} {rest : List Vaddr}
      (held : run.callers.Perm (stackResult kstack ++ rest)) :
      Step threadZone run (.kernelStackRelease kstack)
        { run with kstacks := kernelStackRelease kstack run.kstacks, callers := rest }
  | other {call : KernelCall} :
      Step threadZone run (.other call)
        { run with
          kstacks := { run.kstacks with kernel := (call.apply run.kstacks.kernel).kernel } }

/-- The zones have been used in any way, the kernel has booted, and there is no thread yet. -/
structure Initial (image : ZoneImage) (threadZone : ℕ) (run : ThreadRun Wq) : Prop where
  zone : (image.system.restrict HeaderFits).Reachable run.zone
  zoneMem : threadZone ∈ run.zone.zones
  booted : ∃ first second words mmu rmodss, ValidRanges [first, second] ∧ first.pmBegin = 0 ∧
    run.kstacks.kernel = vmInit (PhysmemBmaset.booted [first, second] words) mmu rmodss
  empty : run.kstacks.stacksHead = 0
  threads : run.threads = []
  callers : run.callers = []
  created : run.created = []

def system (Wq : Type) [DecidableEq Wq] (image : ZoneImage) (threadZone : ℕ) :
    TransitionSystem (ThreadRun Wq) ThreadOp where
  init := Initial image threadZone
  step := Step threadZone

/-- Every stack object ever made is exactly once on the list of the released ones, in a slot of a
live thread, or with a direct caller. -/
def Owned (run : ThreadRun Wq) : Prop :=
  ∃ free, LinkedFrom run.kstacks.stTail 0 run.kstacks.stacksHead free ∧
    (free ++ (run.slotStacks ++ run.callers)).Perm run.created ∧ run.created.Nodup

/-- What a call of `thread_allocate` does, for what `zalloc` returned in it. -/
structure Allocated (threadZone : ℕ) (run : ThreadRun Wq) (kalloc : Fin 2 → Kalloc) (object : ℕ)
    (memory : Memory) (thr : ℕ) (after : ThreadKernel Wq) : Prop where
  threads : ∀ other ∈ run.threads, after.thread other = run.thread other
  givenBack : thr = 0 → object ≠ 0 → ∀ free, FreeList memory threadZone free →
    FreeList after.memory threadZone ((object - 4) :: free)
  noLeak : thr = 0 → ∀ free, LinkedFrom run.kstacks.stTail 0 run.kstacks.stacksHead free →
    ∃ others, LinkedFrom after.kstacks.stTail 0 after.kstacks.stacksHead others ∧
      others.Perm ((if object = 0 then [] else threadCreated kalloc run.kstacks) ++ free)
  fresh : thr ≠ 0 → thr ∉ run.threads
  distinct : thr ≠ 0 → (after.thread thr).tIstobjs 0 ≠ 0 ∧ (after.thread thr).tIstobjs 1 ≠ 0 ∧
    (after.thread thr).tIstobjs 0 ≠ (after.thread thr).tIstobjs 1
  intStack : thr ≠ 0 →
    (after.thread thr).tStorage 0 = after.kstacks.stSp ((after.thread thr).tIstobjs 0)

/-- The stacks have their owners, and every call of `thread_allocate` returns, leaves what there
was on failure and sets the thread up on success. -/
structure Correct [DecidableEq Wq] (threadZone : ℕ) (run : ThreadRun Wq) : Prop where
  owned : run.Owned
  returns : ∀ zallocFails (kallocFails : Fin 2 → Bool) supply,
    (∀ range ∈ supply.answer run.zone.memory threadZone 32, run.zone.Fresh range) →
      ∃ fuel result, threadAllocate (zallocFailing zallocFails fuel supply threadZone)
        (kallocsFailing kallocFails) run.kernel = .ok result
  allocates : ∀ zallocFails (kallocFails : Fin 2 → Bool) supply fuel object memory thr after,
    (∀ range ∈ supply.answer run.zone.memory threadZone 32, run.zone.Fresh range) →
    zallocFailing zallocFails fuel supply threadZone run.zone.memory = .ok (object, memory) →
    threadAllocate (zallocFailing zallocFails fuel supply threadZone)
      (kallocsFailing kallocFails) run.kernel = .ok (thr, after) →
    Allocated threadZone run (kallocsFailing kallocFails) object memory thr after

/-- What holds in every state of a run. -/
structure Inv (image : ZoneImage) (threadZone : ℕ) (slots : List (ℕ × Paddr)) (count : ℕ)
    (free : List Vaddr) (run : ThreadRun Wq) : Prop where
  zone : ∃ ledger, Tracks image run.zone ledger
  zoneMem : threadZone ∈ run.zone.zones
  good : GoodSlots slots
  pool : StackPool slots count run.kstacks free (run.slotStacks ++ run.callers) run.created
  live : ∀ thr ∈ run.threads, (threadZone, thr) ∈ run.zone.live

section Zone

variable {image : ZoneImage} {threadZone : ℕ} {slots : List (ℕ × Paddr)} {count : ℕ}
  {free : List Vaddr} {run : ThreadRun Wq} {zallocFails : Bool} {supply : VmSupply}
  {fuel object : ℕ} {memory : Memory}

/-- The zones behind the call of `zalloc`. -/
theorem Inv.zalloc (inv : run.Inv image threadZone slots count free)
    (fresh : ∀ range ∈ supply.answer run.zone.memory threadZone 32, run.zone.Fresh range)
    (taken : zallocFailing zallocFails fuel supply threadZone run.zone.memory =
      .ok (object, memory)) :
    ∃ ledger, Tracks image
      { run.zone with
        memory := memory
        live := if object = 0 then run.zone.live else (threadZone, object) :: run.zone.live
        used := threadSupply zallocFails supply run.zone.memory threadZone ++ run.zone.used }
      ledger := by
  rcases inv.zone with ⟨ledger, tracks⟩
  cases zallocFails with
  | true =>
      simp only [zallocFailing, if_true, Except.ok.injEq, Prod.mk.injEq] at taken
      rcases taken with ⟨rfl, rfl⟩
      exact ⟨ledger, tracks⟩
  | false =>
      simp only [zallocFailing, threadSupply, Bool.false_eq_true, if_false] at taken ⊢
      exact tracks.step (.zalloc inv.zoneMem fresh taken) (by simp)

/-- The object of a new thread is not that of a live one. -/
theorem Inv.fresh_object (inv : run.Inv image threadZone slots count free) {used : List (ℕ × ℕ)}
    {ledger : ZoneLedger}
    (tracks : Tracks image
      { run.zone with
        memory := memory
        live := (threadZone, object) :: run.zone.live
        used := used } ledger) :
    ∀ thr ∈ run.threads, thr ≠ object := by
  rintro thr thrMem rfl
  have nodup := tracks.live_nodup
  rw [List.map_cons, List.nodup_cons] at nodup
  exact nodup.1 (List.mem_map_of_mem (inv.live thr thrMem))

end Zone

section Outcomes

variable {image : ZoneImage} {threadZone : ℕ} {slots : List (ℕ × Paddr)} {count : ℕ}
  {free : List Vaddr} {run : ThreadRun Wq} {zallocFails : Bool} {supply : VmSupply}
  {kallocFails : Fin 2 → Bool} {fuel object thr : ℕ} {memory : Memory} {after : ThreadKernel Wq}

theorem Inv.null (inv : run.Inv image threadZone slots count free)
    (fresh : ∀ range ∈ supply.answer run.zone.memory threadZone 32, run.zone.Fresh range)
    (taken : zallocFailing zallocFails fuel supply threadZone run.zone.memory = .ok (0, memory)) :
    Allocated threadZone run (kallocsFailing kallocFails) 0 memory 0
        { run.kernel with memory := memory } ∧
      (run.afterAllocate threadZone (threadSupply zallocFails supply run.zone.memory threadZone) []
        0 { run.kernel with memory := memory }).Inv image threadZone slots count free := by
  constructor
  · refine ⟨fun _ _ => rfl, fun _ some => absurd rfl some, ?_, fun some => absurd rfl some,
      fun some => absurd rfl some, fun some => absurd rfl some⟩
    intro _ others linked
    exact ⟨others, linked, List.Perm.refl _⟩
  · exact ⟨inv.zalloc fresh taken, inv.zoneMem, inv.good, inv.pool, inv.live⟩

theorem slotStacks_failure {used : List (ℕ × ℕ)} {created : List Vaddr}
    (same : ∀ thr ∈ run.threads, after.thread thr = run.thread thr) :
    (run.afterAllocate threadZone used created 0 after).slotStacks = run.slotStacks := by
  apply List.flatMap_congr
  intro thr thrMem
  have sameThread : after.thread thr = run.thread thr := same thr thrMem
  simp only [afterAllocate, sameThread]

theorem slotStacks_success {used : List (ℕ × ℕ)} {created : List Vaddr} (nonNull : object ≠ 0)
    (same : ∀ thr ∈ run.threads, after.thread thr = run.thread thr) :
    (run.afterAllocate threadZone used created object after).slotStacks =
      (after.thread object).tIstobjs 0 :: (after.thread object).tIstobjs 1 :: run.slotStacks := by
  have others : run.threads.flatMap (fun thr => (after.thread thr).stackObjects) =
      run.slotStacks := by
    apply List.flatMap_congr
    intro thr thrMem
    rw [same thr thrMem]
  simp only [slotStacks, afterAllocate, if_neg nonNull, List.flatMap_cons, others]
  rfl

/-- A call that fails has given everything back. -/
theorem Inv.failure (inv : run.Inv image threadZone slots count free)
    (fresh : ∀ range ∈ supply.answer run.zone.memory threadZone 32, run.zone.Fresh range)
    (taken : zallocFailing zallocFails fuel supply threadZone run.zone.memory =
      .ok (object, memory))
    (nonNull : object ≠ 0)
    (givenBack : GivenBack (kallocsFailing kallocFails) object memory run.kernel after) :
    Allocated threadZone run (kallocsFailing kallocFails) object memory 0 after ∧
      ∃ next left, (run.afterAllocate threadZone
        (threadSupply zallocFails supply run.zone.memory threadZone)
        (threadCreated (kallocsFailing kallocFails) run.kstacks) 0 after).Inv image
          threadZone slots next left := by
  rcases inv.zalloc fresh taken with ⟨ledger, tracks⟩
  rw [if_neg nonNull] at tracks
  have sameThreads : ∀ thr ∈ run.threads, after.thread thr = run.thread thr :=
    fun thr thrMem => givenBack.others thr (inv.fresh_object tracks thr thrMem)
  rcases inv.pool.thread inv.good kallocFails with ⟨next, between, both⟩
  have pool : ∃ left, StackPool slots next after.kstacks left (run.slotStacks ++ run.callers)
      (threadCreated (kallocsFailing kallocFails) run.kstacks ++ run.created) := by
    rw [givenBack.kstacks]
    exact ⟨_, both.giveBack⟩
  rcases pool with ⟨left, pool⟩
  refine ⟨⟨sameThreads, ?_, ?_, fun some => absurd rfl some, fun some => absurd rfl some,
    fun some => absurd rfl some⟩, next, left, ?_, inv.zoneMem, inv.good, ?_, inv.live⟩
  · intro _ _ zoneFree listed
    have freed := tracks.frees List.mem_cons_self (List.mem_cons_of_mem _ inv.zoneMem) listed
    rw [if_pos rfl, ← givenBack.memory] at freed
    exact freed
  · intro _ before linked
    rw [if_neg nonNull, linked.unique inv.pool.linked]
    exact ⟨left, pool.linked, inv.pool.free_perm pool⟩
  · have freed := tracks.step (@ZoneState.Step.zfree image _ threadZone object [] run.zone.live rfl)
      (by simp)
    rwa [← givenBack.memory] at freed
  · rw [slotStacks_failure sameThreads]
    exact pool

/-- A call that succeeds has moved two stacks into the slots of the new thread. -/
theorem Inv.success (inv : run.Inv image threadZone slots count free)
    (fresh : ∀ range ∈ supply.answer run.zone.memory threadZone 32, run.zone.Fresh range)
    (taken : zallocFailing zallocFails fuel supply threadZone run.zone.memory =
      .ok (object, memory))
    (nonNull : object ≠ 0)
    (isSetUp : IsSetUp (kallocsFailing kallocFails) object memory run.kernel after) :
    Allocated threadZone run (kallocsFailing kallocFails) object memory object after ∧
      ∃ next left, (run.afterAllocate threadZone
        (threadSupply zallocFails supply run.zone.memory threadZone)
        (threadCreated (kallocsFailing kallocFails) run.kstacks) object after).Inv image
          threadZone slots next left := by
  rcases inv.zalloc fresh taken with ⟨ledger, tracks⟩
  rw [if_neg nonNull] at tracks
  have different := inv.fresh_object tracks
  have sameThreads : ∀ thr ∈ run.threads, after.thread thr = run.thread thr :=
    fun thr thrMem => isSetUp.others thr (different thr thrMem)
  rcases inv.pool.thread inv.good kallocFails with ⟨next, left, pool⟩
  have first : (after.thread object).tIstobjs 0 ≠ 0 := isSetUp.isFirst ▸ isSetUp.first
  have second : (after.thread object).tIstobjs 1 ≠ 0 := isSetUp.isSecond ▸ isSetUp.second
  have isStacks : after.kstacks = (secondStack (kallocsFailing kallocFails) run.kstacks).2 :=
    isSetUp.kstacks
  have isFirst : (firstStack (kallocsFailing kallocFails) run.kstacks).1 = _ :=
    isSetUp.isFirst.symm
  have isSecond : (secondStack (kallocsFailing kallocFails) run.kstacks).1 = _ :=
    isSetUp.isSecond.symm
  rw [← isStacks, isFirst, isSecond, stackResult, stackResult, if_neg first, if_neg second] at pool
  have distinct : (after.thread object).tIstobjs 0 ≠ (after.thread object).tIstobjs 1 := by
    have nodup := (pool.parts.nodup_iff.mpr pool.nodup).of_append_right
    intro same
    simp [same] at nodup
  refine ⟨⟨sameThreads, fun isNull => absurd isNull nonNull, fun isNull => absurd isNull nonNull,
    fun _ thrMem => different object thrMem rfl, fun _ => ⟨first, second, distinct⟩,
    fun _ => isSetUp.intStack⟩, next, left, ?_, inv.zoneMem, inv.good, ?_, ?_⟩
  · simp only [afterAllocate, if_neg nonNull, isSetUp.memory]
    exact ⟨ledger, tracks⟩
  · rw [slotStacks_success nonNull sameThreads]
    exact pool.held_perm (List.Perm.swap ..)
  · intro thr thrMem
    simp only [afterAllocate, if_neg nonNull] at thrMem ⊢
    rcases List.mem_cons.mp thrMem with rfl | earlier
    · exact List.mem_cons_self
    · exact List.mem_cons_of_mem _ (inv.live thr earlier)

/-- Whatever fails in it, a call of `thread_allocate` does what it should and keeps the owners. -/
theorem Inv.threadAllocate [DecidableEq Wq] (inv : run.Inv image threadZone slots count free)
    (fresh : ∀ range ∈ supply.answer run.zone.memory threadZone 32, run.zone.Fresh range)
    (taken : zallocFailing zallocFails fuel supply threadZone run.zone.memory =
      .ok (object, memory))
    (returned : Rkernel.threadAllocate (zallocFailing zallocFails fuel supply threadZone)
      (kallocsFailing kallocFails) run.kernel = .ok (thr, after)) :
    Allocated threadZone run (kallocsFailing kallocFails) object memory thr after ∧
      ∃ next left, (run.afterAllocate threadZone
        (threadSupply zallocFails supply run.zone.memory threadZone)
        (if object = 0 then [] else threadCreated (kallocsFailing kallocFails) run.kstacks) thr
        after).Inv image threadZone slots next left := by
  have takenThere : zallocFailing zallocFails fuel supply threadZone run.kernel.memory =
      .ok (object, memory) := taken
  by_cases isNull : object = 0
  · subst isNull
    rw [threadAllocate_null takenThere, Except.ok.injEq, Prod.mk.injEq] at returned
    rcases returned with ⟨rfl, rfl⟩
    rcases inv.null fresh taken with ⟨allocated, next⟩
    exact ⟨allocated, count, free, next⟩
  · rw [if_neg isNull]
    by_cases failed : (firstStack (kallocsFailing kallocFails) run.kernel.kstacks).1 = 0 ∨
        (secondStack (kallocsFailing kallocFails) run.kernel.kstacks).1 = 0
    · rcases threadAllocate_failure takenThere isNull failed with ⟨result, computed, givenBack⟩
      rw [computed, Except.ok.injEq, Prod.mk.injEq] at returned
      rcases returned with ⟨rfl, rfl⟩
      exact inv.failure fresh taken isNull givenBack
    · rcases not_or.mp failed with ⟨first, second⟩
      rcases threadAllocate_success takenThere isNull first second with ⟨result, computed, isSetUp⟩
      rw [computed, Except.ok.injEq, Prod.mk.injEq] at returned
      rcases returned with ⟨rfl, rfl⟩
      exact inv.success fresh taken isNull isSetUp

theorem Inv.returns [DecidableEq Wq] (inv : run.Inv image threadZone slots count free)
    (fresh : ∀ range ∈ supply.answer run.zone.memory threadZone 32, run.zone.Fresh range)
    (zallocFails : Bool) (kallocFails : Fin 2 → Bool) :
    ∃ fuel result, Rkernel.threadAllocate (zallocFailing zallocFails fuel supply threadZone)
      (kallocsFailing kallocFails) run.kernel = .ok result := by
  have returned : ∃ fuel object memory, zallocFailing zallocFails fuel supply threadZone
      run.kernel.memory = .ok (object, memory) := by
    cases zallocFails with
    | true => exact ⟨0, 0, run.zone.memory, rfl⟩
    | false =>
        rcases inv.zone with ⟨ledger, tracks⟩
        rcases tracks.sound.allocates threadZone inv.zoneMem supply fresh with
          ⟨fuel, refilled, _, _, _, allocated, _⟩
        exact ⟨fuel, _, _, allocated⟩
  rcases returned with ⟨fuel, object, memory, taken⟩
  refine ⟨fuel, ?_⟩
  by_cases isNull : object = 0
  · subst isNull
    exact ⟨_, threadAllocate_null taken⟩
  · by_cases failed : (firstStack (kallocsFailing kallocFails) run.kernel.kstacks).1 = 0 ∨
        (secondStack (kallocsFailing kallocFails) run.kernel.kstacks).1 = 0
    · rcases threadAllocate_failure taken isNull failed with ⟨result, computed, _⟩
      exact ⟨_, computed⟩
    · rcases not_or.mp failed with ⟨first, second⟩
      rcases threadAllocate_success taken isNull first second with ⟨result, computed, _⟩
      exact ⟨_, computed⟩

end Outcomes

section Runs

variable {image : ZoneImage} {threadZone : ℕ} {run next : ThreadRun Wq}

theorem Inv.step [DecidableEq Wq] {slots : List (ℕ × Paddr)} {count : ℕ} {free : List Vaddr}
    (inv : run.Inv image threadZone slots count free) {op : ThreadOp}
    (stepped : Step threadZone run op next) :
    ∃ count free, next.Inv image threadZone slots count free := by
  cases stepped with
  | threadAllocate fresh taken returned => exact (inv.threadAllocate fresh taken returned).2
  | @kernelStackAllocate kallocFails =>
      rcases inv.pool.allocate inv.good kallocFails with ⟨grown, left, pool⟩
      refine ⟨grown, left, inv.zone, inv.zoneMem, inv.good, ?_, inv.live⟩
      exact pool.held_perm (List.perm_append_comm_assoc ..)
  | @kernelStackRelease kstack rest held =>
      have pool := inv.pool.held_perm ((held.append_left run.slotStacks).trans
        (List.perm_append_comm_assoc ..))
      exact ⟨count, _, inv.zone, inv.zoneMem, inv.good, pool.release, inv.live⟩
  | @other call =>
      rcases call.apply_spec inv.good inv.pool.grown with ⟨added, _, grown, _⟩
      exact ⟨count + added, free, inv.zone, inv.zoneMem, inv.good, inv.pool.grow grown, inv.live⟩

theorem Initial.inv (valid : image.Valid) (initial : run.Initial image threadZone) :
    ∃ slots count free, run.Inv image threadZone slots count free := by
  rcases initial.booted with ⟨first, second, words, mmu, rmodss, ranges, fromZero, isKernel⟩
  have good := booted_goodSlots ranges fromZero words
  have takes : Takes (PhysmemBmaset.booted [first, second] words).slots 0
      (PhysmemBmaset.booted [first, second] words) :=
    ⟨rfl, (PhysmemBmaset.booted_spec ranges words).2⟩
  refine ⟨_, 0, [], tracks_of_reachable valid initial.zone, initial.zoneMem, good, ?_, ?_⟩
  · refine ⟨isKernel ▸ vmInit_grown good takes mmu rmodss, initial.empty, ?_, ?_, ?_⟩
    all_goals simp [slotStacks, initial.threads, initial.callers, initial.created]
  · simp [initial.threads]

/-- In every run every stack has one owner, and every call of `thread_allocate` is atomic. -/
theorem correct_of_reachable [DecidableEq Wq] (valid : image.Valid)
    (reachable : (system Wq image threadZone).Reachable run) : run.Correct threadZone := by
  have invariant : ∃ slots count free, run.Inv image threadZone slots count free := by
    apply reachable.invariant
    · intro state initial
      exact initial.inv valid
    · rintro state op after ⟨slots, count, free, inv⟩ stepped
      exact ⟨slots, inv.step stepped⟩
  rcases invariant with ⟨slots, count, free, inv⟩
  refine ⟨⟨free, inv.pool.linked, inv.pool.parts, inv.pool.nodup⟩, ?_, ?_⟩
  · intro zallocFails kallocFails supply fresh
    exact inv.returns fresh zallocFails kallocFails
  · intro zallocFails kallocFails supply fuel object memory thr after fresh taken returned
    exact (inv.threadAllocate fresh taken returned).1

end Runs

/-- The machine with 16 MiB before there is a thread. -/
def beforeThreads (zone : ZoneState) : ThreadRun Unit where
  zone := zone
  kstacks := StackRun.sixteenMib.state
  thread _ := ⟨threadTemplate Unit, fun _ => 0, fun _ => 0, fun _ => 0⟩
  rings _ := ⟨none, none, none⟩
  threads := []
  callers := []
  created := []

section GiveBack

variable {image : ZoneImage} {threadZone count : ℕ} {slots : List (ℕ × Paddr)}
  {state : KernelStacks} {kernel : ThreadKernel Unit} {kstack : Vaddr} {kalloc : Fin 2 → Kalloc}

/-- The calls of `vm_kalloc_ll` in a `thread_allocate` whose second stack fails. -/
def secondFails (i : Fin 2) : Bool :=
  i.val == 1

theorem kernelStackAllocate_pagesLeft (good : GoodSlots slots)
    (grown : Grown slots count state.kernel) (empty : state.stacksHead = 0)
    (left : 4 ≤ pagesLeft slots count) :
    (kernelStackAllocate (kallocFailing false) state).1 ≠ 0 ∧
      (kernelStackAllocate (kallocFailing false) state).2.stacksHead = 0 ∧
      Grown slots (count + 4) (kernelStackAllocate (kallocFailing false) state).2.kernel := by
  rcases kallocStack_spec good grown with ⟨added, isAdded, grownNext, _, success⟩
  have four : added = 4 := isAdded.trans (Nat.min_eq_left left)
  subst four
  rcases success (by decide) with ⟨size, given, isSize⟩
  have answer : kallocFailing false state.kernel =
      (some (regionPage count, size), (kallocStack state.kernel).2) := Prod.ext given rfl
  rw [kernelStackAllocate_some empty answer]
  exact ⟨ne_zero_header grownNext.inside (by decide) isSize, empty, grownNext⟩

/-- A thread gets the released stack first. -/
theorem firstStack_of_released (linked : LinkedFrom state.stTail 0 state.stacksHead [kstack]) :
    firstStack kalloc state = (kstack, { state with stacksHead := 0 }) := by
  rcases linked with ⟨isHead, nonNull, isLast⟩
  rw [← isHead] at nonNull
  rw [firstStack, kernelStackAllocate_released nonNull, isHead, show state.stTail kstack = 0 from
    isHead ▸ isLast]

theorem secondStack_of_released (linked : LinkedFrom state.stTail 0 state.stacksHead [kstack]) :
    secondStack kalloc state = kernelStackAllocate (kalloc 1) { state with stacksHead := 0 } := by
  rw [secondStack, firstStack_of_released linked]

/-- What `zfree` gives back is on the free list. -/
theorem znFreelist_zfree {zones : ZoneState} {ledger : ZoneLedger}
    (tracks : Tracks image zones ledger) (zoneMem : threadZone ∈ zones.zones)
    (nonNull : threadZone ≠ 0) (filled : Zone.znFreelist zones.memory threadZone ≠ 0) :
    Zone.znFreelist (zfree (removeTop zones.memory threadZone).2
      (removeTop zones.memory threadZone).1) threadZone ≠ 0 := by
  have returned : zalloc 0 .empty zones.memory threadZone =
      .ok ((removeTop zones.memory threadZone).1, (removeTop zones.memory threadZone).2) :=
    zalloc_empty nonNull
  rcases tracks.step (.zalloc zoneMem (by simp) returned) (by simp) with ⟨_, taken⟩
  rw [if_neg (removeTop_ne_zero filled)] at taken
  have isZone : threadZone ∈ image.sZoneZone :: zones.zones := List.mem_cons_of_mem _ zoneMem
  rcases taken.safe.lists with ⟨lists, areZones, listed, _⟩
  rcases List.mem_map.mp (areZones ▸ isZone) with ⟨entry, entryMem, rfl⟩
  have freed := taken.frees List.mem_cons_self isZone (listed entry entryMem)
  rw [if_pos rfl] at freed
  rw [freed.chain.1]
  exact freed.chain.2.1

/-- A thread object, one released stack and the memory of another stack are left. -/
structure Provided (threadZone : ℕ) (slots : List (ℕ × Paddr)) (kstack : Vaddr)
    (run : ThreadRun Unit) : Prop where
  object : Zone.znFreelist run.zone.memory threadZone ≠ 0
  released : LinkedFrom run.kstacks.stTail 0 run.kstacks.stacksHead [kstack]
  grown : Grown slots 4 run.kstacks.kernel

variable {run : ThreadRun Unit}

theorem exists_provided (good : GoodSlots slots) (grown : Grown slots 0 run.kstacks.kernel)
    (left : 4 ≤ pagesLeft slots 0) (empty : run.kstacks.stacksHead = 0)
    (noCallers : run.callers = [])
    (filled : Zone.znFreelist run.zone.memory threadZone ≠ 0) :
    ∃ kstack asked released, Step threadZone run (.kernelStackAllocate false) asked ∧
      asked.callers = [kstack] ∧ Step threadZone asked (.kernelStackRelease kstack) released ∧
      released.Provided threadZone slots kstack ∧ released.zone = run.zone ∧
      released.threads = run.threads := by
  rcases kernelStackAllocate_pagesLeft good grown empty left with ⟨isStack, noneListed, grownAsked⟩
  have asked := @Step.kernelStackAllocate _ _ threadZone run false
  rw [noCallers, stackResult, if_neg isStack, List.append_nil] at asked
  have held : [(kernelStackAllocate (kallocFailing false) run.kstacks).1].Perm
      (stackResult (kernelStackAllocate (kallocFailing false) run.kstacks).1 ++ []) := by
    rw [stackResult, if_neg isStack, List.append_nil]
  refine ⟨_, _, _, asked, rfl, .kernelStackRelease held, ⟨filled, ?_, ?_⟩, rfl, rfl⟩
  · rw [kernelStackRelease, if_neg isStack, noneListed]
    have linked : LinkedFrom (kernelStackAllocate (kallocFailing false) run.kstacks).2.stTail 0 0
        [] := rfl
    exact linked.push isStack (by simp)
  · rw [kernelStackRelease, if_neg isStack]
    exact grownAsked

/-- A call of `thread_allocate` that fails half way gives the object and the stack back. -/
theorem Provided.failing (provided : run.Provided threadZone slots kstack)
    (zone : ∃ ledger, Tracks image run.zone ledger) (zoneMem : threadZone ∈ run.zone.zones)
    (nonNull : threadZone ≠ 0) :
    ∃ failed, Step threadZone run (.threadAllocate false .empty secondFails) failed ∧
      failed.Provided threadZone slots kstack ∧ failed.threads = run.threads := by
  rcases zone with ⟨ledger, tracks⟩
  have taken : zallocFailing false 0 .empty threadZone run.kernel.memory =
      .ok ((removeTop run.zone.memory threadZone).1, (removeTop run.zone.memory threadZone).2) :=
    zalloc_empty nonNull
  have first : firstStack (kallocsFailing secondFails) run.kernel.kstacks =
      (kstack, { run.kstacks with stacksHead := 0 }) := firstStack_of_released provided.released
  have second : secondStack (kallocsFailing secondFails) run.kernel.kstacks =
      (0, { run.kstacks with stacksHead := 0 }) := by
    rw [secondStack, first]
    exact kernelStackAllocate_none rfl rfl
  have isNull : (secondStack (kallocsFailing secondFails) run.kernel.kstacks).1 = 0 := by
    rw [second]
  rcases threadAllocate_failure taken (removeTop_ne_zero provided.object) (Or.inr isNull) with
    ⟨after, returned, givenBack⟩
  have isReleased := givenBack.kstacks
  rw [first, second, kernelStackRelease, if_pos rfl, kernelStackRelease,
    if_neg provided.released.2.1] at isReleased
  refine ⟨_, .threadAllocate (by simp) taken returned, ⟨?_, ?_, ?_⟩, rfl⟩
  · simp only [afterAllocate, givenBack.memory]
    exact znFreelist_zfree tracks zoneMem nonNull provided.object
  · simp only [afterAllocate, isReleased]
    have noneListed : LinkedFrom run.kstacks.stTail 0 0 [] := rfl
    exact noneListed.push provided.released.2.1 (by simp)
  · simp only [afterAllocate, isReleased]
    exact provided.grown

/-- With what was given back and new memory the next call makes a thread. -/
theorem Provided.making (good : GoodSlots slots) (provided : run.Provided threadZone slots kstack)
    (left : 4 ≤ pagesLeft slots 4) (nonNull : threadZone ≠ 0) :
    ∃ made, Step threadZone run (.threadAllocate false .empty fun _ => false) made ∧
      made.threads ≠ [] := by
  have taken : zallocFailing false 0 .empty threadZone run.kernel.memory =
      .ok ((removeTop run.zone.memory threadZone).1, (removeTop run.zone.memory threadZone).2) :=
    zalloc_empty nonNull
  have first : firstStack (kallocsFailing fun _ => false) run.kernel.kstacks =
      (kstack, { run.kstacks with stacksHead := 0 }) := firstStack_of_released provided.released
  have isFirst : (firstStack (kallocsFailing fun _ => false) run.kernel.kstacks).1 ≠ 0 := by
    rw [first]
    exact provided.released.2.1
  have isSecond : (secondStack (kallocsFailing fun _ => false) run.kernel.kstacks).1 ≠ 0 := by
    rw [secondStack, first]
    exact (@kernelStackAllocate_pagesLeft _ _ { run.kstacks with stacksHead := 0 } good
      provided.grown rfl left).1
  have object := removeTop_ne_zero provided.object
  rcases threadAllocate_success taken object isFirst isSecond with ⟨after, returned, _⟩
  refine ⟨_, .threadAllocate (by simp) taken returned, ?_⟩
  simp only [afterAllocate, if_neg object]
  exact List.cons_ne_nil _ _

end GiveBack

/-- A stack is made and released, a call of `thread_allocate` takes it, fails to get a second
stack and gives it back, and the next call takes it again. -/
theorem correct_of_reachable_giveBack :
    ∃ (threadZone : ℕ) (kstack : Vaddr) (start asked released failed made : ThreadRun Unit),
      start.Initial ZoneImage.low threadZone ∧
      Step threadZone start (.kernelStackAllocate false) asked ∧ asked.callers = [kstack] ∧
      Step threadZone asked (.kernelStackRelease kstack) released ∧
      Step threadZone released (.threadAllocate false .empty secondFails) failed ∧
      failed.threads = [] ∧ failed.kstacks.stacksHead = kstack ∧
      Step threadZone failed (.threadAllocate false .empty fun _ => false) made ∧
      made.threads ≠ [] ∧ made.Correct threadZone := by
  rcases ZoneImage.exists_filled_zone with ⟨zone, zoneReachable, threadZone, zoneMem, large, filled⟩
  have initial : (beforeThreads zone).Initial ZoneImage.low threadZone :=
    ⟨zoneReachable, zoneMem, ⟨_, _, _, _, _, bootedRanges_valid, rfl, rfl⟩, rfl, rfl, rfl, rfl⟩
  have grown : Grown _ 0 (beforeThreads zone).kstacks.kernel :=
    StackRun.sixteenMib_stackInv.grownRun.grown
  have nonNull : threadZone ≠ 0 := by omega
  have four : 4 ≤ pagesLeft (PhysmemBmaset.booted bootedRanges (fun _ => 0)).slots 0 := by
    rw [pagesLeft, StackRun.length_slots_bootedRanges]
    decide
  have fourLeft : 4 ≤ pagesLeft (PhysmemBmaset.booted bootedRanges (fun _ => 0)).slots 4 := by
    rw [pagesLeft, StackRun.length_slots_bootedRanges]
    decide
  obtain ⟨kstack, asked, released, allocates, callers, releases, provided, isZone, isThreads⟩ :=
    exists_provided StackRun.bootedRanges_goodSlots grown four rfl rfl filled
  have tracked : ∃ ledger, Tracks ZoneImage.low released.zone ledger := by
    rw [isZone]
    exact tracks_of_reachable ZoneImage.low_valid zoneReachable
  have isMember : threadZone ∈ released.zone.zones := by
    rw [isZone]
    exact zoneMem
  obtain ⟨failed, fails, providedAgain, sameThreads⟩ :=
    provided.failing tracked isMember nonNull
  obtain ⟨made, makes, isMade⟩ :=
    providedAgain.making StackRun.bootedRanges_goodSlots fourLeft nonNull
  have start : (system Unit ZoneImage.low threadZone).Reachable (beforeThreads zone) :=
    .init initial
  have reachable := (((start.step allocates).step releases).step fails).step makes
  exact ⟨threadZone, kstack, _, asked, released, failed, made, initial, allocates, callers,
    releases, fails, sameThreads.trans isThreads, providedAgain.released.1, makes, isMade,
    correct_of_reachable ZoneImage.low_valid reachable⟩

end ThreadRun

end Rkernel
