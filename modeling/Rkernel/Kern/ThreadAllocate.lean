import Rkernel.Kern.Stacks
import Rkernel.Kern.Thread
import Rkernel.Kern.ZallocSafety
import Rkernel.Lib.LinkedList

/-!
# Allocation of threads

`thread_allocate` (`kern/kern_thread.c`) takes a thread object from its zone and two kernel stacks
for it. Both stacks are taken before either is tested; if one of them is missing, what was taken is
given back. The three results below say what is left behind a call for each of its outcomes.

The fields of a thread object are kept by the address of the object, apart from the bytes of the
zone, and its ring nodes are nodes of the ring heap.
-/

namespace Rkernel

/-- The fields of a `struct thread` apart from its ring nodes. -/
structure ThreadObject (Wq : Type) where
  sched : Thread Wq
  tStorage : Fin 4 → Vaddr
  tIstacks : Fin 2 → Vaddr
  tIstobjs : Fin 2 → Vaddr

/-- The stack objects in the slots of a thread. -/
def ThreadObject.stackObjects {Wq : Type} (object : ThreadObject Wq) : List Vaddr :=
  [object.tIstobjs 0, object.tIstobjs 1]

/-- The zones, the stacks, the thread objects and the ring nodes. -/
structure ThreadKernel (Wq : Type) where
  memory : Memory
  kstacks : KernelStacks
  thread : ℕ → ThreadObject Wq
  rings : RingHeap (RingAddr ℕ Wq) ℕ

namespace ThreadKernel

variable {Wq : Type}

/-- `thr->t_istobjs[i] = kernel_stack_allocate()` -/
def allocateStack (kalloc : Kalloc) (kernel : ThreadKernel Wq) (thr : ℕ) (i : Fin 2) :
    ThreadKernel Wq :=
  let result := kernelStackAllocate kalloc kernel.kstacks
  let object := kernel.thread thr
  { kernel with
    kstacks := result.2
    thread := Function.update kernel.thread thr
      { object with tIstobjs := Function.update object.tIstobjs i result.1 } }

/-- `if(thr->t_istobjs[i]) kernel_stack_release(thr->t_istobjs[i])` -/
def releaseStack (kernel : ThreadKernel Wq) (thr : ℕ) (i : Fin 2) : ThreadKernel Wq :=
  if (kernel.thread thr).tIstobjs i ≠ 0 then
    { kernel with kstacks := kernelStackRelease ((kernel.thread thr).tIstobjs i) kernel.kstacks }
  else kernel

/-- What stands behind the label `failure`. -/
def giveBack (kernel : ThreadKernel Wq) (thr : ℕ) : ThreadKernel Wq :=
  let kernel := kernel.releaseStack thr 0
  let kernel := kernel.releaseStack thr 1
  { kernel with memory := zfree kernel.memory thr }

variable [DecidableEq Wq]

/-- `*thr = thread_template`; what `thread_init` does not set is zero. -/
def copyTemplate (kernel : ThreadKernel Wq) (thr : ℕ) : ThreadKernel Wq :=
  { kernel with
    thread := Function.update kernel.thread thr
      ⟨threadTemplate Wq, fun _ => 0, fun _ => 0, fun _ => 0⟩
    rings := Function.update (Function.update kernel.rings (.tQueueEntry thr) ⟨none, none, none⟩)
      (.tWaitEntry thr) ⟨none, none, none⟩ }

/-- The template and the two stacks. -/
def withStacks (kalloc : Fin 2 → Kalloc) (kernel : ThreadKernel Wq) (thr : ℕ) : ThreadKernel Wq :=
  let kernel := kernel.copyTemplate thr
  let kernel := kernel.allocateStack (kalloc 0) thr 0
  kernel.allocateStack (kalloc 1) thr 1

/-- The stack pointers of a thread with its stacks, and its queue entry. -/
def setUp (kernel : ThreadKernel Wq) (thr : ℕ) : ThreadKernel Wq :=
  let object := kernel.thread thr
  let istacks := fun i => kernel.kstacks.stSp (object.tIstobjs i)
  { kernel with
    thread := Function.update kernel.thread thr
      { object with
        tIstacks := istacks
        tStorage := Function.update object.tStorage 0 (istacks 0) }
    rings := linkedRingInit kernel.rings (.tQueueEntry thr) }

end ThreadKernel

/-- `thread_allocate`, with the functions that its callees use for memory: `zalloc(thread_zone)` and
the calls of `vm_kalloc_ll` for the two stacks. -/
def threadAllocate {Wq : Type} [DecidableEq Wq] (zalloc : Memory → Except ZoneStop (ℕ × Memory))
    (kalloc : Fin 2 → Kalloc) (kernel : ThreadKernel Wq) :
    Except ZoneStop (ℕ × ThreadKernel Wq) := do
  let (thr, memory) ← zalloc kernel.memory
  let kernel := { kernel with memory := memory }
  if thr = 0 then return (0, kernel)
  let kernel := kernel.withStacks kalloc thr
  if (kernel.thread thr).tIstobjs 0 = 0 ∨ (kernel.thread thr).tIstobjs 1 = 0 then
    return (0, kernel.giveBack thr)
  else return (thr, kernel.setUp thr)

/-- The first stack of a thread, with the stacks behind its allocation. -/
def firstStack (kalloc : Fin 2 → Kalloc) (state : KernelStacks) : Vaddr × KernelStacks :=
  kernelStackAllocate (kalloc 0) state

def secondStack (kalloc : Fin 2 → Kalloc) (state : KernelStacks) : Vaddr × KernelStacks :=
  kernelStackAllocate (kalloc 1) (firstStack kalloc state).2

/-- The object that an allocation returned, if any. -/
def stackResult (kstack : Vaddr) : List Vaddr :=
  if kstack = 0 then [] else [kstack]

/-- The object that a call of `kernel_stack_allocate` makes, if any. -/
def stackCreated (kalloc : Kalloc) (state : KernelStacks) : List Vaddr :=
  if state.stacksHead = 0 then stackResult (kernelStackAllocate kalloc state).1 else []

/-- The stack objects made for a thread. -/
def threadCreated (kalloc : Fin 2 → Kalloc) (state : KernelStacks) : List Vaddr :=
  stackCreated (kalloc 1) (firstStack kalloc state).2 ++ stackCreated (kalloc 0) state

/-- The object and the stacks of a call that failed have been given back. -/
structure GivenBack {Wq : Type} (kalloc : Fin 2 → Kalloc) (object : ℕ) (memory : Memory)
    (kernel after : ThreadKernel Wq) : Prop where
  memory : after.memory = zfree memory object
  kstacks : after.kstacks = kernelStackRelease (secondStack kalloc kernel.kstacks).1
    (kernelStackRelease (firstStack kalloc kernel.kstacks).1 (secondStack kalloc kernel.kstacks).2)
  others : ∀ other, other ≠ object → after.thread other = kernel.thread other

/-- The thread of a call that succeeded has its stacks. -/
structure IsSetUp {Wq : Type} (kalloc : Fin 2 → Kalloc) (object : ℕ) (memory : Memory)
    (kernel after : ThreadKernel Wq) : Prop where
  memory : after.memory = memory
  kstacks : after.kstacks = (secondStack kalloc kernel.kstacks).2
  first : (firstStack kalloc kernel.kstacks).1 ≠ 0
  second : (secondStack kalloc kernel.kstacks).1 ≠ 0
  isFirst : (after.thread object).tIstobjs 0 = (firstStack kalloc kernel.kstacks).1
  isSecond : (after.thread object).tIstobjs 1 = (secondStack kalloc kernel.kstacks).1
  intStack : (after.thread object).tStorage 0 =
    after.kstacks.stSp ((after.thread object).tIstobjs 0)
  others : ∀ other, other ≠ object → after.thread other = kernel.thread other

section Results

variable {Wq : Type} [DecidableEq Wq] {kalloc : Fin 2 → Kalloc} {kernel : ThreadKernel Wq}
  {thr other : ℕ}

namespace ThreadKernel

@[simp]
theorem withStacks_memory : (kernel.withStacks kalloc thr).memory = kernel.memory :=
  rfl

@[simp]
theorem withStacks_kstacks :
    (kernel.withStacks kalloc thr).kstacks = (secondStack kalloc kernel.kstacks).2 :=
  rfl

@[simp]
theorem withStacks_first : ((kernel.withStacks kalloc thr).thread thr).tIstobjs 0 =
    (firstStack kalloc kernel.kstacks).1 := by
  simp [withStacks, allocateStack, copyTemplate, firstStack]

@[simp]
theorem withStacks_second : ((kernel.withStacks kalloc thr).thread thr).tIstobjs 1 =
    (secondStack kalloc kernel.kstacks).1 := by
  simp [withStacks, allocateStack, copyTemplate, firstStack, secondStack]

theorem withStacks_thread_of_ne (different : other ≠ thr) :
    (kernel.withStacks kalloc thr).thread other = kernel.thread other := by
  simp [withStacks, allocateStack, copyTemplate, different]

omit [DecidableEq Wq] in
/-- The test before the call does nothing, since the function tests its argument as well. -/
theorem releaseStack_eq (kernel : ThreadKernel Wq) (thr : ℕ) (i : Fin 2) :
    kernel.releaseStack thr i = { kernel with
      kstacks := kernelStackRelease ((kernel.thread thr).tIstobjs i) kernel.kstacks } := by
  rw [releaseStack]
  split
  · rfl
  · rename_i isNull
    rw [not_not] at isNull
    simp [kernelStackRelease, isNull]

end ThreadKernel

variable {zalloc : Memory → Except ZoneStop (ℕ × Memory)} {object : ℕ} {memory : Memory}

theorem threadAllocate_null (taken : zalloc kernel.memory = .ok (0, memory)) :
    threadAllocate zalloc kalloc kernel = .ok (0, { kernel with memory := memory }) := by
  simp [threadAllocate, taken, bind, Except.bind, pure, Except.pure]

theorem threadAllocate_failure (taken : zalloc kernel.memory = .ok (object, memory))
    (nonNull : object ≠ 0)
    (failed : (firstStack kalloc kernel.kstacks).1 = 0 ∨
      (secondStack kalloc kernel.kstacks).1 = 0) :
    ∃ after, threadAllocate zalloc kalloc kernel = .ok (0, after) ∧
      GivenBack kalloc object memory kernel after := by
  refine ⟨((ThreadKernel.withStacks kalloc { kernel with memory := memory } object).giveBack
    object), ?_, ?_, ?_, ?_⟩
  · simp only [threadAllocate, taken, bind, Except.bind, pure, Except.pure, if_neg nonNull,
      ThreadKernel.withStacks_first, ThreadKernel.withStacks_second, if_pos failed]
  · simp [ThreadKernel.giveBack, ThreadKernel.releaseStack_eq]
  · simp [ThreadKernel.giveBack, ThreadKernel.releaseStack_eq]
  · intro other different
    simp only [ThreadKernel.giveBack, ThreadKernel.releaseStack_eq]
    exact ThreadKernel.withStacks_thread_of_ne different

theorem threadAllocate_success (taken : zalloc kernel.memory = .ok (object, memory))
    (nonNull : object ≠ 0) (first : (firstStack kalloc kernel.kstacks).1 ≠ 0)
    (second : (secondStack kalloc kernel.kstacks).1 ≠ 0) :
    ∃ after, threadAllocate zalloc kalloc kernel = .ok (object, after) ∧
      IsSetUp kalloc object memory kernel after := by
  refine ⟨((ThreadKernel.withStacks kalloc { kernel with memory := memory } object).setUp object),
    ?_, rfl, rfl, first, second, ?_, ?_, ?_, ?_⟩
  · simp only [threadAllocate, taken, bind, Except.bind, pure, Except.pure, if_neg nonNull,
      ThreadKernel.withStacks_first, ThreadKernel.withStacks_second,
      if_neg (not_or.mpr ⟨first, second⟩)]
  · simp [ThreadKernel.setUp]
  · simp [ThreadKernel.setUp]
  · simp [ThreadKernel.setUp]
  · intro other different
    have kept := @ThreadKernel.withStacks_thread_of_ne _ _ kalloc { kernel with memory := memory }
      object other different
    simpa [ThreadKernel.setUp, different] using kept

end Results

end Rkernel
