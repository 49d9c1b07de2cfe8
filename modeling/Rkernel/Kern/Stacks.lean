import Rkernel.Vm.KernelGrowth

/-!
# Kernel stacks

The functions of `kern/kern_stacks.c`. A stack object is the header at the end of its region, and
is known by its address. Released objects form a list through `st_tail`; a new object is made only
when that list is empty.

`kernel_stack_new` asks for 16 KiB but places the header at the end of what it gets, and
`grow_critical` also succeeds with fewer pages when the region of the kernel or the physical
memory comes to an end. Stacks are of full size in exactly those runs in which this never happens.

The lock around the list is left out, since the calls of a sequence follow each other.
-/

namespace Rkernel

/-- `sizeof(struct kernel_stack)` -/
def KernelStack.sizeof : ℕ := 8

/-- The loop of `calc_size`. It doubles `num`, so it does not take more steps than `size`. -/
def calcSizeLoop (size : ℕ) : (left num : ℕ) → ℕ
  | 0, num => num
  | left + 1, num => if num < size then calcSizeLoop size left (num <<< 1) else num

/-- `calc_size`, for sizes up to `2 ^ 31`. -/
def calcSize (size : ℕ) : ℕ :=
  calcSizeLoop size size 1

/-- On x86, the stack grows down. -/
def halStackGrowsDownward : ℤ := -1

/-- The variable `stacks`, which is the head of a list, the fields of the stack objects by their
address, and the kernel's memory. -/
structure KernelStacks where
  stacksHead : Vaddr
  stTail : Vaddr → Vaddr
  stSp : Vaddr → Vaddr
  kernel : KernelVm

/-- `vm_kalloc_ll(&begin,&size)` as a function of the kernel's memory: the two outputs, or nothing
if it returns 0. -/
abbrev Kalloc := KernelVm → Option (Vaddr × Vaddr) × KernelVm

/-- `vm_kalloc_ll` with a size of 16K. -/
def kallocStack : Kalloc := fun kernel =>
  let growth := vmKallocLl 0 (1 <<< 14) kernel
  (if growth.ret = 0 then none else some (growth.addr, growth.size), growth.kernel)

namespace KernelStacks

def setSp (state : KernelStacks) (kstack sp : Vaddr) : KernelStacks :=
  { state with stSp := Function.update state.stSp kstack sp }

/-- `kernel_stacks_init` -/
def init (state : KernelStacks) : KernelStacks :=
  { state with stacksHead := 0 }

end KernelStacks

def kernelStackNew (kalloc : Kalloc) (state : KernelStacks) : Vaddr × KernelStacks :=
  let base := BitVec.ofNat 32 (calcSize KernelStack.sizeof)
  match kalloc state.kernel with
  | (none, kernel) => (0, { state with kernel := kernel })
  | (some (start, size), kernel) =>
      let state := { state with kernel := kernel }
      let size := size - base
      if halStackGrowsDownward ≠ 0 then
        (start + size, state.setSp (start + size) (start + size))
      else (start, state.setSp start (start + base))

def kernelStackAllocate (kalloc : Kalloc) (state : KernelStacks) : Vaddr × KernelStacks :=
  let kstack := state.stacksHead
  if kstack ≠ 0 then (kstack, { state with stacksHead := state.stTail kstack })
  else kernelStackNew kalloc state

def kernelStackRelease (kstack : Vaddr) (state : KernelStacks) : KernelStacks :=
  if kstack = 0 then state
  else
    { state with
      stTail := Function.update state.stTail kstack state.stacksHead
      stacksHead := kstack }

/-- A call of one of the two functions, or a call by other code that takes kernel memory. -/
inductive StackOp where
  | allocate
  | release (kstack : Vaddr)
  | other (call : KernelCall)

/-- A run: the state, every range of kernel memory that was handed out, the stack objects with the
range that each was made of, and every object that `kernel_stack_allocate` has returned. -/
structure StackRun where
  state : KernelStacks
  ranges : List (Vaddr × Vaddr)
  regions : List (Vaddr × Vaddr × Vaddr)
  returned : List Vaddr

namespace StackRun

/-- The range that a call of `kernel_stack_allocate` takes, if any. -/
def taken (state : KernelStacks) : Option (Vaddr × Vaddr) :=
  if state.stacksHead = 0 then (kallocStack state.kernel).1 else none

def step (run : StackRun) : StackOp → StackRun
  | .allocate =>
      let result := kernelStackAllocate kallocStack run.state
      { state := result.2
        ranges := (taken run.state).toList ++ run.ranges
        regions := (taken run.state).toList.map (fun range => (result.1, range)) ++ run.regions
        returned := if result.1 = 0 then run.returned else result.1 :: run.returned }
  | .release kstack => { run with state := kernelStackRelease kstack run.state }
  | .other call =>
      let grown := KernelRun.step ⟨run.state.kernel, run.ranges⟩ call
      { run with state := { run.state with kernel := grown.kernel }, ranges := grown.returned }

def after (start : StackRun) (ops : List StackOp) : StackRun :=
  ops.foldl step start

/-- The state behind `kern_initmem`, `vm_init` and `kernel_stacks_init`. -/
def booted (ranges : List PhysmemRange) (words : BitArray 32) (mmu : Mmu)
    (rmodss : ℕ → Dataspace) (stTail stSp : Vaddr → Vaddr) : StackRun where
  state := KernelStacks.init
    ⟨0, stTail, stSp, vmInit (PhysmemBmaset.booted ranges words) mmu rmodss⟩
  ranges := []
  regions := []
  returned := []

/-- Only null and objects that were returned are released. -/
def Legal (start : StackRun) (ops : List StackOp) : Prop :=
  ∀ front kstack back, ops = front ++ .release kstack :: back →
    kstack = 0 ∨ kstack ∈ (start.after front).returned

end StackRun

/-- A stack object with a region of 16 KiB from an address on: the header is at its end, the rest
lies below `st_sp`, and its pages are mapped. -/
structure KernelStacks.FullStack (state : KernelStacks) (kstack start : Vaddr) : Prop where
  header : kstack.toNat + KernelStack.sizeof = start.toNat + 0x4000
  usable : start.toNat + (0x4000 - calcSize KernelStack.sizeof) ≤ (state.stSp kstack).toNat
  below : (state.stSp kstack).toNat ≤ kstack.toNat
  mapped : ∀ page < 4,
    state.kernel.frameAt firstRegion (start + BitVec.ofNat 32 page * 0x1000) ≠ 0 ∧
      state.kernel.mmu.MapsWritable (start + BitVec.ofNat 32 page * 0x1000)
        (state.kernel.frameAt firstRegion (start + BitVec.ofNat 32 page * 0x1000))

/-- Two ranges of kernel memory do not overlap. -/
def VaddrsApart (first second : Vaddr × Vaddr) : Prop :=
  first.1.toNat + first.2.toNat ≤ second.1.toNat ∨ second.1.toNat + second.2.toNat ≤ first.1.toNat

/-- Every object that was returned owns a region of full size, and the regions of different objects
do not overlap each other or other memory that was handed out. -/
structure StackRun.FullSize (run : StackRun) : Prop where
  full : ∀ kstack ∈ run.returned, ∃ start, (kstack, start, 0x4000) ∈ run.regions ∧
    run.state.FullStack kstack start
  disjoint : ∀ first ∈ run.regions, ∀ second ∈ run.regions, first.1 ≠ second.1 →
    VaddrsApart first.2 second.2
  owned : ∀ region ∈ run.regions, ∀ range ∈ run.ranges, range ≠ region.2 →
    VaddrsApart range region.2

/-- The physical pages that are not in use. -/
def PhysmemBmaset.freePages (bmas : PhysmemBmaset) : ℕ :=
  (bmas.slots.filter fun slot => !bmas.bitmapBlock.bit slot.1).length

/-- The pages behind the first one without a frame in the first region of the kernel. -/
def KernelVm.unbackedPages (kernel : KernelVm) : ℕ :=
  match kernel.kernelRm.rmChilds with
  | [] => 0
  | rmo :: _ =>
      let ds := kernel.kernelRmodss rmo.rmoObject
      ds.dsNPages.toNat - growSearch ds.dsPages ds.dsNPages.toNat 0

/-- The pages that `grow_critical` can provide. -/
def KernelVm.providable (kernel : KernelVm) : ℕ :=
  min kernel.unbackedPages kernel.memoryAllocator.freePages

namespace StackRun

/-- In every state of a run the stacks are of full size, and if 16 KiB cannot be provided,
`kernel_stack_allocate` returns 0. -/
structure AllFullSize (start : StackRun) (ops : List StackOp) : Prop where
  states : ∀ front back, ops = front ++ back → (start.after front).FullSize
  refuses : ∀ front back, ops = front ++ .allocate :: back →
    (start.after front).state.stacksHead = 0 → (start.after front).state.kernel.providable < 4 →
      (kernelStackAllocate kallocStack (start.after front).state).1 = 0

/-- A call of `kernel_stack_allocate` finds a released object, four pages or no page at all. -/
def Provided (state : KernelStacks) : Prop :=
  state.stacksHead ≠ 0 ∨ state.kernel.providable = 0 ∨ 4 ≤ state.kernel.providable

end StackRun

section Kalloc

variable {slots : List (ℕ × Paddr)} {count : ℕ} {kernel : KernelVm}

/-- Up to four pages are taken for a stack. -/
theorem kallocStack_spec (good : GoodSlots slots) (grown : Grown slots count kernel) :
    ∃ added, added = min 4 (pagesLeft slots count) ∧
      Grown slots (count + added) (kallocStack kernel).2 ∧
      (added = 0 → kallocStack kernel = (none, kernel)) ∧
      (added ≠ 0 → ∃ size : Vaddr, (kallocStack kernel).1 = some (regionPage count, size) ∧
        size.toNat = added * 4096) := by
  have isCall : vmKallocLl 0 (1 <<< 14) kernel = growCritical 0 (1 <<< 14) 4 kernel := rfl
  rcases growCritical_spec good grown 0 (1 <<< 14) 4 with
    ⟨added, isAdded, grownNext, retIff, results, unchanged⟩
  refine ⟨added, isAdded, ?_, ?_, ?_⟩
  · simpa only [kallocStack, isCall] using grownNext
  · intro isZero
    simp only [kallocStack, isCall, if_pos (retIff.mpr isZero), unchanged isZero]
  · intro notZero
    rcases results notZero with ⟨isAddr, isSize⟩
    refine ⟨_, ?_, isSize⟩
    simp only [kallocStack, isCall, if_neg fun ret => notZero (retIff.mp ret), isAddr]

theorem Takes.freePages {taken : ℕ} {bmas : PhysmemBmaset} (takes : Takes slots taken bmas) :
    bmas.freePages = slots.length - taken := by
  rw [PhysmemBmaset.freePages, takes.sameSlots]
  exact takes.marked.length_filter

theorem Grown.providable (good : GoodSlots slots) (grown : Grown slots count kernel) :
    kernel.providable = pagesLeft slots count := by
  have capacity : (kernel.kernelRmodss 1).dsNPages.toNat = 128 := by
    rw [grown.capacity]
    rfl
  simp only [KernelVm.providable, KernelVm.unbackedPages, grown.region, capacity,
    grown.growSearch good, grown.takes.freePages, pagesLeft]

end Kalloc

section New

variable {kalloc : Kalloc} {state : KernelStacks} {kernel : KernelVm} {start size : Vaddr}

theorem kernelStackAllocate_released (released : state.stacksHead ≠ 0) :
    kernelStackAllocate kalloc state =
      (state.stacksHead, { state with stacksHead := state.stTail state.stacksHead }) := by
  simp only [kernelStackAllocate, if_pos released]

theorem kernelStackAllocate_none (empty : state.stacksHead = 0)
    (failed : kalloc state.kernel = (none, kernel)) :
    kernelStackAllocate kalloc state = (0, { state with kernel := kernel }) := by
  simp [kernelStackAllocate, kernelStackNew, empty, failed]

/-- The header of a new object is at the end of the range that was taken. -/
theorem kernelStackAllocate_some (empty : state.stacksHead = 0)
    (given : kalloc state.kernel = (some (start, size), kernel)) :
    kernelStackAllocate kalloc state = (start + (size - 8),
      KernelStacks.setSp { state with kernel := kernel } (start + (size - 8))
        (start + (size - 8))) := by
  have rounded : BitVec.ofNat 32 (calcSize KernelStack.sizeof) = 8 := by decide
  simp [kernelStackAllocate, kernelStackNew, empty, given, rounded, halStackGrowsDownward]

theorem toNat_header {count added : ℕ} (inside : count + added ≤ 128) (some : added ≠ 0)
    (isSize : size.toNat = added * 4096) :
    (regionPage count + (size - 8)).toNat + 8 = (regionPage count).toNat + size.toNat := by
  have begins := toNat_regionPage (show count ≤ 128 by omega)
  have header : (8 : BitVec 32).toNat = 8 := rfl
  have rest : (size - 8).toNat = size.toNat - 8 :=
    BitVec.toNat_sub_of_le (BitVec.le_def.mpr (by omega))
  rw [BitVec.toNat_add, begins, rest]
  omega

theorem ne_zero_header {count added : ℕ} (inside : count + added ≤ 128) (some : added ≠ 0)
    (isSize : size.toNat = added * 4096) : regionPage count + (size - 8) ≠ 0 := by
  intro isNull
  have header := toNat_header inside some isSize
  have begins := toNat_regionPage (show count ≤ 128 by omega)
  have zero : (0 : BitVec 32).toNat = 0 := rfl
  rw [isNull] at header
  omega

end New

instance : Std.Symm VaddrsApart where
  symm _ _ apart := apart.symm

/-- The objects of a run: each has its header at the end of its range, and those in the list of
the released ones have been returned before. -/
structure StackInv (slots : List (ℕ × Paddr)) (count : ℕ) (released : List Vaddr)
    (run : StackRun) : Prop where
  grownRun : GrownRun slots count ⟨run.state.kernel, run.ranges⟩
  range : ∀ region ∈ run.regions, region.2 ∈ run.ranges
  header : ∀ region ∈ run.regions, region.1.toNat + 8 = region.2.1.toNat + region.2.2.toNat
  sp : ∀ region ∈ run.regions, run.state.stSp region.1 = region.1
  returned : ∀ kstack ∈ run.returned, ∃ range, (kstack, range) ∈ run.regions
  wasReturned : ∀ kstack ∈ released, kstack ∈ run.returned
  head : run.state.stacksHead = 0 ∨ run.state.stacksHead ∈ released
  tails : ∀ kstack ∈ released, run.state.stTail kstack = 0 ∨ run.state.stTail kstack ∈ released

namespace StackInv

variable {slots : List (ℕ × Paddr)} {count : ℕ} {released : List Vaddr} {run : StackRun}

theorem apart (inv : StackInv slots count released run) {first second : Vaddr × Vaddr}
    (firstMem : first ∈ run.ranges) (secondMem : second ∈ run.ranges) (different : first ≠ second) :
    VaddrsApart first second := by
  have pairwise : run.ranges.Pairwise VaddrsApart := inv.grownRun.disjoint.imp Or.symm
  exact pairwise.forall firstMem secondMem different

/-- If all regions have 16 KiB, the run is as it should be. -/
theorem fullSize (good : GoodSlots slots) (inv : StackInv slots count released run)
    (sizes : ∀ region ∈ run.regions, region.2.2 = 0x4000) : run.FullSize := by
  have fullSize : (0x4000 : BitVec 32).toNat = 0x4000 := rfl
  have rounded : calcSize KernelStack.sizeof = 8 := by decide
  refine ⟨?_, ?_, ?_⟩
  · intro kstack kstackMem
    rcases inv.returned kstack kstackMem with ⟨⟨start, size⟩, regionMem⟩
    have isSize : size = 0x4000 := sizes _ regionMem
    subst isSize
    have header : kstack.toNat + 8 = start.toNat + 0x4000 := inv.header _ regionMem
    have isSp : run.state.stSp kstack = kstack := inv.sp _ regionMem
    refine ⟨start, regionMem, header, ?_, ?_, ?_⟩
    · rw [isSp, rounded]
      omega
    · exact Nat.le_of_eq (congrArg BitVec.toNat isSp)
    · intro page pageLt
      apply (inv.grownRun.correct good).backed (start, 0x4000) (inv.range _ regionMem)
      simp only [fullSize]
      omega
  · intro first firstMem second secondMem different
    apply inv.apart (inv.range first firstMem) (inv.range second secondMem)
    intro sameRange
    apply different
    apply BitVec.eq_of_toNat_eq
    have firstHeader := inv.header first firstMem
    have secondHeader := inv.header second secondMem
    rw [sameRange] at firstHeader
    omega
  · intro region regionMem range rangeMem different
    exact inv.apart rangeMem (inv.range region regionMem) different

/-- A stack object was made of up to four new pages. -/
theorem allocate_new (inv : StackInv slots count released run) {kernel : KernelVm} {added : ℕ}
    {size : Vaddr} (empty : run.state.stacksHead = 0)
    (given : kallocStack run.state.kernel = (some (regionPage count, size), kernel))
    (grown : Grown slots (count + added) kernel) (some : added ≠ 0)
    (isSize : size.toNat = added * 4096) :
    StackInv slots (count + added) released (run.step .allocate) := by
  have inside := grown.inside
  have header := toNat_header inside some isSize
  have begins := toNat_regionPage (show count ≤ 128 by omega)
  have notNull := ne_zero_header inside some isSize
  have other : ∀ region ∈ run.regions, region.1 ≠ regionPage count + (size - 8) := by
    intro region regionMem same
    have earlierHeader := inv.header region regionMem
    rcases inv.grownRun.returned region.2 (inv.range region regionMem) with
      ⟨start, pages, bound, isStart, isLength⟩
    have earlier := toNat_regionPage (show start ≤ 128 by omega)
    rw [same, isStart, isLength] at earlierHeader
    omega
  simp only [StackRun.step, kernelStackAllocate_some empty given, StackRun.taken, if_pos empty,
    given, if_neg notNull, Option.toList_some, List.map_cons, List.map_nil, List.cons_append,
    List.nil_append, KernelStacks.setSp]
  refine ⟨inv.grownRun.extend grown isSize, ?_, ?_, ?_, ?_, ?_, inv.head, inv.tails⟩
  · rintro region (_ | ⟨_, regionMem⟩)
    · exact List.mem_cons_self
    · exact List.mem_cons_of_mem _ (inv.range region regionMem)
  · rintro region (_ | ⟨_, regionMem⟩)
    · exact header
    · exact inv.header region regionMem
  · rintro region (_ | ⟨_, regionMem⟩)
    · exact Function.update_self ..
    · have kept := @Function.update_of_ne _ _ _ _ _ (other region regionMem)
        (regionPage count + (size - 8)) run.state.stSp
      exact kept.trans (inv.sp region regionMem)
  · rintro kstack (_ | ⟨_, kstackMem⟩)
    · exact ⟨_, List.mem_cons_self⟩
    · rcases inv.returned kstack kstackMem with ⟨range, regionMem⟩
      exact ⟨range, List.mem_cons_of_mem _ regionMem⟩
  · intro kstack kstackMem
    exact List.mem_cons_of_mem _ (inv.wasReturned kstack kstackMem)

theorem allocate_released (inv : StackInv slots count released run)
    (nonempty : run.state.stacksHead ≠ 0) :
    StackInv slots count released (run.step .allocate) := by
  have headMem := inv.head.resolve_left nonempty
  simp only [StackRun.step, kernelStackAllocate_released nonempty, StackRun.taken,
    if_neg nonempty, Option.toList_none, List.map_nil, List.nil_append]
  refine ⟨inv.grownRun, inv.range, inv.header, inv.sp, ?_, ?_, inv.tails _ headMem, inv.tails⟩
  · rintro kstack (_ | ⟨_, kstackMem⟩)
    · exact inv.returned _ (inv.wasReturned _ headMem)
    · exact inv.returned kstack kstackMem
  · intro kstack kstackMem
    exact List.mem_cons_of_mem _ (inv.wasReturned kstack kstackMem)

/-- A call of `kernel_stack_allocate` returns a released object, fails, or makes an object of the
pages it gets. -/
theorem allocate_cases (good : GoodSlots slots) (inv : StackInv slots count released run) :
    (run.state.stacksHead ≠ 0 ∧ StackInv slots count released (run.step .allocate) ∧
      (run.step .allocate).regions = run.regions) ∨
    (run.state.stacksHead = 0 ∧ run.state.kernel.providable = 0 ∧
      (kernelStackAllocate kallocStack run.state).1 = 0 ∧ run.step .allocate = run) ∨
    ∃ kstack start size, run.state.stacksHead = 0 ∧ run.state.kernel.providable ≠ 0 ∧
      (kernelStackAllocate kallocStack run.state).1 = kstack ∧ kstack ≠ 0 ∧
      (run.step .allocate).regions = (kstack, start, size) :: run.regions ∧
      size.toNat = min 4 run.state.kernel.providable * 4096 ∧
      StackInv slots (count + min 4 run.state.kernel.providable) released (run.step .allocate) := by
  have grown : Grown slots count run.state.kernel := inv.grownRun.grown
  by_cases empty : run.state.stacksHead = 0
  · right
    rcases kallocStack_spec good grown with ⟨added, isAdded, grownNext, failure, success⟩
    rw [grown.providable good, ← isAdded]
    by_cases isZero : added = 0
    · left
      have failed := failure isZero
      have allocated := kernelStackAllocate_none empty failed
      refine ⟨empty, by omega, by rw [allocated], ?_⟩
      simp only [StackRun.step, StackRun.taken, if_pos empty, allocated, failed, Option.toList_none,
        List.map_nil, List.nil_append]
      rfl
    · right
      rcases success isZero with ⟨size, given, isSize⟩
      have answer : kallocStack run.state.kernel =
          (some (regionPage count, size), (kallocStack run.state.kernel).2) := Prod.ext given rfl
      have allocated := kernelStackAllocate_some empty answer
      refine ⟨_, regionPage count, size, empty, by omega, by rw [allocated], ?_, ?_, isSize,
        inv.allocate_new empty answer grownNext isZero isSize⟩
      · exact ne_zero_header grownNext.inside isZero isSize
      · simp [StackRun.step, StackRun.taken, empty, allocated, given]
  · left
    refine ⟨empty, inv.allocate_released empty, ?_⟩
    simp only [StackRun.step, StackRun.taken, if_neg empty, Option.toList_none, List.map_nil,
      List.nil_append]

theorem release (inv : StackInv slots count released run) {kstack : Vaddr}
    (legal : kstack = 0 ∨ kstack ∈ run.returned) :
    ∃ after, StackInv slots count after (run.step (.release kstack)) := by
  by_cases isNull : kstack = 0
  · refine ⟨released, ?_⟩
    simp only [StackRun.step, kernelStackRelease, if_pos isNull]
    exact inv
  · have wasReturned := legal.resolve_left isNull
    refine ⟨kstack :: released, ?_⟩
    simp only [StackRun.step, kernelStackRelease, if_neg isNull]
    refine ⟨inv.grownRun, inv.range, inv.header, inv.sp, inv.returned, ?_,
      Or.inr List.mem_cons_self, ?_⟩
    · rintro other (_ | ⟨_, otherMem⟩)
      · exact wasReturned
      · exact inv.wasReturned other otherMem
    · intro other otherMem
      by_cases same : other = kstack
      · subst same
        simp only [Function.update_self]
        exact inv.head.imp_right (List.mem_cons_of_mem _)
      · simp only [Function.update_of_ne same]
        have inList := (List.mem_cons.mp otherMem).resolve_left same
        exact (inv.tails other inList).imp_right (List.mem_cons_of_mem _)

theorem other (good : GoodSlots slots) (inv : StackInv slots count released run)
    (call : KernelCall) :
    ∃ after, StackInv slots after released (run.step (.other call)) := by
  rcases inv.grownRun.step good call with ⟨added, grownRun⟩
  refine ⟨count + added, grownRun, ?_, inv.header, inv.sp, inv.returned, inv.wasReturned, inv.head,
    inv.tails⟩
  intro region regionMem
  have earlier := inv.range region regionMem
  simp only [StackRun.step, KernelRun.step]
  split
  · exact earlier
  · exact List.mem_cons_of_mem _ earlier

theorem step (good : GoodSlots slots) (inv : StackInv slots count released run) {op : StackOp}
    (legal : ∀ kstack, op = .release kstack → kstack = 0 ∨ kstack ∈ run.returned) :
    ∃ next after, StackInv slots next after (run.step op) := by
  cases op with
  | allocate =>
      rcases inv.allocate_cases good with ⟨_, next, _⟩ | ⟨_, _, _, same⟩ |
        ⟨kstack, start, size, _, _, _, _, _, _, next⟩
      · exact ⟨_, _, next⟩
      · rw [same]
        exact ⟨_, _, inv⟩
      · exact ⟨_, _, next⟩
  | release kstack =>
      rcases inv.release (legal kstack rfl) with ⟨after, next⟩
      exact ⟨_, after, next⟩
  | other call =>
      rcases inv.other good call with ⟨after, next⟩
      exact ⟨after, _, next⟩

/-- Where every call is provided for, the objects get 16 KiB. -/
theorem step_sizes (good : GoodSlots slots) (inv : StackInv slots count released run) {op : StackOp}
    (provided : op = .allocate → StackRun.Provided run.state)
    (sizes : ∀ region ∈ run.regions, region.2.2 = 0x4000) :
    ∀ region ∈ (run.step op).regions, region.2.2 = 0x4000 := by
  cases op with
  | allocate =>
      rcases inv.allocate_cases good with ⟨_, _, same⟩ | ⟨_, _, _, same⟩ |
        ⟨kstack, start, size, empty, some, _, _, regions, isSize, _⟩
      · rwa [same]
      · rwa [same]
      · have four : 4 ≤ run.state.kernel.providable := by
          rcases provided rfl with nonempty | none | four
          · exact absurd empty nonempty
          · exact absurd none some
          · exact four
        have full : size = 0x4000 := by
          apply BitVec.eq_of_toNat_eq
          rw [isSize, Nat.min_eq_left four]
          rfl
        rw [regions]
        rintro region (_ | ⟨_, regionMem⟩)
        · exact full
        · exact sizes region regionMem
  | release kstack => exact sizes
  | other call => exact sizes

end StackInv

namespace StackRun

section Runs

variable {slots : List (ℕ × Paddr)} {start : StackRun} {ops : List StackOp}

theorem after_append_singleton (start : StackRun) (front : List StackOp) (op : StackOp) :
    start.after (front ++ [op]) = (start.after front).step op := by
  simp [after]

/-- The invariant holds in every state of a legal run. -/
theorem Legal.stackInv (good : GoodSlots slots) (initial : StackInv slots 0 [] start)
    (legal : start.Legal ops) {front back : List StackOp} (isFront : ops = front ++ back) :
    ∃ count released, StackInv slots count released (start.after front) := by
  induction front using List.reverseRecOn generalizing back with
  | nil => exact ⟨0, [], initial⟩
  | append_singleton front op ih =>
      rw [List.append_assoc, List.singleton_append] at isFront
      rcases ih isFront with ⟨count, released, inv⟩
      rw [after_append_singleton]
      apply inv.step good
      intro kstack isRelease
      exact legal front kstack back (isRelease ▸ isFront)

theorem Legal.sizes (good : GoodSlots slots) (initial : StackInv slots 0 [] start)
    (noRegion : start.regions = []) (legal : start.Legal ops)
    (provided : ∀ front back, ops = front ++ .allocate :: back →
      Provided (start.after front).state)
    {front back : List StackOp} (isFront : ops = front ++ back) :
    ∀ region ∈ (start.after front).regions, region.2.2 = 0x4000 := by
  induction front using List.reverseRecOn generalizing back with
  | nil => simp [after, noRegion]
  | append_singleton front op ih =>
      rw [List.append_assoc, List.singleton_append] at isFront
      rcases legal.stackInv good initial isFront with ⟨count, released, inv⟩
      rw [after_append_singleton]
      apply inv.step_sizes good ?_ (ih isFront)
      intro isAllocate
      exact provided front back (isAllocate ▸ isFront)

end Runs

section Booted

variable {first second : PhysmemRange}

theorem booted_stackInv (valid : ValidRanges [first, second]) (words : BitArray 32)
    (good : GoodSlots (PhysmemBmaset.booted [first, second] words).slots) (mmu : Mmu)
    (rmodss : ℕ → Dataspace) (stTail stSp : Vaddr → Vaddr) :
    StackInv (PhysmemBmaset.booted [first, second] words).slots 0 []
      (booted [first, second] words mmu rmodss stTail stSp) := by
  have takes : Takes (PhysmemBmaset.booted [first, second] words).slots 0
      (PhysmemBmaset.booted [first, second] words) :=
    ⟨rfl, (PhysmemBmaset.booted_spec valid words).2⟩
  refine ⟨⟨vmInit_grown good takes mmu rmodss, ?_, ?_⟩, ?_, ?_, ?_, ?_, ?_, Or.inl rfl, ?_⟩
  all_goals simp [booted]

/-- In the runs after boot, kernel stacks are of full size if and only if every call of
`kernel_stack_allocate` finds a released object, four pages or none. -/
theorem allFullSize_iff (valid : ValidRanges [first, second]) (fromZero : first.pmBegin = 0)
    (words : BitArray 32) (mmu : Mmu) (rmodss : ℕ → Dataspace) (stTail stSp : Vaddr → Vaddr)
    (ops : List StackOp)
    (legal : (booted [first, second] words mmu rmodss stTail stSp).Legal ops) :
    (booted [first, second] words mmu rmodss stTail stSp).AllFullSize ops ↔
      ∀ front back, ops = front ++ .allocate :: back →
        Provided ((booted [first, second] words mmu rmodss stTail stSp).after front).state := by
  have good := booted_goodSlots valid fromZero words
  have initial := booted_stackInv valid words good mmu rmodss stTail stSp
  constructor
  · intro allFull front back isFront
    rcases legal.stackInv good initial isFront with ⟨count, released, inv⟩
    rcases inv.allocate_cases good with ⟨nonempty, _⟩ | ⟨_, none, _⟩ |
      ⟨kstack, start, size, empty, some, isResult, notNull, _⟩
    · exact Or.inl nonempty
    · exact Or.inr (Or.inl none)
    · right
      right
      by_contra less
      apply notNull
      rw [← isResult]
      exact allFull.refuses front back isFront empty (Nat.not_le.mp less)
  · intro provided
    constructor
    · intro front back isFront
      rcases legal.stackInv good initial isFront with ⟨count, released, inv⟩
      exact inv.fullSize good (legal.sizes good initial rfl provided isFront)
    · intro front back isFront empty less
      rcases legal.stackInv good initial isFront with ⟨count, released, inv⟩
      rcases inv.allocate_cases good with ⟨nonempty, _⟩ | ⟨_, _, failed, _⟩ |
        ⟨kstack, start, size, _, some, _⟩
      · exact absurd empty nonempty
      · exact failed
      · rcases provided front back isFront with nonempty | none | four
        · exact absurd empty nonempty
        · exact absurd none some
        · omega

end Booted

/-- A machine with 16 MiB after boot. -/
def sixteenMib : StackRun :=
  booted bootedRanges (fun _ => 0) ⟨fun _ => 0, fun _ _ => 0⟩ (fun _ => ⟨0, 0, fun _ => 0⟩)
    (fun _ => 0) (fun _ => 0)

theorem bootedRanges_goodSlots :
    GoodSlots (PhysmemBmaset.booted bootedRanges (fun _ => 0)).slots :=
  booted_goodSlots bootedRanges_valid rfl _

theorem sixteenMib_stackInv :
    StackInv (PhysmemBmaset.booted bootedRanges (fun _ => 0)).slots 0 [] sixteenMib :=
  booted_stackInv bootedRanges_valid _ bootedRanges_goodSlots _ _ _ _

theorem length_slots_bootedRanges :
    (PhysmemBmaset.booted bootedRanges (fun _ => 0)).slots.length = 3743 := by
  rw [PhysmemBmaset.length_slots]
  rfl

theorem providable_sixteenMib : sixteenMib.state.kernel.providable = 128 := by
  have left : sixteenMib.state.kernel.providable = _ :=
    sixteenMib_stackInv.grownRun.grown.providable bootedRanges_goodSlots
  rw [pagesLeft, length_slots_bootedRanges] at left
  omega

theorem kernelStackAllocate_sixteenMib :
    (kernelStackAllocate kallocStack sixteenMib.state).1 ≠ 0 := by
  rcases sixteenMib_stackInv.allocate_cases bootedRanges_goodSlots with ⟨nonempty, _⟩ |
    ⟨_, none, _⟩ | ⟨kstack, start, size, _, _, isResult, notNull, _⟩
  · exact absurd rfl nonempty
  · rw [providable_sixteenMib] at none
    omega
  · rwa [isResult]

theorem legal_of_no_release {start : StackRun} {ops : List StackOp}
    (none : ∀ kstack, .release kstack ∉ ops) : start.Legal ops := by
  rintro front kstack back rfl
  exact absurd (List.mem_append_right front List.mem_cons_self) (none kstack)

theorem allFullSize_sixteenMib : sixteenMib.AllFullSize [.allocate] := by
  apply (allFullSize_iff bootedRanges_valid rfl _ _ _ _ _ _ (legal_of_no_release (by simp))).mpr
  intro front back isFront
  have isStart : front = [] := by
    cases front with
    | nil => rfl
    | cons op front => simp at isFront
  subst isStart
  have four : 4 ≤ sixteenMib.state.kernel.providable := by
    rw [providable_sixteenMib]
    omega
  exact Or.inr (Or.inr four)

/-- All but two of the 128 pages of the kernel's region are in use. -/
def crowded : StackRun :=
  sixteenMib.step (.other (.vmKallocLl 0 0x7e000))

theorem kernel_other (run : StackRun) (call : KernelCall) :
    (run.step (.other call)).state.kernel = (call.apply run.state.kernel).kernel :=
  rfl

theorem vmKallocLl_126_pages (kernel : KernelVm) :
    (KernelCall.vmKallocLl 0 0x7e000).apply kernel = growCritical 0 0x7e000 126 kernel :=
  rfl

theorem providable_crowded : crowded.state.kernel.providable = 2 := by
  rcases growCritical_spec bootedRanges_goodSlots sixteenMib_stackInv.grownRun.grown 0 0x7e000 126
    with ⟨added, isAdded, grown, _⟩
  have left := grown.providable bootedRanges_goodSlots
  rw [pagesLeft, length_slots_bootedRanges] at isAdded left
  rw [crowded, kernel_other, vmKallocLl_126_pages, left]
  omega

/-- A stack in two pages is returned. -/
theorem not_allFullSize_crowded :
    sixteenMib.Legal [.other (.vmKallocLl 0 0x7e000), .allocate] ∧
      ¬sixteenMib.AllFullSize [.other (.vmKallocLl 0 0x7e000), .allocate] := by
  refine ⟨legal_of_no_release (by simp), ?_⟩
  intro allFull
  have full := allFull.states ([.other (.vmKallocLl 0 0x7e000)] ++ [.allocate]) [] rfl
  rw [after_append_singleton] at full
  change (crowded.step .allocate).FullSize at full
  rcases sixteenMib_stackInv.other bootedRanges_goodSlots (.vmKallocLl 0 0x7e000) with ⟨count, inv⟩
  have invCrowded : StackInv _ count [] crowded := inv
  have outcomes := invCrowded.allocate_cases bootedRanges_goodSlots
  rw [providable_crowded] at outcomes
  rcases outcomes with ⟨nonempty, _⟩ | ⟨_, none, _⟩ |
    ⟨kstack, start, size, _, _, isResult, notNull, regions, isSize, _⟩
  · exact nonempty rfl
  · omega
  · have wasReturned : kstack ∈ (crowded.step .allocate).returned := by
      simp only [step, isResult, if_neg notNull]
      exact List.mem_cons_self
    rcases full.full kstack wasReturned with ⟨begins, regionMem, _⟩
    have noRegions : crowded.regions = [] := rfl
    rw [regions, noRegions, List.mem_singleton, Prod.mk.injEq, Prod.mk.injEq] at regionMem
    rw [← regionMem.2.2] at isSize
    exact absurd isSize (by decide)

end StackRun

end Rkernel
