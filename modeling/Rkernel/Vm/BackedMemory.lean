import Rkernel.Arch.BootTables
import Rkernel.Arch.TlbFlush

/-!
# Kernel memory as memory

`vm_alloc_critical` and `vm_kalloc_ll` (`vm/kmem_util2.c`) hand out addresses. Here they work on
page tables in physical memory, which `pmap_init` has made and `pmap_enter` writes through the
window, and what they hand out is used: words are stored at these addresses and loaded from them.
From boot on no call panics, no access faults, and the addresses are memory. A word that is loaded
is the one that was stored last, whatever has been allocated or stored elsewhere since.
-/

namespace Rkernel

/-- The kernel's memory, with the page tables in physical memory. -/
structure PhysKernel where
  kernel : KernelVm
  mem : PhysMem
  view : kernel.mmu = mem.toMmu

/-- The result of a call. -/
structure PhysGrowth where
  ret : ℤ
  addr : Vaddr
  size : Vaddr
  state : PhysKernel

/-- The result in the model without the window. -/
def PhysGrowth.growth (growth : PhysGrowth) : Growth :=
  ⟨growth.ret, growth.addr, growth.size, growth.state.kernel⟩

namespace PhysKernel

/-- What `vm_init` does behind `pmap_init`. -/
def behindPmapInit (rmodss : ℕ → Dataspace) (paged : PhysmemBmaset × PhysMem) : PhysKernel where
  kernel := rmInit
    { kernelPd := pdInit
      kernelRm := rmConstruct 0
      kernelRmoi := 0
      kernelRmodss := rmodss
      memoryAllocator := paged.1
      mmu := paged.2.toMmu }
  mem := paged.2
  view := by rw [rmInit_eq]

/-- `vm_init`; no result means that `pmap_init` does not return. -/
def vmInit (bmas : PhysmemBmaset) (boot : PhysMem) (rmodss : ℕ → Dataspace) : Option PhysKernel :=
  (boot.pmapInit bmas).map (behindPmapInit rmodss)

/-- A change to memory. -/
def withMem (state : PhysKernel) (mem : PhysMem) : PhysKernel where
  kernel := { state.kernel with mmu := mem.toMmu }
  mem := mem
  view := rfl

/-- The allocator behind a call of `vm_phys_alloc`. -/
def withAllocator (state : PhysKernel) (bmas : PhysmemBmaset) : PhysKernel where
  kernel := { state.kernel with memoryAllocator := bmas }
  mem := state.mem
  view := state.view

/-- `pages[i] = curpage` in the dataspace at an address. -/
def storePage (state : PhysKernel) (ds i : ℕ) (page : Paddr) : PhysKernel where
  kernel := state.kernel.storePage ds i page
  mem := state.mem
  view := state.view

/-- `pd_enter` with the kernel's domain, whose result is not looked at; no result means a panic or
a page fault. -/
def enterPage (state : PhysKernel) (va : Vaddr) (page : Paddr) : Option PhysKernel :=
  (state.mem.pmapEnter state.kernel.kernelPd.pdPmap va page vmProtKmem 0).map fun entered =>
    state.withMem entered.2

/-- The second loop of `grow_critical`, with the iterations left. -/
def growFill (ds : ℕ) : (left i : ℕ) → (va sr : Vaddr) → PhysKernel → Option (Vaddr × PhysKernel)
  | 0, _, _, sr, state => some (sr, state)
  | left + 1, i, va, sr, state =>
      if i = (state.kernel.kernelRmodss ds).dsNPages.toNat then some (sr, state)
      else
        match vmPhysAlloc state.kernel.memoryAllocator with
        | (none, bmas) => some (sr, state.withAllocator bmas)
        | (some curpage, bmas) =>
            (((state.withAllocator bmas).storePage ds i curpage).enterPage va curpage).bind
              (growFill ds left (i + 1) (va + 0x1000) (sr + 0x1000))

/-- `grow_critical` -/
def growCritical (addr size : Vaddr) (n : ℕ) (state : PhysKernel) : Option PhysGrowth :=
  match state.kernel.kernelRm.rmChilds with
  | [] => some ⟨0, addr, size, state⟩
  | rmo :: _ =>
      if rmo.rmoType ≠ .dataspace then some ⟨0, addr, size, state⟩
      else
        let ds := state.kernel.kernelRmodss rmo.rmoObject
        let i := growSearch ds.dsPages ds.dsNPages.toNat 0
        if i ≥ ds.dsNPages.toNat then some ⟨0, addr, size, state⟩
        else
          let va := state.kernel.kernelPd.pdBegin + rmo.rmoOffset + BitVec.ofNat 32 i * 0x1000
          (growFill rmo.rmoObject n i va 0 state).map fun filled =>
            ⟨if filled.1 = 0 then 0 else 1, va, filled.1, filled.2⟩

/-- The common body of `vm_alloc_critical` and `vm_kalloc_ll`. -/
def growRounded (addr size : Vaddr) (state : PhysKernel) : Option PhysGrowth :=
  let s := (size + 0xfff) &&& ~~~0xfff
  growCritical addr size (divPagesize s).toNat state

def apply (state : PhysKernel) : KernelCall → Option PhysGrowth
  | .vmAllocCritical addr size => state.growRounded addr size
  | .vmKallocLl addr size => state.growRounded addr size

end PhysKernel

/-- The kernel's memory and the ranges that have been returned. -/
structure PhysRun where
  state : PhysKernel
  returned : List (Vaddr × Vaddr)

/-- A call, or a word that its owner stores. -/
inductive MemoryAction where
  | call (call : KernelCall)
  | store (va : Vaddr) (word : Paddr)

namespace PhysRun

/-- The address of a word in a range that has been returned. -/
def Owns (run : PhysRun) (va : Vaddr) : Prop :=
  va.toNat % 4 = 0 ∧ ∃ range ∈ run.returned,
    range.1.toNat ≤ va.toNat ∧ va.toNat < range.1.toNat + range.2.toNat

def Steps (run : PhysRun) (action : MemoryAction) (next : PhysRun) : Prop :=
  match action with
  | .call call => ∃ growth, run.state.apply call = some growth ∧ next =
      { state := growth.state
        returned :=
          if growth.ret = 0 then run.returned else (growth.addr, growth.size) :: run.returned }
  | .store va word => run.Owns va ∧ ∃ mem, run.state.mem.store va word = some mem ∧
      next = { run with state := run.state.withMem mem }

end PhysRun

/-- The runs behind `vm_init`. -/
def memorySystem (start : PhysKernel) : TransitionSystem PhysRun MemoryAction where
  init run := run = ⟨start, []⟩
  step := PhysRun.Steps

/-- The word at an address behind an action, as far as it is known. -/
def MemoryAction.lastWord (va : Vaddr) (last : Option Paddr) : MemoryAction → Option Paddr
  | .call _ => last
  | .store address word => if address = va then some word else last

/-- The word that was stored last at an address. -/
def lastStored (va : Vaddr) (trace : List (PhysRun × MemoryAction × PhysRun)) : Option Paddr :=
  trace.foldl (fun last step => step.2.1.lastWord va last) none

/-- What has been returned is memory: calls return as they do in the model without the window, the
ranges are disjoint, stores reach memory outside of the kernel and of its page tables, and loads
read what was stored last. -/
structure PhysRun.IsMemory (kernelEnd : BitVec 32) (initial : Vaddr → Paddr)
    (trace : List (PhysRun × MemoryAction × PhysRun)) (run : PhysRun) : Prop where
  calls : ∀ call, ∃ growth, run.state.apply call = some growth ∧
    growth.growth = call.apply run.state.kernel
  disjoint : run.returned.Pairwise fun later earlier =>
    earlier.1.toNat + earlier.2.toNat ≤ later.1.toNat ∨
      later.1.toNat + later.2.toNat ≤ earlier.1.toNat
  stores : ∀ va, run.Owns va → ∃ frame, run.state.mem.storeFrame va = some frame ∧
    ¬(0x100000 ≤ frame.toNat ∧ frame.toNat < (endkernel kernelEnd).toNat) ∧
    ∀ k, 768 ≤ k → k < 1024 → run.state.mem.kernelPageDir (BitVec.ofNat 32 k) &&& pteP ≠ 0 →
      pteAddr (run.state.mem.kernelPageDir (BitVec.ofNat 32 k)) ≠ frame
  loads : ∀ va, run.Owns va →
    run.state.mem.load va = some ((lastStored va trace).getD (initial va))

/-- Boot has come to the end of `pmap_init`, which has made `init` of the memory `boot`. -/
structure PagesSetUp (kernelEnd : BitVec 32) (slots : List (ℕ × Paddr)) (boot init : PhysMem) :
    Prop where
  good : GoodSlots slots
  boots : PhysMem.BootSlots kernelEnd slots
  inKernel : boot.InKernel kernelEnd
  taken : PhysMem.TablesTaken slots boot 1024 init
  initialised : init.Initialised
  room : ∃ free, FreeRun init.kernelPageTable free 1

/-- The page of the kernel's region at an address. -/
def regionIndex (va : Vaddr) : ℕ :=
  (va.toNat - 0xc1000000) / 4096

/-- The slots from the 253rd on are the pages of the region. Their words are `content`, by their
addresses in the region; the page directory and the window are as `pmap_init` has left them. -/
structure PhysMem.Holds (mem init : PhysMem) (slots : List (ℕ × Paddr))
    (content : Vaddr → Paddr) : Prop where
  sameFrame : mem.dirFrame = init.dirFrame
  window : mem.kernelPageTable = init.kernelPageTable
  directory : mem.kernelPageDir = init.kernelPageDir
  contents : ∀ va : Vaddr, 0xc1000000 ≤ va.toNat → va.toNat % 4 = 0 →
    ∀ slot, slots[252 + regionIndex va]? = some slot →
      mem.frames slot.2 ((va &&& 0xfff) >>> 2) = content va

/-- The word at an address of the region before it is stored. -/
def PhysMem.initialWord (init : PhysMem) (slots : List (ℕ × Paddr)) (va : Vaddr) : Paddr :=
  match slots[252 + regionIndex va]? with
  | some slot => init.frames slot.2 ((va &&& 0xfff) >>> 2)
  | none => 0

section Pages

variable {kernelEnd : BitVec 32} {slots : List (ℕ × Paddr)} {boot init mem : PhysMem}
  {content : Vaddr → Paddr} {slot : ℕ × Paddr} {i : ℕ} {va : Vaddr}

/-- The word at an address is known from its page and from its place there. -/
theorem eq_of_regionIndex {other : Vaddr} (above : 0xc1000000 ≤ va.toNat)
    (otherAbove : 0xc1000000 ≤ other.toNat) (aligned : va.toNat % 4 = 0)
    (otherAligned : other.toNat % 4 = 0) (samePage : regionIndex other = regionIndex va)
    (sameWord : (other &&& 0xfff) >>> 2 = (va &&& 0xfff) >>> 2) : other = va := by
  have words := congrArg BitVec.toNat sameWord
  rw [BitVec.toNat_ushiftRight, BitVec.toNat_ushiftRight, isLowMask_pageMask.toNat_and,
    isLowMask_pageMask.toNat_and, Nat.shiftRight_eq_div_pow, Nat.shiftRight_eq_div_pow] at words
  rw [regionIndex, regionIndex] at samePage
  apply BitVec.eq_of_toNat_eq
  omega

namespace PagesSetUp

/-- A page of the region is no page table. -/
theorem ne_table (setUp : PagesSetUp kernelEnd slots boot init)
    (isSlot : slots[252 + i]? = some slot) {k : ℕ} (above : 768 ≤ k) (below : k < 1024)
    (present : init.kernelPageDir (BitVec.ofNat 32 k) &&& pteP ≠ 0) :
    pteAddr (init.kernelPageDir (BitVec.ofNat 32 k)) ≠ slot.2 := by
  intro same
  rcases setUp.taken.present_cases setUp.boots setUp.inKernel above below present with
    ⟨t, isTable, -, addr⟩ | ⟨other, -, isOther, addr⟩
  · exact setUp.boots.ne_tableFrame setUp.inKernel (List.mem_of_getElem? isSlot) isTable
      (same.symm.trans addr)
  · have sameIndex := setUp.boots.index_eq isOther isSlot (addr.symm.trans same)
    omega

theorem framesBehind (setUp : PagesSetUp kernelEnd slots boot init)
    (isSlot : slots[252 + i]? = some slot) (sameFrame : mem.dirFrame = init.dirFrame) :
    ∃ t, mem.framesBehind slot.2 = t + 1 ∧ ¬t < 4 := by
  rcases setUp.boots.framesBehind setUp.inKernel (List.mem_of_getElem? isSlot) with
    ⟨t, behind, notTable⟩
  refine ⟨t, ?_, notTable⟩
  rw [← behind, PhysMem.framesBehind, sameFrame, setUp.taken.sameFrame, PhysMem.framesBehind]

end PagesSetUp

theorem PhysMem.holds_initialWord (init : PhysMem) (slots : List (ℕ × Paddr)) :
    init.Holds init slots (init.initialWord slots) := by
  refine ⟨rfl, rfl, rfl, ?_⟩
  intro va _ _ slot isSlot
  rw [initialWord, isSlot]

namespace PhysMem.Holds

/-- A frame that is no page of the region does not matter. -/
theorem setFrame (holds : mem.Holds init slots content) {frame : Paddr}
    (apart : ∀ i slot, slots[252 + i]? = some slot → slot.2 ≠ frame) (words : BitVec 32 → Paddr) :
    (mem.setFrame frame words).Holds init slots content where
  sameFrame := holds.sameFrame
  window := holds.window
  directory := holds.directory
  contents va above aligned slot isSlot := by
    rw [← holds.contents va above aligned slot isSlot]
    exact congrFun (Function.update_of_ne (apart _ slot isSlot) _ _) _

/-- A word of a page of the region is stored. -/
theorem setWord (setUp : PagesSetUp kernelEnd slots boot init)
    (holds : mem.Holds init slots content) (above : 0xc1000000 ≤ va.toNat)
    (aligned : va.toNat % 4 = 0) (isSlot : slots[252 + regionIndex va]? = some slot)
    (word : Paddr) :
    (mem.setFrame slot.2 (Function.update (mem.frames slot.2) ((va &&& 0xfff) >>> 2) word)).Holds
      init slots (Function.update content va word) where
  sameFrame := holds.sameFrame
  window := holds.window
  directory := holds.directory
  contents other otherAbove otherAligned found isFound := by
    have before := holds.contents other otherAbove otherAligned found isFound
    change Function.update mem.frames slot.2 _ found.2 _ = _
    by_cases isHere : other = va
    · have sameSlot : found = slot := by
        rw [isHere, isSlot, Option.some.injEq] at isFound
        exact isFound.symm
      rw [sameSlot, isHere, Function.update_self, Function.update_self, Function.update_self]
    · rw [Function.update_of_ne isHere, ← before]
      by_cases sameFrame : found.2 = slot.2
      · have sameIndex := setUp.boots.index_eq isFound isSlot sameFrame
        have otherWord : (other &&& 0xfff) >>> 2 ≠ (va &&& 0xfff) >>> 2 := fun sameWord =>
          isHere (eq_of_regionIndex above otherAbove aligned otherAligned (by omega) sameWord)
        rw [sameFrame, Function.update_self, Function.update_of_ne otherWord]
      · rw [Function.update_of_ne sameFrame]

theorem initialised (holds : mem.Holds init slots content)
    (setUp : PagesSetUp kernelEnd slots boot init) : mem.Initialised :=
  setUp.initialised.congr holds.sameFrame holds.directory

theorem distinctTables (holds : mem.Holds init slots content)
    (setUp : PagesSetUp kernelEnd slots boot init) : mem.DistinctTables :=
  (setUp.taken.distinctTables setUp.boots setUp.inKernel).congr holds.directory

/-- A page of the region is entered: the call returns, and no page of the region changes. -/
theorem pmapEnter (holds : mem.Holds init slots content)
    (setUp : PagesSetUp kernelEnd slots boot init) (above : 0xc1000000 ≤ va.toNat) (pa : Paddr)
    (prot : VmProt) (flags : BitVec 16) :
    ∃ ret next, mem.pmapEnter .pInstKernel va pa prot flags = some (ret, next) ∧
      Rkernel.pmapEnter mem.toMmu .pInstKernel va pa prot flags = (ret, next.toMmu) ∧
      next.Holds init slots content := by
  have initialised := holds.initialised setUp
  have distinct := holds.distinctTables setUp
  have begins : kernelVab ≤ va := BitVec.le_def.mpr above
  have refines := (pmapEnter_entersPage initialised distinct begins pa prot flags).refines
  rcases initialised.inv.pmapEnter_cases distinct above pa prot flags with
    ⟨-, unchanged⟩ | ⟨-, cause⟩ | ⟨-, present, t, behind, notTable, written⟩
  · exact ⟨1, mem, unchanged, refines _ _ unchanged, holds⟩
  · rcases setUp.room with ⟨free, room⟩
    rcases cause with erased | full
    · have lastTable := setUp.taken.tables 3 (by omega)
      rw [← holds.directory] at lastTable
      exact absurd (lastTable.symm.trans erased) (or_ptePw_ne_zero _)
    · rw [holds.window] at full
      exact absurd room (full free)
  · refine ⟨0, _, written, refines _ _ written, ?_⟩
    rw [writeFrame_eq_setFrame behind notTable]
    apply holds.setFrame
    intro i slot isSlot
    have vaLt := va.isLt
    rw [holds.directory, pdx_eq_ofNat] at present ⊢
    exact (setUp.ne_table isSlot (by omega) (by omega) present).symm

end PhysMem.Holds

end Pages

section Calls

variable {kernelEnd : BitVec 32} {slots : List (ℕ × Paddr)} {boot init : PhysMem}
  {content : Vaddr → Paddr} {state : PhysKernel} {count : ℕ}

namespace PhysKernel

/-- A page of the region is entered as in the model without the window. -/
theorem enterPage_regionPage (setUp : PagesSetUp kernelEnd slots boot init)
    (holds : state.mem.Holds init slots content) (domain : state.kernel.kernelPd = pdInit) {i : ℕ}
    (inRegion : i < 128) (page : Paddr) :
    ∃ next, state.enterPage (regionPage i) page = some next ∧
      next.kernel = state.kernel.enterPage (regionPage i) page ∧
      next.mem.Holds init slots content := by
  have above : 0xc1000000 ≤ (regionPage i).toNat := by
    rw [toNat_regionPage (Nat.le_of_lt inRegion)]
    omega
  rcases holds.pmapEnter setUp above page vmProtKmem 0 with ⟨ret, mem, returned, same, kept⟩
  have isKernel : state.kernel.kernelPd.pdPmap = .pInstKernel := by
    rw [domain]
    rfl
  refine ⟨state.withMem mem, ?_, ?_, kept⟩
  · rw [enterPage, isKernel, returned]
    rfl
  · rw [KernelVm.enterPage, isKernel, state.view, same]
    rfl

theorem growFill_refines (setUp : PagesSetUp kernelEnd slots boot init) (left : ℕ) (sr : Vaddr)
    (holds : state.mem.Holds init slots content) (grown : Grown slots count state.kernel) :
    ∃ filled, growFill 1 left count (regionPage count) sr state = some filled ∧
      (filled.1, filled.2.kernel) =
        Rkernel.growFill 1 left count (regionPage count) sr state.kernel ∧
      filled.2.mem.Holds init slots content := by
  induction left generalizing count sr state with
  | zero => exact ⟨(sr, state), rfl, rfl, holds⟩
  | succ left ih =>
      have capacity : (state.kernel.kernelRmodss 1).dsNPages.toNat = 128 :=
        congrArg BitVec.toNat grown.capacity
      have inside := grown.inside
      rw [growFill, Rkernel.growFill, capacity]
      by_cases full : count = 128
      · rw [if_pos full, if_pos full]
        exact ⟨(sr, state), rfl, rfl, holds⟩
      · rw [if_neg full, if_neg full]
        cases isSlot : slots[min 252 slots.length + count]? with
        | none =>
            have exhausted := List.getElem?_eq_none_iff.mp isSlot
            rw [grown.takes.vmPhysAlloc_none exhausted]
            exact ⟨(sr, state.withAllocator _), rfl, rfl, holds⟩
        | some slot =>
            rcases grown.takes.vmPhysAlloc_some setUp.good.bits isSlot with
              ⟨bmas, allocated, takes⟩
            have filled := grown.fill setUp.good (by omega) isSlot takes
            rcases @enterPage_regionPage _ _ _ _ _
              ((state.withAllocator bmas).storePage 1 count slot.2) setUp holds grown.domain count
              (by omega) slot.2 with ⟨next, returned, isKernel, kept⟩
            change next.kernel = _ at isKernel
            rw [allocated]
            simp only [returned, Option.bind_some, regionPage_succ]
            have later := @ih next (count + 1) (sr + 0x1000) kept (by rw [isKernel]; exact filled)
            rw [isKernel] at later
            exact later

/-- `grow_critical` returns, and it does what it does in the model without the window. -/
theorem growCritical_refines (setUp : PagesSetUp kernelEnd slots boot init)
    (holds : state.mem.Holds init slots content) (grown : Grown slots count state.kernel)
    (addr size : Vaddr) (n : ℕ) :
    ∃ growth, growCritical addr size n state = some growth ∧
      growth.growth = Rkernel.growCritical addr size n state.kernel ∧
      growth.state.mem.Holds init slots content := by
  have capacity : (state.kernel.kernelRmodss 1).dsNPages.toNat = 128 :=
    congrArg BitVec.toNat grown.capacity
  have isData : ¬(RmoType.dataspace ≠ .dataspace) := fun differs => differs rfl
  simp only [growCritical, Rkernel.growCritical, grown.region, capacity,
    grown.growSearch setUp.good, if_neg isData]
  by_cases full : count ≥ 128
  · rw [if_pos full, if_pos full]
    exact ⟨_, rfl, rfl, holds⟩
  · rw [if_neg full, if_neg full]
    have start : state.kernel.kernelPd.pdBegin + 0 + BitVec.ofNat 32 count * 0x1000 =
        regionPage count := by
      rw [grown.domain]
      exact congrArg (· + _) (BitVec.add_zero _)
    rcases growFill_refines setUp n 0 holds grown with ⟨filled, returned, same, kept⟩
    rw [start, returned, ← same]
    exact ⟨_, rfl, rfl, kept⟩

theorem apply_refines (setUp : PagesSetUp kernelEnd slots boot init)
    (holds : state.mem.Holds init slots content) (grown : Grown slots count state.kernel)
    (call : KernelCall) :
    ∃ growth, state.apply call = some growth ∧ growth.growth = call.apply state.kernel ∧
      growth.state.mem.Holds init slots content := by
  cases call with
  | vmAllocCritical addr size => exact growCritical_refines setUp holds grown addr size _
  | vmKallocLl addr size => exact growCritical_refines setUp holds grown addr size _

end PhysKernel

end Calls

section Accesses

variable {kernelEnd : BitVec 32} {slots : List (ℕ × Paddr)} {boot init : PhysMem}
  {content : Vaddr → Paddr} {state : PhysKernel} {count : ℕ} {va : Vaddr}

namespace PhysKernel

/-- A store to a page of the region goes to the page that has been entered there. -/
theorem storeFrame_of_recorded (setUp : PagesSetUp kernelEnd slots boot init)
    (grown : Grown slots count state.kernel) (above : 0xc1000000 ≤ va.toNat)
    (recorded : regionIndex va < count) :
    ∃ slot, slots[252 + regionIndex va]? = some slot ∧
      state.mem.storeFrame va = some slot.2 := by
  have inside := grown.inside
  have vaLt := va.isLt
  have index : va.toNat / 4096 = 0xc1000 + regionIndex va := by
    rw [regionIndex]
    omega
  have directory : pdx va = 772 := by
    have entry : (772 : BitVec 32).toNat = 772 := rfl
    apply BitVec.eq_of_toNat_eq
    rw [toNat_pdx, entry]
    omega
  have page : ptx va = BitVec.ofNat 32 (regionIndex va) := by
    apply BitVec.eq_of_toNat_eq
    rw [toNat_ptx, BitVec.toNat_ofNat]
    omega
  rcases grown.frames _ recorded with ⟨slot, isSlot, isFrame⟩
  have hasSlot := (List.getElem?_eq_some_iff.mp isSlot).1
  have aligned := setUp.good.aligned slot (List.mem_of_getElem? isSlot)
  have present := grown.present (by omega)
  have entry := grown.mapped _ recorded
  rw [state.view] at present entry
  rw [isFrame] at entry
  change state.mem.kernelPageDir 772 &&& ptePw = ptePw at present
  change state.mem.readFrame (pteAddr (state.mem.kernelPageDir 772)) _ = _ at entry
  have readable : state.mem.kernelPageDir 772 &&& pteP ≠ 0 :=
    PhysMem.and_bit_ne_zero present (by decide) (by decide)
  have writable : state.mem.kernelPageDir 772 &&& pteW ≠ 0 :=
    PhysMem.and_bit_ne_zero present (by decide) (by decide)
  have walked : state.mem.walk va = some (slot.2 ||| ptePw) := by
    rw [PhysMem.walk, directory, page]
    simp only [if_neg readable, entry]
  refine ⟨slot, isSlot, ?_⟩
  rw [PhysMem.storeFrame, walked, directory]
  have allowed : ¬(state.mem.kernelPageDir 772 &&& pteW = 0 ∨
      (slot.2 ||| ptePw) &&& ptePw ≠ ptePw) := by
    rintro (readOnly | missing)
    · exact writable readOnly
    · exact missing (BitVec.setFlag_and_self _ _)
  simp only [if_neg allowed]
  rw [(pteAddr_or_pteFlags aligned (by decide)).1]

/-- A load from a page of the region reads its content. -/
theorem load_of_recorded (setUp : PagesSetUp kernelEnd slots boot init)
    (holds : state.mem.Holds init slots content) (grown : Grown slots count state.kernel)
    (above : 0xc1000000 ≤ va.toNat) (aligned : va.toNat % 4 = 0)
    (recorded : regionIndex va < count) : state.mem.load va = some (content va) := by
  rcases storeFrame_of_recorded setUp grown above recorded with ⟨slot, isSlot, target⟩
  rcases setUp.framesBehind isSlot holds.sameFrame with ⟨t, behind, notTable⟩
  rw [PhysMem.load_of_storeFrame target, ← holds.contents va above aligned slot isSlot,
    PhysMem.readFrame, behind]
  simp only [if_neg notTable]

/-- A store to a page of the region changes its content, and the pages stay the ones entered. -/
theorem store_of_recorded (setUp : PagesSetUp kernelEnd slots boot init)
    (holds : state.mem.Holds init slots content) (grown : Grown slots count state.kernel)
    (above : 0xc1000000 ≤ va.toNat) (aligned : va.toNat % 4 = 0)
    (recorded : regionIndex va < count) (word : Paddr) {mem : PhysMem}
    (stored : state.mem.store va word = some mem) :
    Grown slots count (state.withMem mem).kernel ∧
      mem.Holds init slots (Function.update content va word) := by
  rcases storeFrame_of_recorded setUp grown above recorded with ⟨slot, isSlot, target⟩
  rcases setUp.framesBehind isSlot holds.sameFrame with ⟨t, behind, notTable⟩
  rw [PhysMem.store, target] at stored
  simp only [Option.some.injEq] at stored
  rw [PhysMem.writeFrame_eq_setFrame behind notTable] at stored
  rw [← stored]
  have hasSlot := (List.getElem?_eq_some_iff.mp isSlot).1
  have present := grown.present (by omega)
  rw [state.view] at present
  refine ⟨⟨grown.domain, grown.region, grown.capacity, grown.inside, grown.takes, grown.enough,
    grown.frames, grown.free, fun _ => present, ?_⟩, holds.setWord setUp above aligned isSlot word⟩
  intro i inside
  have entry := grown.mapped i inside
  rw [state.view] at entry
  refine Eq.trans ?_ entry
  have apart : pteAddr (state.mem.kernelPageDir 772) ≠ slot.2 := by
    rw [holds.directory]
    refine setUp.ne_table isSlot (show 768 ≤ 772 by decide) (by decide) ?_
    change init.kernelPageDir 772 &&& pteP ≠ 0
    rw [← holds.directory]
    exact PhysMem.and_bit_ne_zero present (by decide) (by decide)
  exact congrFun (PhysMem.readFrame_setFrame_of_ne apart _) _

end PhysKernel

end Accesses

section Runs

variable {kernelEnd : BitVec 32} {slots : List (ℕ × Paddr)} {boot init : PhysMem}
  {start : PhysKernel} {run : PhysRun} {count : ℕ} {va : Vaddr}

/-- The run in the model without the window. -/
def PhysRun.kernelRun (run : PhysRun) : KernelRun :=
  ⟨run.state.kernel, run.returned⟩

theorem PhysRun.Owns.recorded (owned : run.Owns va)
    (grownRun : GrownRun slots count run.kernelRun) :
    0xc1000000 ≤ va.toNat ∧ regionIndex va < count := by
  have inside := grownRun.grown.inside
  rcases owned.2 with ⟨range, isReturned, above, below⟩
  rcases grownRun.returned range isReturned with ⟨first, pages, inRegion, begins, length⟩
  rw [begins, toNat_regionPage (by omega)] at above below
  rw [regionIndex]
  omega

theorem lastStored_store (trace : List (PhysRun × MemoryAction × PhysRun)) (run next : PhysRun)
    (address : Vaddr) (word : Paddr) (initial : Vaddr → Paddr) :
    (fun va => (lastStored va (trace ++ [(run, .store address word, next)])).getD (initial va)) =
      Function.update (fun va => (lastStored va trace).getD (initial va)) address word := by
  funext va
  have snoc : lastStored va (trace ++ [(run, .store address word, next)]) =
      if address = va then some word else lastStored va trace := by
    rw [lastStored, List.foldl_append]
    rfl
  rw [snoc]
  by_cases isHere : address = va
  · rw [if_pos isHere, ← isHere, Function.update_self, Option.getD_some]
  · rw [if_neg isHere, Function.update_of_ne (Ne.symm isHere)]

theorem lastStored_call (trace : List (PhysRun × MemoryAction × PhysRun)) (run next : PhysRun)
    (call : KernelCall) (va : Vaddr) :
    lastStored va (trace ++ [(run, .call call, next)]) = lastStored va trace := by
  rw [lastStored, List.foldl_append]
  rfl

/-- Every step of a run leads from grown regions to grown regions, and to the words stored last. -/
theorem PhysRun.grown_of_run (setUp : PagesSetUp kernelEnd slots boot init)
    (begins : Grown slots 0 start.kernel) {initial : Vaddr → Paddr}
    (holds : start.mem.Holds init slots initial)
    {trace : List (PhysRun × MemoryAction × PhysRun)}
    (isRun : (memorySystem start).Run ⟨start, []⟩ trace run) :
    ∃ count, GrownRun slots count run.kernelRun ∧
      run.state.mem.Holds init slots fun va => (lastStored va trace).getD (initial va) := by
  induction isRun with
  | nil isInit =>
      change _ = _ at isInit
      rw [isInit]
      exact ⟨0, ⟨begins, by simp [kernelRun], by simp [kernelRun]⟩, holds⟩
  | @snoc source next action trace isRun stepped ih =>
      rcases ih with ⟨count, grownRun, kept⟩
      cases action with
      | call call =>
          rcases stepped with ⟨growth, returned, rfl⟩
          rcases PhysKernel.apply_refines setUp kept grownRun.grown call with
            ⟨result, isResult, same, keptNext⟩
          rw [isResult, Option.some.injEq] at returned
          rw [← returned]
          rcases grownRun.step setUp.good call with ⟨added, grownNext⟩
          refine ⟨count + added, ?_, ?_⟩
          · rw [KernelRun.step] at grownNext
            change GrownRun _ _ ⟨(call.apply source.state.kernel).kernel, if
              (call.apply source.state.kernel).ret = 0 then source.returned else
                ((call.apply source.state.kernel).addr, (call.apply source.state.kernel).size) ::
                  source.returned⟩ at grownNext
            rw [← same] at grownNext
            exact grownNext
          · simp only [lastStored_call]
            exact keptNext
      | store address word =>
          rcases stepped with ⟨owned, mem, stored, rfl⟩
          rcases owned.recorded grownRun with ⟨above, recorded⟩
          rcases PhysKernel.store_of_recorded setUp kept grownRun.grown above owned.1 recorded word
            stored with ⟨grownNext, keptNext⟩
          refine ⟨count, ⟨grownNext, grownRun.returned, grownRun.disjoint⟩, ?_⟩
          rw [lastStored_store]
          exact keptNext

theorem PhysRun.isMemory_of_run (setUp : PagesSetUp kernelEnd slots boot init)
    (begins : Grown slots 0 start.kernel) {initial : Vaddr → Paddr}
    (holds : start.mem.Holds init slots initial)
    {trace : List (PhysRun × MemoryAction × PhysRun)}
    (isRun : (memorySystem start).Run ⟨start, []⟩ trace run) :
    run.IsMemory kernelEnd initial trace := by
  rcases grown_of_run setUp begins holds isRun with ⟨count, grownRun, kept⟩
  refine ⟨?_, grownRun.disjoint, ?_, ?_⟩
  · intro call
    rcases PhysKernel.apply_refines setUp kept grownRun.grown call with
      ⟨growth, returned, same, -⟩
    exact ⟨growth, returned, same⟩
  · intro va owned
    rcases owned.recorded grownRun with ⟨above, recorded⟩
    rcases PhysKernel.storeFrame_of_recorded setUp grownRun.grown above recorded with
      ⟨slot, isSlot, target⟩
    refine ⟨slot.2, target, setUp.boots.notKernel slot (List.mem_of_getElem? isSlot), ?_⟩
    intro k kAbove kBelow present
    rw [kept.directory] at present ⊢
    exact setUp.ne_table isSlot kAbove kBelow present
  · intro va owned
    rcases owned.recorded grownRun with ⟨above, recorded⟩
    exact PhysKernel.load_of_recorded setUp kept grownRun.grown above owned.1 recorded

end Runs

section Boot

variable {kernelEnd : BitVec 32} {memdata : MultibootMemdata} {boot : PhysMem}

theorem goodSlots_of_safe (aboveMebibyte : endkernel kernelEnd > 0x100000)
    (safe : memdata.BootsSafely kernelEnd) (words : BitArray 32) :
    GoodSlots (kernInitmem (i686Init kernelEnd memdata) words).slots := by
  by_cases noSizes : memdata.flags &&& 1 = 0
  · have noRanges : i686Init kernelEnd memdata = [] :=
      if_neg (not_not.mpr noSizes)
    have noSlots : (kernInitmem [] words).slots = [] := by
      cases isIn : (kernInitmem [] words).slots with
      | nil => rfl
      | cons slot slots =>
          have valid := safe.valid
          rw [noRanges] at valid
          have carved := (PhysmemBmaset.booted_spec valid words).1
          have inSlots : slot ∈ (PhysmemBmaset.booted [] words).slots := by
            change slot ∈ (kernInitmem [] words).slots
            rw [isIn]
            exact List.mem_cons_self
          rcases carved.slot_contained inSlots with ⟨range, isRange, -⟩
          exact absurd isRange List.not_mem_nil
    rw [noRanges, noSlots]
    exact ⟨List.nodup_nil, List.nodup_nil, by simp, by simp⟩
  · have valid := safe.valid
    rw [i686Init_eq noSizes aboveMebibyte] at valid ⊢
    exact booted_goodSlots valid rfl words

/-- What `vm_init` makes of the memory behind `pmap_init`. -/
theorem grown_of_vmInit {slots : List (ℕ × Paddr)} {bmas : PhysmemBmaset} {init : PhysMem}
    (takes : Takes slots (min 252 slots.length) bmas)
    (taken : PhysMem.TablesTaken slots boot 1024 init) (rmodss : ℕ → Dataspace) :
    Grown slots 0 (PhysKernel.behindPmapInit rmodss (bmas, init)).kernel := by
  simp only [PhysKernel.behindPmapInit, rmInit_eq]
  refine ⟨rfl, rfl, ?_, Nat.zero_le _, takes, Nat.min_le_right _ _, by simp, ?_, ?_, by simp⟩
  · simp
  · intro i _ inRegion
    simp [inRegion]
  · intro hasSlot
    have entry := taken.entries 772 (Nat.le_refl _) (by omega)
    rw [PhysMem.slotEntry, List.getElem?_eq_getElem hasSlot] at entry
    change init.kernelPageDir 772 &&& ptePw = ptePw
    change init.kernelPageDir 772 = _ at entry
    rw [entry]
    exact BitVec.setFlag_and_self _ _

/-- From boot on, whatever is allocated and stored in whatever order, the addresses that
`vm_alloc_critical` and `vm_kalloc_ll` return are memory. -/
theorem PhysRun.isMemory_of_boot (aboveMebibyte : endkernel kernelEnd > 0x100000)
    (fits : memdata.FitsKernel kernelEnd) (inKernel : boot.InKernel kernelEnd) {free : ℕ}
    (room : FreeRun boot.kernelPageTable free 1) (words : BitArray 32) (rmodss : ℕ → Dataspace) :
    ∃ start, PhysKernel.vmInit (kernInitmem (i686Init kernelEnd memdata) words) boot rmodss =
        some start ∧
      ∃ initial, ∀ trace run, (memorySystem start).Run ⟨start, []⟩ trace run →
        run.IsMemory kernelEnd initial trace := by
  have safe := PhysMem.bootsSafely_of_fitsKernel aboveMebibyte fits
  have good := goodSlots_of_safe aboveMebibyte safe words
  have boots := PhysMem.bootSlots_of_safe safe words
  rcases PhysMem.pmapInit_takes safe inKernel room words with ⟨bmas, init, returned, takes, taken⟩
  have setUp : PagesSetUp kernelEnd (kernInitmem (i686Init kernelEnd memdata) words).slots boot
      init :=
    ⟨good, boots, inKernel, taken, ⟨_, bmas, boot, init, inKernel.toBooted, returned, rfl, rfl⟩,
      free, by rw [taken.sameWindow]; exact room⟩
  have holds := init.holds_initialWord (kernInitmem (i686Init kernelEnd memdata) words).slots
  refine ⟨PhysKernel.behindPmapInit rmodss (bmas, init), ?_,
    init.initialWord (kernInitmem (i686Init kernelEnd memdata) words).slots, ?_⟩
  · rw [PhysKernel.vmInit, returned, Option.map_some]
  · intro trace run isRun
    exact isMemory_of_run setUp (grown_of_vmInit takes taken rmodss) holds isRun

/-- 639 KiB of lower memory and 127 MiB of upper memory, with a kernel of two mebibytes. -/
theorem PhysRun.isMemory_of_boot_usual : ∃ start, PhysKernel.vmInit
      (kernInitmem (i686Init 0xc0300000 ⟨1, 639, 130048⟩) fun _ => 0) PhysMem.bootMem
      (fun _ => ⟨0, 0, fun _ => 0⟩) = some start ∧
    ∃ initial, ∀ trace run, (memorySystem start).Run ⟨start, []⟩ trace run →
      run.IsMemory 0xc0300000 initial trace := by
  have inKernel : PhysMem.bootMem.InKernel 0xc0300000 :=
    ⟨⟨by decide, by decide⟩, by decide, by decide⟩
  have room : FreeRun PhysMem.bootMem.kernelPageTable kptmin 1 :=
    ⟨Nat.le_refl _, by decide, fun _ _ => rfl⟩
  exact isMemory_of_boot (by decide) (Or.inr ⟨by decide, by decide⟩) inKernel room _ _

end Boot

end Rkernel
