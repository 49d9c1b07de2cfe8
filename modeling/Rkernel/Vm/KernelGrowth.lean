import Rkernel.Vm.KernelMemory

/-!
# Growth of the kernel memory

The physical allocator hands out its pages in a fixed order. The first 252 go to the page
tables of `pmap_init`, the following ones to the first region of the kernel, one after
another. `Grown` describes the kernel's memory after some of its pages got a frame: they
are a prefix of the region, each is recorded and mapped, and the frame at address 0, which
the search of `grow_critical` would take for a page without a frame, is not among them,
since it can only be the first page of the allocator.
-/

namespace Rkernel

/-- An allocator over these slots that has handed out the first ones. -/
structure Takes (slots : List (ℕ × Paddr)) (taken : ℕ) (bmas : PhysmemBmaset) : Prop where
  sameSlots : bmas.slots = slots
  marked : MarkedTo taken bmas.bitmapBlock slots

section Takes

variable {slots : List (ℕ × Paddr)} {taken : ℕ} {bmas : PhysmemBmaset}

theorem Takes.vmPhysAlloc_none (takes : Takes slots taken bmas) (exhausted : slots.length ≤ taken) :
    vmPhysAlloc bmas = (none, bmas) := by
  have marked := takes.marked
  rw [← takes.sameSlots] at marked
  rw [PhysmemBmaset.vmPhysAlloc_of_markedTo marked, takes.sameSlots,
    List.getElem?_eq_none exhausted]

theorem Takes.vmPhysAlloc_some (takes : Takes slots taken bmas) (nodup : (slots.map Prod.fst).Nodup)
    {slot : ℕ × Paddr} (isSlot : slots[taken]? = some slot) :
    ∃ next, vmPhysAlloc bmas = (some slot.2, next) ∧ Takes slots (taken + 1) next := by
  have marked := takes.marked
  rw [← takes.sameSlots] at marked
  rw [PhysmemBmaset.vmPhysAlloc_of_markedTo marked, takes.sameSlots, isSlot]
  exact ⟨_, rfl, takes.sameSlots, takes.marked.setBit nodup isSlot⟩

end Takes

section PmapInit

variable {slots : List (ℕ × Paddr)} {taken : ℕ} {bmas : PhysmemBmaset}

theorem pmapInitLoop_takes (nodup : (slots.map Prod.fst).Nodup) (left : ℕ) (i : BitVec 32)
    (mmu : Mmu) (inside : taken ≤ slots.length) (takes : Takes slots taken bmas) :
    Takes slots (min (taken + left) slots.length) (pmapInitLoop left i bmas mmu).1 := by
  induction left generalizing i mmu taken bmas with
  | zero =>
      rw [Nat.add_zero, Nat.min_eq_left inside]
      exact takes
  | succ left ih =>
      by_cases exhausted : slots.length ≤ taken
      · rw [pmapInitLoop, takes.vmPhysAlloc_none exhausted]
        have rest := ih (i + 1) (mmu.setDirectory i 0) inside takes
        rw [Nat.min_eq_right (by omega)] at rest ⊢
        exact rest
      · have isSlot := List.getElem?_eq_getElem (Nat.not_le.mp exhausted)
        obtain ⟨next, allocated, takesNext⟩ := takes.vmPhysAlloc_some nodup isSlot
        rw [pmapInitLoop, allocated]
        have rest := ih (i + 1) ((mmu.zeroPage slots[taken].2).setDirectory i
          (slots[taken].2 ||| ptePw)) (by omega) takesNext
        rw [Nat.add_right_comm] at rest
        exact rest

theorem pmapInitLoop_directory (left : ℕ) (i index : BitVec 32) (bmas : PhysmemBmaset) (mmu : Mmu)
    (before : index.toNat < i.toNat) (noWrap : i.toNat + left < 2 ^ 32) :
    (pmapInitLoop left i bmas mmu).2.kernelPageDir index = mmu.kernelPageDir index := by
  induction left generalizing i bmas mmu with
  | zero => rfl
  | succ left ih =>
      have one : (1 : BitVec 32).toNat = 1 := rfl
      have next : (i + 1).toNat = i.toNat + 1 := by
        rw [BitVec.toNat_add, one]
        omega
      have other : index ≠ i := by
        rintro rfl
        omega
      rw [pmapInitLoop]
      split
      · rw [ih _ _ _ (by omega) (by omega)]
        exact Function.update_of_ne other _ _
      · rw [ih _ _ _ (by omega) (by omega)]
        exact Function.update_of_ne other _ _

/-- `pmap_init` takes the first pages of the allocator, and if there is one it becomes the
page table of directory entry 772. -/
theorem pmapInit_spec (nodup : (slots.map Prod.fst).Nodup) (takes : Takes slots 0 bmas)
    (mmu : Mmu) :
    Takes slots (min 252 slots.length) (pmapInit bmas mmu).1 ∧
      ∀ slot, slots[0]? = some slot →
        (pmapInit bmas mmu).2.kernelPageDir 772 = slot.2 ||| ptePw := by
  constructor
  · have taken := pmapInitLoop_takes nodup 252 772 mmu (Nat.zero_le _) takes
    rw [Nat.zero_add] at taken
    exact taken
  · intro slot isSlot
    obtain ⟨next, allocated, -⟩ := takes.vmPhysAlloc_some nodup isSlot
    rw [pmapInit, pmapInitLoop, allocated]
    rw [pmapInitLoop_directory 251 _ 772 _ _ (by decide) (by decide)]
    simp [Mmu.setDirectory]

end PmapInit

theorem growSearch_eq {pages : ℕ → Paddr} {count left i : ℕ} (begun : i ≤ count)
    (inside : count ≤ i + left) (recorded : ∀ j < count, pages j ≠ 0)
    (free : count < i + left → pages count = 0) : growSearch pages left i = count := by
  induction left generalizing i with
  | zero =>
      rw [growSearch]
      omega
  | succ left ih =>
      rw [growSearch]
      by_cases here : i = count
      · subst i
        rw [if_pos (free (by omega))]
      · rw [if_neg (recorded i (by omega))]
        apply ih
        · omega
        · omega
        · intro inSearch
          exact free (by omega)

/-- The kernel's memory when the first `count` pages of its first region have frames. -/
structure Grown (slots : List (ℕ × Paddr)) (count : ℕ) (kernel : KernelVm) : Prop where
  domain : kernel.kernelPd = pdInit
  region : kernel.kernelRm.rmChilds = [⟨0, 0x80000, 1, .dataspace⟩]
  capacity : (kernel.kernelRmodss 1).dsNPages = 128
  inside : count ≤ 128
  takes : Takes slots (min 252 slots.length + count) kernel.memoryAllocator
  enough : min 252 slots.length + count ≤ slots.length
  frames : ∀ i < count, ∃ slot, slots[252 + i]? = some slot ∧
    (kernel.kernelRmodss 1).dsPages i = slot.2
  free : ∀ i, count ≤ i → i < 128 → (kernel.kernelRmodss 1).dsPages i = 0
  present : 0 < slots.length → kernel.mmu.kernelPageDir 772 &&& ptePw = ptePw
  mapped : ∀ i < count,
    kernel.mmu.pageTables (pteAddr (kernel.mmu.kernelPageDir 772)) (BitVec.ofNat 32 i) =
      (kernel.kernelRmodss 1).dsPages i ||| ptePw

/-- What the allocator's pages are known for: each has a bit and an address of its own, the
addresses are page aligned, and only the first can be 0. -/
structure GoodSlots (slots : List (ℕ × Paddr)) : Prop where
  bits : (slots.map Prod.fst).Nodup
  pages : (slots.map Prod.snd).Nodup
  aligned : ∀ slot ∈ slots, slot.2.toNat % 4096 = 0
  nonzero : ∀ (index : ℕ) (slot : ℕ × Paddr), slots[index]? = some slot → slot.2 = 0 → index = 0

section VmInit

variable {slots : List (ℕ × Paddr)}

theorem rmKalloc_first {kernel : KernelVm} (isFirst : kernel.kernelRmoi = 0) :
    rmKalloc kernel = (some ⟨0, 0x80000, 1, .dataspace⟩, { kernel with
      kernelRmoi := 1
      kernelRmodss := Function.update kernel.kernelRmodss 1
        ⟨128, 0x80000, fun i => if i < 128 then 0 else (kernel.kernelRmodss 1).dsPages i⟩ }) := by
  simp [rmKalloc, isFirst, nRmos, dsConstruct]

theorem rmInit_eq (kernel : KernelVm) :
    rmInit kernel = { kernel with
      kernelRm := ⟨[⟨0, 0x80000, 1, .dataspace⟩], 0x3d000000⟩
      kernelRmoi := 1
      kernelRmodss := Function.update kernel.kernelRmodss 1
        ⟨128, 0x80000, fun i => if i < 128 then 0 else (kernel.kernelRmodss 1).dsPages i⟩ } := by
  simp [rmInit, rmKalloc_first, kernelVab, kernelVae, rmInsert, rmInsertLoop, rmConstruct]

theorem vmInit_grown (good : GoodSlots slots) {bmas : PhysmemBmaset} (takes : Takes slots 0 bmas)
    (mmu : Mmu) (rmodss : ℕ → Dataspace) : Grown slots 0 (vmInit bmas mmu rmodss) := by
  obtain ⟨taken, directory⟩ := pmapInit_spec good.bits takes mmu
  rw [vmInit, rmInit_eq]
  refine ⟨rfl, rfl, ?_, Nat.zero_le _, taken, Nat.min_le_right _ _, by simp, ?_, ?_, by simp⟩
  · simp
  · intro i _ inRegion
    simp [inRegion]
  · intro hasSlot
    have isSlot := List.getElem?_eq_getElem hasSlot
    simp only [directory _ isSlot]
    exact BitVec.setFlag_and_self _ _

end VmInit

section Addresses

variable {i j : ℕ}

/-- The address of a page of the first region. -/
def regionPage (i : ℕ) : Vaddr :=
  kernelVab + BitVec.ofNat 32 i * 0x1000

theorem toNat_regionPage (inRegion : i ≤ 128) :
    (regionPage i).toNat = 0xc1000000 + i * 4096 := by
  have pageSize : (0x1000 : BitVec 32).toNat = 0x1000 := rfl
  have first : kernelVab.toNat = 0xc1000000 := rfl
  rw [regionPage, BitVec.toNat_add, BitVec.toNat_mul, BitVec.toNat_ofNat, pageSize, first]
  omega

theorem regionPage_succ (i : ℕ) : regionPage i + 0x1000 = regionPage (i + 1) := by
  have one : (1 : BitVec 32) * 0x1000 = 0x1000 := by decide
  rw [regionPage, regionPage, BitVec.ofNat_add, BitVec.add_mul, BitVec.add_assoc]
  exact congrArg _ (congrArg _ one.symm)

theorem pdx_regionPage (inRegion : i < 128) : pdx (regionPage i) = 772 := by
  apply BitVec.eq_of_toNat_eq
  have entry : (772 : BitVec 32).toNat = 772 := rfl
  rw [toNat_pdx, toNat_regionPage (Nat.le_of_lt inRegion), entry]
  omega

theorem ptx_regionPage (inRegion : i < 128) : ptx (regionPage i) = BitVec.ofNat 32 i := by
  apply BitVec.eq_of_toNat_eq
  rw [toNat_ptx, toNat_regionPage (Nat.le_of_lt inRegion), BitVec.toNat_ofNat]
  omega

end Addresses

section Fill

variable {slots : List (ℕ × Paddr)} {count : ℕ} {kernel : KernelVm}

theorem pteFlags_ne_zero {entry : Paddr} (present : entry &&& ptePw = ptePw) :
    pteFlags entry ≠ 0 := by
  intro noFlags
  have none : entry &&& ptePw = pteFlags entry &&& ptePw := by
    rw [pteFlags, BitVec.and_assoc]
    rfl
  rw [none, noFlags] at present
  revert present
  decide

/-- Entering a page of the region writes one entry of the page table of entry 772. -/
theorem enterPage_mmu (domain : kernel.kernelPd = pdInit)
    (present : kernel.mmu.kernelPageDir 772 &&& ptePw = ptePw) {i : ℕ} (inRegion : i < 128)
    {page : Paddr} (aligned : page.toNat % 4096 = 0) :
    (kernel.enterPage (regionPage i) page).mmu =
      kernel.mmu.pteSet (pteAddr (kernel.mmu.kernelPageDir 772)) (BitVec.ofNat 32 i)
        (page ||| ptePw) := by
  have writable : vmProtKmem &&& vmProtWrite ≠ 0 := by decide
  have flags : pteP ||| pteW = ptePw := by decide
  rw [KernelVm.enterPage, domain]
  simp only [pmapEnter, pdInit, pdx_regionPage inRegion, ptx_regionPage inRegion, if_pos writable,
    if_neg (pteFlags_ne_zero present), pteAddr_of_aligned aligned, BitVec.or_assoc, flags, if_true]

/-- The kernel's memory after one iteration of the fill loop. -/
theorem Grown.fill (good : GoodSlots slots) (grown : Grown slots count kernel)
    (room : count < 128) {slot : ℕ × Paddr}
    (isSlot : slots[min 252 slots.length + count]? = some slot) {bmas : PhysmemBmaset}
    (takes : Takes slots (min 252 slots.length + count + 1) bmas) :
    Grown slots (count + 1)
      ((({ kernel with memoryAllocator := bmas }).storePage 1 count slot.2).enterPage
        (regionPage count) slot.2) := by
  have taken := (List.getElem?_eq_some_iff.mp isSlot).1
  have tables : min 252 slots.length = 252 := by omega
  have present := grown.present (by omega)
  have entered := @enterPage_mmu
    (({ kernel with memoryAllocator := bmas }).storePage 1 count slot.2) grown.domain present
    count room slot.2 (good.aligned slot (List.mem_of_getElem? isSlot))
  have pages : ((({ kernel with memoryAllocator := bmas }).storePage 1 count slot.2).enterPage
      (regionPage count) slot.2).kernelRmodss 1 =
        ⟨(kernel.kernelRmodss 1).dsNPages, (kernel.kernelRmodss 1).dsSize,
          Function.update (kernel.kernelRmodss 1).dsPages count slot.2⟩ := by
    simp [KernelVm.storePage, KernelVm.enterPage]
  refine ⟨grown.domain, grown.region, ?_, room, takes, taken, ?_, ?_, ?_, ?_⟩
  · rw [pages]
    exact grown.capacity
  · intro i inside
    rw [pages]
    by_cases last : i = count
    · subst i
      rw [tables] at isSlot
      exact ⟨slot, isSlot, Function.update_self _ _ _⟩
    · obtain ⟨other, isOther, recorded⟩ := grown.frames i (by omega)
      exact ⟨other, isOther, by simp [last, recorded]⟩
  · intro i outside inRegion
    rw [pages]
    have later : i ≠ count := by omega
    simp [later, grown.free i (by omega) inRegion]
  · intro _
    rw [entered]
    exact present
  · intro i inside
    rw [entered, pages]
    by_cases last : i = count
    · subst i
      simp [Mmu.pteSet, KernelVm.storePage]
    · have other : BitVec.ofNat 32 i ≠ BitVec.ofNat 32 count := by
        intro same
        have sameNat := congrArg BitVec.toNat same
        simp only [BitVec.toNat_ofNat] at sameNat
        omega
      have earlier := grown.mapped i (by omega)
      simpa [Mmu.pteSet, KernelVm.storePage, last, other] using earlier

/-- The pages that can still get a frame: the rest of the region and the rest of the allocator. -/
def pagesLeft (slots : List (ℕ × Paddr)) (count : ℕ) : ℕ :=
  min (128 - count) (slots.length - (min 252 slots.length + count))

theorem growFill_spec (good : GoodSlots slots) (left : ℕ) (sr : Vaddr)
    (grown : Grown slots count kernel) :
    ∃ added, added = min left (pagesLeft slots count) ∧
      Grown slots (count + added) (growFill 1 left count (regionPage count) sr kernel).2 ∧
      (growFill 1 left count (regionPage count) sr kernel).1 =
        sr + BitVec.ofNat 32 added * 0x1000 ∧
      (added = 0 → (growFill 1 left count (regionPage count) sr kernel).2 = kernel) := by
  have nothing (sr : Vaddr) : sr = sr + BitVec.ofNat 32 0 * 0x1000 := by simp
  induction left generalizing count sr kernel with
  | zero => exact ⟨0, (Nat.zero_min _).symm, grown, nothing sr, fun _ => rfl⟩
  | succ left ih =>
      have capacity : (kernel.kernelRmodss 1).dsNPages.toNat = 128 := by
        rw [grown.capacity]
        rfl
      rw [growFill, capacity]
      by_cases full : count = 128
      · rw [if_pos full]
        refine ⟨0, ?_, grown, nothing sr, fun _ => rfl⟩
        simp [pagesLeft, full]
      · rw [if_neg full]
        cases isSlot : slots[min 252 slots.length + count]? with
        | none =>
            have exhausted := List.getElem?_eq_none_iff.mp isSlot
            rw [grown.takes.vmPhysAlloc_none exhausted]
            refine ⟨0, ?_, grown, nothing sr, fun _ => rfl⟩
            rw [pagesLeft]
            omega
        | some slot =>
            obtain ⟨next, allocated, takes⟩ := grown.takes.vmPhysAlloc_some good.bits isSlot
            have inside := grown.inside
            have taken := (List.getElem?_eq_some_iff.mp isSlot).1
            have filled := grown.fill good (by omega) isSlot takes
            obtain ⟨added, isAdded, grownNext, bytes, -⟩ := ih (sr + 0x1000) filled
            rw [allocated]
            simp only [regionPage_succ]
            rw [pagesLeft] at isAdded ⊢
            refine ⟨added + 1, by omega, ?_, ?_, by simp⟩
            · rw [← Nat.add_assoc, Nat.add_right_comm]
              exact grownNext
            · rw [bytes, BitVec.ofNat_add, BitVec.add_mul, BitVec.add_assoc,
                BitVec.add_comm (0x1000 : Vaddr)]
              rfl

theorem Grown.frame_ne_zero (good : GoodSlots slots) (grown : Grown slots count kernel) {i : ℕ}
    (recorded : i < count) : (kernel.kernelRmodss 1).dsPages i ≠ 0 := by
  obtain ⟨slot, isSlot, isFrame⟩ := grown.frames i recorded
  intro isZero
  have first := good.nonzero _ slot isSlot (isFrame.symm.trans isZero)
  omega

theorem Grown.growSearch (good : GoodSlots slots) (grown : Grown slots count kernel) :
    growSearch (kernel.kernelRmodss 1).dsPages 128 0 = count := by
  have inside := grown.inside
  apply growSearch_eq (Nat.zero_le _) (by omega)
  · exact fun i recorded => grown.frame_ne_zero good recorded
  · exact fun inRegion => grown.free count (Nat.le_refl _) (by omega)

/-- One call: it backs the next pages of the region, none of them if it returns 0. -/
theorem growCritical_spec (good : GoodSlots slots) (grown : Grown slots count kernel)
    (addr size : Vaddr) (n : ℕ) :
    ∃ added, added = min n (pagesLeft slots count) ∧
      Grown slots (count + added) (growCritical addr size n kernel).kernel ∧
      ((growCritical addr size n kernel).ret = 0 ↔ added = 0) ∧
      (added ≠ 0 → (growCritical addr size n kernel).addr = regionPage count ∧
        (growCritical addr size n kernel).size.toNat = added * 4096) ∧
      (added = 0 → (growCritical addr size n kernel).kernel = kernel) := by
  have capacity : (kernel.kernelRmodss 1).dsNPages.toNat = 128 := by
    rw [grown.capacity]
    rfl
  have inside := grown.inside
  simp only [growCritical, grown.region, capacity, grown.growSearch good]
  by_cases full : 128 ≤ count
  · rw [if_neg (by simp), if_pos full]
    refine ⟨0, ?_, grown, by simp, by simp, by simp⟩
    rw [pagesLeft]
    omega
  · rw [if_neg (by simp), if_neg full]
    have start : kernel.kernelPd.pdBegin + 0 + BitVec.ofNat 32 count * 0x1000 =
        regionPage count := by
      rw [grown.domain]
      exact congrArg (· + _) (BitVec.add_zero _)
    rw [start]
    obtain ⟨added, isAdded, grownNext, bytes, unchanged⟩ := growFill_spec good n 0 grown
    have bound := grownNext.inside
    have pageSize : (0x1000 : BitVec 32).toNat = 0x1000 := rfl
    have bytesNat : (growFill 1 n count (regionPage count) 0 kernel).1.toNat = added * 4096 := by
      have fits : added * 4096 < 2 ^ 32 := by omega
      have zero : (0 : BitVec 32).toNat = 0 := rfl
      rw [bytes, BitVec.toNat_add, BitVec.toNat_mul, BitVec.toNat_ofNat, pageSize, zero]
      omega
    refine ⟨added, isAdded, grownNext, ?_, fun _ => ⟨rfl, bytesNat⟩, unchanged⟩
    have zeroIff : (growFill 1 n count (regionPage count) 0 kernel).1 = 0 ↔ added = 0 := by
      constructor
      · intro isZero
        rw [isZero] at bytesNat
        have : (0 : Vaddr).toNat = 0 := rfl
        omega
      · rintro rfl
        exact BitVec.eq_of_toNat_eq (by rw [bytesNat]; rfl)
    simp only [zeroIff]
    split
    · simpa
    · simpa

end Fill

section Booted

variable {first second : PhysmemRange}

theorem Carved.zero_first {low index : ℕ} {range : PhysmemRange} {maps : List PhysmemBmalloc}
    {slot : ℕ × Paddr} (carved : Carved low [range] maps)
    (isSlot : (maps.flatMap PhysmemBmalloc.slots)[index]? = some slot) (isZero : slot.2 = 0) :
    index = 0 := by
  cases carved with
  | nil => simp at isSlot
  | @cons _ _ _ _ length _ _ inRange _ rest =>
      cases rest
      rw [List.flatMap_singleton] at isSlot
      obtain ⟨inside, isAddress⟩ := List.getElem?_eq_some_iff.mp isSlot
      have inMap : index < length.toNat := by
        simpa [PhysmemBmalloc.slots] using inside
      have endLt := range.pmEnd.isLt
      have address := @toNat_pageAddress index range.pmBegin (by omega)
      simp only [PhysmemBmalloc.slots, List.getElem_map, List.getElem_range] at isAddress
      rw [← isAddress] at isZero
      simp only at isZero
      rw [isZero] at address
      have zero : (0 : Paddr).toNat = 0 := rfl
      omega

/-- Only the first page of the allocator can have the address 0. -/
theorem Carved.zero_first_of_pmBegin {low index : ℕ} {maps : List PhysmemBmalloc}
    {slot : ℕ × Paddr} (carved : Carved low [first, second] maps) (fromZero : first.pmBegin = 0)
    (nodup : ((maps.flatMap PhysmemBmalloc.slots).map Prod.snd).Nodup)
    (isSlot : (maps.flatMap PhysmemBmalloc.slots)[index]? = some slot) (isZero : slot.2 = 0) :
    index = 0 := by
  cases carved with
  | nil => simp at isSlot
  | @cons _ _ _ _ length rest _ _ _ carvedRest =>
      by_cases empty : length.toNat = 0
      · have noSlots : PhysmemBmalloc.slots ⟨first, low, length⟩ = [] := by
          simp [PhysmemBmalloc.slots, empty]
        rw [List.flatMap_cons, noSlots, List.nil_append] at isSlot
        exact carvedRest.zero_first isSlot isZero
      · have firstSlot : ((⟨first, low, length⟩ :: rest).flatMap PhysmemBmalloc.slots)[0]? =
            some (32 * low, 0) := by
          have hasSlot : 0 < (PhysmemBmalloc.slots ⟨first, low, length⟩).length := by
            simp only [PhysmemBmalloc.slots, List.length_map, List.length_range]
            omega
          rw [List.flatMap_cons, List.getElem?_append_left hasSlot,
            List.getElem?_eq_getElem hasSlot]
          simp [PhysmemBmalloc.slots, fromZero, mulPagesize]
        have atZero := congrArg (Option.map Prod.snd) firstSlot
        have atIndex := congrArg (Option.map Prod.snd) isSlot
        rw [← List.getElem?_map] at atZero atIndex
        simp only [Option.map_some, isZero] at atZero atIndex
        have inside := (List.getElem?_eq_some_iff.mp atIndex).1
        exact (List.getElem?_inj inside nodup).mp (atIndex.trans atZero.symm)

theorem booted_goodSlots (valid : ValidRanges [first, second]) (fromZero : first.pmBegin = 0)
    (words : BitArray 32) : GoodSlots (PhysmemBmaset.booted [first, second] words).slots := by
  have carved := (PhysmemBmaset.booted_spec valid words).1
  have nodup := carved.slots_snd_nodup valid.disjoint
  refine ⟨carved.slots_fst_nodup, nodup, ?_, ?_⟩
  · intro slot slotMem
    obtain ⟨range, rangeMem, -, i, address⟩ := carved.slot_contained slotMem
    have aligned := valid.beginAligned range rangeMem
    omega
  · intro index slot isSlot isZero
    exact carved.zero_first_of_pmBegin fromZero nodup isSlot isZero

end Booted

/-- The first region of the kernel. -/
def firstRegion : RegionMapperObject := ⟨0, 0x80000, 1, .dataspace⟩

/-- The pages with a frame and the ranges that were made of them. -/
structure GrownRun (slots : List (ℕ × Paddr)) (count : ℕ) (run : KernelRun) : Prop where
  grown : Grown slots count run.kernel
  returned : ∀ range ∈ run.returned, ∃ start pages, start + pages ≤ count ∧
    range.1 = regionPage start ∧ range.2.toNat = pages * 4096
  disjoint : run.returned.Pairwise fun later earlier =>
    earlier.1.toNat + earlier.2.toNat ≤ later.1.toNat ∨
      later.1.toNat + later.2.toNat ≤ earlier.1.toNat

section Run

variable {slots : List (ℕ × Paddr)} {count : ℕ} {run : KernelRun}

theorem KernelCall.apply_eq (call : KernelCall) (kernel : KernelVm) :
    ∃ addr n, n ≤ (call.request.toNat + 4095) / 4096 ∧
      call.apply kernel = growCritical addr call.request n kernel := by
  have rounding : (0xfff : BitVec 32).toNat = 0xfff := rfl
  have pages (size : Vaddr) : (divPagesize ((size + 0xfff) &&& ~~~0xfff)).toNat ≤
      (size.toNat + 4095) / 4096 := by
    rw [divPagesize, BitVec.toNat_ushiftRight, Nat.shiftRight_eq_div_pow,
      isLowMask_pageMask.toNat_and_not, BitVec.toNat_add, rounding]
    omega
  cases call with
  | vmAllocCritical addr size => exact ⟨addr, _, pages size, rfl⟩
  | vmKallocLl addr size => exact ⟨addr, _, pages size, rfl⟩

/-- What a call does to the pages with a frame, and what it returns. -/
theorem KernelCall.apply_spec (good : GoodSlots slots) {kernel : KernelVm}
    (grown : Grown slots count kernel) (call : KernelCall) :
    ∃ added ≤ (call.request.toNat + 4095) / 4096,
      Grown slots (count + added) (call.apply kernel).kernel ∧
      ((call.apply kernel).ret = 0 ↔ added = 0) ∧
      (added ≠ 0 → (call.apply kernel).addr = regionPage count ∧
        (call.apply kernel).size.toNat = added * 4096) ∧
      (added = 0 → (call.apply kernel).kernel = kernel) := by
  obtain ⟨addr, n, nLe, applied⟩ := call.apply_eq kernel
  obtain ⟨added, isAdded, rest⟩ := growCritical_spec good grown addr call.request n
  rw [applied]
  exact ⟨added, by omega, rest⟩

/-- The range that was backed last lies behind the earlier ones. -/
theorem GrownRun.extend (grownRun : GrownRun slots count run) {kernel : KernelVm} {added : ℕ}
    (grown : Grown slots (count + added) kernel) {size : Vaddr}
    (isSize : size.toNat = added * 4096) :
    GrownRun slots (count + added) ⟨kernel, (regionPage count, size) :: run.returned⟩ := by
  have inside := grownRun.grown.inside
  refine ⟨grown, ?_, List.pairwise_cons.mpr ⟨?_, grownRun.disjoint⟩⟩
  · intro range rangeMem
    rcases List.mem_cons.mp rangeMem with rfl | earlier
    · exact ⟨count, added, Nat.le_refl _, rfl, isSize⟩
    · obtain ⟨start, pages, bound, rest⟩ := grownRun.returned range earlier
      exact ⟨start, pages, by omega, rest⟩
  · intro range rangeMem
    obtain ⟨start, pages, bound, begins, length⟩ := grownRun.returned range rangeMem
    left
    rw [begins, length, toNat_regionPage (by omega), toNat_regionPage inside]
    omega

theorem GrownRun.step (good : GoodSlots slots) (grownRun : GrownRun slots count run)
    (call : KernelCall) : ∃ added, GrownRun slots (count + added) (run.step call) := by
  obtain ⟨added, -, grown, retIff, results, -⟩ := call.apply_spec good grownRun.grown
  refine ⟨added, ?_⟩
  rw [KernelRun.step]
  by_cases failed : added = 0
  · simp only [if_pos (retIff.mpr failed)]
    subst added
    exact ⟨grown, grownRun.returned, grownRun.disjoint⟩
  · simp only [if_neg fun ret => failed (retIff.mp ret)]
    obtain ⟨addr, size⟩ := results failed
    rw [addr]
    exact grownRun.extend grown size

theorem GrownRun.callCorrect (good : GoodSlots slots) (grownRun : GrownRun slots count run)
    (call : KernelCall) : run.CallCorrect firstRegion call := by
  obtain ⟨added, addedLe, grown, retIff, results, unchanged⟩ :=
    call.apply_spec good grownRun.grown
  constructor
  · intro succeeded
    have some : added ≠ 0 := fun none => succeeded (retIff.mpr none)
    obtain ⟨addr, size⟩ := results some
    have bound := grown.inside
    have base : (run.kernel.regionBase firstRegion).toNat = 0xc1000000 := by
      rw [KernelVm.regionBase, grownRun.grown.domain]
      decide
    have regionSize : firstRegion.rmoSize.toNat = 0x80000 := rfl
    refine ⟨added, by omega, addedLe, size, ?_, ?_, ?_⟩
    · rw [addr, toNat_regionPage (by omega)]
      omega
    · rw [addr, base, toNat_regionPage (by omega)]
      omega
    · rw [addr, base, size, regionSize, toNat_regionPage (by omega)]
      omega
  · intro failed
    rw [unchanged (retIff.mp failed)]
    exact ⟨rfl, rfl⟩

theorem Grown.mapsWritable (good : GoodSlots slots) {kernel : KernelVm}
    (grown : Grown slots count kernel) {i : ℕ} (recorded : i < count) :
    kernel.mmu.MapsWritable (regionPage i) ((kernel.kernelRmodss 1).dsPages i) := by
  have inside := grown.inside
  have inRegion : i < 128 := by omega
  obtain ⟨slot, isSlot, isFrame⟩ := grown.frames i recorded
  have aligned := good.aligned slot (List.mem_of_getElem? isSlot)
  have hasSlot := (List.getElem?_eq_some_iff.mp isSlot).1
  have entry := grown.mapped i recorded
  rw [← ptx_regionPage inRegion] at entry
  refine ⟨?_, ?_, ?_⟩
  · rw [pdx_regionPage inRegion]
    exact grown.present (by omega)
  · rw [pdx_regionPage inRegion, entry]
    exact BitVec.setFlag_and_self _ _
  · rw [pdx_regionPage inRegion, entry, isFrame]
    exact (pteAddr_or_pteFlags aligned (by decide)).1

theorem Grown.frameAt_regionPage {kernel : KernelVm} (grown : Grown slots count kernel) {i : ℕ}
    (inRegion : i < 128) :
    kernel.frameAt firstRegion (regionPage i) = (kernel.kernelRmodss 1).dsPages i := by
  have base : kernel.regionBase firstRegion = regionPage 0 := by
    rw [KernelVm.regionBase, grown.domain]
    decide
  have first := @toNat_regionPage 0 (by omega)
  have here := @toNat_regionPage i (by omega)
  have distance : (regionPage i - regionPage 0).toNat / 4096 = i := by
    rw [BitVec.toNat_sub_of_le (BitVec.le_def.mpr (by omega))]
    omega
  rw [KernelVm.frameAt, base, distance]
  rfl

theorem regionPage_add (start page : ℕ) :
    regionPage start + BitVec.ofNat 32 page * 0x1000 = regionPage (start + page) := by
  rw [regionPage, regionPage, BitVec.add_assoc, ← BitVec.add_mul, ← BitVec.ofNat_add]

theorem GrownRun.correct (good : GoodSlots slots) (grownRun : GrownRun slots count run) :
    run.Correct firstRegion := by
  have grown := grownRun.grown
  have inside := grown.inside
  have capacity : (run.kernel.kernelRmodss firstRegion.rmoObject).dsNPages.toNat = 128 :=
    congrArg BitVec.toNat grown.capacity
  have recordedIff : ∀ i < 128,
      (run.kernel.kernelRmodss firstRegion.rmoObject).dsPages i ≠ 0 ↔ i < count := by
    intro i inRegion
    constructor
    · intro recorded
      by_contra outside
      exact recorded (grown.free i (Nat.not_lt.mp outside) inRegion)
    · exact fun recorded => grown.frame_ne_zero good recorded
  refine ⟨⟨by rw [grown.region]; rfl, rfl⟩, ?_, ?_, grownRun.disjoint, ?_⟩
  · rw [capacity]
    exact ⟨count, recordedIff⟩
  · rw [capacity]
    intro i iLt j jLt nonzero same
    have iRecorded := (recordedIff i iLt).mp nonzero
    have jRecorded := (recordedIff j jLt).mp (same ▸ nonzero)
    obtain ⟨slot, isSlot, isFrame⟩ := grown.frames i iRecorded
    obtain ⟨other, isOther, otherFrame⟩ := grown.frames j jRecorded
    have sameAddress : slot.2 = other.2 := isFrame.symm.trans (same.trans otherFrame)
    have atSlot : (slots.map Prod.snd)[252 + i]? = some slot.2 := by
      rw [List.getElem?_map, isSlot]
      rfl
    have atOther : (slots.map Prod.snd)[252 + j]? = some slot.2 := by
      rw [List.getElem?_map, isOther, sameAddress]
      rfl
    have bound := (List.getElem?_eq_some_iff.mp atSlot).1
    have sameIndex := (List.getElem?_inj bound good.pages).mp (atSlot.trans atOther.symm)
    omega
  · intro range rangeMem page inRange
    obtain ⟨start, pages, bound, begins, length⟩ := grownRun.returned range rangeMem
    have recorded : start + page < count := by omega
    rw [begins, regionPage_add, grown.frameAt_regionPage (by omega)]
    exact ⟨grown.frame_ne_zero good recorded, grown.mapsWritable good recorded⟩

end Run

section After

variable {first second : PhysmemRange}

theorem KernelRun.after_grownRun (valid : ValidRanges [first, second])
    (fromZero : first.pmBegin = 0) (words : BitArray 32) (mmu : Mmu) (rmodss : ℕ → Dataspace)
    (calls : List KernelCall) :
    ∃ count, GrownRun (PhysmemBmaset.booted [first, second] words).slots count
      (KernelRun.after [first, second] words mmu rmodss calls) := by
  have good := booted_goodSlots valid fromZero words
  have takes : Takes (PhysmemBmaset.booted [first, second] words).slots 0
      (PhysmemBmaset.booted [first, second] words) :=
    ⟨rfl, (PhysmemBmaset.booted_spec valid words).2⟩
  induction calls using List.reverseRecOn with
  | nil => exact ⟨0, vmInit_grown good takes mmu rmodss, by simp [after], by simp [after]⟩
  | append_singleton calls call ih =>
      obtain ⟨count, grownRun⟩ := ih
      obtain ⟨added, next⟩ := grownRun.step good call
      refine ⟨count + added, ?_⟩
      rw [after, List.foldl_append]
      exact next

/-- In every run of the two functions after boot, the first region grows as it should. -/
theorem KernelRun.after_correct (valid : ValidRanges [first, second])
    (fromZero : first.pmBegin = 0) (words : BitArray 32) (mmu : Mmu) (rmodss : ℕ → Dataspace)
    (calls : List KernelCall) :
    ∃ rmo, (KernelRun.after [first, second] words mmu rmodss calls).Correct rmo ∧
      ∀ front call back, calls = front ++ call :: back →
        (KernelRun.after [first, second] words mmu rmodss front).Correct rmo ∧
        (KernelRun.after [first, second] words mmu rmodss front).CallCorrect rmo call := by
  have good := booted_goodSlots valid fromZero words
  obtain ⟨count, grownRun⟩ := after_grownRun valid fromZero words mmu rmodss calls
  refine ⟨firstRegion, grownRun.correct good, ?_⟩
  rintro front call back -
  obtain ⟨before, grownFront⟩ := after_grownRun valid fromZero words mmu rmodss front
  exact ⟨grownFront.correct good, grownFront.callCorrect good call⟩

/-- The lower and the upper memory of a machine with 16 MiB. -/
def bootedRanges : List PhysmemRange :=
  [⟨0, 0x9f000⟩, ⟨0x200000, 0x1000000⟩]

theorem bootedRanges_valid : ValidRanges bootedRanges := by
  refine ⟨by decide, by decide, by decide, ?_⟩
  simp only [bootedRanges, List.pairwise_cons, List.mem_singleton, forall_eq, List.not_mem_nil,
    false_implies, implies_true, List.Pairwise.nil, and_true]
  rintro address ⟨⟨-, below⟩, above, -⟩
  simp only at below above
  bv_omega

theorem after_correct_kallocLl :
    ∃ rmo, (KernelRun.after bootedRanges (fun _ => 0) ⟨fun _ => 0, fun _ _ => 0⟩
      (fun _ => ⟨0, 0, fun _ => 0⟩) [.vmKallocLl 0 0x1800]).Correct rmo := by
  obtain ⟨rmo, correct, -⟩ := KernelRun.after_correct bootedRanges_valid rfl (fun _ => 0)
    ⟨fun _ => 0, fun _ _ => 0⟩ (fun _ => ⟨0, 0, fun _ => 0⟩) [.vmKallocLl 0 0x1800]
  exact ⟨rmo, correct⟩

end After

end Rkernel
