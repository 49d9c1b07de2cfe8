import Mathlib.Data.List.Nodup
import Mathlib.Order.Interval.Finset.Nat
import Rkernel.Vm.KernelMemory

/-!
# Address ranges

`[Rule 1]` (`vm/pmap.h`) says which pages belong to a pair of addresses: an end that is not a
page address lies on the last page, an end that is one follows it. `rm_init` and
`rm_pagefault` both turn such a pair into a size, and they agree on the ends that are not
page addresses only.

`mmu_tlb_flush_range` walks over the pages of a range whose end is included. Its cursor wraps
around behind the last page of the address space and then is below every end.
-/

namespace Rkernel

/-- The loop of `mmu_tlb_flush_range`: the addresses that `invlpg` is executed for. No result
means that the iterations did not suffice. -/
def tlbFlushLoop (stop : Vaddr) : (fuel : ℕ) → Vaddr → Option (List Vaddr)
  | 0, _ => none
  | fuel + 1, start =>
      if start ≤ stop then (tlbFlushLoop stop fuel (start + 0x1000)).map (start :: ·)
      else some []

def mmuTlbFlushRange (fuel : ℕ) (start stop : Vaddr) : Option (List Vaddr) :=
  tlbFlushLoop (stop &&& ~~~0xfff) fuel (start &&& ~~~0xfff)

def xcpuTlbFlushRange (fuel : ℕ) (_pmap : Pmap) (start stop : Vaddr) : Option (List Vaddr) :=
  mmuTlbFlushRange fuel start stop

/-- A flush comes to an end and has invalidated every page from that of `start` to that of
`stop` once, and nothing else. -/
def FlushesPages (flush : ℕ → Option (List Vaddr)) (start stop : Vaddr) : Prop :=
  ∃ fuel pages, flush fuel = some pages ∧ ∀ page : Vaddr, pages.count page =
    if page.toNat % 4096 = 0 ∧ start.toNat / 4096 ≤ page.toNat / 4096 ∧
      page.toNat / 4096 ≤ stop.toNat / 4096 then 1 else 0

/-- The address of a page by its number. -/
def pageAt (number : ℕ) : Vaddr :=
  BitVec.ofNat 32 (number * 4096)

section Flush

theorem toNat_pageAt {number : ℕ} (inSpace : number < 2 ^ 20) :
    (pageAt number).toNat = number * 4096 := by
  rw [pageAt, BitVec.toNat_ofNat]
  omega

theorem and_not_pageMask (va : Vaddr) : va &&& ~~~0xfff = pageAt (va.toNat / 4096) := by
  have vaLt := va.isLt
  apply BitVec.eq_of_toNat_eq
  rw [toNat_pageAt (by omega)]
  exact isLowMask_pageMask.toNat_and_not va

theorem pageAt_add_pageSize (number : ℕ) :
    pageAt number + 0x1000 = pageAt (number + 1) := by
  have pageSize : (0x1000 : BitVec 32).toNat = 0x1000 := rfl
  apply BitVec.eq_of_toNat_eq
  simp only [pageAt, BitVec.toNat_add, BitVec.toNat_ofNat, pageSize]
  omega

/-- Below the last page the loop visits the pages one after the other. -/
theorem tlbFlushLoop_eq {first last fuel : ℕ} (below : last < 2 ^ 20 - 1)
    (begins : first ≤ last + 1) (enough : last + 1 - first < fuel) :
    tlbFlushLoop (pageAt last) fuel (pageAt first) =
      some ((List.range' first (last + 1 - first)).map pageAt) := by
  induction fuel generalizing first with
  | zero => omega
  | succ fuel ih =>
      have lastNat := @toNat_pageAt last (by omega)
      have firstNat := @toNat_pageAt first (by omega)
      rw [tlbFlushLoop]
      by_cases done : first = last + 1
      · have behind : ¬pageAt first ≤ pageAt last := by
          rw [BitVec.le_def]
          omega
        rw [if_neg behind, done, Nat.sub_self]
        rfl
      · have inside : pageAt first ≤ pageAt last := by
          rw [BitVec.le_def]
          omega
        have length : last + 1 - first = last + 1 - (first + 1) + 1 := by omega
        rw [if_pos inside, pageAt_add_pageSize, ih (by omega) (by omega), length,
          List.range'_succ]
        rfl

/-- With the last page as its end the loop does not come to an end. -/
theorem tlbFlushLoop_lastPage (fuel first : ℕ) :
    tlbFlushLoop (pageAt (2 ^ 20 - 1)) fuel (pageAt first) = none := by
  induction fuel generalizing first with
  | zero => rfl
  | succ fuel ih =>
      have inside : pageAt first ≤ pageAt (2 ^ 20 - 1) := by
        have lastNat := @toNat_pageAt (2 ^ 20 - 1) (by omega)
        rw [BitVec.le_def, lastNat, pageAt, BitVec.toNat_ofNat]
        omega
      rw [tlbFlushLoop, if_pos inside, pageAt_add_pageSize, ih]
      rfl

theorem count_map_pageAt {first last : ℕ} (below : last < 2 ^ 20) (page : Vaddr) :
    ((List.range' first (last + 1 - first)).map pageAt).count page =
      if page.toNat % 4096 = 0 ∧ first ≤ page.toNat / 4096 ∧ page.toNat / 4096 ≤ last
      then 1 else 0 := by
  have inRange : ∀ number ∈ List.range' first (last + 1 - first),
      first ≤ number ∧ number ≤ last := by
    intro number numberMem
    rw [List.mem_range'_1] at numberMem
    omega
  have distinct : ((List.range' first (last + 1 - first)).map pageAt).Nodup := by
    apply List.Nodup.map_on ?_ List.nodup_range'
    intro left leftMem right rightMem same
    have leftNat := @toNat_pageAt left (by have := inRange left leftMem; omega)
    have rightNat := @toNat_pageAt right (by have := inRange right rightMem; omega)
    rw [same] at leftNat
    omega
  rw [distinct.count]
  congr 1
  rw [List.mem_map, eq_iff_iff]
  constructor
  · rintro ⟨number, numberMem, rfl⟩
    have bounds := inRange number numberMem
    rw [toNat_pageAt (by omega)]
    omega
  · rintro ⟨aligned, above, under⟩
    refine ⟨page.toNat / 4096, ?_, ?_⟩
    · rw [List.mem_range'_1]
      omega
    · apply BitVec.eq_of_toNat_eq
      rw [toNat_pageAt (by omega)]
      omega

/-- A flush invalidates the pages of its range unless the range reaches the last page of the
address space, in which case it does not return. -/
theorem mmuTlbFlushRange_flushesPages_iff (pmap : Pmap) (start stop : Vaddr)
    (ordered : start ≤ stop) :
    FlushesPages (mmuTlbFlushRange · start stop) start stop ∧
      FlushesPages (xcpuTlbFlushRange · pmap start stop) start stop ↔
    stop < 0xfffff000 := by
  have stopLt := stop.isLt
  have lastPage : (0xfffff000 : BitVec 32).toNat = 0xfffff000 := rfl
  rw [BitVec.le_def] at ordered
  rw [BitVec.lt_def, lastPage]
  change FlushesPages (mmuTlbFlushRange · start stop) start stop ∧
    FlushesPages (mmuTlbFlushRange · start stop) start stop ↔ _
  rw [and_self]
  constructor
  · rintro ⟨fuel, pages, returned, -⟩
    by_contra top
    have stopPage : stop.toNat / 4096 = 2 ^ 20 - 1 := by omega
    change mmuTlbFlushRange fuel start stop = some pages at returned
    rw [mmuTlbFlushRange, and_not_pageMask, and_not_pageMask, stopPage,
      tlbFlushLoop_lastPage] at returned
    exact Option.some_ne_none pages returned.symm
  · intro below
    refine ⟨2 ^ 20, _, ?_, count_map_pageAt ?_⟩
    · change mmuTlbFlushRange (2 ^ 20) start stop = _
      rw [mmuTlbFlushRange, and_not_pageMask, and_not_pageMask]
      apply tlbFlushLoop_eq <;> omega
    · omega

theorem mmuTlbFlushRange_flushesPages_two :
    FlushesPages (mmuTlbFlushRange · 0xc1000ffc 0xc1001000) 0xc1000ffc 0xc1001000 ∧
      FlushesPages (xcpuTlbFlushRange · .pInstKernel 0xc1000ffc 0xc1001000) 0xc1000ffc
        0xc1001000 :=
  (mmuTlbFlushRange_flushesPages_iff .pInstKernel _ _ (by decide)).mpr (by decide)

/-- The range from the last page but one to the top of the address space. -/
theorem mmuTlbFlushRange_top : ¬∀ (pmap : Pmap) (start stop : Vaddr), start ≤ stop →
    FlushesPages (mmuTlbFlushRange · start stop) start stop ∧
      FlushesPages (xcpuTlbFlushRange · pmap start stop) start stop := by
  intro all
  rcases (all .pInstKernel 0xffffe000 0xffffffff (by decide)).1 with
    ⟨fuel, pages, returned, -⟩
  have never : mmuTlbFlushRange fuel 0xffffe000 0xffffffff = none :=
    tlbFlushLoop_lastPage fuel 0xffffe
  exact Option.some_ne_none pages (returned.symm.trans never)

end Flush

/-- `rm_init` for the address range that `pmap_get_address_range` has returned. -/
def rmInitRange (start stop : Vaddr) (kernel : KernelVm) : KernelVm :=
  let size := (stop &&& ~~~0xfff) - start + 0x1000
  match rmKalloc { kernel with kernelRmoi := 0 } with
  | (some rmo, kernel) => { kernel with kernelRm := (rmInsert (rmConstruct size) rmo).2.1 }
  | (none, kernel) => { kernel with kernelRm := rmConstruct size }

/-- A pair of addresses that `[Rule 1]` allows. -/
structure AddressRange where
  start : Vaddr
  stop : Vaddr
  aligned : start.toNat % 4096 = 0
  above : 4096 ≤ start.toNat
  ordered : start < stop

namespace AddressRange

/-- The last valid page address that `[Rule 1]` gives a range. -/
def lastPage (range : AddressRange) : ℕ :=
  if range.stop.toNat % 4096 = 0 then range.stop.toNat - 4096
  else range.stop.toNat - range.stop.toNat % 4096

/-- The addresses of the valid pages of a range. -/
def validPages (range : AddressRange) : Finset ℕ :=
  (Finset.Icc range.start.toNat range.lastPage).filter (· % 4096 = 0)

/-- The kernel's range, whose end is not a page address. -/
def kernelRange : AddressRange where
  start := kernelVab
  stop := kernelVae
  aligned := by decide
  above := by decide
  ordered := by decide

end AddressRange

section Sizes

variable (range : AddressRange)

theorem rmInit_eq_rmInitRange (kernel : KernelVm) :
    rmInit kernel =
      rmInitRange AddressRange.kernelRange.start AddressRange.kernelRange.stop kernel := by
  change rmInit kernel = rmInitRange kernelVab kernelVae kernel
  unfold rmInit rmInitRange
  rcases rmKalloc { kernel with kernelRmoi := 0 } with ⟨_ | rmo, kernel⟩
  · rfl
  · rfl

theorem rmInsert_rmSize (rm : RegionMapper) (rmo : RegionMapperObject) :
    (rmInsert rm rmo).2.1.rmSize = rm.rmSize := by
  rw [rmInsert]
  split <;> rfl

theorem rmInitRange_rmSize (start stop : Vaddr) (kernel : KernelVm) :
    (rmInitRange start stop kernel).kernelRm.rmSize = (stop &&& ~~~0xfff) - start + 0x1000 := by
  rw [rmInitRange]
  split
  · exact rmInsert_rmSize _ _
  · rfl

namespace AddressRange

theorem startLt : range.start.toNat < range.stop.toNat :=
  BitVec.lt_def.mp range.ordered

/-- A size of whole pages holds one page for each valid page address. -/
theorem card_validPages :
    4096 * range.validPages.card = range.lastPage + 4096 - range.start.toNat := by
  have aligned := range.aligned
  have startLt := range.startLt
  have pages : range.validPages =
      (Finset.Icc (range.start.toNat / 4096) (range.lastPage / 4096)).image (· * 4096) := by
    ext page
    simp only [validPages, Finset.mem_filter, Finset.mem_Icc, Finset.mem_image]
    constructor
    · rintro ⟨⟨above, below⟩, pageAligned⟩
      exact ⟨page / 4096, by omega, by omega⟩
    · rintro ⟨number, ⟨above, below⟩, rfl⟩
      omega
  have lastAligned : range.lastPage % 4096 = 0 ∧ range.start.toNat ≤ range.lastPage := by
    simp only [lastPage]
    split <;> omega
  have injective : Function.Injective fun number : ℕ => number * 4096 := by
    intro left right same
    simpa using same
  rw [pages, Finset.card_image_of_injective _ injective, Nat.card_Icc]
  omega

theorem toNat_rmSize (kernel : KernelVm) :
    (rmInitRange range.start range.stop kernel).kernelRm.rmSize.toNat =
      range.stop.toNat / 4096 * 4096 + 4096 - range.start.toNat := by
  have aligned := range.aligned
  have above := range.above
  have startLt := range.startLt
  have stopLt := range.stop.isLt
  have pageSize : (0x1000 : BitVec 32).toNat = 0x1000 := rfl
  rw [rmInitRange_rmSize, BitVec.toNat_add, BitVec.toNat_sub, pageSize,
    isLowMask_pageMask.toNat_and_not]
  omega

theorem toNat_room (pmap : Pmap) :
    (ProtectionDomain.room ⟨range.start, range.stop, pmap⟩).toNat =
      (range.stop.toNat - range.start.toNat + 4095) / 4096 * 4096 := by
  have above := range.above
  have startLt := range.startLt
  have stopLt := range.stop.isLt
  have pageMask : (0xfff : BitVec 32).toNat = 0xfff := rfl
  change ((range.stop - range.start + 0xfff) &&& ~~~0xfff).toNat = _
  rw [isLowMask_pageMask.toNat_and_not, BitVec.toNat_add, BitVec.toNat_sub, pageMask]
  omega

end AddressRange

/-- The size of the kernel's region mapper and the limit of a page fault are the size of the
valid pages when the end is not a page address. Otherwise `rm_init` counts one page too many. -/
theorem rmInitRange_rmSize_eq_iff (kernel : KernelVm) (pmap : Pmap) (mmu : Mmu) (rm : ℕ)
    (va : Vaddr) (faultType : VmProt) :
    ((rmInitRange range.start range.stop kernel).kernelRm.rmSize =
        (Pager.start ⟨range.start, range.stop, pmap⟩ mmu rm va faultType).fault.size ∧
      (rmInitRange range.start range.stop kernel).kernelRm.rmSize.toNat =
        4096 * range.validPages.card ∧
      (Pager.start ⟨range.start, range.stop, pmap⟩ mmu rm va faultType).fault.size.toNat =
        4096 * range.validPages.card) ↔
    range.stop.toNat % 4096 ≠ 0 := by
  have aligned := range.aligned
  have startLt := range.startLt
  have size := range.toNat_rmSize kernel
  have limit : (Pager.start ⟨range.start, range.stop, pmap⟩ mmu rm va
      faultType).fault.size.toNat = _ := range.toNat_room pmap
  have valid := range.card_validPages
  constructor
  · rintro ⟨-, sizeValid, -⟩ stopAligned
    rw [AddressRange.lastPage, if_pos stopAligned] at valid
    omega
  · intro unaligned
    rw [AddressRange.lastPage, if_neg unaligned] at valid
    refine ⟨BitVec.eq_of_toNat_eq ?_, ?_, ?_⟩ <;> omega

/-- The range of one page whose end is the address of the next page. -/
def AddressRange.onePage : AddressRange where
  start := 0xc1000000
  stop := 0xc1001000
  aligned := by decide
  above := by decide
  ordered := by decide

theorem rmInitRange_rmSize_onePage : ¬∀ (range : AddressRange) (kernel : KernelVm) (pmap : Pmap)
    (mmu : Mmu) (rm : ℕ) (va : Vaddr) (faultType : VmProt),
    (rmInitRange range.start range.stop kernel).kernelRm.rmSize =
        (Pager.start ⟨range.start, range.stop, pmap⟩ mmu rm va faultType).fault.size ∧
      (rmInitRange range.start range.stop kernel).kernelRm.rmSize.toNat =
        4096 * range.validPages.card ∧
      (Pager.start ⟨range.start, range.stop, pmap⟩ mmu rm va faultType).fault.size.toNat =
        4096 * range.validPages.card := by
  intro all
  let mmu : Mmu := ⟨fun _ => 0, fun _ _ => 0⟩
  let kernel : KernelVm :=
    ⟨pdInit, rmConstruct 0, 0, fun _ => ⟨0, 0, fun _ => 0⟩, ⟨[], fun _ => 0⟩, mmu⟩
  have agree := (all .onePage kernel .pInstKernel mmu 1 0xc1000000 4).1
  rw [rmInitRange_rmSize] at agree
  revert agree
  decide

end Sizes

end Rkernel
