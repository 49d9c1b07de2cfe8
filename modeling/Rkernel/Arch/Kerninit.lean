import Mathlib.Algebra.Group.Nat.Defs
import Rkernel.Arch.Mmu
import Rkernel.Physmem.Alloc

/-!
# Memory ranges at boot

`_i686_init` (`arch/i686/kerninit.c`) turns the sizes that the boot loader reports into
two ranges: the memory from address 0 on, and the memory behind the kernel. `kern_initmem`
passes them on to the physical page allocator, which takes them as they are. The sizes are
numbers of kibibytes and the range ends are computed in 32 bits. Nothing looks at whether the
lower memory ends before the kernel, nor at whether the upper one reaches behind it.
-/

namespace Rkernel

/-- The words of `_i686_multiboot_memdata` that are read. -/
structure MultibootMemdata where
  flags : BitVec 32
  memLower : BitVec 32
  memUpper : BitVec 32

/-- The end of the kernel image, from the address of `_kernel_end`, rounded up to pages. -/
def endkernel (kernelEnd : BitVec 32) : Paddr :=
  (kernelEnd - 0xc0000000 + 0xfff) &&& ~~~0xfff

/-- `_i686_init`: the first `ks_num_memory_ranges` of the ranges in `memrange`. -/
def i686Init (kernelEnd : BitVec 32) (memdata : MultibootMemdata) : List PhysmemRange :=
  if memdata.flags &&& 1 ≠ 0 then
    [ { pmBegin := 0
        pmEnd := (memdata.memLower <<< 10) &&& ~~~0xfff },
      { pmBegin := if endkernel kernelEnd > 0x100000 then endkernel kernelEnd else 0xc00000
        pmEnd := ((memdata.memUpper <<< 10) + 0x100000) &&& ~~~0xfff } ]
  else []

/-- `kern_initmem`: the allocator over these ranges. -/
def kernInitmem (ranges : List PhysmemRange) (words : BitArray 32) : PhysmemBmaset :=
  PhysmemBmaset.booted ranges words

namespace MultibootMemdata

/-- The addresses the boot loader reports as memory: from 0 on, and from one mebibyte on. -/
def Reports (memdata : MultibootMemdata) (address : ℕ) : Prop :=
  address < memdata.memLower.toNat * 1024 ∨
    0x100000 ≤ address ∧ address < 0x100000 + memdata.memUpper.toNat * 1024

/-- The ranges are made of reported memory outside the kernel image, and so is every page
that `vm_phys_alloc` returns after any calls of the allocator. -/
structure BootsSafely (kernelEnd : BitVec 32) (memdata : MultibootMemdata) : Prop where
  valid : ValidRanges (i686Init kernelEnd memdata)
  outsideKernel : ∀ range ∈ i686Init kernelEnd memdata, ∀ address, range.Contains address →
    ¬(0x100000 ≤ address ∧ address < endkernel kernelEnd)
  reported : ∀ range ∈ i686Init kernelEnd memdata, ∀ address, range.Contains address →
    memdata.Reports address.toNat
  pages : ∀ (words : BitArray 32) (ops : List PhysOp) (page : Paddr),
    (vmPhysAlloc (ops.foldl PhysState.step
      ⟨kernInitmem (i686Init kernelEnd memdata) words, []⟩).set).1 = some page →
    ∀ offset < 4096, memdata.Reports (page.toNat + offset) ∧
      ¬(0x100000 ≤ page.toNat + offset ∧ page.toNat + offset < (endkernel kernelEnd).toNat)

/-- The boot loader reports no sizes, or the lower memory ends in the first mebibyte and the
upper one not before the kernel. -/
def FitsKernel (kernelEnd : BitVec 32) (memdata : MultibootMemdata) : Prop :=
  memdata.flags &&& 1 = 0 ∨
    memdata.memLower.toNat * 1024 % 2 ^ 32 / 4096 * 4096 ≤ 0x100000 ∧
      (endkernel kernelEnd).toNat ≤
        (memdata.memUpper.toNat * 1024 + 0x100000) % 2 ^ 32 / 4096 * 4096

end MultibootMemdata

section Ranges

variable {kernelEnd : BitVec 32} {memdata : MultibootMemdata}

theorem endkernel_aligned (kernelEnd : BitVec 32) : (endkernel kernelEnd).toNat % 4096 = 0 := by
  rw [endkernel, isLowMask_pageMask.toNat_and_not]
  omega

theorem toNat_lowerEnd (memLower : BitVec 32) :
    ((memLower <<< 10) &&& ~~~0xfff).toNat = memLower.toNat * 1024 % 2 ^ 32 / 4096 * 4096 := by
  rw [isLowMask_pageMask.toNat_and_not, BitVec.toNat_shiftLeft, Nat.shiftLeft_eq]
  rfl

theorem toNat_upperEnd (memUpper : BitVec 32) :
    (((memUpper <<< 10) + 0x100000) &&& ~~~0xfff).toNat =
      (memUpper.toNat * 1024 + 0x100000) % 2 ^ 32 / 4096 * 4096 := by
  have mebibyte : (0x100000 : BitVec 32).toNat = 0x100000 := rfl
  rw [isLowMask_pageMask.toNat_and_not, BitVec.toNat_add, BitVec.toNat_shiftLeft,
    Nat.shiftLeft_eq, mebibyte, Nat.mod_add_mod]
  rfl

theorem i686Init_eq (hasSizes : memdata.flags &&& 1 ≠ 0)
    (aboveMebibyte : endkernel kernelEnd > 0x100000) :
    i686Init kernelEnd memdata =
      [⟨0, (memdata.memLower <<< 10) &&& ~~~0xfff⟩,
        ⟨endkernel kernelEnd, ((memdata.memUpper <<< 10) + 0x100000) &&& ~~~0xfff⟩] := by
  rw [i686Init, if_pos hasSizes, if_pos aboveMebibyte]

end Ranges

theorem vmPhysAlloc_mem_slots {set : PhysmemBmaset} {page : Paddr}
    (returned : (vmPhysAlloc set).1 = some page) : ∃ index, (index, page) ∈ set.slots := by
  rw [PhysmemBmaset.vmPhysAlloc_eq] at returned
  split at returned
  · rename_i slot found
    rw [Option.some.injEq] at returned
    subst page
    exact ⟨slot.1, List.mem_of_find?_eq_some found⟩
  · simp at returned

/-- After any calls of the allocator, the pages it returns are pages of the ranges. -/
theorem vmPhysAlloc_run_contained {ranges : List PhysmemRange} (valid : ValidRanges ranges)
    {words : BitArray 32} {ops : List PhysOp} {page : Paddr}
    (returned : (vmPhysAlloc (PhysState.run ranges words ops).set).1 = some page) :
    ∃ range ∈ ranges, range.ContainsPage page := by
  obtain ⟨index, slotMem⟩ := vmPhysAlloc_mem_slots returned
  rw [PhysmemBmaset.slots_eq_of_pmbMaps_eq (PhysState.run_pmbMaps ranges words ops)] at slotMem
  obtain ⟨range, rangeMem, inside, -⟩ :=
    (PhysmemBmaset.booted_spec valid words).1.slot_contained slotMem
  exact ⟨range, rangeMem, inside⟩

namespace MultibootMemdata

variable {kernelEnd : BitVec 32} {memdata : MultibootMemdata}

theorem BootsSafely.of_ranges (valid : ValidRanges (i686Init kernelEnd memdata))
    (outsideKernel : ∀ range ∈ i686Init kernelEnd memdata, ∀ address, range.Contains address →
      ¬(0x100000 ≤ address ∧ address < endkernel kernelEnd))
    (reported : ∀ range ∈ i686Init kernelEnd memdata, ∀ address, range.Contains address →
      memdata.Reports address.toNat) : BootsSafely kernelEnd memdata := by
  refine ⟨valid, outsideKernel, reported, ?_⟩
  intro words ops page returned offset inPage
  obtain ⟨range, rangeMem, inside⟩ := vmPhysAlloc_run_contained valid returned
  have endLt := range.pmEnd.isLt
  have address : (BitVec.ofNat 32 (page.toNat + offset)).toNat = page.toNat + offset := by
    rw [BitVec.toNat_ofNat]
    exact Nat.mod_eq_of_lt (by have := inside.2; omega)
  have contains : range.Contains (BitVec.ofNat 32 (page.toNat + offset)) := by
    rw [PhysmemRange.Contains, BitVec.le_def, BitVec.lt_def, address]
    have := inside.1
    have := inside.2
    omega
  have outside := outsideKernel range rangeMem _ contains
  have isReported := reported range rangeMem _ contains
  rw [BitVec.le_def, BitVec.lt_def, address] at outside
  rw [address] at isReported
  exact ⟨isReported, outside⟩

theorem bootsSafely_of_noSizes (noSizes : memdata.flags &&& 1 = 0) :
    BootsSafely kernelEnd memdata := by
  have noRanges : i686Init kernelEnd memdata = [] := by
    rw [i686Init, if_neg (not_not.mpr noSizes)]
  apply BootsSafely.of_ranges
  · rw [noRanges]
    exact ⟨by simp, by simp, by simp, by simp⟩
  · simp [noRanges]
  · simp [noRanges]

theorem bootsSafely_of_fits (hasSizes : memdata.flags &&& 1 ≠ 0)
    (aboveMebibyte : endkernel kernelEnd > 0x100000)
    (lowerEnds : memdata.memLower.toNat * 1024 % 2 ^ 32 / 4096 * 4096 ≤ 0x100000)
    (upperReaches : (endkernel kernelEnd).toNat ≤
      (memdata.memUpper.toNat * 1024 + 0x100000) % 2 ^ 32 / 4096 * 4096) :
    BootsSafely kernelEnd memdata := by
  have ranges := i686Init_eq hasSizes aboveMebibyte
  have mebibyte : (0x100000 : BitVec 32).toNat = 0x100000 := rfl
  have zero : (0 : BitVec 32).toNat = 0 := rfl
  have lower := toNat_lowerEnd memdata.memLower
  have upper := toNat_upperEnd memdata.memUpper
  have kernelAligned := endkernel_aligned kernelEnd
  rw [gt_iff_lt, BitVec.lt_def, mebibyte] at aboveMebibyte
  apply BootsSafely.of_ranges
  · rw [ranges]
    refine ⟨?_, ?_, ?_, ?_⟩
    · simp [kernelAligned]
    · intro range rangeMem
      simp only [List.mem_cons, List.not_mem_nil, or_false] at rangeMem
      rcases rangeMem with rfl | rfl
      · simp only
        omega
      · simp only
        omega
    · intro range rangeMem
      simp only [List.mem_cons, List.not_mem_nil, or_false] at rangeMem
      rcases rangeMem with rfl | rfl
      · exact BitVec.le_def.mpr (by simp)
      · simp only [BitVec.le_def]
        omega
    · simp only [List.pairwise_cons, List.mem_singleton, forall_eq, List.not_mem_nil,
        false_implies, implies_true, List.Pairwise.nil, and_true]
      rintro address ⟨⟨-, below⟩, above, -⟩
      simp only [BitVec.lt_def] at below
      simp only [BitVec.le_def] at above
      omega
  · rw [ranges]
    intro range rangeMem address contains kernel
    simp only [List.mem_cons, List.not_mem_nil, or_false] at rangeMem
    simp only [PhysmemRange.Contains, BitVec.le_def, BitVec.lt_def] at contains kernel
    rcases rangeMem with rfl | rfl
    · simp only at contains
      omega
    · simp only at contains
      omega
  · rw [ranges]
    intro range rangeMem address contains
    simp only [List.mem_cons, List.not_mem_nil, or_false] at rangeMem
    simp only [PhysmemRange.Contains, BitVec.le_def, BitVec.lt_def] at contains
    rcases rangeMem with rfl | rfl
    · left
      simp only at contains
      omega
    · right
      simp only at contains
      omega

/-- Booting is safe exactly if the sizes the boot loader reports fit the kernel image. -/
theorem bootsSafely_iff (aboveMebibyte : endkernel kernelEnd > 0x100000) :
    BootsSafely kernelEnd memdata ↔ FitsKernel kernelEnd memdata := by
  constructor
  · intro safe
    by_cases noSizes : memdata.flags &&& 1 = 0
    · exact Or.inl noSizes
    · right
      have ranges := i686Init_eq noSizes aboveMebibyte
      have lower := toNat_lowerEnd memdata.memLower
      have upper := toNat_upperEnd memdata.memUpper
      constructor
      · by_contra beyond
        have contains : PhysmemRange.Contains
            ⟨0, (memdata.memLower <<< 10) &&& ~~~0xfff⟩ 0x100000 := by
          refine ⟨BitVec.le_def.mpr (by simp), ?_⟩
          have mebibyte : (0x100000 : BitVec 32).toNat = 0x100000 := rfl
          rw [BitVec.lt_def, lower, mebibyte]
          omega
        exact safe.outsideKernel _ (by rw [ranges]; exact List.mem_cons_self) _ contains
          ⟨BitVec.le_refl _, aboveMebibyte⟩
      · have ordered := safe.valid.ordered
          ⟨endkernel kernelEnd, ((memdata.memUpper <<< 10) + 0x100000) &&& ~~~0xfff⟩
          (by rw [ranges]; simp)
        rw [BitVec.le_def, upper] at ordered
        exact ordered
  · rintro (noSizes | ⟨lowerEnds, upperReaches⟩)
    · exact bootsSafely_of_noSizes noSizes
    · by_cases noSizes : memdata.flags &&& 1 = 0
      · exact bootsSafely_of_noSizes noSizes
      · exact bootsSafely_of_fits noSizes aboveMebibyte lowerEnds upperReaches

/-- 639 KiB of lower memory and 127 MiB of upper memory, with a kernel of one mebibyte. -/
theorem bootsSafely_usual :
    endkernel 0xc0200000 > 0x100000 ∧ BootsSafely 0xc0200000 ⟨1, 639, 130048⟩ := by
  refine ⟨by decide, (bootsSafely_iff (by decide)).mpr (Or.inr ⟨by decide, by decide⟩)⟩

/-- Where the upper memory ends at 4 GiB, the second range ends at address 0. -/
theorem not_bootsSafely_wrapped :
    endkernel 0xc0200000 > 0x100000 ∧ ¬BootsSafely 0xc0200000 ⟨1, 639, 4193280⟩ := by
  refine ⟨by decide, ?_⟩
  rw [bootsSafely_iff (by decide)]
  rintro (noSizes | ⟨-, upperReaches⟩)
  · revert noSizes
    decide
  · revert upperReaches
    decide

end MultibootMemdata

end Rkernel
