import Rkernel.Lib.Word
import Rkernel.Physmem.Bitmap
import Mathlib.Logic.Function.Basic

/-!
# Page tables of the i686 port

`pmap_enter` (`arch/i686/mmu.c`) is implemented for the kernel's `pmap` only, and
only below page directory entries that are present. Its callers in the pager
ignore the result, so whether a page is entered depends on `Mmu.HasTable`.
-/

namespace Rkernel

abbrev Vaddr := BitVec 32

abbrev VmProt := BitVec 16

/-- A `pmap_t`, which is compared with the address of the kernel's instance only. -/
inductive Pmap where
  | pInstKernel
  | other (address : ℕ)
  deriving DecidableEq

/-- The kernel's page directory and the page tables by their physical address. -/
structure Mmu where
  kernelPageDir : BitVec 32 → Paddr
  pageTables : Paddr → BitVec 32 → Paddr

def pteAddr (pte : Paddr) : Paddr := pte &&& ~~~0xfff

def pteFlags (pte : Paddr) : Paddr := pte &&& 0xfff

def pteP : Paddr := 0x001

def pteW : Paddr := 0x002

def ptePw : Paddr := 0x003

def pdx (va : Vaddr) : BitVec 32 := (va >>> 22) &&& 0x3ff

def ptx (va : Vaddr) : BitVec 32 := (va >>> 12) &&& 0x3ff

def vmProtWrite : VmProt := 2

/-- `p_inst_kernel.vab` -/
def kernelVab : Vaddr := 0xc1000000

/-- `p_inst_kernel.vae` -/
def kernelVae : Vaddr := 0xfe000000 - 1

/-- `_i686_pmap_pte_set`, without the window through which the table is written. -/
def Mmu.pteSet (mmu : Mmu) (table : Paddr) (index : BitVec 32) (pte : Paddr) : Mmu :=
  { mmu with
    pageTables := Function.update mmu.pageTables table
      (Function.update (mmu.pageTables table) index pte) }

/-- `pmap_enter` of the i686 port. -/
def pmapEnter (mmu : Mmu) (pmap : Pmap) (va : Vaddr) (pa : Paddr) (prot : VmProt)
    (_flags : BitVec 16) : ℤ × Mmu :=
  let mapped := pteAddr pa ||| pteP
  let pte := if prot &&& vmProtWrite ≠ 0 then mapped ||| pteW else mapped
  if pmap = .pInstKernel then
    let pta := mmu.kernelPageDir (pdx va)
    if pteFlags pta = 0 then (1, mmu) else (0, mmu.pteSet (pteAddr pta) (ptx va) pte)
  else (1, mmu)

/-- A page can be entered at an address. -/
def Mmu.HasTable (mmu : Mmu) (pmap : Pmap) (va : Vaddr) : Prop :=
  pmap = .pInstKernel ∧ pteFlags (mmu.kernelPageDir (pdx va)) ≠ 0

instance (mmu : Mmu) (pmap : Pmap) (va : Vaddr) : Decidable (mmu.HasTable pmap va) :=
  inferInstanceAs (Decidable (_ ∧ _))

section PmapEnter

variable (mmu : Mmu) (pmap : Pmap) (va : Vaddr) (pa : Paddr) (prot : VmProt) (flags : BitVec 16)

theorem pmapEnter_ret :
    (pmapEnter mmu pmap va pa prot flags).1 = if mmu.HasTable pmap va then 0 else 1 := by
  by_cases present : mmu.HasTable pmap va
  · rw [if_pos present, pmapEnter, if_pos present.1, if_neg present.2]
  · rw [if_neg present]
    simp only [pmapEnter]
    split
    · rename_i kernel
      rw [if_pos (not_not.mp fun flags => present ⟨kernel, flags⟩)]
    · rfl

theorem pmapEnter_kernelPageDir :
    (pmapEnter mmu pmap va pa prot flags).2.kernelPageDir = mmu.kernelPageDir := by
  simp only [pmapEnter]
  split
  · split <;> rfl
  · rfl

end PmapEnter

theorem isLowMask_pageMask : (0xfff : BitVec 32).IsLowMask 12 := rfl

theorem isLowMask_indexMask : (0x3ff : BitVec 32).IsLowMask 10 := rfl

section Fields

theorem toNat_pteAddr (pte : Paddr) : (pteAddr pte).toNat = pte.toNat / 4096 * 4096 :=
  isLowMask_pageMask.toNat_and_not pte

theorem toNat_pdx (va : Vaddr) : (pdx va).toNat = va.toNat / 2 ^ 22 := by
  have vaLt := va.isLt
  rw [pdx, isLowMask_indexMask.toNat_and, BitVec.toNat_ushiftRight, Nat.shiftRight_eq_div_pow]
  omega

theorem toNat_ptx (va : Vaddr) : (ptx va).toNat = va.toNat / 4096 % 1024 := by
  rw [ptx, isLowMask_indexMask.toNat_and, BitVec.toNat_ushiftRight, Nat.shiftRight_eq_div_pow]
  rfl

theorem pteAddr_of_aligned {page : Paddr} (aligned : page.toNat % 4096 = 0) :
    pteAddr page = page := by
  apply BitVec.eq_of_toNat_eq
  rw [toNat_pteAddr]
  omega

theorem pteAddr_pteAddr (pte : Paddr) : pteAddr (pteAddr pte) = pteAddr pte := by
  apply pteAddr_of_aligned
  rw [toNat_pteAddr]
  omega

theorem pteFlags_pteAddr (pte : Paddr) : pteFlags (pteAddr pte) = 0 := by
  have noBits : ~~~0xfff &&& 0xfff = (0 : Paddr) := by decide
  rw [pteFlags, pteAddr, BitVec.and_assoc, noBits]
  exact BitVec.and_zero

/-- An entry is made of its address and its flags. -/
theorem pteAddr_or_pteFlags {page flags : Paddr} (aligned : page.toNat % 4096 = 0)
    (isFlags : pteAddr flags = 0) :
    pteAddr (page ||| flags) = page ∧ pteFlags (page ||| flags) = flags := by
  have pageEq := pteAddr_of_aligned aligned
  have noFlags : pteFlags page = 0 := by
    rw [← pageEq, pteFlags_pteAddr]
  have onlyFlags : pteFlags flags = flags := by
    have split : flags = pteAddr flags ||| pteFlags flags := by
      have allBits : ~~~0xfff ||| 0xfff = BitVec.allOnes 32 := by decide
      rw [pteAddr, pteFlags, ← BitVec.and_or_distrib_left, allBits, BitVec.and_allOnes]
    rw [isFlags] at split
    exact (split.trans BitVec.zero_or).symm
  constructor
  · rw [pteAddr, BitVec.and_or_distrib_right]
    change pteAddr page ||| pteAddr flags = page
    rw [pageEq, isFlags]
    exact BitVec.or_zero
  · rw [pteFlags, BitVec.and_or_distrib_right]
    change pteFlags page ||| pteFlags flags = flags
    rw [noFlags, onlyFlags]
    exact BitVec.zero_or

end Fields

end Rkernel
