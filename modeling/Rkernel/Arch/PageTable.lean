import Rkernel.Arch.WindowRun
import Mathlib.Algebra.Group.Nat.Defs
import Mathlib.Tactic.IntervalCases

/-!
# Page tables in physical memory

The page directory and the page tables are frames of physical memory, and the kernel writes a
table through an address of the window (`arch/i686/mmu.c`, `arch/i686/physmem.c`). The store
itself is translated by the directory and by the last of the four tables of `boot.s`, so a
frame that is written may be the one that is being walked. Here `pmap_init` and `pmap_enter`
work on such a memory. A call without a result panics or ends in a page fault.

`boot.s` enables write protection, so that a store needs writable entries on both levels.
-/

namespace Rkernel

/-- Physical memory by frames of 1024 words. The frame of `_i686_kernel_page_dir` and the four
frames of `_i686_kernel_page_table` behind it are kept apart under the names of the source. -/
structure PhysMem where
  dirFrame : Paddr
  kernelPageDir : BitVec 32 → Paddr
  kernelPageTable : KernelPageTable
  frames : Paddr → BitVec 32 → Paddr

namespace PhysMem

/-- How many frames a frame is behind the page directory. -/
def framesBehind (mem : PhysMem) (frame : Paddr) : ℕ :=
  (frame - mem.dirFrame).toNat / 4096

/-- The frame of one of the page tables of `boot.s`. -/
def tableFrame (mem : PhysMem) (t : ℕ) : Paddr :=
  mem.dirFrame + mulPagesize (BitVec.ofNat 32 (t + 1))

def readFrame (mem : PhysMem) (frame : Paddr) (i : BitVec 32) : Paddr :=
  match mem.framesBehind frame with
  | 0 => mem.kernelPageDir i
  | t + 1 => if t < 4 then mem.kernelPageTable (1024 * t + i.toNat) else mem.frames frame i

/-- A word of a frame is written. -/
def writeFrame (mem : PhysMem) (frame : Paddr) (i : BitVec 32) (word : Paddr) : PhysMem :=
  match mem.framesBehind frame with
  | 0 => { mem with kernelPageDir := Function.update mem.kernelPageDir i word }
  | t + 1 =>
      if t < 4 then
        { mem with
          kernelPageTable := Function.update mem.kernelPageTable (1024 * t + i.toNat) word }
      else
        { mem with
          frames := Function.update mem.frames frame
            (Function.update (mem.frames frame) i word) }

/-- All words of a frame are set to 0. -/
def zeroFrame (mem : PhysMem) (frame : Paddr) : PhysMem :=
  match mem.framesBehind frame with
  | 0 => { mem with kernelPageDir := fun _ => 0 }
  | t + 1 =>
      if t < 4 then
        { mem with
          kernelPageTable := fun slot => if slot / 1024 = t then 0 else mem.kernelPageTable slot }
      else { mem with frames := Function.update mem.frames frame fun _ => 0 }

/-- The page table entry at an address, if the directory has a table there. -/
def walk (mem : PhysMem) (va : Vaddr) : Option Paddr :=
  let pde := mem.kernelPageDir (pdx va)
  if pde &&& pteP = 0 then none else some (mem.readFrame (pteAddr pde) (ptx va))

/-- The frame that a store at an address writes to; none means a page fault. -/
def storeFrame (mem : PhysMem) (va : Vaddr) : Option Paddr :=
  match mem.walk va with
  | none => none
  | some pte =>
      if mem.kernelPageDir (pdx va) &&& pteW = 0 ∨ pte &&& ptePw ≠ ptePw then none
      else some (pteAddr pte)

/-- A word is stored at an address. -/
def store (mem : PhysMem) (va : Vaddr) (word : Paddr) : Option PhysMem :=
  match mem.storeFrame va with
  | none => none
  | some frame => some (mem.writeFrame frame ((va &&& 0xfff) >>> 2) word)

/-- `map_page`, with the panic of its callers if it returns 0. -/
def mapFrame (mem : PhysMem) (pa : Paddr) : Option (Vaddr × PhysMem) :=
  let mapped := mapPage pa mem.kernelPageTable
  if mapped.1 = 0 then none else some (mapped.1, { mem with kernelPageTable := mapped.2 })

def unmapFrame (mem : PhysMem) (va : Vaddr) : PhysMem :=
  { mem with kernelPageTable := unmapPage va mem.kernelPageTable }

def pmapZeroPage (mem : PhysMem) (pa : Paddr) : Option PhysMem :=
  match mem.mapFrame pa with
  | none => none
  | some (va, mapped) =>
      match mapped.storeFrame va with
      | none => none
      | some frame => some ((mapped.zeroFrame frame).unmapFrame va)

/-- `_i686_pmap_pte_set` -/
def pmapPteSet (mem : PhysMem) (pa : Paddr) (i : BitVec 32) (pte : Paddr) : Option PhysMem :=
  match mem.mapFrame pa with
  | none => none
  | some (va, mapped) =>
      match mapped.store (va + (i <<< 2)) pte with
      | none => none
      | some stored => some (stored.unmapFrame va)

def setDirectory (mem : PhysMem) (i : BitVec 32) (entry : Paddr) : PhysMem :=
  { mem with kernelPageDir := Function.update mem.kernelPageDir i entry }

/-- The loop of `pmap_init` from a directory entry on. -/
def pmapInitLoop : (left i : ℕ) → PhysmemBmaset → PhysMem → Option (PhysmemBmaset × PhysMem)
  | 0, _, bmas, mem => some (bmas, mem)
  | left + 1, i, bmas, mem =>
      match vmPhysAlloc bmas with
      | (some phys, bmas) =>
          match mem.pmapZeroPage phys with
          | none => none
          | some mem =>
              pmapInitLoop left (i + 1) bmas
                (mem.setDirectory (BitVec.ofNat 32 i) (phys ||| ptePw))
      | (none, bmas) => pmapInitLoop left (i + 1) bmas (mem.setDirectory (BitVec.ofNat 32 i) 0)

def pmapInit (bmas : PhysmemBmaset) (mem : PhysMem) : Option (PhysmemBmaset × PhysMem) :=
  pmapInitLoop 252 772 bmas mem

/-- The entry that `pmap_enter` writes. -/
def enteredPte (pa : Paddr) (prot : VmProt) : Paddr :=
  let mapped := pteAddr pa ||| pteP
  if prot &&& vmProtWrite ≠ 0 then mapped ||| pteW else mapped

def pmapEnter (mem : PhysMem) (pmap : Pmap) (va : Vaddr) (pa : Paddr) (prot : VmProt)
    (_flags : BitVec 16) : Option (ℤ × PhysMem) :=
  if pmap = .pInstKernel then
    let pta := mem.kernelPageDir (pdx va)
    if pteFlags pta = 0 then some (1, mem)
    else
      match mem.pmapPteSet (pteAddr pta) (ptx va) (enteredPte pa prot) with
      | none => none
      | some next => some (0, next)
  else some (1, mem)

/-- The page tables as the rest of the kernel sees them. -/
def toMmu (mem : PhysMem) : Mmu where
  kernelPageDir := mem.kernelPageDir
  pageTables := mem.readFrame

/-- The memory that `boot.s` leaves: the page directory is aligned and has the four tables. -/
structure Booted (mem : PhysMem) : Prop where
  aligned : mem.dirFrame.toNat % 4096 = 0
  tables : ∀ t < 4, mem.kernelPageDir (BitVec.ofNat 32 (768 + t)) = mem.tableFrame t ||| ptePw

/-- The page directory is one that `pmap_init` has produced. -/
def Initialised (mem : PhysMem) : Prop :=
  ∃ (bmas nextBmas : PhysmemBmaset) (boot init : PhysMem), boot.Booted ∧
    pmapInit bmas boot = some (nextBmas, init) ∧ mem.dirFrame = init.dirFrame ∧
      mem.kernelPageDir = init.kernelPageDir

/-- The present entries of the kernel's half of the directory point to different frames. -/
def DistinctTables (mem : PhysMem) : Prop :=
  ∀ i j : ℕ, 768 ≤ i → i < 1024 → 768 ≤ j → j < 1024 →
    mem.kernelPageDir (BitVec.ofNat 32 i) &&& pteP ≠ 0 →
    mem.kernelPageDir (BitVec.ofNat 32 j) &&& pteP ≠ 0 →
    pteAddr (mem.kernelPageDir (BitVec.ofNat 32 i)) =
      pteAddr (mem.kernelPageDir (BitVec.ofNat 32 j)) → i = j

/-- The translation of `next` is that of `mem` with the page of `va` set: the directory, the
window and the walk at every other page of the kernel's half are as before. -/
structure IsUpdate (mem next : PhysMem) (va : Vaddr) (pa : Paddr) (prot : VmProt) : Prop where
  entered : ∃ pte, next.walk va = some pte ∧ pteAddr pte = pteAddr pa ∧ pte &&& pteP ≠ 0 ∧
    (pte &&& pteW ≠ 0 ↔ prot &&& vmProtWrite ≠ 0)
  others : ∀ other : Vaddr, 0xc0000000 ≤ other.toNat → other.toNat / 4096 ≠ va.toNat / 4096 →
    next.walk other = mem.walk other
  window : next.kernelPageTable = mem.kernelPageTable
  directory : next.kernelPageDir = mem.kernelPageDir

/-- `pmap_enter` updates the translation or fails and changes nothing; it does what the model
without the window does, and returns if the window can be used. -/
structure EntersPage (mem : PhysMem) (va : Vaddr) (pa : Paddr) (prot : VmProt)
    (flags : BitVec 16) : Prop where
  success : ∀ next, mem.pmapEnter .pInstKernel va pa prot flags = some (0, next) →
    mem.IsUpdate next va pa prot
  failure : ∀ ret next, mem.pmapEnter .pInstKernel va pa prot flags = some (ret, next) →
    ret ≠ 0 → next = mem
  refines : ∀ ret next, mem.pmapEnter .pInstKernel va pa prot flags = some (ret, next) →
    Rkernel.pmapEnter mem.toMmu .pInstKernel va pa prot flags = (ret, next.toMmu)
  returns : ∀ first, FreeRun mem.kernelPageTable first 1 → mem.kernelPageDir 771 ≠ 0 →
    (mem.pmapEnter .pInstKernel va pa prot flags).isSome

section Frames

variable {mem : PhysMem} {frame : Paddr}

theorem framesBehind_tableFrame {t : ℕ} (inTables : t < 4) :
    mem.framesBehind (mem.tableFrame t) = t + 1 := by
  have distance : mem.tableFrame t - mem.dirFrame = mulPagesize (BitVec.ofNat 32 (t + 1)) := by
    rw [tableFrame, BitVec.add_comm]
    exact BitVec.add_sub_cancel _ _
  rw [framesBehind, distance, mulPagesize, BitVec.toNat_shiftLeft, BitVec.toNat_ofNat,
    Nat.shiftLeft_eq]
  omega

theorem tableFrame_aligned (aligned : mem.dirFrame.toNat % 4096 = 0) (t : ℕ) :
    (mem.tableFrame t).toNat % 4096 = 0 := by
  rw [tableFrame, mulPagesize, BitVec.toNat_add, BitVec.toNat_shiftLeft, Nat.shiftLeft_eq]
  omega

/-- A frame is known by its distance from the page directory. -/
theorem eq_of_framesBehind (aligned : mem.dirFrame.toNat % 4096 = 0)
    (frameAligned : frame.toNat % 4096 = 0) {k : ℕ} (behind : mem.framesBehind frame = k) :
    frame = mem.dirFrame + mulPagesize (BitVec.ofNat 32 k) := by
  have frameLt := frame.isLt
  have dirLt := mem.dirFrame.isLt
  apply BitVec.eq_of_toNat_eq
  rw [← behind, framesBehind, mulPagesize, BitVec.toNat_add, BitVec.toNat_shiftLeft,
    BitVec.toNat_ofNat, Nat.shiftLeft_eq, BitVec.toNat_sub]
  omega

/-- A frame that is neither the directory nor one of the tables of `boot.s`. -/
theorem framesBehind_of_ne (aligned : mem.dirFrame.toNat % 4096 = 0)
    (frameAligned : frame.toNat % 4096 = 0) (notDirectory : frame ≠ mem.dirFrame)
    (notTable : ∀ t < 4, frame ≠ mem.tableFrame t) :
    ∃ t, mem.framesBehind frame = t + 1 ∧ ¬t < 4 := by
  cases behind : mem.framesBehind frame with
  | zero =>
      have isDirectory := eq_of_framesBehind aligned frameAligned behind
      exact absurd (isDirectory.trans (BitVec.add_zero _)) notDirectory
  | succ t =>
      refine ⟨t, rfl, ?_⟩
      intro inTables
      exact notTable t inTables (eq_of_framesBehind aligned frameAligned behind)

end Frames

/-- Any entry with these flags has each of them. -/
theorem or_ptePw_and (page : Paddr) {bits : Paddr} (areSet : ptePw &&& bits = bits) :
    (page ||| ptePw) &&& bits = bits := by
  rw [← areSet, ← BitVec.and_assoc, BitVec.setFlag_and_self]

section Window

variable {mem : PhysMem} {va : Vaddr} {first : ℕ}

theorem pdx_of_window (begins : kptmin ≤ first) (ends : first < kptmax)
    (inPage : va.toNat / 4096 = 0xc0000 + first) : pdx va = 771 := by
  simp only [kptmin, kptmax] at begins ends
  have index : (771 : BitVec 32).toNat = 771 := rfl
  apply BitVec.eq_of_toNat_eq
  rw [toNat_pdx, index]
  omega

theorem storeFrame_of_erased (begins : kptmin ≤ first) (ends : first < kptmax)
    (inPage : va.toNat / 4096 = 0xc0000 + first) (erased : mem.kernelPageDir 771 = 0) :
    mem.storeFrame va = none := by
  have noTable : (0 : Paddr) &&& pteP = 0 := by decide
  rw [storeFrame, walk, pdx_of_window begins ends inPage, erased]
  simp only [if_pos noTable]

/-- A store in a page of the window goes to the frame that the entry of the page maps. -/
theorem storeFrame_window (aligned : mem.dirFrame.toNat % 4096 = 0)
    (intact : mem.kernelPageDir 771 = mem.tableFrame 3 ||| ptePw) (begins : kptmin ≤ first)
    (ends : first < kptmax) (inPage : va.toNat / 4096 = 0xc0000 + first) {pa : Paddr}
    (maps : mem.kernelPageTable first = pteAddr pa ||| ptePw) :
    mem.storeFrame va = some (pteAddr pa) := by
  have tableAddr : pteAddr (mem.tableFrame 3 ||| ptePw) = mem.tableFrame 3 :=
    (pteAddr_or_pteFlags (tableFrame_aligned aligned 3) (by decide)).1
  have pageAddr : pteAddr (pteAddr pa ||| ptePw) = pteAddr pa :=
    (pteAddr_or_pteFlags (by rw [toNat_pteAddr]; omega) (by decide)).1
  have directory := pdx_of_window begins ends inPage
  have slot : 1024 * 3 + (ptx va).toNat = first := by
    simp only [kptmin, kptmax] at begins ends
    rw [toNat_ptx]
    omega
  have entry : mem.readFrame (mem.tableFrame 3) (ptx va) = pteAddr pa ||| ptePw := by
    rw [readFrame, framesBehind_tableFrame (by omega), ← maps, ← slot]
    rfl
  have present : mem.kernelPageDir 771 &&& pteP ≠ 0 := by
    rw [intact, or_ptePw_and _ (by decide)]
    decide
  have writable : mem.kernelPageDir 771 &&& pteW ≠ 0 := by
    rw [intact, or_ptePw_and _ (by decide)]
    decide
  have walked : mem.walk va = some (pteAddr pa ||| ptePw) := by
    rw [walk, directory]
    simp only [if_neg present]
    rw [intact, tableAddr, entry]
  have allowed : ¬(mem.kernelPageDir 771 &&& pteW = 0 ∨
      (pteAddr pa ||| ptePw) &&& ptePw ≠ ptePw) := by
    rintro (readOnly | missing)
    · exact writable readOnly
    · exact missing (or_ptePw_and _ (by decide))
  rw [storeFrame, walked, directory]
  simp only [if_neg allowed, pageAddr]

/-- `map_page` takes a free entry of the window, and its callers panic only if there is none. -/
theorem mapFrame_cases (mem : PhysMem) (pa : Paddr) :
    (∃ first, FreeRun mem.kernelPageTable first 1 ∧
      mem.mapFrame pa = some (slotAddress first,
        { mem with kernelPageTable := withRun first 1 pa mem.kernelPageTable })) ∨
      (∀ first, ¬FreeRun mem.kernelPageTable first 1) ∧ mem.mapFrame pa = none := by
  rcases mapPage_cases pa mem.kernelPageTable with ⟨first, run, mapped⟩ | ⟨none, failed⟩
  · left
    refine ⟨first, run, ?_⟩
    simp only [mapFrame, mapped, if_neg (slotAddress_ne_zero (run.first_lt (by omega)))]
  · right
    refine ⟨none, ?_⟩
    simp only [mapFrame, failed, if_true]

theorem withRun_first (first : ℕ) (pa : Paddr) (table : KernelPageTable) :
    withRun first 1 pa table first = pteAddr pa ||| ptePw := by
  have entry := @withRun_inside table first 1 pa 0 (by omega)
  have noOffset : pa + BitVec.ofNat 32 0 * 0x1000 = pa := by simp
  rwa [noOffset, Nat.add_zero] at entry

/-- Unmapping the page of an entry that was free gives the table back. -/
theorem unmapPage_withRun {table : KernelPageTable} (run : FreeRun table first 1) (pa : Paddr) :
    unmapPage (slotAddress first) (withRun first 1 pa table) = table := by
  have address := toNat_slotAddress (Nat.le_of_lt (run.first_lt (by omega)))
  have slot : slotOf (slotAddress first) = first := by
    rw [slotOf_eq (by omega)]
    omega
  rw [unmapPage, slot, ← clearRun_one, clearRun_withRun run.free]

/-- The address of a word in the page of an entry. -/
theorem slotAddress_word (ends : first < kptmax) {i : BitVec 32} (inFrame : i.toNat < 1024) :
    (slotAddress first + (i <<< 2)).toNat / 4096 = 0xc0000 + first ∧
      ((slotAddress first + (i <<< 2)) &&& 0xfff) >>> 2 = i := by
  have address : (slotAddress first + (i <<< 2)).toNat =
      0xc0000000 + first * 4096 + i.toNat * 4 := by
    simp only [kptmax] at ends
    rw [BitVec.toNat_add, toNat_slotAddress (by simp only [kptmax]; omega),
      BitVec.toNat_shiftLeft, Nat.shiftLeft_eq]
    omega
  constructor
  · omega
  · apply BitVec.eq_of_toNat_eq
    rw [BitVec.toNat_ushiftRight, isLowMask_pageMask.toNat_and, address,
      Nat.shiftRight_eq_div_pow]
    omega

/-- The directory after a frame is zeroed: erased if it is the frame of the directory. -/
theorem pmapZeroPage_directory {next : PhysMem} {pa : Paddr}
    (aligned : mem.dirFrame.toNat % 4096 = 0)
    (intact : mem.kernelPageDir 771 = mem.tableFrame 3 ||| ptePw)
    (zeroed : mem.pmapZeroPage pa = some next) :
    next.dirFrame = mem.dirFrame ∧
      ((∀ i, next.kernelPageDir i = 0) ∨
        next.kernelPageDir = mem.kernelPageDir ∧ pteAddr pa ≠ mem.dirFrame) := by
  rcases mem.mapFrame_cases pa with ⟨first, run, mapped⟩ | ⟨-, failed⟩
  · have address := toNat_slotAddress (Nat.le_of_lt (run.first_lt (by omega)))
    have target := @storeFrame_window
      { mem with kernelPageTable := withRun first 1 pa mem.kernelPageTable } (slotAddress first)
      first aligned intact run.begins (run.first_lt (by omega)) (by omega) pa
      (withRun_first first pa _)
    simp only [pmapZeroPage, mapped, target, Option.some.injEq] at zeroed
    subst zeroed
    simp only [zeroFrame, unmapFrame]
    split
    · exact ⟨rfl, Or.inl fun _ => rfl⟩
    · rename_i t behind
      have notDirectory : pteAddr pa ≠ mem.dirFrame := by
        intro isDirectory
        rw [framesBehind, isDirectory, BitVec.sub_self] at behind
        exact absurd behind (by simp)
      split
      · exact ⟨rfl, Or.inr ⟨rfl, notDirectory⟩⟩
      · exact ⟨rfl, Or.inr ⟨rfl, notDirectory⟩⟩
  · simp only [pmapZeroPage, failed] at zeroed
    exact absurd zeroed (by simp)

theorem pmapZeroPage_of_erased (erased : mem.kernelPageDir 771 = 0) (pa : Paddr) :
    mem.pmapZeroPage pa = none := by
  rcases mem.mapFrame_cases pa with ⟨first, run, mapped⟩ | ⟨-, failed⟩
  · have address := toNat_slotAddress (Nat.le_of_lt (run.first_lt (by omega)))
    have fault := @storeFrame_of_erased
      { mem with kernelPageTable := withRun first 1 pa mem.kernelPageTable } (slotAddress first)
      first run.begins (run.first_lt (by omega)) (by omega) erased
    simp only [pmapZeroPage, mapped, fault]
  · simp only [pmapZeroPage, failed]

theorem pmapPteSet_of_erased (erased : mem.kernelPageDir 771 = 0) (pa : Paddr) {i : BitVec 32}
    (inFrame : i.toNat < 1024) (pte : Paddr) : mem.pmapPteSet pa i pte = none := by
  rcases mem.mapFrame_cases pa with ⟨first, run, mapped⟩ | ⟨-, failed⟩
  · have firstLt := run.first_lt (by omega)
    have fault := @storeFrame_of_erased
      { mem with kernelPageTable := withRun first 1 pa mem.kernelPageTable } _ first
      run.begins firstLt (slotAddress_word firstLt inFrame).1 erased
    simp only [pmapPteSet, mapped, store, fault]
  · simp only [pmapPteSet, failed]

/-- A word of a frame that is neither the directory nor a table of `boot.s` is set, and the
window is as before; this fails only if the window is full. -/
theorem pmapPteSet_cases (aligned : mem.dirFrame.toNat % 4096 = 0)
    (intact : mem.kernelPageDir 771 = mem.tableFrame 3 ||| ptePw) {pa : Paddr} {t : ℕ}
    (behind : mem.framesBehind (pteAddr pa) = t + 1) (notTable : ¬t < 4) {i : BitVec 32}
    (inFrame : i.toNat < 1024) (pte : Paddr) :
    mem.pmapPteSet pa i pte = some (mem.writeFrame (pteAddr pa) i pte) ∨
      (∀ first, ¬FreeRun mem.kernelPageTable first 1) ∧ mem.pmapPteSet pa i pte = none := by
  rcases mem.mapFrame_cases pa with ⟨first, run, mapped⟩ | ⟨none, failed⟩
  · left
    have firstLt := run.first_lt (by omega)
    obtain ⟨inPage, word⟩ := slotAddress_word firstLt inFrame
    have target := @storeFrame_window
      { mem with kernelPageTable := withRun first 1 pa mem.kernelPageTable } _ first aligned
      intact run.begins firstLt inPage pa (withRun_first first pa _)
    have same : framesBehind
        { mem with kernelPageTable := withRun first 1 pa mem.kernelPageTable } (pteAddr pa) =
          t + 1 := behind
    simp only [pmapPteSet, mapped, store, target, word, writeFrame, same, behind,
      if_neg notTable, unmapFrame, unmapPage_withRun run]
  · right
    refine ⟨none, ?_⟩
    simp only [pmapPteSet, failed]

end Window

/-- The directory while `pmap_init` runs, before entry `i` is set. If a page that is zeroed is
the directory itself, the tables of `boot.s` are gone and no page can be mapped any more. -/
structure InitInv (mem : PhysMem) (i : ℕ) : Prop where
  aligned : mem.dirFrame.toNat % 4096 = 0
  tables : (∀ t < 4, mem.kernelPageDir (BitVec.ofNat 32 (768 + t)) = mem.tableFrame t ||| ptePw) ∨
    mem.kernelPageDir 771 = 0
  entries : ∀ k, 772 ≤ k → k < i → mem.kernelPageDir (BitVec.ofNat 32 k) = 0 ∨
    ∃ phys, mem.kernelPageDir (BitVec.ofNat 32 k) = phys ||| ptePw ∧
      (mem.kernelPageDir 771 ≠ 0 → pteAddr phys ≠ mem.dirFrame)

namespace InitInv

variable {mem next : PhysMem} {i : ℕ}

theorem setDirectory (inv : mem.InitInv i) (above : 772 ≤ i) (below : i < 1024) {entry : Paddr}
    (isEntry : entry = 0 ∨ ∃ phys, entry = phys ||| ptePw ∧
      (mem.kernelPageDir 771 ≠ 0 → pteAddr phys ≠ mem.dirFrame)) :
    (mem.setDirectory (BitVec.ofNat 32 i) entry).InitInv (i + 1) := by
  have other (k : ℕ) (inDirectory : k < 1024) (isOther : k ≠ i) :
      (mem.setDirectory (BitVec.ofNat 32 i) entry).kernelPageDir (BitVec.ofNat 32 k) =
        mem.kernelPageDir (BitVec.ofNat 32 k) := by
    apply Function.update_of_ne
    intro same
    have sameNat := congrArg BitVec.toNat same
    rw [BitVec.toNat_ofNat, BitVec.toNat_ofNat] at sameNat
    omega
  have window := other 771 (by omega) (by omega)
  refine ⟨inv.aligned, ?_, ?_⟩
  · rcases inv.tables with intact | erased
    · left
      intro t inTables
      rw [other _ (by omega) (by omega)]
      exact intact t inTables
    · right
      exact window.trans erased
  · intro k begun set
    change _ ∨ ∃ phys, _ ∧ ((mem.setDirectory (BitVec.ofNat 32 i) entry).kernelPageDir
      (BitVec.ofNat 32 771) ≠ 0 → _)
    rw [window]
    by_cases here : k = i
    · subst k
      have isSet : (mem.setDirectory (BitVec.ofNat 32 i) entry).kernelPageDir
          (BitVec.ofNat 32 i) = entry := Function.update_self ..
      rw [isSet]
      exact isEntry
    · rw [other k (by omega) here]
      exact inv.entries k begun (by omega)

/-- The invariant is about the directory only. -/
theorem congr (inv : mem.InitInv i) (sameFrame : next.dirFrame = mem.dirFrame)
    (sameDir : next.kernelPageDir = mem.kernelPageDir) : next.InitInv i := by
  have sameTables (t : ℕ) : next.tableFrame t = mem.tableFrame t := by
    rw [tableFrame, sameFrame, tableFrame]
  refine ⟨by rw [sameFrame]; exact inv.aligned, ?_, ?_⟩
  · simp only [sameDir, sameTables]
    exact inv.tables
  · rw [sameDir, sameFrame]
    exact inv.entries

theorem zeroPage (inv : mem.InitInv i) {phys : Paddr}
    (zeroed : mem.pmapZeroPage phys = some next) :
    next.InitInv i ∧ (next.kernelPageDir 771 ≠ 0 → pteAddr phys ≠ next.dirFrame) := by
  rcases inv.tables with intact | erased
  · obtain ⟨sameFrame, allErased | ⟨sameDir, apart⟩⟩ :=
      pmapZeroPage_directory inv.aligned (intact 3 (by omega)) zeroed
    · refine ⟨⟨by rw [sameFrame]; exact inv.aligned, Or.inr (allErased 771), ?_⟩, ?_⟩
      · intro k _ _
        exact Or.inl (allErased _)
      · intro notErased
        exact absurd (allErased 771) notErased
    · refine ⟨inv.congr sameFrame sameDir, ?_⟩
      intro _
      rw [sameFrame]
      exact apart
  · rw [pmapZeroPage_of_erased erased] at zeroed
    exact absurd zeroed (by simp)

theorem loop {left : ℕ} {bmas nextBmas : PhysmemBmaset} (inv : mem.InitInv i)
    (above : 772 ≤ i) (reaches : i + left = 1024)
    (returned : pmapInitLoop left i bmas mem = some (nextBmas, next)) : next.InitInv 1024 := by
  induction left generalizing i bmas mem with
  | zero =>
      simp only [pmapInitLoop, Option.some.injEq, Prod.mk.injEq] at returned
      rw [← returned.2, ← reaches]
      exact inv
  | succ left ih =>
      rw [pmapInitLoop] at returned
      split at returned
      · rename_i phys taken allocated
        split at returned
        · exact absurd returned (by simp)
        · rename_i zeroedMem zeroed
          obtain ⟨zeroedInv, apart⟩ := inv.zeroPage zeroed
          exact ih (zeroedInv.setDirectory above (by omega) (Or.inr ⟨phys, rfl, apart⟩))
            (by omega) (by omega) returned
      · exact ih (inv.setDirectory above (by omega) (Or.inl rfl)) (by omega) (by omega) returned

end InitInv

theorem Initialised.inv {mem : PhysMem} (initialised : mem.Initialised) : mem.InitInv 1024 := by
  obtain ⟨bmas, nextBmas, boot, init, booted, returned, sameFrame, sameDir⟩ := initialised
  have bootInv : boot.InitInv 772 :=
    ⟨booted.aligned, Or.inl booted.tables, fun k begun set => by omega⟩
  exact (bootInv.loop (Nat.le_refl _) rfl returned).congr sameFrame sameDir

section Update

variable {mem : PhysMem} {frame : Paddr} {t : ℕ}

/-- Writing a frame outside the directory and the tables of `boot.s` changes one word. -/
theorem readFrame_writeFrame (behind : mem.framesBehind frame = t + 1) (notTable : ¬t < 4)
    (i : BitVec 32) (word : Paddr) (other : Paddr) (j : BitVec 32) :
    (mem.writeFrame frame i word).readFrame other j =
      if other = frame ∧ j = i then word else mem.readFrame other j := by
  have written : mem.writeFrame frame i word = { mem with
      frames := Function.update mem.frames frame
        (Function.update (mem.frames frame) i word) } := by
    simp only [writeFrame, behind, if_neg notTable]
  rw [written]
  by_cases sameFrame : other = frame
  · subst other
    have sameBehind : framesBehind { mem with
        frames := Function.update mem.frames frame
          (Function.update (mem.frames frame) i word) } frame = t + 1 := behind
    simp only [readFrame, sameBehind, behind, if_neg notTable, Function.update_self,
      Function.update_apply, true_and]
  · simp only [readFrame, Function.update_of_ne sameFrame, sameFrame, false_and, if_false]
    rfl

theorem writeFrame_directory (behind : mem.framesBehind frame = t + 1) (i : BitVec 32)
    (word : Paddr) : (mem.writeFrame frame i word).kernelPageDir = mem.kernelPageDir := by
  simp only [writeFrame, behind]
  split
  · rfl
  · rfl

theorem writeFrame_table (behind : mem.framesBehind frame = t + 1) (notTable : ¬t < 4)
    (i : BitVec 32) (word : Paddr) :
    (mem.writeFrame frame i word).kernelPageTable = mem.kernelPageTable := by
  simp only [writeFrame, behind, if_neg notTable]

theorem toMmu_writeFrame (behind : mem.framesBehind frame = t + 1) (notTable : ¬t < 4)
    (i : BitVec 32) (word : Paddr) :
    (mem.writeFrame frame i word).toMmu = mem.toMmu.pteSet frame i word := by
  have tables : (mem.writeFrame frame i word).readFrame =
      Function.update mem.readFrame frame (Function.update (mem.readFrame frame) i word) := by
    funext other j
    rw [readFrame_writeFrame behind notTable]
    by_cases sameFrame : other = frame
    · subst other
      simp only [true_and, Function.update_self, Function.update_apply]
    · rw [Function.update_of_ne sameFrame, if_neg fun both => sameFrame both.1]
  rw [toMmu, writeFrame_directory behind, tables]
  rfl

end Update

/-- The entry has the frame of the page, is present, and is writable if the protection is. -/
theorem enteredPte_spec (pa : Paddr) (prot : VmProt) :
    pteAddr (enteredPte pa prot) = pteAddr pa ∧ enteredPte pa prot &&& pteP ≠ 0 ∧
      (enteredPte pa prot &&& pteW ≠ 0 ↔ prot &&& vmProtWrite ≠ 0) := by
  have aligned : (pteAddr pa).toNat % 4096 = 0 := by
    rw [toNat_pteAddr]
    omega
  have flagOf (pte bit : Paddr) (isFlag : 0xfff &&& bit = bit) :
      pte &&& bit = pteFlags pte &&& bit := by
    rw [pteFlags, BitVec.and_assoc, isFlag]
  rw [flagOf _ pteP (by decide), flagOf _ pteW (by decide)]
  by_cases writable : prot &&& vmProtWrite ≠ 0
  · have entry : enteredPte pa prot = pteAddr pa ||| (pteP ||| pteW) := by
      rw [enteredPte, if_pos writable, BitVec.or_assoc]
    obtain ⟨address, flags⟩ := @pteAddr_or_pteFlags _ (pteP ||| pteW) aligned (by decide)
    rw [entry, address, flags]
    exact ⟨rfl, by decide, fun _ => writable, fun _ => by decide⟩
  · have entry : enteredPte pa prot = pteAddr pa ||| pteP := by
      rw [enteredPte, if_neg writable]
    obtain ⟨address, flags⟩ := @pteAddr_or_pteFlags _ pteP aligned (by decide)
    rw [entry, address, flags]
    exact ⟨rfl, by decide, fun set => absurd set (by decide), fun set => absurd set writable⟩

section Enter

variable {mem : PhysMem} {va : Vaddr}

/-- The directory index of an address of the kernel's half. -/
theorem pdx_eq_ofNat (va : Vaddr) : pdx va = BitVec.ofNat 32 (va.toNat / 2 ^ 22) := by
  have vaLt := va.isLt
  apply BitVec.eq_of_toNat_eq
  rw [toNat_pdx, BitVec.toNat_ofNat]
  omega

theorem eq_page_of_indices {other : Vaddr} (sameDir : va.toNat / 2 ^ 22 = other.toNat / 2 ^ 22)
    (sameEntry : ptx other = ptx va) : other.toNat / 4096 = va.toNat / 4096 := by
  have entries := congrArg BitVec.toNat sameEntry
  rw [toNat_ptx, toNat_ptx] at entries
  omega

/-- Writing the entry of an address updates the translation, if its table is its own. -/
theorem isUpdate_writeFrame (distinct : mem.DistinctTables) (above : 0xc0000000 ≤ va.toNat)
    (present : mem.kernelPageDir (pdx va) &&& pteP ≠ 0) {t : ℕ}
    (behind : mem.framesBehind (pteAddr (mem.kernelPageDir (pdx va))) = t + 1)
    (notTable : ¬t < 4) (pa : Paddr) (prot : VmProt) :
    mem.IsUpdate (mem.writeFrame (pteAddr (mem.kernelPageDir (pdx va))) (ptx va)
      (enteredPte pa prot)) va pa prot := by
  have sameDir := writeFrame_directory behind (ptx va) (enteredPte pa prot)
  refine ⟨⟨enteredPte pa prot, ?_, enteredPte_spec pa prot⟩, ?_,
    writeFrame_table behind notTable _ _, sameDir⟩
  · rw [walk, sameDir]
    simp only [if_neg present]
    rw [readFrame_writeFrame behind notTable, if_pos ⟨rfl, rfl⟩]
  · intro other otherAbove otherPage
    rw [walk, sameDir, walk]
    by_cases absent : mem.kernelPageDir (pdx other) &&& pteP = 0
    · simp only [if_pos absent]
    · simp only [if_neg absent]
      rw [readFrame_writeFrame behind notTable, if_neg]
      rintro ⟨sameFrame, sameEntry⟩
      have vaLt := va.isLt
      have otherLt := other.isLt
      rw [pdx_eq_ofNat] at absent sameFrame present
      rw [pdx_eq_ofNat va] at sameFrame
      have sameIndex := distinct (va.toNat / 2 ^ 22) (other.toNat / 2 ^ 22) (by omega) (by omega)
        (by omega) (by omega) present absent sameFrame.symm
      exact otherPage (eq_page_of_indices sameIndex sameEntry)

/-- The table of an entry that `pmap_init` has set is a frame of its own. -/
theorem InitInv.framesBehind (inv : mem.InitInv 1024) (distinct : mem.DistinctTables)
    (intact : ∀ t < 4,
      mem.kernelPageDir (BitVec.ofNat 32 (768 + t)) = mem.tableFrame t ||| ptePw)
    {k : ℕ} (above : 772 ≤ k) (below : k < 1024)
    (isSet : mem.kernelPageDir (BitVec.ofNat 32 k) ≠ 0) :
    mem.kernelPageDir (BitVec.ofNat 32 k) &&& pteP ≠ 0 ∧
      ∃ t, mem.framesBehind (pteAddr (mem.kernelPageDir (BitVec.ofNat 32 k))) = t + 1 ∧
        ¬t < 4 := by
  have hasFlag (page : Paddr) : (page ||| ptePw) &&& pteP ≠ 0 := by
    rw [or_ptePw_and page (by decide)]
    decide
  obtain ⟨phys, entry, apart⟩ := (inv.entries k above below).resolve_left isSet
  have present : mem.kernelPageDir (BitVec.ofNat 32 k) &&& pteP ≠ 0 := by
    rw [entry]
    exact hasFlag phys
  refine ⟨present, framesBehind_of_ne inv.aligned (by rw [toNat_pteAddr]; omega) ?_ ?_⟩
  · have address : pteAddr (phys ||| ptePw) = pteAddr phys := by
      have noFlags : pteAddr ptePw = 0 := by decide
      rw [pteAddr, BitVec.and_or_distrib_right]
      change pteAddr phys ||| pteAddr ptePw = _
      rw [noFlags]
      exact BitVec.or_zero
    rw [entry, address]
    apply apart
    intro erased
    have lastTable := intact 3 (by omega)
    exact or_ptePw_ne_zero _ (lastTable.symm.trans erased)
  · intro t inTables sameFrame
    have table := intact t inTables
    have tablePresent : mem.kernelPageDir (BitVec.ofNat 32 (768 + t)) &&& pteP ≠ 0 := by
      rw [table]
      exact hasFlag _
    have tableAddr : pteAddr (mem.kernelPageDir (BitVec.ofNat 32 (768 + t))) =
        mem.tableFrame t := by
      rw [table]
      exact (pteAddr_or_pteFlags (tableFrame_aligned inv.aligned t) (by decide)).1
    have same := distinct k (768 + t) (by omega) below (by omega) (by omega) present tablePresent
      (sameFrame.trans tableAddr.symm)
    omega

/-- What `pmap_enter` does: it finds no table, cannot map the table, or writes the entry. -/
theorem InitInv.pmapEnter_cases (inv : mem.InitInv 1024) (distinct : mem.DistinctTables)
    (above : 0xc1000000 ≤ va.toNat) (pa : Paddr) (prot : VmProt) (flags : BitVec 16) :
    (pteFlags (mem.kernelPageDir (pdx va)) = 0 ∧
      mem.pmapEnter .pInstKernel va pa prot flags = some (1, mem)) ∨
    (mem.pmapEnter .pInstKernel va pa prot flags = none ∧
      (mem.kernelPageDir 771 = 0 ∨ ∀ first, ¬FreeRun mem.kernelPageTable first 1)) ∨
    pteFlags (mem.kernelPageDir (pdx va)) ≠ 0 ∧ mem.kernelPageDir (pdx va) &&& pteP ≠ 0 ∧
      ∃ t, mem.framesBehind (pteAddr (mem.kernelPageDir (pdx va))) = t + 1 ∧ ¬t < 4 ∧
        mem.pmapEnter .pInstKernel va pa prot flags =
          some (0, mem.writeFrame (pteAddr (mem.kernelPageDir (pdx va))) (ptx va)
            (enteredPte pa prot)) := by
  have vaLt := va.isLt
  have inFrame : (ptx va).toNat < 1024 := by
    rw [toNat_ptx]
    omega
  by_cases noTable : pteFlags (mem.kernelPageDir (pdx va)) = 0
  · left
    refine ⟨noTable, ?_⟩
    simp only [pmapEnter, if_true, if_pos noTable]
  · right
    have entered : mem.pmapEnter .pInstKernel va pa prot flags =
        match mem.pmapPteSet (pteAddr (mem.kernelPageDir (pdx va))) (ptx va)
          (enteredPte pa prot) with
        | none => none
        | some next => some (0, next) := by
      simp only [pmapEnter, if_true, if_neg noTable]
    rcases inv.tables with intact | erased
    · have isSet : mem.kernelPageDir (pdx va) ≠ 0 := by
        intro isZero
        rw [isZero] at noTable
        exact noTable (by decide)
      obtain ⟨present, t, behind, notTable⟩ : mem.kernelPageDir (pdx va) &&& pteP ≠ 0 ∧
          ∃ t, mem.framesBehind (pteAddr (mem.kernelPageDir (pdx va))) = t + 1 ∧ ¬t < 4 := by
        rw [pdx_eq_ofNat] at isSet ⊢
        exact inv.framesBehind distinct intact (by omega) (by omega) isSet
      have behindAddr : mem.framesBehind
          (pteAddr (pteAddr (mem.kernelPageDir (pdx va)))) = t + 1 := by
        rw [pteAddr_pteAddr]
        exact behind
      rcases pmapPteSet_cases inv.aligned (intact 3 (by omega)) behindAddr notTable inFrame
        (enteredPte pa prot) with written | ⟨full, failed⟩
      · right
        rw [written, pteAddr_pteAddr] at entered
        exact ⟨noTable, present, t, behind, notTable, entered⟩
      · left
        rw [failed] at entered
        exact ⟨entered, Or.inr full⟩
    · left
      rw [pmapPteSet_of_erased erased _ inFrame] at entered
      exact ⟨entered, Or.inl erased⟩

section Results

variable {pa : Paddr} {prot : VmProt} {flags : BitVec 16}

/-- What the model without the window computes. -/
theorem pmapEnter_toMmu (mem : PhysMem) (va : Vaddr) (pa : Paddr) (prot : VmProt)
    (flags : BitVec 16) :
    Rkernel.pmapEnter mem.toMmu .pInstKernel va pa prot flags =
      if pteFlags (mem.kernelPageDir (pdx va)) = 0 then (1, mem.toMmu)
      else (0, mem.toMmu.pteSet (pteAddr (mem.kernelPageDir (pdx va))) (ptx va)
        (enteredPte pa prot)) :=
  rfl

theorem entersPage_of_noTable (noTable : pteFlags (mem.kernelPageDir (pdx va)) = 0)
    (returned : mem.pmapEnter .pInstKernel va pa prot flags = some (1, mem)) :
    mem.EntersPage va pa prot flags := by
  refine ⟨?_, ?_, ?_, ?_⟩
  · intro next isNext
    simp [returned] at isNext
  · intro ret next isNext _
    simp only [returned, Option.some.injEq, Prod.mk.injEq] at isNext
    exact isNext.2.symm
  · intro ret next isNext
    simp only [returned, Option.some.injEq, Prod.mk.injEq] at isNext
    rw [pmapEnter_toMmu, if_pos noTable, ← isNext.1, ← isNext.2]
  · intro _ _ _
    rw [returned]
    rfl

theorem entersPage_of_none
    (failed : mem.pmapEnter .pInstKernel va pa prot flags = none)
    (cause : mem.kernelPageDir 771 = 0 ∨ ∀ first, ¬FreeRun mem.kernelPageTable first 1) :
    mem.EntersPage va pa prot flags := by
  refine ⟨?_, ?_, ?_, ?_⟩
  · intro next isNext
    simp [failed] at isNext
  · intro ret next isNext
    simp [failed] at isNext
  · intro ret next isNext
    simp [failed] at isNext
  · intro first run notErased
    rcases cause with erased | full
    · exact absurd erased notErased
    · exact absurd run (full first)

theorem entersPage_of_written (distinct : mem.DistinctTables) (above : 0xc0000000 ≤ va.toNat)
    (hasTable : pteFlags (mem.kernelPageDir (pdx va)) ≠ 0)
    (present : mem.kernelPageDir (pdx va) &&& pteP ≠ 0) {t : ℕ}
    (behind : mem.framesBehind (pteAddr (mem.kernelPageDir (pdx va))) = t + 1)
    (notTable : ¬t < 4)
    (returned : mem.pmapEnter .pInstKernel va pa prot flags =
      some (0, mem.writeFrame (pteAddr (mem.kernelPageDir (pdx va))) (ptx va)
        (enteredPte pa prot))) : mem.EntersPage va pa prot flags := by
  refine ⟨?_, ?_, ?_, ?_⟩
  · intro next isNext
    simp only [returned, Option.some.injEq, Prod.mk.injEq, true_and] at isNext
    rw [← isNext]
    exact isUpdate_writeFrame distinct above present behind notTable pa prot
  · intro ret next isNext failed
    simp only [returned, Option.some.injEq, Prod.mk.injEq] at isNext
    exact absurd isNext.1.symm failed
  · intro ret next isNext
    simp only [returned, Option.some.injEq, Prod.mk.injEq] at isNext
    rw [pmapEnter_toMmu, if_neg hasTable, ← isNext.1, ← isNext.2, toMmu_writeFrame behind notTable]
  · intro _ _ _
    rw [returned]
    rfl

end Results

/-- In every directory that `pmap_init` produces, if the present entries point to different
frames, `pmap_enter` updates the translation at one page or changes nothing. This is also so
behind `vae`. -/
theorem pmapEnter_entersPage (initialised : mem.Initialised) (distinct : mem.DistinctTables)
    (above : kernelVab ≤ va) (pa : Paddr) (prot : VmProt) (flags : BitVec 16) :
    mem.EntersPage va pa prot flags := by
  have begins : 0xc1000000 ≤ va.toNat := BitVec.le_def.mp above
  rcases initialised.inv.pmapEnter_cases distinct begins pa prot flags with
    ⟨noTable, returned⟩ | ⟨failed, cause⟩ | ⟨hasTable, present, t, behind, notTable, returned⟩
  · exact entersPage_of_noTable noTable returned
  · exact entersPage_of_none failed cause
  · exact entersPage_of_written distinct (by omega) hasTable present behind notTable returned

end Enter

section Booting

/-- Memory as `boot.s` leaves it, with the directory behind two mebibytes. -/
def bootMem : PhysMem where
  dirFrame := 0x200000
  kernelPageDir i :=
    if 768 ≤ i.toNat ∧ i.toNat < 772 then 0x200000 + mulPagesize (i - 767) ||| ptePw else 0
  kernelPageTable _ := 0
  frames _ _ := 0

/-- An allocator with a single page. -/
def onePage : PhysmemBmaset where
  pmbMaps := [⟨⟨0x400000, 0x401000⟩, 0, 1⟩]
  bitmapBlock _ := 0

/-- The memory after `pmap_init` has taken the page for the first table. -/
def oneTable : PhysMem := bootMem.setDirectory 772 0x400003

theorem setDirectory_self {mem : PhysMem} {i : BitVec 32} {entry : Paddr}
    (isEntry : mem.kernelPageDir i = entry) : mem.setDirectory i entry = mem := by
  rw [setDirectory, ← isEntry, Function.update_eq_self]

/-- Without pages the loop leaves entries as they are that are 0 already. -/
theorem pmapInitLoop_exhausted {bmas : PhysmemBmaset} (exhausted : vmPhysAlloc bmas = (none, bmas))
    {mem : PhysMem} {left i : ℕ}
    (areZero : ∀ k, i ≤ k → k < i + left → mem.kernelPageDir (BitVec.ofNat 32 k) = 0) :
    pmapInitLoop left i bmas mem = some (bmas, mem) := by
  induction left generalizing i with
  | zero => rfl
  | succ left ih =>
      rw [pmapInitLoop, exhausted]
      simp only [setDirectory_self (areZero i (Nat.le_refl _) (by omega))]
      exact ih fun k begun inside => areZero k (by omega) (by omega)

theorem oneTable_entry {k : ℕ} (inDirectory : k < 1024) :
    oneTable.kernelPageDir (BitVec.ofNat 32 k) =
      if k = 772 then 0x400003
      else if 768 ≤ k ∧ k < 772 then
        0x200000 + mulPagesize (BitVec.ofNat 32 k - 767) ||| ptePw
      else 0 := by
  have index : (BitVec.ofNat 32 k).toNat = k := by
    rw [BitVec.toNat_ofNat]
    omega
  change Function.update bootMem.kernelPageDir 772 0x400003 (BitVec.ofNat 32 k) = _
  rw [Function.update_apply]
  by_cases isTable : k = 772
  · rw [if_pos isTable, if_pos (by rw [isTable]; rfl)]
  · rw [if_neg isTable, if_neg]
    · simp only [bootMem, index]
    · intro same
      have sameNat := congrArg BitVec.toNat same
      rw [index] at sameNat
      exact isTable sameNat

theorem oneTable_initialised : oneTable.Initialised := by
  obtain ⟨taken, allocated, exhausted⟩ : ∃ taken, vmPhysAlloc onePage = (some 0x400000, taken) ∧
      vmPhysAlloc taken = (none, taken) := ⟨_, rfl, rfl⟩
  obtain ⟨next, zeroed, sameFrame, sameDir⟩ : ∃ next, bootMem.pmapZeroPage 0x400000 = some next ∧
      next.dirFrame = bootMem.dirFrame ∧ next.kernelPageDir = bootMem.kernelPageDir :=
    ⟨_, rfl, rfl, rfl⟩
  have booted : bootMem.Booted := ⟨by decide, by decide⟩
  have directory : (next.setDirectory (BitVec.ofNat 32 772) 0x400003).kernelPageDir =
      oneTable.kernelPageDir := by
    rw [setDirectory, sameDir]
    rfl
  refine ⟨onePage, taken, bootMem, next.setDirectory (BitVec.ofNat 32 772) 0x400003, booted, ?_,
    sameFrame.symm, directory.symm⟩
  have flags : (0x400000 : Paddr) ||| ptePw = 0x400003 := by decide
  rw [pmapInit, pmapInitLoop, allocated]
  simp only [zeroed, flags]
  apply pmapInitLoop_exhausted exhausted
  intro k begun inside
  rw [directory, oneTable_entry (by omega), if_neg (by omega), if_neg (by omega)]

theorem oneTable_distinctTables : oneTable.DistinctTables := by
  have isTable (k : ℕ) (above : 768 ≤ k) (below : k < 1024)
      (present : oneTable.kernelPageDir (BitVec.ofNat 32 k) &&& pteP ≠ 0) : k < 773 := by
    by_contra behind
    rw [oneTable_entry below, if_neg (by omega), if_neg (by omega)] at present
    exact present (by decide)
  intro i j iAbove iBelow jAbove jBelow iPresent jPresent
  have iTable := isTable i iAbove iBelow iPresent
  have jTable := isTable j jAbove jBelow jPresent
  rw [oneTable_entry iBelow, oneTable_entry jBelow]
  clear iPresent jPresent iBelow jBelow isTable
  interval_cases i <;> interval_cases j <;> decide

theorem pmapEnter_entersPage_firstPage :
    ∃ next, oneTable.pmapEnter .pInstKernel 0xc1000000 0x500123 2 0 = some (0, next) ∧
      oneTable.IsUpdate next 0xc1000000 0x500123 2 := by
  obtain ⟨next, returned⟩ : ∃ next,
      oneTable.pmapEnter .pInstKernel 0xc1000000 0x500123 2 0 = some (0, next) := ⟨_, rfl⟩
  have enters := pmapEnter_entersPage oneTable_initialised oneTable_distinctTables
    (show kernelVab ≤ 0xc1000000 by decide) 0x500123 2 0
  exact ⟨next, returned, enters.success next returned⟩

end Booting

end PhysMem

end Rkernel
