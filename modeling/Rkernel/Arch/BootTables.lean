import Rkernel.Arch.KernelHalf
import Rkernel.Arch.Kerninit
import Rkernel.Vm.KernelGrowth

/-!
# The kernel's page tables at boot

`_i686_init` finds the memory, `kern_initmem` makes the physical allocator over it, and `pmap_init`
takes the pages for the kernel's page tables from there. If the page directory and the tables of
`boot.s` lie in the image of the kernel, and the memory fits the kernel, then no page is taken
twice, no table overlaps the kernel, and nothing is mapped behind the window.
-/

namespace Rkernel

/-- The pages that are allocated later are the later slots. -/
theorem Takes.afterAllocs {slots : List (ℕ × Paddr)} {bmas : PhysmemBmaset}
    (nodup : (slots.map Prod.fst).Nodup) {taken : ℕ}
    (takes : Takes slots (min taken slots.length) bmas) (count : ℕ) :
    Takes slots (min (taken + count) slots.length) (bmas.afterAllocs count) ∧
      bmas.allocResult count = slots[taken + count]?.map Prod.snd := by
  have result {count : ℕ} {bmas : PhysmemBmaset}
      (takes : Takes slots (min count slots.length) bmas) :
      (vmPhysAlloc bmas).1 = slots[count]?.map Prod.snd ∧
        Takes slots (min (count + 1) slots.length) (vmPhysAlloc bmas).2 := by
    rcases Nat.lt_or_ge count slots.length with inside | exhausted
    · rw [Nat.min_eq_left (Nat.le_of_lt inside)] at takes
      have isSlot := List.getElem?_eq_getElem inside
      rcases takes.vmPhysAlloc_some nodup isSlot with ⟨next, allocated, takesNext⟩
      rw [allocated, isSlot, Nat.min_eq_left inside]
      exact ⟨rfl, takesNext⟩
    · rw [Nat.min_eq_right exhausted] at takes
      rw [takes.vmPhysAlloc_none (Nat.le_refl _), List.getElem?_eq_none exhausted,
        Nat.min_eq_right (Nat.le_succ_of_le exhausted)]
      exact ⟨rfl, takes⟩
  induction count with
  | zero => exact ⟨takes, (result takes).1⟩
  | succ count ih =>
      have next := (result ih.1).2
      exact ⟨next, (result next).1⟩

namespace PhysMem

/-- The directory entry for the page of a slot. -/
def slotEntry (slots : List (ℕ × Paddr)) (index : ℕ) : Paddr :=
  match slots[index]? with
  | some slot => slot.2 ||| ptePw
  | none => 0

/-- The page directory of `boot.s` and its four tables, which follow it, are in the image of the
kernel. -/
structure InKernel (boot : PhysMem) (kernelEnd : BitVec 32) : Prop extends Booted boot where
  above : 0x100000 ≤ boot.dirFrame.toNat
  below : boot.dirFrame.toNat + 5 * 4096 ≤ (endkernel kernelEnd).toNat

/-- Every slot has a bit and a page of its own, and no page is in the image of the kernel. -/
structure BootSlots (kernelEnd : BitVec 32) (slots : List (ℕ × Paddr)) : Prop where
  bits : (slots.map Prod.fst).Nodup
  pages : (slots.map Prod.snd).Nodup
  aligned : ∀ slot ∈ slots, slot.2.toNat % 4096 = 0
  notKernel : ∀ slot ∈ slots,
    ¬(0x100000 ≤ slot.2.toNat ∧ slot.2.toNat < (endkernel kernelEnd).toNat)

/-- Memory while `pmap_init` runs, before entry `i` is set: the entries before have got the pages
of the slots in their order, and these pages are empty. -/
structure TablesTaken (slots : List (ℕ × Paddr)) (boot : PhysMem) (i : ℕ) (mem : PhysMem) :
    Prop where
  sameFrame : mem.dirFrame = boot.dirFrame
  sameWindow : mem.kernelPageTable = boot.kernelPageTable
  tables : ∀ t < 4, mem.kernelPageDir (BitVec.ofNat 32 (768 + t)) = boot.tableFrame t ||| ptePw
  entries : ∀ k, 772 ≤ k → k < i →
    mem.kernelPageDir (BitVec.ofNat 32 k) = slotEntry slots (k - 772)
  empty : ∀ k, 772 ≤ k → k < i → ∀ slot, slots[k - 772]? = some slot →
    ∀ j, mem.frames slot.2 j = 0

section Slots

variable {slots : List (ℕ × Paddr)} {boot : PhysMem} {kernelEnd : BitVec 32} {slot : ℕ × Paddr}

theorem InKernel.toNat_tableFrame (inKernel : boot.InKernel kernelEnd) {t : ℕ} (isTable : t < 4) :
    (boot.tableFrame t).toNat = boot.dirFrame.toNat + (t + 1) * 4096 := by
  have endLt := (endkernel kernelEnd).isLt
  have below := inKernel.below
  rw [tableFrame, mulPagesize, BitVec.toNat_add, BitVec.toNat_shiftLeft, BitVec.toNat_ofNat,
    Nat.shiftLeft_eq]
  omega

theorem BootSlots.ne_tableFrame (good : BootSlots kernelEnd slots)
    (inKernel : boot.InKernel kernelEnd) (isIn : slot ∈ slots) {t : ℕ} (isTable : t < 4) :
    slot.2 ≠ boot.tableFrame t := by
  intro same
  have apart := good.notKernel slot isIn
  have above := inKernel.above
  have below := inKernel.below
  rw [same, inKernel.toNat_tableFrame isTable] at apart
  omega

/-- A page of a slot is outside of the directory and the tables of `boot.s`. -/
theorem BootSlots.framesBehind (good : BootSlots kernelEnd slots)
    (inKernel : boot.InKernel kernelEnd) (isIn : slot ∈ slots) :
    ∃ t, boot.framesBehind slot.2 = t + 1 ∧ ¬t < 4 := by
  refine framesBehind_of_ne inKernel.aligned (good.aligned slot isIn) ?_
    fun t isTable => good.ne_tableFrame inKernel isIn isTable
  intro isDirectory
  have apart := good.notKernel slot isIn
  have above := inKernel.above
  have below := inKernel.below
  rw [isDirectory] at apart
  omega

theorem BootSlots.index_eq (good : BootSlots kernelEnd slots) {i j : ℕ} {other : ℕ × Paddr}
    (isSlot : slots[i]? = some slot) (isOther : slots[j]? = some other)
    (same : slot.2 = other.2) : i = j := by
  have left : (slots.map Prod.snd)[i]? = some slot.2 := by
    rw [List.getElem?_map, isSlot, Option.map_some]
  have right : (slots.map Prod.snd)[j]? = some slot.2 := by
    rw [List.getElem?_map, isOther, Option.map_some, same]
  have bound := (List.getElem?_eq_some_iff.mp left).1
  exact (List.getElem?_inj bound good.pages).mp (left.trans right.symm)

end Slots

section Loop

variable {slots : List (ℕ × Paddr)} {boot mem : PhysMem} {kernelEnd : BitVec 32} {i : ℕ}
  {bmas : PhysmemBmaset}

/-- A page outside of the directory and its tables is emptied, and nothing else changes. -/
theorem pmapZeroPage_eq (aligned : mem.dirFrame.toNat % 4096 = 0)
    (intact : mem.kernelPageDir 771 = mem.tableFrame 3 ||| ptePw) {pa : Paddr} {t : ℕ}
    (behind : mem.framesBehind (pteAddr pa) = t + 1) (notTable : ¬t < 4) {free : ℕ}
    (room : FreeRun mem.kernelPageTable free 1) :
    mem.pmapZeroPage pa =
      some { mem with frames := Function.update mem.frames (pteAddr pa) fun _ => 0 } := by
  rcases mem.mapFrame_cases pa with ⟨first, run, mapped⟩ | ⟨full, -⟩
  · have firstLt := run.first_lt (by omega)
    have address := toNat_slotAddress (Nat.le_of_lt firstLt)
    have target := @storeFrame_window
      { mem with kernelPageTable := withRun first 1 pa mem.kernelPageTable } (slotAddress first)
      first aligned intact run.begins firstLt (by omega) pa (withRun_first first pa _)
    have same : framesBehind
        { mem with kernelPageTable := withRun first 1 pa mem.kernelPageTable } (pteAddr pa) =
          t + 1 := behind
    simp only [pmapZeroPage, mapped, target, zeroFrame, same, if_neg notTable, unmapFrame,
      unmapPage_withRun run]
  · exact absurd room (full free)

theorem TablesTaken.tableFrame_eq (taken : TablesTaken slots boot i mem) (t : ℕ) :
    mem.tableFrame t = boot.tableFrame t := by
  rw [tableFrame, taken.sameFrame, tableFrame]

theorem TablesTaken.framesBehind_eq (taken : TablesTaken slots boot i mem) (frame : Paddr) :
    mem.framesBehind frame = boot.framesBehind frame := by
  rw [framesBehind, taken.sameFrame, framesBehind]

theorem TablesTaken.setDirectory (taken : TablesTaken slots boot i mem) (above : 772 ≤ i)
    (below : i < 1024)
    (empty : ∀ slot, slots[i - 772]? = some slot → ∀ j, mem.frames slot.2 j = 0) :
    TablesTaken slots boot (i + 1)
      (mem.setDirectory (BitVec.ofNat 32 i) (slotEntry slots (i - 772))) := by
  have other (k : ℕ) (inDirectory : k < 1024) (isOther : k ≠ i) :
      (mem.setDirectory (BitVec.ofNat 32 i) (slotEntry slots (i - 772))).kernelPageDir
        (BitVec.ofNat 32 k) = mem.kernelPageDir (BitVec.ofNat 32 k) := by
    apply Function.update_of_ne
    intro same
    have sameNat := congrArg BitVec.toNat same
    rw [BitVec.toNat_ofNat, BitVec.toNat_ofNat] at sameNat
    omega
  refine ⟨taken.sameFrame, taken.sameWindow, ?_, ?_, ?_⟩
  · intro t inTables
    rw [other _ (by omega) (by omega)]
    exact taken.tables t inTables
  · intro k begun set
    by_cases here : k = i
    · rw [here]
      exact Function.update_self ..
    · rw [other k (by omega) here]
      exact taken.entries k begun (by omega)
  · intro k begun set slot isSlot
    by_cases here : k = i
    · rw [here] at isSlot
      exact empty slot isSlot
    · exact taken.empty k begun (by omega) slot isSlot

theorem TablesTaken.zeroPage (taken : TablesTaken slots boot i mem) (page : Paddr) :
    TablesTaken slots boot i
      { mem with frames := Function.update mem.frames page fun _ => 0 } := by
  refine ⟨taken.sameFrame, taken.sameWindow, taken.tables, taken.entries, ?_⟩
  intro k begun set slot isSlot j
  change Function.update mem.frames page (fun _ => 0) slot.2 j = 0
  rw [Function.update_apply]
  split
  · rfl
  · exact taken.empty k begun set slot isSlot j

/-- `pmap_init` returns, and it takes the slots in their order. -/
theorem TablesTaken.loop (good : BootSlots kernelEnd slots) (inKernel : boot.InKernel kernelEnd)
    {free : ℕ} (room : FreeRun boot.kernelPageTable free 1) {left : ℕ}
    (takes : Takes slots (min (i - 772) slots.length) bmas) (taken : TablesTaken slots boot i mem)
    (above : 772 ≤ i) (ends : i + left = 1024) :
    ∃ nextBmas next, pmapInitLoop left i bmas mem = some (nextBmas, next) ∧
      Takes slots (min 252 slots.length) nextBmas ∧ TablesTaken slots boot 1024 next := by
  induction left generalizing i bmas mem with
  | zero =>
      have isEnd : i = 1024 := by omega
      rw [isEnd] at takes taken
      exact ⟨bmas, mem, rfl, takes, taken⟩
  | succ left ih =>
      rcases Nat.lt_or_ge (i - 772) slots.length with inside | exhausted
      · have isSlot := List.getElem?_eq_getElem inside
        have isIn := List.mem_of_getElem? isSlot
        rw [Nat.min_eq_left (by omega)] at takes
        rcases takes.vmPhysAlloc_some good.bits isSlot with ⟨nextBmas, allocated, takesNext⟩
        rcases good.framesBehind inKernel isIn with ⟨t, behind, notTable⟩
        have pageAddr := pteAddr_of_aligned (good.aligned _ isIn)
        have isBehind : mem.framesBehind (pteAddr slots[i - 772].2) = t + 1 := by
          rw [pageAddr, taken.framesBehind_eq]
          exact behind
        have zeroed := pmapZeroPage_eq (by rw [taken.sameFrame]; exact inKernel.aligned)
          ((taken.tables 3 (by omega)).trans (by rw [taken.tableFrame_eq])) isBehind notTable
          (by rw [taken.sameWindow]; exact room)
        have entry : slotEntry slots (i - 772) = slots[i - 772].2 ||| ptePw := by
          rw [slotEntry, isSlot]
        rw [pageAddr] at zeroed
        rw [pmapInitLoop, allocated]
        simp only [zeroed]
        have next := (taken.zeroPage slots[i - 772].2).setDirectory above (by omega) (by
          intro slot isHere j
          rw [isSlot, Option.some.injEq] at isHere
          rw [← isHere]
          change Function.update mem.frames slots[i - 772].2 (fun _ => 0) slots[i - 772].2 j = 0
          rw [Function.update_self])
        rw [entry] at next
        refine ih ?_ next (by omega) (by omega)
        rw [Nat.min_eq_left (by omega), Nat.sub_add_comm above]
        exact takesNext
      · have still : slots.length ≤ i + 1 - 772 :=
          Nat.le_trans exhausted (Nat.sub_le_sub_right (Nat.le_succ i) 772)
        have noSlot := List.getElem?_eq_none exhausted
        have entry : slotEntry slots (i - 772) = 0 := by
          rw [slotEntry, noSlot]
        rw [Nat.min_eq_right exhausted] at takes
        have next := taken.setDirectory above (by omega) (by
          intro slot isHere
          rw [noSlot] at isHere
          exact absurd isHere.symm (Option.some_ne_none _))
        rw [entry] at next
        rw [pmapInitLoop, takes.vmPhysAlloc_none (Nat.le_refl _)]
        refine ih ?_ next (by omega) (by omega)
        rw [Nat.min_eq_right still]
        exact takes

end Loop

section Directory

variable {slots : List (ℕ × Paddr)} {boot mem : PhysMem} {kernelEnd : BitVec 32}
  {bmas : PhysmemBmaset}

/-- A present entry is that of a table of `boot.s` or has the page of its slot. -/
theorem TablesTaken.present_cases (taken : TablesTaken slots boot 1024 mem)
    (good : BootSlots kernelEnd slots) (inKernel : boot.InKernel kernelEnd) {k : ℕ}
    (above : 768 ≤ k) (below : k < 1024)
    (present : mem.kernelPageDir (BitVec.ofNat 32 k) &&& pteP ≠ 0) :
    (∃ t < 4, k = 768 + t ∧
      pteAddr (mem.kernelPageDir (BitVec.ofNat 32 k)) = boot.tableFrame t) ∨
    ∃ slot, 772 ≤ k ∧ slots[k - 772]? = some slot ∧
      pteAddr (mem.kernelPageDir (BitVec.ofNat 32 k)) = slot.2 := by
  by_cases isTable : k < 772
  · left
    have index : k = 768 + (k - 768) := by omega
    refine ⟨k - 768, by omega, index, ?_⟩
    rw [index, taken.tables _ (by omega), Nat.add_sub_cancel_left]
    exact (pteAddr_or_pteFlags (tableFrame_aligned inKernel.aligned _) (by decide)).1
  · right
    have entry := taken.entries k (by omega) below
    rw [entry, slotEntry] at present ⊢
    cases isSlot : slots[k - 772]? with
    | none =>
        rw [isSlot] at present
        exact absurd (by decide) present
    | some slot =>
        refine ⟨slot, by omega, rfl, ?_⟩
        exact (pteAddr_or_pteFlags (good.aligned slot (List.mem_of_getElem? isSlot))
          (by decide)).1

theorem TablesTaken.distinctTables (taken : TablesTaken slots boot 1024 mem)
    (good : BootSlots kernelEnd slots) (inKernel : boot.InKernel kernelEnd) :
    mem.DistinctTables := by
  intro i j iAbove iBelow jAbove jBelow iPresent jPresent same
  rcases taken.present_cases good inKernel iAbove iBelow iPresent with
    ⟨t, isTable, iIndex, iAddr⟩ | ⟨slot, iHigh, isSlot, iAddr⟩
  · rcases taken.present_cases good inKernel jAbove jBelow jPresent with
      ⟨u, isOther, jIndex, jAddr⟩ | ⟨other, jHigh, isOther, jAddr⟩
    · rw [iAddr, jAddr] at same
      have sameNat := congrArg BitVec.toNat same
      rw [inKernel.toNat_tableFrame isTable, inKernel.toNat_tableFrame isOther] at sameNat
      omega
    · rw [iAddr, jAddr] at same
      exact absurd same.symm
        (good.ne_tableFrame inKernel (List.mem_of_getElem? isOther) isTable)
  · rcases taken.present_cases good inKernel jAbove jBelow jPresent with
      ⟨u, isOther, jIndex, jAddr⟩ | ⟨other, jHigh, isOther, jAddr⟩
    · rw [iAddr, jAddr] at same
      exact absurd same (good.ne_tableFrame inKernel (List.mem_of_getElem? isSlot) isOther)
    · rw [iAddr, jAddr] at same
      have sameIndex := good.index_eq isSlot isOther same
      omega

/-- Behind the window nothing is mapped yet. -/
theorem TablesTaken.walk_eq_zero (taken : TablesTaken slots boot 1024 mem)
    (good : BootSlots kernelEnd slots) (inKernel : boot.InKernel kernelEnd) {va : Vaddr}
    (above : 0xc1000000 ≤ va.toNat) {pte : Paddr} (isEntry : mem.walk va = some pte) : pte = 0 := by
  have vaLt := va.isLt
  rw [walk, pdx_eq_ofNat] at isEntry
  by_cases present : mem.kernelPageDir (BitVec.ofNat 32 (va.toNat / 2 ^ 22)) &&& pteP = 0
  · simp only [if_pos present] at isEntry
    contradiction
  · simp only [if_neg present, Option.some.injEq] at isEntry
    rcases taken.present_cases good inKernel (by omega) (by omega) present with
      ⟨t, isTable, index, -⟩ | ⟨slot, high, isSlot, addr⟩
    · omega
    · rcases good.framesBehind inKernel (List.mem_of_getElem? isSlot) with ⟨t, behind, notTable⟩
      rw [← taken.framesBehind_eq] at behind
      rw [addr, readFrame, behind] at isEntry
      simp only [if_neg notTable] at isEntry
      rw [← isEntry]
      exact taken.empty _ high (by omega) slot isSlot _

/-- The pages of the tables are not handed out again. -/
theorem TablesTaken.ne_allocResult (taken : TablesTaken slots boot 1024 mem)
    (good : BootSlots kernelEnd slots) (inKernel : boot.InKernel kernelEnd)
    (takes : Takes slots (min 252 slots.length) bmas) {count : ℕ} {page : Paddr}
    (allocated : bmas.allocResult count = some page) {k : ℕ} (above : 768 ≤ k) (below : k < 1024)
    (present : mem.kernelPageDir (BitVec.ofNat 32 k) &&& pteP ≠ 0) :
    pteAddr (mem.kernelPageDir (BitVec.ofNat 32 k)) ≠ page := by
  intro isPage
  rw [(takes.afterAllocs good.bits count).2, Option.map_eq_some_iff] at allocated
  rcases allocated with ⟨later, isLater, rfl⟩
  rcases taken.present_cases good inKernel above below present with
    ⟨t, isTable, -, addr⟩ | ⟨slot, -, isSlot, addr⟩
  · exact good.ne_tableFrame inKernel (List.mem_of_getElem? isLater) isTable
      (isPage.symm.trans addr)
  · have sameIndex := good.index_eq isSlot isLater (addr.symm.trans isPage)
    omega

end Directory

/-- What `_i686_init`, `kern_initmem` and `pmap_init` make of memory. -/
structure SetsUp (kernelEnd : BitVec 32) (memdata : MultibootMemdata) (boot : PhysMem)
    (bmas : PhysmemBmaset) (mem : PhysMem) : Prop where
  initialised : mem.Initialised
  distinct : mem.DistinctTables
  window : mem.kernelPageTable = boot.kernelPageTable
  unmapped : ∀ va : Vaddr, 0xc1000000 ≤ va.toNat → ∀ pte, mem.walk va = some pte → pte = 0
  pages : ∀ k, 772 ≤ k → k < 1024 → mem.kernelPageDir (BitVec.ofNat 32 k) &&& pteP ≠ 0 →
    ∀ offset < 4096,
      memdata.Reports ((pteAddr (mem.kernelPageDir (BitVec.ofNat 32 k))).toNat + offset) ∧
      ¬(0x100000 ≤ (pteAddr (mem.kernelPageDir (BitVec.ofNat 32 k))).toNat + offset ∧
        (pteAddr (mem.kernelPageDir (BitVec.ofNat 32 k))).toNat + offset <
          (endkernel kernelEnd).toNat)
  notAllocated : ∀ count page, bmas.allocResult count = some page → ∀ k, 768 ≤ k → k < 1024 →
    mem.kernelPageDir (BitVec.ofNat 32 k) &&& pteP ≠ 0 →
      pteAddr (mem.kernelPageDir (BitVec.ofNat 32 k)) ≠ page

section Boot

variable {kernelEnd : BitVec 32} {memdata : MultibootMemdata}

theorem bootsSafely_of_fitsKernel (aboveMebibyte : endkernel kernelEnd > 0x100000)
    (fits : memdata.FitsKernel kernelEnd) : memdata.BootsSafely kernelEnd := by
  by_cases noSizes : memdata.flags &&& 1 = 0
  · exact MultibootMemdata.bootsSafely_of_noSizes noSizes
  · rcases fits with noFlag | ⟨lowerEnds, upperReaches⟩
    · exact absurd noFlag noSizes
    · exact MultibootMemdata.bootsSafely_of_fits noSizes aboveMebibyte lowerEnds upperReaches

/-- The pages of the allocator are reported memory outside of the kernel. -/
theorem slot_safe (safe : memdata.BootsSafely kernelEnd) {words : BitArray 32} {slot : ℕ × Paddr}
    (isIn : slot ∈ (kernInitmem (i686Init kernelEnd memdata) words).slots) :
    slot.2.toNat % 4096 = 0 ∧ ∀ offset < 4096, memdata.Reports (slot.2.toNat + offset) ∧
      ¬(0x100000 ≤ slot.2.toNat + offset ∧
        slot.2.toNat + offset < (endkernel kernelEnd).toNat) := by
  have carved := (PhysmemBmaset.booted_spec safe.valid words).1
  rcases carved.slot_contained isIn with ⟨range, isRange, ⟨begins, ends⟩, i, address⟩
  have aligned := safe.valid.beginAligned range isRange
  have endLt := range.pmEnd.isLt
  refine ⟨by omega, ?_⟩
  intro offset inPage
  have mebibyte : (0x100000 : BitVec 32).toNat = 0x100000 := rfl
  have sum : (BitVec.ofNat 32 (slot.2.toNat + offset)).toNat = slot.2.toNat + offset := by
    rw [BitVec.toNat_ofNat]
    exact Nat.mod_eq_of_lt (by omega)
  have contains : range.Contains (BitVec.ofNat 32 (slot.2.toNat + offset)) := by
    rw [PhysmemRange.Contains, BitVec.le_def, BitVec.lt_def, sum]
    omega
  have outside := safe.outsideKernel range isRange _ contains
  have reported := safe.reported range isRange _ contains
  rw [BitVec.le_def, BitVec.lt_def, sum, mebibyte] at outside
  rw [sum] at reported
  exact ⟨reported, outside⟩

theorem bootSlots_of_safe (safe : memdata.BootsSafely kernelEnd) (words : BitArray 32) :
    BootSlots kernelEnd (kernInitmem (i686Init kernelEnd memdata) words).slots := by
  have carved := (PhysmemBmaset.booted_spec safe.valid words).1
  refine ⟨carved.slots_fst_nodup, carved.slots_snd_nodup safe.valid.disjoint,
    fun slot isIn => (slot_safe safe isIn).1, ?_⟩
  intro slot isIn
  have outside := ((slot_safe safe isIn).2 0 (by omega)).2
  rw [Nat.add_zero] at outside
  exact outside

/-- `pmap_init` returns, and its tables have the first pages of the allocator. -/
theorem pmapInit_takes (safe : memdata.BootsSafely kernelEnd) {boot : PhysMem}
    (inKernel : boot.InKernel kernelEnd) {free : ℕ} (room : FreeRun boot.kernelPageTable free 1)
    (words : BitArray 32) :
    ∃ bmas mem, boot.pmapInit (kernInitmem (i686Init kernelEnd memdata) words) = some (bmas, mem) ∧
      Takes (kernInitmem (i686Init kernelEnd memdata) words).slots
        (min 252 (kernInitmem (i686Init kernelEnd memdata) words).slots.length) bmas ∧
      TablesTaken (kernInitmem (i686Init kernelEnd memdata) words).slots boot 1024 mem := by
  have good := bootSlots_of_safe safe words
  have clear := (PhysmemBmaset.booted_spec safe.valid words).2
  have begins : TablesTaken (kernInitmem (i686Init kernelEnd memdata) words).slots boot 772 boot :=
    ⟨rfl, rfl, inKernel.tables, fun k above below => absurd below (Nat.not_lt.mpr above),
      fun k above below => absurd below (Nat.not_lt.mpr above)⟩
  have nothing : Takes (kernInitmem (i686Init kernelEnd memdata) words).slots
      (min (772 - 772) (kernInitmem (i686Init kernelEnd memdata) words).slots.length)
      (kernInitmem (i686Init kernelEnd memdata) words) := by
    rw [Nat.sub_self, Nat.zero_min]
    exact ⟨rfl, clear⟩
  exact begins.loop good inKernel room nothing (Nat.le_refl _) (show 772 + 252 = 1024 from rfl)

/-- Boot sets up the page tables: `pmap_init` returns, its tables are different pages of reported
memory outside of the kernel that are not handed out again, and behind the window nothing is
mapped. -/
theorem pmapInit_setsUp (aboveMebibyte : endkernel kernelEnd > 0x100000)
    (fits : memdata.FitsKernel kernelEnd) {boot : PhysMem} (inKernel : boot.InKernel kernelEnd)
    {free : ℕ} (room : FreeRun boot.kernelPageTable free 1) (words : BitArray 32) :
    ∃ bmas mem, boot.pmapInit (kernInitmem (i686Init kernelEnd memdata) words) = some (bmas, mem) ∧
      SetsUp kernelEnd memdata boot bmas mem := by
  have safe := bootsSafely_of_fitsKernel aboveMebibyte fits
  have good := bootSlots_of_safe safe words
  rcases pmapInit_takes safe inKernel room words with ⟨bmas, mem, returned, takes, taken⟩
  refine ⟨bmas, mem, returned, ⟨_, bmas, boot, mem, inKernel.toBooted, returned, rfl, rfl⟩,
    taken.distinctTables good inKernel, taken.sameWindow,
    fun va above pte => taken.walk_eq_zero good inKernel above, ?_,
    fun count page allocated k => taken.ne_allocResult good inKernel takes allocated⟩
  intro k above below present
  rcases taken.present_cases good inKernel (by omega) below present with
    ⟨t, isTable, index, -⟩ | ⟨slot, -, isSlot, addr⟩
  · omega
  · rw [addr]
    exact (slot_safe safe (List.mem_of_getElem? isSlot)).2

/-- 639 KiB of lower memory and 127 MiB of upper memory, with a kernel of two mebibytes. -/
theorem pmapInit_setsUp_usual : ∃ bmas mem,
    bootMem.pmapInit (kernInitmem (i686Init 0xc0300000 ⟨1, 639, 130048⟩) fun _ => 0) =
      some (bmas, mem) ∧ SetsUp 0xc0300000 ⟨1, 639, 130048⟩ bootMem bmas mem := by
  have inKernel : bootMem.InKernel 0xc0300000 := ⟨⟨by decide, by decide⟩, by decide, by decide⟩
  have room : FreeRun bootMem.kernelPageTable kptmin 1 :=
    ⟨Nat.le_refl _, by decide, fun _ _ => rfl⟩
  exact pmapInit_setsUp (by decide) (Or.inr ⟨by decide, by decide⟩) inKernel room _

end Boot

end PhysMem

end Rkernel
