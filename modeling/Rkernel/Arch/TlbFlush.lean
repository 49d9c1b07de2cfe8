import Rkernel.Arch.Tlb
import Rkernel.Vm.AddressRange

/-!
# Entering pages and flushing them

`pmap_enter` (`arch/i686/mmu.c`) stores an entry through the window and leaves what the processor
has cached for the page. Its callers flush nothing, so that it depends on the entry before whether
the processor can go on with that one. The flush functions of `arch/i686/mmu.c`, which
`xcpu/vm.c` passes on, invalidate a page, a range of pages or all of them.
-/

namespace Rkernel

open Tlb

namespace PhysMem

/-- The entries that the processor walks to; a page without a table has no entry. -/
def kernelEntries (mem : PhysMem) (slot : ℕ) : Paddr :=
  (mem.walk (slotAddress slot)).getD 0

/-- What `pmap_enter` tells the processor if it does not panic: the table is mapped in the window,
its entry is stored, and it is unmapped. -/
def pmapEnterProgram (mem : PhysMem) (va : Vaddr) (pa : Paddr) (prot : VmProt) : List PageInstr :=
  let pta := mem.kernelPageDir (pdx va)
  if pteFlags pta = 0 then []
  else
    mapPageProgram (pteAddr pta) mem.kernelPageTable ++
      .store (slotOf va) (enteredPte pa prot) ::
        unmapPageProgram (mapPage (pteAddr pta) mem.kernelPageTable).1

end PhysMem

def mmuTlbFlushAll : List PageInstr :=
  [.invalidateAll]

def mmuTlbFlushPage (pos : Vaddr) : List PageInstr :=
  [invlpg pos]

section Slots

variable {va : Vaddr} {slot : ℕ}

/-- An address of the kernel's half of the address space. -/
theorem toNat_slotAddress_kernel (inKernel : slot < 2 ^ 18) :
    (slotAddress slot).toNat = 0xc0000000 + slot * 4096 := by
  have base : (0xc0000000 : BitVec 32).toNat = 0xc0000000 := rfl
  rw [slotAddress, mulPagesize, BitVec.toNat_add, BitVec.toNat_shiftLeft, BitVec.toNat_ofNat,
    Nat.shiftLeft_eq, base]
  omega

theorem slotOf_of_same_page {other : Vaddr} (same : va.toNat / 4096 = other.toNat / 4096) :
    slotOf va = slotOf other := by
  have base : (0xc0000000 : BitVec 32).toNat = 0xc0000000 := rfl
  have vaLt := va.isLt
  have otherLt := other.isLt
  rw [slotOf, slotOf, BitVec.toNat_ushiftRight, BitVec.toNat_ushiftRight, BitVec.toNat_sub,
    BitVec.toNat_sub, base, Nat.shiftRight_eq_div_pow, Nat.shiftRight_eq_div_pow]
  omega

theorem walk_of_same_page (mem : PhysMem) {other : Vaddr}
    (same : va.toNat / 4096 = other.toNat / 4096) : mem.walk va = mem.walk other := by
  have sameDir : pdx va = pdx other := by
    apply BitVec.eq_of_toNat_eq
    rw [toNat_pdx, toNat_pdx]
    omega
  have sameEntry : ptx va = ptx other := by
    apply BitVec.eq_of_toNat_eq
    rw [toNat_ptx, toNat_ptx]
    omega
  rw [PhysMem.walk, PhysMem.walk, sameDir, sameEntry]

end Slots

namespace PhysMem

section Enter

variable {mem next : PhysMem} {va : Vaddr} {pa : Paddr} {prot : VmProt} {flags : BitVec 16}

/-- A page of the window has the entry of the window. -/
theorem kernelEntries_window (aligned : mem.dirFrame.toNat % 4096 = 0)
    (intact : mem.kernelPageDir 771 = mem.tableFrame 3 ||| ptePw) {first : ℕ}
    (begins : kptmin ≤ first) (ends : first < kptmax) :
    mem.kernelEntries first = mem.kernelPageTable first := by
  have address := toNat_slotAddress (Nat.le_of_lt ends)
  have present : (mem.tableFrame 3 ||| ptePw) &&& pteP ≠ 0 := by
    rw [or_ptePw_and _ (by decide)]
    decide
  have tableAddr : pteAddr (mem.tableFrame 3 ||| ptePw) = mem.tableFrame 3 :=
    (pteAddr_or_pteFlags (tableFrame_aligned aligned 3) (by decide)).1
  have slot : 1024 * 3 + (ptx (slotAddress first)).toNat = first := by
    simp only [kptmin, kptmax] at begins ends
    rw [toNat_ptx, address]
    omega
  rw [kernelEntries, walk, pdx_of_window begins ends (by omega), intact]
  simp only [if_neg present, Option.getD_some]
  rw [tableAddr, readFrame, framesBehind_tableFrame (by omega)]
  exact congrArg mem.kernelPageTable slot

/-- What a successful `pmap_enter` is for the processor. -/
structure EntersBy (mem next : PhysMem) (va : Vaddr) (pa : Paddr) (prot : VmProt) (first : ℕ)
    (mapped : Paddr) : Prop where
  other : slotOf va ≠ first
  isFree : mem.kernelEntries first = 0
  program : mem.pmapEnterProgram va pa prot =
    [.store first mapped, .invalidate first, .store (slotOf va) (enteredPte pa prot),
      .store first 0, .invalidate first]
  entered : ∀ slot < 2 ^ 18, next.kernelEntries slot =
    Function.update mem.kernelEntries (slotOf va) (enteredPte pa prot) slot

/-- A call that stores an entry has found a table and a free page of the window. -/
theorem window_of_stores (inv : mem.InitInv 1024)
    (hasTable : pteFlags (mem.kernelPageDir (pdx va)) ≠ 0)
    (returns : mem.pmapEnter .pInstKernel va pa prot flags ≠ none) :
    mem.kernelPageDir 771 = mem.tableFrame 3 ||| ptePw ∧
      ∃ first mapped, FreeRun mem.kernelPageTable first 1 ∧ mem.pmapEnterProgram va pa prot =
        [.store first mapped, .invalidate first, .store (slotOf va) (enteredPte pa prot),
          .store first 0, .invalidate first] := by
  have inFrame : (ptx va).toNat < 1024 := by
    rw [toNat_ptx]
    omega
  have stored : mem.pmapPteSet (pteAddr (mem.kernelPageDir (pdx va))) (ptx va)
      (enteredPte pa prot) ≠ none := by
    intro failed
    refine returns ?_
    rw [pmapEnter, if_pos rfl, if_neg hasTable, failed]
  constructor
  · exact (inv.tables.resolve_right fun erased =>
      stored (pmapPteSet_of_erased erased _ inFrame _)) 3 (by omega)
  · rcases mapPageProgram_cases (pteAddr (mem.kernelPageDir (pdx va))) mem.kernelPageTable with
      ⟨first, run, isRun, mapped⟩ | ⟨-, failed⟩
    · refine ⟨first, pteAddr (pteAddr (mem.kernelPageDir (pdx va))) ||| ptePw, run, ?_⟩
      rw [pmapEnterProgram, if_neg hasTable, isRun, mapped]
      simp only [writeRunProgram, unmapPageProgram, invlpg,
        slotOf_slotAddress (run.first_lt (by omega)), List.cons_append, List.nil_append]
    · refine absurd ?_ stored
      rw [pmapPteSet, mapFrame]
      simp only [failed, if_true]

theorem entersBy_of_success (initialised : mem.Initialised) (distinct : mem.DistinctTables)
    (above : 0xc1000000 ≤ va.toNat)
    (success : mem.pmapEnter .pInstKernel va pa prot flags = some (0, next)) :
    ∃ first mapped, mem.EntersBy next va pa prot first mapped := by
  have inv := initialised.inv
  rcases inv.pmapEnter_cases distinct above pa prot flags with
    ⟨-, failed⟩ | ⟨failed, -⟩ | ⟨hasTable, present, t, behind, notTable, returned⟩
  · rw [failed] at success
    simp at success
  · rw [failed] at success
    contradiction
  · rcases window_of_stores inv hasTable (by rw [returned]; exact Option.some_ne_none _) with
      ⟨intact, first, mapped, run, program⟩
    have firstLt := run.first_lt (by omega)
    refine ⟨first, mapped, ?_, ?_, program, ?_⟩
    · rw [slotOf_eq (by omega)]
      simp only [kptmax] at firstLt
      omega
    · have isFree := run.free 0 (by omega)
      rwa [kernelEntries_window inv.aligned intact run.begins firstLt]
    · rw [returned, Option.some.injEq, Prod.mk.injEq] at success
      have update := isUpdate_writeFrame distinct (by omega) present behind notTable pa prot
      have sameDir := writeFrame_directory behind (ptx va) (enteredPte pa prot)
      intro slot inKernel
      have address := toNat_slotAddress_kernel inKernel
      have vaSlot := @slotOf_eq va (by omega)
      rw [← success.2]
      rcases eq_or_ne slot (slotOf va) with isHere | isOther
      · have samePage : (slotAddress slot).toNat / 4096 = va.toNat / 4096 := by omega
        rw [isHere, Function.update_self, kernelEntries, ← isHere, walk_of_same_page _ samePage,
          walk, sameDir]
        simp only [if_neg present]
        rw [readFrame_writeFrame behind notTable, if_pos ⟨rfl, rfl⟩]
        rfl
      · rw [Function.update_of_ne isOther, kernelEntries, kernelEntries,
          update.others (slotAddress slot) (by omega) (by omega)]

/-- The page that is entered, and only if its entry was present and another one. -/
theorem EntersBy.stale_iff {first : ℕ} {mapped : Paddr}
    (enters : mem.EntersBy next va pa prot first mapped) (slot : ℕ) :
    stale IsPresent (mem.pmapEnterProgram va pa prot) mem.kernelEntries (fun _ => False) slot ↔
      slot = slotOf va ∧ IsPresent (mem.kernelEntries (slotOf va)) ∧
        mem.kernelEntries (slotOf va) ≠ enteredPte pa prot := by
  have notPresent : ¬IsPresent (0 : Paddr) := fun present => present (by decide)
  rw [enters.program]
  simp only [stale, enters.isFree, notPresent, false_and, and_false, or_false, false_or,
    Function.update_of_ne enters.other]
  constructor
  · rintro ⟨entered | ⟨isFirst, -⟩, notFirst⟩
    · exact entered
    · exact absurd isFirst notFirst
  · intro entered
    refine ⟨Or.inl entered, ?_⟩
    rw [entered.1]
    exact enters.other

theorem EntersBy.tableAfter_eq {first : ℕ} {mapped : Paddr}
    (enters : mem.EntersBy next va pa prot first mapped) {slot : ℕ} (inKernel : slot < 2 ^ 18) :
    tableAfter (mem.pmapEnterProgram va pa prot) mem.kernelEntries slot =
      next.kernelEntries slot := by
  rw [enters.entered slot inKernel, enters.program]
  simp only [tableAfter]
  rcases eq_or_ne slot first with rfl | isOther
  · rw [Function.update_self, Function.update_of_ne enters.other.symm, enters.isFree]
  · rw [Function.update_of_ne isOther]
    rcases eq_or_ne slot (slotOf va) with rfl | notHere
    · rw [Function.update_self, Function.update_self]
    · rw [Function.update_of_ne notHere, Function.update_of_ne notHere,
        Function.update_of_ne isOther]

/-- If the entry before was present and another one, the processor can have cached it. -/
theorem EntersBy.outdated_run {first : ℕ} {mapped : Paddr}
    (enters : mem.EntersBy next va pa prot first mapped)
    (present : IsPresent (mem.kernelEntries (slotOf va)))
    (differ : mem.kernelEntries (slotOf va) ≠ enteredPte pa prot) :
    ∃ final, Runs IsPresent (mem.pmapEnterProgram va pa prot) ⟨mem.kernelEntries, fun _ => none⟩
      final ∧ ¬Fresh final (slotOf va) := by
  rw [enters.program]
  refine ⟨_, .move (.fill (slotOf va) present) (.exec (.exec (.exec (.exec (.exec (.nil _)))))), ?_⟩
  intro fresh
  have isCached := fresh (mem.kernelEntries (slotOf va)) (by
    simp [exec, Function.update_of_ne enters.other])
  simp only [exec, Function.update_of_ne enters.other, Function.update_self] at isCached
  exact differ isCached.symm

/-- `pmap_enter`, with whatever the processor caches before, between and after its instructions.
The table of the kernel's half is the one of the memory that the call makes. Nothing is out of date
after the call exactly if the entry before was not present or is the one that was entered; with
`mmu_tlb_flush_page` behind the call it never is. -/
theorem pmapEnter_fresh_iff (initialised : mem.Initialised) (distinct : mem.DistinctTables)
    (above : kernelVab ≤ va)
    (success : mem.pmapEnter .pInstKernel va pa prot flags = some (0, next)) :
    (∀ slot < 2 ^ 18, tableAfter (mem.pmapEnterProgram va pa prot) mem.kernelEntries slot =
      next.kernelEntries slot) ∧
    ((∀ cached final, Sound IsPresent ⟨mem.kernelEntries, cached⟩ (fun _ => False) →
        Runs IsPresent (mem.pmapEnterProgram va pa prot) ⟨mem.kernelEntries, cached⟩ final →
          ∀ slot, Fresh final slot) ↔
      ¬IsPresent (mem.kernelEntries (slotOf va)) ∨
        mem.kernelEntries (slotOf va) = enteredPte pa prot) ∧
    ∀ cached final, Sound IsPresent ⟨mem.kernelEntries, cached⟩ (fun _ => False) →
      Runs IsPresent (mem.pmapEnterProgram va pa prot ++ mmuTlbFlushPage va)
        ⟨mem.kernelEntries, cached⟩ final → ∀ slot, Fresh final slot := by
  have begins : 0xc1000000 ≤ va.toNat := BitVec.le_def.mp above
  rcases entersBy_of_success initialised distinct begins success with ⟨first, mapped, enters⟩
  refine ⟨fun slot => enters.tableAfter_eq, ⟨?_, ?_⟩, ?_⟩
  · intro alwaysFresh
    by_contra outdated
    rw [not_or, not_not] at outdated
    rcases enters.outdated_run outdated.1 outdated.2 with ⟨final, runs, notFresh⟩
    exact notFresh (alwaysFresh _ final ⟨by simp, by simp [Fresh]⟩ runs _)
  · intro condition cached final sound runs slot
    refine (runs.sound sound).2.fresh slot fun isStale => ?_
    rcases (enters.stale_iff slot).mp isStale with ⟨-, present, differ⟩
    exact condition.elim (fun absent => absent present) differ
  · intro cached final sound runs slot
    refine (runs.sound sound).2.fresh slot fun isStale => ?_
    rw [stale_append] at isStale
    exact isStale.2 ((enters.stale_iff slot).mp isStale.1).1

end Enter

/-- The first page that is entered behind the window was not present before. -/
theorem pmapEnter_fresh_iff_firstPage :
    ∃ next, oneTable.pmapEnter .pInstKernel 0xc1000000 0x500123 2 0 = some (0, next) ∧
      ∀ cached final, Sound IsPresent ⟨oneTable.kernelEntries, cached⟩ (fun _ => False) →
        Runs IsPresent (oneTable.pmapEnterProgram 0xc1000000 0x500123 2)
          ⟨oneTable.kernelEntries, cached⟩ final → ∀ slot, Fresh final slot := by
  obtain ⟨next, returned⟩ : ∃ next,
      oneTable.pmapEnter .pInstKernel 0xc1000000 0x500123 2 0 = some (0, next) := ⟨_, rfl⟩
  have iff := (pmapEnter_fresh_iff oneTable_initialised oneTable_distinctTables
    (show kernelVab ≤ 0xc1000000 by decide) returned).2.1
  refine ⟨next, returned, iff.mpr (Or.inl ?_)⟩
  exact fun present => present (by decide)

/-- A call of `pmap_enter` for the kernel. -/
structure EnterCall where
  va : Vaddr
  pa : Paddr
  prot : VmProt
  flags : BitVec 16

/-- Calls of `pmap_enter` one after the other, of which none panics: what they tell the processor
and the memory behind them. -/
def pmapEnterAll : List EnterCall → PhysMem → Option (List PageInstr × PhysMem)
  | [], mem => some ([], mem)
  | call :: calls, mem =>
      (mem.pmapEnter .pInstKernel call.va call.pa call.prot call.flags).bind fun entered =>
        (pmapEnterAll calls entered.2).map fun later =>
          (mem.pmapEnterProgram call.va call.pa call.prot ++ later.1, later.2)

section EnterAll

variable {mem next : PhysMem} {va : Vaddr} {pa : Paddr} {prot : VmProt} {flags : BitVec 16}
  {table : ℕ → Paddr} {outdated : ℕ → Prop} {slot : ℕ}

theorem Initialised.congr (initialised : mem.Initialised) (sameFrame : next.dirFrame = mem.dirFrame)
    (sameDir : next.kernelPageDir = mem.kernelPageDir) : next.Initialised := by
  rcases initialised with ⟨bmas, nextBmas, boot, init, booted, returned, isFrame, isDir⟩
  exact ⟨bmas, nextBmas, boot, init, booted, returned, sameFrame.trans isFrame, sameDir.trans isDir⟩

theorem DistinctTables.congr (distinct : mem.DistinctTables)
    (sameDir : next.kernelPageDir = mem.kernelPageDir) : next.DistinctTables := by
  rw [DistinctTables, sameDir]
  exact distinct

theorem slotOf_lt (above : 0xc1000000 ≤ va.toNat) : slotOf va < 2 ^ 18 := by
  have vaLt := va.isLt
  rw [slotOf_eq (by omega)]
  omega

theorem writeFrame_dirFrame (mem : PhysMem) (frame : Paddr) (i : BitVec 32) (word : Paddr) :
    (mem.writeFrame frame i word).dirFrame = mem.dirFrame := by
  rw [writeFrame]
  split
  · rfl
  · split <;> rfl

/-- A call that returns tells the processor nothing and changes nothing, or it enters a page. -/
theorem pmapEnter_returned (initialised : mem.Initialised) (distinct : mem.DistinctTables)
    (above : 0xc1000000 ≤ va.toNat) {ret : ℤ}
    (returned : mem.pmapEnter .pInstKernel va pa prot flags = some (ret, next)) :
    (mem.pmapEnterProgram va pa prot = [] ∧ next = mem) ∨
      (∃ first mapped, mem.EntersBy next va pa prot first mapped) ∧
        next.dirFrame = mem.dirFrame ∧ next.kernelPageDir = mem.kernelPageDir := by
  rcases initialised.inv.pmapEnter_cases distinct above pa prot flags with
    ⟨noTable, unchanged⟩ | ⟨failed, -⟩ | ⟨-, -, t, behind, -, written⟩
  · left
    rw [unchanged, Option.some.injEq, Prod.mk.injEq] at returned
    exact ⟨by rw [pmapEnterProgram, if_pos noTable], returned.2.symm⟩
  · rw [failed] at returned
    contradiction
  · right
    rw [written, Option.some.injEq, Prod.mk.injEq] at returned
    rw [← returned.2]
    exact ⟨entersBy_of_success initialised distinct above written, writeFrame_dirFrame _ _ _ _,
      writeFrame_directory behind (ptx va) (enteredPte pa prot)⟩

/-- Behind a call only its page can have got out of date. -/
theorem EntersBy.of_stale {first : ℕ} {mapped : Paddr}
    (enters : mem.EntersBy next va pa prot first mapped)
    (agrees : table (slotOf va) = mem.kernelEntries (slotOf va))
    (isStale : stale IsPresent (mem.pmapEnterProgram va pa prot) table outdated slot) :
    outdated slot ∨ slot = slotOf va ∧ IsPresent (mem.kernelEntries (slotOf va)) := by
  rw [enters.program] at isStale
  simp only [stale, Function.update_of_ne enters.other] at isStale
  rcases isStale with ⟨(⟨before | ⟨isFirst, -⟩, notFirst⟩ | ⟨isHere, present, -⟩) | ⟨isFirst, -⟩,
    behind⟩
  · exact Or.inl before
  · exact absurd isFirst notFirst
  · rw [agrees] at present
    exact Or.inr ⟨isHere, present⟩
  · exact absurd isFirst behind

/-- What calls in a row are for the processor. -/
structure EntersAllBy (mem last : PhysMem) (calls : List EnterCall) (program : List PageInstr) :
    Prop where
  entered : ∀ table : ℕ → Paddr, (∀ slot < 2 ^ 18, table slot = mem.kernelEntries slot) →
    ∀ slot < 2 ^ 18, tableAfter program table slot = last.kernelEntries slot
  outdated : ∀ (table : ℕ → Paddr) (outdated : ℕ → Prop) (slot : ℕ),
    (∀ slot < 2 ^ 18, table slot = mem.kernelEntries slot) →
    stale IsPresent program table outdated slot →
      outdated slot ∨ ∃ call ∈ calls, slot = slotOf call.va
  absent : (calls.map fun call => slotOf call.va).Nodup →
    (∀ call ∈ calls, ¬IsPresent (mem.kernelEntries (slotOf call.va))) →
    ∀ (table : ℕ → Paddr) (outdated : ℕ → Prop) (slot : ℕ),
      (∀ slot < 2 ^ 18, table slot = mem.kernelEntries slot) →
      stale IsPresent program table outdated slot → outdated slot

theorem EntersAllBy.nil (mem : PhysMem) : mem.EntersAllBy mem [] [] where
  entered _ agrees := agrees
  outdated _ _ _ _ isStale := Or.inl isStale
  absent _ _ _ _ _ _ isStale := isStale

/-- A call in front that has found no table. -/
theorem EntersAllBy.skip {last : PhysMem} {calls : List EnterCall} {program : List PageInstr}
    (later : mem.EntersAllBy last calls program) (call : EnterCall) :
    mem.EntersAllBy last (call :: calls) program where
  entered := later.entered
  outdated table outdated slot agrees isStale :=
    (later.outdated table outdated slot agrees isStale).imp id fun ⟨found, isIn, isSlot⟩ =>
      ⟨found, List.mem_cons_of_mem _ isIn, isSlot⟩
  absent nodup absent :=
    later.absent (List.nodup_cons.mp nodup).2 fun found isIn =>
      absent found (List.mem_cons_of_mem _ isIn)

theorem EntersBy.entersAllBy_cons {last : PhysMem} (call : EnterCall) {calls : List EnterCall}
    {program : List PageInstr} {first : ℕ} {mapped : Paddr}
    (enters : mem.EntersBy next call.va call.pa call.prot first mapped)
    (above : ∀ found ∈ call :: calls, 0xc1000000 ≤ found.va.toNat)
    (later : next.EntersAllBy last calls program) :
    mem.EntersAllBy last (call :: calls)
      (mem.pmapEnterProgram call.va call.pa call.prot ++ program) := by
  have inKernel := slotOf_lt (above call List.mem_cons_self)
  have step (table : ℕ → Paddr) (agrees : ∀ slot < 2 ^ 18, table slot = mem.kernelEntries slot) :
      ∀ slot < 2 ^ 18, tableAfter (mem.pmapEnterProgram call.va call.pa call.prot) table slot =
        next.kernelEntries slot := fun slot isLow =>
    (tableAfter_congr (agrees slot isLow)).trans (enters.tableAfter_eq isLow)
  refine ⟨?_, ?_, ?_⟩
  · intro table agrees
    rw [tableAfter_append]
    exact later.entered _ (step table agrees)
  · intro table outdated slot agrees isStale
    rw [stale_append] at isStale
    rcases later.outdated _ _ slot (step table agrees) isStale with first | ⟨found, isIn, isSlot⟩
    · rcases enters.of_stale (agrees _ inKernel) first with before | ⟨isHere, -⟩
      · exact Or.inl before
      · exact Or.inr ⟨call, List.mem_cons_self, isHere⟩
    · exact Or.inr ⟨found, List.mem_cons_of_mem _ isIn, isSlot⟩
  · intro nodup absent table outdated slot agrees isStale
    rw [List.map_cons, List.nodup_cons] at nodup
    rw [stale_append] at isStale
    have stillAbsent : ∀ found ∈ calls, ¬IsPresent (next.kernelEntries (slotOf found.va)) := by
      intro found isIn
      have differ : slotOf found.va ≠ slotOf call.va := fun same =>
        nodup.1 (List.mem_map.mpr ⟨found, isIn, same⟩)
      rw [enters.entered _ (slotOf_lt (above found (List.mem_cons_of_mem _ isIn))),
        Function.update_of_ne differ]
      exact absent found (List.mem_cons_of_mem _ isIn)
    have before := later.absent nodup.2 stillAbsent _ _ slot (step table agrees) isStale
    refine (enters.of_stale (agrees _ inKernel) before).resolve_right ?_
    rintro ⟨-, present⟩
    exact absent call List.mem_cons_self present

theorem entersAllBy_of_returned {last : PhysMem} {calls : List EnterCall}
    {program : List PageInstr} (initialised : mem.Initialised) (distinct : mem.DistinctTables)
    (above : ∀ call ∈ calls, 0xc1000000 ≤ call.va.toNat)
    (returned : pmapEnterAll calls mem = some (program, last)) :
    mem.EntersAllBy last calls program := by
  induction calls generalizing mem program with
  | nil =>
      rw [pmapEnterAll, Option.some.injEq, Prod.mk.injEq] at returned
      rw [← returned.1, ← returned.2]
      exact .nil mem
  | cons call calls ih =>
      have aboveLater := fun found isIn => above found (List.mem_cons_of_mem call isIn)
      rw [pmapEnterAll, Option.bind_eq_some_iff] at returned
      rcases returned with ⟨⟨ret, next⟩, entered, returned⟩
      rw [Option.map_eq_some_iff] at returned
      rcases returned with ⟨⟨rest, final⟩, later, isResult⟩
      rw [Prod.mk.injEq] at isResult
      rcases isResult with ⟨rfl, rfl⟩
      rcases pmapEnter_returned initialised distinct (above call List.mem_cons_self) entered with
        ⟨noProgram, rfl⟩ | ⟨⟨first, mapped, enters⟩, sameFrame, sameDir⟩
      · rw [noProgram]
        exact (ih initialised distinct aboveLater later).skip call
      · exact enters.entersAllBy_cons call above (ih (initialised.congr sameFrame sameDir)
          (distinct.congr sameDir) aboveLater later)

end EnterAll

end PhysMem

section FlushRange

variable {start stop : Vaddr} {fuel : ℕ} {pages : List Vaddr}

/-- The loop of `mmu_tlb_flush_range` comes to every page of its range if it ends. -/
theorem pageAt_mem_of_tlbFlushLoop {first last : ℕ} (below : last < 2 ^ 20 - 1)
    (begins : first ≤ last + 1) (returned : tlbFlushLoop (pageAt last) fuel (pageAt first) =
      some pages) {number : ℕ} (notBefore : first ≤ number) (notBehind : number ≤ last) :
    pageAt number ∈ pages := by
  induction fuel generalizing first pages with
  | zero => contradiction
  | succ fuel ih =>
      have inside : pageAt first ≤ pageAt last := by
        rw [BitVec.le_def, toNat_pageAt (by omega), toNat_pageAt (by omega)]
        omega
      rw [tlbFlushLoop, if_pos inside, pageAt_add_pageSize, Option.map_eq_some_iff] at returned
      rcases returned with ⟨rest, returned, rfl⟩
      rcases Nat.eq_or_lt_of_le notBefore with rfl | isLater
      · exact List.mem_cons_self
      · exact List.mem_cons_of_mem _ (ih (by omega) returned isLater)

/-- A page of a range that was flushed is among the pages that were invalidated. -/
theorem slotOf_mem_of_mmuTlbFlushRange (returned : mmuTlbFlushRange fuel start stop = some pages)
    {va : Vaddr} (notBefore : start.toNat / 4096 ≤ va.toNat / 4096)
    (notBehind : va.toNat / 4096 ≤ stop.toNat / 4096) : slotOf va ∈ pages.map slotOf := by
  have stopLt := stop.isLt
  rw [mmuTlbFlushRange, and_not_pageMask, and_not_pageMask] at returned
  have below : stop.toNat / 4096 < 2 ^ 20 - 1 := by
    by_contra isTop
    have isLast : stop.toNat / 4096 = 2 ^ 20 - 1 := by omega
    rw [isLast, tlbFlushLoop_lastPage] at returned
    contradiction
  have isIn := pageAt_mem_of_tlbFlushLoop below (by omega) returned notBefore notBehind
  refine List.mem_map.mpr ⟨_, isIn, slotOf_of_same_page ?_⟩
  rw [toNat_pageAt (by omega)]
  omega

end FlushRange

namespace PhysMem

/-- What can follow calls of `pmap_enter`: all is flushed, or a range with the pages of the calls,
or nothing if the pages are different and none of them was present before. -/
inductive FlushSuffices (mem : PhysMem) (calls : List EnterCall) : List PageInstr → Prop where
  | all : FlushSuffices mem calls mmuTlbFlushAll
  | range {fuel : ℕ} {start stop : Vaddr} {pages : List Vaddr}
      (flushed : mmuTlbFlushRange fuel start stop = some pages)
      (inRange : ∀ call ∈ calls, start.toNat / 4096 ≤ call.va.toNat / 4096 ∧
        call.va.toNat / 4096 ≤ stop.toNat / 4096) : FlushSuffices mem calls (pages.map invlpg)
  | nothing (nodup : (calls.map fun call => slotOf call.va).Nodup)
      (absent : ∀ call ∈ calls, ¬IsPresent (mem.kernelEntries (slotOf call.va))) :
      FlushSuffices mem calls []

section Suffices

variable {mem last : PhysMem} {calls : List EnterCall} {program flush : List PageInstr}
  {table : ℕ → Paddr}

theorem map_invlpg (pages : List Vaddr) :
    pages.map invlpg = (pages.map slotOf).map .invalidate :=
  List.map_map.symm

theorem FlushSuffices.tableAfter_eq (isEnough : FlushSuffices mem calls flush) :
    tableAfter flush table = table := by
  cases isEnough with
  | all => rfl
  | range _ _ =>
      rw [map_invlpg]
      exact tableAfter_invalidates _ _
  | nothing _ _ => rfl

theorem EntersAllBy.not_stale (enters : mem.EntersAllBy last calls program)
    (isEnough : FlushSuffices mem calls flush) (slot : ℕ) :
    ¬stale IsPresent (program ++ flush) mem.kernelEntries (fun _ => False) slot := by
  intro isStale
  rw [stale_append] at isStale
  cases isEnough with
  | all => exact isStale
  | range flushed inRange =>
      rw [map_invlpg, stale_invalidates] at isStale
      rcases enters.outdated _ _ slot (fun _ _ => rfl) isStale.1 with isFalse | ⟨call, isIn, rfl⟩
      · exact isFalse
      · exact isStale.2 (slotOf_mem_of_mmuTlbFlushRange flushed (inRange call isIn).1
          (inRange call isIn).2)
  | nothing nodup absent => exact enters.absent nodup absent _ _ slot (fun _ _ => rfl) isStale

/-- Any number of calls of `pmap_enter`, some of which may find no table, and a flush behind them,
with whatever the processor caches in between. It then comes to the entries of memory and to
nothing else. -/
theorem pmapEnterAll_fresh (initialised : mem.Initialised) (distinct : mem.DistinctTables)
    (above : ∀ call ∈ calls, kernelVab ≤ call.va)
    (returned : pmapEnterAll calls mem = some (program, last))
    (isEnough : FlushSuffices mem calls flush) {cached : ℕ → Option Paddr} {final : State ℕ Paddr}
    (sound : Sound IsPresent ⟨mem.kernelEntries, cached⟩ fun _ => False)
    (runs : Runs IsPresent (program ++ flush) ⟨mem.kernelEntries, cached⟩ final) :
    (∀ slot < 2 ^ 18, final.table slot = last.kernelEntries slot) ∧ ∀ slot, Fresh final slot := by
  have enters := entersAllBy_of_returned initialised distinct
    (fun call isIn => BitVec.le_def.mp (above call isIn)) returned
  rcases runs.sound sound with ⟨isTable, kept⟩
  rw [tableAfter_append, isEnough.tableAfter_eq] at isTable
  constructor
  · intro slot inKernel
    rw [isTable]
    exact enters.entered _ (fun _ _ => rfl) slot inKernel
  · intro slot
    exact kept.fresh slot (enters.not_stale isEnough slot)

end Suffices

/-- A page is entered and replaced. -/
theorem pmapEnterAll_fresh_replaced : ∃ program last,
    pmapEnterAll [⟨0xc1000000, 0x500123, 2, 0⟩, ⟨0xc1000000, 0x600000, 2, 0⟩] oneTable =
      some (program, last) ∧
    ∀ final, Runs IsPresent (program ++ [invlpg 0xc1000000])
      ⟨oneTable.kernelEntries, fun _ => none⟩ final → ∀ slot, Fresh final slot := by
  obtain ⟨program, last, returned⟩ : ∃ program last,
      pmapEnterAll [⟨0xc1000000, 0x500123, 2, 0⟩, ⟨0xc1000000, 0x600000, 2, 0⟩] oneTable =
        some (program, last) := ⟨_, _, rfl⟩
  refine ⟨program, last, returned, ?_⟩
  intro final runs
  have flushed : mmuTlbFlushRange 2 0xc1000000 0xc1000000 = some [0xc1000000] := by decide
  exact (pmapEnterAll_fresh oneTable_initialised oneTable_distinctTables (by decide) returned
    (.range flushed (by decide)) ⟨by simp, by simp [Fresh]⟩ runs).2

end PhysMem

end Rkernel
