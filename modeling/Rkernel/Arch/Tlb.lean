import Rkernel.Arch.PageTable
import Rkernel.Lib.Tlb

/-!
# The kernel's page tables and the processor's cache

A call of `map_page`, `map_page_range` or `unmap_page` is not one step for the processor: it
stores entries and invalidates pages with `invlpg`, and the processor may cache entries in
between (`arch/i686/physmem.c`). `pmap_enter` (`arch/i686/mmu.c`) stores an entry through the
window and invalidates nothing.

A page is named by the place its entry has, or would have, in `_i686_kernel_page_table`. Page
tables with 2^20 entries cover all addresses.
-/

namespace Rkernel

open Tlb

/-- Only entries that are present are cached. -/
def IsPresent (pte : Paddr) : Prop :=
  pte &&& pteP ≠ 0

/-- What the window functions and the flush functions tell the processor. -/
abbrev PageInstr := Instr ℕ Paddr

def invlpg (va : Vaddr) : PageInstr :=
  .invalidate (slotOf va)

def mapPageProgram (pa : Paddr) (table : KernelPageTable) : List PageInstr :=
  let i := freeSearch table (kptmax - kptmin) kptmin
  if kptmin ≤ i ∧ i < kptmax then [.store i (pteAddr pa ||| ptePw), invlpg (slotAddress i)]
  else []

/-- The loop of `map_page_range` that writes the entries. -/
def writeRunProgram : (left i : ℕ) → Paddr → List PageInstr
  | 0, _, _ => []
  | left + 1, i, pa =>
      .store i (pteAddr pa ||| ptePw) :: invlpg (slotAddress i) ::
        writeRunProgram left (i + 1) (pa + 0x1000)

def mapPageRangeProgram (pa : Paddr) (n : ℕ) (table : KernelPageTable) : List PageInstr :=
  if n = 0 then []
  else
    let i := runSearch table n (kptmax - kptmin) kptmin
    if kptmin ≤ i ∧ i < kptmax then writeRunProgram n i pa else []

def unmapPageProgram (va : Vaddr) : List PageInstr :=
  [.store (slotOf va) 0, invlpg va]

/-- The loop of `__i686_mp_unmap_range`. -/
def unmapLoopProgram (last : Vaddr) : (left : ℕ) → Vaddr → List PageInstr
  | 0, _ => []
  | left + 1, i =>
      if i ≤ last then unmapPageProgram i ++ unmapLoopProgram last left (i + 0x1000) else []

def i686MpUnmapRangeProgram (va : Vaddr) (n : BitVec 32) : List PageInstr :=
  unmapLoopProgram ((va + n - 1) &&& ~~~0xfff) 0x100001 (va &&& ~~~0xfff)

/-- What a call of the window functions tells the processor. -/
def WindowOp.program (table : KernelPageTable) : WindowOp → List PageInstr
  | .mapPage pa => mapPageProgram pa table
  | .mapRange pa n => mapPageRangeProgram pa (mappedPages pa n).toNat table
  | .unmapPage va => unmapPageProgram va
  | .unmapRange va n => i686MpUnmapRangeProgram va n

section Programs

variable {table : KernelPageTable} {pa : Paddr} {n i left slot : ℕ}

theorem slotOf_slotAddress (inTable : i < kptmax) : slotOf (slotAddress i) = i := by
  have noOffset : slotAddress i + ((0 : Paddr) &&& 0xfff) = slotAddress i := BitVec.add_zero _
  have same := slotOf_slotAddress_add inTable 0
  rwa [noOffset] at same

theorem writeRunProgram_paired (inTable : i + left ≤ kptmax) :
    Paired (writeRunProgram left i pa) := by
  induction left generalizing i pa with
  | zero => exact Paired.nil
  | succ left ih =>
      rw [writeRunProgram, invlpg, slotOf_slotAddress (by omega)]
      exact Paired.cons i _ (ih (by omega))

theorem tableAfter_writeRunProgram (left i : ℕ) (pa : Paddr) (table : KernelPageTable) :
    tableAfter (writeRunProgram left i pa) table = writeRun left i pa table := by
  induction left generalizing i pa table with
  | zero => rfl
  | succ left ih => exact ih _ _ _

theorem writeRunProgram_stores (stores : Stores (writeRunProgram left i pa) slot) :
    i ≤ slot ∧ slot < i + left := by
  induction left generalizing i pa with
  | zero =>
      rcases stores with ⟨entry, isIn⟩
      simp [writeRunProgram] at isIn
  | succ left ih =>
      rcases stores with ⟨entry, isIn⟩
      rw [writeRunProgram, List.mem_cons, List.mem_cons] at isIn
      rcases isIn with isFirst | isSecond | isLater
      · cases isFirst
        omega
      · rw [invlpg] at isSecond
        contradiction
      · have inRest := ih ⟨entry, isLater⟩
        omega

/-- `map_page` writes a run of one entry. -/
theorem mapPageProgram_cases (pa : Paddr) (table : KernelPageTable) :
    (∃ first, FreeRun table first 1 ∧ mapPageProgram pa table = writeRunProgram 1 first pa ∧
      mapPage pa table = (slotAddress first, writeRun 1 first pa table)) ∨
      mapPageProgram pa table = [] ∧ mapPage pa table = (0, table) := by
  obtain ⟨begun, inside, found, -⟩ := @freeSearch_spec table (kptmax - kptmin) kptmin
  rw [show kptmin + (kptmax - kptmin) = kptmax from rfl] at inside found
  rw [mapPageProgram, mapPage]
  generalize freeSearch table (kptmax - kptmin) kptmin = first at *
  by_cases inWindow : kptmin ≤ first ∧ first < kptmax
  · left
    refine ⟨first, ⟨begun, inWindow.2, ?_⟩, by rw [if_pos inWindow]; rfl,
      by rw [if_pos inWindow]; rfl⟩
    intro k isFirst
    rw [show k = 0 by omega]
    exact found inWindow.2
  · right
    rw [if_neg inWindow, if_neg inWindow]
    exact ⟨rfl, rfl⟩

/-- `map_page_range` writes a run of free entries. -/
theorem mapPageRangeProgram_cases (pa : Paddr) (n : ℕ) (table : KernelPageTable) :
    (∃ first, FreeRun table first n ∧ mapPageRangeProgram pa n table = writeRunProgram n first pa ∧
      (mapPageRange pa n table).2 = writeRun n first pa table) ∨
      mapPageRangeProgram pa n table = [] ∧ (mapPageRange pa n table).2 = table := by
  rw [mapPageRangeProgram, mapPageRange]
  by_cases isZero : n = 0
  · right
    rw [if_pos isZero, if_pos isZero]
    exact ⟨rfl, rfl⟩
  · rw [if_neg isZero, if_neg isZero]
    have searched := @runSearch_spec table n (Nat.pos_of_ne_zero isZero) (kptmax - kptmin) kptmin
      (Nat.le_refl _) rfl
    generalize runSearch table n (kptmax - kptmin) kptmin = first at *
    rcases searched with ⟨inWindow, run⟩ | ⟨isEnd, -⟩
    · left
      exact ⟨first, run, if_pos ⟨run.begins, inWindow⟩, by simp [run.begins, inWindow]⟩
    · right
      simp [isEnd]

theorem unmapLoopProgram_paired (last va : Vaddr) : Paired (unmapLoopProgram last left va) := by
  induction left generalizing va with
  | zero => exact Paired.nil
  | succ left ih =>
      rw [unmapLoopProgram]
      split
      · exact Paired.cons _ _ (ih _)
      · exact Paired.nil

theorem tableAfter_unmapLoopProgram {last va : Vaddr} {unmapped : KernelPageTable}
    (ends : unmapLoop last left va table = some unmapped) :
    tableAfter (unmapLoopProgram last left va) table = unmapped := by
  induction left generalizing va table with
  | zero => contradiction
  | succ left ih =>
      rw [unmapLoop] at ends
      rw [unmapLoopProgram]
      split at ends
      · next goesOn =>
          rw [if_pos goesOn, tableAfter_append]
          exact ih ends
      · next atEnd =>
          rw [if_neg atEnd]
          exact Option.some.inj ends

/-- What is unmapped is 0 behind the program. -/
theorem tableAfter_unmapLoopProgram_eq_zero {last va : Vaddr}
    (isZero : table slot = 0 ∨ Stores (unmapLoopProgram last left va) slot) :
    tableAfter (unmapLoopProgram last left va) table slot = 0 := by
  induction left generalizing va table with
  | zero =>
      rcases isZero with isZero | ⟨entry, isIn⟩
      · exact isZero
      · simp [unmapLoopProgram] at isIn
  | succ left ih =>
      rw [unmapLoopProgram] at isZero ⊢
      split
      · next goesOn =>
          rw [if_pos goesOn] at isZero
          rw [tableAfter_append]
          apply ih
          change Function.update table (slotOf va) 0 slot = 0 ∨ _
          rcases eq_or_ne slot (slotOf va) with rfl | isOther
          · exact Or.inl (Function.update_self _ _ _)
          · rw [Function.update_of_ne isOther]
            rcases isZero with isZero | ⟨entry, isIn⟩
            · exact Or.inl isZero
            · right
              simp only [unmapPageProgram, invlpg, List.mem_append, List.mem_cons,
                Instr.store.injEq, isOther, false_and, reduceCtorEq, List.not_mem_nil,
                false_or, or_false] at isIn
              exact ⟨entry, isIn⟩
      · next atEnd =>
          rw [if_neg atEnd] at isZero
          rcases isZero with isZero | ⟨entry, isIn⟩
          · exact isZero
          · simp at isIn

end Programs

/-- Every store of a call is followed by the invalidation of its page. -/
theorem WindowOp.program_paired (op : WindowOp) (table : KernelPageTable) :
    Paired (op.program table) := by
  cases op with
  | mapPage pa =>
      rcases mapPageProgram_cases pa table with ⟨first, run, isRun, -⟩ | ⟨isNil, -⟩
      · rw [program, isRun]
        exact writeRunProgram_paired run.ends
      · rw [program, isNil]
        exact Paired.nil
  | mapRange pa n =>
      rcases mapPageRangeProgram_cases pa (mappedPages pa n).toNat table with
        ⟨first, run, isRun, -⟩ | ⟨isNil, -⟩
      · rw [program, isRun]
        exact writeRunProgram_paired run.ends
      · rw [program, isNil]
        exact Paired.nil
  | unmapPage va => exact Paired.cons _ _ Paired.nil
  | unmapRange va n => exact unmapLoopProgram_paired _ _

/-- The page table behind the program of a call is the one that the call computes. -/
theorem WindowOp.tableAfter_program {op : WindowOp} {state next : WindowState}
    (stepped : windowSystem.step state op next) :
    tableAfter (op.program state.table) state.table = next.table := by
  cases op with
  | mapPage pa =>
      obtain rfl : next = _ := stepped
      change tableAfter (mapPageProgram pa state.table) state.table =
        (Rkernel.mapPage pa state.table).2
      rcases mapPageProgram_cases pa state.table with ⟨first, -, isRun, mapped⟩ | ⟨isNil, mapped⟩
      · rw [isRun, mapped, tableAfter_writeRunProgram]
      · rw [isNil, mapped]
        rfl
  | mapRange pa n =>
      obtain ⟨-, rfl⟩ := stepped
      have result : (i686MpMapRange pa n state.table).2 =
          (mapPageRange pa (mappedPages pa n).toNat state.table).2 := by
        simp only [i686MpMapRange]
        split
        · rfl
        · rfl
      change tableAfter (mapPageRangeProgram pa (mappedPages pa n).toNat state.table) state.table =
        (i686MpMapRange pa n state.table).2
      rw [result]
      rcases mapPageRangeProgram_cases pa (mappedPages pa n).toNat state.table with
        ⟨first, -, isRun, mapped⟩ | ⟨isNil, mapped⟩
      · rw [isRun, mapped, tableAfter_writeRunProgram]
      · rw [isNil, mapped]
        rfl
  | unmapPage va =>
      obtain ⟨mapping, -, -, -, rfl⟩ := stepped
      rfl
  | unmapRange va n =>
      obtain ⟨mapping, -, -, -, -, table, unmapsTo, rfl⟩ := stepped
      exact tableAfter_unmapLoopProgram unmapsTo

section Untouched

variable {state next : WindowState} {op : WindowOp} {mapping other : WindowMapping} {slot : ℕ}

theorem WindowInv.erase_apart (inv : WindowInv state) (isLive : mapping ∈ state.live)
    (otherMem : other ∈ state.live.erase mapping) :
    ¬(mapping.Occupies slot ∧ other.Occupies slot) := by
  have reordered := inv.disjoint.perm (List.perm_cons_erase isLive)
    (fun {left right} apart slot both => apart slot both.symm)
  exact (List.pairwise_cons.mp reordered).1 other otherMem slot

/-- A map call stores to free entries. -/
theorem WindowInv.map_untouched (inv : WindowInv state) (isLive : mapping ∈ state.live)
    (occupied : mapping.Occupies slot) {first count : ℕ} (run : FreeRun state.table first count)
    (pa : Paddr) : ¬Stores (writeRunProgram count first pa) slot := by
  intro stores
  have inRun := writeRunProgram_stores stores
  exact (inv.freeRun run inRun.1 inRun.2).1 mapping isLive occupied

/-- `__i686_mp_unmap_range` stores to the entries of its mapping. -/
theorem WindowMapping.Placed.occupies_of_stores {before table : KernelPageTable}
    (placed : mapping.Placed before table)
    (stores : Stores (i686MpUnmapRangeProgram mapping.va mapping.n) slot) :
    mapping.Occupies slot := by
  have unmapped := @i686MpUnmapRange_eq mapping.pa mapping.n (fun _ => 1) placed.positive
    placed.small mapping.first placed.ends
  rw [← placed.address] at unmapped
  have isZero := @tableAfter_unmapLoopProgram_eq_zero (fun _ => 1) _ slot _ _ (Or.inr stores)
  rw [tableAfter_unmapLoopProgram unmapped] at isZero
  by_contra unoccupied
  have isOne := clearRun_of_not_occupies (fun _ => 1) unoccupied
  exact absurd (isOne.symm.trans isZero) (by decide)

/-- No call stores to the entries of a live mapping that stays live. -/
theorem WindowInv.untouched (inv : WindowInv state) (stepped : windowSystem.step state op next)
    (isLive : mapping ∈ state.live) (stays : mapping ∈ next.live)
    (occupied : mapping.Occupies slot) : ¬Stores (op.program state.table) slot := by
  cases op with
  | mapPage pa =>
      rw [WindowOp.program]
      rcases mapPageProgram_cases pa state.table with ⟨first, run, isRun, -⟩ | ⟨isNil, -⟩
      · rw [isRun]
        exact inv.map_untouched isLive occupied run pa
      · rw [isNil]
        rintro ⟨entry, isIn⟩
        simp at isIn
  | mapRange pa n =>
      rw [WindowOp.program]
      rcases mapPageRangeProgram_cases pa (mappedPages pa n).toNat state.table with
        ⟨first, run, isRun, -⟩ | ⟨isNil, -⟩
      · rw [isRun]
        exact inv.map_untouched isLive occupied run pa
      · rw [isNil]
        rintro ⟨entry, isIn⟩
        simp at isIn
  | unmapPage va =>
      obtain ⟨unmapped, isUnmapped, isPage, rfl, rfl⟩ := stepped
      rintro ⟨entry, isIn⟩
      simp only [WindowOp.program, unmapPageProgram, invlpg, List.mem_cons, Instr.store.injEq,
        reduceCtorEq, List.not_mem_nil, or_false] at isIn
      have one := ((inv.placed unmapped isUnmapped).isPage isPage).2
      refine inv.erase_apart isUnmapped stays ⟨?_, occupied⟩
      rw [isIn.1, WindowMapping.Occupies, one]
      exact ⟨Nat.le_refl _, Nat.lt_succ_self _⟩
  | unmapRange va n =>
      obtain ⟨unmapped, isUnmapped, -, rfl, rfl, table, -, rfl⟩ := stepped
      intro stores
      exact inv.erase_apart isUnmapped stays
        ⟨(inv.placed unmapped isUnmapped).occupies_of_stores stores, occupied⟩

theorem translate_eq_some {table : KernelPageTable} {va : Vaddr} {pa : Paddr}
    (translates : translate table va = some pa) :
    IsPresent (table (slotOf va)) ∧ pteAddr (table (slotOf va)) + (va &&& 0xfff) = pa := by
  simp only [translate] at translates
  split at translates
  · contradiction
  · next present => exact ⟨present, Option.some.inj translates⟩

/-- The entries of the addresses of a mapping. -/
theorem WindowMapping.Placed.occupies_slotOf {before table : KernelPageTable}
    (placed : mapping.Placed before table) {k : ℕ} (inside : k < mapping.n.toNat) :
    mapping.Occupies (slotOf (mapping.va + BitVec.ofNat 32 k)) := by
  have pages := @toNat_mappedPages mapping.pa mapping.n placed.small
  have limit : kptmax = 4096 := rfl
  have ends := placed.ends
  have positive := placed.positive
  rw [WindowMapping.count] at ends
  have inTable : mapping.first < kptmax := by omega
  have address : (mapping.va + BitVec.ofNat 32 k).toNat =
      0xc0000000 + mapping.first * 4096 + (mapping.pa.toNat % 4096 + k) := by
    have small := placed.small
    rw [placed.address, BitVec.toNat_add, toNat_slotAddress_add inTable, BitVec.toNat_ofNat]
    omega
  rw [slotOf_eq (by omega), address, WindowMapping.Occupies, WindowMapping.count]
  omega

end Untouched

/-- The window and the cached entries. -/
structure WindowTlb where
  window : WindowState
  cached : ℕ → Option Paddr

namespace WindowTlb

def processor (state : WindowTlb) : State ℕ Paddr where
  table := state.window.table
  cached := state.cached

end WindowTlb

/-- The calls of the window functions on a processor with a cache that is fresh at first. -/
def tlbSystem : TransitionSystem WindowTlb WindowOp where
  init state := windowSystem.init state.window ∧
    Sound IsPresent state.processor fun _ => False
  step state op next := windowSystem.step state.window op next.window ∧
    Runs IsPresent (op.program state.window.table) state.processor next.processor

/-- Between two calls the window is as it should be, and nothing cached is out of date. -/
structure WindowTlb.Inv (state : WindowTlb) : Prop where
  window : WindowInv state.window
  sound : Sound IsPresent state.processor fun _ => False

/-- Whatever entry the processor uses for an address, it comes to the physical address. -/
def ComesTo (processor : State ℕ Paddr) (va : Vaddr) (pa : Paddr) : Prop :=
  IsPresent (processor.table (slotOf va)) ∧ ∀ entry, Uses IsPresent processor (slotOf va) entry →
    pteAddr entry + (va &&& 0xfff) = pa

namespace WindowTlb

variable {state next : WindowTlb} {op : WindowOp}

theorem Inv.step (inv : state.Inv) (stepped : tlbSystem.step state op next) : next.Inv := by
  rcases stepped with ⟨stepped, runs⟩
  refine ⟨inv.window.step stepped, ?_⟩
  have kept := (runs.sound inv.sound).2
  rcases (op.program_paired state.window.table).stale_eq state.window.table
      (List.append_nil _).symm with none | ⟨page, back, isNil, -⟩
  · exact kept.mono none
  · contradiction

theorem inv_of_reachable (reachable : tlbSystem.Reachable state) : state.Inv := by
  apply reachable.invariant
  · rintro start ⟨⟨sameTable, noMapping⟩, sound⟩
    exact ⟨⟨by simp [noMapping], by simp [noMapping], fun slot _ => by rw [sameTable]⟩, sound⟩
  · exact fun source op target inv stepped => inv.step stepped

/-- In every state of every run, nothing that is cached is out of date. In the middle of a call
only the page that the next instruction invalidates can be; and every address of a mapping that
is live before and after the call comes to its physical address at every moment of the call,
whatever the processor caches meanwhile. -/
theorem comesTo_of_reachable (reachable : tlbSystem.Reachable state) :
    (∀ slot, Fresh state.processor slot) ∧
    ∀ op next, windowSystem.step state.window op next →
      ∀ done rest, op.program state.window.table = done ++ rest →
        ∀ middle, Runs IsPresent done state.processor middle →
          (∀ slot, ¬Fresh middle slot → ∃ back, rest = .invalidate slot :: back) ∧
          ∀ mapping ∈ state.window.live, mapping ∈ next.live → ∀ k < mapping.n.toNat,
            ComesTo middle (mapping.va + BitVec.ofNat 32 k) (mapping.pa + BitVec.ofNat 32 k) := by
  rcases inv_of_reachable reachable with ⟨inv, sound⟩
  refine ⟨fun slot => sound.fresh slot id, ?_⟩
  intro op next stepped done rest isCut middle runs
  rcases runs.sound sound with ⟨isTable, kept⟩
  have cases := @Paired.stale_eq ℕ Paddr _ IsPresent _ rest
    (op.program_paired state.window.table) done state.window.table isCut
  constructor
  · intro slot outdated
    have isStale : stale IsPresent done state.window.table (fun _ => False) slot := by
      by_contra notStale
      exact outdated (kept.fresh slot notStale)
    rcases cases with none | ⟨page, back, isRest, only⟩
    · exact absurd isStale (none slot)
    · rw [only slot isStale]
      exact ⟨back, isRest⟩
  · intro mapping isLive stays k inside
    have placed := inv.placed mapping isLive
    have untouched := inv.untouched stepped isLive stays (placed.occupies_slotOf inside)
    have notStored : ¬Stores done (slotOf (mapping.va + BitVec.ofNat 32 k)) := by
      rintro ⟨entry, isIn⟩
      apply untouched
      rw [isCut]
      exact ⟨entry, List.mem_append_left _ isIn⟩
    have notStale : ¬stale IsPresent done state.window.table (fun _ => False)
        (slotOf (mapping.va + BitVec.ofNat 32 k)) := fun isStale =>
      (outdated_or_stores_of_stale _ isStale).elim id notStored
    have sameEntry : middle.table (slotOf (mapping.va + BitVec.ofNat 32 k)) =
        state.window.table (slotOf (mapping.va + BitVec.ofNat 32 k)) := by
      rw [isTable]
      exact tableAfter_of_not_stores notStored _
    rcases translate_eq_some (inv.correct.translates mapping isLive k inside) with
      ⟨present, comesTo⟩
    constructor
    · rw [sameEntry]
      exact present
    · intro entry uses
      rw [kept.uses_iff notStale, sameEntry] at uses
      rw [← uses.2]
      exact comesTo

/-- Memory from 0xff0 on is mapped behind the entry that is taken; the seventeenth byte is on the
second page. -/
theorem comesTo_of_reachable_takenFirst : ComesTo
    ⟨(i686MpMapRange 0xff0 0x20 takenFirst).2, fun _ => none⟩ (0xc0c01ff0 + 16) (0xff0 + 16) := by
  let start : WindowTlb := ⟨⟨takenFirst, takenFirst, []⟩, fun _ => none⟩
  let mapped : WindowTlb := ⟨WindowState.mapped ⟨takenFirst, takenFirst, []⟩ true 0xff0 0x20
    (i686MpMapRange 0xff0 0x20 takenFirst), fun _ => none⟩
  have stepped : windowSystem.step start.window (.mapRange 0xff0 0x20) mapped.window :=
    ⟨by decide, rfl⟩
  have isFirst : tlbSystem.Reachable start := .init ⟨⟨rfl, rfl⟩, ⟨nofun, fun _ _ => nofun⟩⟩
  have runs : Runs IsPresent (WindowOp.program start.window.table (.mapRange 0xff0 0x20))
      start.processor mapped.processor := by
    have uncached := @runs_uncached _ _ _ IsPresent
      (WindowOp.program start.window.table (.mapRange 0xff0 0x20)) start.window.table
    rw [WindowOp.tableAfter_program stepped] at uncached
    exact uncached
  have isLive : (⟨true, 0xc0c01ff0, 0xff0, 0x20⟩ : WindowMapping) ∈ mapped.window.live := by
    decide
  have stays : (⟨true, 0xc0c01ff0, 0xff0, 0x20⟩ : WindowMapping) ∈
      (mapped.window.mapped false (pteAddr 0xb8000) 0x1000
        (mapPage 0xb8000 mapped.window.table)).live := by
    decide
  exact ((comesTo_of_reachable (isFirst.step ⟨stepped, runs⟩)).2 (.mapPage 0xb8000) _ rfl [] _ rfl
    mapped.processor (.nil _)).2 _ isLive stays 16 (by decide)

end WindowTlb

end Rkernel
