import Rkernel.Arch.Mmu

/-!
# The window for temporary mappings

The last 1024 of the 4096 entries of `_i686_kernel_page_table` map physical pages for a short
time (`arch/i686/physmem.c`). `map_page` takes the first free entry, `map_page_range` the
first run of free entries that is long enough. The entries belong to the addresses from
`0xC0000000` on, one page each. `map_sl` is left out: each call is one step.

The loop of `__i686_mp_unmap_range` does not end if it reaches the last page of the address
space; after as many iterations as there are pages its model gives no result.
-/

namespace Rkernel

/-- `_i686_kernel_page_table` -/
abbrev KernelPageTable := ℕ → Paddr

/-- `KPTMIN` -/
def kptmin : ℕ := 3072

/-- `KPTMAX` -/
def kptmax : ℕ := 4096

/-- The address that an entry maps. -/
def slotAddress (i : ℕ) : Vaddr :=
  (0xc0000000 : Vaddr) + mulPagesize (BitVec.ofNat 32 i)

/-- The entry that maps an address. -/
def slotOf (va : Vaddr) : ℕ :=
  ((va - 0xc0000000) >>> 12).toNat

/-- The loop of `map_page`. -/
def freeSearch (table : KernelPageTable) : (left i : ℕ) → ℕ
  | 0, i => i
  | left + 1, i => if table i = 0 then i else freeSearch table left (i + 1)

/-- `map_page`: the address, 0 if there is none, and the table. -/
def mapPage (pa : Paddr) (table : KernelPageTable) : Vaddr × KernelPageTable :=
  let i := freeSearch table (kptmax - kptmin) kptmin
  if kptmin ≤ i ∧ i < kptmax then
    (slotAddress i, Function.update table i (pteAddr pa ||| ptePw))
  else (0, table)

/-- The inner loop of `map_page_range` from entry `j` on: the `k` it ends with. -/
def runLength (table : KernelPageTable) (n : ℕ) : (left j k : ℕ) → ℕ
  | 0, _, k => k
  | left + 1, j, k =>
      if k < n then
        if table j ≠ 0 then k else runLength table n left (j + 1) (k + 1)
      else k

/-- The outer loop of `map_page_range` from entry `i` on. -/
def runSearch (table : KernelPageTable) (n : ℕ) : (left i : ℕ) → ℕ
  | 0, i => i
  | left + 1, i =>
      if table i ≠ 0 then runSearch table n left (i + 1)
      else if runLength table n (kptmax - i) i 0 = n then i
      else runSearch table n left (i + 1)

/-- The loop of `map_page_range` that writes the entries. -/
def writeRun : (left i : ℕ) → Paddr → KernelPageTable → KernelPageTable
  | 0, _, _, table => table
  | left + 1, i, pa, table =>
      writeRun left (i + 1) (pa + 0x1000) (Function.update table i (pteAddr pa ||| ptePw))

def mapPageRange (pa : Paddr) (n : ℕ) (table : KernelPageTable) : Vaddr × KernelPageTable :=
  if n = 0 then (0, table)
  else
    let i := runSearch table n (kptmax - kptmin) kptmin
    if kptmin ≤ i ∧ i < kptmax then (slotAddress i, writeRun n i pa table) else (0, table)

def unmapPage (va : Vaddr) (table : KernelPageTable) : KernelPageTable :=
  Function.update table (slotOf va) 0

/-- The number of pages that `__i686_mp_map_range` asks for. -/
def mappedPages (pa : Paddr) (n : BitVec 32) : BitVec 32 :=
  ((pa &&& 0xfff) + n + 0xfff) >>> 12

def i686MpMapRange (pa : Paddr) (n : BitVec 32) (table : KernelPageTable) :
    Vaddr × KernelPageTable :=
  let mapped := mapPageRange pa (mappedPages pa n).toNat table
  if mapped.1 = 0 then (0, mapped.2) else (mapped.1 + (pa &&& 0xfff), mapped.2)

/-- The loop of `__i686_mp_unmap_range`; no result means that it does not end. -/
def unmapLoop (last : Vaddr) : (left : ℕ) → Vaddr → KernelPageTable → Option KernelPageTable
  | 0, _, _ => none
  | left + 1, i, table =>
      if i ≤ last then unmapLoop last left (i + 0x1000) (unmapPage i table) else some table

def i686MpUnmapRange (va : Vaddr) (n : BitVec 32) (table : KernelPageTable) :
    Option KernelPageTable :=
  unmapLoop ((va + n - 1) &&& ~~~0xfff) 0x100001 (va &&& ~~~0xfff) table

/-- The physical address behind an address of the kernel's page tables. -/
def translate (table : KernelPageTable) (va : Vaddr) : Option Paddr :=
  let pte := table (slotOf va)
  if pte &&& pteP = 0 then none else some (pteAddr pte + (va &&& 0xfff))

/-- A run of entries of the window that are all free. -/
structure FreeRun (table : KernelPageTable) (first count : ℕ) : Prop where
  begins : kptmin ≤ first
  ends : first + count ≤ kptmax
  free : ∀ k < count, table (first + k) = 0

section Search

variable {table : KernelPageTable} {n : ℕ}

theorem freeSearch_spec {left i : ℕ} :
    i ≤ freeSearch table left i ∧ freeSearch table left i ≤ i + left ∧
      (freeSearch table left i < i + left → table (freeSearch table left i) = 0) ∧
      ∀ other, i ≤ other → other < freeSearch table left i → table other ≠ 0 := by
  induction left generalizing i with
  | zero =>
      simp only [freeSearch]
      refine ⟨Nat.le_refl _, Nat.le_refl _, ?_, ?_⟩
      · intro less
        omega
      · intro other above below
        omega
  | succ left ih =>
      rw [freeSearch]
      split
      · rename_i isFree
        exact ⟨Nat.le_refl _, by omega, fun _ => isFree, fun other above below => by omega⟩
      · rename_i notFree
        obtain ⟨begun, inside, found, before⟩ := @ih (i + 1)
        refine ⟨by omega, by omega, fun less => found (by omega), ?_⟩
        intro other above below
        by_cases here : other = i
        · rw [here]
          exact notFree
        · exact before other (by omega) below

theorem runLength_eq_iff {left j k : ℕ} (counted : k ≤ n) :
    runLength table n left j k = n ↔
      n - k ≤ left ∧ ∀ other, j ≤ other → other < j + (n - k) → table other = 0 := by
  induction left generalizing j k with
  | zero =>
      rw [runLength]
      constructor
      · rintro rfl
        exact ⟨by omega, fun other above below => by omega⟩
      · rintro ⟨none, -⟩
        omega
  | succ left ih =>
      rw [runLength]
      split
      · rename_i more
        split
        · rename_i notFree
          constructor
          · intro isEnd
            omega
          · rintro ⟨-, free⟩
            exact absurd (free j (Nat.le_refl _) (by omega)) notFree
        · rename_i isFree
          rw [not_not] at isFree
          rw [ih (by omega)]
          constructor
          · rintro ⟨fits, free⟩
            refine ⟨by omega, ?_⟩
            intro other above below
            by_cases here : other = j
            · rw [here]
              exact isFree
            · exact free other (by omega) (by omega)
          · rintro ⟨fits, free⟩
            exact ⟨by omega, fun other above below => free other (by omega) (by omega)⟩
      · rename_i done
        constructor
        · intro isEnd
          exact ⟨by omega, fun other above below => by omega⟩
        · intro _
          omega

/-- A run of free entries from an entry on, as the nested loops find it. -/
theorem freeRun_iff_runLength {i : ℕ} (begins : kptmin ≤ i) (inside : i ≤ kptmax) :
    FreeRun table i n ↔ runLength table n (kptmax - i) i 0 = n := by
  rw [runLength_eq_iff (Nat.zero_le _), Nat.sub_zero]
  constructor
  · rintro ⟨-, ends, free⟩
    refine ⟨by omega, ?_⟩
    intro other above below
    have isFree := free (other - i) (by omega)
    rwa [Nat.add_sub_cancel' above] at isFree
  · rintro ⟨fits, free⟩
    exact ⟨begins, by omega, fun k inRun => free _ (by omega) (by omega)⟩

/-- The search ends at the first long enough run, or behind the window if there is none. -/
theorem runSearch_spec (positive : 0 < n) {left i : ℕ} (begins : kptmin ≤ i)
    (reaches : i + left = kptmax) :
    (runSearch table n left i < kptmax ∧ FreeRun table (runSearch table n left i) n) ∨
      (runSearch table n left i = kptmax ∧ ∀ first, i ≤ first → ¬FreeRun table first n) := by
  induction left generalizing i with
  | zero =>
      rw [runSearch]
      refine Or.inr ⟨reaches, ?_⟩
      rintro first above ⟨-, ends, -⟩
      omega
  | succ left ih =>
      have rest := @ih (i + 1) (by omega) (by omega)
      rw [runSearch]
      by_cases here : FreeRun table i n
      · have isFree : table i = 0 := by simpa using here.free 0 positive
        rw [if_neg (by simpa using isFree),
          if_pos ((freeRun_iff_runLength begins (by omega)).mp here)]
        exact Or.inl ⟨by omega, here⟩
      · have next : (if table i ≠ 0 then runSearch table n left (i + 1)
            else if runLength table n (kptmax - i) i 0 = n then i
            else runSearch table n left (i + 1)) = runSearch table n left (i + 1) := by
          rw [if_neg fun isRun => here ((freeRun_iff_runLength begins (by omega)).mpr isRun)]
          exact ite_self _
        rw [next]
        rcases rest with found | ⟨isEnd, none⟩
        · exact Or.inl found
        · refine Or.inr ⟨isEnd, ?_⟩
          intro first above isRun
          by_cases isHere : first = i
          · rw [isHere] at isRun
            exact here isRun
          · exact none first (by omega) isRun

end Search

/-- The table with a run of entries that map consecutive pages. -/
def withRun (first count : ℕ) (pa : Paddr) (table : KernelPageTable) : KernelPageTable :=
  fun slot =>
    if first ≤ slot ∧ slot < first + count then
      pteAddr (pa + BitVec.ofNat 32 (slot - first) * 0x1000) ||| ptePw
    else table slot

/-- The table with a run of entries set to 0. -/
def clearRun (first count : ℕ) (table : KernelPageTable) : KernelPageTable :=
  fun slot => if first ≤ slot ∧ slot < first + count then 0 else table slot

section Runs

variable {table : KernelPageTable} {first count : ℕ} {pa : Paddr}

theorem writeRun_eq : writeRun count first pa table = withRun first count pa table := by
  induction count generalizing first pa table with
  | zero =>
      funext slot
      rw [writeRun, withRun, if_neg (by omega)]
  | succ count ih =>
      funext slot
      rw [writeRun, ih, withRun, withRun]
      by_cases here : slot = first
      · subst slot
        rw [if_neg (by omega), if_pos (by omega), Function.update_self, Nat.sub_self]
        simp
      · rw [Function.update_of_ne here]
        by_cases later : first + 1 ≤ slot ∧ slot < first + 1 + count
        · have distance : slot - first = slot - (first + 1) + 1 := by omega
          have one : BitVec.ofNat 32 1 * 0x1000 = (0x1000 : BitVec 32) := by decide
          rw [if_pos later, if_pos (by omega), distance, BitVec.ofNat_add, BitVec.add_mul, one,
            BitVec.add_assoc, BitVec.add_comm (0x1000 : BitVec 32)]
        · rw [if_neg later, if_neg (by omega)]

theorem clearRun_withRun (isFree : ∀ k < count, table (first + k) = 0) :
    clearRun first count (withRun first count pa table) = table := by
  funext slot
  rw [clearRun, withRun]
  split
  · rename_i inside
    have free := isFree (slot - first) (by omega)
    rw [Nat.add_sub_cancel' inside.1] at free
    exact free.symm
  · rfl

theorem clearRun_succ :
    clearRun (first + 1) count (Function.update table first 0) =
      clearRun first (count + 1) table := by
  funext slot
  rw [clearRun, clearRun]
  by_cases here : slot = first
  · subst slot
    rw [if_neg (by omega), if_pos (by omega), Function.update_self]
  · rw [Function.update_of_ne here]
    by_cases later : first + 1 ≤ slot ∧ slot < first + 1 + count
    · rw [if_pos later, if_pos (by omega)]
    · rw [if_neg later, if_neg (by omega)]

end Runs

section Addresses

variable {va : Vaddr} {pa : Paddr} {first : ℕ} {n : BitVec 32}

theorem toNat_slotAddress (inTable : first ≤ kptmax) :
    (slotAddress first).toNat = 0xc0000000 + first * 4096 := by
  have base : (0xc0000000 : BitVec 32).toNat = 0xc0000000 := rfl
  simp only [kptmax] at inTable
  rw [slotAddress, mulPagesize, BitVec.toNat_add, BitVec.toNat_shiftLeft, BitVec.toNat_ofNat,
    Nat.shiftLeft_eq, base]
  omega

theorem slotOf_eq (above : 0xc0000000 ≤ va.toNat) :
    slotOf va = (va.toNat - 0xc0000000) / 4096 := by
  have base : (0xc0000000 : BitVec 32).toNat = 0xc0000000 := rfl
  have le : 0xc0000000 ≤ va := BitVec.le_def.mpr (by rw [base]; exact above)
  rw [slotOf, BitVec.toNat_ushiftRight, BitVec.toNat_sub_of_le le, base,
    Nat.shiftRight_eq_div_pow]

theorem toNat_mappedPages (small : n.toNat < 2 ^ 31) :
    (mappedPages pa n).toNat = (pa.toNat % 4096 + n.toNat + 4095) / 4096 := by
  have rounding : (0xfff : BitVec 32).toNat = 0xfff := rfl
  rw [mappedPages, BitVec.toNat_ushiftRight, BitVec.toNat_add, BitVec.toNat_add,
    isLowMask_pageMask.toNat_and, rounding, Nat.shiftRight_eq_div_pow]
  omega

/-- An address with an offset into the page of an entry. -/
theorem toNat_slotAddress_add (inTable : first < kptmax) :
    (slotAddress first + (pa &&& 0xfff)).toNat = 0xc0000000 + first * 4096 + pa.toNat % 4096 := by
  have offset : (pa &&& 0xfff).toNat = pa.toNat % 4096 := isLowMask_pageMask.toNat_and pa
  rw [BitVec.toNat_add, toNat_slotAddress (Nat.le_of_lt inTable), offset]
  simp only [kptmax] at inTable
  omega

end Addresses

section Calls

variable {pa : Paddr} {n : BitVec 32} {table : KernelPageTable}

theorem slotAddress_ne_zero {first : ℕ} (inTable : first < kptmax) : slotAddress first ≠ 0 := by
  intro isZero
  have address := toNat_slotAddress (Nat.le_of_lt inTable)
  rw [isZero] at address
  have zero : (0 : BitVec 32).toNat = 0 := rfl
  omega

theorem FreeRun.first_lt {first count : ℕ} (run : FreeRun table first count)
    (positive : 0 < count) : first < kptmax := by
  have ends := run.ends
  omega

/-- `map_page` takes a free entry, and fails only if there is none. -/
theorem mapPage_cases (pa : Paddr) (table : KernelPageTable) :
    (∃ first, FreeRun table first 1 ∧
      mapPage pa table = (slotAddress first, withRun first 1 pa table)) ∨
      (∀ first, ¬FreeRun table first 1) ∧ mapPage pa table = (0, table) := by
  obtain ⟨begun, inside, found, before⟩ := @freeSearch_spec table (kptmax - kptmin) kptmin
  have window : kptmin + (kptmax - kptmin) = kptmax := by decide
  rw [window] at inside found
  rw [mapPage]
  generalize freeSearch table (kptmax - kptmin) kptmin = first at *
  by_cases inWindow : first < kptmax
  · left
    refine ⟨first, ⟨begun, inWindow, ?_⟩, ?_⟩
    · intro k isFirst
      have onlyFirst : k = 0 := by omega
      rw [onlyFirst]
      exact found inWindow
    · rw [if_pos ⟨begun, inWindow⟩, ← writeRun_eq]
      rfl
  · right
    refine ⟨?_, by rw [if_neg fun both => inWindow both.2]⟩
    rintro other ⟨begins, ends, free⟩
    exact before other begins (by omega) (by simpa using free 0 (by omega))

theorem mapPageRange_cases {count : ℕ} (positive : 0 < count) (pa : Paddr)
    (table : KernelPageTable) :
    (∃ first, FreeRun table first count ∧
      mapPageRange pa count table = (slotAddress first, withRun first count pa table)) ∨
      (∀ first, ¬FreeRun table first count) ∧ mapPageRange pa count table = (0, table) := by
  have window : kptmin + (kptmax - kptmin) = kptmax := by decide
  rw [mapPageRange, if_neg (by omega)]
  rcases @runSearch_spec table count positive (kptmax - kptmin) kptmin (Nat.le_refl _) window with
    ⟨inWindow, run⟩ | ⟨isEnd, none⟩
  · left
    refine ⟨_, run, ?_⟩
    simp only [if_pos (And.intro run.begins inWindow), writeRun_eq]
  · right
    refine ⟨fun first run => none first run.begins run, ?_⟩
    simp only [isEnd]
    rfl

theorem mappedPages_pos (positive : 0 < n.toNat) (small : n.toNat < 2 ^ 31) :
    0 < (mappedPages pa n).toNat := by
  rw [toNat_mappedPages small]
  omega

/-- `__i686_mp_map_range` takes a run of free entries, and fails only if there is none. -/
theorem i686MpMapRange_cases (positive : 0 < n.toNat) (small : n.toNat < 2 ^ 31) (pa : Paddr)
    (table : KernelPageTable) :
    (∃ first, FreeRun table first (mappedPages pa n).toNat ∧
      i686MpMapRange pa n table = (slotAddress first + (pa &&& 0xfff),
        withRun first (mappedPages pa n).toNat pa table)) ∨
      (∀ first, ¬FreeRun table first (mappedPages pa n).toNat) ∧
        i686MpMapRange pa n table = (0, table) := by
  have pages := @mappedPages_pos pa n positive small
  rcases mapPageRange_cases pages pa table with ⟨first, run, mapped⟩ | ⟨none, failed⟩
  · left
    refine ⟨first, run, ?_⟩
    simp only [i686MpMapRange, mapped, if_neg (slotAddress_ne_zero (run.first_lt pages))]
  · right
    refine ⟨none, ?_⟩
    simp only [i686MpMapRange, failed, if_true]

/-- The loop of `__i686_mp_unmap_range` from one entry to another. -/
theorem unmapLoop_eq {first last left : ℕ} (inTable : last < kptmax) (begins : first ≤ last + 1)
    (enough : last + 1 - first < left) :
    unmapLoop (slotAddress last) left (slotAddress first) table =
      some (clearRun first (last + 1 - first) table) := by
  induction left generalizing first table with
  | zero => omega
  | succ left ih =>
      have lastNat := toNat_slotAddress (Nat.le_of_lt inTable)
      have firstNat := @toNat_slotAddress first (by omega)
      rw [unmapLoop]
      by_cases done : first = last + 1
      · have none : clearRun first (last + 1 - first) table = table := by
          funext slot
          rw [clearRun, if_neg (by omega)]
        rw [if_neg (by rw [BitVec.le_def]; omega), none]
      · have pageSize : (0x1000 : BitVec 32).toNat = 0x1000 := rfl
        have slot : slotOf (slotAddress first) = first := by
          rw [slotOf_eq (by omega)]
          omega
        have next : slotAddress first + 0x1000 = slotAddress (first + 1) := by
          have nextNat := @toNat_slotAddress (first + 1) (by omega)
          apply BitVec.eq_of_toNat_eq
          simp only [kptmax] at inTable
          rw [BitVec.toNat_add, firstNat, nextNat, pageSize]
          omega
        have rest := @ih (Function.update table first 0) (first + 1) (by omega) (by omega)
        have length : last + 1 - first = last + 1 - (first + 1) + 1 := by omega
        rw [if_pos (by rw [BitVec.le_def]; omega), unmapPage, slot, next, rest, clearRun_succ,
          ← length]

/-- `__i686_mp_unmap_range` clears the run that its map call has taken. -/
theorem i686MpUnmapRange_eq (positive : 0 < n.toNat) (small : n.toNat < 2 ^ 31) {first : ℕ}
    (ends : first + (mappedPages pa n).toNat ≤ kptmax) :
    i686MpUnmapRange (slotAddress first + (pa &&& 0xfff)) n table =
      some (clearRun first (mappedPages pa n).toNat table) := by
  have pages := @toNat_mappedPages pa n small
  have one : (1 : BitVec 32).toNat = 1 := rfl
  have address := @toNat_slotAddress_add pa first (by omega)
  have firstPage : (slotAddress first + (pa &&& 0xfff)) &&& ~~~0xfff = slotAddress first := by
    apply BitVec.eq_of_toNat_eq
    rw [isLowMask_pageMask.toNat_and_not, address, toNat_slotAddress (by omega)]
    omega
  have lastPage : (slotAddress first + (pa &&& 0xfff) + n - 1) &&& ~~~0xfff =
      slotAddress (first + (mappedPages pa n).toNat - 1) := by
    have limit : kptmax = 4096 := rfl
    have sum : (slotAddress first + (pa &&& 0xfff) + n).toNat =
        0xc0000000 + first * 4096 + pa.toNat % 4096 + n.toNat := by
      rw [BitVec.toNat_add, address]
      omega
    apply BitVec.eq_of_toNat_eq
    rw [isLowMask_pageMask.toNat_and_not,
      BitVec.toNat_sub_of_le (BitVec.le_def.mpr (by rw [sum, one]; omega)), sum, one,
      toNat_slotAddress (by omega)]
    omega
  have length : first + (mappedPages pa n).toNat - 1 + 1 - first = (mappedPages pa n).toNat := by
    omega
  have limit : kptmax = 4096 := rfl
  rw [i686MpUnmapRange, firstPage, lastPage, unmapLoop_eq (by omega) (by omega) (by omega), length]

/-- An address inside a run is translated to the address as far into the pages it maps. -/
theorem translate_run {first : ℕ} (small : n.toNat < 2 ^ 31)
    (ends : first + (mappedPages pa n).toNat ≤ kptmax)
    (maps : ∀ k < (mappedPages pa n).toNat,
      table (first + k) = pteAddr (pa + BitVec.ofNat 32 k * 0x1000) ||| ptePw)
    {k : ℕ} (inside : k < n.toNat) :
    translate table (slotAddress first + (pa &&& 0xfff) + BitVec.ofNat 32 k) =
      some (pa + BitVec.ofNat 32 k) := by
  have pages := @toNat_mappedPages pa n small
  have limit : kptmax = 4096 := rfl
  have address : (slotAddress first + (pa &&& 0xfff) + BitVec.ofNat 32 k).toNat =
      0xc0000000 + first * 4096 + (pa.toNat % 4096 + k) := by
    rw [BitVec.toNat_add, toNat_slotAddress_add (by omega), BitVec.toNat_ofNat]
    omega
  have slot : slotOf (slotAddress first + (pa &&& 0xfff) + BitVec.ofNat 32 k) =
      first + (pa.toNat % 4096 + k) / 4096 := by
    rw [slotOf_eq (by omega), address]
    omega
  have entry := maps ((pa.toNat % 4096 + k) / 4096) (by omega)
  have parts := @pteAddr_or_pteFlags
    (pteAddr (pa + BitVec.ofNat 32 ((pa.toNat % 4096 + k) / 4096) * 0x1000)) ptePw
    (by rw [toNat_pteAddr]; omega) (by decide)
  rw [← entry] at parts
  have present : table (first + (pa.toNat % 4096 + k) / 4096) &&& pteP ≠ 0 := by
    have flags : table (first + (pa.toNat % 4096 + k) / 4096) &&& pteP =
        pteFlags (table (first + (pa.toNat % 4096 + k) / 4096)) &&& pteP := by
      rw [pteFlags, BitVec.and_assoc]
      rfl
    rw [flags, parts.2]
    decide
  rw [translate, slot]
  simp only [if_neg present, parts.1, Option.some.injEq]
  have pageSize : (0x1000 : BitVec 32).toNat = 0x1000 := rfl
  apply BitVec.eq_of_toNat_eq
  rw [BitVec.toNat_add, toNat_pteAddr, isLowMask_pageMask.toNat_and, address, BitVec.toNat_add,
    BitVec.toNat_mul, BitVec.toNat_ofNat, pageSize, BitVec.toNat_add, BitVec.toNat_ofNat]
  omega

end Calls

end Rkernel
