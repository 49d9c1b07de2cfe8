import Mathlib.Algebra.Group.Nat.Defs
import Rkernel.Physmem.Alloc

/-!
# What the boot allocator reports

`vm_phys_bm_bootinit` returns 0 if its maps hold all pages of the ranges, and otherwise
the place at which it ran out of bitmap words or of maps. The place is computed from the
number of words, 32 pages each, in 32-bit arithmetic. If the words run out exactly with the
last page of a range, the computed address lies behind that page and may wrap around; and the
ranges that follow may all be empty. `ToldFrom` excludes both.
-/

namespace Rkernel

namespace PhysmemRange

/-- The number of words a bitmap of the range needs. -/
def bitmapWords (range : PhysmemRange) : ℕ :=
  (range.pages + 31) / 32

end PhysmemRange

/-- The number of pages of the `i`-th range that are managed: the length of its map. -/
def managedPages (maps : List PhysmemBmalloc) (i : ℕ) : ℕ :=
  (maps[i]?.map fun map => map.pmbLength.toNat).getD 0

/-- All pages before the index and the address are managed, and none from there on. -/
structure ResumesAt (ranges : List PhysmemRange) (maps : List PhysmemBmalloc)
    (index address : ℕ) : Prop where
  before : ∀ i < index, ∀ range, ranges[i]? = some range → managedPages maps i = range.pages
  between : ∃ range, ranges[index]? = some range ∧ ∀ page < range.pages,
    page < managedPages maps index ↔ range.pmBegin.toNat + page * 4096 < address
  behind : ∀ i, index < i → managedPages maps i = 0

/-- The status and the outputs describe which pages are managed. -/
structure ReportsCoverage (ranges : List PhysmemRange) (ret : ℤ) (maps : List PhysmemBmalloc)
    (index address : ℕ) : Prop where
  complete : ret = 0 ↔
    ∀ i range, ranges[i]? = some range → managedPages maps i = range.pages
  resumes : ret = -1 → ResumesAt ranges maps index address

/-- The result of `vm_phys_bm_bootinit` describes which pages of the ranges are managed. -/
def BootReports (ranges : List PhysmemRange) (result : ℤ × BootState) : Prop :=
  ReportsCoverage ranges result.1 result.2.maps result.2.outIndex result.2.outAddress.toNat

/-- Some of the ranges has a page. -/
def SomePage (ranges : List PhysmemRange) : Prop :=
  ∃ range ∈ ranges, range.pages ≠ 0

/-- With `used` words taken by the `i` ranges before: where the words run out exactly with a
range, the words do not reach over the end of the address space and it is the last range or
there is a page behind it; and where the maps run out there is a page without one. -/
def ToldFrom : (used i : ℕ) → List PhysmemRange → Prop
  | _, _, [] => True
  | used, i, range :: ranges =>
      (nnumber ≤ i → SomePage (range :: ranges)) ∧
      (i < nnumber → used + range.bitmapWords = unumber →
        range.pmBegin.toNat + range.bitmapWords * 32 * 4096 < 2 ^ 32 ∧
          (ranges = [] ∨ SomePage ranges)) ∧
      (i < nnumber → used + range.bitmapWords < unumber →
        ToldFrom (used + range.bitmapWords) (i + 1) ranges)

section Reports

variable {range : PhysmemRange} {ranges : List PhysmemRange} {map : PhysmemBmalloc}
  {maps : List PhysmemBmalloc} {ret : ℤ} {index address : ℕ}

@[simp]
theorem managedPages_nil (i : ℕ) : managedPages [] i = 0 := by
  simp [managedPages]

@[simp]
theorem managedPages_cons_zero : managedPages (map :: maps) 0 = map.pmbLength.toNat := rfl

@[simp]
theorem managedPages_cons_succ (i : ℕ) :
    managedPages (map :: maps) (i + 1) = managedPages maps i := by
  simp [managedPages]

theorem allManaged_cons_iff :
    (∀ i other, (range :: ranges)[i]? = some other → managedPages (map :: maps) i = other.pages) ↔
      map.pmbLength.toNat = range.pages ∧
        ∀ i other, ranges[i]? = some other → managedPages maps i = other.pages := by
  constructor
  · intro all
    exact ⟨all 0 range rfl, fun i other isRange => by simpa using all (i + 1) other isRange⟩
  · rintro ⟨first, later⟩ i other isRange
    cases i with
    | zero =>
        simp only [List.getElem?_cons_zero, Option.some.injEq] at isRange
        rw [← isRange, managedPages_cons_zero, first]
    | succ i =>
        rw [managedPages_cons_succ]
        exact later i other isRange

theorem allManaged_nil_iff :
    (∀ i other, ranges[i]? = some other → managedPages [] i = other.pages) ↔ ¬SomePage ranges := by
  constructor
  · rintro all ⟨other, otherMem, hasPage⟩
    obtain ⟨i, isRange⟩ := List.mem_iff_getElem?.mp otherMem
    apply hasPage
    rw [← all i other isRange, managedPages_nil]
  · intro none i other isRange
    rw [managedPages_nil]
    by_contra hasPage
    exact none ⟨other, List.mem_of_getElem? isRange, fun noPage => hasPage noPage.symm⟩

theorem resumesAt_cons_iff (whole : map.pmbLength.toNat = range.pages) :
    ResumesAt (range :: ranges) (map :: maps) (index + 1) address ↔
      ResumesAt ranges maps index address := by
  constructor
  · rintro ⟨before, between, behind⟩
    refine ⟨?_, by simpa using between, ?_⟩
    · intro i iLt other isRange
      simpa using before (i + 1) (by omega) other isRange
    · intro i iGt
      simpa using behind (i + 1) (by omega)
  · rintro ⟨before, between, behind⟩
    refine ⟨?_, by simpa using between, ?_⟩
    · intro i iLt other isRange
      cases i with
      | zero =>
          simp only [List.getElem?_cons_zero, Option.some.injEq] at isRange
          rw [← isRange, managedPages_cons_zero, whole]
      | succ i =>
          rw [managedPages_cons_succ]
          exact before i (by omega) other isRange
    · intro i iGt
      cases i with
      | zero => omega
      | succ i =>
          rw [managedPages_cons_succ]
          exact behind i (by omega)

theorem reportsCoverage_cons_iff (whole : map.pmbLength.toNat = range.pages) :
    ReportsCoverage (range :: ranges) ret (map :: maps) (index + 1) address ↔
      ReportsCoverage ranges ret maps index address := by
  constructor
  · rintro ⟨complete, resumes⟩
    rw [allManaged_cons_iff] at complete
    refine ⟨by simpa [whole] using complete, ?_⟩
    exact fun failed => (resumesAt_cons_iff whole).mp (resumes failed)
  · rintro ⟨complete, resumes⟩
    refine ⟨?_, fun failed => (resumesAt_cons_iff whole).mpr (resumes failed)⟩
    rw [allManaged_cons_iff, complete]
    simp [whole]

/-- Out of maps: the place is the begin of the first range without one. -/
theorem reportsCoverage_noMaps_iff :
    ReportsCoverage (range :: ranges) (-1) [] 0 range.pmBegin.toNat ↔
      SomePage (range :: ranges) := by
  constructor
  · rintro ⟨complete, -⟩
    rw [allManaged_nil_iff] at complete
    by_contra none
    have := complete.mpr none
    omega
  · intro somePage
    refine ⟨?_, fun _ => ⟨by simp, ⟨range, rfl, by simp⟩, by simp⟩⟩
    rw [allManaged_nil_iff]
    simp [somePage]

/-- Out of words within a range: the place is the first page without a bit. -/
theorem reportsCoverage_truncated (short : map.pmbLength.toNat < range.pages)
    (isAddress : address = range.pmBegin.toNat + map.pmbLength.toNat * 4096) :
    ReportsCoverage (range :: ranges) (-1) [map] 0 address := by
  refine ⟨?_, fun _ => ⟨by simp, ⟨range, rfl, ?_⟩, ?_⟩⟩
  · rw [allManaged_cons_iff]
    omega
  · intro page _
    rw [managedPages_cons_zero]
    omega
  · intro i iGt
    cases i with
    | zero => omega
    | succ i => simp

/-- Out of words exactly with a range. -/
theorem reportsCoverage_exact_iff (whole : map.pmbLength.toNat = range.pages)
    (hasPage : range.pages ≠ 0)
    (isRet : ret = if range.pmBegin.toNat + range.pages * 4096 ≤ address ∧ ranges = [] then 0
      else -1)
    (near : range.pmBegin.toNat + range.pages * 4096 ≤ address ∨ address ≤ range.pmBegin.toNat) :
    ReportsCoverage (range :: ranges) ret [map] 0 address ↔
      range.pmBegin.toNat + range.pages * 4096 ≤ address ∧ (ranges = [] ∨ SomePage ranges) := by
  have all : (∀ i other, (range :: ranges)[i]? = some other →
      managedPages [map] i = other.pages) ↔ ¬SomePage ranges := by
    rw [allManaged_cons_iff, allManaged_nil_iff]
    simp [whole]
  have noneOfNil : ranges = [] → ¬SomePage ranges := by
    rintro rfl ⟨other, otherMem, -⟩
    simp at otherMem
  have resumes_iff : ResumesAt (range :: ranges) [map] 0 address ↔
      range.pmBegin.toNat + range.pages * 4096 ≤ address := by
    constructor
    · rintro ⟨-, ⟨other, isRange, between⟩, -⟩
      simp only [List.getElem?_cons_zero, Option.some.injEq] at isRange
      subst other
      have first := between 0 (by omega)
      rw [managedPages_cons_zero, whole] at first
      omega
    · intro reached
      refine ⟨by simp, ⟨range, rfl, ?_⟩, ?_⟩
      · intro page inRange
        rw [managedPages_cons_zero, whole]
        omega
      · intro i iGt
        cases i with
        | zero => omega
        | succ i => simp
  constructor
  · rintro ⟨complete, resumes⟩
    rw [all] at complete
    split at isRet
    · rename_i last
      exact ⟨last.1, Or.inl last.2⟩
    · rw [isRet] at complete resumes
      refine ⟨resumes_iff.mp (resumes rfl), Or.inr ?_⟩
      by_contra none
      have := complete.mpr none
      omega
  · rintro ⟨reached, last | somePage⟩
    · rw [if_pos ⟨reached, last⟩] at isRet
      subst ret
      exact ⟨by simp [all, noneOfNil last], by simp⟩
    · have notLast : ranges ≠ [] := fun last => noneOfNil last somePage
      rw [if_neg fun both => notLast both.2] at isRet
      subst ret
      exact ⟨by simp [all, somePage], fun _ => resumes_iff.mpr reached⟩

end Reports

theorem clearWords_fst {current remaining j : ℕ} {words : BitArray 32}
    (inBlock : current + j ≤ unumber) :
    (clearWords current remaining j words).1 = min (j + remaining) (unumber - current) := by
  induction remaining generalizing j words with
  | zero =>
      simp only [clearWords]
      omega
  | succ remaining ih =>
      simp only [clearWords]
      split
      · omega
      · rw [ih (by omega)]
        omega

section Arithmetic

variable {range : PhysmemRange}

theorem PhysmemRange.toNat_bitmapWords (ordered : range.pmBegin ≤ range.pmEnd) :
    ((divPagesize (range.pmEnd - range.pmBegin) + 31) >>> 5).toNat = range.bitmapWords := by
  have small : range.pages < 2 ^ 20 := by
    have := range.pmEnd.isLt
    rw [pages]
    omega
  have rounding : (31 : BitVec 32).toNat = 31 := rfl
  rw [BitVec.toNat_ushiftRight, BitVec.toNat_add, toNat_pages ordered, rounding,
    Nat.shiftRight_eq_div_pow, bitmapWords]
  omega

theorem PhysmemRange.pmEnd_eq (ordered : range.pmBegin ≤ range.pmEnd)
    (beginAligned : range.pmBegin.toNat % 4096 = 0) (endAligned : range.pmEnd.toNat % 4096 = 0) :
    range.pmEnd.toNat = range.pmBegin.toNat + range.pages * 4096 := by
  rw [BitVec.le_def] at ordered
  rw [pages]
  omega

theorem toNat_bootAddress (start : Paddr) {j : ℕ} (inBlock : j ≤ unumber) :
    (start + mulPagesize (BitVec.ofNat 32 j <<< 5)).toNat =
      (start.toNat + j * 32 * 4096) % 2 ^ 32 := by
  have pages := toNat_wordPages inBlock
  simp only [unumber] at inBlock
  rw [BitVec.toNat_add, mulPagesize, BitVec.toNat_shiftLeft, pages, Nat.shiftLeft_eq]
  omega

end Arithmetic

/-- One iteration of the boot loop, with the number of words the range gets. -/
theorem bootLoop_cons_eq {nRanges i : ℕ} {range : PhysmemRange} (ranges : List PhysmemRange)
    {state : BootState} (ordered : range.pmBegin ≤ range.pmEnd) (hasMap : i < nnumber)
    (inBlock : state.current < unumber) {count : ℕ}
    (isCount : count = min range.bitmapWords (unumber - state.current)) :
    ∃ length address words, length.toNat = min (32 * count) range.pages ∧
      address.toNat = (range.pmBegin.toNat + count * 32 * 4096) % 2 ^ 32 ∧
      bootLoop nRanges i (range :: ranges) state =
        if unumber ≤ state.current + count then
          (if address ≥ range.pmEnd ∧ i + 1 ≥ nRanges then 0 else -1,
            ⟨state.maps ++ [⟨range, state.current, length⟩], words, state.current + count, i,
              address⟩)
        else
          bootLoop nRanges (i + 1) ranges ⟨state.maps ++ [⟨range, state.current, length⟩], words,
            state.current + count, state.outIndex, state.outAddress⟩ := by
  have cleared := @clearWords_fst state.current range.bitmapWords 0 state.words
    (Nat.le_of_lt inBlock)
  rw [Nat.zero_add, ← isCount] at cleared
  have countLe : count ≤ unumber := by omega
  refine ⟨_, _, (clearWords state.current range.bitmapWords 0 state.words).2,
    toNat_bootLength ordered countLe, toNat_bootAddress range.pmBegin countLe, ?_⟩
  rw [bootLoop, if_neg (Nat.not_le.mpr hasMap)]
  simp only [PhysmemRange.toNat_bitmapWords ordered, cleared]
  split
  · split
    · rfl
    · rfl
  · rfl

/-- The report of the boot loop from a range on is right exactly if `ToldFrom` holds there. -/
theorem bootLoop_reports_iff {nRanges i : ℕ} {ranges : List PhysmemRange} {state : BootState}
    (ordered : ∀ range ∈ ranges, range.pmBegin ≤ range.pmEnd)
    (beginAligned : ∀ range ∈ ranges, range.pmBegin.toNat % 4096 = 0)
    (endAligned : ∀ range ∈ ranges, range.pmEnd.toNat % 4096 = 0)
    (isCount : nRanges = i + ranges.length) (inBlock : state.current < unumber) :
    ∃ maps index, (bootLoop nRanges i ranges state).2.maps = state.maps ++ maps ∧
      ((bootLoop nRanges i ranges state).1 = -1 →
        (bootLoop nRanges i ranges state).2.outIndex = i + index) ∧
      (ReportsCoverage ranges (bootLoop nRanges i ranges state).1 maps index
          (bootLoop nRanges i ranges state).2.outAddress.toNat ↔
        ToldFrom state.current i ranges) := by
  induction ranges generalizing i state with
  | nil =>
      refine ⟨[], 0, by simp [bootLoop], by simp [bootLoop], ?_⟩
      simp only [bootLoop, ToldFrom, iff_true]
      exact ⟨by simp, by simp⟩
  | cons range ranges ih =>
      have rangeOrdered := ordered range List.mem_cons_self
      have rangeEnd := PhysmemRange.pmEnd_eq rangeOrdered
        (beginAligned range List.mem_cons_self) (endAligned range List.mem_cons_self)
      have endLt := range.pmEnd.isLt
      rw [ToldFrom]
      by_cases hasMap : i < nnumber
      · have noMore : ¬nnumber ≤ i := Nat.not_le.mpr hasMap
        obtain ⟨length, address, words, lengthEq, addressEq, result⟩ :=
          @bootLoop_cons_eq nRanges i range ranges state rangeOrdered hasMap inBlock _ rfl
        have wordsEq : range.bitmapWords = (range.pages + 31) / 32 := rfl
        have blockEq : unumber = 4096 := rfl
        rw [result]
        by_cases room : state.current + range.bitmapWords < unumber
        · rw [if_neg (by omega)]
          obtain ⟨maps, index, mapsEq, indexEq, reports⟩ := @ih (i + 1)
            ⟨state.maps ++ [⟨range, state.current, length⟩], words,
              state.current + min range.bitmapWords (unumber - state.current),
              state.outIndex, state.outAddress⟩
            (fun other otherMem => ordered other (List.mem_cons_of_mem _ otherMem))
            (fun other otherMem => beginAligned other (List.mem_cons_of_mem _ otherMem))
            (fun other otherMem => endAligned other (List.mem_cons_of_mem _ otherMem))
            (by rw [isCount, List.length_cons]; omega) (by simp only; omega)
          refine ⟨⟨range, state.current, length⟩ :: maps, index + 1, ?_, ?_, ?_⟩
          · rw [mapsEq, List.append_assoc, List.singleton_append]
          · intro failed
            rw [indexEq failed]
            omega
          · have whole : length.toNat = range.pages := by omega
            rw [reportsCoverage_cons_iff whole, reports,
              Nat.min_eq_left (by omega : range.bitmapWords ≤ unumber - state.current)]
            have notExact : state.current + range.bitmapWords ≠ unumber := by omega
            simp [noMore, hasMap, room, notExact]
        · rw [if_pos (by omega)]
          refine ⟨[⟨range, state.current, length⟩], 0, rfl, fun _ => rfl, ?_⟩
          by_cases exactly : state.current + range.bitmapWords = unumber
          · have isRet : (if address ≥ range.pmEnd ∧ i + 1 ≥ nRanges then (0 : ℤ) else -1) =
                if range.pmBegin.toNat + range.pages * 4096 ≤ address.toNat ∧ ranges = [] then 0
                else -1 := by
              have lastIff : i + 1 ≥ nRanges ↔ ranges = [] := by
                rw [isCount, List.length_cons, ← List.length_eq_zero_iff]
                omega
              simp only [lastIff, ge_iff_le, BitVec.le_def, rangeEnd]
            have reached : range.pmBegin.toNat + range.pages * 4096 ≤ address.toNat ↔
                range.pmBegin.toNat + range.bitmapWords * 32 * 4096 < 2 ^ 32 := by
              omega
            rw [@reportsCoverage_exact_iff range ranges ⟨range, state.current, length⟩ _
              address.toNat (by simp only; omega) (by omega) isRet (by omega), reached]
            simp [noMore, hasMap, exactly]
          · have behind : ¬address ≥ range.pmEnd := by
              rw [ge_iff_le, BitVec.le_def, rangeEnd]
              omega
            have truncated := @reportsCoverage_truncated range ranges
              ⟨range, state.current, length⟩ address.toNat (by simp only; omega)
              (by simp only; omega)
            simp [noMore, hasMap, exactly, room, behind, truncated]
      · refine ⟨[], 0, ?_, ?_, ?_⟩
        · simp [bootLoop, Nat.not_lt.mp hasMap]
        · simp [bootLoop, Nat.not_lt.mp hasMap]
        · rw [bootLoop, if_pos (Nat.not_lt.mp hasMap), reportsCoverage_noMaps_iff]
          simp [hasMap, Nat.not_lt.mp hasMap]

/-- The report of `vm_phys_bm_bootinit` is right exactly if the bitmap words do not run out
together with a range, other than with the last one or with pages behind it and without the
words reaching over the end of the address space, and no empty ranges are left without a map. -/
theorem vmPhysBmBootinit_reports_iff {ranges : List PhysmemRange} (valid : ValidRanges ranges)
    (words : BitArray 32) (outIndex : ℕ) (outAddress : Paddr) :
    BootReports ranges (vmPhysBmBootinit ranges words outIndex outAddress) ↔
      ToldFrom 0 0 ranges := by
  have firstWord : (0 : ℕ) < unumber := by decide
  obtain ⟨maps, index, mapsEq, indexEq, reports⟩ :=
    @bootLoop_reports_iff ranges.length 0 ranges ⟨[], words, 0, outIndex, outAddress⟩
      valid.ordered valid.beginAligned valid.endAligned (Nat.zero_add _).symm firstWord
  rw [BootReports, vmPhysBmBootinit, mapsEq, List.nil_append, ← reports]
  constructor
  · rintro ⟨complete, resumes⟩
    refine ⟨complete, fun failed => ?_⟩
    rw [← Nat.zero_add index, ← indexEq failed]
    exact resumes failed
  · rintro ⟨complete, resumes⟩
    refine ⟨complete, fun failed => ?_⟩
    rw [indexEq failed, Nat.zero_add]
    exact resumes failed

theorem vmPhysBmBootinit_reports_twoRanges :
    ValidRanges PhysmemBmaset.twoRanges ∧ BootReports PhysmemBmaset.twoRanges
      (vmPhysBmBootinit PhysmemBmaset.twoRanges (fun _ => 0) 0 0) := by
  have valid := PhysmemBmaset.twoRanges_valid
  refine ⟨valid, (vmPhysBmBootinit_reports_iff valid (fun _ => 0) 0 0).mpr ?_⟩
  simp [ToldFrom, PhysmemBmaset.twoRanges, PhysmemRange.bitmapWords, PhysmemRange.pages, unumber,
    nnumber]

/-- The topmost half gigabyte less its first and last page. -/
def topRange : PhysmemRange := ⟨0xe0001000, 0xfffff000⟩

/-- Every page is managed, but the computed address wraps around and the status is an error. -/
theorem not_reports_topRange :
    ValidRanges [topRange] ∧
      ¬BootReports [topRange] (vmPhysBmBootinit [topRange] (fun _ => 0) 0 0) := by
  have valid : ValidRanges [topRange] := ⟨by decide, by decide, by decide, by simp⟩
  refine ⟨valid, ?_⟩
  rw [vmPhysBmBootinit_reports_iff valid]
  simp [ToldFrom, topRange, PhysmemRange.bitmapWords, PhysmemRange.pages, unumber, nnumber]

end Rkernel
