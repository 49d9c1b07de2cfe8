import Rkernel.Arch.MpTable

/-!
# The search for the MP floating pointer

What `mpsearch` finds, in terms of the physical memory alone: the first MP floating pointer in
the three areas, if no mapping fails.
-/

open Stretch

namespace Rkernel

namespace Mp

/-- The sum of some bytes modulo 256. -/
def byteSum (bytes : List Byte) : Byte :=
  bytes.foldl (· + ·) 0

section Specification

variable (ram : Ram) (pa : Paddr)

def intAt : BitVec 32 :=
  int32 (ram pa) (ram (pa + 1)) (ram (pa + 2)) (ram (pa + 3))

def shortAt : BitVec 16 :=
  ram (pa + 1) ++ ram pa

def sumAt (count : ℕ) : Byte :=
  byteSum (stretch ram pa count)

/-- An MP floating pointer. -/
def IsMpAt : Prop :=
  intAt ram pa = mpText ∧ sumAt ram pa 16 = 0

instance : Decidable (IsMpAt ram pa) :=
  inferInstanceAs (Decidable (_ ∧ _))

/-- The first MP floating pointer among some places, 16 bytes each. -/
def mpPointerIn (places : ℕ) : Option Paddr :=
  ((List.range places).map fun k => pa + BitVec.ofNat 32 (16 * k)).find?
    fun place => IsMpAt ram place

/-- The EBDA as the BIOS data area has it. -/
def ebdaAddress : Paddr :=
  biosWord (ram 0x40f) (ram 0x40e) <<< 4

/-- The end of the base memory as the BIOS data area has it. -/
def baseEnd : Paddr :=
  biosWord (ram 0x414) (ram 0x413) <<< 10

/-- The areas for the MP floating pointer, in the order of the search, with their places. -/
def mpAreas : List (Paddr × ℕ) :=
  (if ebdaAddress ram = 0 then [] else [(ebdaAddress ram, 64)]) ++
    (if 1024 ≤ baseEnd ram then [(baseEnd ram - 1024, 64)] else []) ++ [(0xf0000, 4096)]

/-- The MP floating pointer of the machine. -/
def mpPointer : Option Paddr :=
  (mpAreas ram).findSome? fun area => mpPointerIn ram area.1 area.2

end Specification

section Reads

variable {memory : Loader} {va : Vaddr} {ram : Ram} {pa : Paddr}

theorem sum_eq {bytes : List Byte} (shows : Shows memory va bytes) {len : BitVec 32}
    (isLength : len.toInt.toNat = bytes.length) : sum memory va len = some (byteSum bytes) := by
  rw [sum, isLength, shows.foldCells, byteSum]

theorem getint_eq (shows : Shows memory va (stretch ram pa 4)) :
    getint memory va = some (intAt ram pa) := by
  have cells := shows_stretch.mp shows
  have first : memory va = some (ram pa) := by simpa using cells 0 (by omega)
  have second : memory (va + 1) = some (ram (pa + 1)) := cells 1 (by omega)
  have third : memory (va + 2) = some (ram (pa + 2)) := cells 2 (by omega)
  have fourth : memory (va + 3) = some (ram (pa + 3)) := cells 3 (by omega)
  simp only [getint, first, second, third, fourth]
  rfl

theorem getshort_eq (shows : Shows memory va (stretch ram pa 2)) :
    getshort memory va = some (shortAt ram pa) := by
  have cells := shows_stretch.mp shows
  have first : memory va = some (ram pa) := by simpa using cells 0 (by omega)
  have second : memory (va + 1) = some (ram (pa + 1)) := cells 1 (by omega)
  simp only [getshort, first, second]
  rfl

theorem isMp_eq (shows : Shows memory va (stretch ram pa 16)) :
    isMp memory va = some (decide (IsMpAt ram pa)) := by
  have text : getint memory va = some (intAt ram pa) :=
    getint_eq (shows.take (by omega))
  have total : sum memory va 16 = some (sumAt ram pa 16) :=
    sum_eq shows (length_stretch _).symm
  simp only [isMp, compare4, text, total, IsMpAt]
  by_cases isText : intAt ram pa = mpText
  · simp [isText]
  · simp [isText]

end Reads

section Search

variable {memory : Loader} {va : Vaddr} {ram : Ram} {pa : Paddr}

theorem mpPointerIn_succ (ram : Ram) (pa : Paddr) (places : ℕ) :
    mpPointerIn ram pa (places + 1) =
      if IsMpAt ram pa then some pa else mpPointerIn ram (pa + 16) places := by
  have first : pa + BitVec.ofNat 32 (16 * 0) = pa := BitVec.add_zero pa
  have others : (fun k => pa + BitVec.ofNat 32 (16 * k)) ∘ Nat.succ =
      fun k => pa + 16 + BitVec.ofNat 32 (16 * k) := by
    funext k
    have next : 16 * k.succ = 16 + 16 * k := by omega
    rw [Function.comp_apply, next, BitVec.ofNat_add, BitVec.add_assoc]
    rfl
  rw [mpPointerIn, List.range_succ_eq_map, List.map_cons, List.map_map, first, others,
    List.find?_cons]
  by_cases isHere : IsMpAt ram pa
  · simp [isHere]
  · simp [isHere, mpPointerIn]

/-- What a search has found, as the address `mp` and in the physical memory. -/
def Found (memory : Loader) (ram : Ram) (expected : Option Paddr) (mp : Vaddr) : Prop :=
  match expected with
  | none => mp = 0
  | some pa => mp ≠ 0 ∧ Shows memory mp (stretch ram pa 16)

theorem mpsearch2Loop_found {places left : ℕ}
    (shows : Shows memory va (stretch ram pa (16 * places))) (above : 0 < va.toNat)
    (below : va.toNat + 16 * places < 2 ^ 32) (enough : places < left) :
    ∃ mp, mpsearch2Loop memory (va + BitVec.ofNat 32 (16 * places)) left va = some mp ∧
      Found memory ram (mpPointerIn ram pa places) mp := by
  induction places generalizing va pa left with
  | zero =>
      rcases Nat.exists_eq_add_of_lt enough with ⟨left, rfl⟩
      refine ⟨0, ?_, rfl⟩
      rw [mpsearch2Loop, if_neg]
      simp
  | succ places ih =>
      rcases Nat.exists_eq_add_of_lt enough with ⟨left, rfl⟩
      have size : (16 : BitVec 32).toNat = 16 := rfl
      have inside : va < va + BitVec.ofNat 32 (16 * (places + 1)) := by
        rw [BitVec.lt_def, BitVec.toNat_add, BitVec.toNat_ofNat]
        omega
      have here : Shows memory va (stretch ram pa 16) := shows.take (by omega)
      rw [mpsearch2Loop, if_pos inside, isMp_eq here, mpPointerIn_succ]
      by_cases isHere : IsMpAt ram pa
      · refine ⟨va, by simp [isHere], ?_⟩
        rw [if_pos isHere]
        refine ⟨?_, here⟩
        rintro rfl
        exact absurd above (Nat.lt_irrefl 0)
      · have next : (va + 16).toNat = va.toNat + 16 := by
          rw [BitVec.toNat_add, size]
          omega
        have isEnd : va + BitVec.ofNat 32 (16 * (places + 1)) =
            va + 16 + BitVec.ofNat 32 (16 * places) := by
          have entries : 16 * (places + 1) = 16 + 16 * places := by omega
          rw [entries, BitVec.ofNat_add, BitVec.add_assoc]
          rfl
        have rest : Shows memory (va + 16) (stretch ram (pa + 16) (16 * places)) :=
          shows.part 16 _ (by omega)
        rcases @ih (va + 16) (pa + 16) _ rest (by omega) (by omega)
          (Nat.lt_of_succ_lt_succ enough) with ⟨mp, found, isFound⟩
        refine ⟨mp, ?_, ?_⟩
        · rw [← found, isEnd]
          simp [isHere]
        · rw [if_neg isHere]
          exact isFound

end Search

/-- A call of `__i686_mp_map_range` that has succeeded, with the tables before and after it. -/
structure MappedRange (pa : Paddr) (n : BitVec 32) (before : KernelPageTable) (va : Vaddr)
    (after : KernelPageTable) : Prop where
  translates : ∀ k, pa.toNat % 4096 + k < (mappedPages pa n).toNat * 4096 →
    translate after (va + BitVec.ofNat 32 k) = some (pa + BitVec.ofNat 32 k)
  offset : va.toNat % 4096 = pa.toNat % 4096
  above : 0xc0000000 ≤ va.toNat
  below : va.toNat + n.toNat ≤ 0xc1000000
  keeps : ∀ slot, before slot ≠ 0 → after slot = before slot
  unmaps : i686MpUnmapRange va n after = some before

section Mappings

variable {ram : Ram} {pa : Paddr} {n : BitVec 32} {before after : KernelPageTable} {va : Vaddr}
  {state : State}

theorem mappedRange_withRun (positive : 0 < n.toNat) (small : n.toNat < 2 ^ 31) {first : ℕ}
    (run : FreeRun before first (mappedPages pa n).toNat) :
    MappedRange pa n before (slotAddress first + (pa &&& 0xfff))
      (withRun first (mappedPages pa n).toNat pa before) := by
  have pages := @toNat_mappedPages pa n small
  have limit : kptmax = 4096 := rfl
  have ends := run.ends
  have address := @toNat_slotAddress_add pa first (run.first_lt (mappedPages_pos positive small))
  refine ⟨?_, by omega, by omega, by omega, ?_, ?_⟩
  · intro k inside
    have kNat : (BitVec.ofNat 32 (k + 1)).toNat = k + 1 := by
      rw [BitVec.toNat_ofNat, Nat.mod_eq_of_lt (by omega)]
    have prefixPages := @toNat_mappedPages pa (BitVec.ofNat 32 (k + 1)) (by omega)
    apply translate_run (n := BitVec.ofNat 32 (k + 1)) (by omega) (by omega)
    · exact fun _ inRun => withRun_inside (by omega)
    · omega
  · intro slot taken
    rw [withRun, if_neg]
    rintro ⟨begun, inside⟩
    have isFree := run.free (slot - first) (by omega)
    rw [Nat.add_sub_cancel' begun] at isFree
    exact taken isFree
  · rw [i686MpUnmapRange_eq positive small ends, clearRun_withRun run.free]

theorem MappedRange.ne_zero (mapped : MappedRange pa n before va after) : va ≠ 0 := by
  rintro rfl
  exact absurd mapped.above (by decide)

/-- A call of `__i686_mp_map_range` maps the range or changes nothing. -/
theorem mapRange_cases (positive : 0 < n.toNat) (small : n.toNat < 2 ^ 31) (pa : Paddr)
    (state : State) :
    (∃ va table, MappedRange pa n state.table va table ∧
      mapRange pa n state = (va, { state with table := table })) ∨
      mapRange pa n state = (0, { state with allMapped := false }) := by
  rcases i686MpMapRange_cases positive small pa state.table with
    ⟨first, run, mapped⟩ | ⟨-, failed⟩
  · have range := mappedRange_withRun positive small run
    refine Or.inl ⟨_, _, range, ?_⟩
    simp only [mapRange, mapped, bne_iff_ne.mpr range.ne_zero, Bool.and_true]
  · right
    simp [mapRange, failed]

/-- If there is no free entry, then no range can be mapped. -/
theorem mapRange_of_full (positive : 0 < n.toNat) (small : n.toNat < 2 ^ 31)
    (full : ∀ first, ¬FreeRun state.table first 1) :
    mapRange pa n state = (0, { state with allMapped := false }) := by
  rcases i686MpMapRange_cases positive small pa state.table with
    ⟨first, run, -⟩ | ⟨-, failed⟩
  · have pages := @mappedPages_pos pa n positive small
    have ends := run.ends
    exact absurd ⟨run.begins, by omega, fun k inside => run.free k (by omega)⟩ (full first)
  · simp [mapRange, failed]

theorem MappedRange.translates_inside (mapped : MappedRange pa n before va after)
    (small : n.toNat < 2 ^ 31) (k : ℕ) (inside : k < n.toNat) :
    translate after (va + BitVec.ofNat 32 k) = some (pa + BitVec.ofNat 32 k) := by
  have pages := @toNat_mappedPages pa n small
  exact mapped.translates k (by omega)

/-- What is read where a part of the physical memory is mapped. -/
theorem shows_of_translates {count : ℕ} (ram : Ram)
    (translates : ∀ k < count,
      translate after (va + BitVec.ofNat 32 k) = some (pa + BitVec.ofNat 32 k)) :
    Shows (load ram after) va (stretch ram pa count) := by
  rw [shows_stretch]
  intro k inside
  rw [load, translates k inside]
  rfl

theorem MappedRange.shows (mapped : MappedRange pa n before va after) (ram : Ram)
    (small : n.toNat < 2 ^ 31) : Shows (load ram after) va (stretch ram pa n.toNat) :=
  shows_of_translates ram (mapped.translates_inside small)

/-- A translation stays if the entries that are not free stay. -/
theorem translate_of_keeps {place : Paddr} (translated : translate before va = some place)
    (keeps : ∀ slot, before slot ≠ 0 → after slot = before slot) :
    translate after va = some place := by
  have taken : before (slotOf va) ≠ 0 := by
    intro isFree
    rw [translate, isFree] at translated
    exact absurd translated (by simp)
  rw [translate, keeps _ taken]
  exact translated

end Mappings

/-- What a part of the search comes to: what it has found is what the areas hold, unless a
mapping has failed. -/
structure SearchResult (ram : Ram) (expected : Option Paddr) (start : State) (mp : Vaddr)
    (after : State) : Prop where
  readable : mp ≠ 0 → ∃ pa, Shows (load ram after.table) mp (stretch ram pa 16)
  found : after.allMapped = true → Found (load ram after.table) ram expected mp
  mapped : after.allMapped = true → start.allMapped = true

section Areas

variable {ram : Ram} {pa : Paddr} {state start after : State} {mp : Vaddr}

theorem mpsearch1_result {places : ℕ} (positive : 0 < places) (small : 16 * places < 2 ^ 31)
    (pa : Paddr) (state : State) :
    ∃ mp after, mpsearch1 ram pa (BitVec.ofNat 32 (16 * places)) state = some (mp, after) ∧
      SearchResult ram (mpPointerIn ram pa places) state mp after := by
  have length : (BitVec.ofNat 32 (16 * places)).toNat = 16 * places := by
    rw [BitVec.toNat_ofNat, Nat.mod_eq_of_lt (by omega)]
  rcases mapRange_cases (n := BitVec.ofNat 32 (16 * places)) (by omega) (by omega) pa state with
    ⟨ptr, table, mapped, result⟩ | failed
  · have shows := mapped.shows ram (by omega)
    have above := mapped.above
    have below := mapped.below
    rw [length] at shows below
    rcases @mpsearch2Loop_found _ _ _ _ _ (16 * places / 16 + 2) shows (by omega) (by omega)
      (by omega) with ⟨mp, search, found⟩
    rw [← length] at search
    simp only [mpsearch1, result, if_neg mapped.ne_zero, mpsearch2, length] at search ⊢
    rw [search]
    cases expected : mpPointerIn ram pa places with
    | none =>
        obtain rfl : mp = 0 := by rwa [expected] at found
        refine ⟨0, state, ?_, fun nonzero => absurd rfl nonzero, fun _ => rfl, id⟩
        simp [mapped.unmaps]
    | some place =>
        obtain ⟨nonzero, isShown⟩ : mp ≠ 0 ∧ Shows (load ram table) mp (stretch ram place 16) := by
          rwa [expected] at found
        refine ⟨mp, { state with
          table := table
          gMpptr := ptr
          gMplen := BitVec.ofNat 32 (16 * places) }, ?_, fun _ => ⟨place, isShown⟩,
          fun _ => ⟨nonzero, isShown⟩, id⟩
        exact if_neg nonzero
  · refine ⟨0, { state with allMapped := false }, ?_, fun nonzero => absurd rfl nonzero, ?_, ?_⟩
    · simp [mpsearch1, failed]
    · exact fun isMapped => absurd isMapped Bool.false_ne_true
    · exact fun isMapped => absurd isMapped Bool.false_ne_true

theorem SearchResult.of_unmapped {expected : Option Paddr} (unmapped : after.allMapped = false) :
    SearchResult ram expected start 0 after := by
  have never : after.allMapped ≠ true := by
    rw [unmapped]
    exact Bool.false_ne_true
  exact ⟨fun nonzero => absurd rfl nonzero, fun mapped => absurd mapped never,
    fun mapped => absurd mapped never⟩

/-- One search, and another if it has found nothing. -/
theorem SearchResult.orElse {expected others : Option Paddr}
    {one other : State → Option (Vaddr × State)}
    (first : ∃ mp after, one start = some (mp, after) ∧ SearchResult ram expected start mp after)
    (second : ∀ middle, ∃ mp after, other middle = some (mp, after) ∧
      SearchResult ram others middle mp after) :
    ∃ mp after,
      ((one start).bind fun found => if found.1 = 0 then other found.2 else some found) =
        some (mp, after) ∧
      SearchResult ram (expected.or others) start mp after := by
  rcases first with ⟨mp, middle, found, result⟩
  rw [found]
  by_cases nothing : mp = 0
  · rcases second middle with ⟨mp', after, isLater, later⟩
    subst mp
    refine ⟨mp', after, isLater, later.readable, ?_, ?_⟩
    · intro mapped
      have none := result.found (later.mapped mapped)
      cases expected with
      | none => exact later.found mapped
      | some pa => exact absurd rfl none.1
    · exact fun mapped => result.mapped (later.mapped mapped)
  · refine ⟨mp, middle, if_neg nothing, result.readable, ?_, result.mapped⟩
    intro mapped
    have isFound := result.found mapped
    cases expected with
    | none => exact absurd isFound nothing
    | some pa => exact isFound

theorem mpsearch1_of_full {n : BitVec 32} (positive : 0 < n.toNat) (small : n.toNat < 2 ^ 31)
    (full : ∀ first, ¬FreeRun state.table first 1) :
    mpsearch1 ram pa n state = some (0, { state with allMapped := false }) := by
  simp [mpsearch1, mapRange_of_full positive small full]

theorem i686GetMp_cases (ram : Ram) (table : KernelPageTable) :
    i686GetMp ram table = some (ebdaAddress ram, baseEnd ram, table) ∨
      (∀ first, ¬FreeRun table first 1) ∧ i686GetMp ram table = some (0, 0, table) := by
  have correct := mapPage_correct 0 table
  have noPage : pteAddr 0 = 0 := by decide
  by_cases failed : (mapPage 0 table).1 = 0
  · rcases correct.failure failed with ⟨same, full⟩
    right
    refine ⟨full, ?_⟩
    simp only [i686GetMp, failed, same, if_true]
  · rcases correct.success failed with ⟨-, translates, -, unmaps⟩
    have cell (k : ℕ) (inside : k < 3072) :
        load ram (mapPage 0 table).2 ((mapPage 0 table).1 + 0x400 + BitVec.ofNat 32 k) =
          some (ram (0x400 + BitVec.ofNat 32 k)) := by
      have translated := translates (0x400 + k) (by omega)
      rw [noPage, BitVec.ofNat_add, ← BitVec.add_assoc] at translated
      rw [load]
      exact (congrArg (Option.map ram) translated).trans
        (congrArg (some ∘ ram) (BitVec.zero_add _))
    have ebdaHigh : load ram (mapPage 0 table).2 ((mapPage 0 table).1 + 0x400 + 0x0f) =
      some (ram 0x40f) := cell 0x0f (by omega)
    have ebdaLow : load ram (mapPage 0 table).2 ((mapPage 0 table).1 + 0x400 + 0x0e) =
      some (ram 0x40e) := cell 0x0e (by omega)
    have baseHigh : load ram (mapPage 0 table).2 ((mapPage 0 table).1 + 0x400 + 0x14) =
      some (ram 0x414) := cell 0x14 (by omega)
    have baseLow : load ram (mapPage 0 table).2 ((mapPage 0 table).1 + 0x400 + 0x13) =
      some (ram 0x413) := cell 0x13 (by omega)
    left
    simp only [i686GetMp, if_neg failed, ebdaHigh, ebdaLow, baseHigh, baseLow, unmaps]
    rfl

theorem mpPointer_eq (ram : Ram) :
    mpPointer ram =
      (if ebdaAddress ram = 0 then none else mpPointerIn ram (ebdaAddress ram) 64).or
        ((if 1024 ≤ baseEnd ram then mpPointerIn ram (baseEnd ram - 1024) 64 else none).or
          (mpPointerIn ram 0xf0000 4096)) := by
  rw [mpPointer, mpAreas, List.append_assoc, List.findSome?_append, List.findSome?_append]
  split_ifs <;> simp

theorem mpsearchBase_eq (ram : Ram) (base : Paddr) (state : State) :
    mpsearchBase ram base state =
      if 1024 ≤ base then
        (mpsearch1 ram (base - 1024) 1024 state).bind fun found =>
          if found.1 = 0 then mpsearchRom ram found.2 else some found
      else mpsearchRom ram state :=
  rfl

theorem mpsearch_eq {ebda base : Paddr} (areas : i686GetMp ram state.table =
    some (ebda, base, state.table)) :
    mpsearch ram state =
      if ebda = 0 then mpsearchBase ram base state
      else (mpsearch1 ram ebda 1024 state).bind fun found =>
        if found.1 = 0 then mpsearchBase ram base found.2 else some found := by
  rw [mpsearch, areas]
  rfl

theorem mpsearchRom_result (ram : Ram) (state : State) :
    ∃ mp after, mpsearchRom ram state = some (mp, after) ∧
      SearchResult ram (mpPointerIn ram 0xf0000 4096) state mp after :=
  @mpsearch1_result ram 4096 (by omega) (by omega) 0xf0000 state

theorem mpsearchBase_result (ram : Ram) (base : Paddr) (state : State) :
    ∃ mp after, mpsearchBase ram base state = some (mp, after) ∧
      SearchResult ram ((if 1024 ≤ base then mpPointerIn ram (base - 1024) 64 else none).or
        (mpPointerIn ram 0xf0000 4096)) state mp after := by
  rw [mpsearchBase_eq]
  by_cases isHigh : 1024 ≤ base
  · rw [if_pos isHigh, if_pos isHigh]
    apply SearchResult.orElse
    · exact @mpsearch1_result ram 64 (by omega) (by omega) (base - 1024) state
    · exact mpsearchRom_result ram
  · rw [if_neg isHigh, if_neg isHigh, Option.none_or]
    exact mpsearchRom_result ram state

/-- `mpsearch` finds the MP floating pointer of the machine, unless a mapping fails. -/
theorem mpsearch_result (ram : Ram) (state : State) :
    ∃ mp after, mpsearch ram state = some (mp, after) ∧
      SearchResult ram (mpPointer ram) state mp after := by
  rcases i686GetMp_cases ram state.table with areas | ⟨full, areas⟩
  · rw [mpsearch_eq areas, mpPointer_eq]
    by_cases noEbda : ebdaAddress ram = 0
    · rw [if_pos noEbda, if_pos noEbda, Option.none_or]
      exact mpsearchBase_result ram (baseEnd ram) state
    · rw [if_neg noEbda, if_neg noEbda]
      apply SearchResult.orElse
      · exact @mpsearch1_result ram 64 (by omega) (by omega) (ebdaAddress ram) state
      · exact mpsearchBase_result ram (baseEnd ram)
  · refine ⟨0, { state with allMapped := false }, ?_, SearchResult.of_unmapped rfl⟩
    rw [mpsearch_eq areas, if_pos rfl, mpsearchBase_eq, if_neg (by decide)]
    exact mpsearch1_of_full (by decide) (by decide) full

end Areas

end Mp

end Rkernel
