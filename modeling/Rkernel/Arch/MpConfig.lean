import Rkernel.Arch.MpSearch

/-!
# The accepted configuration tables

`mpconfig` accepts the table that the MP floating pointer has the address of by its contents
alone. A table that ends behind the pages of its header is mapped and summed in two parts.
-/

open Stretch

namespace Rkernel

namespace Mp

section Specification

variable (ram : Ram) (pa : Paddr)

/-- `length` of a table. -/
def tableLength : ℕ :=
  (shortAt ram (pa + 4)).toNat

/-- A table that can be accepted. -/
structure Acceptable : Prop where
  signature : intAt ram pa = pcmpText
  version : ram (pa + 6) = 1 ∨ ram (pa + 6) = 4
  checksum : sumAt ram pa (tableLength ram pa) = 0

/-- The table that the MP floating pointer of the machine has the address of. -/
structure IsTable : Prop where
  pointed : ∃ mp, mpPointer ram = some mp ∧ intAt ram (mp + 4) = pa
  nonzero : pa ≠ 0

end Specification

/-- The cells that `mpinit` will walk: where each address from the body to its end leads to. -/
def bodyCells (state : State) : List (Option Paddr) :=
  (List.range ((state.gConfTableBody + state.gCblen).toNat - state.gConfTableBody.toNat)).map
    fun k => translate state.table (state.gConfTableBody + BitVec.ofNat 32 k)

/-- A table that has been accepted: its header is mapped at `conf`, and its body, if there is
one, at `g_conf_table_body`. -/
structure Configured (ram : Ram) (pa : Paddr) (conf : Vaddr) (after : State) : Prop where
  acceptable : Acceptable ram pa
  pointer : after.gCtptr = conf
  header : ∀ k < 44,
    translate after.table (conf + BitVec.ofNat 32 k) = some (pa + BitVec.ofNat 32 k)
  cblen : after.gCblen = (shortAt ram (pa + 4)).setWidth 32 - 44
  body : ∀ k < tableLength ram pa - 44,
    translate after.table (after.gConfTableBody + BitVec.ofNat 32 k) =
      some (pa + 44 + BitVec.ofNat 32 k)
  above : 44 ≤ after.gConfTableBody.toNat
  below : after.gConfTableBody.toNat + (tableLength ram pa - 44) ≤ 0xc1000000

/-- What `mpconfig` comes to with a table address. -/
structure ConfigResult (ram : Ram) (pa : Paddr) (wasMapped : Bool) (conf : Vaddr)
    (after : State) : Prop where
  configured : conf ≠ 0 → Configured ram pa conf after
  rejected : conf = 0 → after.allMapped = true → ¬Acceptable ram pa
  mapped : after.allMapped = true → wasMapped = true

section Config

variable {ram : Ram} {pa : Paddr} {conf : Vaddr} {before : KernelPageTable} {state after : State}

theorem ConfigResult.reject {wasMapped : Bool} (same : after.allMapped = wasMapped)
    (unacceptable : ¬Acceptable ram pa) : ConfigResult ram pa wasMapped 0 after := by
  refine ⟨fun nonzero => absurd rfl nonzero, fun _ _ => unacceptable, ?_⟩
  rw [same]
  exact id

theorem ConfigResult.of_unmapped {wasMapped : Bool} (unmapped : after.allMapped = false) :
    ConfigResult ram pa wasMapped 0 after := by
  have never : after.allMapped ≠ true := by
    rw [unmapped]
    exact Bool.false_ne_true
  exact ⟨fun nonzero => absurd rfl nonzero, fun _ mapped => absurd mapped never,
    fun mapped => absurd mapped never⟩

theorem toNat_length (length : BitVec 16) : (length.setWidth 32).toNat = length.toNat := by
  rw [BitVec.toNat_setWidth]
  exact Nat.mod_eq_of_lt (Nat.lt_trans length.isLt (by decide))

theorem toNat_endpage {va : Vaddr} {n : BitVec 32} (positive : 0 < va.toNat)
    (fits : va.toNat + n.toNat < 2 ^ 32) :
    (endpage va n).toNat = (va.toNat + n.toNat - 1) / 4096 * 4096 := by
  have one : (1 : BitVec 32).toNat = 1 := rfl
  have total : (va + n).toNat = va.toNat + n.toNat := by
    rw [BitVec.toNat_add]
    omega
  have last : (va + n - 1).toNat = va.toNat + n.toNat - 1 := by
    rw [BitVec.toNat_sub_of_le (BitVec.le_def.mpr (by rw [total, one]; omega)), total, one]
  rw [endpage, isLowMask_pageMask.toNat_and_not, last]
  rfl

/-- The test of `mpconfig`: the table ends behind the pages that are mapped for its header. -/
theorem endpage_lt_iff {table : KernelPageTable} (header : MappedRange pa 44 before conf table)
    (length : BitVec 16) :
    endpage conf 44 < endpage conf (length.setWidth 32) ↔
      (mappedPages pa 44).toNat * 4096 < pa.toNat % 4096 + length.toNat := by
  have size : (44 : BitVec 32).toNat = 44 := rfl
  have wide := toNat_length length
  have pages := @toNat_mappedPages pa 44 (by decide)
  have above := header.above
  have below := header.below
  have offset := header.offset
  rw [BitVec.lt_def, toNat_endpage (by omega) (by omega), toNat_endpage (by omega) (by omega),
    pages, wide, size]
  omega

theorem toNat_cblen {length : BitVec 16} (isLong : 44 ≤ length.toNat) :
    (length.setWidth 32 - 44).toNat = length.toNat - 44 := by
  have size : (44 : BitVec 32).toNat = 44 := rfl
  have wide := toNat_length length
  rw [BitVec.toNat_sub_of_le (BitVec.le_def.mpr (by rw [wide, size]; omega)), wide, size]

theorem byteSum_append (first second : List Byte) :
    byteSum (first ++ second) = byteSum first + byteSum second := by
  have start : byteSum first = byteSum first + 0 := (BitVec.add_zero _).symm
  rw [byteSum, List.foldl_append, ← byteSum, start, List.foldl_assoc, ← byteSum, ← start]

/-- The sum of a table in two parts. -/
theorem sumAt_add (ram : Ram) (pa : Paddr) {length : ℕ} (isLong : 44 ≤ length) :
    sumAt ram pa 44 + sumAt ram (pa + 44) (length - 44) = sumAt ram pa length := by
  have parts : length = 44 + (length - 44) := by omega
  have whole : stretch ram pa length =
      stretch ram pa 44 ++ stretch ram (pa + 44) (length - 44) := by
    conv_lhs => rw [parts, stretch_add]
    rfl
  rw [sumAt, sumAt, sumAt, whole, byteSum_append]

/-- `mpconfig` before its last `if`: the header is mapped and has passed the tests. -/
structure HeaderChecked (ram : Ram) (pa : Paddr) (before : KernelPageTable) (conf : Vaddr)
    (state : State) : Prop where
  header : MappedRange pa 44 before conf state.table
  pointer : state.gCtptr = conf
  cblen : state.gCblen = (shortAt ram (pa + 4)).setWidth 32 - 44
  signature : intAt ram pa = pcmpText
  version : ram (pa + 6) = 1 ∨ ram (pa + 6) = 4

/-- The branch for a table that ends behind the pages of its header. -/
theorem HeaderChecked.crossing (checked : HeaderChecked ram pa before conf state)
    (crosses : endpage conf 44 < endpage conf ((shortAt ram (pa + 4)).setWidth 32)) :
    ∃ result after,
      mpconfigBody ram pa conf ((shortAt ram (pa + 4)).setWidth 32) state = some (result, after) ∧
        ConfigResult ram pa state.allMapped result after := by
  have header := checked.header
  have small : tableLength ram pa < 2 ^ 16 := (shortAt ram (pa + 4)).isLt
  have isLong : 44 < tableLength ram pa := by
    have pages := @toNat_mappedPages pa 44 (by decide)
    have size : (44 : BitVec 32).toNat = 44 := rfl
    have behind : (mappedPages pa 44).toNat * 4096 < pa.toNat % 4096 + tableLength ram pa :=
      (endpage_lt_iff header _).mp crosses
    omega
  have bodyLength : state.gCblen.toNat = tableLength ram pa - 44 := by
    rw [checked.cblen]
    exact toNat_cblen (Nat.le_of_lt isLong)
  have headerMapped := header.translates_inside (by decide)
  have headerShown : Shows (load ram state.table) conf (stretch ram pa 44) :=
    header.shows ram (by decide)
  have headerSum : sum (load ram state.table) conf 44 = some (sumAt ram pa 44) :=
    sum_eq headerShown (length_stretch _).symm
  rcases mapRange_cases (n := state.gCblen) (by omega) (by omega) (pa + 44) state with
    ⟨body, table, mapped, result⟩ | failed
  · have bodyShown := mapped.shows ram (by omega)
    have bodySum : sum (load ram table) body state.gCblen =
        some (sumAt ram (pa + 44) (tableLength ram pa - 44)) := by
      rw [bodyLength] at bodyShown
      apply sum_eq bodyShown
      rw [length_stretch, ← bodyLength, BitVec.toInt_eq_toNat_of_lt (by omega)]
      rfl
    have total := sumAt_add ram pa (Nat.le_of_lt isLong)
    simp only [mpconfigBody, if_pos crosses, headerSum, result, if_neg mapped.ne_zero, bodySum,
      Option.bind_eq_bind, Option.bind_some, total]
    by_cases isZero : sumAt ram pa (tableLength ram pa) = 0
    · have above := mapped.above
      have below := mapped.below
      rw [if_neg (not_not.mpr isZero)]
      refine ⟨conf, _, rfl, ?_, fun isNull => absurd isNull header.ne_zero, id⟩
      intro _
      refine ⟨⟨checked.signature, checked.version, isZero⟩, checked.pointer, ?_, checked.cblen,
        ?_, ?_, ?_⟩
      · intro k inside
        exact translate_of_keeps (headerMapped k inside) mapped.keeps
      · intro k inside
        apply mapped.translates
        have pages := @toNat_mappedPages (pa + 44) state.gCblen (by omega)
        omega
      · exact Nat.le_trans (by omega) above
      · exact Nat.le_trans (Nat.add_le_add_left (Nat.le_of_eq bodyLength.symm) _) below
    · rw [if_pos isZero]
      exact ⟨0, _, rfl, ConfigResult.reject rfl fun acceptable => isZero acceptable.checksum⟩
  · simp only [mpconfigBody, if_pos crosses, headerSum, failed, Option.bind_eq_bind,
      Option.bind_some, if_true]
    exact ⟨0, _, rfl, ConfigResult.of_unmapped rfl⟩

/-- The branch for a table in the pages of its header. -/
theorem HeaderChecked.samePages (checked : HeaderChecked ram pa before conf state)
    (stays : ¬endpage conf 44 < endpage conf ((shortAt ram (pa + 4)).setWidth 32)) :
    ∃ result after,
      mpconfigBody ram pa conf ((shortAt ram (pa + 4)).setWidth 32) state = some (result, after) ∧
        ConfigResult ram pa state.allMapped result after := by
  have header := checked.header
  have above := header.above
  have below := header.below
  have size : (44 : BitVec 32).toNat = 44 := rfl
  have small : tableLength ram pa < 2 ^ 16 := (shortAt ram (pa + 4)).isLt
  have inPages : pa.toNat % 4096 + tableLength ram pa ≤ (mappedPages pa 44).toNat * 4096 :=
    Nat.le_of_not_lt fun behind => stays ((endpage_lt_iff header _).mpr behind)
  have shown : Shows (load ram state.table) conf (stretch ram pa (tableLength ram pa)) :=
    shows_of_translates ram fun k inside => header.translates k (by omega)
  have total : sum (load ram state.table) conf ((shortAt ram (pa + 4)).setWidth 32) =
      some (sumAt ram pa (tableLength ram pa)) := by
    apply sum_eq shown
    have wide : ((shortAt ram (pa + 4)).setWidth 32).toNat = tableLength ram pa :=
      toNat_length _
    rw [length_stretch, BitVec.toInt_eq_toNat_of_lt (by omega), wide]
    rfl
  simp only [mpconfigBody, if_neg stays, total, Option.bind_eq_bind, Option.bind_some]
  by_cases isZero : sumAt ram pa (tableLength ram pa) = 0
  · have behind : (conf + 44).toNat = conf.toNat + 44 := by
      rw [BitVec.toNat_add, size]
      omega
    rw [if_neg (not_not.mpr isZero)]
    refine ⟨conf, _, rfl, ?_, fun isNull => absurd isNull header.ne_zero, id⟩
    intro _
    refine ⟨⟨checked.signature, checked.version, isZero⟩, checked.pointer,
      header.translates_inside (by decide), checked.cblen, ?_, ?_, ?_⟩
    · intro k inside
      have translated := header.translates (44 + k) (by omega)
      rw [BitVec.ofNat_add, ← BitVec.add_assoc, ← BitVec.add_assoc] at translated
      exact translated
    · exact Nat.le_trans (by omega) (Nat.le_of_eq behind.symm)
    · have pages := @toNat_mappedPages pa 44 (by decide)
      have offset := header.offset
      simp only [behind]
      omega
  · rw [if_pos isZero]
    exact ⟨0, _, rfl, ConfigResult.reject rfl fun acceptable => isZero acceptable.checksum⟩

theorem mpconfigTable_result (ram : Ram) (pa : Paddr) (state : State) :
    ∃ result after, mpconfigTable ram pa state = some (result, after) ∧
      ConfigResult ram pa state.allMapped result after := by
  rcases mapRange_cases (n := 44) (by decide) (by decide) pa { state with gCtlen := 44 } with
    ⟨conf, table, header, result⟩ | failed
  · have shown : Shows (load ram table) conf (stretch ram pa 44) := header.shows ram (by decide)
    have text : getint (load ram table) conf = some (intAt ram pa) :=
      getint_eq (shown.take (by omega))
    have length : getshort (load ram table) (conf + 4) = some (shortAt ram (pa + 4)) :=
      getshort_eq (shown.part 4 2 (by omega))
    have version : load ram table (conf + 6) = some (ram (pa + 6)) :=
      shows_stretch.mp shown 6 (by omega)
    simp only [mpconfigTable, result, if_neg header.ne_zero, compare4, text, version, length,
      Option.bind_eq_bind, Option.bind_some, Option.pure_def]
    by_cases isText : intAt ram pa = pcmpText
    · by_cases isVersion : ram (pa + 6) = 1 ∨ ram (pa + 6) = 4
      · have checked : HeaderChecked ram pa state.table conf
            { state with
              table := table
              gCtptr := conf
              gCtlen := 44
              gCblen := (shortAt ram (pa + 4)).setWidth 32 - 44 } :=
          ⟨header, rfl, rfl, isText, isVersion⟩
        rw [if_neg (by simpa using isText), if_neg (by rwa [← not_or, not_not])]
        by_cases crosses : endpage conf 44 < endpage conf ((shortAt ram (pa + 4)).setWidth 32)
        · exact checked.crossing crosses
        · exact checked.samePages crosses
      · rw [if_neg (by simpa using isText), if_pos (not_or.mp isVersion)]
        exact ⟨0, _, rfl, ConfigResult.reject rfl fun acceptable => isVersion acceptable.version⟩
    · rw [if_pos (by simpa using isText)]
      exact ⟨0, _, rfl, ConfigResult.reject rfl fun acceptable => isText acceptable.signature⟩
  · simp only [mpconfigTable, failed, if_true]
    exact ⟨0, _, rfl, ConfigResult.of_unmapped rfl⟩

/-- What `mpconfig` comes to. -/
theorem mpconfig_result (ram : Ram) (start : State) :
    ∃ mp conf after, mpconfig ram start = some (mp, conf, after) ∧
      (conf ≠ 0 → ∃ pa, Configured ram pa conf after ∧
        (after.allMapped = true → IsTable ram pa)) ∧
      (conf = 0 → after.allMapped = true → ∀ pa, IsTable ram pa → ¬Acceptable ram pa) := by
  rcases mpsearch_result ram start with ⟨mp, middle, found, search⟩
  by_cases nothing : mp = 0
  · refine ⟨mp, 0, middle, ?_, fun nonzero => absurd rfl nonzero, ?_⟩
    · simp [mpconfig, found, nothing]
    · rintro - mapped pa ⟨⟨place, pointed, -⟩, -⟩
      have isFound := search.found mapped
      rw [pointed] at isFound
      exact absurd nothing isFound.1
  · rcases search.readable nothing with ⟨place, shown⟩
    have physaddr : getint (load ram middle.table) (mp + 4) = some (intAt ram (place + 4)) :=
      getint_eq (shown.part 4 4 (by omega))
    -- The loaded address is that of the machine's pointer, unless a mapping has failed.
    have isPointed (mapped : middle.allMapped = true) :
        ∃ pointer, mpPointer ram = some pointer ∧
          intAt ram (pointer + 4) = intAt ram (place + 4) := by
      have isFound := search.found mapped
      cases expected : mpPointer ram with
      | none =>
          rw [expected] at isFound
          exact absurd isFound nothing
      | some pointer =>
          rw [expected] at isFound
          have loaded := getint_eq (isFound.2.part 4 4 (by omega))
          exact ⟨pointer, rfl, Option.some_inj.mp (loaded.symm.trans physaddr)⟩
    by_cases isNull : intAt ram (place + 4) = 0
    · refine ⟨mp, 0, middle, ?_, fun nonzero => absurd rfl nonzero, ?_⟩
      · simp only [mpconfig, found, Option.bind_eq_bind, Option.bind_some, if_neg nothing, physaddr,
          if_pos isNull]
        rfl
      · rintro - mapped pa ⟨⟨pointer, pointed, isAddress⟩, nonzero⟩
        rcases isPointed mapped with ⟨other, same, isPlace⟩
        rw [pointed] at same
        cases same
        exact absurd (isAddress.symm.trans (isPlace.trans isNull)) nonzero
    · rcases mpconfigTable_result ram (intAt ram (place + 4)) middle with
        ⟨conf, after, configured, result⟩
      refine ⟨mp, conf, after, ?_, ?_, ?_⟩
      · simp only [mpconfig, found, Option.bind_eq_bind, Option.bind_some, if_neg nothing, physaddr,
          if_neg isNull, configured]
        rfl
      · intro nonzero
        exact ⟨_, result.configured nonzero,
          fun mapped => ⟨isPointed (result.mapped mapped), isNull⟩⟩
      · rintro isRejected mapped pa ⟨⟨pointer, pointed, isAddress⟩, -⟩
        rcases isPointed (result.mapped mapped) with ⟨other, same, isPlace⟩
        rw [pointed] at same
        cases same
        rw [← isAddress, isPlace]
        exact result.rejected isRejected mapped

theorem IsTable.unique {other : Paddr} (isTable : IsTable ram pa) (otherTable : IsTable ram other) :
    other = pa := by
  rcases isTable.pointed with ⟨pointer, pointed, isAddress⟩
  rcases otherTable.pointed with ⟨otherPointer, otherPointed, isOther⟩
  rw [pointed] at otherPointed
  cases otherPointed
  exact isOther.symm.trans isAddress

theorem toInt_cblen (length : BitVec 16) :
    (length.setWidth 32 - 44).toInt = (length.toNat : ℤ) - 44 := by
  have size : (44 : BitVec 32).toNat = 44 := rfl
  have wide := toNat_length length
  rw [BitVec.toInt_eq_toNat_cond, BitVec.toNat_sub, wide, size]
  split
  · omega
  · omega

/-- Where the body ends; a negative `g_cblen` leaves no byte of it. -/
theorem Configured.toNat_end (configured : Configured ram pa conf after) :
    (after.gConfTableBody + after.gCblen).toNat - after.gConfTableBody.toNat =
        tableLength ram pa - 44 ∧
      (after.gConfTableBody + after.gCblen).toNat ≤ 0xc1000000 := by
  have above := configured.above
  have below := configured.below
  have small : tableLength ram pa < 2 ^ 16 := (shortAt ram (pa + 4)).isLt
  by_cases isLong : 44 ≤ tableLength ram pa
  · have length : after.gCblen.toNat = tableLength ram pa - 44 := by
      rw [configured.cblen]
      exact toNat_cblen isLong
    rw [BitVec.toNat_add]
    omega
  · have size : (44 : BitVec 32).toNat = 44 := rfl
    have wide : ((shortAt ram (pa + 4)).setWidth 32).toNat = tableLength ram pa :=
      toNat_length _
    rw [configured.cblen, BitVec.toNat_add, BitVec.toNat_sub, wide, size]
    omega

theorem Configured.bodyCells_eq (configured : Configured ram pa conf after) :
    bodyCells after =
      (List.range (tableLength ram pa - 44)).map fun k => some (pa + 44 + BitVec.ofNat 32 k) := by
  rw [bodyCells, configured.toNat_end.1]
  apply List.map_congr_left
  intro k kMem
  exact configured.body k (List.mem_range.mp kMem)

end Config

/-- `mpconfig` returns, and unless a mapping fails it returns a table exactly if the machine's MP
floating pointer has the address of an acceptable one, wherever its pages end. The body then
consists of the bytes of the table from 44 on. -/
theorem mpconfig_accepts_iff (ram : Ram) (start : State) :
    ∃ mp conf after, mpconfig ram start = some (mp, conf, after) ∧
      (after.allMapped = true →
        (conf ≠ 0 ↔ ∃ pa, IsTable ram pa ∧ Acceptable ram pa) ∧
        (conf ≠ 0 → ∀ pa, IsTable ram pa →
          (∀ k < 44,
            translate after.table (conf + BitVec.ofNat 32 k) = some (pa + BitVec.ofNat 32 k)) ∧
          after.gCblen.toInt = (tableLength ram pa : ℤ) - 44 ∧
          bodyCells after = (List.range (tableLength ram pa - 44)).map
            fun k => some (pa + 44 + BitVec.ofNat 32 k))) := by
  rcases mpconfig_result ram start with ⟨mp, conf, after, result, accepted, rejected⟩
  refine ⟨mp, conf, after, result, fun mapped => ⟨⟨?_, ?_⟩, ?_⟩⟩
  · intro nonzero
    rcases accepted nonzero with ⟨pa, configured, isTable⟩
    exact ⟨pa, isTable mapped, configured.acceptable⟩
  · rintro ⟨pa, isTable, acceptable⟩ isNull
    exact rejected isNull mapped pa isTable acceptable
  · intro nonzero pa isTable
    rcases accepted nonzero with ⟨other, configured, otherTable⟩
    obtain rfl : other = pa := isTable.unique (otherTable mapped)
    refine ⟨configured.header, ?_, configured.bodyCells_eq⟩
    rw [configured.cblen]
    exact toInt_cblen _

section Firmware

/-- Some bytes with the byte at an index set so that they sum to 0. -/
def withChecksum (index : ℕ) (bytes : List Byte) : List Byte :=
  bytes.set index (bytes.getD index 0 - byteSum bytes)

/-- The bytes of an integer, the lowest byte first. -/
def int32Bytes (value : BitVec 32) : List Byte :=
  [value.setWidth 8, (value >>> 8).setWidth 8, (value >>> 16).setWidth 8,
    (value >>> 24).setWidth 8]

/-- A physical memory with an MP floating pointer at the EBDA and a table of version 4, whose
local APIC is at `0xfee00000`. -/
def firmware (pa : Paddr) (body : List Byte) : Ram :=
  let pointer := withChecksum 10 (int32Bytes mpText ++ int32Bytes pa ++ [1, 4, 0, 0, 0, 0, 0, 0])
  let length := BitVec.ofNat 16 (44 + body.length)
  let table := withChecksum 7 (int32Bytes pcmpText ++
    [length.setWidth 8, (length >>> 8).setWidth 8, 4, 0] ++ List.replicate 28 0 ++
      int32Bytes 0xfee00000 ++ List.replicate 4 0 ++ body)
  overwrite (overwrite (overwrite (fun _ => 0) 0x40e [0x00, 0x80]) 0x80000 pointer) pa table

/-- A table whose body crosses into the next page. -/
def crossingTable : Ram :=
  firmware 0x100fd0 [1, 0, 73, 83, 65, 32, 32, 32]

theorem mpconfig_accepts_iff_crossing :
    ∃ mp conf after,
      mpconfig crossingTable (initialState fun _ => 0) = some (mp, conf, after) ∧
      conf ≠ 0 ∧ after.gCbptr ≠ 0 ∧
      ∃ pa, IsTable crossingTable pa ∧ Acceptable crossingTable pa ∧
        bodyCells after = (List.range (tableLength crossingTable pa - 44)).map
          fun k => some (pa + 44 + BitVec.ofNat 32 k) := by
  have computed : (mpconfig crossingTable (initialState fun _ => 0)).map
      (fun found => (found.2.1 != 0, found.2.2.gCbptr != 0, found.2.2.allMapped)) =
        some (true, true, true) := by
    decide +kernel
  rcases mpconfig_accepts_iff crossingTable (initialState fun _ => 0) with
    ⟨mp, conf, after, result, accepts⟩
  rw [result] at computed
  simp only [Option.map_some, Option.some.injEq, Prod.mk.injEq, bne_iff_ne] at computed
  rcases computed with ⟨nonzero, second, mapped⟩
  rcases accepts mapped with ⟨accepted, body⟩
  rcases accepted.mp nonzero with ⟨pa, isTable, acceptable⟩
  exact ⟨mp, conf, after, result, nonzero, second, pa, isTable, acceptable,
    (body nonzero pa isTable).2.2⟩

end Firmware

end Mp

end Rkernel
