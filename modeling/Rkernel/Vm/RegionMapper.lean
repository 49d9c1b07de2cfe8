import Rkernel.Arch.Mmu
import Mathlib.Data.List.Induction
import Mathlib.Data.List.Pairwise

/-!
# Region mappers

A region mapper (`vm/region_mapper.c`) keeps a list of regions, each with an
offset, a size and an object that backs it. `rm_insert` is a first-fit search over
that list in 32-bit arithmetic.

`Spaced` is the layout the search relies on: every region ends before the next
one begins, and the last one inside the mapper. The search keeps it as long as no
end address it compares has wrapped around. `FitsWithoutWrap` says which sizes that
is true of: an end address that has wrapped is small and passes every test, so the
region is then placed across the end of the address space.
-/

namespace Rkernel

inductive RmoType where
  | undefined
  | dataspace
  | regionMapper
  deriving DecidableEq

/-- `struct region_mapper_object`; `rmoObject` is an address, null as zero. -/
structure RegionMapperObject where
  rmoOffset : Vaddr
  rmoSize : Vaddr
  rmoObject : ℕ
  rmoType : RmoType
  deriving DecidableEq

/-- `struct region_mapper`, with its children in list order. -/
structure RegionMapper where
  rmChilds : List RegionMapperObject
  rmSize : Vaddr

def rmConstruct (size : Vaddr) : RegionMapper where
  rmChilds := []
  rmSize := size

/-- The loop of `rm_insert` from `begin` and the remaining children on; no result is the
return value 0, otherwise the new list and the object with its offset. -/
def rmInsertLoop (rmSize : Vaddr) (rmo : RegionMapperObject) :
    Vaddr → List RegionMapperObject → Option (List RegionMapperObject × RegionMapperObject)
  | start, [] =>
      if start + rmo.rmoSize > rmSize then none
      else some ([{ rmo with rmoOffset := start }], { rmo with rmoOffset := start })
  | start, other :: childs =>
      if start + rmo.rmoSize > other.rmoOffset then
        (rmInsertLoop rmSize rmo (other.rmoOffset + other.rmoSize) childs).map
          fun found => (other :: found.1, found.2)
      else
        some ({ rmo with rmoOffset := start } :: other :: childs, { rmo with rmoOffset := start })

/-- `rm_insert`: the status, the mapper and the object afterwards. -/
def rmInsert (rm : RegionMapper) (rmo : RegionMapperObject) :
    ℤ × RegionMapper × RegionMapperObject :=
  match rmInsertLoop rm.rmSize rmo 0 rm.rmChilds with
  | none => (0, rm, rmo)
  | some (childs, placed) => (-1, { rm with rmChilds := childs }, placed)

namespace RegionMapperObject

/-- The address behind a region, as a natural number. -/
def finish (rmo : RegionMapperObject) : ℕ :=
  rmo.rmoOffset.toNat + rmo.rmoSize.toNat

/-- An offset inside a region. -/
def Covers (rmo : RegionMapperObject) (offset : ℕ) : Prop :=
  rmo.rmoOffset.toNat ≤ offset ∧ offset < rmo.finish

end RegionMapperObject

/-- The layout of a region mapper: sorted, pairwise disjoint and inside the mapper. -/
structure RegionMapper.Layout (rm : RegionMapper) : Prop where
  sorted : rm.rmChilds.Pairwise fun left right => left.rmoOffset ≤ right.rmoOffset
  disjoint : rm.rmChilds.Pairwise fun left right =>
    ∀ offset, ¬(left.Covers offset ∧ right.Covers offset)
  inside : ∀ child ∈ rm.rmChilds, child.finish ≤ rm.rmSize.toNat

/-- Regions that follow each other from `start` on and end before `limit`. -/
def Spaced (limit : ℕ) : ℕ → List RegionMapperObject → Prop
  | start, [] => start ≤ limit
  | start, child :: childs =>
      start ≤ child.rmoOffset.toNat ∧ Spaced limit child.finish childs

def RegionMapper.WellSpaced (rm : RegionMapper) : Prop :=
  Spaced rm.rmSize.toNat 0 rm.rmChilds

/-- The size fits in front of one of the regions that follow `start`, or behind all of
them without leaving 32 bits. -/
def FitsFrom (size : ℕ) : ℕ → List RegionMapperObject → Prop
  | start, [] => start + size < 2 ^ 32
  | start, child :: childs =>
      start + size ≤ child.rmoOffset.toNat ∨ FitsFrom size child.finish childs

def RegionMapper.FitsWithoutWrap (rm : RegionMapper) (size : Vaddr) : Prop :=
  FitsFrom size.toNat 0 rm.rmChilds

section Spaced

variable {limit start : ℕ} {childs : List RegionMapperObject}

theorem Spaced.start_le (spaced : Spaced limit start childs) : start ≤ limit := by
  induction childs generalizing start with
  | nil => exact spaced
  | cons child childs ih =>
      have behind := ih spaced.2
      have first := spaced.1
      simp only [RegionMapperObject.finish] at behind
      omega

theorem Spaced.bounds (spaced : Spaced limit start childs) {child : RegionMapperObject}
    (childMem : child ∈ childs) : start ≤ child.rmoOffset.toNat ∧ child.finish ≤ limit := by
  induction childs generalizing start with
  | nil => simp at childMem
  | cons first childs ih =>
      rw [List.mem_cons] at childMem
      rcases childMem with rfl | later
      · exact ⟨spaced.1, spaced.2.start_le⟩
      · have bounds := ih spaced.2 later
        have begins := spaced.1
        simp only [RegionMapperObject.finish] at bounds ⊢
        omega

theorem Spaced.pairwise (spaced : Spaced limit start childs) :
    childs.Pairwise fun left right => left.finish ≤ right.rmoOffset.toNat := by
  induction childs generalizing start with
  | nil => exact List.Pairwise.nil
  | cons first childs ih =>
      refine List.pairwise_cons.mpr ⟨?_, ih spaced.2⟩
      intro later laterMem
      exact (spaced.2.bounds laterMem).1

theorem RegionMapper.WellSpaced.layout {rm : RegionMapper} (spaced : rm.WellSpaced) :
    rm.Layout := by
  refine ⟨?_, ?_, fun child childMem => (Spaced.bounds spaced childMem).2⟩
  · apply (Spaced.pairwise spaced).imp
    intro left right before
    simp only [RegionMapperObject.finish] at before
    rw [BitVec.le_def]
    omega
  · apply (Spaced.pairwise spaced).imp
    rintro left right before offset ⟨inLeft, inRight⟩
    simp only [RegionMapperObject.Covers] at inLeft inRight
    omega

end Spaced

section Insert

variable {rmSize start : Vaddr} {rmo placed : RegionMapperObject}
  {childs found : List RegionMapperObject}

theorem RegionMapperObject.finish_toNat {child : RegionMapperObject} {limit : Vaddr}
    (fits : child.finish ≤ limit.toNat) :
    (child.rmoOffset + child.rmoSize).toNat = child.finish := by
  have := limit.isLt
  simp only [RegionMapperObject.finish] at fits ⊢
  rw [BitVec.toNat_add]
  omega

theorem FitsFrom.lt {size start : ℕ} (spaced : Spaced rmSize.toNat start childs)
    (fits : FitsFrom size start childs) : start + size < 2 ^ 32 := by
  induction childs generalizing start with
  | nil => exact fits
  | cons other childs ih =>
      have := other.rmoOffset.isLt
      rcases fits with here | behind
      · omega
      · have := ih spaced.2 behind
        have := spaced.1
        simp only [RegionMapperObject.finish] at *
        omega

theorem FitsFrom.toNat_add (spaced : Spaced rmSize.toNat start.toNat childs)
    (fits : FitsFrom rmo.rmoSize.toNat start.toNat childs) :
    (start + rmo.rmoSize).toNat = start.toNat + rmo.rmoSize.toNat := by
  have := fits.lt spaced
  rw [BitVec.toNat_add]
  omega

theorem rmInsertLoop_spaced (spaced : Spaced rmSize.toNat start.toNat childs)
    (fits : FitsFrom rmo.rmoSize.toNat start.toNat childs)
    (inserted : rmInsertLoop rmSize rmo start childs = some (found, placed)) :
    Spaced rmSize.toNat start.toNat found := by
  induction childs generalizing start found with
  | nil =>
      simp only [rmInsertLoop] at inserted
      split at inserted
      · simp at inserted
      · rename_i inside
        simp only [Option.some.injEq, Prod.mk.injEq] at inserted
        rw [gt_iff_lt, BitVec.not_lt, BitVec.le_def, fits.toNat_add spaced] at inside
        rw [← inserted.1]
        exact ⟨Nat.le_refl _, inside⟩
  | cons other childs ih =>
      have otherFinish := RegionMapperObject.finish_toNat spaced.2.start_le
      have wholeEnd := fits.toNat_add spaced
      simp only [rmInsertLoop] at inserted
      split at inserted
      · rename_i touches
        rcases Option.map_eq_some_iff.mp inserted with ⟨⟨rest, again⟩, searched, renamed⟩
        simp only [Prod.mk.injEq] at renamed
        rcases renamed with ⟨rfl, rfl⟩
        rw [gt_iff_lt, BitVec.lt_def, wholeEnd] at touches
        have fitsBehind := fits.resolve_left (by omega)
        have spacedBehind := spaced.2
        refine ⟨spaced.1, ?_⟩
        rw [← otherFinish] at fitsBehind spacedBehind ⊢
        exact ih spacedBehind fitsBehind searched
      · rename_i apart
        simp only [Option.some.injEq, Prod.mk.injEq] at inserted
        rw [gt_iff_lt, BitVec.not_lt, BitVec.le_def, wholeEnd] at apart
        rw [← inserted.1]
        exact ⟨Nat.le_refl _, apart, spaced.2⟩

/-- Where nothing fits, the first end address that wraps around passes the test. -/
theorem rmInsertLoop_of_not_fits (spaced : Spaced rmSize.toNat start.toNat childs)
    (tooLarge : ¬FitsFrom rmo.rmoSize.toNat start.toNat childs) :
    ∃ found placed, rmInsertLoop rmSize rmo start childs = some (found, placed) ∧
      placed ∈ found ∧ 2 ^ 32 ≤ placed.finish := by
  have sizeLt := rmo.rmoSize.isLt
  have startLt := start.isLt
  induction childs generalizing start with
  | nil =>
      have wraps : 2 ^ 32 ≤ start.toNat + rmo.rmoSize.toNat := by
        simpa [FitsFrom] using tooLarge
      have inside : ¬start + rmo.rmoSize > rmSize := by
        have room : start.toNat ≤ rmSize.toNat := spaced
        rw [gt_iff_lt, BitVec.not_lt, BitVec.le_def, BitVec.toNat_add]
        omega
      refine ⟨_, _, if_neg inside, List.mem_singleton_self _, wraps⟩
  | cons other childs ih =>
      simp only [FitsFrom, not_or] at tooLarge
      have otherFinish := RegionMapperObject.finish_toNat spaced.2.start_le
      by_cases wraps : 2 ^ 32 ≤ start.toNat + rmo.rmoSize.toNat
      · have apart : ¬start + rmo.rmoSize > other.rmoOffset := by
          have room := spaced.1
          rw [gt_iff_lt, BitVec.not_lt, BitVec.le_def, BitVec.toNat_add]
          omega
        exact ⟨_, _, if_neg apart, List.mem_cons_self, wraps⟩
      · have touches : start + rmo.rmoSize > other.rmoOffset := by
          rw [gt_iff_lt, BitVec.lt_def, BitVec.toNat_add]
          omega
        have spacedBehind := spaced.2
        have tooLargeBehind := tooLarge.2
        rw [← otherFinish] at spacedBehind tooLargeBehind
        obtain ⟨found, placed, searched, placedMem, beyond⟩ :=
          ih spacedBehind tooLargeBehind (BitVec.isLt _)
        refine ⟨other :: found, placed, ?_, List.mem_cons_of_mem _ placedMem, beyond⟩
        rw [rmInsertLoop, if_pos touches, searched]
        rfl

end Insert

namespace RegionMapper

variable {rm : RegionMapper} {rmo : RegionMapperObject}

/-- One call keeps the layout, and one that returns 0 changes nothing. -/
structure InsertCorrect (rm : RegionMapper) (rmo : RegionMapperObject) : Prop where
  layout : (rmInsert rm rmo).2.1.Layout
  rejected : (rmInsert rm rmo).1 = 0 → (rmInsert rm rmo).2 = (rm, rmo)

theorem rmInsert_cases (rm : RegionMapper) (rmo : RegionMapperObject) :
    (rmInsertLoop rm.rmSize rmo 0 rm.rmChilds = none ∧ rmInsert rm rmo = (0, rm, rmo)) ∨
      ∃ childs placed, rmInsertLoop rm.rmSize rmo 0 rm.rmChilds = some (childs, placed) ∧
        rmInsert rm rmo = (-1, { rm with rmChilds := childs }, placed) := by
  unfold rmInsert
  split
  · exact Or.inl ⟨by assumption, rfl⟩
  · exact Or.inr ⟨_, _, by assumption, rfl⟩

theorem rmInsert_rejected (failed : (rmInsert rm rmo).1 = 0) : (rmInsert rm rmo).2 = (rm, rmo) := by
  rcases rmInsert_cases rm rmo with ⟨_, result⟩ | ⟨childs, placed, _, result⟩
  · rw [result]
  · simp [result] at failed

theorem rmInsert_wellSpaced (spaced : rm.WellSpaced) (fits : rm.FitsWithoutWrap rmo.rmoSize) :
    (rmInsert rm rmo).2.1.WellSpaced := by
  rcases rmInsert_cases rm rmo with ⟨_, result⟩ | ⟨childs, placed, inserted, result⟩
  · rw [result]
    exact spaced
  · rw [result]
    exact @rmInsertLoop_spaced _ 0 _ _ _ _ spaced fits inserted

theorem rmInsert_fits (spaced : rm.WellSpaced) (correct : rm.InsertCorrect rmo) :
    rm.FitsWithoutWrap rmo.rmoSize := by
  by_contra tooLarge
  obtain ⟨found, placed, inserted, placedMem, beyond⟩ :=
    @rmInsertLoop_of_not_fits _ 0 _ _ spaced tooLarge
  have layout := correct.layout
  simp only [rmInsert, inserted] at layout
  have inside := layout.inside placed placedMem
  have := rm.rmSize.isLt
  simp only at inside
  omega

/-- The mapper after a sequence of calls. -/
def afterInserts (rm : RegionMapper) (rmos : List RegionMapperObject) : RegionMapper :=
  rmos.foldl (fun rm rmo => (rmInsert rm rmo).2.1) rm

/-- Every call of a sequence on a new mapper is correct. -/
def RunCorrect (size : Vaddr) (rmos : List RegionMapperObject) : Prop :=
  (rmConstruct size).Layout ∧ ∀ front rmo back, rmos = front ++ rmo :: back →
    ((rmConstruct size).afterInserts front).InsertCorrect rmo

theorem rmConstruct_wellSpaced (size : Vaddr) : (rmConstruct size).WellSpaced :=
  Nat.zero_le _

theorem afterInserts_wellSpaced {size : Vaddr} {rmos : List RegionMapperObject}
    (steps : ∀ front rmo back, rmos = front ++ rmo :: back →
      ((rmConstruct size).afterInserts front).WellSpaced →
        ((rmConstruct size).afterInserts front).FitsWithoutWrap rmo.rmoSize) :
    ((rmConstruct size).afterInserts rmos).WellSpaced := by
  induction rmos using List.reverseRecOn with
  | nil => exact rmConstruct_wellSpaced size
  | append_singleton rmos rmo ih =>
      have spaced := ih fun front earlier back split =>
        steps front earlier (back ++ [rmo]) (by rw [split, List.append_assoc, List.cons_append])
      rw [afterInserts, List.foldl_append]
      exact rmInsert_wellSpaced spaced (steps rmos rmo [] rfl spaced)

/-- A sequence of insertions keeps the layout exactly as long as no call has a size whose
search runs over the end of the 32-bit address space. -/
theorem runCorrect_iff (size : Vaddr) (rmos : List RegionMapperObject) :
    RunCorrect size rmos ↔ ∀ front rmo back, rmos = front ++ rmo :: back →
      ((rmConstruct size).afterInserts front).FitsWithoutWrap rmo.rmoSize := by
  constructor
  · rintro ⟨_, correct⟩ front rmo back rfl
    refine rmInsert_fits (afterInserts_wellSpaced ?_) (correct front rmo back rfl)
    rintro earlier other between rfl spaced
    exact rmInsert_fits spaced (correct earlier other (between ++ rmo :: back) (by simp))
  · intro fits
    refine ⟨(rmConstruct_wellSpaced size).layout, ?_⟩
    rintro front rmo back rfl
    have spaced : ((rmConstruct size).afterInserts front).WellSpaced := by
      apply afterInserts_wellSpaced
      rintro earlier other between rfl -
      exact fits earlier other (between ++ rmo :: back) (by simp)
    exact ⟨(rmInsert_wellSpaced spaced (fits front rmo back rfl)).layout, rmInsert_rejected⟩

/-- Behind a child of one page, a size that wraps around is placed all the same. -/
theorem not_runCorrect_wrapping :
    ¬RunCorrect 0xffffffff
      [⟨0, 0x1000, 1, .dataspace⟩, ⟨0, 0xfffff800, 2, .dataspace⟩] := by
  rintro ⟨_, correct⟩
  have layout := (correct [⟨0, 0x1000, 1, .dataspace⟩] ⟨0, 0xfffff800, 2, .dataspace⟩ [] rfl).layout
  have inside := layout.inside ⟨0x1000, 0xfffff800, 2, .dataspace⟩ (by decide)
  revert inside
  decide

end RegionMapper

end Rkernel
