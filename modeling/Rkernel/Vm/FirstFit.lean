import Rkernel.Vm.RegionMapper

/-!
# First fit

`rm_insert` places an object at the least offset at which it has room, and fails only
where there is none. What counts as room is seen from the regions: the object ends before
a region begins, or begins where it has ended. For regions that are not empty this says
that the two do not overlap. An empty region still has a place, and the search does not
put an object across it.
-/

namespace Rkernel

/-- The object at this offset and the region do not reach across each other. -/
def RegionMapperObject.Apart (child : RegionMapperObject) (size offset : ℕ) : Prop :=
  offset + size ≤ child.rmoOffset.toNat ∨ child.finish ≤ offset

namespace RegionMapper

/-- An object of this size has room at the offset. -/
def RoomAt (rm : RegionMapper) (size : Vaddr) (offset : ℕ) : Prop :=
  offset + size.toNat ≤ rm.rmSize.toNat ∧
    ∀ child ∈ rm.rmChilds, child.Apart size.toNat offset

/-- The object at this offset has no address in common with any region. -/
def FreeAt (rm : RegionMapper) (size : Vaddr) (offset : ℕ) : Prop :=
  offset + size.toNat ≤ rm.rmSize.toNat ∧
    ∀ child ∈ rm.rmChilds, ∀ address,
      ¬(child.Covers address ∧ offset ≤ address ∧ address < offset + size.toNat)

/-- `rm_insert` succeeds exactly if there is a fitting offset, and then puts the object at the
least one, between the regions before and behind it. -/
structure InsertsFirst (rm : RegionMapper) (rmo : RegionMapperObject) (fits : ℕ → Prop) :
    Prop where
  complete : (rmInsert rm rmo).1 ≠ 0 ↔ ∃ offset, fits offset
  least : (rmInsert rm rmo).1 ≠ 0 → fits (rmInsert rm rmo).2.2.rmoOffset.toNat ∧
    ∀ offset, fits offset → (rmInsert rm rmo).2.2.rmoOffset.toNat ≤ offset
  linked : (rmInsert rm rmo).1 ≠ 0 → ∃ offset front back,
    (rmInsert rm rmo).2.2 = { rmo with rmoOffset := offset } ∧ rm.rmChilds = front ++ back ∧
    (rmInsert rm rmo).2.1 =
      { rm with rmChilds := front ++ { rmo with rmoOffset := offset } :: back } ∧
    (∀ child ∈ front, child.rmoOffset ≤ offset) ∧ ∀ child ∈ back, offset ≤ child.rmoOffset

end RegionMapper

theorem Spaced.of_pairwise {limit start : ℕ} {childs : List RegionMapperObject}
    (startLe : start ≤ limit) (begins : ∀ child ∈ childs, start ≤ child.rmoOffset.toNat)
    (inside : ∀ child ∈ childs, child.finish ≤ limit)
    (follow : childs.Pairwise fun left right => left.finish ≤ right.rmoOffset.toNat) :
    Spaced limit start childs := by
  induction childs generalizing start with
  | nil => exact startLe
  | cons first childs ih =>
      rw [List.pairwise_cons] at follow
      refine ⟨begins first List.mem_cons_self, ?_⟩
      apply ih (inside first List.mem_cons_self) follow.1
      · exact fun child childMem => inside child (List.mem_cons_of_mem _ childMem)
      · exact follow.2

section Loop

variable {rmSize start : Vaddr} {rmo : RegionMapperObject} {childs : List RegionMapperObject}

/-- Room among some of the regions, from an offset on. -/
def RoomFrom (limit size start : ℕ) (childs : List RegionMapperObject) (offset : ℕ) : Prop :=
  start ≤ offset ∧ offset + size ≤ limit ∧ ∀ child ∈ childs, child.Apart size offset

theorem roomFrom_cons_iff_of_touches {limit size start : ℕ} {other : RegionMapperObject}
    (begun : start ≤ other.rmoOffset.toNat) (touches : other.rmoOffset.toNat < start + size)
    (offset : ℕ) :
    RoomFrom limit size start (other :: childs) offset ↔
      RoomFrom limit size other.finish childs offset := by
  simp only [RoomFrom, List.mem_cons, forall_eq_or_imp, RegionMapperObject.Apart]
  constructor
  · rintro ⟨late, inside, apart, others⟩
    exact ⟨by omega, inside, others⟩
  · rintro ⟨late, inside, others⟩
    refine ⟨?_, inside, Or.inr late, others⟩
    simp only [RegionMapperObject.finish] at late
    omega

theorem roomFrom_start {limit size start : ℕ} {other : RegionMapperObject}
    (spaced : Spaced limit start (other :: childs))
    (fits : start + size ≤ other.rmoOffset.toNat) :
    RoomFrom limit size start (other :: childs) start := by
  have first := spaced.bounds List.mem_cons_self
  simp only [RegionMapperObject.finish] at first
  refine ⟨Nat.le_refl _, by omega, ?_⟩
  intro child childMem
  left
  rcases List.mem_cons.mp childMem with rfl | later
  · exact fits
  · have behind := (spaced.2.bounds later).1
    simp only [RegionMapperObject.finish] at behind
    omega

/-- The result of the search from `start` on. -/
inductive Searched (limit : ℕ) (rmo : RegionMapperObject) (start : ℕ)
    (childs : List RegionMapperObject) :
    Option (List RegionMapperObject × RegionMapperObject) → Prop where
  | full (noRoom : ∀ offset, ¬RoomFrom limit rmo.rmoSize.toNat start childs offset) :
      Searched limit rmo start childs none
  | placed (offset : Vaddr) (front back : List RegionMapperObject)
      (room : RoomFrom limit rmo.rmoSize.toNat start childs offset.toNat)
      (least : ∀ other, RoomFrom limit rmo.rmoSize.toNat start childs other →
        offset.toNat ≤ other)
      (split : childs = front ++ back) (before : ∀ child ∈ front, child.rmoOffset ≤ offset)
      (behind : ∀ child ∈ back, offset ≤ child.rmoOffset) :
      Searched limit rmo start childs
        (some (front ++ { rmo with rmoOffset := offset } :: back,
          { rmo with rmoOffset := offset }))

theorem Searched.skip {limit start : ℕ} {other : RegionMapperObject}
    {result : Option (List RegionMapperObject × RegionMapperObject)}
    (begun : start ≤ other.rmoOffset.toNat)
    (touches : other.rmoOffset.toNat < start + rmo.rmoSize.toNat)
    (searched : Searched limit rmo other.finish childs result) :
    Searched limit rmo start (other :: childs)
      (result.map fun found => (other :: found.1, found.2)) := by
  have sameRoom := @roomFrom_cons_iff_of_touches childs limit rmo.rmoSize.toNat start other begun
    touches
  cases searched with
  | full noRoom =>
      apply Searched.full
      intro offset room
      exact noRoom offset ((sameRoom offset).mp room)
  | placed offset front back room least split before behind =>
      apply Searched.placed offset (other :: front) back
      · exact (sameRoom _).mpr room
      · exact fun candidate candidateRoom => least candidate ((sameRoom _).mp candidateRoom)
      · rw [split, List.cons_append]
      · intro child childMem
        rcases List.mem_cons.mp childMem with rfl | later
        · have late := room.1
          simp only [RegionMapperObject.finish] at late
          rw [BitVec.le_def]
          omega
        · exact before child later
      · exact behind

theorem rmInsertLoop_searched (spaced : Spaced rmSize.toNat start.toNat childs)
    (noWrap : rmo.rmoSize.toNat + rmSize.toNat < 2 ^ 32) :
    Searched rmSize.toNat rmo start.toNat childs (rmInsertLoop rmSize rmo start childs) := by
  induction childs generalizing start with
  | nil =>
      have inside := spaced.start_le
      have wholeEnd : (start + rmo.rmoSize).toNat = start.toNat + rmo.rmoSize.toNat := by
        rw [BitVec.toNat_add]
        omega
      rw [rmInsertLoop]
      split
      · rename_i beyond
        rw [gt_iff_lt, BitVec.lt_def, wholeEnd] at beyond
        apply Searched.full
        rintro offset ⟨late, within, -⟩
        omega
      · rename_i within
        rw [gt_iff_lt, BitVec.not_lt, BitVec.le_def, wholeEnd] at within
        apply Searched.placed start [] []
        · exact ⟨Nat.le_refl _, within, by simp⟩
        · exact fun _ room => room.1
        · rfl
        · simp
        · simp
  | cons other childs ih =>
      have inside := spaced.start_le
      have otherFinish := RegionMapperObject.finish_toNat spaced.2.start_le
      have wholeEnd : (start + rmo.rmoSize).toNat = start.toNat + rmo.rmoSize.toNat := by
        rw [BitVec.toNat_add]
        omega
      rw [rmInsertLoop]
      split
      · rename_i touches
        rw [gt_iff_lt, BitVec.lt_def, wholeEnd] at touches
        have spacedBehind := spaced.2
        rw [← otherFinish] at spacedBehind
        have searched := ih spacedBehind
        rw [otherFinish] at searched
        exact searched.skip spaced.1 touches
      · rename_i apart
        rw [gt_iff_lt, BitVec.not_lt, BitVec.le_def, wholeEnd] at apart
        apply Searched.placed start [] (other :: childs)
        · exact roomFrom_start spaced apart
        · exact fun _ room => room.1
        · rfl
        · simp
        · intro child childMem
          exact BitVec.le_def.mpr (spaced.bounds childMem).1

end Loop

namespace RegionMapper

variable {rm : RegionMapper} {rmo : RegionMapperObject}

theorem WellSpaced.insertsFirst (spaced : rm.WellSpaced)
    (noWrap : rmo.rmoSize.toNat + rm.rmSize.toNat < 2 ^ 32) :
    rm.InsertsFirst rmo (rm.RoomAt rmo.rmoSize) := by
  have searched := @rmInsertLoop_searched rm.rmSize 0 rmo rm.rmChilds spaced noWrap
  have roomIff : ∀ offset, RoomFrom rm.rmSize.toNat rmo.rmoSize.toNat (0 : Vaddr).toNat
      rm.rmChilds offset ↔ rm.RoomAt rmo.rmoSize offset := by
    intro offset
    simp [RoomFrom, RoomAt]
  rcases rmInsert_cases rm rmo with ⟨failed, result⟩ | ⟨childs, placed, inserted, result⟩
  · rw [failed] at searched
    cases searched with
    | full noRoom =>
        refine ⟨?_, by simp [result], by simp [result]⟩
        simp only [result, ne_eq, not_true_eq_false, false_iff, not_exists]
        exact fun offset room => noRoom offset ((roomIff offset).mpr room)
  · rw [inserted] at searched
    cases searched with
    | placed offset front back room least split before behind =>
        refine ⟨?_, ?_, ?_⟩
        · simp only [result, ne_eq, reduceCtorEq, not_false_eq_true, true_iff]
          exact ⟨_, (roomIff _).mp room⟩
        · intro _
          rw [result]
          refine ⟨(roomIff _).mp room, ?_⟩
          exact fun other otherRoom => least other ((roomIff _).mpr otherRoom)
        · intro _
          rw [result]
          exact ⟨offset, front, back, rfl, split, rfl, before, behind⟩

theorem Layout.wellSpaced (layout : rm.Layout)
    (nonempty : ∀ child ∈ rm.rmChilds, child.rmoSize ≠ 0) : rm.WellSpaced := by
  have follow : rm.rmChilds.Pairwise fun left right => left.finish ≤ right.rmoOffset.toNat := by
    apply (layout.sorted.and layout.disjoint).imp_of_mem
    rintro left right - rightMem ⟨before, disjoint⟩
    have beforeNat := BitVec.le_def.mp before
    by_contra overlap
    have rightSize : right.rmoSize.toNat ≠ 0 := by
      intro isEmpty
      exact nonempty right rightMem (BitVec.eq_of_toNat_eq isEmpty)
    apply disjoint right.rmoOffset.toNat
    simp only [RegionMapperObject.Covers, RegionMapperObject.finish] at overlap ⊢
    omega
  exact Spaced.of_pairwise (Nat.zero_le _) (fun _ _ => Nat.zero_le _) layout.inside follow

theorem RoomAt.freeAt {size : Vaddr} {offset : ℕ} (room : rm.RoomAt size offset) :
    rm.FreeAt size offset := by
  refine ⟨room.1, ?_⟩
  rintro child childMem address ⟨covers, above, below⟩
  have apart := room.2 child childMem
  simp only [RegionMapperObject.Apart, RegionMapperObject.Covers] at apart covers
  omega

/-- A free place is one with room, unless nothing is to be placed. -/
theorem FreeAt.exists_roomAt {size : Vaddr} {offset : ℕ} (free : rm.FreeAt size offset)
    (nonempty : ∀ child ∈ rm.rmChilds, child.rmoSize ≠ 0) :
    ∃ earlier ≤ offset, rm.RoomAt size earlier := by
  by_cases noSize : size.toNat = 0
  · refine ⟨0, Nat.zero_le _, ?_, ?_⟩
    · omega
    · intro child _
      left
      omega
  · refine ⟨offset, Nat.le_refl _, free.1, ?_⟩
    intro child childMem
    have childSize : child.rmoSize.toNat ≠ 0 := by
      intro isEmpty
      exact nonempty child childMem (BitVec.eq_of_toNat_eq isEmpty)
    have atChild := free.2 child childMem child.rmoOffset.toNat
    have atObject := free.2 child childMem offset
    simp only [RegionMapperObject.Apart, RegionMapperObject.Covers,
      RegionMapperObject.finish] at atChild atObject ⊢
    omega

theorem InsertsFirst.imp {fits laxer : ℕ → Prop} (first : rm.InsertsFirst rmo fits)
    (weaker : ∀ offset, fits offset → laxer offset)
    (earlier : ∀ offset, laxer offset → ∃ other ≤ offset, fits other) :
    rm.InsertsFirst rmo laxer := by
  refine ⟨?_, ?_, first.linked⟩
  · rw [first.complete]
    constructor
    · rintro ⟨offset, fitting⟩
      exact ⟨offset, weaker offset fitting⟩
    · rintro ⟨offset, fitting⟩
      obtain ⟨other, _, fits⟩ := earlier offset fitting
      exact ⟨other, fits⟩
  · intro inserted
    have least := first.least inserted
    refine ⟨weaker _ least.1, ?_⟩
    intro offset fitting
    obtain ⟨other, otherLe, fits⟩ := earlier offset fitting
    exact Nat.le_trans (least.2 other fits) otherLe

/-- Among regions that follow each other, `rm_insert` is a complete first fit. If none of them
is empty, the places it chooses from are those that no region covers. -/
theorem rmInsert_insertsFirst (noWrap : rmo.rmoSize.toNat + rm.rmSize.toNat < 2 ^ 32) :
    (rm.WellSpaced → rm.InsertsFirst rmo (rm.RoomAt rmo.rmoSize)) ∧
      (rm.Layout → (∀ child ∈ rm.rmChilds, child.rmoSize ≠ 0) →
        rm.InsertsFirst rmo (rm.FreeAt rmo.rmoSize)) := by
  refine ⟨fun spaced => spaced.insertsFirst noWrap, ?_⟩
  intro layout nonempty
  apply ((layout.wellSpaced nonempty).insertsFirst noWrap).imp
  · exact fun _ room => room.freeAt
  · exact fun _ free => free.exists_roomAt nonempty

/-- Two regions of one page with a gap of one page between them. -/
def gapped : RegionMapper where
  rmChilds := [⟨0, 0x1000, 1, .dataspace⟩, ⟨0x2000, 0x1000, 2, .dataspace⟩]
  rmSize := 0x4000

theorem rmInsert_insertsFirst_gapped :
    gapped.WellSpaced ∧
      gapped.InsertsFirst ⟨0, 0x1000, 3, .dataspace⟩ (gapped.RoomAt 0x1000) ∧
      gapped.InsertsFirst ⟨0, 0x1000, 3, .dataspace⟩ (gapped.FreeAt 0x1000) := by
  have spaced : gapped.WellSpaced := by
    simp [WellSpaced, gapped, Spaced, RegionMapperObject.finish]
  have nonempty : ∀ child ∈ gapped.rmChilds, child.rmoSize ≠ 0 := by decide
  have first := @rmInsert_insertsFirst gapped ⟨0, 0x1000, 3, .dataspace⟩ (by decide)
  exact ⟨spaced, first.1 spaced, first.2 spaced.layout nonempty⟩

/-- An empty region in the middle of the mapper. -/
def emptyRegion : RegionMapper where
  rmChilds := [⟨0x1000, 0, 1, .dataspace⟩]
  rmSize := 0x2000

/-- The whole mapper is free, and an object of its size is rejected. -/
theorem not_insertsFirst_emptyRegion :
    emptyRegion.Layout ∧ (0x2000 : Vaddr).toNat + emptyRegion.rmSize.toNat < 2 ^ 32 ∧
      ¬emptyRegion.InsertsFirst ⟨0, 0x2000, 2, .dataspace⟩ (emptyRegion.FreeAt 0x2000) := by
  refine ⟨?_, by decide, ?_⟩
  · refine ⟨by simp [emptyRegion], by simp [emptyRegion], ?_⟩
    simp [emptyRegion, RegionMapperObject.finish]
  · intro first
    have free : emptyRegion.FreeAt 0x2000 0 := by
      refine ⟨by decide, ?_⟩
      simp only [emptyRegion, List.mem_singleton, forall_eq, RegionMapperObject.Covers,
        RegionMapperObject.finish]
      rintro address ⟨⟨above, below⟩, -⟩
      have noSize : (0 : Vaddr).toNat = 0 := rfl
      omega
    exact first.complete.mpr ⟨0, free⟩ (by decide)

end RegionMapper

end Rkernel
