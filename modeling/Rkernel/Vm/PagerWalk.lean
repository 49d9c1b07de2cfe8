import Rkernel.Vm.Pager

/-!
# Where a page fault leads

The search of `rm_ll_lookup` finds the first region that holds the fault address,
provided no region before it begins behind the address. On a tree of region
mappers with the layout of the interface this is the only region that covers the
address, and `rm_pagefault` follows these regions down to a dataspace.

Where no dataspace covers the address, the search returns a null object and leaves
the type as it is. The dispatcher answers `VM_AGAIN` all the same, and the next
iteration searches the null object.
-/

namespace Rkernel

/-- The test of `rm_ll_lookup`: the region covers the offset, and its end address is not
wrapped. -/
def RegionMapperObject.Holds (object : RegionMapperObject) (offset : ℕ) : Prop :=
  object.Covers offset ∧ object.finish < 2 ^ 32

/-- The region at which the search for an offset stops. -/
inductive Hit (offset : ℕ) : List RegionMapperObject → RegionMapperObject → Prop where
  | here {object : RegionMapperObject} {childs : List RegionMapperObject}
      (holds : object.Holds offset) : Hit offset (object :: childs) object
  | later {first object : RegionMapperObject} {childs : List RegionMapperObject}
      (begun : first.rmoOffset.toNat ≤ offset) (passed : ¬first.Holds offset)
      (hit : Hit offset childs object) : Hit offset (first :: childs) object

namespace Hit

variable {offset : ℕ} {childs : List RegionMapperObject} {object other : RegionMapperObject}

theorem mem (hit : Hit offset childs object) : object ∈ childs := by
  induction hit with
  | here _ => exact List.mem_cons_self
  | later _ _ _ ih => exact List.mem_cons_of_mem _ ih

theorem holds (hit : Hit offset childs object) : object.Holds offset := by
  induction hit with
  | here holds => exact holds
  | later _ _ _ ih => exact ih

theorem unique (hit : Hit offset childs object) (again : Hit offset childs other) :
    object = other := by
  induction hit with
  | here holds =>
      cases again with
      | here _ => rfl
      | later _ passed _ => exact absurd holds passed
  | later _ passed _ ih =>
      cases again with
      | here holds => exact absurd holds passed
      | later _ _ hit => exact ih hit

theorem of_mem
    (sorted : childs.Pairwise fun left right => left.rmoOffset ≤ right.rmoOffset)
    (disjoint : childs.Pairwise fun left right =>
      ∀ offset, ¬(left.Covers offset ∧ right.Covers offset))
    (objectMem : object ∈ childs) (holds : object.Holds offset) : Hit offset childs object := by
  induction childs with
  | nil => simp at objectMem
  | cons first childs ih =>
      rw [List.pairwise_cons] at sorted disjoint
      rw [List.mem_cons] at objectMem
      rcases objectMem with rfl | later
      · exact Hit.here holds
      · apply Hit.later
        · exact Nat.le_trans (BitVec.le_def.mp (sorted.1 object later)) holds.1.1
        · intro firstHolds
          exact disjoint.1 object later offset ⟨firstHolds.1, holds.1⟩
        · exact ih sorted.2 disjoint.2 later

end Hit

theorem RegionMapper.Layout.hit_iff {rm : RegionMapper} (layout : rm.Layout)
    {object : RegionMapperObject} {offset : ℕ} :
    Hit offset rm.rmChilds object ↔ object ∈ rm.rmChilds ∧ object.Covers offset := by
  constructor
  · intro hit
    exact ⟨hit.mem, hit.holds.1⟩
  · rintro ⟨objectMem, covers⟩
    have finishLe := layout.inside object objectMem
    have sizeLt := rm.rmSize.isLt
    exact Hit.of_mem layout.sorted layout.disjoint objectMem ⟨covers, by omega⟩

section Lookup

variable {fault : PageFault} {type : RmoType} {object : RegionMapperObject}

theorem RegionMapperObject.holds_iff (object : RegionMapperObject) (ptr : Vaddr) :
    object.Holds ptr.toNat ↔
      ¬ptr < object.rmoOffset ∧ ptr < object.rmoOffset + object.rmoSize := by
  have := ptr.isLt
  have := object.rmoOffset.isLt
  have := object.rmoSize.isLt
  simp only [Holds, Covers, finish, BitVec.lt_def, BitVec.toNat_add]
  omega

theorem rmLlLookupLoop_hit {childs : List RegionMapperObject}
    (hit : Hit fault.ptr.toNat childs object) (defined : object.rmoType ≠ .undefined) :
    rmLlLookupLoop fault type childs = (object.rmoObject, fault.enter object, object.rmoType) := by
  induction hit with
  | here holds =>
      rw [RegionMapperObject.holds_iff] at holds
      rw [rmLlLookupLoop, if_neg holds.1, if_pos holds.2, if_neg defined]
  | later begun passed _ ih =>
      rw [RegionMapperObject.holds_iff] at passed
      have notBelow := BitVec.not_lt.mpr (BitVec.le_def.mpr begun)
      rw [rmLlLookupLoop, if_neg notBelow, if_neg fun inside => passed ⟨notBelow, inside⟩]
      exact ih defined

theorem rmLlLookupLoop_miss {childs : List RegionMapperObject}
    (miss : ∀ object, Hit fault.ptr.toNat childs object → object.rmoType = .undefined) :
    rmLlLookupLoop fault type childs = (0, fault, type) := by
  induction childs with
  | nil => rfl
  | cons first childs ih =>
      rw [rmLlLookupLoop]
      split
      · rfl
      · rename_i notBelow
        split
        · rename_i inside
          rw [if_pos (miss first (Hit.here ((first.holds_iff fault.ptr).mpr ⟨notBelow, inside⟩)))]
        · rename_i outside
          apply ih
          intro object hit
          refine miss object (Hit.later ?_ ?_ hit)
          · exact BitVec.le_def.mp (BitVec.not_lt.mp notBelow)
          · rw [first.holds_iff]
            exact fun holds => outside holds.2

end Lookup

/-- A tree of region mappers with the layout of the interface and without null objects; the
predicate is inductive, so that no mapper contains itself. -/
inductive MapperTree (store : VmStore) : ℕ → Prop where
  | node {rm : ℕ} (nonNull : rm ≠ 0) (layout : (store.rms rm).Layout)
      (dataspaces : ∀ object ∈ (store.rms rm).rmChilds,
        object.rmoType = .dataspace → object.rmoObject ≠ 0)
      (mappers : ∀ object ∈ (store.rms rm).rmChilds,
        object.rmoType = .regionMapper → MapperTree store object.rmoObject) :
      MapperTree store rm

/-- A dataspace below the mapper covers the offset. -/
inductive Covered (store : VmStore) : ℕ → ℕ → Prop where
  | dataspace {rm offset : ℕ} {object : RegionMapperObject}
      (objectMem : object ∈ (store.rms rm).rmChilds) (covers : object.Covers offset)
      (isDataspace : object.rmoType = .dataspace) : Covered store rm offset
  | nested {rm offset : ℕ} {object : RegionMapperObject}
      (objectMem : object ∈ (store.rms rm).rmChilds) (covers : object.Covers offset)
      (isMapper : object.rmoType = .regionMapper)
      (inner : Covered store object.rmoObject (offset - object.rmoOffset.toNat)) :
      Covered store rm offset

section Ends

variable {store : VmStore} {pd : ProtectionDomain} {pager : Pager}
  {outcome other : PagerOutcome}

/-- The loop of `rm_pagefault` ends with an outcome. -/
def Ends (store : VmStore) (pd : ProtectionDomain) (pager : Pager) (outcome : PagerOutcome) :
    Prop :=
  ∃ fuel, rmPagefaultLoop store pd fuel pager = some outcome

theorem rmPagefaultLoop_succ {fuel : ℕ}
    (ended : rmPagefaultLoop store pd fuel pager = some outcome) :
    rmPagefaultLoop store pd (fuel + 1) pager = some outcome := by
  induction fuel generalizing pager with
  | zero => simp [rmPagefaultLoop] at ended
  | succ fuel ih =>
      rw [rmPagefaultLoop] at ended ⊢
      split at ended
      · exact ended
      · exact ih ended
      · exact ended

theorem rmPagefaultLoop_le {fuel more : ℕ} (le : fuel ≤ more)
    (ended : rmPagefaultLoop store pd fuel pager = some outcome) :
    rmPagefaultLoop store pd more pager = some outcome := by
  induction le with
  | refl => exact ended
  | step _ ih => exact rmPagefaultLoop_succ ih

theorem Ends.unique (ended : Ends store pd pager outcome) (again : Ends store pd pager other) :
    outcome = other := by
  rcases ended with ⟨fuel, ended⟩
  rcases again with ⟨more, again⟩
  have left := rmPagefaultLoop_le (Nat.le_add_right fuel more) ended
  have right := rmPagefaultLoop_le (Nat.le_add_left more fuel) again
  exact Option.some.inj (left.symm.trans right)

theorem Ends.of_dataspace (isDataspace : pager.type = .dataspace) (nonNull : pager.object ≠ 0) :
    Ends store pd pager (.returned .ok (dataspaceMap pd (store.dss pager.object)
      pager.fault.offset pager.fault.size pager.fault.type pager).calls) := by
  refine ⟨1, ?_⟩
  simp only [rmPagefaultLoop, rmDispatchPagefault, isDataspace, if_neg nonNull]

theorem Ends.of_null (defined : pager.type ≠ .undefined) (isNull : pager.object = 0) :
    Ends store pd pager .nullObject := by
  refine ⟨1, ?_⟩
  cases kind : pager.type with
  | undefined => exact absurd kind defined
  | dataspace => simp only [rmPagefaultLoop, rmDispatchPagefault, kind, if_pos isNull]
  | regionMapper => simp only [rmPagefaultLoop, rmDispatchPagefault, kind, if_pos isNull]

theorem Ends.of_lookup (isMapper : pager.type = .regionMapper) (nonNull : pager.object ≠ 0)
    (ended : Ends store pd (pager.lookup store) outcome) : Ends store pd pager outcome := by
  rcases ended with ⟨fuel, ended⟩
  refine ⟨fuel + 1, ?_⟩
  simp only [rmPagefaultLoop, rmDispatchPagefault, isMapper, if_neg nonNull]
  exact ended

theorem Ends.of_miss (isMapper : pager.type = .regionMapper) (nonNull : pager.object ≠ 0)
    (miss : ∀ object, Hit pager.fault.ptr.toNat (store.rms pager.object).rmChilds object →
      object.rmoType = .undefined) :
    Ends store pd pager .nullObject := by
  have missed : pager.lookup store = { pager with object := 0 } := by
    rw [Pager.lookup, rmLlLookup, rmLlLookupLoop_miss miss]
  apply Ends.of_lookup isMapper nonNull
  rw [missed]
  exact Ends.of_null (by simp [isMapper]) rfl

/-- The variables of the walk after a region has been found. -/
def Pager.enter (pager : Pager) (object : RegionMapperObject) : Pager :=
  { pager with
    object := object.rmoObject
    fault := pager.fault.enter object
    type := object.rmoType }

theorem Pager.lookup_hit {object : RegionMapperObject}
    (hit : Hit pager.fault.ptr.toNat (store.rms pager.object).rmChilds object)
    (defined : object.rmoType ≠ .undefined) : pager.lookup store = pager.enter object := by
  rw [Pager.lookup, rmLlLookup, rmLlLookupLoop_hit hit defined, Pager.enter]

theorem Ends.of_hit (isMapper : pager.type = .regionMapper) (nonNull : pager.object ≠ 0)
    {object : RegionMapperObject}
    (hit : Hit pager.fault.ptr.toNat (store.rms pager.object).rmChilds object)
    (defined : object.rmoType ≠ .undefined) (ended : Ends store pd (pager.enter object) outcome) :
    Ends store pd pager outcome := by
  rw [← Pager.lookup_hit hit defined] at ended
  exact Ends.of_lookup isMapper nonNull ended

end Ends

/-- The region the search finds decides whether a dataspace covers an offset. -/
theorem Covered.hit_iff {store : VmStore} {rm offset : ℕ} (layout : (store.rms rm).Layout) :
    Covered store rm offset ↔ ∃ object, Hit offset (store.rms rm).rmChilds object ∧
      (object.rmoType = .dataspace ∨ object.rmoType = .regionMapper ∧
        Covered store object.rmoObject (offset - object.rmoOffset.toNat)) := by
  constructor
  · rintro (⟨objectMem, covers, isDataspace⟩ | ⟨objectMem, covers, isMapper, inner⟩)
    · exact ⟨_, layout.hit_iff.mpr ⟨objectMem, covers⟩, Or.inl isDataspace⟩
    · exact ⟨_, layout.hit_iff.mpr ⟨objectMem, covers⟩, Or.inr ⟨isMapper, inner⟩⟩
  · rintro ⟨object, hit, isDataspace | ⟨isMapper, inner⟩⟩
    · exact Covered.dataspace hit.mem hit.holds.1 isDataspace
    · exact Covered.nested hit.mem hit.holds.1 isMapper inner

theorem PageFault.enter_ptr {fault : PageFault} {object : RegionMapperObject}
    (holds : object.Holds fault.ptr.toNat) :
    (fault.enter object).ptr.toNat = fault.ptr.toNat - object.rmoOffset.toNat :=
  BitVec.toNat_sub_of_le (BitVec.le_def.mpr holds.1.1)

section Walk

variable {store : VmStore} {rm : ℕ}

/-- The walk reaches a dataspace that covers the address. -/
theorem MapperTree.ends_ok (tree : MapperTree store rm) (pd : ProtectionDomain) (pager : Pager)
    (isObject : pager.object = rm) (isMapper : pager.type = .regionMapper)
    (covered : Covered store rm pager.fault.ptr.toNat) :
    ∃ calls, Ends store pd pager (.returned .ok calls) := by
  induction tree generalizing pager with
  | node nonNull layout dataspaces _ ih =>
      subst isObject
      rcases (Covered.hit_iff layout).mp covered with ⟨object, hit, isDataspace | ⟨isNested, inner⟩⟩
      · have reached : (pager.enter object).type = .dataspace := isDataspace
        have reachedNonNull : (pager.enter object).object ≠ 0 :=
          dataspaces object hit.mem isDataspace
        exact ⟨_, Ends.of_hit isMapper nonNull hit (by simp [isDataspace])
          (Ends.of_dataspace reached reachedNonNull)⟩
      · rw [← PageFault.enter_ptr hit.holds] at inner
        rcases ih object hit.mem isNested (pager.enter object) rfl isNested inner with
          ⟨calls, ended⟩
        exact ⟨calls, Ends.of_hit isMapper nonNull hit (by simp [isNested]) ended⟩

/-- An address that no dataspace covers makes the walk follow a null object. -/
theorem MapperTree.ends_null (tree : MapperTree store rm) (pd : ProtectionDomain) (pager : Pager)
    (isObject : pager.object = rm) (isMapper : pager.type = .regionMapper)
    (notCovered : ¬Covered store rm pager.fault.ptr.toNat) :
    Ends store pd pager .nullObject := by
  induction tree generalizing pager with
  | node nonNull layout dataspaces _ ih =>
      subst isObject
      rw [Covered.hit_iff layout] at notCovered
      by_cases nested : ∃ object,
          Hit pager.fault.ptr.toNat (store.rms pager.object).rmChilds object ∧
            object.rmoType = .regionMapper
      · rcases nested with ⟨object, hit, isNested⟩
        apply Ends.of_hit isMapper nonNull hit (by simp [isNested])
        apply ih object hit.mem isNested (pager.enter object) rfl isNested
        intro inner
        have entered : (pager.enter object).fault.ptr.toNat =
            pager.fault.ptr.toNat - object.rmoOffset.toNat := PageFault.enter_ptr hit.holds
        rw [entered] at inner
        exact notCovered ⟨object, hit, Or.inr ⟨isNested, inner⟩⟩
      · apply Ends.of_miss isMapper nonNull
        intro object hit
        cases kind : object.rmoType with
        | undefined => rfl
        | dataspace => exact absurd ⟨object, hit, Or.inl kind⟩ notCovered
        | regionMapper => exact absurd ⟨object, hit, kind⟩ nested

end Walk

namespace ProtectionDomain

variable {store : VmStore} {pd : ProtectionDomain} {rm : ℕ} {va : Vaddr}

/-- An address before the domain or behind its last page. -/
def Outside (pd : ProtectionDomain) (va : Vaddr) : Prop :=
  va < pd.pdBegin ∨ va - pd.pdBegin ≥ pd.room

/-- `rm_pagefault` returns without following a null object, with `VM_OK` only for an address
inside the domain that a dataspace covers, and with an error otherwise. -/
def HandlesFault (store : VmStore) (pd : ProtectionDomain) (mmu : Mmu) (rm : ℕ) (va : Vaddr)
    (faultType : VmProt) : Prop :=
  ∃ fuel ret calls,
    rmPagefault fuel store pd mmu rm va faultType = some (.returned ret calls) ∧
    (ret = .ok → ¬pd.Outside va ∧ Covered store rm (va - pd.pdBegin).toNat) ∧
    (ret ≠ .ok → ret = .segfault ∨ ret = .failure)

theorem rmPagefault_outside (outside : pd.Outside va) (fuel : ℕ) (mmu : Mmu) (faultType : VmProt) :
    rmPagefault fuel store pd mmu rm va faultType = some (.returned .segfault []) := by
  rw [rmPagefault]
  split
  · rfl
  · rename_i notBelow
    rw [if_pos (outside.resolve_left notBelow)]

theorem rmPagefault_inside (inside : ¬pd.Outside va) (fuel : ℕ) (mmu : Mmu) (faultType : VmProt) :
    rmPagefault fuel store pd mmu rm va faultType =
      rmPagefaultLoop store pd fuel (.start pd mmu rm va faultType) := by
  rw [rmPagefault, if_neg fun below => inside (Or.inl below),
    if_neg fun above => inside (Or.inr above)]

theorem not_handlesFault (tree : MapperTree store rm) (inside : ¬pd.Outside va)
    (notCovered : ¬Covered store rm (va - pd.pdBegin).toNat) (mmu : Mmu) (faultType : VmProt) :
    ¬HandlesFault store pd mmu rm va faultType := by
  rintro ⟨fuel, ret, calls, returned, _⟩
  rw [rmPagefault_inside inside] at returned
  have ended := tree.ends_null pd (.start pd mmu rm va faultType) rfl rfl notCovered
  have clash := ended.unique ⟨fuel, returned⟩
  simp at clash

/-- A page fault is handled exactly if its address lies outside the domain or is covered by a
dataspace. -/
theorem handlesFault_iff (tree : MapperTree store rm) (mmu : Mmu) (va : Vaddr)
    (faultType : VmProt) :
    HandlesFault store pd mmu rm va faultType ↔
      pd.Outside va ∨ Covered store rm (va - pd.pdBegin).toNat := by
  constructor
  · intro handled
    by_contra neither
    rw [not_or] at neither
    exact not_handlesFault tree neither.1 neither.2 mmu faultType handled
  · intro handled
    by_cases outside : pd.Outside va
    · refine ⟨0, .segfault, [], rmPagefault_outside outside 0 mmu faultType, ?_, ?_⟩
      · simp
      · simp
    · have covered := handled.resolve_left outside
      obtain ⟨calls, fuel, ended⟩ :=
        tree.ends_ok pd (.start pd mmu rm va faultType) rfl rfl covered
      refine ⟨fuel, .ok, calls, ?_, ?_, ?_⟩
      · rw [rmPagefault_inside outside]
        exact ended
      · exact fun _ => ⟨outside, covered⟩
      · simp

/-- A mapper at address 1 with a dataspace on its first page, a nested mapper on the second
and nothing on the third; the nested mapper has a dataspace on the first half of its page. -/
def nestedStore : VmStore where
  rms rm :=
    if rm = 1 then
      { rmChilds := [⟨0, 0x1000, 2, .dataspace⟩, ⟨0x1000, 0x1000, 3, .regionMapper⟩]
        rmSize := 0x3000 }
    else { rmChilds := [⟨0, 0x800, 2, .dataspace⟩], rmSize := 0x1000 }
  dss _ := { dsNPages := 1, dsSize := 0x1000, dsPages := fun _ => 0x5000 }

/-- A domain of three pages of the kernel. -/
def threePages : ProtectionDomain where
  pdBegin := 0xc1000000
  pdEnd := 0xc1002fff
  pdPmap := .pInstKernel

def presentMmu : Mmu where
  kernelPageDir _ := 0x3
  pageTables _ _ := 0

theorem nestedStore_mapperTree : MapperTree nestedStore 1 := by
  have inner : MapperTree nestedStore 3 := by
    refine .node (by decide) (RegionMapper.WellSpaced.layout ?_) ?_ ?_
    · simp [RegionMapper.WellSpaced, nestedStore, Spaced, RegionMapperObject.finish]
    · simp [nestedStore]
    · simp [nestedStore]
  refine .node (by decide) (RegionMapper.WellSpaced.layout ?_) ?_ ?_
  · simp [RegionMapper.WellSpaced, nestedStore, Spaced, RegionMapperObject.finish]
  · simp [nestedStore]
  · simpa [nestedStore] using inner

theorem handlesFault_nested : HandlesFault nestedStore threePages presentMmu 1 0xc1001004 4 := by
  refine (handlesFault_iff nestedStore_mapperTree presentMmu 0xc1001004 4).mpr (Or.inr ?_)
  have outer : (⟨0x1000, 0x1000, 3, .regionMapper⟩ : RegionMapperObject) ∈
      (nestedStore.rms 1).rmChilds := by decide
  have inner : (⟨0, 0x800, 2, .dataspace⟩ : RegionMapperObject) ∈
      (nestedStore.rms 3).rmChilds := by decide
  refine .nested outer ?_ rfl (.dataspace inner ?_ rfl)
  · exact ⟨by decide, by decide⟩
  · exact ⟨by decide, by decide⟩

/-- The third page lies in the domain and nothing covers it. -/
theorem not_handlesFault_gap :
    MapperTree nestedStore 1 ∧
      ¬HandlesFault nestedStore threePages presentMmu 1 0xc1002000 4 := by
  refine ⟨nestedStore_mapperTree, not_handlesFault nestedStore_mapperTree ?_ ?_ _ _⟩
  · rintro (below | above)
    · revert below
      decide
    · revert above
      decide
  · have before : ∀ object ∈ (nestedStore.rms 1).rmChilds, object.finish ≤ 0x2000 := by decide
    have offset : ((0xc1002000 : Vaddr) - threePages.pdBegin).toNat = 0x2000 := by decide
    rw [offset]
    rintro (⟨objectMem, covers, _⟩ | ⟨objectMem, covers, _, _⟩)
    · exact absurd covers.2 (Nat.not_lt.mpr (before _ objectMem))
    · exact absurd covers.2 (Nat.not_lt.mpr (before _ objectMem))

end ProtectionDomain

end Rkernel
