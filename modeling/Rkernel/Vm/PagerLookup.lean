import Rkernel.Vm.PagerMap

/-!
# Address bookkeeping of nested lookups

Each level of a page fault moves the three fields of the fault record by the offset of the
region that was found. `LookupCorrect` says what one search does to the record. No
subtraction of it wraps around, so that the base of the current region and the position
inside it always add up to the fault address, whatever the depth of the mappers.
-/

namespace Rkernel

/-- The record behind a region that was found: the position is taken relative to the region,
the base is moved by as much, and the room is cut to the region. -/
structure PageFault.EntersRegion (fault next : PageFault) (object : RegionMapperObject) :
    Prop where
  sum : next.offset + next.ptr = fault.offset + fault.ptr
  position : next.ptr.toNat = fault.ptr.toNat - object.rmoOffset.toNat
  noWrap : object.rmoOffset ≤ fault.ptr ∧ object.rmoOffset ≤ fault.size
  inside : next.ptr < next.size
  clipped : next.size ≤ object.rmoSize

/-- `rm_ll_lookup` finds the region that covers the position, unless it is undefined. -/
structure RegionMapper.LookupCorrect (rm : RegionMapper) (fault : PageFault) (type : RmoType) :
    Prop where
  object_iff : (rmLlLookup rm fault type).1 ≠ 0 ↔ ∃ child ∈ rm.rmChilds,
    child.Covers fault.ptr.toNat ∧ child.rmoType ≠ .undefined ∧ child.rmoObject ≠ 0
  found : ∀ child ∈ rm.rmChilds, child.Covers fault.ptr.toNat → child.rmoType ≠ .undefined →
    (rmLlLookup rm fault type).1 = child.rmoObject ∧
    (rmLlLookup rm fault type).2.2 = child.rmoType ∧
    fault.EntersRegion (rmLlLookup rm fault type).2.1 child
  missed : (∀ child ∈ rm.rmChilds, child.Covers fault.ptr.toNat → child.rmoType = .undefined) →
    rmLlLookup rm fault type = (0, fault, type)

section Lookup

variable {rm : RegionMapper} {fault : PageFault} {object : RegionMapperObject}

theorem PageFault.enter_entersRegion (inside : fault.ptr < fault.size)
    (holds : object.Holds fault.ptr.toNat) : fault.EntersRegion (fault.enter object) object := by
  have offsetLe : object.rmoOffset ≤ fault.ptr := BitVec.le_def.mpr holds.1.1
  have insideNat := BitVec.lt_def.mp inside
  have sizeLe : object.rmoOffset ≤ fault.size := BitVec.le_def.mpr (by
    have := holds.1.1
    omega)
  have size := PageFault.enter_size insideNat holds
  refine ⟨?_, PageFault.enter_ptr holds, ⟨offsetLe, sizeLe⟩, ?_, ?_⟩
  · simp only [PageFault.enter]
    rw [BitVec.add_assoc, BitVec.add_comm object.rmoOffset, BitVec.sub_add_cancel]
  · have below := holds.1
    simp only [RegionMapperObject.Covers, RegionMapperObject.finish] at below
    rw [BitVec.lt_def, size, PageFault.enter_ptr holds]
    omega
  · rw [BitVec.le_def, size]
    exact Nat.min_le_right _ _

theorem RegionMapper.Layout.lookupCorrect (layout : rm.Layout) (inside : fault.ptr < fault.size)
    (type : RmoType) : rm.LookupCorrect fault type := by
  have found : ∀ child ∈ rm.rmChilds, child.Covers fault.ptr.toNat →
      child.rmoType ≠ .undefined →
      rmLlLookup rm fault type = (child.rmoObject, fault.enter child, child.rmoType) := by
    intro child childMem covers defined
    exact rmLlLookupLoop_hit (layout.hit_iff.mpr ⟨childMem, covers⟩) defined
  have missed : (∀ child ∈ rm.rmChilds, child.Covers fault.ptr.toNat →
      child.rmoType = .undefined) → rmLlLookup rm fault type = (0, fault, type) := by
    intro undefined
    apply rmLlLookupLoop_miss
    intro object hit
    exact undefined object hit.mem hit.holds.1
  refine ⟨?_, ?_, missed⟩
  · constructor
    · intro nonNull
      by_contra none
      by_cases undefined : ∀ child ∈ rm.rmChilds, child.Covers fault.ptr.toNat →
          child.rmoType = .undefined
      · exact nonNull (by rw [missed undefined])
      · push Not at undefined
        rcases undefined with ⟨child, childMem, covers, defined⟩
        rw [found child childMem covers defined] at nonNull
        exact none ⟨child, childMem, covers, defined, nonNull⟩
    · rintro ⟨child, childMem, covers, defined, nonNull⟩
      rw [found child childMem covers defined]
      exact nonNull
  · intro child childMem covers defined
    have holds := (layout.hit_iff.mpr ⟨childMem, covers⟩).holds
    rw [found child childMem covers defined]
    exact ⟨rfl, rfl, PageFault.enter_entersRegion inside holds⟩

end Lookup

/-- The variables of `rm_pagefault` at the iterations of its loop. -/
inductive Iteration (store : VmStore) (pd : ProtectionDomain) (start : Pager) : Pager → Prop where
  | first : Iteration store pd start start
  | again {pager next : Pager} (earlier : Iteration store pd start pager)
      (dispatched : rmDispatchPagefault store pd pager = some (.again, next)) :
      Iteration store pd start next

section Iteration

variable {store : VmStore} {pd : ProtectionDomain} {pager next : Pager} {va : Vaddr}

theorem rmDispatchPagefault_again
    (dispatched : rmDispatchPagefault store pd pager = some (.again, next)) :
    next = pager.lookup store := by
  unfold rmDispatchPagefault at dispatched
  split at dispatched
  · simp at dispatched
  · split at dispatched
    · simp at dispatched
    · simp at dispatched
  · split at dispatched
    · simp at dispatched
    · simpa using dispatched.symm

theorem Pager.lookup_tracks (tracks : pager.fault.Tracks va) :
    (pager.lookup store).fault.Tracks va := by
  by_cases found : ∃ object,
      Hit pager.fault.ptr.toNat (store.rms pager.object).rmChilds object ∧
        object.rmoType ≠ .undefined
  · rcases found with ⟨object, hit, defined⟩
    rw [Pager.lookup_hit hit defined]
    exact tracks.enter hit.holds
  · have missed : rmLlLookup (store.rms pager.object) pager.fault pager.type =
        (0, pager.fault, pager.type) := by
      apply rmLlLookupLoop_miss
      intro object hit
      by_contra defined
      exact found ⟨object, hit, defined⟩
    rw [Pager.lookup, missed]
    exact tracks

theorem Iteration.tracks {start : Pager} (tracks : start.fault.Tracks va)
    (iteration : Iteration store pd start pager) : pager.fault.Tracks va := by
  induction iteration with
  | first => exact tracks
  | again _ dispatched ih =>
      rw [rmDispatchPagefault_again dispatched]
      exact Pager.lookup_tracks ih

end Iteration

/-- One search keeps the books of the fault record, and therefore every iteration of
`rm_pagefault` does, at any depth: the base and the position add up to the fault address. -/
theorem lookup_bookkeeping :
    (∀ (rm : RegionMapper) (fault : PageFault) (type : RmoType),
      rm.Layout → fault.ptr < fault.size → rm.LookupCorrect fault type) ∧
    ∀ (store : VmStore) (pd : ProtectionDomain) (mmu : Mmu) (rm : ℕ) (va : Vaddr)
      (faultType : VmProt) (pager : Pager), ¬pd.Outside va →
      Iteration store pd (.start pd mmu rm va faultType) pager →
      pager.fault.Tracks va := by
  refine ⟨fun rm fault type layout inside => layout.lookupCorrect inside type, ?_⟩
  intro store pd mmu rm va faultType pager inDomain iteration
  exact iteration.tracks (ProtectionDomain.start_tracks inDomain mmu rm faultType)

namespace ProtectionDomain

/-- A fault on the second page goes through two mappers. -/
theorem lookup_bookkeeping_nested :
    (nestedStore.rms 1).LookupCorrect ⟨0xc1000000, 0x1004, 0x3000, 4⟩ .regionMapper ∧
    ((Pager.start threePages presentMmu 1 0xc1001004 4).lookup nestedStore).fault.Tracks
      0xc1001004 := by
  refine ⟨lookup_bookkeeping.1 _ _ _ ?_ (by decide), ?_⟩
  · apply RegionMapper.WellSpaced.layout
    simp [RegionMapper.WellSpaced, nestedStore, Spaced, RegionMapperObject.finish]
  · refine lookup_bookkeeping.2 nestedStore threePages presentMmu 1 0xc1001004 4 _ ?_
      (.again .first ?_)
    · unfold Outside
      decide
    · simp [rmDispatchPagefault, Pager.start]

end ProtectionDomain

end Rkernel
