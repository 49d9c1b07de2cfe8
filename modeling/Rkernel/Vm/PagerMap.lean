import Rkernel.Vm.PagerWalk

/-!
# What a page fault maps

A page fault that ends with `VM_OK` has entered the first pages of one dataspace
from the base of its region on: as many as the region, the enclosing regions, the
dataspace's size and its page array allow, and whether the array holds a page or
a hole. `Backs` names the dataspace, the position of the fault address in its
region and the room that is left of it; `ReadyPages` says when this is enough for
the page of the address to be mapped and for no hole to be mapped.
-/

namespace Rkernel

/-- The dataspace that backs an offset of a region mapper, the position of the offset in the
dataspace's region and the part of the region that fits into `room`. -/
inductive Backs (store : VmStore) : ℕ → ℕ → ℕ → ℕ → ℕ → ℕ → Prop where
  | dataspace {rm offset room : ℕ} {object : RegionMapperObject}
      (hit : Hit offset (store.rms rm).rmChilds object)
      (isDataspace : object.rmoType = .dataspace) :
      Backs store rm offset room object.rmoObject (offset - object.rmoOffset.toNat)
        (min (room - object.rmoOffset.toNat) object.rmoSize.toNat)
  | nested {rm offset room ds inner limit : ℕ} {object : RegionMapperObject}
      (hit : Hit offset (store.rms rm).rmChilds object)
      (isMapper : object.rmoType = .regionMapper)
      (below : Backs store object.rmoObject (offset - object.rmoOffset.toNat)
        (min (room - object.rmoOffset.toNat) object.rmoSize.toNat) ds inner limit) :
      Backs store rm offset room ds inner limit

theorem Backs.unique {store : VmStore} {rm offset room ds inner limit ds' inner' limit' : ℕ}
    (backs : Backs store rm offset room ds inner limit)
    (again : Backs store rm offset room ds' inner' limit') :
    ds = ds' ∧ inner = inner' ∧ limit = limit' := by
  induction backs with
  | dataspace hit isDataspace =>
      cases again with
      | dataspace hit' _ =>
          rw [hit.unique hit']
          exact ⟨rfl, rfl, rfl⟩
      | nested hit' isMapper _ =>
          rw [hit.unique hit', isMapper] at isDataspace
          simp at isDataspace
  | nested hit isMapper _ ih =>
      cases again with
      | dataspace hit' isDataspace =>
          rw [hit.unique hit', isDataspace] at isMapper
          simp at isMapper
      | nested hit' _ below' =>
          rw [← hit.unique hit'] at below'
          exact ih below'

/-- The number of pages of a dataspace that are entered in a region with `limit` bytes. -/
def Dataspace.mappedPages (ds : Dataspace) (limit : ℕ) : ℕ :=
  min (min limit ds.dsSize.toNat / 0x1000) ds.dsNPages.toNat

section DataspaceMap

variable (pd : ProtectionDomain) (prot : VmProt)

/-- The call of `pd_enter` for one page of a dataspace whose region begins at `base`. -/
def pageCall (mmu : Mmu) (pmap : Pmap) (pages : ℕ → Paddr) (base : Vaddr) (i : ℕ) : PdEnter where
  va := base + BitVec.ofNat 32 (0x1000 * i)
  pa := pages i
  ret := if mmu.HasTable pmap (base + BitVec.ofNat 32 (0x1000 * i)) then 0 else 1

theorem pageCall_congr {mmu other : Mmu} (sameDir : other.kernelPageDir = mmu.kernelPageDir)
    (pmap : Pmap) (pages : ℕ → Paddr) (base : Vaddr) (i : ℕ) :
    pageCall other pmap pages base i = pageCall mmu pmap pages base i := by
  have same (va : Vaddr) : other.HasTable pmap va ↔ mmu.HasTable pmap va := by
    rw [Mmu.HasTable, Mmu.HasTable, sameDir]
  simp only [pageCall, same]

theorem pageCall_succ (mmu : Mmu) (pmap : Pmap) (pages : ℕ → Paddr) (base : Vaddr) (i : ℕ) :
    pageCall mmu pmap (fun k => pages (k + 1)) (base + 0x1000) i =
      pageCall mmu pmap pages base (i + 1) := by
  have next : base + 0x1000 + BitVec.ofNat 32 (0x1000 * i) =
      base + BitVec.ofNat 32 (0x1000 * (i + 1)) := by
    have pageSize : (0x1000 : Vaddr).toNat = 0x1000 := rfl
    apply BitVec.eq_of_toNat_eq
    simp only [BitVec.toNat_add, BitVec.toNat_ofNat, pageSize]
    omega
  simp only [pageCall, next]

theorem dataspaceMapLoop_calls (pages : ℕ → Paddr) (left i : ℕ) (base : Vaddr) (pager : Pager) :
    (dataspaceMapLoop pd pages prot left i base pager).calls =
      pager.calls ++ (List.range left).map
        (pageCall pager.mmu pd.pdPmap (fun k => pages (i + k)) base) := by
  induction left generalizing i base pager with
  | zero => simp [dataspaceMapLoop]
  | succ left ih =>
      have first : (pdEnter pd base (pages i) prot 0 pager).calls =
          pager.calls ++ [pageCall pager.mmu pd.pdPmap (fun k => pages (i + k)) base 0] := by
        simp [pdEnter, pageCall, pmapEnter_ret]
      have sameDir : (pdEnter pd base (pages i) prot 0 pager).mmu.kernelPageDir =
          pager.mmu.kernelPageDir := pmapEnter_kernelPageDir _ _ _ _ _ _
      have rest : (List.range left).map
            (pageCall (pdEnter pd base (pages i) prot 0 pager).mmu pd.pdPmap
              (fun k => pages (i + 1 + k)) (base + 0x1000)) =
          (List.range left).map
            (pageCall pager.mmu pd.pdPmap (fun k => pages (i + k)) base ∘ Nat.succ) := by
        apply List.map_congr_left
        intro k _
        rw [pageCall_congr sameDir, Function.comp_apply, Nat.succ_eq_add_one, ← pageCall_succ]
        simp only [Nat.add_assoc, Nat.add_comm 1]
      rw [dataspaceMapLoop, ih, first, rest, List.range_succ_eq_map, List.map_cons, List.map_map,
        List.append_assoc, List.singleton_append]

theorem dataspaceMapCount_eq (ds : Dataspace) (size : Vaddr) :
    dataspaceMapCount ds size = ds.mappedPages size.toNat := by
  have clamp : (if size > ds.dsSize then ds.dsSize else size).toNat =
      min size.toNat ds.dsSize.toNat := by
    split
    · rename_i larger
      rw [gt_iff_lt, BitVec.lt_def] at larger
      omega
    · rename_i smaller
      rw [gt_iff_lt, BitVec.lt_def] at smaller
      omega
  simp only [dataspaceMapCount, Dataspace.mappedPages, BitVec.toNat_ushiftRight, clamp,
    Nat.shiftRight_eq_div_pow]
  split
  · omega
  · omega

theorem mem_dataspaceMap_calls (ds : Dataspace) (base size : Vaddr) {pager : Pager}
    (noCalls : pager.calls = []) {call : PdEnter} :
    call ∈ (dataspaceMap pd ds base size prot pager).calls ↔
      ∃ i < ds.mappedPages size.toNat,
        pageCall pager.mmu pd.pdPmap ds.dsPages base i = call := by
  rw [dataspaceMap, dataspaceMapLoop_calls, noCalls, dataspaceMapCount_eq]
  simp

end DataspaceMap

/-- The fault address lies `ptr` behind the base of the current region, and inside it. -/
structure PageFault.Tracks (fault : PageFault) (va : Vaddr) : Prop where
  inside : fault.ptr.toNat < fault.size.toNat
  position : fault.offset.toNat + fault.ptr.toNat = va.toNat

section Tracks

variable {fault : PageFault} {va : Vaddr} {object : RegionMapperObject}

theorem PageFault.enter_size (inside : fault.ptr.toNat < fault.size.toNat)
    (holds : object.Holds fault.ptr.toNat) :
    (fault.enter object).size.toNat =
      min (fault.size.toNat - object.rmoOffset.toNat) object.rmoSize.toNat := by
  have offsetLe : object.rmoOffset ≤ fault.size :=
    BitVec.le_def.mpr (Nat.le_trans holds.1.1 (Nat.le_of_lt inside))
  simp only [PageFault.enter]
  split
  · rename_i larger
    rw [gt_iff_lt, BitVec.lt_def, BitVec.toNat_sub_of_le offsetLe] at larger
    omega
  · rename_i smaller
    rw [gt_iff_lt, BitVec.lt_def, BitVec.toNat_sub_of_le offsetLe] at smaller
    rw [BitVec.toNat_sub_of_le offsetLe]
    omega

theorem PageFault.Tracks.enter (tracks : fault.Tracks va)
    (holds : object.Holds fault.ptr.toNat) : (fault.enter object).Tracks va := by
  have below := holds.1
  simp only [RegionMapperObject.Covers, RegionMapperObject.finish] at below
  have inside := tracks.inside
  have position := tracks.position
  have vaLt := va.isLt
  refine ⟨?_, ?_⟩
  · rw [PageFault.enter_ptr holds, PageFault.enter_size tracks.inside holds]
    omega
  · rw [PageFault.enter_ptr holds]
    simp only [PageFault.enter, BitVec.toNat_add]
    omega

end Tracks

/-- A walk that ends with `VM_OK` has mapped the dataspace that backs the address. -/
theorem rmPagefaultLoop_ok {store : VmStore} {pd : ProtectionDomain} {fuel : ℕ} {pager : Pager}
    {calls : List PdEnter} {va : Vaddr} (isMapper : pager.type = .regionMapper)
    (noCalls : pager.calls = []) (tracks : pager.fault.Tracks va)
    (ended : rmPagefaultLoop store pd fuel pager = some (.returned .ok calls)) :
    ∃ ds inner limit, ∃ base : Vaddr,
      Backs store pager.object pager.fault.ptr.toNat pager.fault.size.toNat ds inner limit ∧
      base.toNat + inner = va.toNat ∧ limit < 2 ^ 32 ∧
      ∀ call, call ∈ calls ↔
        ∃ i < (store.dss ds).mappedPages limit,
          pageCall pager.mmu pd.pdPmap (store.dss ds).dsPages base i = call := by
  induction fuel generalizing pager with
  | zero => simp [rmPagefaultLoop] at ended
  | succ fuel ih =>
      have nonNull : pager.object ≠ 0 := by
        intro isNull
        have null : Ends store pd pager .nullObject := .of_null (by simp [isMapper]) isNull
        simpa using null.unique ⟨fuel + 1, ended⟩
      by_cases found : ∃ object,
          Hit pager.fault.ptr.toNat (store.rms pager.object).rmChilds object ∧
            object.rmoType ≠ .undefined
      · rcases found with ⟨object, hit, defined⟩
        have looked := Pager.lookup_hit hit defined
        simp only [rmPagefaultLoop, rmDispatchPagefault, isMapper, if_neg nonNull, looked] at ended
        cases kind : object.rmoType with
        | undefined => exact absurd kind defined
        | dataspace =>
            have reached : (pager.enter object).type = .dataspace := kind
            have reachedNonNull : (pager.enter object).object ≠ 0 := by
              intro isNull
              have null : Ends store pd (pager.enter object) .nullObject :=
                .of_null (by simp [reached]) isNull
              simpa using null.unique ⟨fuel, ended⟩
            have mapped := (Ends.of_dataspace reached reachedNonNull).unique ⟨fuel, ended⟩
            rw [PagerOutcome.returned.injEq] at mapped
            have position := (tracks.enter hit.holds).position
            have size := PageFault.enter_size tracks.inside hit.holds
            rw [PageFault.enter_ptr hit.holds] at position
            refine ⟨_, _, _, _, .dataspace hit kind, position, ?_, ?_⟩
            · rw [← size]
              exact BitVec.isLt _
            · intro call
              rw [← size, ← mapped.2]
              have noCallsEntered : (pager.enter object).calls = [] := noCalls
              exact mem_dataspaceMap_calls pd _ _ _ _ noCallsEntered
        | regionMapper =>
            have entered := tracks.enter hit.holds
            obtain ⟨ds, inner, limit, base, backs, position, limitLt, members⟩ :=
              @ih (pager.enter object) kind noCalls entered ended
            simp only [Pager.enter] at backs
            rw [PageFault.enter_ptr hit.holds,
              PageFault.enter_size tracks.inside hit.holds] at backs
            exact ⟨ds, inner, limit, base, .nested hit kind backs, position, limitLt, members⟩
      · have missed : Ends store pd pager .nullObject := by
          apply Ends.of_miss isMapper nonNull
          intro object hit
          by_contra defined
          exact found ⟨object, hit, defined⟩
        simpa using missed.unique ⟨fuel + 1, ended⟩

/-- The page of an address at position `inner` of its region is among the pages that are
entered and is the allocated page that backs the address, its page table is present, and
there is no hole among the entered pages. -/
structure Dataspace.ReadyPages (ds : Dataspace) (mmu : Mmu) (pmap : Pmap) (va inner limit : ℕ) :
    Prop where
  hasTable : mmu.HasTable pmap (BitVec.ofNat 32 va)
  entered : va / 0x1000 - (va - inner) / 0x1000 < ds.mappedPages limit
  backing : ds.dsPages (va / 0x1000 - (va - inner) / 0x1000) = ds.dsPages (inner / 0x1000)
  allocated : ds.dsPages (inner / 0x1000) ≠ 0
  noHoles : ∀ i < ds.mappedPages limit,
    mmu.HasTable pmap (BitVec.ofNat 32 (va - inner + 0x1000 * i)) → ds.dsPages i ≠ 0

section ReadyPages

variable {ds : Dataspace} {mmu : Mmu} {pmap : Pmap} {base va : Vaddr} {inner limit i : ℕ}

theorem pageCall_ret_eq_zero :
    (pageCall mmu pmap ds.dsPages base i).ret = 0 ↔
      mmu.HasTable pmap (base + BitVec.ofNat 32 (0x1000 * i)) := by
  simp only [pageCall]
  split
  · rename_i present
    exact ⟨fun _ => present, fun _ => rfl⟩
  · rename_i absent
    exact ⟨fun ret => absurd ret (by decide), fun present => absurd present absent⟩

theorem Mmu.HasTable.of_samePage {left right : Vaddr}
    (samePage : left.toNat / 0x1000 = right.toNat / 0x1000) (present : mmu.HasTable pmap left) :
    mmu.HasTable pmap right := by
  have sameTable : pdx left = pdx right := by
    have shifted : left >>> 22 = right >>> 22 := by
      apply BitVec.eq_of_toNat_eq
      simp only [BitVec.toNat_ushiftRight, Nat.shiftRight_eq_div_pow]
      omega
    rw [pdx, pdx, shifted]
  rw [Mmu.HasTable, ← sameTable]
  exact present

theorem pageCall_samePage_iff (position : base.toNat + inner = va.toNat) (limitLt : limit < 2 ^ 32)
    (isEntered : i < ds.mappedPages limit) :
    (pageCall mmu pmap ds.dsPages base i).va.toNat / 0x1000 = va.toNat / 0x1000 ↔
      i = va.toNat / 0x1000 - (va.toNat - inner) / 0x1000 := by
  have := va.isLt
  simp only [Dataspace.mappedPages] at isEntered
  simp only [pageCall, BitVec.toNat_add, BitVec.toNat_ofNat]
  omega

theorem readyPages_iff {calls : List PdEnter} (position : base.toNat + inner = va.toNat)
    (limitLt : limit < 2 ^ 32)
    (members : ∀ call, call ∈ calls ↔
      ∃ i < ds.mappedPages limit, pageCall mmu pmap ds.dsPages base i = call) :
    ((∃ call ∈ calls, call.ret = 0 ∧ call.va.toNat / 0x1000 = va.toNat / 0x1000 ∧
        call.pa = ds.dsPages (inner / 0x1000) ∧ call.pa ≠ 0) ∧
      ∀ call ∈ calls, call.ret = 0 → call.pa ≠ 0) ↔
      ds.ReadyPages mmu pmap va.toNat inner limit := by
  have address (i : ℕ) : BitVec.ofNat 32 (va.toNat - inner + 0x1000 * i) =
      base + BitVec.ofNat 32 (0x1000 * i) := by
    have baseEq : va.toNat - inner = base.toNat := by omega
    rw [baseEq, BitVec.ofNat_add, BitVec.ofNat_toNat, BitVec.setWidth_eq]
  constructor
  · rintro ⟨⟨call, callMem, ret, samePage, backing, allocated⟩, noHoles⟩
    rcases (members call).mp callMem with ⟨i, isEntered, rfl⟩
    have index := (pageCall_samePage_iff position limitLt isEntered).mp samePage
    subst index
    refine ⟨?_, isEntered, backing, ?_, ?_⟩
    · rw [BitVec.ofNat_toNat, BitVec.setWidth_eq]
      exact (pageCall_ret_eq_zero.mp ret).of_samePage samePage
    · rw [← backing]
      exact allocated
    · intro i isEntered present
      rw [address] at present
      exact noHoles _ ((members _).mpr ⟨i, isEntered, rfl⟩) (pageCall_ret_eq_zero.mpr present)
  · rintro ⟨hasTable, isEntered, backing, allocated, noHoles⟩
    have samePage :=
      (@pageCall_samePage_iff ds mmu pmap _ _ _ _ _ position limitLt isEntered).mpr rfl
    rw [BitVec.ofNat_toNat, BitVec.setWidth_eq] at hasTable
    refine ⟨⟨_, (members _).mpr ⟨_, isEntered, rfl⟩, ?_, samePage, backing, ?_⟩, ?_⟩
    · exact pageCall_ret_eq_zero.mpr (hasTable.of_samePage samePage.symm)
    · rw [← backing] at allocated
      exact allocated
    · intro call callMem ret
      rcases (members call).mp callMem with ⟨i, isEntered, rfl⟩
      apply noHoles i isEntered
      rw [address]
      exact pageCall_ret_eq_zero.mp ret

end ReadyPages

namespace ProtectionDomain

variable {store : VmStore} {pd : ProtectionDomain} {mmu : Mmu} {rm : ℕ} {va : Vaddr}
  {calls : List PdEnter}

/-- The page of the address has been entered with the allocated page that backs it, and no
page has been entered with a hole. -/
def MapsBackingPage (store : VmStore) (pd : ProtectionDomain) (rm : ℕ) (va : Vaddr)
    (calls : List PdEnter) : Prop :=
  ∃ ds inner limit,
    Backs store rm (va - pd.pdBegin).toNat pd.room.toNat ds inner limit ∧
    (∃ call ∈ calls, call.ret = 0 ∧ call.va.toNat / 0x1000 = va.toNat / 0x1000 ∧
      call.pa = (store.dss ds).dsPages (inner / 0x1000) ∧ call.pa ≠ 0) ∧
    ∀ call ∈ calls, call.ret = 0 → call.pa ≠ 0

theorem start_tracks (inside : ¬pd.Outside va) (mmu : Mmu) (rm : ℕ) (faultType : VmProt) :
    (Pager.start pd mmu rm va faultType).fault.Tracks va := by
  rw [Outside, not_or] at inside
  have begun : pd.pdBegin ≤ va := BitVec.not_lt.mp inside.1
  refine ⟨BitVec.lt_def.mp (BitVec.not_le.mp inside.2), ?_⟩
  have begunNat := BitVec.le_def.mp begun
  simp only [Pager.start, BitVec.toNat_sub_of_le begun]
  omega

/-- A page fault that returns `VM_OK` has mapped the page that backs the address, and no
hole, exactly if the pages of the dataspace are ready. -/
theorem mapsBackingPage_iff {fuel : ℕ} {faultType : VmProt}
    (returned : rmPagefault fuel store pd mmu rm va faultType = some (.returned .ok calls)) :
    MapsBackingPage store pd rm va calls ↔
      ∃ ds inner limit,
        Backs store rm (va - pd.pdBegin).toNat pd.room.toNat ds inner limit ∧
        (store.dss ds).ReadyPages mmu pd.pdPmap va.toNat inner limit := by
  have inside : ¬pd.Outside va := by
    intro outside
    rw [rmPagefault_outside outside] at returned
    simp at returned
  rw [rmPagefault_inside inside] at returned
  obtain ⟨ds, inner, limit, base, backs, position, limitLt, members⟩ :=
    rmPagefaultLoop_ok rfl rfl (start_tracks inside mmu rm faultType) returned
  have ready := readyPages_iff position limitLt members
  constructor
  · rintro ⟨ds', inner', limit', backs', maps⟩
    rcases backs.unique backs' with ⟨rfl, rfl, rfl⟩
    exact ⟨ds, inner, limit, backs, ready.mp maps⟩
  · rintro ⟨ds', inner', limit', backs', pages⟩
    rcases backs.unique backs' with ⟨rfl, rfl, rfl⟩
    exact ⟨ds, inner, limit, backs, ready.mpr pages⟩

theorem mapsBackingPage_nested :
    rmPagefault 2 nestedStore threePages presentMmu 1 0xc1000004 4 =
        some (.returned .ok [⟨0xc1000000, 0x5000, 0⟩]) ∧
      MapsBackingPage nestedStore threePages 1 0xc1000004 [⟨0xc1000000, 0x5000, 0⟩] := by
  have returned : rmPagefault 2 nestedStore threePages presentMmu 1 0xc1000004 4 =
      some (.returned .ok [⟨0xc1000000, 0x5000, 0⟩]) := by decide
  refine ⟨returned, (mapsBackingPage_iff returned).mpr ?_⟩
  have hit : Hit 4 (nestedStore.rms 1).rmChilds ⟨0, 0x1000, 2, .dataspace⟩ :=
    Hit.here ⟨⟨by decide, by decide⟩, by decide⟩
  refine ⟨2, 4, 0x1000, Backs.dataspace hit rfl, ?_⟩
  exact ⟨by decide, by decide, rfl, by decide, by decide⟩

/-- A dataspace of two pages, the second of which is not yet allocated. -/
def holeStore : VmStore where
  rms _ := { rmChilds := [⟨0, 0x2000, 2, .dataspace⟩], rmSize := 0x3000 }
  dss _ := { dsNPages := 2, dsSize := 0x2000, dsPages := fun i => if i = 0 then 0x5000 else 0 }

/-- A fault on the allocated page maps the hole behind it as well. -/
theorem not_mapsBackingPage_hole :
    MapperTree holeStore 1 ∧
      rmPagefault 2 holeStore threePages presentMmu 1 0xc1000000 4 =
        some (.returned .ok [⟨0xc1000000, 0x5000, 0⟩, ⟨0xc1001000, 0, 0⟩]) ∧
      ¬MapsBackingPage holeStore threePages 1 0xc1000000
        [⟨0xc1000000, 0x5000, 0⟩, ⟨0xc1001000, 0, 0⟩] := by
  refine ⟨?_, by decide, ?_⟩
  · refine .node (by decide) (RegionMapper.WellSpaced.layout ?_) ?_ ?_
    · simp [RegionMapper.WellSpaced, holeStore, Spaced, RegionMapperObject.finish]
    · simp [holeStore]
    · simp [holeStore]
  · rintro ⟨_, _, _, _, _, noHoles⟩
    exact noHoles ⟨0xc1001000, 0, 0⟩ (by simp) rfl rfl

end ProtectionDomain

end Rkernel
