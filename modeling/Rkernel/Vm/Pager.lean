import Rkernel.Vm.RegionMapper

/-!
# The region-mapper pager

`rm_pagefault` (`vm/rm_pager.c`) walks down a tree of region mappers to the
dataspace that backs an address and then enters the pages of that dataspace in
the page tables. The walk is driven by two variables, the current object and its
type, which `rm_ll_lookup` updates when it finds a region.

Objects live in a `VmStore`, which maps their addresses to their contents. Locks
are left out: one page fault is handled by one thread. Following a null object is
an outcome of its own, and the loop runs on fuel, since nothing in the code
bounds it.
-/

namespace Rkernel

/-- `enum vm_errcode` -/
inductive VmErrcode where
  | ok
  | failure
  | segfault
  | again
  deriving DecidableEq

/-- `struct dataspace`, with its pages behind it. -/
structure Dataspace where
  dsNPages : BitVec 27
  dsSize : Vaddr
  dsPages : ℕ → Paddr

structure ProtectionDomain where
  pdBegin : Vaddr
  pdEnd : Vaddr
  pdPmap : Pmap

/-- A call of `pd_enter` with its result. -/
structure PdEnter where
  va : Vaddr
  pa : Paddr
  ret : ℤ
  deriving DecidableEq

/-- `struct page_fault` -/
structure PageFault where
  offset : Vaddr
  ptr : Vaddr
  size : Vaddr
  type : VmProt

/-- The region mappers and dataspaces by their addresses. -/
structure VmStore where
  rms : ℕ → RegionMapper
  dss : ℕ → Dataspace

/-- The variables of `rm_pagefault`, with the page tables and the calls of `pd_enter`. -/
structure Pager where
  object : ℕ
  type : RmoType
  fault : PageFault
  mmu : Mmu
  calls : List PdEnter

def pdEnter (pd : ProtectionDomain) (va : Vaddr) (pa : Paddr) (prot : VmProt) (flags : BitVec 16)
    (pager : Pager) : Pager :=
  let entered := pmapEnter pager.mmu pd.pdPmap va pa prot flags
  { pager with mmu := entered.2, calls := pager.calls ++ [⟨va, pa, entered.1⟩] }

/-- The loop of `dataspace_map`, with the number of iterations left. -/
def dataspaceMapLoop (pd : ProtectionDomain) (pages : ℕ → Paddr) (prot : VmProt) :
    ℕ → ℕ → Vaddr → Pager → Pager
  | 0, _, _, pager => pager
  | left + 1, i, base, pager =>
      dataspaceMapLoop pd pages prot left (i + 1) (base + 0x1000)
        (pdEnter pd base (pages i) prot 0 pager)

/-- The `n` of `dataspace_map`. -/
def dataspaceMapCount (ds : Dataspace) (size : Vaddr) : ℕ :=
  let size := if size > ds.dsSize then ds.dsSize else size
  let n := (size >>> 12).toNat
  if n > ds.dsNPages.toNat then ds.dsNPages.toNat else n

def dataspaceMap (pd : ProtectionDomain) (ds : Dataspace) (base size : Vaddr) (prot : VmProt)
    (pager : Pager) : Pager :=
  dataspaceMapLoop pd ds.dsPages prot (dataspaceMapCount ds size) 0 base pager

/-- The fault as `rm_ll_lookup` passes it on to a region it has found. -/
def PageFault.enter (fault : PageFault) (object : RegionMapperObject) : PageFault where
  ptr := fault.ptr - object.rmoOffset
  size :=
    if fault.size - object.rmoOffset > object.rmoSize then object.rmoSize
    else fault.size - object.rmoOffset
  offset := fault.offset + object.rmoOffset
  type := fault.type

/-- The loop of `rm_ll_lookup`: the returned object, the fault and the type. -/
def rmLlLookupLoop (fault : PageFault) (type : RmoType) :
    List RegionMapperObject → ℕ × PageFault × RmoType
  | [] => (0, fault, type)
  | object :: childs =>
      if fault.ptr < object.rmoOffset then (0, fault, type)
      else if fault.ptr < object.rmoOffset + object.rmoSize then
        if object.rmoType = .undefined then (0, fault, type)
        else (object.rmoObject, fault.enter object, object.rmoType)
      else rmLlLookupLoop fault type childs

def rmLlLookup (rm : RegionMapper) (fault : PageFault) (type : RmoType) :
    ℕ × PageFault × RmoType :=
  rmLlLookupLoop fault type rm.rmChilds

/-- The case `RMO_REGION_MAPPER` of `rm_dispatch_pagefault`. -/
def Pager.lookup (store : VmStore) (pager : Pager) : Pager :=
  let found := rmLlLookup (store.rms pager.object) pager.fault pager.type
  { pager with object := found.1, fault := found.2.1, type := found.2.2 }

/-- `rm_dispatch_pagefault`; no result means that a null object was followed. -/
def rmDispatchPagefault (store : VmStore) (pd : ProtectionDomain) (pager : Pager) :
    Option (VmErrcode × Pager) :=
  match pager.type with
  | .undefined => some (.failure, pager)
  | .dataspace =>
      if pager.object = 0 then none
      else
        some (.ok, dataspaceMap pd (store.dss pager.object) pager.fault.offset pager.fault.size
          pager.fault.type pager)
  | .regionMapper =>
      if pager.object = 0 then none else some (.again, pager.lookup store)

/-- How `rm_pagefault` ends. -/
inductive PagerOutcome where
  | nullObject
  | returned (ret : VmErrcode) (calls : List PdEnter)
  deriving DecidableEq

/-- The loop of `rm_pagefault`; no result means that the fuel did not suffice. -/
def rmPagefaultLoop (store : VmStore) (pd : ProtectionDomain) : ℕ → Pager → Option PagerOutcome
  | 0, _ => none
  | fuel + 1, pager =>
      match rmDispatchPagefault store pd pager with
      | none => some .nullObject
      | some (.again, next) => rmPagefaultLoop store pd fuel next
      | some (ret, next) => some (.returned ret next.calls)

/-- The size of a protection domain, rounded up to pages. -/
def ProtectionDomain.room (pd : ProtectionDomain) : Vaddr :=
  (pd.pdEnd - pd.pdBegin + 0xfff) &&& ~~~0xfff

/-- The variables of `rm_pagefault` before its loop. -/
def Pager.start (pd : ProtectionDomain) (mmu : Mmu) (rm : ℕ) (va : Vaddr) (faultType : VmProt) :
    Pager where
  object := rm
  type := .regionMapper
  fault := { offset := pd.pdBegin, ptr := va - pd.pdBegin, size := pd.room, type := faultType }
  mmu := mmu
  calls := []

def rmPagefault (fuel : ℕ) (store : VmStore) (pd : ProtectionDomain) (mmu : Mmu) (rm : ℕ)
    (va : Vaddr) (faultType : VmProt) : Option PagerOutcome :=
  if va < pd.pdBegin then some (.returned .segfault [])
  else if va - pd.pdBegin ≥ pd.room then some (.returned .segfault [])
  else rmPagefaultLoop store pd fuel (.start pd mmu rm va faultType)

end Rkernel
