import Rkernel.Physmem.Alloc
import Rkernel.Vm.Pager

/-!
# Kernel memory

`vm_init` (`vm/vm_init.c`) sets up the page tables of the kernel, its protection domain and
a region mapper with one region of 128 pages, whose frames are recorded in a dataspace.
`grow_critical` (`vm/kmem_util2.c`) extends the part of that region that is backed: it
searches the first page without a frame and then gives frames to the pages from there on.

`kernel_rmodss[i]` has the address `i + 1`. Locks are left out, since the calls of one
thread follow each other; `zone_bootstrap` does not touch this state.
-/

namespace Rkernel

/-- `pmap_zero_page`, without the window through which the frame is written. -/
def Mmu.zeroPage (mmu : Mmu) (frame : Paddr) : Mmu :=
  { mmu with pageTables := Function.update mmu.pageTables frame fun _ => 0 }

def Mmu.setDirectory (mmu : Mmu) (index : BitVec 32) (entry : Paddr) : Mmu :=
  { mmu with kernelPageDir := Function.update mmu.kernelPageDir index entry }

/-- The loop of `pmap_init` from a directory entry on. -/
def pmapInitLoop : (left : ℕ) → (i : BitVec 32) → PhysmemBmaset → Mmu → PhysmemBmaset × Mmu
  | 0, _, bmas, mmu => (bmas, mmu)
  | left + 1, i, bmas, mmu =>
      match vmPhysAlloc bmas with
      | (some phys, bmas) =>
          pmapInitLoop left (i + 1) bmas ((mmu.zeroPage phys).setDirectory i (phys ||| ptePw))
      | (none, bmas) => pmapInitLoop left (i + 1) bmas (mmu.setDirectory i 0)

/-- `pmap_init`: a page table for each of the directory entries 772 to 1023. -/
def pmapInit (bmas : PhysmemBmaset) (mmu : Mmu) : PhysmemBmaset × Mmu :=
  pmapInitLoop 252 772 bmas mmu

def pdInit : ProtectionDomain where
  pdBegin := kernelVab
  pdEnd := kernelVae
  pdPmap := .pInstKernel

/-- `ds_construct`: the number of pages whose frames fit in the buffer. -/
def dsConstruct (bufsize : Vaddr) (pages : ℕ → Paddr) : Dataspace :=
  let size := (bufsize - 16) / 4
  let size := if size ≥ 0x8000000 then 0x8000000 - 1 else size
  { dsNPages := size.setWidth 27, dsSize := 0, dsPages := pages }

/-- The kernel's memory: its domain, its region mapper with the static dataspaces by
address, the physical allocator and the page tables. -/
structure KernelVm where
  kernelPd : ProtectionDomain
  kernelRm : RegionMapper
  kernelRmoi : ℕ
  kernelRmodss : ℕ → Dataspace
  memoryAllocator : PhysmemBmaset
  mmu : Mmu

/-- `N_RMOS` -/
def nRmos : ℕ := 4

/-- `rm_kalloc`: the next static region object, with its dataspace. -/
def rmKalloc (kernel : KernelVm) : Option RegionMapperObject × KernelVm :=
  if nRmos ≤ kernel.kernelRmoi then (none, kernel)
  else
    let address := kernel.kernelRmoi + 1
    let ds := dsConstruct 536 (kernel.kernelRmodss address).dsPages
    let nPages := if ds.dsNPages > 128 then 128 else ds.dsNPages
    let ds : Dataspace :=
      { dsNPages := nPages
        dsSize := nPages.setWidth 32 * 0x1000
        dsPages := fun i => if i < nPages.toNat then 0 else ds.dsPages i }
    (some ⟨0, ds.dsSize, address, .dataspace⟩,
      { kernel with
        kernelRmoi := kernel.kernelRmoi + 1
        kernelRmodss := Function.update kernel.kernelRmodss address ds })

/-- `rm_init` -/
def rmInit (kernel : KernelVm) : KernelVm :=
  let size := (kernelVae &&& ~~~0xfff) - kernelVab + 0x1000
  match rmKalloc { kernel with kernelRmoi := 0 } with
  | (some rmo, kernel) => { kernel with kernelRm := (rmInsert (rmConstruct size) rmo).2.1 }
  | (none, kernel) => { kernel with kernelRm := rmConstruct size }

/-- `vm_init`, over the page tables and dataspaces as they were before. -/
def vmInit (bmas : PhysmemBmaset) (mmu : Mmu) (rmodss : ℕ → Dataspace) : KernelVm :=
  let paged := pmapInit bmas mmu
  rmInit
    { kernelPd := pdInit
      kernelRm := rmConstruct 0
      kernelRmoi := 0
      kernelRmodss := rmodss
      memoryAllocator := paged.1
      mmu := paged.2 }

def vmProtRead : VmProt := 4

/-- `VM_PROT_KMEM` -/
def vmProtKmem : VmProt := vmProtRead ||| vmProtWrite

/-- The first index from `i` on without a frame. -/
def growSearch (pages : ℕ → Paddr) : (left i : ℕ) → ℕ
  | 0, i => i
  | left + 1, i => if pages i = 0 then i else growSearch pages left (i + 1)

/-- `pages[i] = curpage` in the dataspace at an address. -/
def KernelVm.storePage (kernel : KernelVm) (ds i : ℕ) (page : Paddr) : KernelVm :=
  { kernel with
    kernelRmodss := Function.update kernel.kernelRmodss ds
      { kernel.kernelRmodss ds with
        dsPages := Function.update (kernel.kernelRmodss ds).dsPages i page } }

/-- `pd_enter` with the kernel's domain, whose result is not looked at. -/
def KernelVm.enterPage (kernel : KernelVm) (va : Vaddr) (page : Paddr) : KernelVm :=
  { kernel with mmu := (pmapEnter kernel.mmu kernel.kernelPd.pdPmap va page vmProtKmem 0).2 }

/-- The second loop of `grow_critical`, with the iterations left: the bytes added to `sr`. -/
def growFill (ds : ℕ) : (left i : ℕ) → (va sr : Vaddr) → KernelVm → Vaddr × KernelVm
  | 0, _, _, sr, kernel => (sr, kernel)
  | left + 1, i, va, sr, kernel =>
      if i = (kernel.kernelRmodss ds).dsNPages.toNat then (sr, kernel)
      else
        match vmPhysAlloc kernel.memoryAllocator with
        | (none, bmas) => (sr, { kernel with memoryAllocator := bmas })
        | (some curpage, bmas) =>
            growFill ds left (i + 1) (va + 0x1000) (sr + 0x1000)
              ((({ kernel with memoryAllocator := bmas }).storePage ds i curpage).enterPage va
                curpage)

/-- The result of a call: the status, the two outputs and the state. -/
structure Growth where
  ret : ℤ
  addr : Vaddr
  size : Vaddr
  kernel : KernelVm

/-- `grow_critical`, with the previous contents of its outputs. -/
def growCritical (addr size : Vaddr) (n : ℕ) (kernel : KernelVm) : Growth :=
  match kernel.kernelRm.rmChilds with
  | [] => ⟨0, addr, size, kernel⟩
  | rmo :: _ =>
      if rmo.rmoType ≠ .dataspace then ⟨0, addr, size, kernel⟩
      else
        let ds := kernel.kernelRmodss rmo.rmoObject
        let i := growSearch ds.dsPages ds.dsNPages.toNat 0
        if i ≥ ds.dsNPages.toNat then ⟨0, addr, size, kernel⟩
        else
          let va := kernel.kernelPd.pdBegin + rmo.rmoOffset + BitVec.ofNat 32 i * 0x1000
          let filled := growFill rmo.rmoObject n i va 0 kernel
          ⟨if filled.1 = 0 then 0 else 1, va, filled.1, filled.2⟩

/-- The common body of the two callers of `grow_critical`. -/
def growRounded (addr size : Vaddr) (kernel : KernelVm) : Growth :=
  let s := (size + 0xfff) &&& ~~~0xfff
  growCritical addr size (divPagesize s).toNat kernel

def vmAllocCritical (addr size : Vaddr) (kernel : KernelVm) : Growth :=
  growRounded addr size kernel

def vmKallocLl (addr size : Vaddr) (kernel : KernelVm) : Growth :=
  growRounded addr size kernel

/-- A call of one of the two functions with its arguments. -/
inductive KernelCall where
  | vmAllocCritical (addr size : Vaddr)
  | vmKallocLl (addr size : Vaddr)

namespace KernelCall

def request : KernelCall → Vaddr
  | .vmAllocCritical _ size => size
  | .vmKallocLl _ size => size

def apply (kernel : KernelVm) : KernelCall → Growth
  | .vmAllocCritical addr size => Rkernel.vmAllocCritical addr size kernel
  | .vmKallocLl addr size => Rkernel.vmKallocLl addr size kernel

end KernelCall

/-- The kernel's memory and the address and size of every range returned so far. -/
structure KernelRun where
  kernel : KernelVm
  returned : List (Vaddr × Vaddr)

namespace KernelRun

def step (run : KernelRun) (call : KernelCall) : KernelRun :=
  let growth := call.apply run.kernel
  { kernel := growth.kernel
    returned :=
      if growth.ret = 0 then run.returned else (growth.addr, growth.size) :: run.returned }

/-- The state after `kern_initmem`, `vm_init` and some calls. -/
def after (ranges : List PhysmemRange) (words : BitArray 32) (mmu : Mmu)
    (rmodss : ℕ → Dataspace) (calls : List KernelCall) : KernelRun :=
  calls.foldl step ⟨vmInit (PhysmemBmaset.booted ranges words) mmu rmodss, []⟩

end KernelRun

/-- The directory and the page table have entries for an address, both present and writable,
and the latter holds the frame. -/
structure Mmu.MapsWritable (mmu : Mmu) (va : Vaddr) (frame : Paddr) : Prop where
  directory : mmu.kernelPageDir (pdx va) &&& ptePw = ptePw
  flags : mmu.pageTables (pteAddr (mmu.kernelPageDir (pdx va))) (ptx va) &&& ptePw = ptePw
  address : pteAddr (mmu.pageTables (pteAddr (mmu.kernelPageDir (pdx va))) (ptx va)) = frame

section Correct

variable (rmo : RegionMapperObject)

/-- The address at which a region of the kernel begins. -/
def KernelVm.regionBase (kernel : KernelVm) : Vaddr :=
  kernel.kernelPd.pdBegin + rmo.rmoOffset

/-- The frame recorded for an address in a region. -/
def KernelVm.frameAt (kernel : KernelVm) (va : Vaddr) : Paddr :=
  (kernel.kernelRmodss rmo.rmoObject).dsPages ((va - kernel.regionBase rmo).toNat / 4096)

/-- The memory of the first region: the pages with a frame are its first ones, their frames are
distinct, and the ranges that were returned are disjoint and consist of such pages, each mapped
to its frame. -/
structure KernelRun.Correct (run : KernelRun) : Prop where
  region : run.kernel.kernelRm.rmChilds.head? = some rmo ∧ rmo.rmoType = .dataspace
  allocated : ∃ count, ∀ i < (run.kernel.kernelRmodss rmo.rmoObject).dsNPages.toNat,
    (run.kernel.kernelRmodss rmo.rmoObject).dsPages i ≠ 0 ↔ i < count
  distinct : ∀ i < (run.kernel.kernelRmodss rmo.rmoObject).dsNPages.toNat,
    ∀ j < (run.kernel.kernelRmodss rmo.rmoObject).dsNPages.toNat,
    (run.kernel.kernelRmodss rmo.rmoObject).dsPages i ≠ 0 →
    (run.kernel.kernelRmodss rmo.rmoObject).dsPages i =
      (run.kernel.kernelRmodss rmo.rmoObject).dsPages j → i = j
  disjoint : run.returned.Pairwise fun later earlier =>
    earlier.1.toNat + earlier.2.toNat ≤ later.1.toNat ∨
      later.1.toNat + later.2.toNat ≤ earlier.1.toNat
  backed : ∀ range ∈ run.returned, ∀ page, page * 4096 < range.2.toNat →
    run.kernel.frameAt rmo (range.1 + BitVec.ofNat 32 page * 0x1000) ≠ 0 ∧
    run.kernel.mmu.MapsWritable (range.1 + BitVec.ofNat 32 page * 0x1000)
      (run.kernel.frameAt rmo (range.1 + BitVec.ofNat 32 page * 0x1000))

/-- A call that does not return 0 returns some pages of the region, not more than were
requested; one that does has changed nothing. -/
structure KernelRun.CallCorrect (run : KernelRun) (call : KernelCall) : Prop where
  success : (call.apply run.kernel).ret ≠ 0 → ∃ pages, 1 ≤ pages ∧
    pages ≤ (call.request.toNat + 4095) / 4096 ∧
    (call.apply run.kernel).size.toNat = pages * 4096 ∧
    (call.apply run.kernel).addr.toNat % 4096 = 0 ∧
    (run.kernel.regionBase rmo).toNat ≤ (call.apply run.kernel).addr.toNat ∧
    (call.apply run.kernel).addr.toNat + (call.apply run.kernel).size.toNat ≤
      (run.kernel.regionBase rmo).toNat + rmo.rmoSize.toNat
  failure : (call.apply run.kernel).ret = 0 →
    (call.apply run.kernel).kernel.kernelRmodss = run.kernel.kernelRmodss ∧
      (call.apply run.kernel).kernel.mmu = run.kernel.mmu

end Correct

end Rkernel
