import Rkernel.Lib.Transition
import Rkernel.Vm.KernelGrowth

/-!
# Concurrent growth of the kernel memory

Two threads that refill different zones hold different locks while they run
`grow_critical`. Its steps are modeled one by one: a read of `ds_pages` by the search, a call
of `vm_phys_alloc`, a store to `ds_pages` and a call of `pd_enter`, with any number of
threads and calls. The dataspace has a lock of its own, which is never taken. A search that
ends while another thread has a page left to store finds the entry that the other thread is
going to write.
-/

namespace Rkernel

/-- The variables of a call of `grow_critical` once it knows the dataspace; `start` is the
address of the region. -/
structure GrowVars where
  ds : ℕ
  start : Vaddr
  n : ℕ
  i : ℕ
  j : ℕ
  addr : Vaddr
  va : Vaddr
  sr : Vaddr

/-- Where a thread is: before the read of an entry, the call of `vm_phys_alloc`, the store of
a page or the call of `pd_enter`. -/
inductive GrowPc where
  | idle
  | search (vars : GrowVars)
  | fill (vars : GrowVars)
  | store (vars : GrowVars) (curpage : Paddr)
  | enter (vars : GrowVars) (curpage : Paddr)

/-- The kernel's memory, the threads, the ranges returned by calls that began in this run and
the frames these calls have allocated. -/
structure GrowState (Tid : Type) where
  kernel : KernelVm
  pc : Tid → GrowPc
  returned : List (Vaddr × Vaddr)
  allocated : List Paddr

namespace GrowState

variable {Tid : Type} [DecidableEq Tid]

def goto (state : GrowState Tid) (thread : Tid) (pc : GrowPc) : GrowState Tid :=
  { state with pc := Function.update state.pc thread pc }

/-- The end of `grow_critical` after the fill loop. -/
def finish (state : GrowState Tid) (thread : Tid) (vars : GrowVars) : GrowState Tid :=
  { state.goto thread .idle with
    returned :=
      if vars.sr = 0 then state.returned else (vars.addr, vars.sr) :: state.returned }

/-- The begin of `grow_critical`, up to the search. -/
def call (state : GrowState Tid) (thread : Tid) (n : ℕ) : GrowState Tid :=
  match state.kernel.kernelRm.rmChilds with
  | [] => state
  | rmo :: _ =>
      if rmo.rmoType ≠ .dataspace then state
      else
        state.goto thread (.search
          { ds := rmo.rmoObject
            start := state.kernel.kernelPd.pdBegin + rmo.rmoOffset
            n := n, i := 0, j := 0, addr := 0, va := 0, sr := 0 })

/-- The number of pages of the dataspace of a call. -/
def nPages (state : GrowState Tid) (vars : GrowVars) : ℕ :=
  (state.kernel.kernelRmodss vars.ds).dsNPages.toNat

def readPage (state : GrowState Tid) (vars : GrowVars) : Paddr :=
  (state.kernel.kernelRmodss vars.ds).dsPages vars.i

/-- One step of a thread in `grow_critical`. -/
def advance (state : GrowState Tid) (thread : Tid) : GrowState Tid :=
  match state.pc thread with
  | .idle => state
  | .search vars =>
      if state.nPages vars ≤ vars.i then state.goto thread .idle
      else if state.readPage vars ≠ 0 then
        state.goto thread (.search { vars with i := vars.i + 1 })
      else
        let va := vars.start + BitVec.ofNat 32 vars.i * 0x1000
        state.goto thread (.fill { vars with addr := va, va := va, sr := 0, j := 0 })
  | .fill vars =>
      if vars.n ≤ vars.j ∨ vars.i = state.nPages vars then state.finish thread vars
      else
        match vmPhysAlloc state.kernel.memoryAllocator with
        | (none, bmas) =>
            { state with kernel := { state.kernel with memoryAllocator := bmas } }.finish thread
              vars
        | (some curpage, bmas) =>
            { state with
              kernel := { state.kernel with memoryAllocator := bmas }
              allocated := curpage :: state.allocated }.goto thread (.store vars curpage)
  | .store vars curpage =>
      { state with kernel := state.kernel.storePage vars.ds vars.i curpage }.goto thread
        (.enter vars curpage)
  | .enter vars curpage =>
      { state with kernel := state.kernel.enterPage vars.va curpage }.goto thread
        (.fill { vars with
          i := vars.i + 1
          j := vars.j + 1
          va := vars.va + 0x1000
          sr := vars.sr + 0x1000 })

end GrowState

/-- A thread begins a call for a number of pages, or takes the next step of its call. -/
inductive GrowAction where
  | call (n : ℕ)
  | advance

/-- The threads begin in the kernel's memory as some calls after boot have left it. -/
def growSystem (Tid : Type) [DecidableEq Tid] :
    TransitionSystem (GrowState Tid) (Tid × GrowAction) where
  init state := ∃ first second words mmu rmodss calls,
    ValidRanges [first, second] ∧ first.pmBegin = 0 ∧
    state = ⟨(KernelRun.after [first, second] words mmu rmodss calls).kernel, fun _ => .idle,
      [], []⟩
  step state label next :=
    match label with
    | (thread, .call n) => state.pc thread = .idle ∧ next = state.call thread n
    | (thread, .advance) => state.pc thread ≠ .idle ∧ next = state.advance thread

namespace GrowState

variable {Tid : Type}

/-- The ranges that were returned are disjoint, and every allocated frame is recorded or about
to be. -/
structure Safe (state : GrowState Tid) : Prop where
  disjoint : state.returned.Pairwise fun later earlier =>
    earlier.1.toNat + earlier.2.toNat ≤ later.1.toNat ∨
      later.1.toNat + later.2.toNat ≤ earlier.1.toNat
  recorded : ∀ frame ∈ state.allocated, (∃ thread vars, state.pc thread = .store vars frame) ∨
    ∃ rmo, state.kernel.kernelRm.rmChilds.head? = some rmo ∧
      ∃ i < (state.kernel.kernelRmodss rmo.rmoObject).dsNPages.toNat,
        (state.kernel.kernelRmodss rmo.rmoObject).dsPages i = frame

/-- A thread has left its search and still has an entry to write. -/
def StoresAhead (state : GrowState Tid) (thread : Tid) : Prop :=
  match state.pc thread with
  | .idle => False
  | .search _ => False
  | .fill vars => vars.j < vars.n ∧ vars.i < state.nPages vars
  | .store _ _ => True
  | .enter vars _ => vars.j + 1 < vars.n ∧ vars.i + 1 < state.nPages vars

/-- The step does not end a search while another thread has an entry to write. -/
def SearchesAlone (state : GrowState Tid) (label : Tid × GrowAction) (_next : GrowState Tid) :
    Prop :=
  ∀ vars, label.2 = .advance → state.pc label.1 = .search vars → vars.i < state.nPages vars →
    state.readPage vars = 0 → ∀ other, other ≠ label.1 → ¬state.StoresAhead other

end GrowState

/-- The dataspace and the allocator when the first `count` pages of the region have frames; the
page tables do not matter. -/
structure Shared (slots : List (ℕ × Paddr)) (count : ℕ) (kernel : KernelVm) : Prop where
  domain : kernel.kernelPd = pdInit
  region : kernel.kernelRm.rmChilds = [firstRegion]
  capacity : (kernel.kernelRmodss 1).dsNPages = 128
  inside : count ≤ 128
  takes : ∃ taken, min 252 slots.length ≤ taken ∧ Takes slots taken kernel.memoryAllocator
  frames : ∀ i < count, (kernel.kernelRmodss 1).dsPages i ≠ 0
  free : ∀ i, count ≤ i → i < 128 → (kernel.kernelRmodss 1).dsPages i = 0

section Shared

variable {slots : List (ℕ × Paddr)} {count : ℕ} {kernel : KernelVm}

theorem Grown.shared (good : GoodSlots slots) (grown : Grown slots count kernel) :
    Shared slots count kernel :=
  ⟨grown.domain, grown.region, grown.capacity, grown.inside,
    ⟨_, Nat.le_add_right _ _, grown.takes⟩, fun _ recorded => grown.frame_ne_zero good recorded,
    grown.free⟩

/-- A call of the allocator returns a frame that is not at address 0, or fails. -/
theorem Shared.vmPhysAlloc_cases (good : GoodSlots slots) (shared : Shared slots count kernel) :
    vmPhysAlloc kernel.memoryAllocator = (none, kernel.memoryAllocator) ∨
      ∃ page bmas, vmPhysAlloc kernel.memoryAllocator = (some page, bmas) ∧ page ≠ 0 ∧
        Shared slots count { kernel with memoryAllocator := bmas } := by
  obtain ⟨taken, tables, takes⟩ := shared.takes
  cases isSlot : slots[taken]? with
  | none => exact Or.inl (takes.vmPhysAlloc_none (List.getElem?_eq_none_iff.mp isSlot))
  | some slot =>
      obtain ⟨bmas, allocated, takesNext⟩ := takes.vmPhysAlloc_some good.bits isSlot
      have inside := (List.getElem?_eq_some_iff.mp isSlot).1
      refine Or.inr ⟨slot.2, bmas, allocated, ?_, ?_⟩
      · intro isZero
        have := good.nonzero taken slot isSlot isZero
        omega
      · exact ⟨shared.domain, shared.region, shared.capacity, shared.inside,
          ⟨taken + 1, by omega, takesNext⟩, shared.frames, shared.free⟩

theorem storePage_dsNPages (kernel : KernelVm) (ds i other : ℕ) (page : Paddr) :
    ((kernel.storePage ds i page).kernelRmodss other).dsNPages =
      (kernel.kernelRmodss other).dsNPages := by
  by_cases same : other = ds
  · subst other
    simp [KernelVm.storePage]
  · simp [KernelVm.storePage, same]

theorem storePage_dsPages (kernel : KernelVm) (ds i : ℕ) (page : Paddr) :
    ((kernel.storePage ds i page).kernelRmodss ds).dsPages =
      Function.update (kernel.kernelRmodss ds).dsPages i page := by
  simp [KernelVm.storePage]

theorem Shared.storePage (shared : Shared slots count kernel) (room : count < 128) {page : Paddr}
    (nonzero : page ≠ 0) : Shared slots (count + 1) (kernel.storePage 1 count page) := by
  refine ⟨shared.domain, shared.region, ?_, room, shared.takes, ?_, ?_⟩
  · rw [storePage_dsNPages]
    exact shared.capacity
  · intro i inside
    rw [storePage_dsPages]
    by_cases last : i = count
    · subst i
      rw [Function.update_self]
      exact nonzero
    · rw [Function.update_of_ne last]
      exact shared.frames i (by omega)
  · intro i outside inRegion
    rw [storePage_dsPages, Function.update_of_ne (by omega)]
    exact shared.free i (by omega) inRegion

end Shared

/-- The variables in the fill loop: the first `j` pages of the call are those before the
`i`-th page of the region. -/
structure GrowVars.Filling (vars : GrowVars) : Prop where
  ds : vars.ds = 1
  inRegion : vars.i ≤ 128
  counted : vars.j ≤ vars.i
  addr : vars.addr = regionPage (vars.i - vars.j)
  va : vars.va = regionPage vars.i
  sr : vars.sr.toNat = vars.j * 4096

namespace GrowPc

/-- The variables of a thread fit the number of pages with a frame. -/
def WellFormed (count : ℕ) : GrowPc → Prop
  | .idle => True
  | .search vars => vars.ds = 1 ∧ vars.start = kernelVab ∧ vars.i ≤ count
  | .fill vars => vars.Filling ∧ vars.i ≤ count ∧ (vars.j < vars.n → vars.i < 128 → vars.i = count)
  | .store vars curpage =>
      vars.Filling ∧ vars.j < vars.n ∧ vars.i < 128 ∧ vars.i = count ∧ curpage ≠ 0
  | .enter vars _ =>
      vars.Filling ∧ vars.i < count ∧
        (vars.j + 1 < vars.n → vars.i + 1 < 128 → vars.i + 1 = count)

/-- The pages of the region that a thread has stored in its current call. -/
def span : GrowPc → Option (ℕ × ℕ)
  | .idle => none
  | .search _ => none
  | .fill vars => some (vars.i - vars.j, vars.i)
  | .store vars _ => some (vars.i - vars.j, vars.i)
  | .enter vars _ => some (vars.i - vars.j, vars.i + 1)

theorem WellFormed.span_le {count : ℕ} {pc : GrowPc} (wellFormed : pc.WellFormed count)
    {span : ℕ × ℕ} (isSpan : pc.span = some span) : span.2 ≤ count := by
  cases pc with
  | idle => simp [GrowPc.span] at isSpan
  | search vars => simp [GrowPc.span] at isSpan
  | fill vars =>
      simp only [GrowPc.span, Option.some.injEq] at isSpan
      rw [← isSpan]
      exact wellFormed.2.1
  | store vars curpage =>
      simp only [GrowPc.span, Option.some.injEq] at isSpan
      rw [← isSpan]
      exact Nat.le_of_eq wellFormed.2.2.2.1
  | enter vars curpage =>
      simp only [GrowPc.span, Option.some.injEq] at isSpan
      rw [← isSpan]
      exact wellFormed.2.1

end GrowPc

end Rkernel
