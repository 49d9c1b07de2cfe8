import Rkernel.Arch.Window
import Rkernel.Lib.Transition
import Mathlib.Data.List.Pairwise

/-!
# Runs of temporary mappings

Calls of the four functions in any order, as long as only live mappings are unmapped, with the
address and the size they were mapped with. The live mappings have disjoint entries of the
window, and all other entries are as they were at the start.
-/

namespace Rkernel

/-- A live mapping with the address and the size of its call; a mapping by `map_page` counts as
one of a whole page. -/
structure WindowMapping where
  isRange : Bool
  va : Vaddr
  pa : Paddr
  n : BitVec 32
  deriving DecidableEq

namespace WindowMapping

/-- The first entry of a mapping. -/
def first (mapping : WindowMapping) : ℕ := slotOf mapping.va

/-- The number of entries of a mapping. -/
def count (mapping : WindowMapping) : ℕ := (mappedPages mapping.pa mapping.n).toNat

/-- The slot is one of the mapping. -/
def Occupies (mapping : WindowMapping) (slot : ℕ) : Prop :=
  mapping.first ≤ slot ∧ slot < mapping.first + mapping.count

end WindowMapping

/-- The kernel's page table as it was at first, as it is now, and the live mappings. -/
structure WindowState where
  before : KernelPageTable
  table : KernelPageTable
  live : List WindowMapping

/-- The calls of the window functions. -/
inductive WindowOp where
  | mapPage (pa : Paddr)
  | unmapPage (va : Vaddr)
  | mapRange (pa : Paddr) (n : BitVec 32)
  | unmapRange (va : Vaddr) (n : BitVec 32)

namespace WindowState

/-- The state after a map call with its result. -/
def mapped (state : WindowState) (isRange : Bool) (pa : Paddr) (n : BitVec 32)
    (result : Vaddr × KernelPageTable) : WindowState :=
  { state with
    table := result.2
    live := if result.1 = 0 then state.live else ⟨isRange, result.1, pa, n⟩ :: state.live }

/-- A mapping is taken back; `table` is the page table afterwards. -/
def unmapped (state : WindowState) (mapping : WindowMapping) (table : KernelPageTable) :
    WindowState :=
  { state with table := table, live := state.live.erase mapping }

end WindowState

/-- Calls with positive sizes that unmap live mappings only. -/
def windowSystem : TransitionSystem WindowState WindowOp where
  init state := state.table = state.before ∧ state.live = []
  step state op next :=
    match op with
    | .mapPage pa => next = state.mapped false (pteAddr pa) 0x1000 (mapPage pa state.table)
    | .mapRange pa n =>
        0 < n.toInt ∧ next = state.mapped true pa n (i686MpMapRange pa n state.table)
    | .unmapPage va => ∃ mapping ∈ state.live, mapping.isRange = false ∧ mapping.va = va ∧
        next = state.unmapped mapping (unmapPage va state.table)
    | .unmapRange va n => ∃ mapping ∈ state.live, mapping.isRange = true ∧ mapping.va = va ∧
        mapping.n = n ∧ ∃ table, i686MpUnmapRange va n state.table = some table ∧
          next = state.unmapped mapping table

/-- The window in a state of a run. -/
structure WindowState.Correct (state : WindowState) : Prop where
  inWindow : ∀ mapping ∈ state.live,
    kptmin ≤ mapping.first ∧ mapping.first + mapping.count ≤ kptmax
  disjoint : state.live.Pairwise fun mapping other =>
    ∀ slot, ¬(mapping.Occupies slot ∧ other.Occupies slot)
  wereFree : ∀ mapping ∈ state.live, ∀ slot, mapping.Occupies slot → state.before slot = 0
  translates : ∀ mapping ∈ state.live, ∀ k < mapping.n.toNat,
    translate state.table (mapping.va + BitVec.ofNat 32 k) =
      some (mapping.pa + BitVec.ofNat 32 k)
  others : ∀ slot, (∀ mapping ∈ state.live, ¬mapping.Occupies slot) →
    state.table slot = state.before slot

/-- A call of `__i686_mp_map_range`: a failing call changes nothing and finds no run that is
long enough; a successful one takes a run of free entries and nothing else, maps the addresses
one to one, and is undone by `__i686_mp_unmap_range`. -/
structure MapRangeCorrect (pa : Paddr) (n : BitVec 32) (table : KernelPageTable) : Prop where
  failure : (i686MpMapRange pa n table).1 = 0 → (i686MpMapRange pa n table).2 = table ∧
    ∀ first, ¬FreeRun table first (mappedPages pa n).toNat
  success : (i686MpMapRange pa n table).1 ≠ 0 →
    FreeRun table (slotOf (i686MpMapRange pa n table).1) (mappedPages pa n).toNat ∧
    (∀ k < n.toNat, translate (i686MpMapRange pa n table).2
      ((i686MpMapRange pa n table).1 + BitVec.ofNat 32 k) = some (pa + BitVec.ofNat 32 k)) ∧
    (∀ slot, ¬(slotOf (i686MpMapRange pa n table).1 ≤ slot ∧
      slot < slotOf (i686MpMapRange pa n table).1 + (mappedPages pa n).toNat) →
        (i686MpMapRange pa n table).2 slot = table slot) ∧
    i686MpUnmapRange (i686MpMapRange pa n table).1 n (i686MpMapRange pa n table).2 = some table

/-- The same for `map_page` and `unmap_page`. -/
structure MapPageCorrect (pa : Paddr) (table : KernelPageTable) : Prop where
  failure : (mapPage pa table).1 = 0 → (mapPage pa table).2 = table ∧
    ∀ first, ¬FreeRun table first 1
  success : (mapPage pa table).1 ≠ 0 →
    FreeRun table (slotOf (mapPage pa table).1) 1 ∧
    (∀ k < 4096, translate (mapPage pa table).2 ((mapPage pa table).1 + BitVec.ofNat 32 k) =
      some (pteAddr pa + BitVec.ofNat 32 k)) ∧
    (∀ slot, slot ≠ slotOf (mapPage pa table).1 → (mapPage pa table).2 slot = table slot) ∧
    unmapPage (mapPage pa table).1 (mapPage pa table).2 = table

/-- Unmapping a live mapping sets its entries back to what they were and leaves the others. -/
def WindowState.UnmapCorrect (state : WindowState) (mapping : WindowMapping) : Prop :=
  ∃ table, (if mapping.isRange then i686MpUnmapRange mapping.va mapping.n state.table
      else some (unmapPage mapping.va state.table)) = some table ∧
    ∀ slot, (mapping.Occupies slot → table slot = state.before slot) ∧
      (¬mapping.Occupies slot → table slot = state.table slot)

theorem slotOf_slotAddress_add {first : ℕ} (inTable : first < kptmax) (pa : Paddr) :
    slotOf (slotAddress first + (pa &&& 0xfff)) = first := by
  have address := @toNat_slotAddress_add pa first inTable
  rw [slotOf_eq (by omega), address]
  omega

theorem slotAddress_add_ne_zero {first : ℕ} (inTable : first < kptmax) (pa : Paddr) :
    slotAddress first + (pa &&& 0xfff) ≠ 0 := by
  intro isZero
  have address := @toNat_slotAddress_add pa first inTable
  rw [isZero] at address
  have zero : (0 : BitVec 32).toNat = 0 := rfl
  omega

/-- A mapping by `map_page` as one of a whole page. -/
theorem mapPage_asRange (pa : Paddr) :
    pteAddr pa &&& 0xfff = 0 ∧ (mappedPages (pteAddr pa) 0x1000).toNat = 1 := by
  have offset : pteAddr pa &&& 0xfff = 0 := pteFlags_pteAddr pa
  have aligned := toNat_pteAddr pa
  have size : (0x1000 : BitVec 32).toNat = 0x1000 := rfl
  refine ⟨offset, ?_⟩
  rw [toNat_mappedPages (by decide), size, aligned]
  omega

section WithRun

variable {table : KernelPageTable} {first count : ℕ} {pa : Paddr}

theorem withRun_inside {k : ℕ} (inside : k < count) :
    withRun first count pa table (first + k) =
      pteAddr (pa + BitVec.ofNat 32 k * 0x1000) ||| ptePw := by
  rw [withRun, if_pos (by omega), Nat.add_sub_cancel_left]

theorem withRun_one (first : ℕ) (pa : Paddr) (table : KernelPageTable) :
    withRun first 1 pa table = withRun first 1 (pteAddr pa) table := by
  funext slot
  rw [withRun, withRun]
  split
  · rename_i inside
    have here : slot - first = 0 := by omega
    have same (address : Paddr) : address + BitVec.ofNat 32 0 * 0x1000 = address := by simp
    rw [here, same, same, pteAddr_pteAddr]
  · rfl

theorem clearRun_one (first : ℕ) (table : KernelPageTable) :
    clearRun first 1 table = Function.update table first 0 := by
  funext slot
  rw [clearRun, Function.update_apply]
  by_cases here : slot = first
  · rw [if_pos (by omega), if_pos here]
  · rw [if_neg (by omega), if_neg here]

end WithRun

theorem or_ptePw_ne_zero (page : Paddr) : page ||| ptePw ≠ 0 := by
  intro isZero
  have flags := BitVec.setFlag_and_self page ptePw
  rw [isZero] at flags
  revert flags
  decide

/-- A mapping that is entered in the table at a place that was free at the start. -/
structure WindowMapping.Placed (before table : KernelPageTable) (mapping : WindowMapping) :
    Prop where
  positive : 0 < mapping.n.toNat
  small : mapping.n.toNat < 2 ^ 31
  isPage : mapping.isRange = false → mapping.pa &&& 0xfff = 0 ∧ mapping.count = 1
  address : mapping.va = slotAddress mapping.first + (mapping.pa &&& 0xfff)
  begins : kptmin ≤ mapping.first
  ends : mapping.first + mapping.count ≤ kptmax
  maps : ∀ k < mapping.count, table (mapping.first + k) =
    pteAddr (mapping.pa + BitVec.ofNat 32 k * 0x1000) ||| ptePw
  wereFree : ∀ slot, mapping.Occupies slot → before slot = 0

structure WindowInv (state : WindowState) : Prop where
  placed : ∀ mapping ∈ state.live, mapping.Placed state.before state.table
  disjoint : state.live.Pairwise fun mapping other =>
    ∀ slot, ¬(mapping.Occupies slot ∧ other.Occupies slot)
  others : ∀ slot, (∀ mapping ∈ state.live, ¬mapping.Occupies slot) →
    state.table slot = state.before slot

section Invariant

variable {state : WindowState} {mapping : WindowMapping}

theorem WindowMapping.Placed.ne_zero {before table : KernelPageTable}
    (placed : mapping.Placed before table) {slot : ℕ} (occupied : mapping.Occupies slot) :
    table slot ≠ 0 := by
  obtain ⟨begun, inside⟩ := occupied
  have entry := placed.maps (slot - mapping.first) (by omega)
  rw [Nat.add_sub_cancel' begun] at entry
  rw [entry]
  exact or_ptePw_ne_zero _

theorem WindowMapping.Placed.congr {before table other : KernelPageTable}
    (placed : mapping.Placed before table)
    (same : ∀ slot, mapping.Occupies slot → other slot = table slot) :
    mapping.Placed before other := by
  refine ⟨placed.positive, placed.small, placed.isPage, placed.address, placed.begins, placed.ends,
    ?_, placed.wereFree⟩
  intro k inside
  rw [same _ ⟨Nat.le_add_right _ _, by omega⟩, placed.maps k inside]

theorem WindowInv.correct (inv : WindowInv state) : state.Correct := by
  refine ⟨?_, inv.disjoint, ?_, ?_, inv.others⟩
  · intro mapping isLive
    exact ⟨(inv.placed mapping isLive).begins, (inv.placed mapping isLive).ends⟩
  · intro mapping isLive
    exact (inv.placed mapping isLive).wereFree
  · intro mapping isLive k inside
    have placed := inv.placed mapping isLive
    rw [placed.address]
    exact translate_run placed.small placed.ends placed.maps inside

/-- A free run is occupied by no live mapping and was free at the start. -/
theorem WindowInv.freeRun (inv : WindowInv state) {first count : ℕ}
    (run : FreeRun state.table first count) {slot : ℕ} (begun : first ≤ slot)
    (inside : slot < first + count) :
    (∀ mapping ∈ state.live, ¬mapping.Occupies slot) ∧ state.before slot = 0 := by
  have isFree := run.free (slot - first) (by omega)
  rw [Nat.add_sub_cancel' begun] at isFree
  have unoccupied : ∀ mapping ∈ state.live, ¬mapping.Occupies slot :=
    fun mapping isLive occupied => (inv.placed mapping isLive).ne_zero occupied isFree
  exact ⟨unoccupied, (inv.others slot unoccupied).symm.trans isFree⟩

theorem WindowInv.map (inv : WindowInv state) (isRange : Bool) {pa : Paddr} {n : BitVec 32}
    (positive : 0 < n.toNat) (small : n.toNat < 2 ^ 31)
    (isPage : isRange = false → pa &&& 0xfff = 0 ∧ (mappedPages pa n).toNat = 1) {first : ℕ}
    (run : FreeRun state.table first (mappedPages pa n).toNat) :
    WindowInv { state with
      table := withRun first (mappedPages pa n).toNat pa state.table
      live := ⟨isRange, slotAddress first + (pa &&& 0xfff), pa, n⟩ :: state.live } := by
  have firstLt := run.first_lt (mappedPages_pos positive small)
  have isFirst : WindowMapping.first ⟨isRange, slotAddress first + (pa &&& 0xfff), pa, n⟩ = first :=
    slotOf_slotAddress_add firstLt pa
  have occupies : ∀ slot,
      WindowMapping.Occupies ⟨isRange, slotAddress first + (pa &&& 0xfff), pa, n⟩ slot ↔
        first ≤ slot ∧ slot < first + (mappedPages pa n).toNat := by
    intro slot
    rw [WindowMapping.Occupies, isFirst]
    rfl
  refine ⟨?_, List.pairwise_cons.mpr ⟨?_, inv.disjoint⟩, ?_⟩
  · intro mapping mappingMem
    rcases List.mem_cons.mp mappingMem with rfl | isLive
    · refine ⟨positive, small, isPage, by rw [isFirst], by rw [isFirst]; exact run.begins,
        by rw [isFirst]; exact run.ends, ?_, ?_⟩
      · intro k inside
        rw [isFirst]
        exact withRun_inside inside
      · intro slot occupied
        have inRun := (occupies slot).mp occupied
        exact (inv.freeRun run inRun.1 inRun.2).2
    · apply (inv.placed mapping isLive).congr
      intro slot occupied
      simp only [withRun]
      rw [if_neg fun inRun => (inv.freeRun run inRun.1 inRun.2).1 mapping isLive occupied]
  · rintro other isLive slot ⟨occupied, otherOccupies⟩
    have inRun := (occupies slot).mp occupied
    exact (inv.freeRun run inRun.1 inRun.2).1 other isLive otherOccupies
  · intro slot unoccupied
    have outside := unoccupied _ List.mem_cons_self
    rw [occupies] at outside
    simp only [withRun]
    rw [if_neg outside]
    exact inv.others slot fun mapping isLive => unoccupied mapping (List.mem_cons_of_mem _ isLive)

theorem clearRun_of_occupies (table : KernelPageTable) {slot : ℕ}
    (occupied : mapping.Occupies slot) : clearRun mapping.first mapping.count table slot = 0 :=
  if_pos occupied

theorem clearRun_of_not_occupies (table : KernelPageTable) {slot : ℕ}
    (unoccupied : ¬mapping.Occupies slot) :
    clearRun mapping.first mapping.count table slot = table slot :=
  if_neg unoccupied

theorem WindowInv.unmap (inv : WindowInv state) (isLive : mapping ∈ state.live) :
    WindowInv (state.unmapped mapping (clearRun mapping.first mapping.count state.table)) := by
  have apart : ∀ other ∈ state.live.erase mapping, ∀ slot,
      ¬(mapping.Occupies slot ∧ other.Occupies slot) := by
    intro other otherMem slot
    have reordered := inv.disjoint.perm (List.perm_cons_erase isLive)
      (fun {left right} apart slot both => apart slot both.symm)
    exact (List.pairwise_cons.mp reordered).1 other otherMem slot
  refine ⟨?_, inv.disjoint.sublist List.erase_sublist, ?_⟩
  · intro other otherMem
    apply (inv.placed other (List.mem_of_mem_erase otherMem)).congr
    intro slot occupied
    have outside : ¬mapping.Occupies slot := fun both => apart other otherMem slot ⟨both, occupied⟩
    exact clearRun_of_not_occupies _ outside
  · intro slot unoccupied
    by_cases occupied : mapping.Occupies slot
    · exact (clearRun_of_occupies _ occupied).trans
        ((inv.placed mapping isLive).wereFree slot occupied).symm
    · refine (clearRun_of_not_occupies _ occupied).trans ?_
      apply inv.others
      intro other otherLive
      by_cases same : other = mapping
      · rw [same]
        exact occupied
      · exact unoccupied other ((List.mem_erase_of_ne same).mpr otherLive)

/-- What unmapping a live mapping computes. -/
theorem WindowMapping.Placed.unmap_eq {before table : KernelPageTable}
    (placed : mapping.Placed before table) :
    (if mapping.isRange then i686MpUnmapRange mapping.va mapping.n table
      else some (unmapPage mapping.va table)) =
        some (clearRun mapping.first mapping.count table) := by
  split
  · have unmapped := @i686MpUnmapRange_eq mapping.pa mapping.n table placed.positive placed.small
      mapping.first placed.ends
    rw [← placed.address] at unmapped
    exact unmapped
  · rename_i isPage
    have one := (placed.isPage (by simpa using isPage)).2
    rw [one, clearRun_one]
    rfl

theorem WindowInv.unmapCorrect (inv : WindowInv state) (isLive : mapping ∈ state.live) :
    state.UnmapCorrect mapping := by
  have placed := inv.placed mapping isLive
  refine ⟨_, placed.unmap_eq, ?_⟩
  intro slot
  constructor
  · intro occupied
    exact (clearRun_of_occupies _ occupied).trans (placed.wereFree slot occupied).symm
  · exact clearRun_of_not_occupies _

end Invariant

theorem i686MpMapRange_correct {n : BitVec 32} (positive : 0 < n.toNat) (small : n.toNat < 2 ^ 31)
    (pa : Paddr) (table : KernelPageTable) : MapRangeCorrect pa n table := by
  have pages := @mappedPages_pos pa n positive small
  rcases i686MpMapRange_cases positive small pa table with
    ⟨first, run, result⟩ | ⟨none, result⟩
  · have firstLt := run.first_lt pages
    have slot := slotOf_slotAddress_add firstLt pa
    constructor
    · intro failed
      rw [result] at failed
      exact absurd failed (slotAddress_add_ne_zero firstLt pa)
    · intro _
      rw [result]
      simp only [slot]
      refine ⟨run, ?_, ?_, ?_⟩
      · intro k inside
        exact translate_run small run.ends (fun _ inRun => withRun_inside inRun) inside
      · intro other outside
        rw [withRun, if_neg outside]
      · rw [i686MpUnmapRange_eq positive small run.ends, clearRun_withRun run.free]
  · constructor
    · intro _
      rw [result]
      exact ⟨rfl, none⟩
    · intro succeeded
      rw [result] at succeeded
      exact absurd rfl succeeded

theorem mapPage_correct (pa : Paddr) (table : KernelPageTable) : MapPageCorrect pa table := by
  obtain ⟨aligned, pages⟩ := mapPage_asRange pa
  rcases mapPage_cases pa table with ⟨first, run, result⟩ | ⟨none, result⟩
  · have firstLt := run.first_lt (by omega)
    have noOffset : slotAddress first + (pteAddr pa &&& 0xfff) = slotAddress first := by
      rw [aligned]
      exact BitVec.add_zero _
    have slot := slotOf_slotAddress_add firstLt (pteAddr pa)
    rw [noOffset] at slot
    constructor
    · intro failed
      rw [result] at failed
      exact absurd failed (slotAddress_ne_zero firstLt)
    · intro _
      rw [result, withRun_one]
      simp only [slot]
      refine ⟨run, ?_, ?_, ?_⟩
      · intro k inside
        have ends := run.ends
        rw [← pages] at ends
        have translated := @translate_run (pteAddr pa) 0x1000
          (withRun first 1 (pteAddr pa) table) first (by decide) ends
          (fun k inRun => withRun_inside (by omega)) k inside
        rw [noOffset] at translated
        exact translated
      · intro other isOther
        rw [withRun, if_neg (by omega)]
      · rw [unmapPage, slot, ← clearRun_one, clearRun_withRun run.free]
  · constructor
    · intro _
      rw [result]
      exact ⟨rfl, none⟩
    · intro succeeded
      rw [result] at succeeded
      exact absurd rfl succeeded

theorem toNat_bounds_of_toInt_pos {n : BitVec 32} (positive : 0 < n.toInt) :
    0 < n.toNat ∧ n.toNat < 2 ^ 31 := by
  rw [BitVec.toInt_eq_toNat_cond] at positive
  split at positive
  · omega
  · omega

theorem WindowInv.step {state next : WindowState} {op : WindowOp} (inv : WindowInv state)
    (stepped : windowSystem.step state op next) : WindowInv next := by
  cases op with
  | mapPage pa =>
      obtain rfl : next = _ := stepped
      obtain ⟨aligned, pages⟩ := mapPage_asRange pa
      rcases mapPage_cases pa state.table with ⟨first, run, result⟩ | ⟨-, result⟩
      · have noOffset : slotAddress first + (pteAddr pa &&& 0xfff) = slotAddress first := by
          rw [aligned]
          exact BitVec.add_zero _
        rw [← pages] at run
        have mapped := inv.map false (by decide) (by decide) (fun _ => ⟨aligned, pages⟩) run
        rw [pages] at run
        rw [pages, noOffset] at mapped
        simp only [WindowState.mapped, result,
          if_neg (slotAddress_ne_zero (run.first_lt (by omega))), withRun_one first pa]
        exact mapped
      · simp only [WindowState.mapped, result, if_true]
        exact inv
  | mapRange pa n =>
      obtain ⟨isPositive, rfl⟩ := stepped
      obtain ⟨positive, small⟩ := toNat_bounds_of_toInt_pos isPositive
      rcases i686MpMapRange_cases positive small pa state.table with
        ⟨first, run, result⟩ | ⟨-, result⟩
      · have firstLt := run.first_lt (mappedPages_pos positive small)
        have mapped := inv.map true positive small (by simp) run
        simp only [WindowState.mapped, result, if_neg (slotAddress_add_ne_zero firstLt pa)]
        exact mapped
      · simp only [WindowState.mapped, result, if_true]
        exact inv
  | unmapPage va =>
      obtain ⟨mapping, isLive, isPage, rfl, rfl⟩ := stepped
      have unmapped := (inv.placed mapping isLive).unmap_eq
      simp only [isPage, Bool.false_eq_true, if_false, Option.some.injEq] at unmapped
      rw [unmapped]
      exact inv.unmap isLive
  | unmapRange va n =>
      obtain ⟨mapping, isLive, isRange, rfl, rfl, table, unmapsTo, rfl⟩ := stepped
      have unmapped := (inv.placed mapping isLive).unmap_eq
      simp only [isRange, if_true, unmapsTo, Option.some.injEq] at unmapped
      rw [unmapped]
      exact inv.unmap isLive

/-- In every run of the four functions that unmaps live mappings only, the window is correct
after every call, and so is every call that can follow. -/
theorem windowSystem_correct {state : WindowState} (reachable : windowSystem.Reachable state) :
    state.Correct ∧ (∀ pa, MapPageCorrect pa state.table) ∧
      (∀ pa n, 0 < n.toInt → MapRangeCorrect pa n state.table) ∧
      ∀ mapping ∈ state.live, state.UnmapCorrect mapping := by
  have inv : WindowInv state := by
    apply reachable.invariant
    · rintro start ⟨sameTable, noMapping⟩
      exact ⟨by simp [noMapping], by simp [noMapping], fun slot _ => by rw [sameTable]⟩
    · exact fun source op target inv stepped => inv.step stepped
  refine ⟨inv.correct, fun pa => mapPage_correct pa state.table, ?_, ?_⟩
  · intro pa n isPositive
    obtain ⟨positive, small⟩ := toNat_bounds_of_toInt_pos isPositive
    exact i686MpMapRange_correct positive small pa state.table
  · exact fun mapping isLive => inv.unmapCorrect isLive

/-- The window with its first entry taken. -/
def takenFirst : KernelPageTable := fun slot => if slot = 3072 then 0xb8003 else 0

theorem windowSystem_correct_takenFirst :
    (WindowState.mapped ⟨takenFirst, takenFirst, []⟩ true 0xff0 0x20
      (i686MpMapRange 0xff0 0x20 takenFirst)).Correct := by
  have mapped : windowSystem.step ⟨takenFirst, takenFirst, []⟩ (.mapRange 0xff0 0x20)
      (WindowState.mapped ⟨takenFirst, takenFirst, []⟩ true 0xff0 0x20
        (i686MpMapRange 0xff0 0x20 takenFirst)) := ⟨by decide, rfl⟩
  exact (windowSystem_correct (.step (.init ⟨rfl, rfl⟩) mapped)).1

end Rkernel
