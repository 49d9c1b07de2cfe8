import Mathlib.Algebra.GroupWithZero.Nat
import Mathlib.Tactic.Set
import Rkernel.Physmem.Boot

/-!
# Runs of the physical page allocator

The two nested searches of `vm_phys_alloc` together find the first page, in the
order of `slots`, whose bit is clear. Starting from the layout that
`vm_phys_bm_bootinit` leaves behind, the `n`-th call therefore hands out the
`n`-th page of that list until the list is used up.

`vm_phys_free` skips a map when the page is above its begin or not above its end.
One of the two always holds for a range that does not end before it begins, so
no map is ever reached and no page comes back.
-/

namespace Rkernel

section Search

variable {map : PhysmemBmalloc} {words : BitArray 32}

theorem bit32_eq (bitmap i : ℕ) : bit32 i = BitVec.twoPow 32 ((32 * bitmap + i) % 32) := by
  rw [bit32, BitVec.twoPow_eq, Nat.mul_add_mod]

theorem wordIndex_eq (bitmap i : ℕ) : bitmap + i / 32 = (32 * bitmap + i) / 32 := by
  omega

theorem bitmapSearchLoop_eq (remaining i : ℕ) :
    bitmapSearchLoop map words remaining i =
      (((List.range' i remaining).map fun index => (32 * map.pmbBitmap + index,
        mulPagesize (BitVec.ofNat 32 index) + map.pmbRange.pmBegin)).find?
          fun slot => !words.bit slot.1).map fun slot => (slot.2, words.setBit slot.1) := by
  induction remaining generalizing i with
  | zero => rfl
  | succ remaining ih =>
      have test := words.and_twoPow_ne_zero_iff (by omega) (32 * map.pmbBitmap + i)
      simp only [bitmapSearchLoop, List.range'_succ, List.map_cons, List.find?_cons,
        wordIndex_eq map.pmbBitmap i, bit32_eq map.pmbBitmap i]
      cases isSet : words.bit (32 * map.pmbBitmap + i) with
      | true =>
          rw [if_pos (test.mpr isSet), ih]
          rfl
      | false =>
          rw [if_neg (by rw [test, isSet]; simp)]
          rfl

theorem bitmapSearch_eq :
    bitmapSearch map words =
      (map.slots.find? fun slot => !words.bit slot.1).map
        fun slot => (slot.2, words.setBit slot.1) := by
  rw [bitmapSearch, bitmapSearchLoop_eq, PhysmemBmalloc.slots, List.range_eq_range']

theorem searchMaps_eq (maps : List PhysmemBmalloc) :
    searchMaps words maps =
      ((maps.flatMap PhysmemBmalloc.slots).find? fun slot => !words.bit slot.1).map
        fun slot => (slot.2, words.setBit slot.1) := by
  induction maps with
  | nil => rfl
  | cons map maps ih =>
      rw [searchMaps, bitmapSearch_eq, List.flatMap_cons, List.find?_append, ih]
      cases map.slots.find? fun slot => !words.bit slot.1 <;> rfl

end Search

/-- The first `count` of some slots are marked and the others are not. -/
def MarkedTo (count : ℕ) (words : BitArray 32) (slots : List (ℕ × Paddr)) : Prop :=
  ∀ index, ∀ slot, slots[index]? = some slot → words.bit slot.1 = decide (index < count)

section MarkedTo

variable {count : ℕ} {words : BitArray 32} {slots : List (ℕ × Paddr)}

theorem MarkedTo.find?_eq (marked : MarkedTo count words slots) :
    (slots.find? fun slot => !words.bit slot.1) = slots[count]? := by
  cases isSlot : slots[count]? with
  | none =>
      rw [List.find?_eq_none]
      intro slot slotMem
      rcases List.mem_iff_getElem?.mp slotMem with ⟨index, atIndex⟩
      have inside := (List.getElem?_eq_some_iff.mp atIndex).1
      have outside := List.getElem?_eq_none_iff.mp isSlot
      simp [marked index slot atIndex]
      omega
  | some slot =>
      rcases List.getElem?_eq_some_iff.mp isSlot with ⟨inside, atCount⟩
      rw [List.find?_eq_some_iff_getElem]
      refine ⟨by simp [marked count slot isSlot], count, inside, atCount, ?_⟩
      intro index before
      have atIndex := List.getElem?_eq_getElem (Nat.lt_trans before inside)
      simp [marked index _ atIndex, before]

theorem MarkedTo.length_filter (marked : MarkedTo count words slots) :
    (slots.filter fun slot => !words.bit slot.1).length = slots.length - count := by
  induction slots generalizing count with
  | nil => simp
  | cons slot slots ih =>
      have here := marked 0 slot rfl
      have there : MarkedTo (count - 1) words slots := by
        intro index other atIndex
        rw [marked (index + 1) other atIndex]
        exact decide_eq_decide.mpr (by omega)
      rw [List.filter_cons, here]
      cases count with
      | zero => simpa using ih there
      | succ count => simpa using ih there

theorem MarkedTo.setBit (marked : MarkedTo count words slots)
    (nodup : (slots.map Prod.fst).Nodup) {slot : ℕ × Paddr} (isSlot : slots[count]? = some slot) :
    MarkedTo (count + 1) (words.setBit slot.1) slots := by
  intro index other atIndex
  rw [BitArray.bit_setBit (by omega), marked index other atIndex]
  by_cases same : index = count
  · subst index
    rw [isSlot, Option.some.injEq] at atIndex
    subst other
    simp
  · have different : other.1 ≠ slot.1 := by
      intro sameBit
      apply same
      have left : (slots.map Prod.fst)[index]? = some other.1 := by simp [atIndex]
      have right : (slots.map Prod.fst)[count]? = some other.1 := by simp [isSlot, sameBit]
      have inside := (List.getElem?_eq_some_iff.mp left).1
      exact (List.getElem?_inj inside nodup).mp (left.trans right.symm)
    have shifted : index < count ↔ index < count + 1 := by omega
    simp [different, shifted]

end MarkedTo

namespace PhysmemBmaset

/-- The state after a number of calls of `vm_phys_alloc`. -/
def afterAllocs (set : PhysmemBmaset) : ℕ → PhysmemBmaset
  | 0 => set
  | count + 1 => (vmPhysAlloc (set.afterAllocs count)).2

/-- What a call of `vm_phys_alloc` after `count` others returns. -/
def allocResult (set : PhysmemBmaset) (count : ℕ) : Option Paddr :=
  (vmPhysAlloc (set.afterAllocs count)).1

def totalLength (set : PhysmemBmaset) : ℕ :=
  (set.pmbMaps.map fun map => map.pmbLength.toNat).sum

theorem length_slots (set : PhysmemBmaset) : set.slots.length = set.totalLength := by
  simp [slots, totalLength, List.length_flatMap, PhysmemBmalloc.slots]

theorem slots_eq_of_pmbMaps_eq {set other : PhysmemBmaset}
    (sameMaps : other.pmbMaps = set.pmbMaps) : other.slots = set.slots := by
  rw [slots, slots, sameMaps]

theorem vmPhysAlloc_eq (set : PhysmemBmaset) :
    vmPhysAlloc set =
      match set.slots.find? fun slot => !set.bitmapBlock.bit slot.1 with
      | some slot => (some slot.2, { set with bitmapBlock := set.bitmapBlock.setBit slot.1 })
      | none => (none, set) := by
  rw [vmPhysAlloc, searchMaps_eq, slots]
  cases (set.pmbMaps.flatMap PhysmemBmalloc.slots).find? fun slot =>
    !set.bitmapBlock.bit slot.1 <;> rfl

theorem vmPhysAlloc_of_markedTo {set : PhysmemBmaset} {count : ℕ}
    (marked : MarkedTo count set.bitmapBlock set.slots) :
    vmPhysAlloc set =
      match set.slots[count]? with
      | some slot => (some slot.2, { set with bitmapBlock := set.bitmapBlock.setBit slot.1 })
      | none => (none, set) := by
  rw [vmPhysAlloc_eq, marked.find?_eq]

/-- The `n`-th call takes the `n`-th slot, and calls beyond the last slot change nothing. -/
theorem afterAllocs_spec {set : PhysmemBmaset} (nodup : (set.slots.map Prod.fst).Nodup)
    (clear : MarkedTo 0 set.bitmapBlock set.slots) (count : ℕ) :
    (set.afterAllocs count).pmbMaps = set.pmbMaps ∧
      MarkedTo (min count set.slots.length) (set.afterAllocs count).bitmapBlock set.slots := by
  induction count with
  | zero => simpa [afterAllocs] using clear
  | succ count ih =>
      rcases ih with ⟨sameMaps, marked⟩
      have sameSlots := slots_eq_of_pmbMaps_eq sameMaps
      rw [← sameSlots] at marked
      rw [afterAllocs, vmPhysAlloc_of_markedTo marked, sameSlots]
      rw [sameSlots] at marked
      by_cases inside : count < set.slots.length
      · rw [Nat.min_eq_left (by omega)] at marked ⊢
        have isSlot : set.slots[count]? = some (set.slots[count]) := List.getElem?_eq_getElem inside
        rw [isSlot, Nat.min_eq_left (by omega)]
        exact ⟨sameMaps, marked.setBit nodup isSlot⟩
      · rw [Nat.min_eq_right (by omega)] at marked ⊢
        rw [Nat.min_eq_right (by omega), List.getElem?_eq_none (by omega)]
        exact ⟨sameMaps, marked⟩

theorem allocResult_eq {set : PhysmemBmaset} (nodup : (set.slots.map Prod.fst).Nodup)
    (clear : MarkedTo 0 set.bitmapBlock set.slots) (count : ℕ) :
    set.allocResult count = set.slots[count]?.map Prod.snd := by
  rcases afterAllocs_spec nodup clear count with ⟨sameMaps, marked⟩
  have sameSlots := slots_eq_of_pmbMaps_eq sameMaps
  rw [← sameSlots] at marked
  rw [allocResult, vmPhysAlloc_of_markedTo marked, sameSlots]
  by_cases inside : count < set.slots.length
  · rw [Nat.min_eq_left (by omega), List.getElem?_eq_getElem inside]
    rfl
  · rw [Nat.min_eq_right (by omega), List.getElem?_eq_none (Nat.le_refl _),
      List.getElem?_eq_none (by omega)]
    rfl

theorem afterAllocs_succ_eq {set : PhysmemBmaset} (nodup : (set.slots.map Prod.fst).Nodup)
    (clear : MarkedTo 0 set.bitmapBlock set.slots) {count : ℕ}
    (exhausted : set.slots.length ≤ count) :
    set.afterAllocs (count + 1) = set.afterAllocs count := by
  rcases afterAllocs_spec nodup clear count with ⟨sameMaps, marked⟩
  have sameSlots := slots_eq_of_pmbMaps_eq sameMaps
  rw [← sameSlots] at marked
  rw [afterAllocs, vmPhysAlloc_of_markedTo marked, sameSlots, Nat.min_eq_right exhausted,
    List.getElem?_eq_none (Nat.le_refl _)]

/-- The allocator as `vm_phys_bm_bootinit` leaves it. -/
def booted (ranges : List PhysmemRange) (words : BitArray 32) : PhysmemBmaset :=
  let state := (vmPhysBmBootinit ranges words 0 0).2
  ⟨state.maps, state.words⟩

/-- A run of `vm_phys_alloc` hands out every managed page once and then fails for good. -/
def AllocatesEachPageOnce (ranges : List PhysmemRange) (set : PhysmemBmaset) : Prop :=
  (∀ count < set.totalLength, ∃ page, set.allocResult count = some page ∧
    page.toNat % 4096 = 0 ∧ (∃ range ∈ ranges, range.ContainsPage page) ∧
    ∀ earlier < count, set.allocResult earlier ≠ some page) ∧
  ∀ count, set.totalLength ≤ count → set.allocResult count = none ∧
    (set.afterAllocs (count + 1)).bitmapBlock = (set.afterAllocs count).bitmapBlock

section Booted

variable {ranges : List PhysmemRange} (valid : ValidRanges ranges) (words : BitArray 32)

include valid

theorem booted_spec :
    Carved 0 ranges (booted ranges words).pmbMaps ∧
      MarkedTo 0 (booted ranges words).bitmapBlock (booted ranges words).slots := by
  rcases @bootLoop_carved ranges.length 0 ranges ⟨[], words, 0, 0, 0⟩ valid.ordered
    (Nat.zero_le _) with ⟨maps, mapsEq, carved, -, clear⟩
  rw [List.nil_append] at mapsEq
  have sameMaps : (booted ranges words).pmbMaps = maps := mapsEq
  rw [slots, sameMaps]
  refine ⟨carved, ?_⟩
  intro index slot isSlot
  rw [decide_eq_false (Nat.not_lt_zero index)]
  exact clear slot (List.mem_of_getElem? isSlot)

/-- Every page of the ranges that got a bit is handed out exactly once, in the order of the
ranges, and nothing else is. -/
theorem booted_allocatesEachPageOnce :
    AllocatesEachPageOnce ranges (booted ranges words) := by
  rcases booted_spec valid words with ⟨carved, clear⟩
  have bitNodup : ((booted ranges words).slots.map Prod.fst).Nodup := carved.slots_fst_nodup
  have pageNodup : ((booted ranges words).slots.map Prod.snd).Nodup :=
    carved.slots_snd_nodup valid.disjoint
  have result := allocResult_eq bitNodup clear
  rw [AllocatesEachPageOnce, ← length_slots]
  refine ⟨?_, ?_⟩
  · intro count inside
    have isSlot := List.getElem?_eq_getElem inside
    set slot := (booted ranges words).slots[count] with slotEq
    rcases carved.slot_contained (List.mem_of_getElem? isSlot) with
      ⟨range, rangeMem, contained, i, address⟩
    have aligned := valid.beginAligned range rangeMem
    refine ⟨slot.2, by rw [result, isSlot]; rfl, by omega, ⟨range, rangeMem, contained⟩, ?_⟩
    intro earlier before again
    rw [result] at again
    have left : ((booted ranges words).slots.map Prod.snd)[earlier]? = some slot.2 := by
      rw [List.getElem?_map]
      exact again
    have right : ((booted ranges words).slots.map Prod.snd)[count]? = some slot.2 := by
      rw [List.getElem?_map, isSlot]
      rfl
    have bound := (List.getElem?_eq_some_iff.mp left).1
    have same := (List.getElem?_inj bound pageNodup).mp (left.trans right.symm)
    omega
  · intro count exhausted
    refine ⟨?_, by rw [afterAllocs_succ_eq bitNodup clear exhausted]⟩
    rw [result, List.getElem?_eq_none exhausted]
    rfl

end Booted

/-- Two ranges with a gap between them. -/
def twoRanges : List PhysmemRange :=
  [⟨0x1000, 0x3000⟩, ⟨0x8000, 0x9000⟩]

theorem twoRanges_valid : ValidRanges twoRanges := by
  refine ⟨by decide, by decide, by decide, ?_⟩
  simp only [twoRanges, List.pairwise_cons, List.mem_singleton, forall_eq, List.not_mem_nil,
    false_implies, implies_true, List.Pairwise.nil, and_true]
  rintro address ⟨⟨-, below⟩, above, -⟩
  bv_omega

theorem twoRanges_allocatesEachPageOnce :
    ValidRanges twoRanges ∧ AllocatesEachPageOnce twoRanges (booted twoRanges fun _ => 0) :=
  ⟨twoRanges_valid, booted_allocatesEachPageOnce twoRanges_valid _⟩

end PhysmemBmaset

/-- The calls of the page allocator. -/
inductive PhysOp where
  | alloc
  | free (page : Paddr)

/-- The allocator and the pages its clients have been given and have not passed to
`vm_phys_free` since. -/
structure PhysState where
  set : PhysmemBmaset
  handedOut : List Paddr

namespace PhysState

def step (state : PhysState) : PhysOp → PhysState
  | .alloc =>
      match vmPhysAlloc state.set with
      | (some page, set) => ⟨set, page :: state.handedOut⟩
      | (none, set) => ⟨set, state.handedOut⟩
  | .free page => ⟨(vmPhysFree state.set page).2, state.handedOut.filter (· ≠ page)⟩

/-- The state after `vm_phys_bm_bootinit` and some calls. -/
def run (ranges : List PhysmemRange) (words : BitArray 32) (ops : List PhysOp) : PhysState :=
  ops.foldl step ⟨PhysmemBmaset.booted ranges words, []⟩

end PhysState

namespace PhysmemBmaset

/-- A page that the next calls of `vm_phys_alloc` can return. -/
def IsFree (set : PhysmemBmaset) (page : Paddr) : Prop :=
  ∃ index, (index, page) ∈ set.slots ∧ set.bitmapBlock.bit index = false

end PhysmemBmaset

/-- What `vm_phys_free` is meant to do with an address: take back a page that was handed out,
and leave alone what is in no range. -/
def FreesCorrectly (ranges : List PhysmemRange) (state : PhysState) (page : Paddr) : Prop :=
  (page ∈ state.handedOut →
    (vmPhysFree state.set page).1 ≠ 0 ∧
    (∃ index, (index, page) ∈ state.set.slots ∧ ∀ other,
      (vmPhysFree state.set page).2.bitmapBlock.bit other =
        (decide (other ≠ index) && state.set.bitmapBlock.bit other)) ∧
    ∀ other, (vmPhysFree state.set page).2.IsFree other ↔ other = page ∨ state.set.IsFree other) ∧
  ((∀ range ∈ ranges, ¬range.Contains page) →
    (vmPhysFree state.set page).1 = 0 ∧ (vmPhysFree state.set page).2 = state.set)

theorem freeMaps_eq {words : BitArray 32} {page : Paddr} {maps : List PhysmemBmalloc}
    (ordered : ∀ map ∈ maps, map.pmbRange.pmBegin ≤ map.pmbRange.pmEnd) :
    freeMaps words page maps = (0, words) := by
  induction maps with
  | nil => rfl
  | cons map maps ih =>
      have mapOrdered := ordered map (by simp)
      have skipped : map.pmbRange.pmBegin < page ∨ map.pmbRange.pmEnd ≥ page := by
        bv_omega
      rw [freeMaps, if_pos skipped]
      exact ih fun other otherMem => ordered other (List.mem_cons_of_mem _ otherMem)

/-- No map passes the test of `vm_phys_free`. -/
theorem vmPhysFree_eq {set : PhysmemBmaset} {page : Paddr}
    (ordered : ∀ map ∈ set.pmbMaps, map.pmbRange.pmBegin ≤ map.pmbRange.pmEnd) :
    vmPhysFree set page = (0, set) := by
  rw [vmPhysFree, freeMaps_eq ordered]

theorem Carved.range_mem {low : ℕ} {ranges : List PhysmemRange} {maps : List PhysmemBmalloc}
    (carved : Carved low ranges maps) {map : PhysmemBmalloc} (mapMem : map ∈ maps) :
    map.pmbRange ∈ ranges := by
  induction carved with
  | nil => simp at mapMem
  | cons fits inRange inBlock rest ih =>
      rw [List.mem_cons] at mapMem
      rcases mapMem with rfl | later
      · simp
      · exact List.mem_cons_of_mem _ (ih later)

namespace PhysState

theorem step_pmbMaps (state : PhysState) (op : PhysOp) :
    (state.step op).set.pmbMaps = state.set.pmbMaps := by
  cases op with
  | alloc =>
      simp only [step, vmPhysAlloc]
      cases searchMaps state.set.bitmapBlock state.set.pmbMaps <;> rfl
  | free page => rfl

theorem run_pmbMaps (ranges : List PhysmemRange) (words : BitArray 32) (ops : List PhysOp) :
    (run ranges words ops).set.pmbMaps = (PhysmemBmaset.booted ranges words).pmbMaps := by
  have folded : ∀ state : PhysState, (ops.foldl step state).set.pmbMaps = state.set.pmbMaps := by
    induction ops with
    | nil => exact fun _ => rfl
    | cons op ops ih =>
        intro state
        rw [List.foldl_cons, ih, step_pmbMaps]
  exact folded _

theorem vmPhysFree_run {ranges : List PhysmemRange} (valid : ValidRanges ranges)
    (words : BitArray 32) (ops : List PhysOp) (page : Paddr) :
    vmPhysFree (run ranges words ops).set page = (0, (run ranges words ops).set) := by
  apply vmPhysFree_eq
  intro map mapMem
  rw [run_pmbMaps] at mapMem
  have carved := (PhysmemBmaset.booted_spec valid words).1
  exact valid.ordered _ (carved.range_mem mapMem)

/-- `vm_phys_free` does what it is meant to exactly for the addresses that are not handed out. -/
theorem freesCorrectly_iff {ranges : List PhysmemRange} (valid : ValidRanges ranges)
    (words : BitArray 32) (ops : List PhysOp) (page : Paddr) :
    FreesCorrectly ranges (run ranges words ops) page ↔
      page ∉ (run ranges words ops).handedOut := by
  have nothing := vmPhysFree_run valid words ops page
  constructor
  · rintro ⟨takesBack, -⟩ isHandedOut
    apply (takesBack isHandedOut).1
    rw [nothing]
  · intro notHandedOut
    refine ⟨fun isHandedOut => (notHandedOut isHandedOut).elim, fun _ => ?_⟩
    rw [nothing]
    exact ⟨rfl, rfl⟩

theorem freesCorrectly_outside :
    ValidRanges PhysmemBmaset.twoRanges ∧
      FreesCorrectly PhysmemBmaset.twoRanges
        (run PhysmemBmaset.twoRanges (fun _ => 0) [.alloc]) 0x4000 :=
  ⟨PhysmemBmaset.twoRanges_valid,
    (freesCorrectly_iff PhysmemBmaset.twoRanges_valid _ _ _).mpr (by decide)⟩

/-- The first page handed out does not come back. -/
theorem not_freesCorrectly_handedOut :
    ValidRanges PhysmemBmaset.twoRanges ∧
      ¬FreesCorrectly PhysmemBmaset.twoRanges
        (run PhysmemBmaset.twoRanges (fun _ => 0) [.alloc]) 0x1000 := by
  refine ⟨PhysmemBmaset.twoRanges_valid, ?_⟩
  rintro ⟨takesBack, -⟩
  exact (takesBack (by decide)).1 (by decide)

end PhysState

end Rkernel
