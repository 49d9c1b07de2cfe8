import Rkernel.Kern.Zalloc
import Mathlib.Data.List.Perm.Subperm

/-!
# What the zone allocator keeps in memory

A `ZoneView` is what the allocator knows about one zone: the fields of its descriptor
and the buffers on its free list, in order. Each descriptor and each buffer is a cell
of the memory, and the operations on a free list are specified by the cells they
change: `remove_top` and `zfree` touch the descriptor of one zone and one buffer, and
`_zcram` divides a range of raw memory into buffers.

The zone of zones is marked as `blank`. Its buffers hold a zero where the descriptor
made from the buffer will have its `zn_count`, which `zinit` does not store.
-/

namespace Rkernel

/-- The fields of a zone and its free list. -/
structure ZoneView where
  address : ℕ
  bufsize : ℕ
  memtype : ℕ
  blank : Bool
  free : List ℕ

/-- The fields of a descriptor. -/
structure ZoneView.Fields (view : ZoneView) (memory : Memory) : Prop where
  bufsize : Zone.znBufsize memory view.address = view.bufsize
  freelist : Zone.znFreelist memory view.address = view.free.headD 0
  count : Zone.znCount memory view.address = view.free.length
  memtype : Zone.znMemtype memory view.address = view.memtype

theorem ZoneView.Fields.congr {view : ZoneView} {memory other : Memory}
    (fields : view.Fields memory)
    (same : ∀ byte, view.address ≤ byte → byte < view.address + 24 → other byte = memory byte) :
    view.Fields other := by
  rcases fields with ⟨bufsize, freelist, count, memtype⟩
  simp only [Zone.znBufsize, Zone.znFreelist, Zone.znCount, Zone.znMemtype] at *
  refine ⟨?_, ?_, ?_, ?_⟩
  · rw [← bufsize]
    exact Memory.read32_congr fun byte _ _ => same byte (by omega) (by omega)
  · rw [← freelist]
    exact Memory.read32_congr fun byte _ _ => same byte (by omega) (by omega)
  · rw [← count]
    exact Memory.read32_congr fun byte _ _ => same byte (by omega) (by omega)
  · rw [← memtype]
    exact Memory.read32_congr fun byte _ _ => same byte (by omega) (by omega)

/-- The range of a descriptor: a buffer of the zone of zones, or the static one. -/
def ZoneView.range (view : ZoneView) : ℕ × ℕ :=
  if view.blank then (view.address, 24) else (view.address - 4, 32)

/-- The descriptor of a zone, with the header of its buffer. -/
def zoneCell (owner : ℕ) (view : ZoneView) : Cell where
  start := view.range.1
  size := view.range.2
  holds memory := view.Fields memory ∧
    (view.blank = false → 4 ≤ view.address ∧ memory.read32 (view.address - 4) = owner)
  isLocal := by
    rintro memory other same ⟨fields, header⟩
    simp only [ZoneView.range] at same
    refine ⟨fields.congr ?_, ?_⟩
    · intro byte atLeast below
      apply same
      · split <;> simp only <;> omega
      · split
        · simp only
          omega
        · rename_i notBlank
          have := header (by simpa using notBlank)
          simp only
          omega
    · intro notBlank
      have headed := header notBlank
      refine ⟨headed.1, ?_⟩
      rw [← headed.2]
      simp only [notBlank, Bool.false_eq_true, if_false] at same
      exact Memory.read32_congr fun byte _ _ => same byte (by omega) (by omega)

/-- A buffer with its header, and with the zero of a blank buffer. -/
def bufferCell (blank : Bool) (size header buffer : ℕ) : Cell where
  start := buffer
  size := size
  holds memory := memory.read32 buffer = header ∧ 4 ≤ size ∧
    (blank = true → 20 ≤ size ∧ memory.read32 (buffer + 16) = 0)
  isLocal := by
    rintro memory other same ⟨headed, large, zero⟩
    refine ⟨?_, large, ?_⟩
    · rw [← headed]
      exact Memory.read32_congr fun byte _ _ => same byte (by omega) (by omega)
    · intro isBlank
      rcases zero isBlank with ⟨larger, isZero⟩
      refine ⟨larger, ?_⟩
      rw [← isZero]
      exact Memory.read32_congr fun byte _ _ => same byte (by omega) (by omega)

/-- Memory that is not divided into buffers yet. -/
def rawCell (blank : Bool) (size start : ℕ) : Cell where
  start := start
  size := size
  holds memory := blank = true → ∀ byte, start ≤ byte → byte < start + size → memory byte = 0
  isLocal := by
    intro memory other same zero isBlank byte atLeast below
    rw [same byte atLeast below]
    exact zero isBlank byte atLeast below

/-- The buffers of a free list, each with the link to the next one. -/
def chainCells (blank : Bool) (size : ℕ) : List ℕ → List Cell
  | [] => []
  | buffer :: free => bufferCell blank size (free.headD 0) buffer :: chainCells blank size free

/-- The cells of a zone: its descriptor and its free buffers. -/
def ZoneView.cells (owner : ℕ) (view : ZoneView) : List Cell :=
  zoneCell owner view :: chainCells view.blank view.bufsize view.free

section Spans

variable {owner : ℕ} {view : ZoneView} {cell : Cell}

theorem zoneCell_apart (apart : (zoneCell owner view).Apart cell) :
    (view.address + 24 ≤ cell.start ∨ cell.start + cell.size ≤ view.address) ∧
      (view.blank = false → 4 ≤ view.address →
        view.address + 28 ≤ cell.start ∨ cell.start + cell.size ≤ view.address - 4) := by
  simp only [Cell.Apart, zoneCell, ZoneView.range] at apart
  cases blank : view.blank with
  | true =>
      simp only [blank, if_true] at apart
      exact ⟨by omega, by simp⟩
  | false =>
      simp only [blank, Bool.false_eq_true, if_false] at apart
      exact ⟨by omega, fun _ _ => by omega⟩

theorem zoneCell_contains {byte : ℕ} (behind : view.blank = false → 4 ≤ view.address)
    (atLeast : view.address ≤ byte) (below : byte < view.address + 24) :
    (zoneCell owner view).Contains byte := by
  simp only [Cell.Contains, zoneCell, ZoneView.range]
  cases blank : view.blank with
  | true =>
      simp only [if_true]
      omega
  | false =>
      have := behind blank
      simp only [Bool.false_eq_true, if_false]
      omega

/-- A change to the list fields of a descriptor and to the header of a buffer. -/
structure ListStep (zone buffer head count header : ℕ) (memory other : Memory) : Prop where
  freelist : Zone.znFreelist other zone = head
  count : Zone.znCount other zone = count
  header : other.read32 buffer = header
  same : ∀ byte, (byte < buffer ∨ buffer + 4 ≤ byte) → (byte < zone + 4 ∨ zone + 16 ≤ byte) →
    other byte = memory byte

theorem ListStep.arranged {memory other : Memory} {rest : List Cell} {free : List ℕ}
    {buffer header : ℕ}
    (step : ListStep view.address buffer (free.headD 0) free.length header memory other)
    (arranged : Arranged memory (zoneCell owner view :: cell :: rest))
    (start : cell.start = buffer) (size : cell.size = view.bufsize) (large : 4 ≤ view.bufsize)
    (blank : view.blank = true → 20 ≤ view.bufsize ∧ memory.read32 (buffer + 16) = 0) :
    Arranged other (zoneCell owner { view with free := free } ::
      bufferCell view.blank view.bufsize header buffer :: rest) := by
  have apart : (zoneCell owner view).Apart cell :=
    (List.pairwise_cons.mp arranged.apart).1 cell List.mem_cons_self
  have separate := zoneCell_apart apart
  rcases arranged.holds (zoneCell owner view) List.mem_cons_self with ⟨fields, headed⟩
  rw [start, size] at separate
  have unchanged (addr : ℕ) (offBuffer : addr + 4 ≤ buffer ∨ buffer + 4 ≤ addr)
      (offFields : addr + 4 ≤ view.address + 4 ∨ view.address + 16 ≤ addr) :
      other.read32 addr = memory.read32 addr :=
    Memory.read32_congr fun byte _ _ => step.same byte (by omega) (by omega)
  have zoneHolds : (zoneCell owner { view with free := free }).holds other := by
    refine ⟨⟨?_, step.freelist, step.count, ?_⟩, ?_⟩
    · exact (unchanged view.address (by omega) (by omega)).trans fields.bufsize
    · exact (unchanged (view.address + 16) (by omega) (by omega)).trans fields.memtype
    · intro notBlank
      rcases headed notBlank with ⟨behind, isOwner⟩
      have offHeader := separate.2 notBlank behind
      exact ⟨behind, (unchanged (view.address - 4) (by omega) (by omega)).trans isOwner⟩
  have bufferHolds : (bufferCell view.blank view.bufsize header buffer).holds other := by
    refine ⟨step.header, large, ?_⟩
    intro isBlank
    rcases blank isBlank with ⟨larger, zero⟩
    refine ⟨larger, ?_⟩
    rw [← zero]
    exact unchanged _ (by omega) (by omega)
  have changed : Arranged other [zoneCell owner { view with free := free },
      bufferCell view.blank view.bufsize header buffer] := by
    refine ⟨?_, ?_⟩
    · simp only [List.mem_cons, List.not_mem_nil, or_false, forall_eq_or_imp, forall_eq]
      exact ⟨zoneHolds, bufferHolds⟩
    · rw [List.pairwise_pair]
      simp only [Cell.Apart, bufferCell] at apart ⊢
      rw [start, size] at apart
      exact apart
  apply @Arranged.frame _ _ [zoneCell owner view, cell] _ _ arranged changed
  · simp only [List.mem_cons, List.not_mem_nil, or_false, forall_eq_or_imp, forall_eq]
    refine ⟨⟨_, Or.inl rfl, Nat.le_refl _, Nat.le_refl _⟩, ⟨cell, Or.inr rfl, ?_, ?_⟩⟩
    · simp only [bufferCell]
      omega
    · simp only [bufferCell]
      omega
  · intro byte outside
    have offZone := outside (zoneCell owner view) (by simp)
    have offBuffer := outside cell (by simp)
    apply step.same
    · simp only [Cell.Contains] at offBuffer
      omega
    · by_contra inside
      exact offZone (zoneCell_contains (fun notBlank => (headed notBlank).1) (by omega) (by omega))

end Spans

section Lists

variable {memory : Memory} {zone buffer count : ℕ}

theorem removeTop_empty (empty : Zone.znFreelist memory zone = 0) :
    removeTop memory zone = (0, memory) := by
  simp [removeTop, empty]

theorem removeTop_listStep (top : Zone.znFreelist memory zone = buffer) (nonNull : buffer ≠ 0)
    (counted : Zone.znCount memory zone = count + 1) (zoneLt : zone < 2 ^ 32)
    (apart : zone + 24 ≤ buffer ∨ buffer + 4 ≤ zone) :
    (removeTop memory zone).1 = buffer + 4 ∧
      ListStep zone buffer (memory.read32 buffer) count zone memory (removeTop memory zone).2 := by
  have countLt : Zone.znCount memory zone < 2 ^ 32 := Memory.read32_lt
  have nextLt : memory.read32 buffer < 2 ^ 32 := Memory.read32_lt
  simp only [Zone.znFreelist, Zone.znCount] at top counted countLt
  simp only [removeTop, Zone.znFreelist, Zone.znCount, Zone.setFreelist, Zone.setCount, top, ne_eq,
    nonNull, not_false_eq_true, if_true, true_and]
  have kept : ((memory.write32 (zone + 4) (memory.read32 buffer)).write32 buffer zone).read32
      (zone + 12) = count + 1 := by
    rw [Memory.read32_write32_of_apart (by omega), Memory.read32_write32_of_apart (by omega),
      counted]
  refine ⟨?_, ?_, ?_, ?_⟩
  · simp only [Zone.znFreelist]
    rw [Memory.read32_write32_of_apart (by omega), Memory.read32_write32_of_apart (by omega),
      Memory.read32_write32_self]
    omega
  · simp only [Zone.znCount]
    rw [Memory.read32_write32_self, kept]
    omega
  · rw [Memory.read32_write32_of_apart (by omega), Memory.read32_write32_self]
    omega
  · intro byte offBuffer offFields
    rw [Memory.write32_of_apart (by omega), Memory.write32_of_apart (by omega),
      Memory.write32_of_apart (by omega)]

theorem pushFree_listStep (counted : Zone.znCount memory zone = count)
    (countLt : count + 1 < 2 ^ 32) (bufferLt : buffer < 2 ^ 32)
    (apart : zone + 24 ≤ buffer ∨ buffer + 4 ≤ zone) :
    ListStep zone buffer buffer (count + 1) (Zone.znFreelist memory zone) memory
      (pushFree memory zone buffer) := by
  have headLt : memory.read32 (zone + 4) < 2 ^ 32 := Memory.read32_lt
  simp only [Zone.znCount] at counted
  simp only [pushFree, Zone.znFreelist, Zone.znCount, Zone.setFreelist, Zone.setCount]
  have kept : ((memory.write32 buffer (memory.read32 (zone + 4))).write32 (zone + 4) buffer).read32
      (zone + 12) = count := by
    rw [Memory.read32_write32_of_apart (by omega), Memory.read32_write32_of_apart (by omega),
      counted]
  refine ⟨?_, ?_, ?_, ?_⟩
  · simp only [Zone.znFreelist]
    rw [Memory.read32_write32_of_apart (by omega), Memory.read32_write32_self]
    omega
  · simp only [Zone.znCount]
    rw [Memory.read32_write32_self, kept]
    omega
  · rw [Memory.read32_write32_of_apart (by omega), Memory.read32_write32_of_apart (by omega),
      Memory.read32_write32_self]
    omega
  · intro byte offBuffer offFields
    rw [Memory.write32_of_apart (by omega), Memory.write32_of_apart (by omega),
      Memory.write32_of_apart (by omega)]

end Lists

section Operations

variable {owner : ℕ} {view : ZoneView} {memory : Memory} {rest : List Cell}

theorem removeTop_arranged {buffer : ℕ} {free : List ℕ} (listed : view.free = buffer :: free)
    (arranged : Arranged memory (view.cells owner ++ rest)) (nonNull : buffer ≠ 0)
    (zoneLt : view.address < 2 ^ 32) :
    (removeTop memory view.address).1 = buffer + 4 ∧
      Arranged (removeTop memory view.address).2 ({ view with free := free }.cells owner ++
        bufferCell view.blank view.bufsize view.address buffer :: rest) := by
  have opened : Arranged memory (zoneCell owner view ::
      bufferCell view.blank view.bufsize (free.headD 0) buffer ::
        (chainCells view.blank view.bufsize free ++ rest)) := by
    simpa [ZoneView.cells, chainCells, listed] using arranged
  rcases opened.holds _ List.mem_cons_self with ⟨fields, _⟩
  rcases opened.holds _ (List.mem_cons_of_mem _ List.mem_cons_self) with ⟨next, large, blank⟩
  have apart := (List.pairwise_cons.mp opened.apart).1 _ List.mem_cons_self
  have separate := (zoneCell_apart apart).1
  simp only [bufferCell] at separate
  have top := fields.freelist
  have counted := fields.count
  simp only [listed, List.headD_cons, List.length_cons] at top counted
  rcases removeTop_listStep top nonNull counted zoneLt (by omega) with ⟨result, step⟩
  rw [next] at step
  refine ⟨result, ?_⟩
  have changed := step.arranged opened rfl rfl large blank
  refine changed.perm (List.Perm.cons _ ?_)
  exact List.perm_middle.symm

theorem pushFree_arranged {cell : Cell} {buffer : ℕ}
    (arranged : Arranged memory (view.cells owner ++ cell :: rest))
    (start : cell.start = buffer) (size : cell.size = view.bufsize) (large : 4 ≤ view.bufsize)
    (blank : view.blank = true → 20 ≤ view.bufsize ∧ memory.read32 (buffer + 16) = 0)
    (countLt : view.free.length + 1 < 2 ^ 32) (bufferLt : buffer < 2 ^ 32) :
    Arranged (pushFree memory view.address buffer)
      ({ view with free := buffer :: view.free }.cells owner ++ rest) := by
  have opened : Arranged memory (zoneCell owner view :: cell ::
      (chainCells view.blank view.bufsize view.free ++ rest)) := by
    apply arranged.perm
    simp only [ZoneView.cells, List.cons_append]
    exact List.Perm.cons _ List.perm_middle
  rcases opened.holds _ List.mem_cons_self with ⟨fields, _⟩
  have apart := (List.pairwise_cons.mp opened.apart).1 _ List.mem_cons_self
  have separate := (zoneCell_apart apart).1
  rw [start, size] at separate
  have step := pushFree_listStep fields.count countLt bufferLt (by omega)
  rw [fields.freelist] at step
  exact @ListStep.arranged _ _ _ _ _ _ (buffer :: view.free) _ _ step opened start size large blank

end Operations

section Chains

variable {blank : Bool} {size : ℕ} {free : List ℕ}

theorem exists_mem_chainCells {buffer : ℕ} (bufferMem : buffer ∈ free) :
    ∃ cell ∈ chainCells blank size free, cell.start = buffer ∧ cell.size = size := by
  induction free with
  | nil => simp at bufferMem
  | cons first free ih =>
      rcases List.mem_cons.mp bufferMem with rfl | later
      · exact ⟨_, List.mem_cons_self, rfl, rfl⟩
      · rcases ih later with ⟨cell, cellMem, span⟩
        exact ⟨cell, List.mem_cons_of_mem _ cellMem, span⟩

theorem chainCells_nodup (apart : (chainCells blank size free).Pairwise Cell.Apart)
    (positive : 0 < size) : free.Nodup := by
  induction free with
  | nil => exact List.nodup_nil
  | cons first free ih =>
      rcases List.pairwise_cons.mp apart with ⟨firstApart, laterApart⟩
      refine List.nodup_cons.mpr ⟨?_, ih laterApart⟩
      intro again
      rcases exists_mem_chainCells again with ⟨cell, cellMem, start, sameSize⟩
      have overlap := firstApart cell cellMem
      simp only [Cell.Apart, bufferCell, start, sameSize] at overlap
      omega

theorem length_le_of_nodup {bound : ℕ} (nodup : free.Nodup)
    (bounded : ∀ buffer ∈ free, buffer < bound) : free.length ≤ bound := by
  have subset : free ⊆ List.range bound := fun buffer bufferMem =>
    List.mem_range.mpr (bounded buffer bufferMem)
  simpa using (List.Nodup.subperm nodup subset).length_le

end Chains

section Cram

variable {owner : ℕ} {rest : List Cell}

theorem ZoneView.length_lt (view : ZoneView) {memory : Memory}
    (arranged : Arranged memory (view.cells owner ++ rest)) (large : 4 ≤ view.bufsize)
    (buffersLt : ∀ buffer ∈ view.free, buffer + view.bufsize < 2 ^ 32) :
    view.free.length + 1 < 2 ^ 32 := by
  have chain := arranged.apart.sublist (List.sublist_append_left (view.cells owner) rest)
  have nodup := chainCells_nodup (List.pairwise_cons.mp chain).2 (by omega)
  have bounded : ∀ buffer ∈ view.free, buffer < 2 ^ 32 - 4 := by
    intro buffer bufferMem
    have := buffersLt buffer bufferMem
    omega
  have := length_le_of_nodup nodup bounded
  omega

theorem rawCell_split {memory : Memory} {blank : Bool} {size start bufsize : ℕ}
    {front : List Cell} (fits : bufsize ≤ size)
    (arranged : Arranged memory (front ++ rawCell blank size start :: rest)) :
    Arranged memory (front ++ rawCell blank bufsize start ::
      rawCell blank (size - bufsize) (start + bufsize) :: rest) := by
  have opened : Arranged memory ([rawCell blank size start] ++ (front ++ rest)) :=
    arranged.perm List.perm_middle
  have zero := opened.holds _ (List.mem_append_left _ (List.mem_singleton_self _))
  have divided : Arranged memory [rawCell blank bufsize start,
      rawCell blank (size - bufsize) (start + bufsize)] := by
    refine ⟨?_, ?_⟩
    · simp only [List.mem_cons, List.not_mem_nil, or_false, forall_eq_or_imp, forall_eq]
      constructor
      · exact fun isBlank byte atLeast below => zero isBlank byte atLeast (by omega)
      · exact fun isBlank byte atLeast below => zero isBlank byte (by omega) (by omega)
    · rw [List.pairwise_pair]
      exact Or.inl (Nat.le_refl _)
  have changed := opened.frame divided ?_ fun _ _ => rfl
  · refine changed.perm ?_
    have moved := @List.perm_append_comm_assoc _ [rawCell blank bufsize start,
      rawCell blank (size - bufsize) (start + bufsize)] front rest
    exact moved
  · simp only [List.mem_cons, List.not_mem_nil, or_false, forall_eq_or_imp, forall_eq,
      exists_eq_left, Cell.Within, rawCell]
    omega

/-- The free list of a zone after `_zcram` has divided a range of raw memory. -/
theorem zcramLoop_arranged {fuel : ℕ} {view : ZoneView} {memory result : Memory} {mem size : ℕ}
    (arranged : Arranged memory (view.cells owner ++ rawCell view.blank size mem :: rest))
    (large : 4 ≤ view.bufsize) (larger : view.blank = true → 20 ≤ view.bufsize)
    (rangeLt : mem + size < 2 ^ 32)
    (buffersLt : ∀ buffer ∈ view.free, buffer + view.bufsize < 2 ^ 32)
    (returned : zcramLoop view.address view.bufsize fuel memory mem size = .ok result) :
    ∃ buffers, Arranged result ({ view with free := buffers ++ view.free }.cells owner ++ rest) ∧
      (∀ buffer ∈ buffers, mem ≤ buffer ∧ buffer + view.bufsize ≤ mem + size) ∧
      (view.bufsize ≤ size → mem ∈ buffers) := by
  induction fuel generalizing view memory mem size with
  | zero => simp [zcramLoop] at returned
  | succ fuel ih =>
      rw [zcramLoop] at returned
      split at returned
      · rename_i fits
        have split := rawCell_split fits arranged
        have headMem : rawCell view.blank view.bufsize mem ∈ view.cells owner ++
            rawCell view.blank view.bufsize mem ::
              rawCell view.blank (size - view.bufsize) (mem + view.bufsize) :: rest := by simp
        have zero := split.holds _ headMem
        have countLt := view.length_lt arranged large buffersLt
        have blankZero : view.blank = true →
            20 ≤ view.bufsize ∧ memory.read32 (mem + 16) = 0 := by
          intro isBlank
          have enough := larger isBlank
          refine ⟨enough, Memory.read32_of_zero fun byte atLeast below => ?_⟩
          exact zero isBlank byte (by omega) (by omega)
        have memLt : mem < 2 ^ 32 := by omega
        have pushed := pushFree_arranged split rfl rfl large blankZero countLt memLt
        have pushedLt : ∀ buffer ∈ mem :: view.free, buffer + view.bufsize < 2 ^ 32 := by
          intro buffer bufferMem
          rcases List.mem_cons.mp bufferMem with rfl | later
          · omega
          · exact buffersLt buffer later
        obtain ⟨buffers, final, bounds, _⟩ :=
          @ih { view with free := mem :: view.free } _ _ _ pushed large larger (by omega) pushedLt
            returned
        refine ⟨buffers ++ [mem], ?_, ?_, fun _ => by simp⟩
        · simpa using final
        · intro buffer bufferMem
          rcases List.mem_append.mp bufferMem with later | here
          · have bound := bounds buffer later
            simp only at bound
            omega
          · rw [List.mem_singleton.mp here]
            omega
      · rw [Except.ok.injEq] at returned
        subst returned
        refine ⟨[], arranged.sublist ?_, by simp, fun fits => by omega⟩
        simp

theorem zcramLoop_returns {zone bufsize : ℕ} (positive : 0 < bufsize) {fuel : ℕ} (memory : Memory)
    (mem size : ℕ) (enough : size < fuel) :
    ∃ result, zcramLoop zone bufsize fuel memory mem size = .ok result := by
  induction fuel generalizing memory mem size with
  | zero => omega
  | succ fuel ih =>
      rw [zcramLoop]
      split
      · exact ih _ _ _ (by omega)
      · exact ⟨memory, rfl⟩

end Cram

section Descriptors

theorem calcBufsizeLoop_bounds {size fuel num mul bufsize : ℕ} (numLt : num < 2 ^ 32)
    (returned : calcBufsizeLoop size fuel num mul = .ok bufsize) :
    size ≤ bufsize ∧ bufsize < 2 ^ 32 := by
  induction fuel generalizing num mul with
  | zero => simp [calcBufsizeLoop] at returned
  | succ fuel ih =>
      rw [calcBufsizeLoop] at returned
      split at returned
      · split at returned
        · exact ih (Nat.mod_lt _ (by decide)) returned
        · exact ih (Nat.mod_lt _ (by decide)) returned
      · rw [Except.ok.injEq] at returned
        omega

theorem calcBufsize_bounds {fuel size bufsize : ℕ}
    (returned : calcBufsize fuel size = .ok bufsize) :
    (size + 4) % 2 ^ 32 ≤ bufsize ∧ bufsize < 2 ^ 32 :=
  calcBufsizeLoop_bounds (by decide) returned

/-- Only sums of at most two bytes lead to a buffer that is smaller than its header. -/
theorem calcBufsize_large {fuel size bufsize : ℕ} (returned : calcBufsize fuel size = .ok bufsize)
    (fits : 2 < (size + 4) % 2 ^ 32) : 4 ≤ bufsize := by
  have bounds := (calcBufsize_bounds returned).1
  by_cases three : (size + 4) % 2 ^ 32 = 3
  · rw [calcBufsize, three] at returned
    rcases fuel with _ | _ | _ | fuel
    all_goals simp [calcBufsizeLoop] at returned
    omega
  · omega

theorem initZone_holds {memory : Memory} {owner buffer bufsize memtype : ℕ} (name : ℕ)
    (blank : (bufferCell true 32 owner buffer).holds memory)
    (bufsizeLt : bufsize < 2 ^ 32) (memtypeLt : memtype < 2 ^ 32) :
    (zoneCell owner ⟨buffer + 4, bufsize, memtype, false, []⟩).holds
      (initZone memory (buffer + 4) bufsize memtype name) := by
  rcases blank with ⟨header, _, zero⟩
  simp only [zoneCell, initZone, Zone.setName, Zone.setMemtype, Zone.setFreelist,
    Zone.setBufsize]
  refine ⟨⟨?_, ?_, ?_, ?_⟩, ?_⟩
  · simp only [Zone.znBufsize]
    rw [Memory.read32_write32_of_apart (by omega), Memory.read32_write32_of_apart (by omega),
      Memory.read32_write32_of_apart (by omega), Memory.read32_write32_self]
    omega
  · simp only [Zone.znFreelist]
    rw [Memory.read32_write32_of_apart (by omega), Memory.read32_write32_of_apart (by omega),
      Memory.read32_write32_self]
    rfl
  · simp only [Zone.znCount]
    rw [Memory.read32_write32_of_apart (by omega), Memory.read32_write32_of_apart (by omega),
      Memory.read32_write32_of_apart (by omega), Memory.read32_write32_of_apart (by omega)]
    exact (zero rfl).2
  · simp only [Zone.znMemtype]
    rw [Memory.read32_write32_of_apart (by omega), Memory.read32_write32_self]
    omega
  · intro _
    refine ⟨by simp, ?_⟩
    rw [Nat.add_sub_cancel, Memory.read32_write32_of_apart (by omega),
      Memory.read32_write32_of_apart (by omega), Memory.read32_write32_of_apart (by omega),
      Memory.read32_write32_of_apart (by omega)]
    exact header

/-- A blank buffer becomes the descriptor of a zone without buffers. -/
theorem initZone_arranged {memory : Memory} {rest : List Cell}
    {owner buffer bufsize memtype : ℕ} (name : ℕ)
    (arranged : Arranged memory (bufferCell true 32 owner buffer :: rest))
    (bufsizeLt : bufsize < 2 ^ 32) (memtypeLt : memtype < 2 ^ 32) :
    Arranged (initZone memory (buffer + 4) bufsize memtype name)
      (ZoneView.cells owner ⟨buffer + 4, bufsize, memtype, false, []⟩ ++ rest) := by
  have changed : Arranged (initZone memory (buffer + 4) bufsize memtype name)
      (ZoneView.cells owner ⟨buffer + 4, bufsize, memtype, false, []⟩) := by
    refine ⟨?_, List.pairwise_singleton _ _⟩
    intro cell cellMem
    rw [List.mem_singleton.mp cellMem]
    exact initZone_holds name (arranged.holds _ List.mem_cons_self) bufsizeLt memtypeLt
  apply @Arranged.frame _ _ [bufferCell true 32 owner buffer] _ _ arranged changed
  · intro cell cellMem
    refine ⟨_, List.mem_singleton_self _, ?_⟩
    rw [List.mem_singleton.mp cellMem]
    simp [Cell.Within, zoneCell, ZoneView.range, bufferCell]
  · intro byte outside
    have off := outside _ (List.mem_singleton_self _)
    simp only [Cell.Contains, bufferCell] at off
    simp only [initZone, Zone.setName, Zone.setMemtype, Zone.setFreelist, Zone.setBufsize]
    rw [Memory.write32_of_apart (by omega), Memory.write32_of_apart (by omega),
      Memory.write32_of_apart (by omega), Memory.write32_of_apart (by omega)]

end Descriptors

end Rkernel
