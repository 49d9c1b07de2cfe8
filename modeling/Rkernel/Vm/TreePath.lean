import Mathlib.Algebra.Group.Nat.Defs
import Mathlib.Data.Nat.Basic
import Rkernel.Vm.TreeShape

/-!
# Paths in the tree

An update goes down from a slot, records the slots it passes in the path buffer, and
works its way back along the last 64 of them. This file says what the buffer holds,
where the descents end, and what the tree is after the way back.
-/

namespace Rkernel

namespace PathBuffer

variable {buffer : PathBuffer} {slots : List Slot}

/-- The buffer holds the slots, the last one of the path first. -/
structure Records (buffer : PathBuffer) (slots : List Slot) : Prop where
  short : slots.length ≤ 64
  room : 63 + slots.length ≤ buffer.i
  entry : ∀ k < 64, buffer.narr (m64 (buffer.i - k)) = slots[k]?

theorem records_start (slot : Slot) : (start slot).Records [slot] := by
  refine ⟨by simp, by simp [start], ?_⟩
  intro k less
  simp only [start, Function.update_apply, m64]
  cases k with
  | zero => simp
  | succ k =>
      have different : (64 - (k + 1)) % 64 ≠ 64 % 64 := by omega
      rw [if_neg different]
      rfl

theorem Records.push (records : buffer.Records slots) (slot : Slot) :
    (buffer.push slot).Records ((slot :: slots).take 64) := by
  have room := records.room
  have atMost := List.length_take_le' 64 (slot :: slots)
  rw [List.length_cons] at atMost
  refine ⟨List.length_take_le .., by simp only [PathBuffer.push]; omega, ?_⟩
  intro k less
  simp only [PathBuffer.push, Function.update_apply, m64]
  rw [List.getElem?_take_of_lt less]
  cases k with
  | zero => simp
  | succ k =>
      have different : (buffer.i + 1 - (k + 1)) % 64 ≠ (buffer.i + 1) % 64 := by omega
      rw [if_neg different, List.getElem?_cons_succ, ← records.entry k (by omega), m64,
        Nat.add_sub_add_right]

theorem Records.pop {slot : Slot} (records : buffer.Records (slot :: slots)) :
    buffer.pop.Records slots := by
  have room := records.room
  have short := records.short
  rw [List.length_cons] at room short
  refine ⟨by omega, by simp only [PathBuffer.pop]; omega, ?_⟩
  intro k less
  simp only [PathBuffer.pop, Function.update_apply, m64]
  by_cases last : k = 63
  · have same : (buffer.i - 1 - k) % 64 = buffer.i % 64 := by omega
    rw [if_pos same, List.getElem?_eq_none (by omega)]
  · have different : (buffer.i - 1 - k) % 64 ≠ buffer.i % 64 := by omega
    have entry := records.entry (k + 1) (by omega)
    rw [List.getElem?_cons_succ, m64] at entry
    rw [if_neg different, ← entry, Nat.sub_sub, Nat.add_comm 1 k]

/-- The slots of a descent, recorded one by one. -/
theorem Records.pushAll (records : buffer.Records slots) (below : List Slot) :
    (below.foldl PathBuffer.push buffer).Records ((below.reverse ++ slots).take 64) := by
  induction below generalizing buffer slots with
  | nil =>
      rw [List.reverse_nil, List.nil_append, List.take_of_length_le records.short]
      exact records
  | cons slot below ih =>
      have pushed := ih (records.push slot)
      rw [List.take_append, List.take_take, Nat.min_eq_left (Nat.sub_le ..)] at pushed
      rw [List.foldl_cons, List.reverse_cons, List.append_assoc, List.singleton_append,
        List.take_append]
      exact pushed

variable {Value : Type}

/-- The way back visits what the buffer holds. -/
theorem Records.btBacktrack (records : buffer.Records slots)
    (balance : TreeMemory Value → Slot → Option (TreeMemory Value)) (memory : TreeMemory Value)
    {fuel : ℕ} (enough : slots.length < fuel) :
    btBacktrack balance fuel memory buffer = slots.foldlM balance memory := by
  induction slots generalizing buffer memory fuel with
  | nil =>
      have entry := records.entry 0 (by omega)
      rw [Nat.sub_zero] at entry
      cases fuel with
      | zero => omega
      | succ fuel => simp [Rkernel.btBacktrack, entry]
  | cons slot slots ih =>
      have entry := records.entry 0 (by omega)
      rw [Nat.sub_zero] at entry
      cases fuel with
      | zero => omega
      | succ fuel =>
          simp only [Rkernel.btBacktrack, entry, List.getElem?_cons_zero, List.foldlM_cons]
          cases balanced : balance memory slot with
          | none => rfl
          | some next => exact ih records.pop next (by simpa using enough)

end PathBuffer

namespace Shape

open BinaryTree

variable {Value : Type} {memory next : TreeMemory Value} {slot : Slot}

/-- The key of a node, as the search compares it. -/
def keyIn (memory : TreeMemory Value) (cell : TreeCell) : ℕ :=
  (memory.K cell.addr).toNat

/-- The way of the search for a key. -/
def way (memory : TreeMemory Value) (K : BitVec 32) (shape : Shape) : List Side :=
  shape.route (keyIn memory) K.toNat

theorem way_node (memory : TreeMemory Value) (K : BitVec 32) (cell : TreeCell)
    (left right : Shape) :
    way memory K (node cell left right) =
      if K < memory.K cell.addr then .left :: way memory K left
      else if memory.K cell.addr < K then .right :: way memory K right
      else [] := by
  by_cases below : K.toNat < (memory.K cell.addr).toNat <;>
    by_cases above : (memory.K cell.addr).toNat < K.toNat <;>
    simp [way, route, keyIn, BitVec.lt_def, below, above]

theorem Holds.btDescend {shape : Shape} (holds : Holds memory shape (memory.link slot))
    (K : BitVec 32) (buffer : PathBuffer) {fuel : ℕ} (enough : shape.numNodes < fuel) :
    btDescend memory K fuel slot buffer =
      some (slotAt slot shape (way memory K shape),
        (slotsBelow shape (way memory K shape)).foldl PathBuffer.push buffer) := by
  induction shape generalizing slot buffer fuel with
  | nil =>
      have isNull : memory.link slot = none := holds
      cases fuel with
      | zero => omega
      | succ fuel => simp [Rkernel.btDescend, isNull, way, route, slotAt, slotsBelow]
  | node cell left right ihLeft ihRight =>
      rcases holds with ⟨isRoot, _, holdsLeft, holdsRight⟩
      rw [numNodes] at enough
      cases fuel with
      | zero => omega
      | succ fuel =>
          simp only [Rkernel.btDescend, isRoot, way_node]
          split
          · exact ihLeft holdsLeft (buffer.push (.left cell.addr)) (by omega)
          · split
            · exact ihRight holdsRight (buffer.push (.right cell.addr)) (by omega)
            · simp [slotAt, slotsBelow]

/-- The address of the root. -/
def root : Shape → Option NodePtr
  | nil => none
  | node cell _ _ => some cell.addr

theorem Holds.eq_root {shape : Shape} {pointer : Option NodePtr}
    (holds : Holds memory shape pointer) : pointer = root shape := by
  cases shape with
  | nil => exact holds
  | node cell left right => exact holds.1

theorem Holds.subtree {shape : Shape} {path : List Side}
    (holds : Holds memory shape (memory.link slot)) (reaches : shape.Reaches path) :
    Holds memory (shape.subtree path) (memory.link (slotAt slot shape path)) := by
  induction path generalizing shape slot with
  | nil => simpa [slotAt] using holds
  | cons side path ih =>
      cases shape with
      | nil => exact reaches.elim
      | node cell left right =>
          rcases holds with ⟨_, _, holdsLeft, holdsRight⟩
          cases side with
          | left => exact ih holdsLeft reaches
          | right => exact ih holdsRight reaches

theorem Holds.btLookupLoop {shape : Shape} (holds : Holds memory shape (memory.link slot))
    (K : BitVec 32) {fuel : ℕ} (enough : shape.numNodes < fuel) :
    btLookupLoop memory K fuel slot =
      some ((root (shape.subtree (way memory K shape))).map
        fun _ => slotAt slot shape (way memory K shape)) := by
  induction shape generalizing slot fuel with
  | nil =>
      have isNull : memory.link slot = none := holds
      cases fuel with
      | zero => omega
      | succ fuel => simp [Rkernel.btLookupLoop, isNull, way, route, root]
  | node cell left right ihLeft ihRight =>
      rcases holds with ⟨isRoot, _, holdsLeft, holdsRight⟩
      rw [numNodes] at enough
      cases fuel with
      | zero => omega
      | succ fuel =>
          simp only [Rkernel.btLookupLoop, isRoot, way_node]
          split
          · exact ihLeft holdsLeft (by omega)
          · split
            · exact ihRight holdsRight (by omega)
            · simp [slotAt, root]

/-- A step of an operation below the left field of a node. -/
theorem At.replace_left {cell : TreeCell} {left right other : Shape} {nodes : List NodePtr}
    (placed : At memory slot (node cell left right))
    (frame : memory.Frame next (.left cell.addr) nodes)
    (holds : Holds next other (next.link (.left cell.addr)))
    (notCell : cell.addr ∉ nodes) (notRight : ∀ node ∈ addrs right, node ∉ nodes)
    (notSlot : ∀ node ∈ nodes, slot.owner ≠ some node) :
    Holds next (node cell other right) (next.link slot) := by
  rcases placed with ⟨⟨isRoot, isDepth, _, holdsRight⟩, nodup, notOwner⟩
  have notField := ne_of_notOwner (notOwner cell.addr (by simp))
  refine ⟨?_, ?_, holds, ?_⟩
  · rw [frame.link slot notField.1 notSlot]
    exact isRoot
  · rw [frame.depth cell.addr notCell]
    exact isDepth
  · rw [frame.link (.right cell.addr) (by simp) ?_]
    · apply holdsRight.frame frame
      intro node nodeMem
      refine ⟨notRight node nodeMem, ?_⟩
      simp only [Slot.owner, ne_eq, Option.some.injEq]
      rintro rfl
      simp only [addrs_node, List.nodup_append, List.nodup_cons] at nodup
      exact nodup.2.1.1 nodeMem
    · intro node nodeMem
      simp only [Slot.owner, ne_eq, Option.some.injEq]
      rintro rfl
      exact notCell nodeMem

theorem At.replace_right {cell : TreeCell} {left right other : Shape} {nodes : List NodePtr}
    (placed : At memory slot (node cell left right))
    (frame : memory.Frame next (.right cell.addr) nodes)
    (holds : Holds next other (next.link (.right cell.addr)))
    (notCell : cell.addr ∉ nodes) (notLeft : ∀ node ∈ addrs left, node ∉ nodes)
    (notSlot : ∀ node ∈ nodes, slot.owner ≠ some node) :
    Holds next (node cell left other) (next.link slot) := by
  rcases placed with ⟨⟨isRoot, isDepth, holdsLeft, _⟩, nodup, notOwner⟩
  have notField := ne_of_notOwner (notOwner cell.addr (by simp))
  refine ⟨?_, ?_, ?_, holds⟩
  · rw [frame.link slot notField.2 notSlot]
    exact isRoot
  · rw [frame.depth cell.addr notCell]
    exact isDepth
  · rw [frame.link (.left cell.addr) (by simp) ?_]
    · apply holdsLeft.frame frame
      intro node nodeMem
      refine ⟨notLeft node nodeMem, ?_⟩
      simp only [Slot.owner, ne_eq, Option.some.injEq]
      rintro rfl
      simp only [addrs_node, List.nodup_append, List.nodup_cons, List.mem_cons] at nodup
      exact nodup.2.2 cell.addr nodeMem cell.addr (Or.inl rfl) rfl
    · intro node nodeMem
      simp only [Slot.owner, ne_eq, Option.some.injEq]
      rintro rfl
      exact notCell nodeMem

theorem At.left {cell : TreeCell} {left right : Shape}
    (placed : At memory slot (node cell left right)) : At memory (.left cell.addr) left := by
  rcases placed with ⟨⟨_, _, holdsLeft, _⟩, nodup, _⟩
  simp only [addrs_node, List.nodup_append, List.nodup_cons, List.mem_cons] at nodup
  refine ⟨holdsLeft, nodup.1, ?_⟩
  intro node nodeMem
  simp only [Slot.owner, ne_eq, Option.some.injEq]
  rintro rfl
  exact nodup.2.2 cell.addr nodeMem cell.addr (Or.inl rfl) rfl

theorem At.right {cell : TreeCell} {left right : Shape}
    (placed : At memory slot (node cell left right)) : At memory (.right cell.addr) right := by
  rcases placed with ⟨⟨_, _, _, holdsRight⟩, nodup, _⟩
  simp only [addrs_node, List.nodup_append, List.nodup_cons, List.mem_cons] at nodup
  refine ⟨holdsRight, nodup.2.1.2, ?_⟩
  intro node nodeMem
  simp only [Slot.owner, ne_eq, Option.some.injEq]
  rintro rfl
  exact nodup.2.1.1 nodeMem

theorem length_slotsBelow {shape : Shape} {path : List Side} (reaches : shape.Reaches path) :
    (slotsBelow shape path).length = path.length := by
  induction path generalizing shape with
  | nil => cases shape <;> rfl
  | cons side path ih =>
      cases shape with
      | nil => exact reaches.elim
      | node cell left right =>
          cases side with
          | left => simpa [slotsBelow] using ih (show left.Reaches path from reaches)
          | right => simpa [slotsBelow] using ih (show right.Reaches path from reaches)

/-- The last step of the way back: the slot above the others, if it is one of the last 64. -/
theorem foldlM_take_reverse (balance : TreeMemory Value → Slot → Option (TreeMemory Value))
    (slots : List Slot) {middle : TreeMemory Value}
    (below : (slots.reverse.take 64).foldlM balance memory = some middle) :
    ((slot :: slots).reverse.take 64).foldlM balance memory =
      if slots.length < 64 then balance middle slot else some middle := by
  rw [List.reverse_cons, List.take_append, List.foldlM_append, below, List.length_reverse]
  split
  · rename_i short
    rw [List.take_of_length_le (by simp; omega)]
    simp
  · rename_i long
    rw [Nat.sub_eq_zero_of_le (by omega)]
    rfl

theorem At.step_back {shape other : Shape} {middle : TreeMemory Value}
    (placed : At memory slot shape) (sameAddrs : addrs other = addrs shape)
    (holds : Holds middle other (middle.link slot)) (frame : memory.Frame middle slot (addrs shape))
    (recorded : Prop) [Decidable recorded] :
    ∃ next, (if recorded then Rkernel.btBalance middle slot else some middle) = some next ∧
      Holds next (if recorded then balance other else other) (next.link slot) ∧
      memory.Frame next slot (addrs shape) := by
  split
  · have placedThere : At middle slot other := by
      refine ⟨holds, ?_, ?_⟩
      · rw [sameAddrs]
        exact placed.nodup
      · rw [sameAddrs]
        exact placed.notOwner
    rcases placedThere.btBalance with ⟨next, balanced, holdsNext, frameNext⟩
    rw [sameAddrs] at frameNext
    exact ⟨next, balanced, holdsNext, frame.trans frameNext⟩
  · exact ⟨middle, rfl, holds, frame⟩

/-- The way back over the last 64 slots of a path. -/
theorem At.rebalance {shape : Shape} {path : List Side} (placed : At memory slot shape)
    (reaches : shape.Reaches path) :
    ∃ next, ((slot :: slotsBelow shape path).reverse.take 64).foldlM Rkernel.btBalance memory =
        some next ∧
      Holds next (rebalance shape path) (next.link slot) ∧
      memory.Frame next slot (addrs shape) := by
  induction path generalizing shape slot with
  | nil =>
      have atEnd : slotsBelow shape [] = [] := by cases shape <;> rfl
      rcases placed.btBalance with ⟨next, balanced, holds, frame⟩
      refine ⟨next, by simpa [atEnd] using balanced, ?_, frame⟩
      simpa [Shape.rebalance] using holds
  | cons side path ih =>
      cases shape with
      | nil => exact reaches.elim
      | node cell left right =>
          have nodup := placed.nodup
          have notOwner := placed.notOwner
          simp only [addrs_node, List.nodup_append, List.nodup_cons, List.mem_append,
            List.mem_cons] at nodup notOwner
          cases side with
          | left =>
              have sameLength := length_slotsBelow (show left.Reaches path from reaches)
              rcases ih placed.left reaches with ⟨middle, below, holds, frame⟩
              have replaced := placed.replace_left frame holds (by grind) (by grind) (by grind)
              have widened : memory.Frame middle slot (addrs (node cell left right)) :=
                frame.mono (by simp; grind) (Or.inr ⟨cell.addr, by simp, rfl⟩)
              simp only [slotsBelow, foldlM_take_reverse _ _ below, List.length_cons, sameLength,
                Shape.rebalance]
              exact placed.step_back (by simp) replaced widened (path.length + 1 < 64)
          | right =>
              have sameLength := length_slotsBelow (show right.Reaches path from reaches)
              rcases ih placed.right reaches with ⟨middle, below, holds, frame⟩
              have replaced := placed.replace_right frame holds (by grind) (by grind) (by grind)
              have widened : memory.Frame middle slot (addrs (node cell left right)) :=
                frame.mono (by simp; grind) (Or.inr ⟨cell.addr, by simp, rfl⟩)
              simp only [slotsBelow, foldlM_take_reverse _ _ below, List.length_cons, sameLength,
                Shape.rebalance]
              exact placed.step_back (by simp) replaced widened (path.length + 1 < 64)

theorem reaches_sinkPath (left right : Shape) :
    (sink left right).Reaches (sinkPath left right) := by
  fun_induction sink left right with
  | case1 right => simp [sinkPath, Reaches]
  | case2 left nonempty => cases left <;> simp [sinkPath, Reaches]
  | case3 l leftOuter leftInner r rightInner rightOuter lower ih =>
      simpa [sinkPath, lower, Reaches] using ih
  | case4 l leftOuter leftInner r rightInner rightOuter higher ih =>
      simpa [sinkPath, higher, Reaches] using ih

theorem At.of_addrs {shape other : Shape} {middle : TreeMemory Value}
    (placed : At memory slot shape) (holds : Holds middle other (middle.link slot))
    (sameAddrs : addrs other = addrs shape) :
    At middle slot other := by
  refine ⟨holds, ?_, ?_⟩
  · rw [sameAddrs]
    exact placed.nodup
  · rw [sameAddrs]
    exact placed.notOwner

/-- A pointer to a part of the tree is stored in its slot. -/
theorem At.store {shape part : Shape} {pointer : Option NodePtr} (placed : At memory slot shape)
    (holds : Holds memory part pointer) (isPart : ∀ node ∈ addrs part, node ∈ addrs shape) :
    Holds (memory.store slot pointer) part ((memory.store slot pointer).link slot) := by
  rw [TreeMemory.store_link]
  apply holds.frame (TreeMemory.frame_store memory slot pointer [])
  intro node nodeMem
  exact ⟨by simp, placed.notOwner node (isPart node nodeMem)⟩

theorem At.btSink {victim : TreeCell} {left right : Shape}
    (placed : At memory slot (node victim left right)) (buffer : PathBuffer) (it : Option NodePtr)
    {fuel : ℕ} (enough : left.numNodes + right.numNodes < fuel) :
    ∃ next, btSink fuel memory slot buffer it =
        some (next,
          (slotsBelow (sink left right) (sinkPath left right)).foldl PathBuffer.push buffer,
          some victim.addr) ∧
      Holds next (sink left right) (next.link slot) ∧
      memory.Frame next slot (addrs (node victim left right)) := by
  fun_induction sink left right generalizing memory slot buffer fuel victim with
  | case1 right =>
      have noLeft : memory.link (.left victim.addr) = none := placed.holds.2.2.1
      cases fuel with
      | zero => omega
      | succ fuel =>
          refine ⟨_, ?_, placed.store placed.holds.2.2.2 (by simp; grind),
            TreeMemory.frame_store ..⟩
          simp [Rkernel.btSink, placed.holds.1, noLeft, sinkPath, slotsBelow]
  | case2 left nonempty =>
      have noRight : memory.link (.right victim.addr) = none := placed.holds.2.2.2
      cases fuel with
      | zero => omega
      | succ fuel =>
          refine ⟨_, ?_, placed.store placed.holds.2.2.1 (by simp; grind),
            TreeMemory.frame_store ..⟩
          cases left with
          | nil => exact absurd rfl nonempty
          | node cell outer inner =>
              simp [Rkernel.btSink, placed.holds.1, noRight, placed.holds.2.2.1.1, sinkPath,
                slotsBelow]
  | case3 l leftOuter leftInner r rightInner rightOuter lower ih =>
      rcases placed.holds with ⟨isRoot, _, holdsLeft, holdsRight⟩
      simp only [numNodes] at enough
      cases fuel with
      | zero => omega
      | succ fuel =>
          rcases placed.btRotleft with ⟨middle, rotated, holds, frame⟩
          have placedThere : At middle slot _ := placed.of_addrs holds (by simp)
          have shorter : (node l leftOuter leftInner).numNodes + rightInner.numNodes < fuel := by
            simp only [numNodes]
            omega
          rcases ih placedThere.left (buffer.push (.left r.addr)) shorter with
            ⟨next, sunk, holdsNext, frameNext⟩
          have nodup := placed.nodup
          have notOwner := placed.notOwner
          simp only [addrs_node, List.nodup_append, List.nodup_cons, List.mem_append,
            List.mem_cons] at nodup notOwner
          have replaced := placedThere.replace_left frameNext holdsNext (by simp; grind)
            (by simp; grind) (by simp; grind)
          have widened : middle.Frame next slot (addrs (node victim (node l leftOuter leftInner)
              (node r rightInner rightOuter))) :=
            frameNext.mono (by simp; grind) (Or.inr ⟨r.addr, by simp, rfl⟩)
          refine ⟨next, ?_, replaced, frame.trans widened⟩
          simp only [Rkernel.btSink, isRoot, holdsLeft.1, holdsRight.1, sinkPath]
          simp [btDepth, holdsLeft.2.1, holdsRight.2.1, lower, rotated, holds.1, slotsBelow, sunk]
  | case4 l leftOuter leftInner r rightInner rightOuter higher ih =>
      rcases placed.holds with ⟨isRoot, _, holdsLeft, holdsRight⟩
      simp only [numNodes] at enough
      cases fuel with
      | zero => omega
      | succ fuel =>
          rcases placed.btRotright with ⟨middle, rotated, holds, frame⟩
          have placedThere : At middle slot _ := placed.of_addrs holds (by simp)
          have shorter : leftInner.numNodes + (node r rightInner rightOuter).numNodes < fuel := by
            simp only [numNodes]
            omega
          rcases ih placedThere.right (buffer.push (.right l.addr)) shorter with
            ⟨next, sunk, holdsNext, frameNext⟩
          have nodup := placed.nodup
          have notOwner := placed.notOwner
          simp only [addrs_node, List.nodup_append, List.nodup_cons, List.mem_append,
            List.mem_cons] at nodup notOwner
          have replaced := placedThere.replace_right frameNext holdsNext (by simp; grind)
            (by simp; grind) (by simp; grind)
          have widened : middle.Frame next slot (addrs (node victim (node l leftOuter leftInner)
              (node r rightInner rightOuter))) :=
            frameNext.mono (by simp; grind) (Or.inr ⟨l.addr, by simp, rfl⟩)
          refine ⟨next, ?_, replaced, frame.trans widened⟩
          simp [Rkernel.btSink, isRoot, holdsLeft.1, holdsRight.1, btDepth, holdsLeft.2.1,
            holdsRight.2.1, higher, rotated, holds.1, slotsBelow, sunk, sinkPath]

end Shape

end Rkernel
