import Rkernel.Vm.TreeUpdate

/-!
# Nearest nodes

`bt_floor` and `bt_ceiling` go down the tree like `bt_lookup` and remember the slot of the last
node on one side of the key. The two differ in the order only: one searches the greatest of the
smaller keys, the other the least of the larger ones.

The invariant of the descent says what is returned for a subtree: the slot of its nearest node,
or what was remembered before if it has none.
-/

namespace Rkernel

namespace Shape

open BinaryTree

variable {Value : Type} {memory : TreeMemory Value} {slot : Slot} {shape : Shape} {K : BitVec 32}

/-- The pointer to a node is stored in a slot of the tree below another slot. -/
structure IsSlotOf (memory : TreeMemory Value) (base : Slot) (shape : Shape) (slot : Slot)
    (node : NodePtr) : Prop where
  link : memory.link slot = some node
  inTree : slot = base ∨ ∃ owner ∈ addrs shape, slot.owner = some owner

/-- The node whose key is nearest to `K` on the side that a relation describes. -/
structure Nearest (side : BitVec 32 → BitVec 32 → Prop) (memory : TreeMemory Value)
    (shape : Shape) (K : BitVec 32) (node : NodePtr) : Prop where
  inTree : node ∈ addrs shape
  onSide : side (memory.K node) K
  closest : ∀ other ∈ addrs shape, side (memory.K other) K → side (memory.K other) (memory.K node)

/-- A search in a tree returns the slot of the nearest node, or what was remembered before if
there is none. -/
def FindsNearest (side : BitVec 32 → BitVec 32 → Prop) (memory : TreeMemory Value) (base : Slot)
    (shape : Shape) (K : BitVec 32) (remembered result : Option Slot) : Prop :=
  (result = remembered ∧ ∀ node ∈ addrs shape, ¬side (memory.K node) K) ∨
    ∃ found node, result = some found ∧ IsSlotOf memory base shape found node ∧
      Nearest side memory shape K node

section FindsNearest

variable {side : BitVec 32 → BitVec 32 → Prop} {remembered result : Option Slot} {part : Shape}
  {base : Slot}

theorem IsSlotOf.widen {found : Slot} {node : NodePtr}
    (isSlot : IsSlotOf memory base part found node)
    (isPart : ∀ node ∈ addrs part, node ∈ addrs shape)
    (below : ∃ owner ∈ addrs shape, base.owner = some owner) :
    IsSlotOf memory slot shape found node := by
  refine ⟨isSlot.link, Or.inr ?_⟩
  rcases isSlot.inTree with rfl | ⟨owner, ownerMem, owns⟩
  · exact below
  · exact ⟨owner, isPart owner ownerMem, owns⟩

/-- The search goes on in a part of the tree because nothing else lies on the side. -/
theorem FindsNearest.skip (finds : FindsNearest side memory base part K remembered result)
    (isPart : ∀ node ∈ addrs part, node ∈ addrs shape)
    (below : ∃ owner ∈ addrs shape, base.owner = some owner)
    (others : ∀ node ∈ addrs shape, node ∉ addrs part → ¬side (memory.K node) K) :
    FindsNearest side memory slot shape K remembered result := by
  rcases finds with ⟨same, none⟩ | ⟨found, node, isFound, isSlot, nearest⟩
  · refine Or.inl ⟨same, ?_⟩
    intro node nodeMem
    by_cases inPart : node ∈ addrs part
    · exact none node inPart
    · exact others node nodeMem inPart
  · refine Or.inr ⟨found, node, isFound, isSlot.widen isPart below, isPart node nearest.inTree,
      nearest.onSide, ?_⟩
    intro other otherMem onSide
    by_cases inPart : other ∈ addrs part
    · exact nearest.closest other inPart onSide
    · exact absurd onSide (others other otherMem inPart)

/-- The search remembers a node and goes on in the part of the tree that may hold a nearer one. -/
theorem FindsNearest.improve {before : Option Slot}
    (transitive : ∀ {x y z : BitVec 32}, side x y → side y z → side x z)
    (finds : FindsNearest side memory base part K (some slot) result) {node : NodePtr}
    (isRoot : memory.link slot = some node) (nodeMem : node ∈ addrs shape)
    (onSide : side (memory.K node) K) (isPart : ∀ node ∈ addrs part, node ∈ addrs shape)
    (below : ∃ owner ∈ addrs shape, base.owner = some owner)
    (behind : ∀ other ∈ addrs shape, other ∉ addrs part → side (memory.K other) (memory.K node))
    (nearer : ∀ other ∈ addrs part, side (memory.K node) (memory.K other)) :
    FindsNearest side memory slot shape K before result := by
  rcases finds with ⟨same, none⟩ | ⟨found, near, isFound, isSlot, nearest⟩
  · refine Or.inr ⟨slot, node, same, ⟨isRoot, Or.inl rfl⟩, nodeMem, onSide, ?_⟩
    intro other otherMem otherOnSide
    by_cases inPart : other ∈ addrs part
    · exact absurd otherOnSide (none other inPart)
    · exact behind other otherMem inPart
  · refine Or.inr ⟨found, near, isFound, isSlot.widen isPart below, isPart near nearest.inTree,
      nearest.onSide, ?_⟩
    intro other otherMem otherOnSide
    by_cases inPart : other ∈ addrs part
    · exact nearest.closest other inPart otherOnSide
    · exact transitive (behind other otherMem inPart) (nearer near nearest.inTree)

/-- The search has come to a node with the key. -/
theorem findsNearest_self {node : NodePtr} (reflexive : side K K)
    (isRoot : memory.link slot = some node) (nodeMem : node ∈ addrs shape)
    (same : memory.K node = K) :
    FindsNearest side memory slot shape K remembered (some slot) := by
  refine Or.inr ⟨slot, node, rfl, ⟨isRoot, Or.inl rfl⟩, nodeMem, ?_, ?_⟩
  · rwa [same]
  · intro other _ onSide
    rwa [same]

end FindsNearest

section Descent

variable {cell : TreeCell} {left right : Shape}

/-- The keys of the two subtrees of a node in a search tree. -/
theorem Ordered.keys (ordered : (node cell left right).Ordered (keyIn memory)) :
    left.Ordered (keyIn memory) ∧ right.Ordered (keyIn memory) ∧
      (∀ address ∈ addrs left, memory.K address < memory.K cell.addr) ∧
      ∀ address ∈ addrs right, memory.K cell.addr < memory.K address := by
  rcases ordered_node.mp ordered with ⟨leftOrdered, rightOrdered, below, above⟩
  refine ⟨leftOrdered, rightOrdered, ?_, ?_⟩
  · intro address addressMem
    rcases List.mem_map.mp addressMem with ⟨other, otherMem, rfl⟩
    exact below other otherMem
  · intro address addressMem
    rcases List.mem_map.mp addressMem with ⟨other, otherMem, rfl⟩
    exact above other otherMem

theorem mem_addrs_of_not_left {address : NodePtr} (inTree : address ∈ addrs (node cell left right))
    (notLeft : address ∉ addrs left) : address = cell.addr ∨ address ∈ addrs right := by
  rw [addrs_node, List.mem_append, List.mem_cons] at inTree
  exact inTree.resolve_left notLeft

theorem mem_addrs_of_not_right {address : NodePtr} (inTree : address ∈ addrs (node cell left right))
    (notRight : address ∉ addrs right) : address ∈ addrs left ∨ address = cell.addr := by
  rw [addrs_node, List.mem_append, List.mem_cons, ← or_assoc] at inTree
  exact inTree.resolve_right notRight

theorem mem_addrs_left {address : NodePtr} (inLeft : address ∈ addrs left) :
    address ∈ addrs (node cell left right) := by
  simp [inLeft]

theorem mem_addrs_right {address : NodePtr} (inRight : address ∈ addrs right) :
    address ∈ addrs (node cell left right) := by
  simp [inRight]

theorem mem_addrs_root : cell.addr ∈ addrs (node cell left right) := by
  simp

theorem Holds.btFloorLoop (holds : Holds memory shape (memory.link slot))
    (ordered : shape.Ordered (keyIn memory)) (K : BitVec 32) (lowermost : Option Slot) {fuel : ℕ}
    (enough : shape.numNodes < fuel) :
    ∃ result, btFloorLoop memory K fuel slot lowermost = some result ∧
      FindsNearest (· ≤ ·) memory slot shape K lowermost result := by
  induction shape generalizing slot lowermost fuel with
  | nil =>
      have isNull : memory.link slot = none := holds
      cases fuel with
      | zero => omega
      | succ fuel =>
          refine ⟨lowermost, ?_, Or.inl ⟨rfl, by simp⟩⟩
          simp only [Rkernel.btFloorLoop, isNull]
  | node cell left right ihLeft ihRight =>
      rcases holds with ⟨isRoot, _, holdsLeft, holdsRight⟩
      rcases Ordered.keys ordered with ⟨leftOrdered, rightOrdered, below, above⟩
      rw [numNodes] at enough
      cases fuel with
      | zero => omega
      | succ fuel =>
          have enoughLeft : left.numNodes < fuel := by omega
          have enoughRight : right.numNodes < fuel := by omega
          simp only [Rkernel.btFloorLoop, isRoot]
          split
          · rename_i less
            rcases ihLeft holdsLeft leftOrdered lowermost enoughLeft with
              ⟨result, computed, finds⟩
            refine ⟨result, computed, finds.skip (fun _ => mem_addrs_left)
              ⟨cell.addr, mem_addrs_root, rfl⟩ ?_⟩
            intro address addressMem notLeft
            rcases mem_addrs_of_not_left addressMem notLeft with rfl | inRight
            · exact BitVec.not_le.mpr less
            · exact BitVec.not_le.mpr (BitVec.lt_trans less (above address inRight))
          · split
            · rename_i _ greater
              rcases ihRight holdsRight rightOrdered (some slot) enoughRight with
                ⟨result, computed, finds⟩
              refine ⟨result, computed, finds.improve BitVec.le_trans isRoot mem_addrs_root
                (BitVec.le_of_lt greater) (fun _ => mem_addrs_right)
                ⟨cell.addr, mem_addrs_root, rfl⟩ ?_
                fun address inRight => BitVec.le_of_lt (above address inRight)⟩
              intro address addressMem notRight
              rcases mem_addrs_of_not_right addressMem notRight with inLeft | rfl
              · exact BitVec.le_of_lt (below address inLeft)
              · exact BitVec.le_refl _
            · rename_i notLess notGreater
              have same : memory.K cell.addr = K :=
                BitVec.le_antisymm (BitVec.not_lt.mp notLess) (BitVec.not_lt.mp notGreater)
              exact ⟨some slot, rfl,
                findsNearest_self (BitVec.le_refl K) isRoot mem_addrs_root same⟩

theorem Holds.btCeilingLoop (holds : Holds memory shape (memory.link slot))
    (ordered : shape.Ordered (keyIn memory)) (K : BitVec 32) (uppermost : Option Slot) {fuel : ℕ}
    (enough : shape.numNodes < fuel) :
    ∃ result, btCeilingLoop memory K fuel slot uppermost = some result ∧
      FindsNearest (· ≥ ·) memory slot shape K uppermost result := by
  induction shape generalizing slot uppermost fuel with
  | nil =>
      have isNull : memory.link slot = none := holds
      cases fuel with
      | zero => omega
      | succ fuel =>
          refine ⟨uppermost, ?_, Or.inl ⟨rfl, by simp⟩⟩
          simp only [Rkernel.btCeilingLoop, isNull]
  | node cell left right ihLeft ihRight =>
      rcases holds with ⟨isRoot, _, holdsLeft, holdsRight⟩
      rcases Ordered.keys ordered with ⟨leftOrdered, rightOrdered, below, above⟩
      rw [numNodes] at enough
      cases fuel with
      | zero => omega
      | succ fuel =>
          have enoughLeft : left.numNodes < fuel := by omega
          have enoughRight : right.numNodes < fuel := by omega
          simp only [Rkernel.btCeilingLoop, isRoot]
          split
          · rename_i less
            rcases ihLeft holdsLeft leftOrdered (some slot) enoughLeft with
              ⟨result, computed, finds⟩
            refine ⟨result, computed,
              finds.improve (fun larger smaller => BitVec.le_trans smaller larger) isRoot
              mem_addrs_root (BitVec.le_of_lt less) (fun _ => mem_addrs_left)
              ⟨cell.addr, mem_addrs_root, rfl⟩ ?_
              fun address inLeft => BitVec.le_of_lt (below address inLeft)⟩
            intro address addressMem notLeft
            rcases mem_addrs_of_not_left addressMem notLeft with rfl | inRight
            · exact BitVec.le_refl _
            · exact BitVec.le_of_lt (above address inRight)
          · split
            · rename_i _ greater
              rcases ihRight holdsRight rightOrdered uppermost enoughRight with
                ⟨result, computed, finds⟩
              refine ⟨result, computed, finds.skip (fun _ => mem_addrs_right)
                ⟨cell.addr, mem_addrs_root, rfl⟩ ?_⟩
              intro address addressMem notRight
              rcases mem_addrs_of_not_right addressMem notRight with inLeft | rfl
              · exact BitVec.not_le.mpr (BitVec.lt_trans (below address inLeft) greater)
              · exact BitVec.not_le.mpr greater
            · rename_i notLess notGreater
              have same : memory.K cell.addr = K :=
                BitVec.le_antisymm (BitVec.not_lt.mp notLess) (BitVec.not_lt.mp notGreater)
              exact ⟨some slot, rfl,
                findsNearest_self (BitVec.le_refl K) isRoot mem_addrs_root same⟩

/-- Where `bt_lookup` finds the key, the other two searches stop as well. -/
theorem btFloorLoop_of_btLookupLoop {fuel : ℕ} {found : Slot} (lowermost : Option Slot)
    (looked : btLookupLoop memory K fuel slot = some (some found)) :
    Rkernel.btFloorLoop memory K fuel slot lowermost = some (some found) := by
  induction fuel generalizing slot lowermost with
  | zero => contradiction
  | succ fuel ih =>
      rw [btLookupLoop] at looked
      rw [Rkernel.btFloorLoop]
      cases isRoot : memory.link slot with
      | none => simp [isRoot] at looked
      | some root =>
          simp only [isRoot] at looked ⊢
          split at looked
          · rename_i less
            rw [if_pos less]
            exact ih _ looked
          · rename_i notLess
            rw [if_neg notLess]
            split at looked
            · rename_i greater
              rw [if_pos greater]
              exact ih _ looked
            · rename_i notGreater
              rw [if_neg notGreater]
              exact looked

theorem btCeilingLoop_of_btLookupLoop {fuel : ℕ} {found : Slot} (uppermost : Option Slot)
    (looked : btLookupLoop memory K fuel slot = some (some found)) :
    Rkernel.btCeilingLoop memory K fuel slot uppermost = some (some found) := by
  induction fuel generalizing slot uppermost with
  | zero => contradiction
  | succ fuel ih =>
      rw [btLookupLoop] at looked
      rw [Rkernel.btCeilingLoop]
      cases isRoot : memory.link slot with
      | none => simp [isRoot] at looked
      | some root =>
          simp only [isRoot] at looked ⊢
          split at looked
          · rename_i less
            rw [if_pos less]
            exact ih _ looked
          · rename_i notLess
            rw [if_neg notLess]
            split at looked
            · rename_i greater
              rw [if_pos greater]
              exact ih _ looked
            · rename_i notGreater
              rw [if_neg notGreater]
              exact looked

end Descent

/-- What a search for the nearest node returns: null exactly if there is none, or its slot. -/
structure ReturnsNearest (side : BitVec 32 → BitVec 32 → Prop) (memory : TreeMemory Value)
    (shape : Shape) (K : BitVec 32) (result : Option Slot) : Prop where
  null : result = none ↔ ∀ node ∈ addrs shape, ¬side (memory.K node) K
  slot : ∀ slot, result = some slot →
    ∃ node, IsSlotOf memory .root shape slot node ∧ Nearest side memory shape K node

theorem FindsNearest.returnsNearest {side : BitVec 32 → BitVec 32 → Prop} {result : Option Slot}
    (finds : FindsNearest side memory .root shape K none result) :
    ReturnsNearest side memory shape K result := by
  rcases finds with ⟨rfl, nothing⟩ | ⟨found, node, rfl, isSlot, nearest⟩
  · exact ⟨⟨fun _ => nothing, fun _ => rfl⟩, fun slot isSome => nomatch isSome⟩
  · refine ⟨⟨?_, ?_⟩, ?_⟩
    · intro isNull
      contradiction
    · intro nothing
      exact absurd nearest.onSide (nothing node nearest.inTree)
    · intro slot isFound
      rcases Option.some.inj isFound with rfl
      exact ⟨node, isSlot, nearest⟩

/-- The search for the key of a node ends at the subtree that holds the node. -/
theorem SearchTree.mem_subtree_way (tree : SearchTree memory shape) {address : NodePtr}
    (addressMem : address ∈ addrs shape) :
    address ∈ addrs (shape.subtree (way memory (memory.K address) shape)) := by
  rcases tree.ordered.split (memory.K address).toNat with ⟨before, after, smaller, larger, parts, -⟩
  rcases List.mem_map.mp addressMem with ⟨cell, cellMem, rfl⟩
  rw [parts, List.mem_append, List.mem_append] at cellMem
  rcases cellMem with (inBefore | inSubtree) | inAfter
  · exact absurd (smaller cell inBefore) (Nat.lt_irrefl _)
  · exact List.mem_map_of_mem inSubtree
  · exact absurd (larger cell inAfter) (Nat.lt_irrefl _)

theorem SearchTree.exists_btLookup (tree : SearchTree memory shape) {address : NodePtr}
    (addressMem : address ∈ addrs shape) :
    ∃ slot, Rkernel.btLookup memory .root (memory.K address) = some (some slot) := by
  have found := tree.mem_subtree_way addressMem
  rw [tree.btLookup]
  cases isSubtree : shape.subtree (way memory (memory.K address) shape) with
  | nil =>
      rw [isSubtree] at found
      contradiction
  | node root left right => exact ⟨_, rfl⟩

/-- `bt_floor` and `bt_ceiling` return the slots of the nodes with the greatest key that is not
above `K` and with the least key that is not below it; both are the slot that `bt_lookup` returns
if a node has the key itself. -/
theorem SearchTree.btFloor_btCeiling (tree : SearchTree memory shape) (K : BitVec 32) :
    ∃ lower upper, btFloor memory .root K = some lower ∧ btCeiling memory .root K = some upper ∧
      ReturnsNearest (· ≤ ·) memory shape K lower ∧
      ReturnsNearest (· ≥ ·) memory shape K upper ∧
      ((∃ node ∈ addrs shape, memory.K node = K) →
        ∃ slot, Rkernel.btLookup memory .root K = some (some slot) ∧ lower = some slot ∧
          upper = some slot) := by
  have enough := numNodes_lt_pathBound tree.placed.nodup
  rcases tree.holds.btFloorLoop tree.ordered K none enough with ⟨lower, floored, lowerFinds⟩
  rcases tree.holds.btCeilingLoop tree.ordered K none enough with ⟨upper, ceiled, upperFinds⟩
  refine ⟨lower, upper, floored, ceiled, lowerFinds.returnsNearest, upperFinds.returnsNearest, ?_⟩
  rintro ⟨address, addressMem, rfl⟩
  rcases tree.exists_btLookup addressMem with ⟨slot, looked⟩
  have lowerEq := btFloorLoop_of_btLookupLoop none looked
  have upperEq := btCeilingLoop_of_btLookupLoop none looked
  rw [floored, Option.some.injEq] at lowerEq
  rw [ceiled, Option.some.injEq] at upperEq
  exact ⟨slot, looked, lowerEq, upperEq⟩

/-- A node with key 3 and a node with key 9 on its right. -/
def threeNine : TreeMemory Unit where
  link
    | .root => some ⟨20480, by decide⟩
    | .left _ => none
    | .right owner => if owner.val = 20480 then some ⟨24576, by decide⟩ else none
  K owner := if owner.val = 20480 then 3 else 9
  V _ := ()
  depth _ := 0

theorem searchTree_threeNine : SearchTree threeNine
    (node ⟨⟨20480, by decide⟩, 0⟩ nil (node ⟨⟨24576, by decide⟩, 0⟩ nil nil)) := by
  constructor
  · simp [Holds, threeNine]
  · simp [Ordered, keyIn, threeNine]

theorem SearchTree.btFloor_btCeiling_between :
    ∃ lower upper, btFloor threeNine .root 5 = some lower ∧
      btCeiling threeNine .root 5 = some upper ∧ lower ≠ none ∧ upper ≠ none := by
  rcases searchTree_threeNine.btFloor_btCeiling 5 with
    ⟨lower, upper, floored, ceiled, below, above, _⟩
  refine ⟨lower, upper, floored, ceiled, ?_, ?_⟩
  · rw [ne_eq, below.null]
    simp [threeNine]
  · rw [ne_eq, above.null]
    simp [threeNine]

end Shape

end Rkernel
