import Rkernel.Lib.SearchTree
import Rkernel.Vm.Tree

/-!
# The tree in memory

The links of a search tree in memory describe a binary tree of cells, each the
address of a node with its `depth` field. On such trees the functions of `vm/tree.c`
have a functional counterpart: rotations, the rebalancing along a path, and the
descent of the node that is removed. This file relates the two: an operation on the
memory succeeds and leaves the tree that its counterpart computes, and it changes only
the slot it was called with and the nodes below it.

The path buffer keeps the last 64 slots of a path, so the rebalancing stops 64 levels
above its end.
-/

namespace Rkernel

/-- A node of a tree with its `depth` field. -/
structure TreeCell where
  addr : NodePtr
  depth : BitVec 32

abbrev Shape := BinaryTree TreeCell

namespace Shape

open BinaryTree

def addrs (shape : Shape) : List NodePtr :=
  shape.inorder.map TreeCell.addr

/-- `bt_depth` of the root. -/
def cached : Shape → BitVec 32
  | nil => 0
  | node cell _ _ => cell.depth

/-- A node with two subtrees behind `bt_calcdepth`. -/
def join (addr : NodePtr) (left right : Shape) : Shape :=
  node ⟨addr, btMax (cached left) (cached right) + 1⟩ left right

def rotleft : Shape → Shape
  | node h left (node x middle right) => join x.addr (join h.addr left middle) right
  | shape => shape

def rotright : Shape → Shape
  | node h (node x left middle) right => join x.addr left (join h.addr middle right)
  | shape => shape

def balance : Shape → Shape
  | nil => nil
  | node h left right =>
      if cached right < cached left ∧ 1 < cached left - cached right then
        rotright (node h left right)
      else if cached left < cached right ∧ 1 < cached right - cached left then
        rotleft (node h left right)
      else join h.addr left right

/-- The rebalancing of the last 64 slots of a path, from below. -/
def rebalance : Shape → List Side → Shape
  | shape, [] => balance shape
  | nil, _ :: _ => nil
  | node cell left right, .left :: path =>
      let shape := node cell (rebalance left path) right
      if path.length + 1 < 64 then balance shape else shape
  | node cell left right, .right :: path =>
      let shape := node cell left (rebalance right path)
      if path.length + 1 < 64 then balance shape else shape

/-- What is left of a node with these subtrees after it has been rotated down and unlinked. -/
def sink : Shape → Shape → Shape
  | nil, right => right
  | left, nil => left
  | node l leftOuter leftInner, node r rightInner rightOuter =>
      if l.depth ≤ r.depth then
        node ⟨r.addr, btMax (btMax l.depth (cached rightInner) + 1) (cached rightOuter) + 1⟩
          (sink (node l leftOuter leftInner) rightInner) rightOuter
      else
        node ⟨l.addr, btMax (cached leftOuter) (btMax (cached leftInner) r.depth + 1) + 1⟩
          leftOuter (sink leftInner (node r rightInner rightOuter))
termination_by left right => left.numNodes + right.numNodes
decreasing_by all_goals simp only [numNodes]; omega

/-- The way the node takes down. -/
def sinkPath : Shape → Shape → List Side
  | nil, _ => []
  | _, nil => []
  | node l leftOuter leftInner, node r rightInner rightOuter =>
      if l.depth ≤ r.depth then .left :: sinkPath (node l leftOuter leftInner) rightInner
      else .right :: sinkPath leftInner (node r rightInner rightOuter)
termination_by left right => left.numNodes + right.numNodes
decreasing_by all_goals simp only [numNodes]; omega

/-- The subtree that `bt_remove` leaves in the slot of a node with these subtrees. -/
def removed (left right : Shape) : Shape :=
  rebalance (sink left right) (sinkPath left right)

/-- The slot at the end of a path that begins in the given slot. -/
def slotAt (slot : Slot) : Shape → List Side → Slot
  | _, [] => slot
  | nil, _ :: _ => slot
  | node cell left _, .left :: path => slotAt (.left cell.addr) left path
  | node cell _ right, .right :: path => slotAt (.right cell.addr) right path

/-- The slots of a path behind the given one. -/
def slotsBelow : Shape → List Side → List Slot
  | _, [] => []
  | nil, _ :: _ => []
  | node cell left _, .left :: path => .left cell.addr :: slotsBelow left path
  | node cell _ right, .right :: path => .right cell.addr :: slotsBelow right path

section Addresses

@[simp]
theorem addrs_nil : addrs nil = [] :=
  rfl

@[simp]
theorem addrs_node (cell : TreeCell) (left right : Shape) :
    addrs (node cell left right) = addrs left ++ cell.addr :: addrs right := by
  simp [addrs]

@[simp]
theorem addrs_join (addr : NodePtr) (left right : Shape) :
    addrs (join addr left right) = addrs left ++ addr :: addrs right :=
  addrs_node ..

@[simp]
theorem addrs_rotleft (shape : Shape) : addrs (rotleft shape) = addrs shape := by
  fun_cases rotleft shape <;> simp

@[simp]
theorem addrs_rotright (shape : Shape) : addrs (rotright shape) = addrs shape := by
  fun_cases rotright shape <;> simp

@[simp]
theorem addrs_balance (shape : Shape) : addrs (balance shape) = addrs shape := by
  fun_cases balance shape <;> simp

@[simp]
theorem addrs_rebalance (shape : Shape) (path : List Side) :
    addrs (rebalance shape path) = addrs shape := by
  fun_induction rebalance shape path with
  | case1 shape => exact addrs_balance shape
  | case2 => rfl
  | case3 cell left right path shape short ih | case5 cell left right path shape short ih =>
      simp [shape, ih]
  | case4 cell left right path shape long ih | case6 cell left right path shape long ih =>
      simp [shape, ih]

@[simp]
theorem addrs_sink (left right : Shape) : addrs (sink left right) = addrs left ++ addrs right := by
  fun_induction sink left right with
  | case1 right => simp
  | case2 left nonempty => simp
  | case3 l leftOuter leftInner r rightInner rightOuter lower ih => simp [ih]
  | case4 l leftOuter leftInner r rightInner rightOuter higher ih => simp [ih]

end Addresses

/-- The links and depths below a pointer are those of the tree. -/
def Holds {Value : Type} (memory : TreeMemory Value) : Shape → Option NodePtr → Prop
  | nil, pointer => pointer = none
  | node cell left right, pointer =>
      pointer = some cell.addr ∧ memory.depth cell.addr = cell.depth ∧
        Holds memory left (memory.link (.left cell.addr)) ∧
        Holds memory right (memory.link (.right cell.addr))

end Shape

/-- The node a slot belongs to. -/
def Slot.owner : Slot → Option NodePtr
  | .root => none
  | .left node | .right node => some node

namespace TreeMemory

variable {Value : Type}

section Access

variable (memory : TreeMemory Value) (slot other : Slot) (pointer : Option NodePtr)
  (node : NodePtr) (depth : BitVec 32)

@[simp]
theorem store_link : (memory.store slot pointer).link slot = pointer :=
  Function.update_self ..

theorem store_link_of_ne (different : other ≠ slot) :
    (memory.store slot pointer).link other = memory.link other :=
  Function.update_of_ne different ..

@[simp]
theorem store_depth : (memory.store slot pointer).depth = memory.depth :=
  rfl

@[simp]
theorem storeDepth_link : (memory.storeDepth node depth).link = memory.link :=
  rfl

@[simp]
theorem storeDepth_depth : (memory.storeDepth node depth).depth node = depth :=
  Function.update_self ..

theorem storeDepth_depth_of_ne {other : NodePtr} (different : other ≠ node) :
    (memory.storeDepth node depth).depth other = memory.depth other :=
  Function.update_of_ne different ..

@[simp]
theorem btDepth_store (other : Option NodePtr) :
    btDepth (memory.store slot pointer) other = btDepth memory other := by
  cases other <;> rfl

theorem btDepth_storeDepth_of_ne (different : pointer ≠ some node) :
    btDepth (memory.storeDepth node depth) pointer = btDepth memory pointer := by
  cases pointer with
  | none => rfl
  | some other =>
      apply storeDepth_depth_of_ne
      rintro rfl
      exact different rfl

end Access

/-- What an operation on a slot leaves alone: everything but the slot and the given nodes. -/
structure Frame (memory next : TreeMemory Value) (slot : Slot) (nodes : List NodePtr) : Prop where
  link : ∀ other, other ≠ slot → (∀ node ∈ nodes, other.owner ≠ some node) →
    next.link other = memory.link other
  depth : ∀ node, node ∉ nodes → next.depth node = memory.depth node
  sameK : next.K = memory.K
  sameV : next.V = memory.V

variable {memory next last : TreeMemory Value} {slot : Slot} {nodes : List NodePtr}

theorem Frame.refl (memory : TreeMemory Value) (slot : Slot) (nodes : List NodePtr) :
    memory.Frame memory slot nodes :=
  ⟨fun _ _ _ => rfl, fun _ _ => rfl, rfl, rfl⟩

theorem Frame.trans (first : memory.Frame next slot nodes) (second : next.Frame last slot nodes) :
    memory.Frame last slot nodes := by
  refine ⟨?_, ?_, second.sameK.trans first.sameK, second.sameV.trans first.sameV⟩
  · intro other different outside
    exact (second.link other different outside).trans (first.link other different outside)
  · intro node outside
    exact (second.depth node outside).trans (first.depth node outside)

theorem frame_store (memory : TreeMemory Value) (slot : Slot) (pointer : Option NodePtr)
    (nodes : List NodePtr) : memory.Frame (memory.store slot pointer) slot nodes :=
  ⟨fun _ different _ => store_link_of_ne _ _ _ _ different, fun _ _ => rfl, rfl, rfl⟩

/-- A frame in a subtree is one in the tree around it. -/
theorem Frame.mono {inner : Slot} {innerNodes : List NodePtr}
    (frame : memory.Frame next inner innerNodes) (innerSubset : ∀ node ∈ innerNodes, node ∈ nodes)
    (isInner : inner = slot ∨ ∃ node ∈ nodes, inner.owner = some node) :
    memory.Frame next slot nodes := by
  refine ⟨?_, ?_, frame.sameK, frame.sameV⟩
  · intro other different outside
    apply frame.link other
    · rintro rfl
      rcases isInner with same | ⟨node, nodeMem, owns⟩
      · exact different same
      · exact outside node nodeMem owns
    · intro node nodeMem
      exact outside node (innerSubset node nodeMem)
  · intro node outside
    apply frame.depth
    intro nodeMem
    exact outside (innerSubset node nodeMem)

end TreeMemory

namespace Shape

open BinaryTree

variable {Value : Type} {memory next : TreeMemory Value} {slot : Slot}

theorem Holds.congr {shape : Shape} {pointer : Option NodePtr} (holds : Holds memory shape pointer)
    (same : ∀ node ∈ addrs shape, next.link (.left node) = memory.link (.left node) ∧
      next.link (.right node) = memory.link (.right node) ∧
      next.depth node = memory.depth node) : Holds next shape pointer := by
  induction shape generalizing pointer with
  | nil => exact holds
  | node cell left right ihLeft ihRight =>
      rcases holds with ⟨isRoot, isDepth, holdsLeft, holdsRight⟩
      rcases same cell.addr (by simp) with ⟨sameLeft, sameRight, sameDepth⟩
      refine ⟨isRoot, sameDepth.trans isDepth, ?_, ?_⟩
      · rw [sameLeft]
        apply ihLeft holdsLeft
        intro node nodeMem
        exact same node (by simp [nodeMem])
      · rw [sameRight]
        apply ihRight holdsRight
        intro node nodeMem
        exact same node (by simp [nodeMem])

/-- A tree that shares no node with the changes of an operation stays as it is. -/
theorem Holds.frame {shape : Shape} {pointer : Option NodePtr} {nodes : List NodePtr}
    (holds : Holds memory shape pointer) (frame : memory.Frame next slot nodes)
    (apart : ∀ node ∈ addrs shape, node ∉ nodes ∧ slot.owner ≠ some node) :
    Holds next shape pointer := by
  apply holds.congr
  intro node nodeMem
  rcases apart node nodeMem with ⟨outside, notOwner⟩
  refine ⟨frame.link _ ?_ ?_, frame.link _ ?_ ?_, frame.depth node outside⟩
  · rintro rfl
    exact notOwner rfl
  · rintro other otherMem same
    rw [Slot.owner, Option.some.injEq] at same
    exact outside (same ▸ otherMem)
  · rintro rfl
    exact notOwner rfl
  · rintro other otherMem same
    rw [Slot.owner, Option.some.injEq] at same
    exact outside (same ▸ otherMem)

theorem Holds.btDepth {shape : Shape} {pointer : Option NodePtr}
    (holds : Holds memory shape pointer) : btDepth memory pointer = cached shape := by
  cases shape with
  | nil =>
      rw [show pointer = none from holds]
      rfl
  | node cell left right =>
      rw [holds.1]
      exact holds.2.1

theorem Holds.ne_some {shape : Shape} {pointer : Option NodePtr} {node : NodePtr}
    (holds : Holds memory shape pointer) (outside : node ∉ addrs shape) : pointer ≠ some node := by
  cases shape with
  | nil =>
      rw [show pointer = none from holds]
      simp
  | node cell left right =>
      rw [holds.1, Ne, Option.some.injEq]
      rintro rfl
      simp at outside

/-- The tree below a slot, which is not the field of one of its nodes. -/
structure At (memory : TreeMemory Value) (slot : Slot) (shape : Shape) : Prop where
  holds : Holds memory shape (memory.link slot)
  nodup : (addrs shape).Nodup
  notOwner : ∀ node ∈ addrs shape, slot.owner ≠ some node

theorem ne_of_notOwner {node : NodePtr} (notOwner : slot.owner ≠ some node) :
    slot ≠ .left node ∧ slot ≠ .right node := by
  constructor
  · rintro rfl
    exact notOwner rfl
  · rintro rfl
    exact notOwner rfl

/-- The memory behind a rotation that brings `x` above `h`: the field `outer` of `h` takes over
what stood in the field `inner` of `x`. -/
structure Rotated (memory next : TreeMemory Value) (slot outer inner : Slot) (h x : NodePtr)
    (depthH depthX : BitVec 32) : Prop where
  link : next.link = Function.update
    (Function.update (Function.update memory.link outer (memory.link inner)) inner (some h))
    slot (some x)
  depth : next.depth = Function.update (Function.update memory.depth h depthH) x depthX
  sameK : next.K = memory.K
  sameV : next.V = memory.V

section Rotation

variable {outer inner : Slot} {h x : NodePtr} {depthH depthX : BitVec 32}

theorem Rotated.frame (rotated : Rotated memory next slot outer inner h x depthH depthX)
    (ofH : outer.owner = some h) (ofX : inner.owner = some x) :
    memory.Frame next slot [h, x] := by
  refine ⟨?_, ?_, rotated.sameK, rotated.sameV⟩
  · intro other notSlot outside
    have notOuter : other ≠ outer := by
      rintro rfl
      exact outside h (by simp) ofH
    have notInner : other ≠ inner := by
      rintro rfl
      exact outside x (by simp) ofX
    rw [rotated.link, Function.update_of_ne notSlot, Function.update_of_ne notInner,
      Function.update_of_ne notOuter]
  · intro node outside
    simp only [List.mem_cons, List.not_mem_nil, or_false, not_or] at outside
    rw [rotated.depth, Function.update_of_ne outside.2, Function.update_of_ne outside.1]

theorem btRotleft_rotated (isRoot : memory.link slot = some h)
    (isChild : memory.link (.right h) = some x) (different : h ≠ x)
    (noCycle : memory.link (.right x) ≠ some h) :
    ∃ next depthH, btRotleft memory slot = some next ∧
      depthH = btMax (btDepth memory (memory.link (.left h)))
        (btDepth memory (memory.link (.left x))) + 1 ∧
      Rotated memory next slot (.right h) (.left x) h x depthH
        (btMax depthH (btDepth memory (memory.link (.right x))) + 1) := by
  let stored := (memory.store (.right h) (memory.link (.left x))).store (.left x) (some h)
  refine ⟨(btCalcdepth (btCalcdepth stored (some h)) (some x)).store slot (some x), _, ?_, rfl, ?_⟩
  · simp [btRotleft, isRoot, isChild, stored]
  have linkedLeft : stored.link (.left h) = memory.link (.left h) := by
    rw [TreeMemory.store_link_of_ne _ _ _ _ (by simpa using different),
      TreeMemory.store_link_of_ne _ _ _ _ (by simp)]
  have linkedRight : stored.link (.right h) = memory.link (.left x) := by
    rw [TreeMemory.store_link_of_ne _ _ _ _ (by simp), TreeMemory.store_link]
  have linkedRightX : stored.link (.right x) = memory.link (.right x) := by
    rw [TreeMemory.store_link_of_ne _ _ _ _ (by simp),
      TreeMemory.store_link_of_ne _ _ _ _ (by simpa using Ne.symm different)]
  have linkedLeftX : stored.link (.left x) = some h := TreeMemory.store_link ..
  have sameDepth : ∀ pointer, btDepth stored pointer = btDepth memory pointer := by simp [stored]
  refine ⟨rfl, ?_, rfl, rfl⟩
  simp only [btCalcdepth, TreeMemory.storeDepth_link, linkedLeft, linkedRight, linkedLeftX,
    linkedRightX, TreeMemory.btDepth_storeDepth_of_ne _ _ _ _ noCycle, sameDepth]
  simp only [btDepth, TreeMemory.storeDepth_depth]
  rfl

theorem btRotright_rotated (isRoot : memory.link slot = some h)
    (isChild : memory.link (.left h) = some x) (different : h ≠ x)
    (noCycle : memory.link (.left x) ≠ some h) :
    ∃ next depthH, btRotright memory slot = some next ∧
      depthH = btMax (btDepth memory (memory.link (.right x)))
        (btDepth memory (memory.link (.right h))) + 1 ∧
      Rotated memory next slot (.left h) (.right x) h x depthH
        (btMax (btDepth memory (memory.link (.left x))) depthH + 1) := by
  let stored := (memory.store (.left h) (memory.link (.right x))).store (.right x) (some h)
  refine ⟨(btCalcdepth (btCalcdepth stored (some h)) (some x)).store slot (some x), _, ?_, rfl, ?_⟩
  · simp [btRotright, isRoot, isChild, stored]
  have linkedRight : stored.link (.right h) = memory.link (.right h) := by
    rw [TreeMemory.store_link_of_ne _ _ _ _ (by simpa using different),
      TreeMemory.store_link_of_ne _ _ _ _ (by simp)]
  have linkedLeft : stored.link (.left h) = memory.link (.right x) := by
    rw [TreeMemory.store_link_of_ne _ _ _ _ (by simp), TreeMemory.store_link]
  have linkedLeftX : stored.link (.left x) = memory.link (.left x) := by
    rw [TreeMemory.store_link_of_ne _ _ _ _ (by simp),
      TreeMemory.store_link_of_ne _ _ _ _ (by simpa using Ne.symm different)]
  have linkedRightX : stored.link (.right x) = some h := TreeMemory.store_link ..
  have sameDepth : ∀ pointer, btDepth stored pointer = btDepth memory pointer := by simp [stored]
  refine ⟨rfl, ?_, rfl, rfl⟩
  simp only [btCalcdepth, TreeMemory.storeDepth_link, linkedLeft, linkedRight, linkedRightX,
    linkedLeftX, TreeMemory.btDepth_storeDepth_of_ne _ _ _ _ noCycle, sameDepth]
  simp only [btDepth, TreeMemory.storeDepth_depth]
  rfl

end Rotation

/-- A subtree that a rotation moves as a whole. -/
theorem Rotated.kept {outer inner : Slot} {h x : NodePtr} {depthH depthX : BitVec 32}
    {shape : Shape} {pointer : Option NodePtr} (holds : Holds memory shape pointer)
    (rotated : Rotated memory next slot outer inner h x depthH depthX)
    (ofH : outer.owner = some h) (ofX : inner.owner = some x) (notH : h ∉ addrs shape)
    (notX : x ∉ addrs shape) (notOwner : ∀ node ∈ addrs shape, slot.owner ≠ some node) :
    Holds next shape pointer := by
  apply holds.frame (rotated.frame ofH ofX)
  intro node nodeMem
  refine ⟨?_, notOwner node nodeMem⟩
  simp only [List.mem_cons, List.not_mem_nil, or_false, not_or]
  constructor
  · rintro rfl
    exact notH nodeMem
  · rintro rfl
    exact notX nodeMem

theorem At.btRotleft {h x : TreeCell} {left middle right : Shape}
    (placed : At memory slot (node h left (node x middle right))) :
    ∃ next, btRotleft memory slot = some next ∧
      Holds next (rotleft (node h left (node x middle right))) (next.link slot) ∧
      memory.Frame next slot (addrs (node h left (node x middle right))) := by
  rcases placed with ⟨⟨isRoot, _, holdsLeft, isChild, _, holdsMiddle, holdsRight⟩, nodup, notOwner⟩
  rcases ne_of_notOwner (notOwner h.addr (by simp)) with ⟨notLeft, notRight⟩
  rcases ne_of_notOwner (notOwner x.addr (by simp)) with ⟨notLeftX, notRightX⟩
  simp only [addrs_node, List.nodup_append, List.nodup_cons, List.mem_append, List.mem_cons]
    at nodup notOwner
  have different : h.addr ≠ x.addr := by grind
  have notRightMem : h.addr ∉ addrs right := by grind
  rcases btRotleft_rotated isRoot isChild different (holdsRight.ne_some notRightMem) with
    ⟨next, depthH, computed, isDepthH, rotated⟩
  rw [holdsLeft.btDepth, holdsMiddle.btDepth] at isDepthH
  rw [holdsRight.btDepth] at rotated
  have keptLeft := rotated.kept holdsLeft rfl rfl (by grind) (by grind) (by grind)
  have keptMiddle := rotated.kept holdsMiddle rfl rfl (by grind) (by grind) (by grind)
  have keptRight := rotated.kept holdsRight rfl rfl (by grind) (by grind) (by grind)
  refine ⟨next, computed, ⟨?_, ?_, ⟨?_, ?_, ?_, ?_⟩, ?_⟩, ?_⟩
  · simp [rotated.link]
  · simp [rotated.depth, join, cached, isDepthH]
  · simp [rotated.link, Ne.symm notLeftX]
  · simp [rotated.depth, different, isDepthH]
  · simpa [rotated.link, Ne.symm notLeft, different] using keptLeft
  · simpa [rotated.link, Ne.symm notRight] using keptMiddle
  · simpa [rotated.link, Ne.symm notRightX, Ne.symm different] using keptRight
  · exact (rotated.frame rfl rfl).mono (by simp) (Or.inl rfl)

theorem At.btRotright {h x : TreeCell} {left middle right : Shape}
    (placed : At memory slot (node h (node x left middle) right)) :
    ∃ next, btRotright memory slot = some next ∧
      Holds next (rotright (node h (node x left middle) right)) (next.link slot) ∧
      memory.Frame next slot (addrs (node h (node x left middle) right)) := by
  rcases placed with
    ⟨⟨isRoot, _, ⟨isChild, _, holdsLeft, holdsMiddle⟩, holdsRight⟩, nodup, notOwner⟩
  rcases ne_of_notOwner (notOwner h.addr (by simp)) with ⟨notLeft, notRight⟩
  rcases ne_of_notOwner (notOwner x.addr (by simp)) with ⟨notLeftX, notRightX⟩
  simp only [addrs_node, List.nodup_append, List.nodup_cons, List.mem_append, List.mem_cons]
    at nodup notOwner
  have different : h.addr ≠ x.addr := by grind
  have notLeftMem : h.addr ∉ addrs left := by grind
  rcases btRotright_rotated isRoot isChild different (holdsLeft.ne_some notLeftMem) with
    ⟨next, depthH, computed, isDepthH, rotated⟩
  rw [holdsRight.btDepth, holdsMiddle.btDepth] at isDepthH
  rw [holdsLeft.btDepth] at rotated
  have keptLeft := rotated.kept holdsLeft rfl rfl (by grind) (by grind) (by grind)
  have keptMiddle := rotated.kept holdsMiddle rfl rfl (by grind) (by grind) (by grind)
  have keptRight := rotated.kept holdsRight rfl rfl (by grind) (by grind) (by grind)
  refine ⟨next, computed, ⟨?_, ?_, ?_, ⟨?_, ?_, ?_, ?_⟩⟩, ?_⟩
  · simp [rotated.link]
  · simp [rotated.depth, join, cached, isDepthH]
  · simpa [rotated.link, Ne.symm notLeftX, Ne.symm different] using keptLeft
  · simp [rotated.link, Ne.symm notRightX]
  · simp [rotated.depth, different, isDepthH]
  · simpa [rotated.link, Ne.symm notLeft] using keptMiddle
  · simpa [rotated.link, Ne.symm notRight, different] using keptRight
  · exact (rotated.frame rfl rfl).mono (by simp) (Or.inl rfl)

theorem ne_nil_of_cached_lt {shape other : Shape} (higher : cached other < cached shape) :
    shape ≠ nil := by
  rintro rfl
  simp [cached] at higher

theorem At.btBalance {shape : Shape} (placed : At memory slot shape) :
    ∃ next, btBalance memory slot = some next ∧ Holds next (balance shape) (next.link slot) ∧
      memory.Frame next slot (addrs shape) := by
  cases shape with
  | nil =>
      have isNull : memory.link slot = none := placed.holds
      refine ⟨memory, ?_, placed.holds, TreeMemory.Frame.refl ..⟩
      simp [Rkernel.btBalance, isNull]
  | node h left right =>
      rcases placed.holds with ⟨isRoot, isDepth, holdsLeft, holdsRight⟩
      simp only [Rkernel.btBalance, isRoot, holdsLeft.btDepth, holdsRight.btDepth, balance]
      split
      · rename_i leftHigher
        cases left with
        | nil => exact absurd rfl (ne_nil_of_cached_lt leftHigher.1)
        | node x outer inner => exact placed.btRotright
      · split
        · rename_i rightHigher
          cases right with
          | nil => exact absurd rfl (ne_nil_of_cached_lt rightHigher.1)
          | node x inner outer => exact placed.btRotleft
        · have nodup := placed.nodup
          simp only [addrs_node, List.nodup_append, List.nodup_cons, List.mem_cons] at nodup
          have frame : memory.Frame (btCalcdepth memory (some h.addr)) slot [h.addr] := by
            refine ⟨fun _ _ _ => rfl, ?_, rfl, rfl⟩
            intro node outside
            apply TreeMemory.storeDepth_depth_of_ne
            simpa using outside
          refine ⟨_, rfl, ⟨isRoot, ?_, ?_, ?_⟩, frame.mono (by simp) (Or.inl rfl)⟩
          · simp [btCalcdepth, holdsLeft.btDepth, holdsRight.btDepth]
          · apply holdsLeft.frame frame
            intro node nodeMem
            refine ⟨?_, placed.notOwner node (by simp [nodeMem])⟩
            simpa using nodup.2.2 node nodeMem h.addr (Or.inl rfl)
          · apply holdsRight.frame frame
            intro node nodeMem
            refine ⟨?_, placed.notOwner node (by simp [nodeMem])⟩
            simp only [List.mem_singleton]
            rintro rfl
            exact nodup.2.1.1 nodeMem

end Shape

end Rkernel
