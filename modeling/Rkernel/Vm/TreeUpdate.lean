import Mathlib.Order.Interval.Finset.Nat
import Rkernel.Vm.TreePath

/-!
# The updates of the tree

What `bt_insert`, `bt_put`, `bt_put_ip` and `bt_remove` do to a search tree, as one
expression on the tree they find: a new subtree at the end of the search path, and
the rebalancing along the way. Every operation terminates, because the addresses of
the nodes bound the length of a path.
-/

namespace Rkernel

namespace Shape

open BinaryTree

variable {Value : Type} {memory next : TreeMemory Value} {slot : Slot} {shape : Shape}

/-- There are fewer nodes than addresses. -/
theorem numNodes_lt_pathBound (nodup : (addrs shape).Nodup) : shape.numNodes < pathBound := by
  have injective : Function.Injective fun node : NodePtr => node.val.toNat := by
    intro first second same
    exact Subtype.ext (BitVec.eq_of_toNat_eq same)
  have subset :
      ((addrs shape).map fun node => node.val.toNat).toFinset ⊆ Finset.Ico 1 pathBound := by
    intro number numberMem
    simp only [List.mem_toFinset, List.mem_map] at numberMem
    rcases numberMem with ⟨node, _, rfl⟩
    have positive : node.val.toNat ≠ 0 := by
      intro zero
      exact node.property (BitVec.eq_of_toNat_eq zero)
    rw [Finset.mem_Ico]
    exact ⟨by omega, node.val.isLt⟩
  have count := Finset.card_le_card subset
  rw [List.toFinset_card_of_nodup (nodup.map injective), Nat.card_Ico, List.length_map] at count
  rw [← length_inorder, ← List.length_map TreeCell.addr]
  simp only [addrs, pathBound] at count ⊢
  omega

theorem reaches_way (memory : TreeMemory Value) (K : BitVec 32) (shape : Shape) :
    shape.Reaches (way memory K shape) :=
  reaches_route shape

theorem mem_addrs_subtree {path : List Side} {address : NodePtr}
    (addressMem : address ∈ addrs (shape.subtree path)) : address ∈ addrs shape := by
  fun_induction shape.subtree path with
  | case1 shape => exact addressMem
  | case2 => exact addressMem
  | case3 cell left right path ih => simp [ih addressMem]
  | case4 cell left right path ih => simp [ih addressMem]

theorem slotAt_owner (slot : Slot) (shape : Shape) (path : List Side) :
    slotAt slot shape path = slot ∨
      ∃ node ∈ addrs shape, (slotAt slot shape path).owner = some node := by
  fun_induction slotAt slot shape path with
  | case1 slot shape => exact Or.inl rfl
  | case2 => exact Or.inl rfl
  | case3 slot cell left right path ih =>
      right
      rcases ih with same | ⟨node, nodeMem, owns⟩
      · exact ⟨cell.addr, by simp, by rw [same]; rfl⟩
      · exact ⟨node, by simp [nodeMem], owns⟩
  | case4 slot cell left right path ih =>
      right
      rcases ih with same | ⟨node, nodeMem, owns⟩
      · exact ⟨cell.addr, by simp, by rw [same]; rfl⟩
      · exact ⟨node, by simp [nodeMem], owns⟩

/-- An operation at the end of a path replaces the subtree there. -/
theorem At.graft {part : Shape} {path : List Side} {nodes : List NodePtr}
    (placed : At memory slot shape) (reaches : shape.Reaches path)
    (frame : memory.Frame next (slotAt slot shape path) nodes)
    (holds : Holds next part (next.link (slotAt slot shape path)))
    (below : ∀ node ∈ nodes, node ∈ addrs shape → node ∈ addrs (shape.subtree path))
    (notSlot : ∀ node ∈ nodes, slot.owner ≠ some node) :
    Holds next (shape.graft path part) (next.link slot) := by
  induction path generalizing shape slot with
  | nil => simpa [slotAt] using holds
  | cons side path ih =>
      cases shape with
      | nil => exact reaches.elim
      | node cell left right =>
          have nodup := placed.nodup
          have notOwner := placed.notOwner
          simp only [addrs_node, List.nodup_append, List.nodup_cons, List.mem_append,
            List.mem_cons] at nodup notOwner below
          cases side with
          | left =>
              have onlyLeft : ∀ node ∈ nodes, node ∈ addrs left ∨ node = cell.addr ∨
                  node ∈ addrs right → node ∈ addrs left :=
                fun node nodeMem inShape => mem_addrs_subtree (below node nodeMem inShape)
              have notCell : cell.addr ∉ nodes := by grind
              have widened : memory.Frame next (.left cell.addr) (nodes ++ addrs left) := by
                apply frame.mono (by simp; grind)
                rcases slotAt_owner (.left cell.addr) left path with same | ⟨node, inLeft, owns⟩
                · exact Or.inl same
                · exact Or.inr ⟨node, by simp [inLeft], owns⟩
              apply placed.replace_left widened (ih placed.left reaches frame holds ?_ ?_)
              · grind
              · grind
              · grind
              · exact fun node nodeMem inLeft => below node nodeMem (Or.inl inLeft)
              · simp only [Slot.owner]
                grind
          | right =>
              have onlyRight : ∀ node ∈ nodes, node ∈ addrs left ∨ node = cell.addr ∨
                  node ∈ addrs right → node ∈ addrs right :=
                fun node nodeMem inShape => mem_addrs_subtree (below node nodeMem inShape)
              have notCell : cell.addr ∉ nodes := by grind
              have widened : memory.Frame next (.right cell.addr) (nodes ++ addrs right) := by
                apply frame.mono (by simp; grind)
                rcases slotAt_owner (.right cell.addr) right path with same | ⟨node, inRight, owns⟩
                · exact Or.inl same
                · exact Or.inr ⟨node, by simp [inRight], owns⟩
              apply placed.replace_right widened (ih placed.right reaches frame holds ?_ ?_)
              · grind
              · grind
              · grind
              · exact fun node nodeMem inRight => below node nodeMem (Or.inr (Or.inr inRight))
              · simp only [Slot.owner]
                grind

/-- The memory holds a search tree below the root pointer. -/
structure SearchTree (memory : TreeMemory Value) (shape : Shape) : Prop where
  holds : Holds memory shape (memory.link .root)
  ordered : shape.Ordered (keyIn memory)

theorem nodup_addrs_of_pairwise {cells : List TreeCell}
    (ordered : cells.Pairwise fun left right => keyIn memory left < keyIn memory right) :
    (cells.map TreeCell.addr).Nodup := by
  rw [List.nodup_iff_pairwise_ne, List.pairwise_map]
  apply ordered.imp
  intro left right less same
  rw [keyIn, keyIn, same] at less
  exact lt_irrefl _ less

theorem SearchTree.placed (tree : SearchTree memory shape) : At memory .root shape :=
  ⟨tree.holds, nodup_addrs_of_pairwise tree.ordered, by simp [Slot.owner]⟩

theorem slotsBelow_graft {path : List Side} (reaches : shape.Reaches path) (part : Shape) :
    slotsBelow (shape.graft path part) path = slotsBelow shape path := by
  induction path generalizing shape with
  | nil => cases shape <;> cases part <;> rfl
  | cons side path ih =>
      cases shape with
      | nil => exact reaches.elim
      | node cell left right =>
          cases side with
          | left => simp [slotsBelow, BinaryTree.graft, ih (show left.Reaches path from reaches)]
          | right => simp [slotsBelow, BinaryTree.graft, ih (show right.Reaches path from reaches)]

theorem reaches_graft {path : List Side} (reaches : shape.Reaches path) (part : Shape) :
    (shape.graft path part).Reaches path := by
  induction path generalizing shape with
  | nil => cases shape <;> cases part <;> trivial
  | cons side path ih =>
      cases shape with
      | nil => exact reaches.elim
      | node cell left right =>
          cases side with
          | left => exact ih (show left.Reaches path from reaches)
          | right => exact ih (show right.Reaches path from reaches)

/-- The slots that an update from the root records. -/
def recorded (shape : Shape) (path : List Side) : List Slot :=
  (.root :: slotsBelow shape path).reverse.take 64

/-- The node that is to be inserted is cleared, and the search for its key starts. -/
theorem SearchTree.descend (tree : SearchTree memory shape) {it : NodePtr}
    (fresh : it ∉ addrs shape) :
    ∃ cleared buffer, cleared = (memory.store (.right it) none).store (.left it) none ∧
      SearchTree cleared shape ∧
      btDescend cleared (memory.K it) pathBound .root (PathBuffer.start .root) =
        some (slotAt .root shape (way memory (memory.K it) shape), buffer) ∧
      buffer.Records (recorded shape (way memory (memory.K it) shape)) ∧
      Holds cleared (shape.subtree (way memory (memory.K it) shape))
        (cleared.link (slotAt .root shape (way memory (memory.K it) shape))) := by
  have frame : memory.Frame ((memory.store (.right it) none).store (.left it) none) .root [it] := by
    refine ⟨?_, fun _ _ => rfl, rfl, rfl⟩
    intro other _ outside
    have notFields := ne_of_notOwner (outside it (by simp))
    rw [TreeMemory.store_link_of_ne _ _ _ _ notFields.1,
      TreeMemory.store_link_of_ne _ _ _ _ notFields.2]
  have holds : Holds ((memory.store (.right it) none).store (.left it) none) shape
      (((memory.store (.right it) none).store (.left it) none).link .root) := by
    rw [TreeMemory.store_link_of_ne _ _ _ _ (by simp),
      TreeMemory.store_link_of_ne _ _ _ _ (by simp)]
    apply tree.holds.frame frame
    intro node nodeMem
    refine ⟨?_, by simp [Slot.owner]⟩
    simp only [List.mem_singleton]
    rintro rfl
    exact fresh nodeMem
  have descended := holds.btDescend (memory.K it) (PathBuffer.start .root)
    (numNodes_lt_pathBound tree.placed.nodup)
  refine ⟨_, _, rfl, ⟨holds, tree.ordered⟩, descended, ?_,
    holds.subtree (reaches_way memory _ shape)⟩
  have records := (PathBuffer.records_start .root).pushAll
    (slotsBelow shape (way memory (memory.K it) shape))
  rwa [← List.reverse_cons] at records

/-- The way back to the root. -/
theorem At.backtrack {other : Shape} {path : List Side} {buffer : PathBuffer}
    (placed : At memory .root other) (reaches : other.Reaches path)
    (records : buffer.Records (recorded other path)) :
    ∃ next, btBacktrack Rkernel.btBalance bufferBound memory buffer = some next ∧
      Holds next (Shape.rebalance other path) (next.link .root) ∧ next.K = memory.K ∧
      next.V = memory.V := by
  rcases placed.rebalance reaches with ⟨next, folded, holds, frame⟩
  refine ⟨next, ?_, holds, frame.sameK, frame.sameV⟩
  have enough : (recorded other path).length < bufferBound := Nat.lt_succ_of_le records.short
  rw [records.btBacktrack _ _ enough]
  exact folded

section Replace

variable (tree : SearchTree memory shape) (K : BitVec 32) {part : Shape}

include tree

theorem SearchTree.nodup_graft (nodup : (addrs part).Nodup)
    (inside : ∀ node ∈ addrs part,
      node ∈ addrs (shape.subtree (way memory K shape)) ∨ node ∉ addrs shape) :
    (addrs (shape.graft (way memory K shape) part)).Nodup := by
  have nodupShape := tree.placed.nodup
  rcases tree.ordered.split K.toNat with ⟨before, after, _, _, isShape, isGraft⟩
  simp only [addrs, way, isShape, isGraft, List.map_append, List.nodup_append, List.mem_append]
    at nodup nodupShape inside ⊢
  grind

/-- A new subtree at the end of the search, and the way back from there. -/
theorem SearchTree.replace {middle : TreeMemory Value} {buffer : PathBuffer} {nodes : List NodePtr}
    (frame : memory.Frame middle (slotAt .root shape (way memory K shape)) nodes)
    (holds : Holds middle part (middle.link (slotAt .root shape (way memory K shape))))
    (below : ∀ node ∈ nodes, node ∈ addrs shape →
      node ∈ addrs (shape.subtree (way memory K shape)))
    (nodup : (addrs part).Nodup)
    (inside : ∀ node ∈ addrs part,
      node ∈ addrs (shape.subtree (way memory K shape)) ∨ node ∉ addrs shape)
    (records : buffer.Records (recorded shape (way memory K shape))) :
    ∃ next, btBacktrack Rkernel.btBalance bufferBound middle buffer = some next ∧
      Holds next (rebalance (shape.graft (way memory K shape) part) (way memory K shape))
        (next.link .root) ∧
      next.K = memory.K ∧ next.V = memory.V := by
  have reaches := reaches_way memory K shape
  have grafted := tree.placed.graft reaches frame holds below (by simp [Slot.owner])
  have placed : At middle .root (shape.graft (way memory K shape) part) :=
    ⟨grafted, tree.nodup_graft K nodup inside, by simp [Slot.owner]⟩
  rw [recorded, ← slotsBelow_graft reaches part] at records
  rcases placed.backtrack (reaches_graft reaches part) records with
    ⟨next, walked, holdsNext, sameK, sameV⟩
  exact ⟨next, walked, holdsNext, sameK.trans frame.sameK, sameV.trans frame.sameV⟩

end Replace

/-- The tree behind the insertion of a new node. -/
def inserted (memory : TreeMemory Value) (it : NodePtr) (shape : Shape) : Shape :=
  rebalance
    (shape.graft (way memory (memory.K it) shape) (node ⟨it, memory.depth it⟩ nil nil))
    (way memory (memory.K it) shape)

/-- The tree behind the replacement of a node by another one. -/
def replaced (memory : TreeMemory Value) (it : NodePtr) (cell : TreeCell) (left right : Shape)
    (shape : Shape) : Shape :=
  rebalance
    (shape.graft (way memory (memory.K it) shape) (node ⟨it, cell.depth⟩ left right))
    (way memory (memory.K it) shape)

section Operations

variable {it : NodePtr}

/-- No node has the key of the node that is to be inserted. -/
def Absent (memory : TreeMemory Value) (K : BitVec 32) (shape : Shape) : Prop :=
  shape.subtree (way memory K shape) = nil

theorem slotAt_ne_field {path : List Side} (fresh : it ∉ addrs shape) :
    slotAt .root shape path ≠ .left it ∧ slotAt .root shape path ≠ .right it := by
  apply ne_of_notOwner
  rcases slotAt_owner .root shape path with same | ⟨node, inShape, owns⟩
  · simp [same, Slot.owner]
  · rw [owns, ne_eq, Option.some.injEq]
    rintro rfl
    exact fresh inShape

theorem SearchTree.attach (tree : SearchTree memory shape) {buffer : PathBuffer}
    (fresh : it ∉ addrs shape)
    (noLeft : memory.link (.left it) = none) (noRight : memory.link (.right it) = none)
    (records : buffer.Records (recorded shape (way memory (memory.K it) shape))) :
    ∃ next, btBacktrack Rkernel.btBalance bufferBound
        (memory.store (slotAt .root shape (way memory (memory.K it) shape)) (some it)) buffer =
        some next ∧
      Holds next (inserted memory it shape) (next.link .root) ∧
      next.K = memory.K ∧ next.V = memory.V := by
  have notField := @slotAt_ne_field shape it (way memory (memory.K it) shape) fresh
  apply tree.replace (memory.K it) (TreeMemory.frame_store _ _ _ []) ?_ (by simp) (by simp)
    (by simp [fresh]) records
  refine ⟨TreeMemory.store_link .., rfl, ?_, ?_⟩
  · rw [TreeMemory.store_link_of_ne _ _ _ _ (Ne.symm notField.1)]
    exact noLeft
  · rw [TreeMemory.store_link_of_ne _ _ _ _ (Ne.symm notField.2)]
    exact noRight

theorem SearchTree.btInsert_absent (tree : SearchTree memory shape) (fresh : it ∉ addrs shape)
    (absent : Absent memory (memory.K it) shape) :
    ∃ next, btInsert memory .root it = some (next, none) ∧
      Holds next (inserted memory it shape) (next.link .root) ∧
      next.K = memory.K ∧ next.V = memory.V := by
  rcases tree.descend fresh with
    ⟨cleared, buffer, isCleared, treeCleared, descended, records, found⟩
  rw [show shape.subtree _ = nil from absent] at found
  have empty : cleared.link _ = none := found
  subst isCleared
  have attached := treeCleared.attach fresh (by simp)
    (by simp [TreeMemory.store_link_of_ne]) records
  rcases attached with ⟨next, walked, holds, sameK, sameV⟩
  refine ⟨next, ?_, holds, sameK, sameV⟩
  have walkedBack : btBacktrack btBalance bufferBound
      (((memory.store (.right it) none).store (.left it) none).store
        (slotAt .root shape (way memory (memory.K it) shape)) (some it)) buffer =
      some next := walked
  simp [btInsert, descended, empty, walkedBack]

theorem SearchTree.btInsert_present (tree : SearchTree memory shape) (fresh : it ∉ addrs shape)
    {cell : TreeCell} {left right : Shape}
    (present : shape.subtree (way memory (memory.K it) shape) = node cell left right) :
    ∃ next, btInsert memory .root it = some (next, some it) ∧
      Holds next shape (next.link .root) ∧ next.K = memory.K ∧ next.V = memory.V := by
  rcases tree.descend fresh with
    ⟨cleared, buffer, isCleared, treeCleared, descended, records, found⟩
  rw [present] at found
  subst isCleared
  refine ⟨_, ?_, treeCleared.holds, rfl, rfl⟩
  simp [btInsert, descended, found.1]

/-- The variants of the insertion do the same if no node has the key. -/
theorem SearchTree.btPut_eq_btInsert (tree : SearchTree memory shape) (fresh : it ∉ addrs shape)
    (absent : Absent memory (memory.K it) shape) :
    btPut memory .root it = btInsert memory .root it ∧
      btPutIp memory .root it = btInsert memory .root it := by
  rcases tree.descend fresh with
    ⟨cleared, buffer, isCleared, treeCleared, descended, records, found⟩
  rw [show shape.subtree _ = nil from absent] at found
  have empty : cleared.link _ = none := found
  subst isCleared
  constructor
  · simp [btPut, btInsert, descended, empty]
  · simp [btPutIp, btInsert, descended, empty]

theorem SearchTree.btPut_absent (tree : SearchTree memory shape) (fresh : it ∉ addrs shape)
    (absent : Absent memory (memory.K it) shape) :
    ∃ next, btPut memory .root it = some (next, none) ∧
      Holds next (inserted memory it shape) (next.link .root) ∧
      next.K = memory.K ∧ next.V = memory.V := by
  rw [(tree.btPut_eq_btInsert fresh absent).1]
  exact tree.btInsert_absent fresh absent

theorem SearchTree.btPutIp_absent (tree : SearchTree memory shape) (fresh : it ∉ addrs shape)
    (absent : Absent memory (memory.K it) shape) :
    ∃ next, btPutIp memory .root it = some (next, none) ∧
      Holds next (inserted memory it shape) (next.link .root) ∧
      next.K = memory.K ∧ next.V = memory.V := by
  rw [(tree.btPut_eq_btInsert fresh absent).2]
  exact tree.btInsert_absent fresh absent

theorem At.subtree {path : List Side} (placed : At memory slot shape)
    (reaches : shape.Reaches path) : At memory (slotAt slot shape path) (shape.subtree path) := by
  induction path generalizing shape slot with
  | nil => simpa [slotAt] using placed
  | cons side path ih =>
      cases shape with
      | nil => exact reaches.elim
      | node cell left right =>
          cases side with
          | left => exact ih placed.left reaches
          | right => exact ih placed.right reaches

/-- The new node takes over the fields and the slot of the old one. -/
def exchange (memory : TreeMemory Value) (slot : Slot) (it old : NodePtr) : TreeMemory Value :=
  let memory := memory.store (.left it) (memory.link (.left old))
  let memory := memory.store (.right it) (memory.link (.right old))
  let memory := memory.storeDepth it (memory.depth old)
  memory.store slot (some it)

theorem At.exchange {cell : TreeCell} {left right : Shape}
    (placed : At memory slot (node cell left right))
    (fresh : it ∉ addrs (node cell left right)) (notLeft : slot ≠ .left it)
    (notRight : slot ≠ .right it) :
    memory.Frame (exchange memory slot it cell.addr) slot [it] ∧
      Holds (exchange memory slot it cell.addr) (node ⟨it, cell.depth⟩ left right)
        ((exchange memory slot it cell.addr).link slot) := by
  have frame : memory.Frame (Shape.exchange memory slot it cell.addr) slot [it] := by
    refine ⟨?_, ?_, rfl, rfl⟩
    · intro other different outside
      have notFields := ne_of_notOwner (outside it (by simp))
      simp [Shape.exchange, TreeMemory.store_link_of_ne, different, notFields.1, notFields.2]
    · intro other outside
      exact TreeMemory.storeDepth_depth_of_ne _ _ _ (by simpa using outside)
  have apart : ∀ address ∈ addrs (node cell left right), address ∉ [it] ∧
      slot.owner ≠ some address := by
    intro address addressMem
    refine ⟨?_, placed.notOwner address addressMem⟩
    simp only [List.mem_singleton]
    rintro rfl
    exact fresh addressMem
  rcases placed.holds with ⟨_, isDepth, holdsLeft, holdsRight⟩
  have keptLeft := holdsLeft.frame frame fun address inLeft => apart address (by simp [inLeft])
  have keptRight := holdsRight.frame frame fun address inRight => apart address (by simp [inRight])
  refine ⟨frame, TreeMemory.store_link .., ?_, ?_, ?_⟩
  · simpa [Shape.exchange] using isDepth
  · simpa [Shape.exchange, TreeMemory.store_link_of_ne, Ne.symm notLeft] using keptLeft
  · simpa [Shape.exchange, TreeMemory.store_link_of_ne, Ne.symm notRight] using keptRight

theorem SearchTree.exchange (tree : SearchTree memory shape) {buffer : PathBuffer}
    (fresh : it ∉ addrs shape) {cell : TreeCell} {left right : Shape}
    (present : shape.subtree (way memory (memory.K it) shape) = node cell left right)
    (records : buffer.Records (recorded shape (way memory (memory.K it) shape))) :
    ∃ next, btBacktrack Rkernel.btBalance bufferBound
        (exchange memory (slotAt .root shape (way memory (memory.K it) shape)) it cell.addr)
        buffer = some next ∧
      Holds next (replaced memory it cell left right shape) (next.link .root) ∧
      next.K = memory.K ∧ next.V = memory.V := by
  have placed := tree.placed.subtree (reaches_way memory (memory.K it) shape)
  have inShape := fun address => @mem_addrs_subtree shape (way memory (memory.K it) shape) address
  rw [present] at placed inShape
  have freshThere : it ∉ addrs (node cell left right) := fun itMem => fresh (inShape it itMem)
  have notField := @slotAt_ne_field shape it (way memory (memory.K it) shape) fresh
  rcases placed.exchange freshThere notField.1 notField.2 with ⟨frame, holds⟩
  have nodup := placed.nodup
  simp only [addrs_node, List.nodup_append, List.nodup_cons, List.mem_append, List.mem_cons]
    at nodup freshThere inShape
  refine tree.replace (memory.K it) frame holds (by simp [fresh]) ?_ ?_ records
  · simp only [addrs_node, List.nodup_append, List.nodup_cons, List.mem_cons]
    grind
  · rw [present]
    simp only [addrs_node, List.mem_append, List.mem_cons]
    grind

theorem SearchTree.btPut_present (tree : SearchTree memory shape) (fresh : it ∉ addrs shape)
    {cell : TreeCell} {left right : Shape}
    (present : shape.subtree (way memory (memory.K it) shape) = node cell left right) :
    ∃ next, btPut memory .root it = some (next, some cell.addr) ∧
      Holds next (replaced memory it cell left right shape) (next.link .root) ∧
      next.K = memory.K ∧ next.V = memory.V := by
  rcases tree.descend fresh with
    ⟨cleared, buffer, isCleared, treeCleared, descended, records, found⟩
  rw [present] at found
  subst isCleared
  rcases treeCleared.exchange fresh present records with ⟨next, walked, holds, sameK, sameV⟩
  refine ⟨next, ?_, holds, sameK, sameV⟩
  have walkedBack : btBacktrack btBalance bufferBound
      (Shape.exchange ((memory.store (.right it) none).store (.left it) none)
        (slotAt .root shape (way memory (memory.K it) shape)) it cell.addr) buffer =
      some next := walked
  simp only [Shape.exchange] at walkedBack
  simp only [btPut, descended, Option.bind_eq_bind, Option.bind_some, found.1, walkedBack]
  rfl

theorem SearchTree.btPutIp_present (tree : SearchTree memory shape) (fresh : it ∉ addrs shape)
    {cell : TreeCell} {left right : Shape}
    (present : shape.subtree (way memory (memory.K it) shape) = node cell left right) :
    ∃ next, btPutIp memory .root it = some (next, some it) ∧
      Holds next (rebalance shape (way memory (memory.K it) shape)) (next.link .root) ∧
      next.K = memory.K ∧ next.V = Function.update memory.V cell.addr (memory.V it) := by
  rcases tree.descend fresh with
    ⟨cleared, buffer, isCleared, treeCleared, descended, records, found⟩
  rw [present] at found
  subst isCleared
  have placed : At (((memory.store (.right it) none).store (.left it) none).storeV cell.addr
      (memory.V it)) .root shape :=
    ⟨treeCleared.holds.congr fun _ _ => ⟨rfl, rfl, rfl⟩, tree.placed.nodup, tree.placed.notOwner⟩
  rcases placed.backtrack (reaches_way memory _ shape) records with
    ⟨next, walked, holds, sameK, sameV⟩
  refine ⟨next, ?_, holds, sameK, sameV⟩
  have walkedBack : btBacktrack btBalance bufferBound
      (((memory.store (.right it) none).store (.left it) none).storeV cell.addr
        (TreeMemory.V ((memory.store (.right it) none).store (.left it) none) it)) buffer =
      some next := walked
  simp [btPutIp, descended, found.1, walkedBack]

theorem SearchTree.btLookup (tree : SearchTree memory shape) (K : BitVec 32) :
    btLookup memory .root K =
      some ((root (shape.subtree (way memory K shape))).map
        fun _ => slotAt .root shape (way memory K shape)) :=
  tree.holds.btLookupLoop K (numNodes_lt_pathBound tree.placed.nodup)

theorem btBalance_of_isSome (memory : TreeMemory Value) (slot : Slot) :
    (if (memory.link slot).isSome then btBalance memory slot else some memory) =
      btBalance memory slot := by
  cases isNull : memory.link slot with
  | none => simp [btBalance, isNull]
  | some node => simp

/-- The victim is rotated down, unlinked, and its way is rebalanced; the ancestors stay. -/
theorem SearchTree.btRemove (tree : SearchTree memory shape) (K : BitVec 32) (it : Option NodePtr)
    {cell : TreeCell} {left right : Shape}
    (present : shape.subtree (way memory K shape) = node cell left right) :
    ∃ next, btRemove memory (slotAt .root shape (way memory K shape)) it =
        some (next, some cell.addr) ∧
      Holds next (shape.graft (way memory K shape) (removed left right)) (next.link .root) ∧
      next.K = memory.K ∧ next.V = memory.V := by
  have placed := tree.placed.subtree (reaches_way memory K shape)
  have inShape := fun address => @mem_addrs_subtree shape (way memory K shape) address
  rw [present] at placed inShape
  have enough : left.numNodes + right.numNodes < pathBound := by
    have bound := numNodes_lt_pathBound placed.nodup
    rw [numNodes] at bound
    omega
  rcases placed.btSink (PathBuffer.start (slotAt .root shape (way memory K shape))) it enough with
    ⟨middle, sunk, holds, frame⟩
  have isPart : ∀ address ∈ addrs (sink left right), address ∈ addrs (node cell left right) := by
    simp
    grind
  have placedThere : At middle (slotAt .root shape (way memory K shape)) (sink left right) := by
    refine ⟨holds, ?_,
      fun address addressMem => placed.notOwner address (isPart address addressMem)⟩
    have nodup := placed.nodup
    simp only [addrs_node, addrs_sink, List.nodup_append, List.nodup_cons, List.mem_cons]
      at nodup ⊢
    grind
  rcases placedThere.rebalance (reaches_sinkPath left right) with
    ⟨next, folded, holdsNext, frameNext⟩
  have records := (PathBuffer.records_start (slotAt .root shape (way memory K shape))).pushAll
    (slotsBelow (sink left right) (sinkPath left right))
  rw [← List.reverse_cons] at records
  have whole := frame.trans (frameNext.mono isPart (Or.inl rfl))
  refine ⟨next, ?_, ?_, whole.sameK, whole.sameV⟩
  · have walked := records.btBacktrack btBalance middle (Nat.lt_succ_of_le records.short)
    rw [folded] at walked
    simp only [Rkernel.btRemove, sunk, Option.bind_eq_bind, Option.bind_some, btBalance_of_isSome]
    rw [show bufferBound = Nat.succ 64 from rfl, walked]
    rfl
  · apply tree.placed.graft (reaches_way memory K shape) whole holdsNext ?_ (by simp [Slot.owner])
    intro address addressMem _
    rwa [present]

end Operations

end Shape

end Rkernel
