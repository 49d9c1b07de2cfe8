import Rkernel.Vm.TreeUpdate

/-!
# The tree as a map

What a tree is for: a map from keys to nodes. This file states the map, what each
operation does to it and hands back to the caller, and shows that every sequence of
operations on the tree in memory does just that. The shape of the tree plays no role
in it; in particular it does not matter whether the tree is balanced, or whether a
path is longer than the path buffer.
-/

namespace Rkernel

variable {Value : Type}

/-- The node and the value of each key. -/
abbrev Contents (Value : Type) := BitVec 32 → Option (NodePtr × Value)

/-- The calls of a user of the tree, who sets the key and the value of a node before he passes it,
and removes a node through the slot that `bt_lookup` returns. -/
inductive TreeOp (Value : Type) where
  | insert (it : NodePtr) (K : BitVec 32) (V : Value)
  | put (it : NodePtr) (K : BitVec 32) (V : Value)
  | putIp (it : NodePtr) (K : BitVec 32) (V : Value)
  | remove (K : BitVec 32)

def TreeMemory.prepare (memory : TreeMemory Value) (it : NodePtr) (K : BitVec 32) (V : Value) :
    TreeMemory Value :=
  { memory with K := Function.update memory.K it K, V := Function.update memory.V it V }

namespace TreeOp

/-- The operation on the memory, with what stands in `*it` afterwards. -/
def run (memory : TreeMemory Value) : TreeOp Value → Option (TreeMemory Value × Option NodePtr)
  | insert it K V => btInsert (memory.prepare it K V) .root it
  | put it K V => btPut (memory.prepare it K V) .root it
  | putIp it K V => btPutIp (memory.prepare it K V) .root it
  | remove K =>
      match btLookup memory .root K with
      | none => none
      | some none => some (memory, none)
      | some (some slot) => btRemove memory slot none

/-- The operation on the map, with the node that is handed back. -/
def apply (contents : Contents Value) : TreeOp Value → Contents Value × Option NodePtr
  | insert it K V =>
      match contents K with
      | none => (Function.update contents K (some (it, V)), none)
      | some _ => (contents, some it)
  | put it K V => (Function.update contents K (some (it, V)), (contents K).map Prod.fst)
  | putIp it K V =>
      match contents K with
      | none => (Function.update contents K (some (it, V)), none)
      | some (old, _) => (Function.update contents K (some (old, V)), some it)
  | remove K => (Function.update contents K none, (contents K).map Prod.fst)

/-- The node of a call is not in the tree. -/
def Fresh (contents : Contents Value) : TreeOp Value → Prop
  | insert it _ _ | put it _ _ | putIp it _ _ => ∀ K V, contents K ≠ some (it, V)
  | remove _ => True

def runAll (memory : TreeMemory Value) :
    List (TreeOp Value) → Option (TreeMemory Value × List (Option NodePtr))
  | [] => some (memory, [])
  | op :: ops => do
      let (memory, handed) ← op.run memory
      let (memory, others) ← runAll memory ops
      return (memory, handed :: others)

def applyAll (contents : Contents Value) :
    List (TreeOp Value) → Contents Value × List (Option NodePtr)
  | [] => (contents, [])
  | op :: ops =>
      let applied := op.apply contents
      let rest := applyAll applied.1 ops
      (rest.1, applied.2 :: rest.2)

def AllFresh (contents : Contents Value) : List (TreeOp Value) → Prop
  | [] => True
  | op :: ops => op.Fresh contents ∧ AllFresh (op.apply contents).1 ops

end TreeOp

/-- The nodes in the order of their keys are those of the map. -/
structure Lists (memory : TreeMemory Value) (contents : Contents Value) (nodes : List NodePtr) :
    Prop where
  ordered : nodes.Pairwise fun left right => memory.K left < memory.K right
  contents : ∀ K node V, contents K = some (node, V) ↔
    node ∈ nodes ∧ memory.K node = K ∧ memory.V node = V

namespace Lists

variable {memory next : TreeMemory Value} {contents : Contents Value} {before after : List NodePtr}
  {it node : NodePtr} {K : BitVec 32} {V : Value}

theorem congr {nodes : List NodePtr} (lists : Lists memory contents nodes)
    (sameK : ∀ node ∈ nodes, next.K node = memory.K node)
    (sameV : ∀ node ∈ nodes, next.V node = memory.V node) : Lists next contents nodes := by
  constructor
  · apply lists.ordered.imp_of_mem
    intro left right leftMem rightMem less
    rwa [sameK left leftMem, sameK right rightMem]
  · intro K node V
    rw [lists.contents]
    constructor
    · rintro ⟨nodeMem, isK, isV⟩
      exact ⟨nodeMem, by rw [sameK node nodeMem, isK], by rw [sameV node nodeMem, isV]⟩
    · rintro ⟨nodeMem, isK, isV⟩
      exact ⟨nodeMem, by rw [← sameK node nodeMem, isK], by rw [← sameV node nodeMem, isV]⟩

theorem insert (lists : Lists memory contents (before ++ after))
    (below : ∀ node ∈ before, memory.K node < memory.K it)
    (above : ∀ node ∈ after, memory.K it < memory.K node) :
    contents (memory.K it) = none ∧
      Lists memory (Function.update contents (memory.K it) (some (it, memory.V it)))
        (before ++ it :: after) := by
  have ordered := lists.ordered
  have notIn : ∀ node ∈ before ++ after, memory.K node ≠ memory.K it := by
    intro node nodeMem same
    rcases List.mem_append.mp nodeMem with inBefore | inAfter
    · exact absurd (same ▸ below node inBefore) (BitVec.lt_irrefl _)
    · exact absurd (same ▸ above node inAfter) (BitVec.lt_irrefl _)
  refine ⟨?_, ?_, ?_⟩
  · rw [Option.eq_none_iff_forall_ne_some]
    rintro ⟨node, V⟩ found
    rcases (lists.contents _ _ _).mp found with ⟨nodeMem, isK, _⟩
    exact notIn node nodeMem isK
  · rw [List.pairwise_append] at ordered
    rw [List.pairwise_append, List.pairwise_cons]
    refine ⟨ordered.1, ⟨above, ordered.2.1⟩, ?_⟩
    intro left leftMem right rightMem
    rcases List.mem_cons.mp rightMem with rfl | inAfter
    · exact below left leftMem
    · exact ordered.2.2 left leftMem right inAfter
  · intro K node V
    by_cases same : K = memory.K it
    · subst same
      rw [Function.update_self]
      have other := notIn node
      grind
    · rw [Function.update_of_ne same, lists.contents]
      grind

theorem remove (lists : Lists memory contents (before ++ node :: after)) :
    contents (memory.K node) = some (node, memory.V node) ∧
      (∀ other ∈ before, memory.K other < memory.K node) ∧
      (∀ other ∈ after, memory.K node < memory.K other) ∧
      Lists memory (Function.update contents (memory.K node) none) (before ++ after) := by
  have ordered := lists.ordered
  rw [List.pairwise_append, List.pairwise_cons] at ordered
  rcases ordered with ⟨orderedBefore, ⟨above, orderedAfter⟩, across⟩
  have below : ∀ other ∈ before, memory.K other < memory.K node :=
    fun other inBefore => across other inBefore node (by simp)
  refine ⟨(lists.contents _ _ _).mpr ⟨by simp, rfl, rfl⟩, below, above, ?_, ?_⟩
  · rw [List.pairwise_append]
    refine ⟨orderedBefore, orderedAfter, ?_⟩
    intro left leftMem right rightMem
    exact across left leftMem right (by simp [rightMem])
  · intro K other V
    have notIn : other ∈ before ++ after → memory.K other ≠ memory.K node := by
      intro otherMem same
      rcases List.mem_append.mp otherMem with inBefore | inAfter
      · exact absurd (same ▸ below other inBefore) (BitVec.lt_irrefl _)
      · exact absurd (same ▸ above other inAfter) (BitVec.lt_irrefl _)
    by_cases same : K = memory.K node
    · subst same
      rw [Function.update_self]
      grind
    · rw [Function.update_of_ne same, lists.contents]
      grind

/-- Another node, or the same one, takes the place of a node with its key. -/
theorem exchange (lists : Lists memory contents (before ++ node :: after))
    (next : TreeMemory Value) (it : NodePtr) (sameKey : next.K it = memory.K node)
    (sameK : ∀ other ∈ before ++ after, next.K other = memory.K other)
    (sameV : ∀ other ∈ before ++ after, next.V other = memory.V other) :
    contents (next.K it) = some (node, memory.V node) ∧
      Lists next (Function.update contents (next.K it) (some (it, next.V it)))
        (before ++ it :: after) := by
  rcases lists.remove with ⟨found, below, above, rest⟩
  have moved := rest.congr sameK sameV
  have belowIt : ∀ other ∈ before, next.K other < next.K it := by
    intro other inBefore
    rw [sameKey, sameK other (by simp [inBefore])]
    exact below other inBefore
  have aboveIt : ∀ other ∈ after, next.K it < next.K other := by
    intro other inAfter
    rw [sameKey, sameK other (by simp [inAfter])]
    exact above other inAfter
  have inserted := moved.insert belowIt aboveIt
  rw [← sameKey, Function.update_idem] at inserted
  exact ⟨by rw [sameKey]; exact found, inserted.2⟩

end Lists

namespace Shape

open BinaryTree

variable {memory : TreeMemory Value} {shape : Shape} {it : NodePtr} {K : BitVec 32}

theorem ordered_iff : shape.Ordered (keyIn memory) ↔
    (addrs shape).Pairwise fun left right => memory.K left < memory.K right := by
  rw [addrs, List.pairwise_map]
  exact Iff.rfl

/-- Where the search for a key ends between the nodes. -/
theorem SearchTree.split (tree : SearchTree memory shape) (K : BitVec 32) :
    ∃ before after, (∀ node ∈ before, memory.K node < K) ∧ (∀ node ∈ after, K < memory.K node) ∧
      addrs shape = before ++ addrs (shape.subtree (way memory K shape)) ++ after ∧
      ∀ part, addrs (shape.graft (way memory K shape) part) = before ++ addrs part ++ after := by
  rcases tree.ordered.split K.toNat with ⟨before, after, smaller, larger, isShape, isGraft⟩
  refine ⟨before.map TreeCell.addr, after.map TreeCell.addr, ?_, ?_, ?_, ?_⟩
  · intro node nodeMem
    rcases List.mem_map.mp nodeMem with ⟨cell, cellMem, rfl⟩
    exact smaller cell cellMem
  · intro node nodeMem
    rcases List.mem_map.mp nodeMem with ⟨cell, cellMem, rfl⟩
    exact larger cell cellMem
  · rw [addrs, isShape]
    simp [addrs, way]
  · intro part
    simp only [addrs, way]
    rw [isGraft]
    simp

/-- The search ends at an empty place or at a node with the key. -/
theorem subtree_way (memory : TreeMemory Value) (K : BitVec 32) (shape : Shape) :
    Absent memory K shape ∨ ∃ cell left right,
      shape.subtree (way memory K shape) = node cell left right ∧ memory.K cell.addr = K := by
  rcases @subtree_route _ _ _ (keyIn memory) K.toNat shape with
    absent | ⟨cell, left, right, present, isKey⟩
  · exact Or.inl absent
  · exact Or.inr ⟨cell, left, right, present, BitVec.eq_of_toNat_eq isKey⟩

/-- The memory holds a search tree with the nodes of the map. -/
structure Represents (memory : TreeMemory Value) (contents : Contents Value) (shape : Shape) :
    Prop where
  holds : Holds memory shape (memory.link .root)
  lists : Lists memory contents (addrs shape)

theorem Represents.tree {contents : Contents Value}
    (represents : Represents memory contents shape) : SearchTree memory shape :=
  ⟨represents.holds, ordered_iff.mpr represents.lists.ordered⟩

theorem Represents.prepare {contents : Contents Value}
    (represents : Represents memory contents shape) (fresh : it ∉ addrs shape)
    (K : BitVec 32) (V : Value) :
    Represents (memory.prepare it K V) contents shape := by
  have other : ∀ node ∈ addrs shape, node ≠ it := by
    rintro node nodeMem rfl
    exact fresh nodeMem
  refine ⟨represents.holds.congr fun _ _ => ⟨rfl, rfl, rfl⟩, represents.lists.congr ?_ ?_⟩
  · intro node nodeMem
    exact Function.update_of_ne (other node nodeMem) ..
  · intro node nodeMem
    exact Function.update_of_ne (other node nodeMem) ..

section Steps

variable {contents : Contents Value} {next : TreeMemory Value}

/-- The map behind the insertion of a node with a new key. -/
theorem Represents.insert (represents : Represents memory contents shape)
    (absent : Absent memory (memory.K it) shape)
    (holds : Holds next (inserted memory it shape) (next.link .root)) (sameK : next.K = memory.K)
    (sameV : next.V = memory.V) :
    contents (memory.K it) = none ∧
      Represents next (Function.update contents (memory.K it) (some (it, memory.V it)))
        (inserted memory it shape) := by
  rcases represents.tree.split (memory.K it) with ⟨before, after, below, above, isShape, isGraft⟩
  rw [show shape.subtree _ = nil from absent, addrs_nil, List.append_nil] at isShape
  have lists := represents.lists
  rw [isShape] at lists
  rcases lists.insert below above with ⟨none, listed⟩
  refine ⟨none, holds, ?_⟩
  rw [inserted, addrs_rebalance, isGraft]
  simpa using listed.congr (fun _ _ => by rw [sameK]) (fun _ _ => by rw [sameV])

/-- The nodes around the node with a key. -/
theorem Represents.around (represents : Represents memory contents shape) (it : NodePtr)
    {cell : TreeCell} {left right : Shape}
    (present : shape.subtree (way memory K shape) = node cell left right) :
    ∃ before after, addrs shape = before ++ cell.addr :: after ∧
      addrs (shape.graft (way memory K shape) (removed left right)) = before ++ after ∧
      ∀ depth, addrs (shape.graft (way memory K shape) (node ⟨it, depth⟩ left right)) =
        before ++ it :: after := by
  rcases represents.tree.split K with ⟨before, after, _, _, isShape, isGraft⟩
  refine ⟨before ++ addrs left, addrs right ++ after, ?_, ?_, ?_⟩
  · rw [isShape, present]
    simp
  · rw [isGraft, removed, addrs_rebalance, addrs_sink]
    simp
  · intro depth
    rw [isGraft]
    simp

theorem Represents.contents_absent (represents : Represents memory contents shape)
    (absent : Absent memory K shape) : contents K = none := by
  rcases represents.tree.split K with ⟨before, after, below, above, isShape, _⟩
  rw [show shape.subtree _ = nil from absent, addrs_nil, List.append_nil] at isShape
  rw [Option.eq_none_iff_forall_ne_some]
  rintro ⟨node, V⟩ found
  rcases (represents.lists.contents _ _ _).mp found with ⟨nodeMem, rfl, _⟩
  rw [isShape, List.mem_append] at nodeMem
  rcases nodeMem with inBefore | inAfter
  · exact BitVec.lt_irrefl _ (below node inBefore)
  · exact BitVec.lt_irrefl _ (above node inAfter)

theorem Represents.contents_present (represents : Represents memory contents shape)
    {cell : TreeCell} {left right : Shape}
    (present : shape.subtree (way memory K shape) = node cell left right)
    (isKey : memory.K cell.addr = K) : contents K = some (cell.addr, memory.V cell.addr) := by
  apply (represents.lists.contents _ _ _).mpr
  refine ⟨?_, isKey, rfl⟩
  apply @mem_addrs_subtree shape (way memory K shape)
  simp [present]

theorem Represents.fresh (represents : Represents memory contents shape)
    (fresh : ∀ K V, contents K ≠ some (it, V)) : it ∉ addrs shape := by
  intro itMem
  exact fresh _ _ ((represents.lists.contents _ _ _).mpr ⟨itMem, rfl, rfl⟩)

theorem Represents.run_insert (represents : Represents memory contents shape)
    (fresh : it ∉ addrs shape) :
    ∃ next after, btInsert memory .root it =
        some (next, ((TreeOp.insert it (memory.K it) (memory.V it)).apply contents).2) ∧
      Represents next ((TreeOp.insert it (memory.K it) (memory.V it)).apply contents).1 after := by
  rcases subtree_way memory (memory.K it) shape with absent | ⟨cell, left, right, present, isKey⟩
  · rcases represents.tree.btInsert_absent fresh absent with ⟨next, computed, holds, sameK, sameV⟩
    rcases represents.insert absent holds sameK sameV with ⟨none, represented⟩
    simp only [TreeOp.apply, none]
    exact ⟨next, _, computed, represented⟩
  · rcases represents.tree.btInsert_present fresh present with ⟨next, computed, holds, sameK, sameV⟩
    simp only [TreeOp.apply, represents.contents_present present isKey]
    exact ⟨next, shape, computed, holds,
      represents.lists.congr (fun _ _ => by rw [sameK]) (fun _ _ => by rw [sameV])⟩

theorem Represents.run_put (represents : Represents memory contents shape)
    (fresh : it ∉ addrs shape) :
    ∃ next after, btPut memory .root it =
        some (next, ((TreeOp.put it (memory.K it) (memory.V it)).apply contents).2) ∧
      Represents next ((TreeOp.put it (memory.K it) (memory.V it)).apply contents).1 after := by
  rcases subtree_way memory (memory.K it) shape with absent | ⟨cell, left, right, present, isKey⟩
  · rcases represents.tree.btPut_absent fresh absent with ⟨next, computed, holds, sameK, sameV⟩
    rcases represents.insert absent holds sameK sameV with ⟨none, represented⟩
    simp only [TreeOp.apply, none]
    exact ⟨next, _, computed, represented⟩
  · rcases represents.tree.btPut_present fresh present with ⟨next, computed, holds, sameK, sameV⟩
    rcases represents.around it present with ⟨before, after, isShape, _, isReplaced⟩
    have lists := represents.lists
    rw [isShape] at lists
    have exchanged := lists.exchange next it (by rw [sameK, isKey])
      (fun _ _ => by rw [sameK]) (fun _ _ => by rw [sameV])
    rw [sameK, sameV] at exchanged
    simp only [TreeOp.apply, exchanged.1, Option.map_some]
    refine ⟨next, _, computed, holds, ?_⟩
    rw [replaced, addrs_rebalance, isReplaced]
    exact exchanged.2

theorem Represents.run_putIp (represents : Represents memory contents shape)
    (fresh : it ∉ addrs shape) :
    ∃ next after, btPutIp memory .root it =
        some (next, ((TreeOp.putIp it (memory.K it) (memory.V it)).apply contents).2) ∧
      Represents next ((TreeOp.putIp it (memory.K it) (memory.V it)).apply contents).1 after := by
  rcases subtree_way memory (memory.K it) shape with absent | ⟨cell, left, right, present, isKey⟩
  · rcases represents.tree.btPutIp_absent fresh absent with ⟨next, computed, holds, sameK, sameV⟩
    rcases represents.insert absent holds sameK sameV with ⟨none, represented⟩
    simp only [TreeOp.apply, none]
    exact ⟨next, _, computed, represented⟩
  · rcases represents.tree.btPutIp_present fresh present with ⟨next, computed, holds, sameK, sameV⟩
    rcases represents.around it present with ⟨before, after, isShape, _, _⟩
    have lists := represents.lists
    have nodup := represents.tree.placed.nodup
    rw [isShape] at lists nodup
    have outside : ∀ other ∈ before ++ after, other ≠ cell.addr := by
      rintro other otherMem rfl
      simp only [List.nodup_append, List.nodup_cons, List.mem_cons, List.mem_append]
        at nodup otherMem
      grind
    have exchanged := lists.exchange next cell.addr (by rw [sameK])
      (fun _ _ => by rw [sameK])
      (fun other otherMem => by rw [sameV, Function.update_of_ne (outside other otherMem)])
    rw [sameK, sameV, isKey, Function.update_self] at exchanged
    simp only [TreeOp.apply, exchanged.1]
    refine ⟨next, _, computed, holds, ?_⟩
    rw [addrs_rebalance, isShape]
    exact exchanged.2

theorem Represents.run_remove (represents : Represents memory contents shape) (K : BitVec 32) :
    ∃ next after, (TreeOp.remove K).run memory =
        some (next, ((TreeOp.remove K).apply contents).2) ∧
      Represents next ((TreeOp.remove K).apply contents).1 after := by
  rcases subtree_way memory K shape with absent | ⟨cell, left, right, present, isKey⟩
  · have found := represents.contents_absent absent
    refine ⟨memory, shape, ?_, represents.holds, ?_⟩
    · simp [TreeOp.run, TreeOp.apply, represents.tree.btLookup,
        show shape.subtree _ = nil from absent, root, found]
    · simp only [TreeOp.apply]
      rw [← found, Function.update_eq_self]
      exact represents.lists
  · rcases represents.tree.btRemove K none present with ⟨next, computed, holds, sameK, sameV⟩
    rcases represents.around cell.addr present with ⟨before, after, isShape, isRemoved, _⟩
    have lists := represents.lists
    rw [isShape] at lists
    rcases lists.remove with ⟨found, _, _, rest⟩
    rw [isKey] at found rest
    refine ⟨next, _, ?_, holds, ?_⟩
    · simp [TreeOp.run, TreeOp.apply, represents.tree.btLookup, present, root, computed, found]
    · rw [isRemoved]
      exact rest.congr (fun _ _ => by rw [sameK]) (fun _ _ => by rw [sameV])

theorem Represents.run (represents : Represents memory contents shape) {op : TreeOp Value}
    (fresh : op.Fresh contents) :
    ∃ next after, op.run memory = some (next, (op.apply contents).2) ∧
      Represents next (op.apply contents).1 after := by
  cases op with
  | insert it K V =>
      have notIn := represents.fresh fresh
      simpa [TreeMemory.prepare, TreeOp.run] using
        (represents.prepare notIn K V).run_insert notIn
  | put it K V =>
      have notIn := represents.fresh fresh
      simpa [TreeMemory.prepare, TreeOp.run] using (represents.prepare notIn K V).run_put notIn
  | putIp it K V =>
      have notIn := represents.fresh fresh
      simpa [TreeMemory.prepare, TreeOp.run] using (represents.prepare notIn K V).run_putIp notIn
  | remove K => exact represents.run_remove K

theorem Represents.runAll (represents : Represents memory contents shape)
    {ops : List (TreeOp Value)} (fresh : TreeOp.AllFresh contents ops) :
    ∃ next after, TreeOp.runAll memory ops = some (next, (TreeOp.applyAll contents ops).2) ∧
      Represents next (TreeOp.applyAll contents ops).1 after := by
  induction ops generalizing memory contents shape with
  | nil => exact ⟨memory, shape, rfl, represents⟩
  | cons op ops ih =>
      rcases represents.run fresh.1 with ⟨middle, between, ran, represented⟩
      rcases ih represented fresh.2 with ⟨next, after, ranAll, representedAll⟩
      refine ⟨next, after, ?_, representedAll⟩
      simp [TreeOp.runAll, TreeOp.applyAll, ran, ranAll]

end Steps

end Shape

/-- `bt_lookup` returns the slot of the node of a key, or null if there is none. -/
def Finds (memory : TreeMemory Value) (contents : Contents Value) (K : BitVec 32) : Prop :=
  match contents K with
  | none => btLookup memory .root K = some none
  | some (node, _) =>
      ∃ slot, btLookup memory .root K = some (some slot) ∧ memory.link slot = some node

/-- The memory holds a tree whose nodes, from left to right, have increasing keys and are those of
the map. -/
def IsMap (memory : TreeMemory Value) (contents : Contents Value) : Prop :=
  (∃ shape, Shape.Holds memory shape (memory.link .root) ∧
    Lists memory contents (Shape.addrs shape)) ∧ ∀ K, Finds memory contents K

theorem Shape.Represents.finds {memory : TreeMemory Value} {contents : Contents Value}
    {shape : Shape} (represents : Shape.Represents memory contents shape) (K : BitVec 32) :
    Finds memory contents K := by
  have looked := represents.tree.btLookup K
  have found := (represents.holds.subtree (Shape.reaches_way memory K shape)).eq_root
  rcases Shape.subtree_way memory K shape with absent | ⟨cell, left, right, present, isKey⟩
  · rw [show shape.subtree _ = BinaryTree.nil from absent] at looked
    simp only [Finds, represents.contents_absent absent]
    exact looked
  · rw [present] at looked found
    simp only [Finds, represents.contents_present present isKey]
    exact ⟨_, looked, found⟩

/-- Every sequence of operations on the tree, from the empty one, does on the memory what it does
on the map, and hands back the same nodes. -/
theorem runAll_isMap (memory : TreeMemory Value) (empty : memory.link .root = none)
    (ops : List (TreeOp Value)) (fresh : TreeOp.AllFresh (fun _ => none) ops) :
    ∃ next, TreeOp.runAll memory ops = some (next, (TreeOp.applyAll (fun _ => none) ops).2) ∧
      IsMap next (TreeOp.applyAll (fun _ => none) ops).1 := by
  have start : Shape.Represents memory (fun _ => none) BinaryTree.nil :=
    ⟨empty, List.Pairwise.nil, by simp⟩
  rcases start.runAll fresh with ⟨next, after, ran, represented⟩
  exact ⟨next, ran, ⟨after, represented.holds, represented.lists⟩, represented.finds⟩

/-- An empty tree. -/
def emptyMemory : TreeMemory Unit where
  link _ := none
  K _ := 0
  V _ := ()
  depth _ := 0

/-- Two nodes are inserted, one is replaced and the other removed. -/
def fourOps : List (TreeOp Unit) :=
  [.insert ⟨4096, by decide⟩ 7 (), .insert ⟨8192, by decide⟩ 5 (), .put ⟨12288, by decide⟩ 7 (),
    .remove 5]

theorem runAll_isMap_fourOps : TreeOp.AllFresh (fun _ => none) fourOps ∧
    ∃ next, TreeOp.runAll emptyMemory fourOps =
        some (next, [none, none, some ⟨4096, by decide⟩, some ⟨8192, by decide⟩]) ∧
      IsMap next (TreeOp.applyAll (fun _ => none) fourOps).1 := by
  have fresh : TreeOp.AllFresh (fun _ => none) fourOps := by
    simp [fourOps, TreeOp.AllFresh, TreeOp.Fresh, TreeOp.apply]
    grind
  exact ⟨fresh, runAll_isMap emptyMemory rfl fourOps fresh⟩

end Rkernel
