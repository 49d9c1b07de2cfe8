import Rkernel.Lib.Transition
import Rkernel.Vm.TreeMap

/-!
# Runs of the tree operations

The calls on one tree, one after the other, as a transition system: the memory with
the map that it keeps. What a call makes of the tree depends on the keys and on the
depths alone, and is given here for all calls in one place.

Where the keys of the nodes are fixed once and for all, the way of a search, and so the
whole run, can be computed from the tree alone.
-/

namespace Rkernel

namespace TreeOp

open BinaryTree Shape

variable {Value : Type}

/-- The key of a call. -/
def key : TreeOp Value → BitVec 32
  | insert _ K _ | put _ K _ | putIp _ K _ | remove K => K

/-- The memory that a call finds. -/
def prepared (memory : TreeMemory Value) : TreeOp Value → TreeMemory Value
  | insert it K V | put it K V | putIp it K V => memory.prepare it K V
  | remove _ => memory

/-- The way of the search in a call. -/
def path (memory : TreeMemory Value) (shape : Shape) (op : TreeOp Value) : List Side :=
  way (op.prepared memory) op.key shape

/-- The tree behind a call. -/
def reshape (memory : TreeMemory Value) (shape : Shape) (op : TreeOp Value) : Shape :=
  match op, shape.subtree (op.path memory shape) with
  | insert it _ _, nil | put it _ _, nil | putIp it _ _, nil =>
      inserted (op.prepared memory) it shape
  | insert _ _ _, node _ _ _ => shape
  | put it _ _, node cell left right => replaced (op.prepared memory) it cell left right shape
  | putIp _ _ _, node _ _ _ => rebalance shape (op.path memory shape)
  | remove _, nil => shape
  | remove _, node _ left right => shape.graft (op.path memory shape) (removed left right)

theorem run_reshape {memory : TreeMemory Value} {contents : Contents Value} {shape : Shape}
    (represents : Represents memory contents shape) {op : TreeOp Value}
    (fresh : op.Fresh contents) :
    ∃ next handed, op.run memory = some (next, handed) ∧
      Holds next (op.reshape memory shape) (next.link .root) := by
  cases op with
  | insert it K V =>
      have notIn := represents.fresh fresh
      have tree := (represents.prepare notIn K V).tree
      have isKey : (memory.prepare it K V).K it = K := by simp [TreeMemory.prepare]
      cases found : shape.subtree (way (memory.prepare it K V) K shape) with
      | nil =>
          rcases tree.btInsert_absent notIn (by rw [isKey]; exact found) with
            ⟨next, computed, holds, _⟩
          exact ⟨next, _, computed, by simpa [reshape, path, key, prepared, found] using holds⟩
      | node cell left right =>
          rcases tree.btInsert_present notIn (by rw [isKey]; exact found) with
            ⟨next, computed, holds, _⟩
          exact ⟨next, _, computed, by simpa [reshape, path, key, prepared, found] using holds⟩
  | put it K V =>
      have notIn := represents.fresh fresh
      have tree := (represents.prepare notIn K V).tree
      have isKey : (memory.prepare it K V).K it = K := by simp [TreeMemory.prepare]
      cases found : shape.subtree (way (memory.prepare it K V) K shape) with
      | nil =>
          rcases tree.btPut_absent notIn (by rw [isKey]; exact found) with
            ⟨next, computed, holds, _⟩
          exact ⟨next, _, computed, by simpa [reshape, path, key, prepared, found] using holds⟩
      | node cell left right =>
          rcases tree.btPut_present notIn (by rw [isKey]; exact found) with
            ⟨next, computed, holds, _⟩
          exact ⟨next, _, computed, by simpa [reshape, path, key, prepared, found] using holds⟩
  | putIp it K V =>
      have notIn := represents.fresh fresh
      have tree := (represents.prepare notIn K V).tree
      have isKey : (memory.prepare it K V).K it = K := by simp [TreeMemory.prepare]
      cases found : shape.subtree (way (memory.prepare it K V) K shape) with
      | nil =>
          rcases tree.btPutIp_absent notIn (by rw [isKey]; exact found) with
            ⟨next, computed, holds, _⟩
          exact ⟨next, _, computed, by simpa [reshape, path, key, prepared, found] using holds⟩
      | node cell left right =>
          rcases tree.btPutIp_present notIn (by rw [isKey]; exact found) with
            ⟨next, computed, holds, _⟩
          rw [isKey] at holds
          exact ⟨next, _, computed, by simpa [reshape, path, key, prepared, found] using holds⟩
  | remove K =>
      have looked := represents.tree.btLookup K
      cases found : shape.subtree (way memory K shape) with
      | nil =>
          rw [found] at looked
          refine ⟨memory, none, ?_, ?_⟩
          · simp only [run, looked, root, Option.map_none]
          · simpa [reshape, path, key, prepared, found] using represents.holds
      | node cell left right =>
          rw [found] at looked
          rcases represents.tree.btRemove K none found with ⟨next, computed, holds, _⟩
          refine ⟨next, some cell.addr, ?_, ?_⟩
          · simp only [run, looked, root, Option.map_some]
            exact computed
          · simpa [reshape, path, key, prepared, found] using holds

theorem reshape_insert {memory : TreeMemory Value} {shape : Shape} {it : NodePtr} {K : BitVec 32}
    {V : Value} {path : List Side} (isPath : way (memory.prepare it K V) K shape = path)
    (absent : shape.subtree path = nil) :
    (insert it K V).reshape memory shape =
      rebalance (shape.graft path (node ⟨it, memory.depth it⟩ nil nil)) path := by
  have isKey : (memory.prepare it K V).K it = K := by simp [TreeMemory.prepare]
  simp only [reshape, TreeOp.path, key, prepared, isPath, absent, inserted, isKey]
  rfl

end TreeOp

theorem Shape.Holds.unique {Value : Type} {memory : TreeMemory Value} {shape other : Shape}
    {pointer : Option NodePtr} (holds : Shape.Holds memory shape pointer)
    (again : Shape.Holds memory other pointer) : shape = other := by
  induction shape generalizing other pointer with
  | nil =>
      have isNull : pointer = none := holds
      subst isNull
      cases other with
      | nil => rfl
      | node cell left right => simp [Shape.Holds] at again
  | node cell left right ihLeft ihRight =>
      rcases holds with ⟨rfl, isDepth, holdsLeft, holdsRight⟩
      cases other with
      | nil => simp [Shape.Holds] at again
      | node otherCell otherLeft otherRight =>
          rcases again with ⟨sameRoot, otherDepth, otherHoldsLeft, otherHoldsRight⟩
          rw [Option.some.injEq] at sameRoot
          rw [← sameRoot] at otherDepth otherHoldsLeft otherHoldsRight
          have sameCell : cell = otherCell := by
            cases cell
            cases otherCell
            simp_all
          rw [sameCell, ihLeft holdsLeft otherHoldsLeft, ihRight holdsRight otherHoldsRight]

section Runs

open Shape

variable {Value : Type}

/-- The runs of the operations on one tree, with the map that they keep. -/
def treeSystem (Value : Type) :
    TransitionSystem (TreeMemory Value × Contents Value) (TreeOp Value) where
  init state := state.1.link .root = none ∧ state.2 = fun _ => none
  step state op next := op.Fresh state.2 ∧ (∃ handed, op.run state.1 = some (next.1, handed)) ∧
    next.2 = (op.apply state.2).1

/-- A condition on the tree that a call finds. -/
def OnTree (condition : TreeMemory Value → Shape → TreeOp Value → Prop)
    (state : TreeMemory Value × Contents Value) (op : TreeOp Value)
    (_next : TreeMemory Value × Contents Value) : Prop :=
  ∀ shape, Holds state.1 shape (state.1.link .root) → condition state.1 shape op

theorem Shape.Represents.step {state next : TreeMemory Value × Contents Value} {shape : Shape}
    {op : TreeOp Value} (represents : Represents state.1 state.2 shape)
    (step : (treeSystem Value).step state op next) :
    Represents next.1 next.2 (op.reshape state.1 shape) := by
  rcases step with ⟨fresh, ⟨handed, ran⟩, isNext⟩
  rcases represents.run fresh with ⟨memory, after, ranToo, represented⟩
  rcases TreeOp.run_reshape represents fresh with ⟨memoryToo, _, ranThere, holds⟩
  rw [ran, Option.some.injEq, Prod.mk.injEq] at ranToo ranThere
  rcases ranToo with ⟨rfl, _⟩
  rcases ranThere with ⟨rfl, _⟩
  rw [isNext, ← represented.holds.unique holds]
  exact represented

end Runs

section Keyed

open BinaryTree Shape

variable {Value : Type} {keys : NodePtr → BitVec 32} {memory : TreeMemory Value}
  {contents : Contents Value} {shape after : Shape} {path : List Side}

/-- Every node of the map is stored under the key that the function gives to it. -/
def KeyedBy (keys : NodePtr → BitVec 32) (contents : Contents Value) : Prop :=
  ∀ K node V, contents K = some (node, V) → keys node = K

theorem KeyedBy.insert (keyed : KeyedBy keys contents) (it : NodePtr) (V : Value) :
    KeyedBy keys ((TreeOp.insert it (keys it) V).apply contents).1 := by
  simp only [TreeOp.apply]
  split
  · intro K other W found
    by_cases same : K = keys it
    · simp only [same, Function.update_self, Option.some.injEq, Prod.mk.injEq] at found
      rw [same, found.1]
    · simp only [Function.update_of_ne same] at found
      exact keyed K other W found
  · exact keyed

theorem KeyedBy.remove (keyed : KeyedBy keys contents) (K : BitVec 32) :
    KeyedBy keys ((TreeOp.remove K).apply contents).1 := by
  intro other it W found
  simp only [TreeOp.apply] at found
  by_cases same : other = K
  · simp [same] at found
  · rw [Function.update_of_ne same] at found
    exact keyed other it W found

/-- The way of the search for a key if the nodes have the keys of the function. -/
def wayBy (keys : NodePtr → BitVec 32) (K : BitVec 32) (shape : Shape) : List Side :=
  shape.route (fun cell => (keys cell.addr).toNat) K.toNat

theorem Shape.Represents.way_eq (represents : Represents memory contents shape)
    (keyed : KeyedBy keys contents) (K : BitVec 32) : way memory K shape = wayBy keys K shape := by
  apply route_congr
  intro cell cellMem
  have inTree : cell.addr ∈ addrs shape := List.mem_map_of_mem cellMem
  have found := (represents.lists.contents (memory.K cell.addr) cell.addr _).mpr
    ⟨inTree, rfl, rfl⟩
  rw [keyIn, keyed _ _ _ found]

/-- A run of the system leads to this tree, of nodes with the keys of the function. -/
def LeadsToTree (sys : TransitionSystem (TreeMemory Value × Contents Value) (TreeOp Value))
    (keys : NodePtr → BitVec 32) (shape : Shape) : Prop :=
  ∃ state, sys.Reachable state ∧ Represents state.1 state.2 shape ∧ KeyedBy keys state.2

/-- The system admits the call on this tree, whose search takes the given way. -/
def AdmitsOn (sys : TransitionSystem (TreeMemory Value × Contents Value) (TreeOp Value))
    (shape : Shape) (op : TreeOp Value) (path : List Side) : Prop :=
  ∀ state next, Represents state.1 state.2 shape → op.path state.1 shape = path →
    (treeSystem Value).step state op next → sys.step state op next

variable {sys : TransitionSystem (TreeMemory Value × Contents Value) (TreeOp Value)}

theorem admitsOn_treeSystem (shape : Shape) (op : TreeOp Value) (path : List Side) :
    AdmitsOn (treeSystem Value) shape op path :=
  fun _ _ _ _ step => step

theorem AdmitsOn.onTree {op : TreeOp Value}
    {condition : TreeMemory Value → Shape → TreeOp Value → Prop}
    (admits : AdmitsOn sys shape op path)
    (meets : ∀ memory, op.path memory shape = path → condition memory shape op) :
    AdmitsOn (sys.restrict (OnTree condition)) shape op path := by
  intro state next represents isPath step
  refine ⟨admits state next represents isPath step, ?_⟩
  intro other holds
  rw [← represents.holds.unique holds]
  exact meets state.1 isPath

theorem leadsToTree_nil (memory : TreeMemory Value) (empty : memory.link .root = none)
    (isInit : sys.init (memory, fun _ => none)) : LeadsToTree sys keys nil :=
  ⟨_, .init isInit, ⟨empty, List.Pairwise.nil, by simp⟩, by simp [KeyedBy]⟩

theorem LeadsToTree.insert (leads : LeadsToTree sys keys shape) (it : NodePtr) (V : Value)
    (path : List Side) (notIn : it ∉ addrs shape)
    (isPath : wayBy keys (keys it) shape = path) (absent : shape.subtree path = nil)
    (isAfter : ∀ depth, rebalance (shape.graft path (node ⟨it, depth⟩ nil nil)) path = after)
    (admits : AdmitsOn sys shape (.insert it (keys it) V) path) : LeadsToTree sys keys after := by
  rcases leads with ⟨state, reachable, represents, keyed⟩
  have fresh : (TreeOp.insert it (keys it) V).Fresh state.2 := by
    intro K W found
    exact notIn ((represents.lists.contents K it W).mp found).1
  have turns : way (state.1.prepare it (keys it) V) (keys it) shape = path :=
    ((represents.prepare notIn (keys it) V).way_eq keyed (keys it)).trans isPath
  rcases TreeOp.run_reshape represents fresh with ⟨next, handed, ran, -⟩
  have step : (treeSystem Value).step state (.insert it (keys it) V)
      (next, ((TreeOp.insert it (keys it) V).apply state.2).1) := ⟨fresh, ⟨handed, ran⟩, rfl⟩
  refine ⟨_, reachable.step (admits _ _ represents turns step), ?_, ?_⟩
  · have represented := represents.step step
    rwa [TreeOp.reshape_insert turns absent, isAfter] at represented
  · exact keyed.insert it V

theorem LeadsToTree.remove (leads : LeadsToTree sys keys shape) (K : BitVec 32)
    (path : List Side) (isPath : wayBy keys K shape = path) {cell : TreeCell} {left right : Shape}
    (present : shape.subtree path = node cell left right)
    (isAfter : shape.graft path (removed left right) = after)
    (admits : AdmitsOn sys shape (.remove K) path) : LeadsToTree sys keys after := by
  rcases leads with ⟨state, reachable, represents, keyed⟩
  have turns : (TreeOp.remove K : TreeOp Value).path state.1 shape = path :=
    (represents.way_eq keyed K).trans isPath
  have fresh : (TreeOp.remove K : TreeOp Value).Fresh state.2 := trivial
  rcases TreeOp.run_reshape represents fresh with ⟨next, handed, ran, -⟩
  have step : (treeSystem Value).step state (.remove K)
      (next, ((TreeOp.remove K).apply state.2).1) := ⟨fresh, ⟨handed, ran⟩, rfl⟩
  refine ⟨_, reachable.step (admits _ _ represents turns step), ?_, ?_⟩
  · have represented := represents.step step
    simp only [TreeOp.reshape, turns, present, isAfter] at represented
    exact represented
  · exact keyed.remove K

end Keyed

end Rkernel
