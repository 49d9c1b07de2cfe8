import Mathlib.Data.Nat.Fib.Basic
import Mathlib.Data.Tree.Basic
import Mathlib.Order.Defs.LinearOrder

/-!
# Binary search trees

Binary trees are Mathlib's. A position in a tree is the list of the turns that lead
to it from the root. A subtree can be read and replaced there, and the search for a
key ends at one position: at the node with that key, or at the empty place where a
node with that key belongs. What stands to the left of that position is below the
key and what stands to the right of it is above, so that every operation at the end
of a search can be read off the sequence of the nodes.

A search is as short as the tree is low, and a tree whose subtrees differ by at most one
in height has at least as many nodes as a Fibonacci number of its height.
-/

universe u v

/-- A turn on the way down a binary tree. -/
inductive Side where
  | left
  | right
  deriving DecidableEq

def Side.other : Side → Side
  | left => right
  | right => left

namespace BinaryTree

variable {α : Type u}

/-- The nodes from left to right. -/
def inorder : BinaryTree α → List α
  | nil => []
  | node value left right => left.inorder ++ value :: right.inorder

/-- The subtree at a position, empty outside the tree. -/
def subtree : BinaryTree α → List Side → BinaryTree α
  | tree, [] => tree
  | nil, _ :: _ => nil
  | node _ left _, .left :: path => left.subtree path
  | node _ _ right, .right :: path => right.subtree path

/-- Replaces the subtree at a position. -/
def graft : BinaryTree α → List Side → BinaryTree α → BinaryTree α
  | _, [], graftee => graftee
  | nil, _ :: _, _ => nil
  | node value left right, .left :: path, graftee => node value (left.graft path graftee) right
  | node value left right, .right :: path, graftee => node value left (right.graft path graftee)

/-- The position lies in the tree or directly below it. -/
def Reaches : BinaryTree α → List Side → Prop
  | _, [] => True
  | nil, _ :: _ => False
  | node _ left _, .left :: path => left.Reaches path
  | node _ _ right, .right :: path => right.Reaches path

/-- The subtree on one side. -/
def child : BinaryTree α → Side → BinaryTree α
  | nil, _ => nil
  | node _ left _, .left => left
  | node _ _ right, .right => right

/-- The heights of the two subtrees of every node differ by at most one. -/
def Balanced : BinaryTree α → Prop
  | nil => True
  | node _ left right =>
      left.height ≤ right.height + 1 ∧ right.height ≤ left.height + 1 ∧
        left.Balanced ∧ right.Balanced

@[simp]
theorem inorder_nil : (nil : BinaryTree α).inorder = [] :=
  rfl

@[simp]
theorem inorder_node (value : α) (left right : BinaryTree α) :
    (node value left right).inorder = left.inorder ++ value :: right.inorder :=
  rfl

@[simp]
theorem subtree_nil_path (tree : BinaryTree α) : tree.subtree [] = tree := by
  cases tree <;> rfl

@[simp]
theorem graft_nil_path (tree graftee : BinaryTree α) : tree.graft [] graftee = graftee := by
  cases tree <;> rfl

theorem length_inorder (tree : BinaryTree α) : tree.inorder.length = tree.numNodes := by
  induction tree with
  | nil => rfl
  | node value left right ihLeft ihRight =>
      simp only [inorder_node, List.length_append, List.length_cons, ihLeft, ihRight, numNodes]
      omega

theorem Balanced.fib_le {tree : BinaryTree α} (balanced : tree.Balanced) :
    Nat.fib (tree.height + 2) ≤ tree.numNodes + 1 := by
  induction tree with
  | nil => exact le_of_eq rfl
  | node value left right ihLeft ihRight =>
      rcases balanced with ⟨leftLow, rightLow, leftBalanced, rightBalanced⟩
      have inLeft := ihLeft leftBalanced
      have inRight := ihRight rightBalanced
      rw [height, numNodes]
      rcases le_total left.height right.height with lower | lower
      · have below : Nat.fib (right.height + 1) ≤ Nat.fib (left.height + 2) :=
          Nat.fib_mono (by omega)
        have sum : Nat.fib (right.height + 1 + 2) =
            Nat.fib (right.height + 1) + Nat.fib (right.height + 2) := Nat.fib_add_two
        rw [max_eq_right lower, sum]
        omega
      · have below : Nat.fib (left.height + 1) ≤ Nat.fib (right.height + 2) :=
          Nat.fib_mono (by omega)
        have sum : Nat.fib (left.height + 1 + 2) =
            Nat.fib (left.height + 1) + Nat.fib (left.height + 2) := Nat.fib_add_two
        rw [max_eq_left lower, sum]
        omega

section Search

variable {κ : Type v} [LinearOrder κ]

/-- The turns of the search for a key. -/
def route (key : α → κ) (wanted : κ) : BinaryTree α → List Side
  | nil => []
  | node value left right =>
      if wanted < key value then .left :: left.route key wanted
      else if key value < wanted then .right :: right.route key wanted
      else []

/-- The keys grow from left to right. -/
def Ordered (key : α → κ) (tree : BinaryTree α) : Prop :=
  tree.inorder.Pairwise fun left right => key left < key right

variable {key : α → κ} {wanted : κ}

theorem ordered_node {value : α} {left right : BinaryTree α} :
    (node value left right).Ordered key ↔
      left.Ordered key ∧ right.Ordered key ∧ (∀ other ∈ left.inorder, key other < key value) ∧
        ∀ other ∈ right.inorder, key value < key other := by
  simp only [Ordered, inorder_node, List.pairwise_append, List.pairwise_cons, List.mem_cons]
  constructor
  · rintro ⟨leftOrdered, ⟨above, rightOrdered⟩, across⟩
    refine ⟨leftOrdered, rightOrdered, ?_, above⟩
    intro other otherMem
    exact across other otherMem value (Or.inl rfl)
  · rintro ⟨leftOrdered, rightOrdered, below, above⟩
    refine ⟨leftOrdered, ⟨above, rightOrdered⟩, ?_⟩
    rintro first firstMem second (rfl | secondMem)
    · exact below first firstMem
    · exact lt_trans (below first firstMem) (above second secondMem)

theorem Ordered.nodup {tree : BinaryTree α} (ordered : tree.Ordered key) : tree.inorder.Nodup := by
  apply ordered.imp
  rintro left right less rfl
  exact lt_irrefl _ less

theorem reaches_route (tree : BinaryTree α) : tree.Reaches (tree.route key wanted) := by
  induction tree with
  | nil => trivial
  | node value left right ihLeft ihRight =>
      simp only [route]
      split
      · exact ihLeft
      · split
        · exact ihRight
        · trivial

/-- A search looks at the keys of the tree only. -/
theorem route_congr {other : α → κ} {tree : BinaryTree α}
    (same : ∀ value ∈ tree.inorder, key value = other value) :
    tree.route key wanted = tree.route other wanted := by
  induction tree with
  | nil => rfl
  | node value left right ihLeft ihRight =>
      simp only [inorder_node, List.mem_append, List.mem_cons] at same
      simp only [route, same value (by simp),
        ihLeft fun inner innerMem => same inner (Or.inl innerMem),
        ihRight fun inner innerMem => same inner (Or.inr (Or.inr innerMem))]

theorem length_route_le_height (tree : BinaryTree α) :
    (tree.route key wanted).length ≤ tree.height := by
  induction tree with
  | nil => exact le_refl _
  | node value left right ihLeft ihRight =>
      simp only [route, height]
      split
      · rw [List.length_cons]
        omega
      · split
        · rw [List.length_cons]
          omega
        · exact Nat.zero_le _

/-- The search ends at a node with the key or at an empty place. -/
theorem subtree_route (tree : BinaryTree α) :
    tree.subtree (tree.route key wanted) = nil ∨
      ∃ value left right, tree.subtree (tree.route key wanted) = node value left right ∧
        key value = wanted := by
  induction tree with
  | nil => exact Or.inl rfl
  | node value left right ihLeft ihRight =>
      simp only [route]
      split
      · exact ihLeft
      · split
        · exact ihRight
        · rename_i notBelow notAbove
          exact Or.inr ⟨value, left, right, rfl,
            le_antisymm (not_lt.mp notBelow) (not_lt.mp notAbove)⟩

/-- The end of a search divides the nodes: those before it have smaller keys and those behind it
larger ones, and they stay when the subtree there is replaced. -/
theorem Ordered.split {tree : BinaryTree α} (ordered : tree.Ordered key) (wanted : κ) :
    ∃ before after,
      (∀ value ∈ before, key value < wanted) ∧ (∀ value ∈ after, wanted < key value) ∧
      tree.inorder = before ++ (tree.subtree (tree.route key wanted)).inorder ++ after ∧
      ∀ graftee, (tree.graft (tree.route key wanted) graftee).inorder =
        before ++ graftee.inorder ++ after := by
  induction tree with
  | nil => exact ⟨[], [], by simp, by simp, by simp [route], by simp [route]⟩
  | node value left right ihLeft ihRight =>
      rcases ordered_node.mp ordered with ⟨leftOrdered, rightOrdered, below, above⟩
      simp only [route]
      split
      · rename_i less
        rcases ihLeft leftOrdered with ⟨before, after, smaller, larger, isLeft, grafted⟩
        refine ⟨before, after ++ value :: right.inorder, smaller, ?_, ?_, ?_⟩
        · intro other otherMem
          simp only [List.mem_append, List.mem_cons] at otherMem
          rcases otherMem with inAfter | rfl | inRight
          · exact larger other inAfter
          · exact less
          · exact lt_trans less (above other inRight)
        · simp only [inorder_node, subtree, List.append_assoc] at isLeft ⊢
          rw [isLeft]
          simp
        · intro graftee
          simp [graft, grafted graftee]
      · split
        · rename_i _ greater
          rcases ihRight rightOrdered with ⟨before, after, smaller, larger, isRight, grafted⟩
          refine ⟨left.inorder ++ value :: before, after, ?_, larger, ?_, ?_⟩
          · intro other otherMem
            simp only [List.mem_append, List.mem_cons] at otherMem
            rcases otherMem with inLeft | rfl | inBefore
            · exact lt_trans (below other inLeft) greater
            · exact greater
            · exact smaller other inBefore
          · simp only [inorder_node, subtree, List.append_assoc] at isRight ⊢
            rw [isRight]
            simp
          · intro graftee
            simp [graft, grafted graftee]
        · exact ⟨[], [], by simp, by simp, by simp, by simp⟩

end Search

end BinaryTree
