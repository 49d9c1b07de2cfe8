import Mathlib.Data.List.Basic
import Mathlib.Logic.Function.Basic

/-!
# Singly linked lists

A list in memory is a pointer to its first node and a link from every node to the next one, with a
null pointer behind the last. Taking the first node off and putting a node in front are the only
updates here. The frame rule is that links of nodes outside the list do not matter.
-/

universe u

variable {α : Type u}

/-- The nodes that are reached from a pointer along the links. -/
def LinkedFrom (next : α → α) (null : α) : α → List α → Prop
  | head, [] => head = null
  | head, node :: nodes => head = node ∧ node ≠ null ∧ LinkedFrom next null (next node) nodes

namespace LinkedFrom

variable {next other : α → α} {null head : α} {nodes : List α}

theorem eq_nil (linked : LinkedFrom next null null nodes) : nodes = [] := by
  cases nodes with
  | nil => rfl
  | cons node nodes => exact absurd linked.1.symm linked.2.1

theorem unique {others : List α} (linked : LinkedFrom next null head nodes)
    (again : LinkedFrom next null head others) : nodes = others := by
  induction nodes generalizing head others with
  | nil =>
      rw [show head = null from linked] at again
      exact again.eq_nil.symm
  | cons node nodes ih =>
      rcases linked with ⟨rfl, nonNull, linkedRest⟩
      cases others with
      | nil => exact absurd again nonNull
      | cons other others =>
          rcases again with ⟨rfl, _, againRest⟩
          rw [ih linkedRest againRest]

theorem pop (linked : LinkedFrom next null head nodes) (nonNull : head ≠ null) :
    ∃ rest, nodes = head :: rest ∧ LinkedFrom next null (next head) rest := by
  cases nodes with
  | nil => exact absurd linked nonNull
  | cons node rest =>
      rcases linked with ⟨rfl, _, linkedRest⟩
      exact ⟨rest, rfl, linkedRest⟩

theorem congr (linked : LinkedFrom next null head nodes)
    (same : ∀ node ∈ nodes, other node = next node) : LinkedFrom other null head nodes := by
  induction nodes generalizing head with
  | nil => exact linked
  | cons node nodes ih =>
      rcases linked with ⟨isHead, nonNull, linkedRest⟩
      refine ⟨isHead, nonNull, ?_⟩
      rw [same node List.mem_cons_self]
      exact ih linkedRest fun other otherMem => same other (List.mem_cons_of_mem _ otherMem)

theorem push [DecidableEq α] (linked : LinkedFrom next null head nodes) {node : α}
    (nonNull : node ≠ null) (notIn : node ∉ nodes) :
    LinkedFrom (Function.update next node head) null node (node :: nodes) := by
  refine ⟨rfl, nonNull, ?_⟩
  rw [Function.update_self]
  apply linked.congr
  intro other otherMem
  apply Function.update_of_ne
  rintro rfl
  exact notIn otherMem

end LinkedFrom
