import Rkernel.Vm.TreeRun

/-!
# The depth fields

The rebalancing trusts the `depth` fields. An update that starts at the root computes
them again along its whole path, so they stay the heights of the subtrees as long as
the path fits into the buffer. `bt_remove` starts at the slot it is given and computes
them from there down; the nodes above the slot keep the depth they had. That is the
right one if and only if the higher one of the slot's subtree and the subtree beside it
keeps its height.
-/

namespace Rkernel

namespace Shape

open BinaryTree

/-- Every depth is the height of the subtree below it. -/
def Exact : Shape → Prop
  | nil => True
  | node cell left right =>
      cell.depth.toNat = max left.height right.height + 1 ∧ Exact left ∧ Exact right

/-- The depths beside a path, and below its end, are exact. -/
def ExactBeside : Shape → List Side → Prop
  | nil, _ => True
  | node _ left right, [] => Exact left ∧ Exact right
  | node _ left right, .left :: path => ExactBeside left path ∧ Exact right
  | node _ left right, .right :: path => Exact left ∧ ExactBeside right path

variable {shape left right middle part : Shape} {addr : NodePtr} {path : List Side}

theorem Exact.cached (exact : Exact shape) : (cached shape).toNat = shape.height := by
  cases shape with
  | nil => rfl
  | node cell left right => exact exact.1

theorem toNat_btMax (a b : BitVec 32) : (btMax a b).toNat = max a.toNat b.toNat := by
  simp only [btMax, BitVec.lt_def]
  split <;> omega

theorem numNodes_eq_length_addrs (shape : Shape) : shape.numNodes = (addrs shape).length := by
  rw [addrs, List.length_map, length_inorder]

theorem Exact.join (exactLeft : Exact left) (exactRight : Exact right)
    (room : left.numNodes + right.numNodes + 1 < pathBound) : Exact (join addr left right) := by
  refine ⟨?_, exactLeft, exactRight⟩
  have leftHeight := left.height_le_numNodes
  have rightHeight := right.height_le_numNodes
  have one : BitVec.toNat (1 : BitVec 32) = 1 := rfl
  rw [BitVec.toNat_add, toNat_btMax, exactLeft.cached, exactRight.cached, one]
  simp only [pathBound] at room
  apply Nat.mod_eq_of_lt
  omega

@[simp]
theorem height_join (addr : NodePtr) (left right : Shape) :
    (Shape.join addr left right).height = max left.height right.height + 1 :=
  rfl

@[simp]
theorem numNodes_join (addr : NodePtr) (left right : Shape) :
    (Shape.join addr left right).numNodes = left.numNodes + right.numNodes + 1 :=
  rfl

/-- The test of `bt_balance`. -/
theorem Exact.higher_iff (exactLeft : Exact left) (exactRight : Exact right) :
    (Shape.cached right < Shape.cached left ∧ 1 < Shape.cached left - Shape.cached right) ↔
      right.height + 1 < left.height := by
  have one : BitVec.toNat (1 : BitVec 32) = 1 := rfl
  rw [← exactLeft.cached, ← exactRight.cached, BitVec.lt_def, BitVec.lt_def, one]
  constructor
  · rintro ⟨less, apart⟩
    rw [BitVec.toNat_sub_of_le (BitVec.le_def.mpr (le_of_lt less))] at apart
    omega
  · intro higher
    have less : (Shape.cached right).toNat < (Shape.cached left).toNat := by omega
    refine ⟨less, ?_⟩
    rw [BitVec.toNat_sub_of_le (BitVec.le_def.mpr (le_of_lt less))]
    omega

/-- What `bt_balance` does to a node whose subtrees have exact depths. -/
theorem balance_cases (cell : TreeCell) (exactLeft : Exact left) (exactRight : Exact right) :
    (∃ x outer inner, left = node x outer inner ∧ right.height + 1 < left.height ∧
      balance (node cell left right) = join x.addr outer (join cell.addr inner right)) ∨
    (∃ x inner outer, right = node x inner outer ∧ left.height + 1 < right.height ∧
      balance (node cell left right) = join x.addr (join cell.addr left inner) outer) ∨
    (left.height ≤ right.height + 1 ∧ right.height ≤ left.height + 1 ∧
      balance (node cell left right) = join cell.addr left right) := by
  simp only [balance, exactLeft.higher_iff exactRight, exactRight.higher_iff exactLeft]
  by_cases leftHigher : right.height + 1 < left.height
  · cases left with
    | nil => simp at leftHigher
    | node x outer inner =>
        refine Or.inl ⟨x, outer, inner, rfl, leftHigher, ?_⟩
        rw [if_pos leftHigher]
        rfl
  · by_cases rightHigher : left.height + 1 < right.height
    · cases right with
      | nil => simp at rightHigher
      | node x inner outer =>
          refine Or.inr (Or.inl ⟨x, inner, outer, rfl, rightHigher, ?_⟩)
          rw [if_neg leftHigher, if_pos rightHigher]
          rfl
    · refine Or.inr (Or.inr ⟨by omega, by omega, ?_⟩)
      rw [if_neg leftHigher, if_neg rightHigher]

/-- The depths at the root are computed again, and the height does not grow. -/
theorem exact_balance (cell : TreeCell) (exactLeft : Exact left) (exactRight : Exact right)
    (room : left.numNodes + right.numNodes + 1 < pathBound) :
    Exact (balance (node cell left right)) ∧
      (balance (node cell left right)).height ≤ max left.height right.height + 1 := by
  rcases balance_cases cell exactLeft exactRight with
    ⟨x, outer, inner, rfl, higher, balanced⟩ | ⟨x, inner, outer, rfl, higher, balanced⟩ |
    ⟨_, _, balanced⟩
  · rcases exactLeft with ⟨_, exactOuter, exactInner⟩
    simp only [numNodes, height] at room higher
    rw [balanced]
    refine ⟨exactOuter.join (exactInner.join exactRight ?_) ?_, ?_⟩
    · omega
    · simp only [numNodes_join]
      omega
    · simp only [height_join, height]
      omega
  · rcases exactRight with ⟨_, exactInner, exactOuter⟩
    simp only [numNodes, height] at room higher
    rw [balanced]
    refine ⟨(exactLeft.join exactInner ?_).join exactOuter ?_, ?_⟩
    · omega
    · simp only [numNodes_join]
      omega
    · simp only [height_join, height]
      omega
  · rw [balanced]
    exact ⟨exactLeft.join exactRight room, le_of_eq (height_join ..)⟩

@[simp]
theorem numNodes_rebalance (shape : Shape) (path : List Side) :
    (rebalance shape path).numNodes = shape.numNodes := by
  rw [numNodes_eq_length_addrs, numNodes_eq_length_addrs, addrs_rebalance]

@[simp]
theorem numNodes_sink (left right : Shape) :
    (sink left right).numNodes = left.numNodes + right.numNodes := by
  simp only [numNodes_eq_length_addrs, addrs_sink, List.length_append]

/-- A path that fits into the buffer leaves exact depths behind. -/
theorem exact_rebalance (beside : ExactBeside shape path) (short : path.length < 64)
    (room : shape.numNodes < pathBound) : Exact (rebalance shape path) := by
  induction path generalizing shape with
  | nil =>
      cases shape with
      | nil => trivial
      | node cell left right => exact (exact_balance cell beside.1 beside.2 room).1
  | cons side path ih =>
      rw [List.length_cons] at short
      cases shape with
      | nil => cases side <;> trivial
      | node cell left right =>
          rw [numNodes] at room
          cases side with
          | left =>
              have exactLeft := ih beside.1 (by omega) (by omega)
              rw [rebalance, if_pos short]
              exact (exact_balance cell exactLeft beside.2
                (by rw [numNodes_rebalance]; exact room)).1
          | right =>
              have exactRight := ih beside.2 (by omega) (by omega)
              rw [rebalance, if_pos short]
              exact (exact_balance cell beside.1 exactRight
                (by rw [numNodes_rebalance]; exact room)).1

theorem exactBeside_of_exact (exact : Exact shape) (path : List Side) : ExactBeside shape path := by
  induction path generalizing shape with
  | nil =>
      cases shape with
      | nil => trivial
      | node cell left right => exact exact.2
  | cons side path ih =>
      cases shape with
      | nil => trivial
      | node cell left right =>
          cases side with
          | left => exact ⟨ih exact.2.1, exact.2.2⟩
          | right => exact ⟨exact.2.1, ih exact.2.2⟩

theorem exactBeside_graft (exact : Exact shape) (reaches : shape.Reaches path)
    (beside : ExactBeside part []) : ExactBeside (shape.graft path part) path := by
  induction path generalizing shape with
  | nil => simpa using beside
  | cons side path ih =>
      cases shape with
      | nil => exact reaches.elim
      | node cell left right =>
          cases side with
          | left => exact ⟨ih exact.2.1 reaches, exact.2.2⟩
          | right => exact ⟨exact.2.1, ih exact.2.2 reaches⟩

theorem exactBeside_sink (exactLeft : Exact left) (exactRight : Exact right) :
    ExactBeside (sink left right) (sinkPath left right) := by
  fun_induction sink left right with
  | case1 right =>
      rw [sinkPath]
      exact exactBeside_of_exact exactRight []
  | case2 left nonempty =>
      have atEnd : sinkPath left nil = [] := by cases left <;> simp [sinkPath]
      rw [atEnd]
      exact exactBeside_of_exact exactLeft []
  | case3 l leftOuter leftInner r rightInner rightOuter lower ih =>
      rw [sinkPath, if_pos lower]
      exact ⟨ih exactLeft exactRight.2.1, exactRight.2.2⟩
  | case4 l leftOuter leftInner r rightInner rightOuter higher ih =>
      rw [sinkPath, if_neg higher]
      exact ⟨exactLeft.2.1, ih exactLeft.2.2 exactRight⟩

theorem exact_removed (exactLeft : Exact left) (exactRight : Exact right)
    (short : (sinkPath left right).length < 64)
    (room : left.numNodes + right.numNodes < pathBound) : Exact (removed left right) := by
  apply exact_rebalance (exactBeside_sink exactLeft exactRight) short
  rw [numNodes_sink]
  exact room

/-- One level of the way down of the victim, as long as the buffer holds it. -/
theorem removed_cases {l r : TreeCell} {leftOuter leftInner rightInner rightOuter : Shape}
    (exactLeft : Exact (node l leftOuter leftInner))
    (exactRight : Exact (node r rightInner rightOuter))
    (short : (sinkPath (node l leftOuter leftInner) (node r rightInner rightOuter)).length < 64) :
    ((node l leftOuter leftInner).height ≤ (node r rightInner rightOuter).height ∧
      (sinkPath (node l leftOuter leftInner) rightInner).length < 64 ∧
      ∃ cell, removed (node l leftOuter leftInner) (node r rightInner rightOuter) =
        balance (node cell (removed (node l leftOuter leftInner) rightInner) rightOuter)) ∨
    ((node r rightInner rightOuter).height < (node l leftOuter leftInner).height ∧
      (sinkPath leftInner (node r rightInner rightOuter)).length < 64 ∧
      ∃ cell, removed (node l leftOuter leftInner) (node r rightInner rightOuter) =
        balance (node cell leftOuter (removed leftInner (node r rightInner rightOuter)))) := by
  have lower_iff : l.depth ≤ r.depth ↔
      (node l leftOuter leftInner).height ≤ (node r rightInner rightOuter).height := by
    rw [BitVec.le_def, exactLeft.1, exactRight.1, height, height]
  by_cases lower : l.depth ≤ r.depth
  · left
    rw [sinkPath, if_pos lower, List.length_cons] at short
    refine ⟨lower_iff.mp lower, by omega, ?_⟩
    rw [removed, sink, sinkPath, if_pos lower, if_pos lower, rebalance, if_pos short]
    exact ⟨_, rfl⟩
  · right
    rw [sinkPath, if_neg lower, List.length_cons] at short
    refine ⟨not_le.mp (lower_iff.not.mp lower), by omega, ?_⟩
    rw [removed, sink, sinkPath, if_neg lower, if_neg lower, rebalance, if_pos short]
    exact ⟨_, rfl⟩

/-- Two rotations in a row, the inner one to the left and the outer one to the right. -/
theorem height_balance_balance {x y : TreeCell} {outer inner : Shape} {bound : ℕ}
    (exactOuter : Exact outer) (exactInner : Exact inner) (exactRight : Exact right)
    (room : outer.numNodes + inner.numNodes + right.numNodes + 2 < pathBound)
    (outerLow : outer.height < bound) (innerLow : inner.height ≤ bound + 1)
    (rightLow : right.height < bound) :
    (balance (node x (balance (node y outer inner)) right)).height ≤ bound + 2 := by
  have turned := exact_balance y exactOuter exactInner (by omega)
  have count : (balance (node y outer inner)).numNodes = outer.numNodes + inner.numNodes + 1 := by
    rw [numNodes_eq_length_addrs, addrs_balance, ← numNodes_eq_length_addrs, numNodes]
  have whole := exact_balance x turned.1 exactRight (by omega)
  by_cases low : (balance (node y outer inner)).height ≤ bound + 1
  · omega
  · rcases balance_cases y exactOuter exactInner with
      ⟨_, _, _, rfl, higher, balanced⟩ | ⟨z, near, far, rfl, higher, balanced⟩ | ⟨_, _, balanced⟩
    · simp only [balanced, height_join, height] at low outerLow higher
      omega
    · rcases balance_cases x turned.1 exactRight with
        ⟨w, first, second, isNode, _, balancedToo⟩ | ⟨_, _, _, rfl, higherToo, _⟩ | ⟨close, _, _⟩
      · rw [balanced] at isNode
        cases isNode
        rw [balancedToo]
        simp only [height_join, height] at innerLow outerLow rightLow ⊢
        omega
      · simp only [balanced, height_join, height] at low higherToo rightLow innerLow
        omega
      · simp only [balanced, height_join, height] at low close rightLow innerLow
        omega
    · simp only [balanced, height_join] at low
      omega

theorem height_balance_le (exact : Exact shape) (room : shape.numNodes < pathBound) :
    (balance shape).height ≤ shape.height := by
  cases shape with
  | nil => exact le_refl _
  | node cell left right => exact (exact_balance cell exact.2.1 exact.2.2 room).2

@[simp]
theorem numNodes_removed (left right : Shape) :
    (removed left right).numNodes = left.numNodes + right.numNodes := by
  rw [removed, numNodes_rebalance, numNodes_sink]

/-- A node with at most one subtree. -/
theorem height_removed_of_nil (exactLeft : Exact left) (exactRight : Exact right)
    (room : left.numNodes + right.numNodes < pathBound) (single : left = nil ∨ right = nil) :
    (removed left right).height ≤ max left.height right.height := by
  rcases single with rfl | rfl
  · have isRight : removed nil right = balance right := by simp [removed, sink, sinkPath, rebalance]
    have low := height_balance_le exactRight (by simpa [numNodes] using room)
    rw [isRight]
    omega
  · have isLeft : removed left nil = balance left := by
      cases left <;> simp [removed, sink, sinkPath, rebalance]
    have low := height_balance_le exactLeft (by simpa [numNodes] using room)
    rw [isLeft]
    omega

/-- Subtrees of equal height: the victim goes down on the left and then on the right. -/
theorem height_removed_of_equal {l r : TreeCell} (cell : TreeCell)
    {leftOuter leftInner rightInner rightOuter : Shape}
    (exactLeft : Exact (node l leftOuter leftInner))
    (exactRight : Exact (node r rightInner rightOuter))
    (room : (node l leftOuter leftInner).numNodes + (node r rightInner rightOuter).numNodes <
      pathBound)
    (equal : (node l leftOuter leftInner).height = (node r rightInner rightOuter).height)
    (short : (sinkPath (node l leftOuter leftInner) rightInner).length < 64)
    (inner : (sinkPath leftInner rightInner).length < 64 →
      (removed leftInner rightInner).height ≤ max leftInner.height rightInner.height + 2) :
    (balance (node cell (removed (node l leftOuter leftInner) rightInner) rightOuter)).height ≤
      (node l leftOuter leftInner).height + 2 := by
  rcases exactRight with ⟨_, exactInner, exactOuter⟩
  have roomBelow : (node l leftOuter leftInner).numNodes + rightInner.numNodes < pathBound := by
    simp only [numNodes] at room ⊢
    omega
  cases rightInner with
  | nil =>
      have exactBelow := exact_removed exactLeft exactInner short roomBelow
      have below := height_removed_of_nil exactLeft exactInner roomBelow (Or.inr rfl)
      have low := (exact_balance cell exactBelow exactOuter
        (by simp only [numNodes, numNodes_removed] at room ⊢; omega)).2
      simp only [height] at equal below low ⊢
      omega
  | node s near far =>
      rcases removed_cases exactLeft exactInner short with
        ⟨notLower, _, _, _⟩ | ⟨_, shortInner, cellInner, isInner⟩
      · simp only [height] at equal notLower
        omega
      · have below := inner shortInner
        have exactInside := exact_removed exactLeft.2.2 exactInner shortInner
          (by simp only [numNodes] at room ⊢; omega)
        rw [isInner]
        apply height_balance_balance exactLeft.2.1 exactInside exactOuter
        · simp only [numNodes, numNodes_removed] at room ⊢
          omega
        · simp only [height]
          omega
        · simp only [height] at equal below ⊢
          omega
        · simp only [height] at equal ⊢
          omega

/-- The removal of a node makes its subtree at most one level higher. -/
theorem height_removed_le (exactLeft : Exact left) (exactRight : Exact right)
    (short : (sinkPath left right).length < 64)
    (room : left.numNodes + right.numNodes < pathBound) :
    (removed left right).height ≤ max left.height right.height + 2 := by
  induction size : left.numNodes + right.numNodes using Nat.strong_induction_on
    generalizing left right with
  | _ size ih =>
      subst size
      cases left with
      | nil =>
          have low := height_removed_of_nil exactLeft exactRight room (Or.inl rfl)
          omega
      | node l leftOuter leftInner =>
          cases right with
          | nil =>
              have low := height_removed_of_nil exactLeft exactRight room (Or.inr rfl)
              omega
          | node r rightInner rightOuter =>
              rcases removed_cases exactLeft exactRight short with
                ⟨lower, shortBelow, cell, isRemoved⟩ | ⟨higher, shortBelow, cell, isRemoved⟩
              · by_cases less : (node l leftOuter leftInner).height <
                    (node r rightInner rightOuter).height
                · have roomBelow : (node l leftOuter leftInner).numNodes + rightInner.numNodes <
                      pathBound := by
                    simp only [numNodes] at room ⊢
                    omega
                  have exactBelow := exact_removed exactLeft exactRight.2.1 shortBelow roomBelow
                  have low := (exact_balance cell exactBelow exactRight.2.2
                    (by simp only [numNodes, numNodes_removed] at room ⊢; omega)).2
                  have below := ih _ (by simp only [numNodes]; omega) exactLeft exactRight.2.1
                    shortBelow roomBelow rfl
                  rw [isRemoved]
                  simp only [height] at less below low ⊢
                  omega
                · have low := height_removed_of_equal cell exactLeft exactRight room
                    (by omega) shortBelow fun shortInner =>
                    ih _ (by simp only [numNodes]; omega) exactLeft.2.2 exactRight.2.1 shortInner
                      (by simp only [numNodes] at room ⊢; omega) rfl
                  rw [isRemoved]
                  omega
              · have roomBelow : leftInner.numNodes + (node r rightInner rightOuter).numNodes <
                    pathBound := by
                  simp only [numNodes] at room ⊢
                  omega
                have exactBelow := exact_removed exactLeft.2.2 exactRight shortBelow roomBelow
                have low := (exact_balance cell exactLeft.2.1 exactBelow
                  (by simp only [numNodes, numNodes_removed] at room ⊢; omega)).2
                have below := ih _ (by simp only [numNodes]; omega) exactLeft.2.2 exactRight
                  shortBelow roomBelow rfl
                rw [isRemoved]
                simp only [height] at higher below low ⊢
                omega

/-- The subtree beside the end of a path, on the other side of the last turn. -/
def beside : Shape → List Side → Shape
  | node _ _ right, [.left] => right
  | node _ left _, [.right] => left
  | node _ left _, .left :: path => beside left path
  | node _ _ right, .right :: path => beside right path
  | _, _ => nil

/-- The depths above a position stay exact if the height next above it does not change. -/
theorem exact_graft (exact : Exact shape) (exactPart : Exact part) (reaches : shape.Reaches path)
    (nonempty : path ≠ [])
    (sameHeight : max part.height (beside shape path).height =
      max (shape.subtree path).height (beside shape path).height) :
    Exact (shape.graft path part) ∧ (shape.graft path part).height = shape.height := by
  induction path generalizing shape with
  | nil => exact absurd rfl nonempty
  | cons side path ih =>
      cases shape with
      | nil => exact reaches.elim
      | node cell left right =>
          rcases exact with ⟨isDepth, exactLeft, exactRight⟩
          cases path with
          | nil =>
              cases side with
              | left =>
                  simp only [beside, subtree, subtree_nil_path] at sameHeight
                  simp only [graft, graft_nil_path, height, sameHeight]
                  exact ⟨⟨by rw [isDepth, sameHeight], exactPart, exactRight⟩, trivial⟩
              | right =>
                  simp only [beside, subtree, subtree_nil_path] at sameHeight
                  rw [max_comm, max_comm right.height] at sameHeight
                  simp only [graft, graft_nil_path, height, sameHeight]
                  exact ⟨⟨by rw [isDepth, sameHeight], exactLeft, exactPart⟩, trivial⟩
          | cons next path =>
              cases side with
              | left =>
                  rcases ih exactLeft reaches (by simp) sameHeight with ⟨exactGraft, kept⟩
                  refine ⟨⟨?_, exactGraft, exactRight⟩, ?_⟩
                  · rw [isDepth, kept]
                  · rw [graft, height, height, kept]
              | right =>
                  rcases ih exactRight reaches (by simp) sameHeight with ⟨exactGraft, kept⟩
                  refine ⟨⟨?_, exactLeft, exactGraft⟩, ?_⟩
                  · rw [isDepth, kept]
                  · rw [graft, height, height, kept]

/-- Otherwise the node next above keeps a depth that is not its height. -/
theorem Exact.sameHeight (exact : Exact shape) (reaches : shape.Reaches path)
    (nonempty : path ≠ []) (exactGraft : Exact (shape.graft path part)) :
    max part.height (beside shape path).height =
      max (shape.subtree path).height (beside shape path).height := by
  induction path generalizing shape with
  | nil => exact absurd rfl nonempty
  | cons side path ih =>
      cases shape with
      | nil => exact reaches.elim
      | node cell left right =>
          rcases exact with ⟨isDepth, exactLeft, exactRight⟩
          cases path with
          | nil =>
              cases side with
              | left =>
                  rcases exactGraft with ⟨isDepthToo, _, _⟩
                  simp only [graft_nil_path] at isDepthToo
                  simp only [beside, subtree, subtree_nil_path]
                  omega
              | right =>
                  rcases exactGraft with ⟨isDepthToo, _, _⟩
                  simp only [graft_nil_path] at isDepthToo
                  simp only [beside, subtree, subtree_nil_path]
                  omega
          | cons next path =>
              cases side with
              | left => exact ih exactLeft reaches (by simp) exactGraft.2.1
              | right => exact ih exactRight reaches (by simp) exactGraft.2.2

/-- The heights of a tree and of its two subtrees. -/
structure Heights where
  whole : ℕ
  left : ℕ
  right : ℕ

/-- The heights that are read off a tree. -/
def heightsOf (shape : Shape) : Heights :=
  ⟨shape.height, shape.left.height, shape.right.height⟩

/-- The heights behind the rebalancing of a node above two trees with these heights. -/
def Heights.balance (left right : Heights) : Heights :=
  if right.whole + 1 < left.whole then
    ⟨max left.left (max left.right right.whole + 1) + 1, left.left,
      max left.right right.whole + 1⟩
  else if left.whole + 1 < right.whole then
    ⟨max (max left.whole right.left + 1) right.right + 1, max left.whole right.left + 1,
      right.right⟩
  else ⟨max left.whole right.whole + 1, left.whole, right.whole⟩

/-- The heights of a tree that is put in the place of its parent. -/
def heightsMoved : Shape → Heights
  | nil => ⟨0, 0, 0⟩
  | node _ left right => (heightsOf left).balance (heightsOf right)

/-- The heights that are left without the node above two trees, read off the trees along their
inner sides: of the two the higher one, or the right one, becomes the upper one, and its inner
subtree is joined with the other. -/
def heightsWithout : Shape → Shape → Heights
  | nil, right => heightsMoved right
  | left, nil => heightsMoved left
  | node l leftOuter leftInner, node r rightInner rightOuter =>
      if (node l leftOuter leftInner).height ≤ (node r rightInner rightOuter).height then
        (heightsWithout (node l leftOuter leftInner) rightInner).balance (heightsOf rightOuter)
      else
        (heightsOf leftOuter).balance (heightsWithout leftInner (node r rightInner rightOuter))
termination_by left right => left.numNodes + right.numNodes
decreasing_by all_goals simp only [numNodes]; omega

theorem heightsOf_balance (cell : TreeCell) (exactLeft : Exact left) (exactRight : Exact right) :
    heightsOf (balance (node cell left right)) = (heightsOf left).balance (heightsOf right) := by
  rcases balance_cases cell exactLeft exactRight with
    ⟨x, outer, inner, rfl, higher, balanced⟩ | ⟨x, inner, outer, rfl, higher, balanced⟩ |
    ⟨leftLow, rightLow, balanced⟩
  · have leftHigher : (heightsOf right).whole + 1 < (heightsOf (node x outer inner)).whole :=
      higher
    rw [balanced, Heights.balance, if_pos leftHigher]
    rfl
  · have rightHigher : (heightsOf left).whole + 1 < (heightsOf (node x inner outer)).whole :=
      higher
    rw [balanced, Heights.balance, if_neg (by omega), if_pos rightHigher]
    rfl
  · rw [balanced, Heights.balance, if_neg (by simp only [heightsOf]; omega),
      if_neg (by simp only [heightsOf]; omega)]
    rfl

theorem heightsOf_balance_moved (exact : Exact shape) :
    heightsOf (balance shape) = heightsMoved shape := by
  cases shape with
  | nil => rfl
  | node cell left right => exact heightsOf_balance cell exact.2.1 exact.2.2

/-- `bt_remove` leaves these heights. -/
theorem heightsOf_removed (exactLeft : Exact left) (exactRight : Exact right)
    (short : (sinkPath left right).length < 64)
    (room : left.numNodes + right.numNodes < pathBound) :
    heightsOf (removed left right) = heightsWithout left right := by
  fun_induction heightsWithout left right with
  | case1 right =>
      have isRight : removed nil right = balance right := by
        simp [removed, sink, sinkPath, rebalance]
      rw [isRight, heightsOf_balance_moved exactRight]
  | case2 left nonempty =>
      have isLeft : removed left nil = balance left := by
        cases left <;> simp [removed, sink, sinkPath, rebalance]
      rw [isLeft, heightsOf_balance_moved exactLeft]
  | case3 l leftOuter leftInner r rightInner rightOuter lower ih =>
      rcases removed_cases exactLeft exactRight short with
        ⟨_, shortBelow, cell, isRemoved⟩ | ⟨higher, _, _, _⟩
      · have roomBelow : (node l leftOuter leftInner).numNodes + rightInner.numNodes <
            pathBound := by
          simp only [numNodes] at room ⊢
          omega
        have exactBelow := exact_removed exactLeft exactRight.2.1 shortBelow roomBelow
        rw [isRemoved, heightsOf_balance cell exactBelow exactRight.2.2,
          ih exactLeft exactRight.2.1 shortBelow roomBelow]
      · exact absurd lower (not_le.mpr higher)
  | case4 l leftOuter leftInner r rightInner rightOuter notLower ih =>
      rcases removed_cases exactLeft exactRight short with
        ⟨lower, _, _, _⟩ | ⟨_, shortBelow, cell, isRemoved⟩
      · exact absurd lower notLower
      · have roomBelow : leftInner.numNodes + (node r rightInner rightOuter).numNodes <
            pathBound := by
          simp only [numNodes] at room ⊢
          omega
        have exactBelow := exact_removed exactLeft.2.2 exactRight shortBelow roomBelow
        rw [isRemoved, heightsOf_balance cell exactLeft.2.1 exactBelow,
          ih exactLeft.2.2 exactRight shortBelow roomBelow]

/-- The nodes above a slot do not see what `bt_remove` does below it: the slot is the root
pointer, or the higher one of the subtree in the slot and the subtree beside it keeps its height
without the node of the slot. -/
def Hidden (shape : Shape) (path : List Side) : Prop :=
  path = [] ∨
    max (heightsWithout (shape.subtree path).left (shape.subtree path).right).whole
        (beside shape path).height =
      max (shape.subtree path).height (beside shape path).height

theorem exact_subtree (exact : Exact shape) (path : List Side) : Exact (shape.subtree path) := by
  fun_induction shape.subtree path with
  | case1 shape => exact exact
  | case2 => trivial
  | case3 cell left right path ih => exact ih exact.2.1
  | case4 cell left right path ih => exact ih exact.2.2

theorem numNodes_subtree_le (shape : Shape) (path : List Side) :
    (shape.subtree path).numNodes ≤ shape.numNodes := by
  fun_induction shape.subtree path with
  | case1 shape => exact le_refl _
  | case2 => exact le_refl _
  | case3 cell left right path ih =>
      rw [numNodes]
      omega
  | case4 cell left right path ih =>
      rw [numNodes]
      omega

theorem hidden_iff (exact : Exact shape) {cell : TreeCell}
    (present : shape.subtree path = node cell left right)
    (short : (sinkPath left right).length < 64) (room : shape.numNodes < pathBound) :
    Hidden shape path ↔ path = [] ∨
      max (removed left right).height (beside shape path).height =
        max (max left.height right.height + 1) (beside shape path).height := by
  have exactThere := exact_subtree exact path
  have count := numNodes_subtree_le shape path
  rw [present] at exactThere count
  rw [numNodes] at count
  have roomThere : left.numNodes + right.numNodes < pathBound := by omega
  have heights : (removed left right).height = (heightsWithout left right).whole :=
    congrArg Heights.whole (heightsOf_removed exactThere.2.1 exactThere.2.2 short roomThere)
  rw [Hidden, present, heights]
  rfl

/-- The depths are exact after the removal of a node if and only if it is hidden. -/
theorem exact_graft_removed (exact : Exact shape) (reaches : shape.Reaches path) {cell : TreeCell}
    (present : shape.subtree path = node cell left right)
    (short : (sinkPath left right).length < 64) (room : shape.numNodes < pathBound) :
    Exact (shape.graft path (removed left right)) ↔ Hidden shape path := by
  have exactThere := exact_subtree exact path
  have count := numNodes_subtree_le shape path
  rw [present] at exactThere count
  rw [numNodes] at count
  have exactPart := exact_removed exactThere.2.1 exactThere.2.2 short (by omega)
  rw [hidden_iff exact present short room]
  by_cases atRoot : path = []
  · subst atRoot
    simpa using exactPart
  · rw [or_iff_right atRoot]
    constructor
    · intro exactGraft
      have sameHeight := exact.sameHeight reaches atRoot exactGraft
      rwa [present] at sameHeight
    · intro sameHeight
      refine (exact_graft exact exactPart reaches atRoot ?_).1
      rwa [present]

/-- A removal beside a subtree that is higher is hidden. -/
theorem hidden_of_lower (exact : Exact shape) {cell : TreeCell}
    (present : shape.subtree path = node cell left right)
    (short : (sinkPath left right).length < 64) (room : shape.numNodes < pathBound)
    (lower : max left.height right.height + 1 < (beside shape path).height) :
    Hidden shape path := by
  have exactThere := exact_subtree exact path
  have count := numNodes_subtree_le shape path
  rw [present] at exactThere count
  rw [numNodes] at count
  have low := height_removed_le exactThere.2.1 exactThere.2.2 short (by omega)
  rw [hidden_iff exact present short room]
  right
  omega

end Shape

namespace TreeOp

open BinaryTree Shape

variable {Value : Type}

/-- The paths of a call fit into the path buffer. -/
def ShortPaths (memory : TreeMemory Value) (shape : Shape) (op : TreeOp Value) : Prop :=
  (op.path memory shape).length < 64 ∧
    ∀ K cell left right, op = remove K →
      shape.subtree (op.path memory shape) = node cell left right →
      (sinkPath left right).length < 64

/-- A removal is hidden from the nodes above its slot. -/
def HiddenRemoval (memory : TreeMemory Value) (shape : Shape) (op : TreeOp Value) : Prop :=
  ∀ K, op = remove K → Hidden shape (op.path memory shape)

/-- A new part at the end of the path of a call, and the way back. -/
theorem exact_rebalance_graft {memory : TreeMemory Value} {shape part : Shape} {op : TreeOp Value}
    (exact : Exact shape) (short : (op.path memory shape).length < 64)
    (beside : ExactBeside part [])
    (room : (rebalance (shape.graft (op.path memory shape) part)
      (op.path memory shape)).numNodes < pathBound) :
    Exact (rebalance (shape.graft (op.path memory shape) part) (op.path memory shape)) := by
  rw [numNodes_rebalance] at room
  exact exact_rebalance (exactBeside_graft exact (reaches_way ..) beside) short room

theorem exact_inserted {memory : TreeMemory Value} {shape : Shape} {op : TreeOp Value}
    {it : NodePtr} (isKey : (op.prepared memory).K it = op.key) (exact : Exact shape)
    (short : (op.path memory shape).length < 64)
    (room : (inserted (op.prepared memory) it shape).numNodes < pathBound) :
    Exact (inserted (op.prepared memory) it shape) := by
  rw [inserted, isKey] at room ⊢
  exact exact_rebalance_graft exact short ⟨trivial, trivial⟩ room

theorem exact_replaced {memory : TreeMemory Value} {shape left right : Shape} {op : TreeOp Value}
    {it : NodePtr} {cell : TreeCell} (isKey : (op.prepared memory).K it = op.key)
    (exact : Exact shape) (short : (op.path memory shape).length < 64)
    (present : shape.subtree (op.path memory shape) = node cell left right)
    (room : (replaced (op.prepared memory) it cell left right shape).numNodes < pathBound) :
    Exact (replaced (op.prepared memory) it cell left right shape) := by
  have exactThere := exact_subtree exact (op.path memory shape)
  rw [present] at exactThere
  rw [replaced, isKey] at room ⊢
  exact exact_rebalance_graft exact short ⟨exactThere.2.1, exactThere.2.2⟩ room

theorem exact_reshape {memory : TreeMemory Value} {shape : Shape} {op : TreeOp Value}
    (exact : Exact shape) (room : shape.numNodes < pathBound)
    (roomAfter : (op.reshape memory shape).numNodes < pathBound)
    (short : op.ShortPaths memory shape) (hidden : op.HiddenRemoval memory shape) :
    Exact (op.reshape memory shape) := by
  cases op with
  | insert it K V =>
      cases found : shape.subtree ((insert it K V).path memory shape) with
      | nil =>
          simp only [reshape, found] at roomAfter ⊢
          exact exact_inserted (Function.update_self ..) exact short.1 roomAfter
      | node cell left right =>
          simp only [reshape, found]
          exact exact
  | put it K V =>
      cases found : shape.subtree ((put it K V).path memory shape) with
      | nil =>
          simp only [reshape, found] at roomAfter ⊢
          exact exact_inserted (Function.update_self ..) exact short.1 roomAfter
      | node cell left right =>
          simp only [reshape, found] at roomAfter ⊢
          exact exact_replaced (Function.update_self ..) exact short.1 found roomAfter
  | putIp it K V =>
      cases found : shape.subtree ((putIp it K V).path memory shape) with
      | nil =>
          simp only [reshape, found] at roomAfter ⊢
          exact exact_inserted (Function.update_self ..) exact short.1 roomAfter
      | node cell left right =>
          simp only [reshape, found]
          exact exact_rebalance (exactBeside_of_exact exact _) short.1 room
  | remove K =>
      cases found : shape.subtree ((remove K : TreeOp Value).path memory shape) with
      | nil =>
          simp only [reshape, found]
          exact exact
      | node cell left right =>
          simp only [reshape, found]
          exact (exact_graft_removed exact (reaches_way ..) found
            (short.2 K cell left right rfl found) room).mpr (hidden K rfl)

end TreeOp

section Runs

open Shape

variable {Value : Type}

/-- The depth fields of the tree are the heights of the subtrees. -/
def ExactDepths (memory : TreeMemory Value) : Prop :=
  ∃ shape, Holds memory shape (memory.link .root) ∧ Exact shape

theorem exactShape_of_reachable {state : TreeMemory Value × Contents Value}
    (reachable : (((treeSystem Value).restrict (OnTree TreeOp.ShortPaths)).restrict
      (OnTree TreeOp.HiddenRemoval)).Reachable state) :
    ∃ shape, Represents state.1 state.2 shape ∧ Exact shape := by
  apply reachable.invariant
  · rintro ⟨memory, contents⟩ ⟨empty, rfl⟩
    exact ⟨BinaryTree.nil, ⟨empty, List.Pairwise.nil, by simp⟩, trivial⟩
  · rintro state op next ⟨shape, represents, exact⟩ ⟨⟨step, short⟩, hidden⟩
    have represented := represents.step step
    refine ⟨_, represented, ?_⟩
    apply TreeOp.exact_reshape exact
    · exact numNodes_lt_pathBound represents.tree.placed.nodup
    · exact numNodes_lt_pathBound represented.tree.placed.nodup
    · exact short shape represents.holds
    · exact hidden shape represents.holds

/-- The depth fields stay exact in every run whose paths fit into the buffer and whose removals
are hidden from the nodes above. -/
theorem exactDepths_of_reachable {state : TreeMemory Value × Contents Value}
    (reachable : (((treeSystem Value).restrict (OnTree TreeOp.ShortPaths)).restrict
      (OnTree TreeOp.HiddenRemoval)).Reachable state) : ExactDepths state.1 := by
  rcases exactShape_of_reachable reachable with ⟨shape, represents, exact⟩
  exact ⟨shape, represents.holds, exact⟩

theorem length_way_le_height (memory : TreeMemory Value) (K : BitVec 32) (shape : Shape) :
    (way memory K shape).length ≤ shape.height :=
  BinaryTree.length_route_le_height shape

theorem length_sinkPath_le (left right : Shape) :
    (sinkPath left right).length ≤ left.numNodes + right.numNodes := by
  fun_induction sinkPath left right with
  | case1 right => simp
  | case2 left nonempty => simp
  | case3 l leftOuter leftInner r rightInner rightOuter lower ih =>
      simp only [List.length_cons, BinaryTree.numNodes] at ih ⊢
      omega
  | case4 l leftOuter leftInner r rightInner rightOuter higher ih =>
      simp only [List.length_cons, BinaryTree.numNodes] at ih ⊢
      omega

/-- No path is long in a small tree. -/
theorem TreeOp.shortPaths_of_few (memory : TreeMemory Value) {shape : Shape} (op : TreeOp Value)
    (few : shape.numNodes < 64) : op.ShortPaths memory shape := by
  have onWay := length_way_le_height (op.prepared memory) op.key shape
  have low := shape.height_le_numNodes
  refine ⟨lt_of_le_of_lt (onWay.trans low) few, ?_⟩
  intro K cell left right _ present
  have below := numNodes_subtree_le shape (op.path memory shape)
  have down := length_sinkPath_le left right
  rw [present, BinaryTree.numNodes] at below
  omega

/-- A removal that is not hidden leaves a wrong depth. -/
theorem not_exactDepths_of_not_hidden {state next : TreeMemory Value × Contents Value}
    {op : TreeOp Value}
    (reachable : (((treeSystem Value).restrict (OnTree TreeOp.ShortPaths)).restrict
      (OnTree TreeOp.HiddenRemoval)).Reachable state)
    (step : ((treeSystem Value).restrict (OnTree TreeOp.ShortPaths)).step state op next)
    (notHidden : ¬OnTree TreeOp.HiddenRemoval state op next) : ¬ExactDepths next.1 := by
  rcases exactShape_of_reachable reachable with ⟨shape, represents, exact⟩
  rcases step with ⟨step, short⟩
  simp only [OnTree, TreeOp.HiddenRemoval, not_forall] at notHidden
  rcases notHidden with ⟨other, holds, K, rfl, visible⟩
  rw [← represents.holds.unique holds] at visible
  have represented := represents.step step
  rintro ⟨after, holdsAfter, exactAfter⟩
  rw [← represented.holds.unique holdsAfter] at exactAfter
  cases found : shape.subtree ((TreeOp.remove K : TreeOp Value).path state.1 shape) with
  | nil =>
      apply visible
      right
      simp [found, heightsWithout, heightsMoved]
  | node cell left right =>
      simp only [TreeOp.reshape, found] at exactAfter
      exact visible ((exact_graft_removed exact (reaches_way ..) found
        ((short shape represents.holds).2 K cell left right rfl found)
        (numNodes_lt_pathBound represents.tree.placed.nodup)).mp exactAfter)

end Runs

/-- Nodes in different pages. -/
def firstNode : NodePtr := ⟨0x1000#32, by decide⟩

def secondNode : NodePtr := ⟨0x2000#32, by decide⟩

def thirdNode : NodePtr := ⟨0x3000#32, by decide⟩

def fourthNode : NodePtr := ⟨0x4000#32, by decide⟩

def fifthNode : NodePtr := ⟨0x5000#32, by decide⟩

/-- The number of its page is the key of a node. -/
def pageKey (node : NodePtr) : BitVec 32 :=
  node.1 >>> 12

section SmallTrees

open BinaryTree Shape

theorem admitsOn_shortPaths {shape : Shape} {op : TreeOp Unit} {path : List Side}
    (few : shape.numNodes < 64) :
    AdmitsOn ((treeSystem Unit).restrict (OnTree TreeOp.ShortPaths)) shape op path :=
  (admitsOn_treeSystem shape op path).onTree fun memory _ => op.shortPaths_of_few memory few

/-- The node with key 1 is removed from below the node with key 2, whose depth stays 2. -/
theorem exists_stale_depth : ∃ state : TreeMemory Unit × Contents Unit,
    ((treeSystem Unit).restrict (OnTree TreeOp.ShortPaths)).Reachable state ∧
      ¬ExactDepths state.1 := by
  let sys := (treeSystem Unit).restrict (OnTree TreeOp.ShortPaths)
  have empty : LeadsToTree sys pageKey nil := leadsToTree_nil emptyMemory rfl ⟨rfl, rfl⟩
  have one : LeadsToTree sys pageKey (node ⟨secondNode, 1⟩ nil nil) :=
    empty.insert secondNode () [] (by decide) rfl rfl (fun _ => rfl)
      (admitsOn_shortPaths (by decide))
  have two : LeadsToTree sys pageKey (node ⟨secondNode, 2⟩ (node ⟨firstNode, 1⟩ nil nil) nil) :=
    one.insert firstNode () [.left] (by decide) rfl rfl
      (by simp [graft, rebalance, balance, join, cached, btMax])
      (admitsOn_shortPaths (by decide))
  have three : LeadsToTree sys pageKey (node ⟨secondNode, 2⟩ nil nil) :=
    two.remove 1 [.left] rfl rfl (by simp [graft, removed, sink, sinkPath, rebalance, balance])
      (admitsOn_shortPaths (by decide))
  rcases three with ⟨state, reachable, represents, -⟩
  refine ⟨state, reachable, ?_⟩
  rintro ⟨shape, holds, exact⟩
  rw [← represents.holds.unique holds] at exact
  simp [Shape.Exact] at exact

theorem admitsOn_hiddenRemoval {shape : Shape} {op : TreeOp Unit} {path : List Side}
    (few : shape.numNodes < 64) (hidden : ∀ K, op = .remove K → Hidden shape path) :
    AdmitsOn (((treeSystem Unit).restrict (OnTree TreeOp.ShortPaths)).restrict
      (OnTree TreeOp.HiddenRemoval)) shape op path := by
  refine (admitsOn_shortPaths few).onTree fun memory isPath => ?_
  rintro K rfl
  rw [isPath]
  exact hidden K rfl

/-- The keys 1 to 5 are inserted, with two rotations. Then the node with key 4 is removed, which
has two subtrees and whose subtree keeps its height, the leaf with key 1 beside that higher
subtree, and the root. -/
theorem exactDepths_after_removals : ∃ state : TreeMemory Unit × Contents Unit,
    (((treeSystem Unit).restrict (OnTree TreeOp.ShortPaths)).restrict
      (OnTree TreeOp.HiddenRemoval)).Reachable state ∧
      state.1.link .root = some fifthNode ∧ state.1.link (.left fifthNode) = some thirdNode ∧
      ExactDepths state.1 := by
  let sys := ((treeSystem Unit).restrict (OnTree TreeOp.ShortPaths)).restrict
    (OnTree TreeOp.HiddenRemoval)
  have inserts {shape : Shape} {it : NodePtr} {K : BitVec 32} {path : List Side}
      (few : shape.numNodes < 64) : AdmitsOn sys shape (.insert it K ()) path :=
    admitsOn_hiddenRemoval few (by simp)
  have empty : LeadsToTree sys pageKey nil := leadsToTree_nil emptyMemory rfl ⟨rfl, rfl⟩
  have one : LeadsToTree sys pageKey (node ⟨firstNode, 1⟩ nil nil) :=
    empty.insert firstNode () [] (by decide) rfl rfl (fun _ => rfl) (inserts (by decide))
  have two : LeadsToTree sys pageKey (node ⟨firstNode, 2⟩ nil (node ⟨secondNode, 1⟩ nil nil)) :=
    one.insert secondNode () [.right] (by decide) rfl rfl
      (by simp [graft, rebalance, balance, join, cached, btMax]) (inserts (by decide))
  have three : LeadsToTree sys pageKey
      (node ⟨secondNode, 2⟩ (node ⟨firstNode, 1⟩ nil nil) (node ⟨thirdNode, 1⟩ nil nil)) :=
    two.insert thirdNode () [.right, .right] (by decide) rfl rfl
      (by simp [graft, rebalance, balance, rotleft, join, cached, btMax]) (inserts (by decide))
  have four : LeadsToTree sys pageKey (node ⟨secondNode, 3⟩ (node ⟨firstNode, 1⟩ nil nil)
      (node ⟨thirdNode, 2⟩ nil (node ⟨fourthNode, 1⟩ nil nil))) :=
    three.insert fourthNode () [.right, .right] (by decide) rfl rfl
      (by simp [graft, rebalance, balance, join, cached, btMax]) (inserts (by decide))
  have five : LeadsToTree sys pageKey (node ⟨secondNode, 3⟩ (node ⟨firstNode, 1⟩ nil nil)
      (node ⟨fourthNode, 2⟩ (node ⟨thirdNode, 1⟩ nil nil) (node ⟨fifthNode, 1⟩ nil nil))) :=
    four.insert fifthNode () [.right, .right, .right] (by decide) rfl rfl
      (by simp [graft, rebalance, balance, rotleft, join, cached, btMax]) (inserts (by decide))
  have six : LeadsToTree sys pageKey (node ⟨secondNode, 3⟩ (node ⟨firstNode, 1⟩ nil nil)
      (node ⟨fifthNode, 2⟩ (node ⟨thirdNode, 1⟩ nil nil) nil)) :=
    five.remove 4 [.right] rfl rfl
      (by simp [graft, removed, sink, sinkPath, rebalance, balance, join, cached, btMax])
      (admitsOn_hiddenRemoval (by decide) fun _ _ => Or.inr (by simp [subtree, beside,
        heightsWithout, heightsMoved, Heights.balance, heightsOf]))
  have seven : LeadsToTree sys pageKey (node ⟨secondNode, 3⟩ nil
      (node ⟨fifthNode, 2⟩ (node ⟨thirdNode, 1⟩ nil nil) nil)) :=
    six.remove 1 [.left] rfl rfl (by simp [graft, removed, sink, sinkPath, rebalance, balance])
      (admitsOn_hiddenRemoval (by decide) fun _ _ => hidden_of_lower (by simp [Exact]) rfl
        (by simp [sinkPath]) (by decide) (by decide))
  have eight : LeadsToTree sys pageKey (node ⟨fifthNode, 2⟩ (node ⟨thirdNode, 1⟩ nil nil) nil) :=
    seven.remove 2 [] rfl rfl
      (by simp [graft, removed, sink, sinkPath, rebalance, balance, join, cached, btMax])
      (admitsOn_hiddenRemoval (by decide) fun _ _ => Or.inl rfl)
  rcases eight with ⟨state, reachable, represents, -⟩
  exact ⟨state, reachable, represents.holds.1, represents.holds.2.2.1.1,
    exactDepths_of_reachable reachable⟩

end SmallTrees

end Rkernel
