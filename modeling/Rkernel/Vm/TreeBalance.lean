import Rkernel.Vm.TreeDepth

/-!
# The height of the tree

`bt_balance` answers a difference of two levels with one rotation. Where the taller
child has become higher on its outer side, the rotation restores the balance; where it
has become higher on its inner side, the rotation only moves the difference to the
other side of the node, and a second rotation at the child would have been needed.
The parent of the node can still make up for it: it does where it leans towards the
node from the side to which the taller child turned.

In every run of insertions that leave no node in that state the heights of the two
subtrees of every node differ by at most one, and the tree stays far too low for a
search path to outgrow the path buffer.
-/

namespace Rkernel

namespace Shape

open BinaryTree

/-- A node with its subtrees on one side and on the other. -/
def toward (side : Side) (cell : TreeCell) (near far : Shape) : Shape :=
  match side with
  | .left => node cell near far
  | .right => node cell far near

/-- The same behind `bt_calcdepth`. -/
def joinToward (side : Side) (addr : NodePtr) (near far : Shape) : Shape :=
  match side with
  | .left => join addr near far
  | .right => join addr far near

/-- A new node at the end of the path makes the tree higher. -/
def Grows (shape : Shape) : List Side → Prop
  | [] => shape = nil
  | side :: path =>
      (shape.child side).height = (shape.child side.other).height ∧ Grows (shape.child side) path

/-- A new node at the end of the path makes `bt_balance` rotate at the root, whose taller child
becomes higher on its inner side. -/
def TurnsInward (shape : Shape) : List Side → Prop
  | side :: next :: path =>
      next = side.other ∧ (shape.child side.other).height < (shape.child side).height ∧
        Grows (shape.child side) (next :: path)
  | _ => False

/-- The same happens at a node below the root, and the rotation at its parent does not make up
for it. -/
def Stranded (shape : Shape) : List Side → Prop
  | [] => False
  | side :: path =>
      (TurnsInward (shape.child side) path ∧
        ¬((shape.child side.other).height < (shape.child side).height ∧
          path.head? = some side.other)) ∨
      Stranded (shape.child side) path

variable {shape near far part : Shape} {side : Side} {cell : TreeCell} {addr : NodePtr}
  {path : List Side}

section Sides

@[simp]
theorem child_toward (side : Side) (cell : TreeCell) (near far : Shape) :
    (toward side cell near far).child side = near := by
  cases side <;> rfl

@[simp]
theorem child_other_toward (side : Side) (cell : TreeCell) (near far : Shape) :
    (toward side cell near far).child side.other = far := by
  cases side <;> rfl

@[simp]
theorem height_toward (side : Side) (cell : TreeCell) (near far : Shape) :
    (toward side cell near far).height = max near.height far.height + 1 := by
  cases side
  · rfl
  · exact congrArg (· + 1) (max_comm ..)

theorem exact_toward (exact : Exact (toward side cell near far)) : Exact near ∧ Exact far := by
  cases side
  · exact exact.2
  · exact exact.2.symm

theorem balanced_toward :
    (toward side cell near far).Balanced ↔
      near.height ≤ far.height + 1 ∧ far.height ≤ near.height + 1 ∧
        near.Balanced ∧ far.Balanced := by
  cases side
  · exact Iff.rfl
  · simp only [toward, BinaryTree.Balanced]
    tauto

theorem eq_toward (side : Side) (cell : TreeCell) (left right : Shape) :
    ∃ near far, node cell left right = toward side cell near far := by
  cases side
  · exact ⟨left, right, rfl⟩
  · exact ⟨right, left, rfl⟩

theorem joinToward_eq (side : Side) (addr : NodePtr) (near far : Shape) :
    ∃ depth, joinToward side addr near far = toward side ⟨addr, depth⟩ near far := by
  cases side <;> exact ⟨_, rfl⟩

theorem joinToward_other (side : Side) (addr : NodePtr) (near far : Shape) :
    joinToward side.other addr near far = joinToward side addr far near := by
  cases side <;> rfl

@[simp]
theorem child_joinToward (side : Side) (addr : NodePtr) (near far : Shape) :
    (joinToward side addr near far).child side = near := by
  cases side <;> rfl

@[simp]
theorem child_other_joinToward (side : Side) (addr : NodePtr) (near far : Shape) :
    (joinToward side addr near far).child side.other = far := by
  cases side <;> rfl

@[simp]
theorem height_joinToward (side : Side) (addr : NodePtr) (near far : Shape) :
    (joinToward side addr near far).height = max near.height far.height + 1 := by
  rcases joinToward_eq side addr near far with ⟨depth, isToward⟩
  rw [isToward, height_toward]

theorem balanced_joinToward :
    (joinToward side addr near far).Balanced ↔
      near.height ≤ far.height + 1 ∧ far.height ≤ near.height + 1 ∧
        near.Balanced ∧ far.Balanced := by
  rcases joinToward_eq side addr near far with ⟨depth, isToward⟩
  rw [isToward, balanced_toward]

@[simp]
theorem numNodes_toward (side : Side) (cell : TreeCell) (near far : Shape) :
    (toward side cell near far).numNodes = near.numNodes + far.numNodes + 1 := by
  cases side
  · rfl
  · exact congrArg (· + 1) (Nat.add_comm ..)

theorem graft_toward (side : Side) (cell : TreeCell) (near far part : Shape) (path : List Side) :
    (toward side cell near far).graft (side :: path) part =
      toward side cell (near.graft path part) far := by
  cases side <;> rfl

theorem subtree_toward (side : Side) (cell : TreeCell) (near far : Shape) (path : List Side) :
    (toward side cell near far).subtree (side :: path) = near.subtree path := by
  cases side <;> rfl

theorem reaches_toward (side : Side) (cell : TreeCell) (near far : Shape) (path : List Side) :
    (toward side cell near far).Reaches (side :: path) ↔ near.Reaches path := by
  cases side <;> rfl

theorem rebalance_toward (cell : TreeCell) (near far : Shape) (short : path.length + 1 < 64) :
    rebalance (toward side cell near far) (side :: path) =
      balance (toward side cell (rebalance near path) far) := by
  cases side
  · simp only [toward, rebalance, if_pos short]
  · simp only [toward, rebalance, if_pos short]

/-- `bt_balance` at a node whose subtrees differ by at most one. -/
theorem balance_toward_of_close (side : Side) (cell : TreeCell) (exactNear : Exact near)
    (exactFar : Exact far) (nearLow : near.height ≤ far.height + 1)
    (farLow : far.height ≤ near.height + 1) :
    balance (toward side cell near far) = joinToward side cell.addr near far := by
  cases side with
  | left =>
      rcases balance_cases cell exactNear exactFar with
        ⟨_, _, _, _, higher, _⟩ | ⟨_, _, _, _, higher, _⟩ | ⟨_, _, balanced⟩
      · omega
      · omega
      · exact balanced
  | right =>
      rcases balance_cases cell exactFar exactNear with
        ⟨_, _, _, _, higher, _⟩ | ⟨_, _, _, _, higher, _⟩ | ⟨_, _, balanced⟩
      · omega
      · omega
      · exact balanced

/-- `bt_balance` at a node with a subtree that is too high. -/
theorem balance_toward_of_higher (side : Side) (cell : TreeCell) (exactNear : Exact near)
    (exactFar : Exact far) (higher : far.height + 1 < near.height) :
    ∃ x outer inner, near = toward side x outer inner ∧
      balance (toward side cell near far) =
        joinToward side x.addr outer (joinToward side cell.addr inner far) := by
  cases side with
  | left =>
      rcases balance_cases cell exactNear exactFar with
        ⟨x, outer, inner, isNode, _, balanced⟩ | ⟨_, _, _, _, _, _⟩ | ⟨_, _, _⟩
      · exact ⟨x, outer, inner, isNode, balanced⟩
      · omega
      · omega
  | right =>
      rcases balance_cases cell exactFar exactNear with
        ⟨_, _, _, _, _, _⟩ | ⟨x, inner, outer, isNode, _, balanced⟩ | ⟨_, _, _⟩
      · omega
      · exact ⟨x, outer, inner, isNode, balanced⟩
      · omega

end Sides

section Insertion

/-- What a single rotation leaves of a tree of the given height when the taller child of the root
was higher on its inner side. -/
def Lopsided (side : Side) (shape : Shape) (height : ℕ) : Prop :=
  ∃ x h outer inner far, shape = joinToward side x outer (joinToward side h inner far) ∧
    outer.height + 2 = height ∧ inner.height + 1 = height ∧ far.height + 2 = height ∧
    outer.Balanced ∧ inner.Balanced ∧ far.Balanced

/-- What an insertion at the end of a path makes of a balanced tree. -/
inductive Outcome (before after : Shape) : List Side → Prop where
  | kept {path : List Side} (stops : ¬Grows before path) (straight : ¬TurnsInward before path)
      (balanced : after.Balanced) (height : after.height = before.height) :
      Outcome before after path
  | grown {path : List Side} (grows : Grows before path) (balanced : after.Balanced)
      (height : after.height = before.height + 1)
      (leans : ∀ side rest, path = side :: rest →
        (after.child side.other).height < (after.child side).height) :
      Outcome before after path
  | lopsided {side : Side} {rest : List Side} (turns : TurnsInward before (side :: rest))
      (lopsided : Lopsided side after before.height) : Outcome before after (side :: rest)

theorem TurnsInward.not_grows (turns : TurnsInward shape path) : ¬Grows shape path := by
  cases path with
  | nil => exact turns.elim
  | cons side path =>
      cases path with
      | nil => exact turns.elim
      | cons next path =>
          rintro ⟨equal, _⟩
          rcases turns with ⟨_, higher, _⟩
          omega

theorem TurnsInward.child_grows (turns : TurnsInward shape (side :: path)) :
    Grows (shape.child side) path ∧ path.head? = some side.other ∧
      (shape.child side.other).height < (shape.child side).height := by
  cases path with
  | nil => exact turns.elim
  | cons next path =>
      rcases turns with ⟨rfl, higher, grows⟩
      exact ⟨grows, rfl, higher⟩

variable {next : Shape}

/-- The subtree at the path keeps its height. -/
theorem outcome_of_kept (balanced : (toward side cell near far).Balanced) (exactNext : Exact next)
    (exactFar : Exact far) (stops : ¬Grows near path) (nextBalanced : next.Balanced)
    (sameHeight : next.height = near.height) :
    Outcome (toward side cell near far) (balance (toward side cell next far)) (side :: path) := by
  rcases balanced_toward.mp balanced with ⟨nearLow, farLow, _, farBalanced⟩
  rw [balance_toward_of_close side cell exactNext exactFar (by omega) (by omega)]
  apply Outcome.kept
  · rintro ⟨_, grows⟩
    rw [child_toward] at grows
    exact stops grows
  · intro turns
    have grows := turns.child_grows.1
    rw [child_toward] at grows
    exact stops grows
  · exact balanced_joinToward.mpr ⟨by omega, by omega, nextBalanced, farBalanced⟩
  · rw [height_joinToward, height_toward, sameHeight]

/-- The subtree at the path grows below a node that is even or leans the other way. -/
theorem outcome_of_grown_lower (balanced : (toward side cell near far).Balanced)
    (exactNext : Exact next) (exactFar : Exact far) (grows : Grows near path)
    (nextBalanced : next.Balanced) (higher : next.height = near.height + 1)
    (lower : near.height ≤ far.height) :
    Outcome (toward side cell near far) (balance (toward side cell next far)) (side :: path) := by
  rcases balanced_toward.mp balanced with ⟨nearLow, farLow, _, farBalanced⟩
  have after := balance_toward_of_close side cell exactNext exactFar (by omega) (by omega)
  have afterBalanced : (joinToward side cell.addr next far).Balanced :=
    balanced_joinToward.mpr ⟨by omega, by omega, nextBalanced, farBalanced⟩
  rw [after]
  rcases eq_or_lt_of_le lower with even | less
  · refine Outcome.grown ⟨?_, ?_⟩ afterBalanced ?_ ?_
    · rw [child_toward, child_other_toward, even]
    · rwa [child_toward]
    · rw [height_joinToward, height_toward]
      omega
    · rintro _ _ ⟨⟩
      rw [child_joinToward, child_other_joinToward]
      omega
  · refine Outcome.kept ?_ ?_ afterBalanced ?_
    · rintro ⟨equal, _⟩
      rw [child_toward, child_other_toward] at equal
      omega
    · intro turns
      have leans := turns.child_grows.2.2
      rw [child_toward, child_other_toward] at leans
      omega
    · rw [height_joinToward, height_toward]
      omega

/-- The subtree at the path grows below a node that leans towards it. -/
theorem outcome_of_grown_higher {turn : Side}
    (balanced : (toward side cell near far).Balanced) (exactNext : Exact next)
    (exactFar : Exact far) (grows : Grows near (turn :: path)) (nextBalanced : next.Balanced)
    (higher : next.height = near.height + 1) (leans : far.height < near.height)
    (nextLeans : (next.child turn.other).height < (next.child turn).height) :
    Outcome (toward side cell near far) (balance (toward side cell next far))
      (side :: turn :: path) := by
  rcases balanced_toward.mp balanced with ⟨nearLow, farLow, _, farBalanced⟩
  rcases balance_toward_of_higher side cell exactNext exactFar (by omega) with
    ⟨x, outer, inner, rfl, after⟩
  rcases balanced_toward.mp nextBalanced with ⟨_, _, outerBalanced, innerBalanced⟩
  rw [height_toward] at higher
  rw [after]
  by_cases straight : turn = side
  · subst straight
    rw [child_toward, child_other_toward] at nextLeans
    apply Outcome.kept
    · rintro ⟨equal, _⟩
      rw [child_toward, child_other_toward] at equal
      omega
    · rintro ⟨turned, _⟩
      cases turn <;> cases turned
    · refine balanced_joinToward.mpr ⟨?_, ?_, outerBalanced, ?_⟩
      · rw [height_joinToward]
        omega
      · rw [height_joinToward]
        omega
      · exact balanced_joinToward.mpr ⟨by omega, by omega, innerBalanced, farBalanced⟩
    · simp only [height_joinToward, height_toward]
      omega
  · have turned : turn = side.other := by
      cases turn <;> cases side <;> first | rfl | exact absurd rfl straight
    subst turned
    have back : side.other.other = side := by cases side <;> rfl
    rw [back, child_toward, child_other_toward] at nextLeans
    apply Outcome.lopsided
    · refine ⟨rfl, ?_, ?_⟩
      · rwa [child_toward, child_other_toward]
      · rwa [child_toward]
    · refine ⟨x.addr, cell.addr, outer, inner, far, rfl, ?_, ?_, ?_, outerBalanced, innerBalanced,
        farBalanced⟩
      · rw [height_toward]
        omega
      · rw [height_toward]
        omega
      · rw [height_toward]
        omega

/-- The parent makes up for a rotation at its child. -/
theorem outcome_of_lopsided (balanced : (toward side cell near far).Balanced)
    (exactNext : Exact next) (exactFar : Exact far) (turns : TurnsInward near (side.other :: path))
    (leans : far.height < near.height) (lopsided : Lopsided side.other next near.height) :
    Outcome (toward side cell near far) (balance (toward side cell next far))
      (side :: side.other :: path) := by
  rcases balanced_toward.mp balanced with ⟨nearLow, farLow, _, farBalanced⟩
  rcases lopsided with ⟨x, h, outer, inner, beyond, isNext, outerLow, innerLow, beyondLow,
    outerBalanced, innerBalanced, beyondBalanced⟩
  rw [joinToward_other, joinToward_other] at isNext
  have tooHigh : far.height + 1 < next.height := by
    rw [isNext]
    simp only [height_joinToward]
    omega
  rcases balance_toward_of_higher side cell exactNext exactFar tooHigh with
    ⟨y, first, second, isToward, after⟩
  have isFirst : first = joinToward side h beyond inner := by
    rw [← child_toward side y first second, ← isToward, isNext, child_joinToward]
  have isSecond : second = outer := by
    rw [← child_other_toward side y first second, ← isToward, isNext, child_other_joinToward]
  rw [after, isFirst, isSecond]
  apply Outcome.kept
  · rintro ⟨equal, _⟩
    rw [child_toward, child_other_toward] at equal
    omega
  · intro turnsHere
    have grows := turnsHere.child_grows.1
    rw [child_toward] at grows
    exact turns.not_grows grows
  · refine balanced_joinToward.mpr ⟨?_, ?_, ?_, ?_⟩
    · simp only [height_joinToward]
      omega
    · simp only [height_joinToward]
      omega
    · exact balanced_joinToward.mpr ⟨by omega, by omega, beyondBalanced, innerBalanced⟩
    · exact balanced_joinToward.mpr ⟨by omega, by omega, outerBalanced, farBalanced⟩
  · simp only [height_joinToward, height_toward]
    omega

theorem outcome_toward (balanced : (toward side cell near far).Balanced) (exactNext : Exact next)
    (exactFar : Exact far) (notStranded : ¬Stranded (toward side cell near far) (side :: path))
    (below : Outcome near next path) :
    Outcome (toward side cell near far) (balance (toward side cell next far)) (side :: path) := by
  cases below with
  | kept stops _ nextBalanced sameHeight =>
      exact outcome_of_kept balanced exactNext exactFar stops nextBalanced sameHeight
  | grown grows nextBalanced higher nextLeans =>
      rcases le_or_gt near.height far.height with lower | leans
      · exact outcome_of_grown_lower balanced exactNext exactFar grows nextBalanced higher lower
      · cases path with
        | nil =>
            have empty : near = nil := grows
            rw [empty, height] at leans
            omega
        | cons turn path =>
            exact outcome_of_grown_higher balanced exactNext exactFar grows nextBalanced higher
              leans (nextLeans turn path rfl)
  | lopsided turns lopsided =>
      rename_i turn rest
      have mended : far.height < near.height ∧ turn = side.other := by
        by_contra notMended
        apply notStranded
        refine Or.inl ⟨?_, ?_⟩
        · rwa [child_toward]
        · rwa [child_toward, child_other_toward, List.head?_cons, Option.some.injEq]
      rcases mended with ⟨leans, rfl⟩
      exact outcome_of_lopsided balanced exactNext exactFar turns leans lopsided

/-- The whole way back of an insertion. -/
theorem outcome_rebalance {leaf : TreeCell} (exact : Exact shape) (balanced : shape.Balanced)
    (reaches : shape.Reaches path) (absent : shape.subtree path = nil) (short : path.length < 64)
    (room : (shape.graft path (node leaf nil nil)).numNodes < pathBound)
    (notStranded : ¬Stranded shape path) :
    Outcome shape (rebalance (shape.graft path (node leaf nil nil)) path) path := by
  induction path generalizing shape with
  | nil =>
      have empty : shape = nil := by simpa using absent
      subst empty
      have isLeaf : rebalance (graft nil [] (node leaf nil nil)) [] = join leaf.addr nil nil := by
        simp [rebalance, balance]
      rw [isLeaf]
      refine Outcome.grown rfl ⟨?_, ?_, trivial, trivial⟩ rfl ?_
      · exact Nat.zero_le _
      · exact Nat.zero_le _
      · rintro _ _ ⟨⟩
  | cons side path ih =>
      rw [List.length_cons] at short
      cases shape with
      | nil => cases side <;> exact reaches.elim
      | node cell left right =>
          rcases eq_toward side cell left right with ⟨near, far, isToward⟩
          rw [isToward] at exact balanced reaches absent room notStranded ⊢
          rw [reaches_toward] at reaches
          rw [subtree_toward] at absent
          rw [graft_toward, numNodes_toward] at room
          rcases exact_toward exact with ⟨exactNear, exactFar⟩
          have nearBalanced := (balanced_toward.mp balanced).2.2.1
          have notBelow : ¬Stranded near path := by
            intro stranded
            apply notStranded
            refine Or.inr ?_
            rwa [child_toward]
          have below := ih exactNear nearBalanced reaches absent (by omega) (by omega) notBelow
          have beside : ExactBeside (near.graft path (node leaf nil nil)) path :=
            exactBeside_graft exactNear reaches ⟨trivial, trivial⟩
          have exactNext := exact_rebalance beside (by omega) (by omega)
          rw [graft_toward, rebalance_toward cell _ far short]
          exact outcome_toward balanced exactNext exactFar notStranded below

end Insertion

theorem balanced_of_outcome {after : Shape} (outcome : Outcome shape after path)
    (straight : ¬TurnsInward shape path) : after.Balanced := by
  cases outcome with
  | kept _ _ balanced _ => exact balanced
  | grown _ balanced _ _ => exact balanced
  | lopsided turns _ => exact absurd turns straight

/-- A balanced tree of 32 bit addresses is low. -/
theorem height_lt_of_balanced (balanced : shape.Balanced) (room : shape.numNodes < pathBound) :
    shape.height < 64 := by
  by_contra high
  have many := balanced.fib_le
  have atLeast : Nat.fib 66 ≤ Nat.fib (shape.height + 2) := Nat.fib_mono (by omega)
  have large : pathBound < Nat.fib 66 := by decide
  omega

end Shape

section Runs

open Shape

variable {Value : Type}

/-- The call is a `bt_insert`. -/
def IsInsertion (_state : TreeMemory Value × Contents Value) (op : TreeOp Value)
    (_next : TreeMemory Value × Contents Value) : Prop :=
  ∃ it K V, op = .insert it K V

/-- The new node of the call makes no node turn inward for good. -/
def TreeOp.Straight (memory : TreeMemory Value) (shape : Shape) (op : TreeOp Value) : Prop :=
  ¬TurnsInward shape (op.path memory shape) ∧ ¬Stranded shape (op.path memory shape)

/-- The heights of the two subtrees of every node differ by at most one, and every search path
fits into the path buffer. -/
def HeightBalanced (memory : TreeMemory Value) : Prop :=
  ∃ shape, Holds memory shape (memory.link .root) ∧ shape.Balanced ∧
    ∀ K, (way memory K shape).length < 64

theorem TreeOp.balanced_reshape {memory : TreeMemory Value} {shape : Shape} {it : NodePtr}
    {K : BitVec 32} {V : Value} (exact : Exact shape) (balanced : shape.Balanced)
    (short : ((insert it K V).path memory shape).length < 64)
    (room : ((insert it K V).reshape memory shape).numNodes < pathBound)
    (straight : (insert it K V).Straight memory shape) :
    ((insert it K V).reshape memory shape).Balanced := by
  cases found : shape.subtree ((insert it K V).path memory shape) with
  | nil =>
      rw [reshape_insert rfl found, numNodes_rebalance] at room
      rw [reshape_insert rfl found]
      have reaches : shape.Reaches ((insert it K V).path memory shape) := reaches_way ..
      exact balanced_of_outcome
        (outcome_rebalance exact balanced reaches found short room straight.2) straight.1
  | node cell left right =>
      simp only [reshape, found]
      exact balanced

/-- The tree stays balanced in every run of insertions that keep straight. -/
theorem heightBalanced_of_reachable {state : TreeMemory Value × Contents Value}
    (reachable : (((treeSystem Value).restrict IsInsertion).restrict
      (OnTree TreeOp.Straight)).Reachable state) : HeightBalanced state.1 := by
  suffices ∃ shape, Represents state.1 state.2 shape ∧ Exact shape ∧ shape.Balanced by
    rcases this with ⟨shape, represents, _, balanced⟩
    refine ⟨shape, represents.holds, balanced, ?_⟩
    intro K
    apply lt_of_le_of_lt (length_way_le_height ..)
    exact height_lt_of_balanced balanced (numNodes_lt_pathBound represents.tree.placed.nodup)
  apply reachable.invariant
  · rintro ⟨memory, contents⟩ ⟨empty, rfl⟩
    exact ⟨BinaryTree.nil, ⟨empty, List.Pairwise.nil, by simp⟩, trivial, trivial⟩
  · rintro state _ next ⟨shape, represents, exact, balanced⟩ ⟨⟨step, it, K, V, rfl⟩, straight⟩
    have represented := represents.step step
    have room := numNodes_lt_pathBound represents.tree.placed.nodup
    have roomAfter := numNodes_lt_pathBound represented.tree.placed.nodup
    have short : ((TreeOp.insert it K V).path state.1 shape).length < 64 :=
      lt_of_le_of_lt (length_way_le_height ..) (height_lt_of_balanced balanced room)
    refine ⟨_, represented, ?_, ?_⟩
    · apply TreeOp.exact_reshape exact room roomAfter
      · refine ⟨short, ?_⟩
        rintro _ _ _ _ ⟨⟩
      · rintro _ ⟨⟩
    · exact TreeOp.balanced_reshape exact balanced short roomAfter (straight shape represents.holds)

end Runs

section SmallTrees

open BinaryTree Shape

theorem admitsOn_isInsertion {shape : Shape} {it : NodePtr} {K : BitVec 32} {path : List Side} :
    AdmitsOn ((treeSystem Unit).restrict IsInsertion) shape (.insert it K ()) path :=
  fun _ _ _ _ step => ⟨step, it, K, (), rfl⟩

/-- After the keys 3, 1 and 2 the node with key 1 is the root of a chain. -/
theorem exists_not_heightBalanced : ∃ state : TreeMemory Unit × Contents Unit,
    ((treeSystem Unit).restrict IsInsertion).Reachable state ∧ ¬HeightBalanced state.1 := by
  let sys := (treeSystem Unit).restrict IsInsertion
  have empty : LeadsToTree sys pageKey nil := leadsToTree_nil emptyMemory rfl ⟨rfl, rfl⟩
  have one : LeadsToTree sys pageKey (node ⟨thirdNode, 1⟩ nil nil) :=
    empty.insert thirdNode () [] (by decide) rfl rfl (fun _ => rfl) admitsOn_isInsertion
  have two : LeadsToTree sys pageKey (node ⟨thirdNode, 2⟩ (node ⟨firstNode, 1⟩ nil nil) nil) :=
    one.insert firstNode () [.left] (by decide) rfl rfl
      (by simp [graft, rebalance, balance, join, cached, btMax]) admitsOn_isInsertion
  have three : LeadsToTree sys pageKey
      (node ⟨firstNode, 3⟩ nil (node ⟨thirdNode, 2⟩ (node ⟨secondNode, 1⟩ nil nil) nil)) :=
    two.insert secondNode () [.left, .right] (by decide) rfl rfl
      (by simp [graft, rebalance, balance, rotright, join, cached, btMax]) admitsOn_isInsertion
  rcases three with ⟨state, reachable, represents, -⟩
  refine ⟨state, reachable, ?_⟩
  rintro ⟨shape, holds, balanced, _⟩
  rw [← represents.holds.unique holds] at balanced
  simp [BinaryTree.Balanced] at balanced

theorem admitsOn_straight {shape : Shape} {it : NodePtr} {K : BitVec 32} {path : List Side}
    (outward : ¬TurnsInward shape path) (mended : ¬Stranded shape path) :
    AdmitsOn (((treeSystem Unit).restrict IsInsertion).restrict (OnTree TreeOp.Straight)) shape
      (.insert it K ()) path := by
  refine admitsOn_isInsertion.onTree fun memory isPath => ?_
  rw [TreeOp.Straight, isPath]
  exact ⟨outward, mended⟩

/-- The keys 1, 2, 5, 3 and 4 are inserted. With key 5 the root is rotated. With key 4 the node with
key 5 is rotated although its child has become higher on the inner side, and the root makes up
for it. -/
theorem heightBalanced_after_rotations : ∃ state : TreeMemory Unit × Contents Unit,
    (((treeSystem Unit).restrict IsInsertion).restrict (OnTree TreeOp.Straight)).Reachable state ∧
      state.1.link .root = some thirdNode ∧ HeightBalanced state.1 := by
  let sys := ((treeSystem Unit).restrict IsInsertion).restrict (OnTree TreeOp.Straight)
  have empty : LeadsToTree sys pageKey nil := leadsToTree_nil emptyMemory rfl ⟨rfl, rfl⟩
  have one : LeadsToTree sys pageKey (node ⟨firstNode, 1⟩ nil nil) :=
    empty.insert firstNode () [] (by decide) rfl rfl (fun _ => rfl)
      (admitsOn_straight id id)
  have two : LeadsToTree sys pageKey (node ⟨firstNode, 2⟩ nil (node ⟨secondNode, 1⟩ nil nil)) :=
    one.insert secondNode () [.right] (by decide) rfl rfl
      (by simp [graft, rebalance, balance, join, cached, btMax])
      (admitsOn_straight id (by simp [Stranded, TurnsInward]))
  have three : LeadsToTree sys pageKey
      (node ⟨secondNode, 2⟩ (node ⟨firstNode, 1⟩ nil nil) (node ⟨fifthNode, 1⟩ nil nil)) :=
    two.insert fifthNode () [.right, .right] (by decide) rfl rfl
      (by simp [graft, rebalance, balance, rotleft, join, cached, btMax])
      (admitsOn_straight (by simp [TurnsInward, Side.other]) (by simp [Stranded, TurnsInward]))
  have four : LeadsToTree sys pageKey (node ⟨secondNode, 3⟩ (node ⟨firstNode, 1⟩ nil nil)
      (node ⟨fifthNode, 2⟩ (node ⟨thirdNode, 1⟩ nil nil) nil)) :=
    three.insert thirdNode () [.right, .left] (by decide) rfl rfl
      (by simp [graft, rebalance, balance, join, cached, btMax])
      (admitsOn_straight (by simp [TurnsInward, child, Side.other])
        (by simp [Stranded, TurnsInward]))
  have five : LeadsToTree sys pageKey
      (node ⟨thirdNode, 3⟩ (node ⟨secondNode, 2⟩ (node ⟨firstNode, 1⟩ nil nil) nil)
        (node ⟨fifthNode, 2⟩ (node ⟨fourthNode, 1⟩ nil nil) nil)) :=
    four.insert fourthNode () [.right, .left, .right] (by decide) rfl rfl
      (by simp [graft, rebalance, balance, rotleft, rotright, join, cached, btMax])
      (admitsOn_straight (by simp [TurnsInward, Grows, child, Side.other])
        (by simp [Stranded, TurnsInward, child, Side.other]))
  rcases five with ⟨state, reachable, represents, -⟩
  exact ⟨state, reachable, represents.holds.1, heightBalanced_of_reachable reachable⟩

end SmallTrees

end Rkernel
