import Rkernel.Vm.TreeMap
import Rkernel.Vm.TreeNearest

/-!
# The variants of the insertion

`bt_insert`, `bt_put` and `bt_put_ip` search and rebalance in the same way. They differ where the
key is already there: `bt_insert` gives up, `bt_put` puts the new node in the place of the old
one, and `bt_put_ip` only moves the value.

The rebalancing does not look at the addresses of the nodes. Hence it commutes with a renaming of
them, and the trees of `bt_put` and `bt_put_ip` are renamings of each other.
-/

namespace Rkernel

namespace Shape

open BinaryTree

variable {Value : Type} {memory : TreeMemory Value} {shape : Shape}

/-- The same tree with other node objects. -/
def rename (name : NodePtr → NodePtr) (shape : Shape) : Shape :=
  shape.map fun cell => ⟨name cell.addr, cell.depth⟩

section Rename

variable (name : NodePtr → NodePtr)

@[simp]
theorem rename_nil : rename name nil = nil :=
  rfl

@[simp]
theorem rename_node (cell : TreeCell) (left right : Shape) :
    rename name (node cell left right) =
      node ⟨name cell.addr, cell.depth⟩ (rename name left) (rename name right) :=
  rfl

@[simp]
theorem cached_rename (shape : Shape) : cached (rename name shape) = cached shape := by
  cases shape <;> rfl

@[simp]
theorem rename_join (addr : NodePtr) (left right : Shape) :
    rename name (join addr left right) =
      join (name addr) (rename name left) (rename name right) := by
  simp [join]

theorem addrs_rename (shape : Shape) : addrs (rename name shape) = (addrs shape).map name := by
  induction shape with
  | nil => rfl
  | node cell left right ihLeft ihRight => simp [ihLeft, ihRight]

theorem rename_rotleft (shape : Shape) :
    rename name (rotleft shape) = rotleft (rename name shape) := by
  rcases shape with _ | ⟨cell, left, _ | ⟨inner, middle, right⟩⟩ <;> simp [rotleft]

theorem rename_rotright (shape : Shape) :
    rename name (rotright shape) = rotright (rename name shape) := by
  rcases shape with _ | ⟨cell, _ | ⟨inner, left, middle⟩, right⟩ <;> simp [rotright]

theorem rename_balance (shape : Shape) :
    rename name (balance shape) = balance (rename name shape) := by
  cases shape with
  | nil => rfl
  | node cell left right =>
      simp only [rename_node, balance, cached_rename]
      split
      · rw [rename_rotright, rename_node]
      · split
        · rw [rename_rotleft, rename_node]
        · rw [rename_join]

/-- The rebalancing does not depend on the addresses of the nodes. -/
theorem rename_rebalance (shape : Shape) (path : List Side) :
    rename name (rebalance shape path) = rebalance (rename name shape) path := by
  induction path generalizing shape with
  | nil =>
      rw [rebalance, rebalance]
      exact rename_balance name shape
  | cons side path ih =>
      cases shape with
      | nil => cases side <;> rfl
      | node cell left right =>
          cases side with
          | left =>
              simp only [rename_node, rebalance]
              split
              · rw [rename_balance, rename_node, ih]
              · rw [rename_node, ih]
          | right =>
              simp only [rename_node, rebalance]
              split
              · rw [rename_balance, rename_node, ih]
              · rw [rename_node, ih]

end Rename

section Replace

variable {old : NodePtr} (it : NodePtr)

theorem rename_update_of_notMem (notIn : old ∉ addrs shape) :
    rename (Function.update id old it) shape = shape := by
  induction shape with
  | nil => rfl
  | node cell left right ihLeft ihRight =>
      have notRoot : cell.addr ≠ old := by
        rintro rfl
        exact notIn mem_addrs_root
      rw [rename_node, ihLeft fun inLeft => notIn (mem_addrs_left inLeft),
        ihRight fun inRight => notIn (mem_addrs_right inRight), Function.update_of_ne notRoot]
      rfl

/-- A new node in the place of an old one is a renaming of the tree. -/
theorem graft_eq_rename {path : List Side} {cell : TreeCell} {left right : Shape}
    (nodup : (addrs shape).Nodup) (present : shape.subtree path = node cell left right) :
    shape.graft path (node ⟨it, cell.depth⟩ left right) =
      rename (Function.update id cell.addr it) shape := by
  induction path generalizing shape with
  | nil =>
      rw [subtree_nil_path] at present
      subst present
      simp only [addrs_node, List.nodup_append, List.nodup_cons, List.mem_cons] at nodup
      have notLeft : cell.addr ∉ addrs left := by grind
      have notRight : cell.addr ∉ addrs right := by grind
      rw [graft_nil_path, rename_node, Function.update_self, rename_update_of_notMem it notLeft,
        rename_update_of_notMem it notRight]
  | cons side path ih =>
      cases shape with
      | nil => contradiction
      | node root rootLeft rootRight =>
          simp only [addrs_node, List.nodup_append, List.nodup_cons, List.mem_cons] at nodup
          cases side with
          | left =>
              have presentLeft : rootLeft.subtree path = node cell left right := present
              have inLeft : cell.addr ∈ addrs rootLeft := by
                apply @mem_addrs_subtree _ path
                rw [presentLeft]
                exact mem_addrs_root
              have notRoot : root.addr ≠ cell.addr := by grind
              have notRight : cell.addr ∉ addrs rootRight := by grind
              rw [graft, rename_node, ih nodup.1 presentLeft, Function.update_of_ne notRoot,
                rename_update_of_notMem it notRight]
              rfl
          | right =>
              have presentRight : rootRight.subtree path = node cell left right := present
              have inRight : cell.addr ∈ addrs rootRight := by
                apply @mem_addrs_subtree _ path
                rw [presentRight]
                exact mem_addrs_root
              have notRoot : root.addr ≠ cell.addr := by grind
              have notLeft : cell.addr ∉ addrs rootLeft := by grind
              rw [graft, rename_node, ih nodup.2.1.2 presentRight, Function.update_of_ne notRoot,
                rename_update_of_notMem it notLeft]
              rfl

end Replace

/-- The fields of the nodes of a tree: the key, the value and the depth. -/
def fields (memory : TreeMemory Value) (shape : Shape) :
    BinaryTree (BitVec 32 × Value × BitVec 32) :=
  shape.map fun cell => (memory.K cell.addr, memory.V cell.addr, cell.depth)

/-- What the variants do with a new node in a tree. `putShape` and `ipShape` are the trees behind
`bt_put` and `bt_put_ip`. -/
structure VariantsAgree (memory : TreeMemory Value) (shape : Shape) (it : NodePtr)
    (put putIp : TreeMemory Value) (putIt ipIt : Option NodePtr) (putShape ipShape : Shape) :
    Prop where
  putRun : btPut memory .root it = some (put, putIt)
  ipRun : btPutIp memory .root it = some (putIp, ipIt)
  putHolds : Holds put putShape (put.link .root)
  ipHolds : Holds putIp ipShape (putIp.link .root)
  sameFields : fields put putShape = fields putIp ipShape
  otherCarrier : addrs putShape =
    (addrs ipShape).map fun address => if memory.K address = memory.K it then it else address
  absent : (∀ address ∈ addrs shape, memory.K address ≠ memory.K it) →
    btInsert memory .root it = some (put, none) ∧ putIp = put ∧ putIt = none ∧ ipIt = none
  present : ∀ old ∈ addrs shape, memory.K old = memory.K it →
    putIt = some old ∧ ipIt = some it ∧
      ∃ next, btInsert memory .root it = some (next, some it) ∧
        Holds next shape (next.link .root) ∧ next.K = memory.K ∧ next.V = memory.V ∧
        next.depth = memory.depth ∧
        ∀ slot, slot.owner ≠ some it → next.link slot = memory.link slot

section Variants

variable {it : NodePtr}

theorem SearchTree.btInsert_present_unchanged (tree : SearchTree memory shape)
    (fresh : it ∉ addrs shape) {cell : TreeCell} {left right : Shape}
    (present : shape.subtree (way memory (memory.K it) shape) = node cell left right) :
    ∃ next, btInsert memory .root it = some (next, some it) ∧
      Holds next shape (next.link .root) ∧ next.K = memory.K ∧ next.V = memory.V ∧
      next.depth = memory.depth ∧
      ∀ slot, slot.owner ≠ some it → next.link slot = memory.link slot := by
  rcases tree.descend fresh with
    ⟨cleared, buffer, isCleared, treeCleared, descended, records, found⟩
  rw [present] at found
  subst isCleared
  refine ⟨_, ?_, treeCleared.holds, rfl, rfl, rfl, ?_⟩
  · simp [btInsert, descended, found.1]
  · intro slot notOwner
    have notFields := ne_of_notOwner notOwner
    rw [TreeMemory.store_link_of_ne _ _ _ _ notFields.1,
      TreeMemory.store_link_of_ne _ _ _ _ notFields.2]

/-- Different nodes of a search tree have different keys. -/
theorem SearchTree.eq_of_key (tree : SearchTree memory shape) {first second : NodePtr}
    (firstMem : first ∈ addrs shape) (secondMem : second ∈ addrs shape)
    (same : memory.K first = memory.K second) : first = second := by
  have nodup : ((addrs shape).map memory.K).Nodup := by
    rw [addrs, List.map_map, List.nodup_iff_pairwise_ne, List.pairwise_map]
    apply tree.ordered.imp
    intro left right less sameKey
    rw [keyIn, keyIn, show memory.K left.addr = memory.K right.addr from sameKey] at less
    exact lt_irrefl _ less
  exact List.inj_on_of_nodup_map nodup firstMem secondMem same

theorem mem_addrs_graft {path : List Side} {part : Shape} {address : NodePtr}
    (addressMem : address ∈ addrs (shape.graft path part)) :
    address ∈ addrs shape ∨ address ∈ addrs part := by
  fun_induction shape.graft path part with
  | case1 shape part => exact Or.inr addressMem
  | case2 => exact Or.inl addressMem
  | case3 cell left right path part ih | case4 cell left right path part ih =>
      simp only [addrs_node, List.mem_append, List.mem_cons] at addressMem ⊢
      grind

theorem mem_addrs_inserted {address : NodePtr}
    (addressMem : address ∈ addrs (inserted memory it shape)) :
    address ∈ addrs shape ∨ address = it := by
  rw [inserted, addrs_rebalance] at addressMem
  simpa using mem_addrs_graft addressMem

theorem SearchTree.absent_variants (tree : SearchTree memory shape) (fresh : it ∉ addrs shape)
    (absent : Absent memory (memory.K it) shape) :
    ∃ put putIp putIt ipIt putShape ipShape,
      VariantsAgree memory shape it put putIp putIt ipIt putShape ipShape := by
  rcases tree.btInsert_absent fresh absent with ⟨next, ran, holds, sameK, sameV⟩
  rcases tree.btPut_eq_btInsert fresh absent with ⟨putSame, ipSame⟩
  have noKey : ∀ address ∈ addrs shape, memory.K address ≠ memory.K it := by
    intro address addressMem same
    have found := tree.mem_subtree_way addressMem
    rw [same, show shape.subtree _ = nil from absent] at found
    contradiction
  refine ⟨next, next, none, none, _, _, putSame.trans ran, ipSame.trans ran, holds, holds, rfl,
    ?_, fun _ => ⟨ran, rfl, rfl, rfl⟩, ?_⟩
  · conv_lhs => rw [← List.map_id (addrs (inserted memory it shape))]
    apply List.map_congr_left
    intro address addressMem
    rcases mem_addrs_inserted addressMem with inShape | rfl
    · rw [if_neg (noKey address inShape)]
      rfl
    · rw [if_pos rfl]
      rfl
  · intro old oldMem same
    exact absurd same (noKey old oldMem)

theorem SearchTree.present_variants (tree : SearchTree memory shape) (fresh : it ∉ addrs shape)
    {cell : TreeCell} {left right : Shape}
    (present : shape.subtree (way memory (memory.K it) shape) = node cell left right)
    (isKey : memory.K cell.addr = memory.K it) :
    ∃ put putIp putIt ipIt putShape ipShape,
      VariantsAgree memory shape it put putIp putIt ipIt putShape ipShape := by
  rcases tree.btPut_present fresh present with ⟨put, putRun, putHolds, putK, putV⟩
  rcases tree.btPutIp_present fresh present with ⟨putIp, ipRun, ipHolds, ipK, ipV⟩
  have cellMem : cell.addr ∈ addrs shape := by
    apply @mem_addrs_subtree _ (way memory (memory.K it) shape)
    rw [present]
    exact mem_addrs_root
  have isRename : replaced memory it cell left right shape =
      rename (Function.update id cell.addr it)
        (rebalance shape (way memory (memory.K it) shape)) := by
    rw [replaced, graft_eq_rename it tree.placed.nodup present, rename_rebalance]
  refine ⟨put, putIp, _, _, _, _, putRun, ipRun, putHolds, ipHolds, ?_, ?_, ?_, ?_⟩
  · rw [isRename, fields, fields, rename, ← comp_map]
    congr 1
    funext other
    by_cases isOld : other.addr = cell.addr
    · simp [putK, putV, ipK, ipV, isOld, isKey]
    · simp [putK, putV, ipK, ipV, isOld]
  · rw [isRename, addrs_rename, addrs_rebalance]
    apply List.map_congr_left
    intro address addressMem
    by_cases isOld : address = cell.addr
    · subst isOld
      rw [Function.update_self, if_pos isKey]
    · have notKey : memory.K address ≠ memory.K it := by
        intro same
        exact isOld (tree.eq_of_key addressMem cellMem (same.trans isKey.symm))
      rw [Function.update_of_ne isOld, if_neg notKey]
      rfl
  · intro noKey
    exact absurd isKey (noKey cell.addr cellMem)
  · intro old oldMem same
    have isOld : old = cell.addr := tree.eq_of_key oldMem cellMem (same.trans isKey.symm)
    exact ⟨by rw [isOld], rfl, tree.btInsert_present_unchanged fresh present⟩

/-- `bt_put` and `bt_put_ip` leave the same tree up to the node object of a key that was there.
`bt_insert` leaves that tree as well if the key was not there, and the old tree otherwise. -/
theorem SearchTree.variantsAgree (tree : SearchTree memory shape) (fresh : it ∉ addrs shape) :
    ∃ put putIp putIt ipIt putShape ipShape,
      VariantsAgree memory shape it put putIp putIt ipIt putShape ipShape := by
  rcases subtree_way memory (memory.K it) shape with absent | ⟨cell, left, right, present, isKey⟩
  · exact tree.absent_variants fresh absent
  · exact tree.present_variants fresh present isKey

end Variants

/-- The tree with the keys 3 and 9 and another node with the key 9. -/
theorem SearchTree.variantsAgree_nine : ∃ put putIp putIt ipIt putShape ipShape,
    VariantsAgree threeNine
      (node ⟨⟨20480, by decide⟩, 0⟩ nil (node ⟨⟨24576, by decide⟩, 0⟩ nil nil))
      ⟨12288, by decide⟩ put putIp putIt ipIt putShape ipShape :=
  searchTree_threeNine.variantsAgree (by decide)

end Shape

end Rkernel
