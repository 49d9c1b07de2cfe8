import Rkernel.Kern.RingRefinement

/-!
# Lists of `list_node`

The functions of `utils/list.h`, on nodes that are links of some larger structure and have no
payload of their own. They rewire the links as the linked rings do, and take the first or the
last node off a list, whose head may be null where it was never initialised.
-/

namespace Rkernel

universe u

/-- A heap of `list_node` structures. -/
abbrev ListHeap (Addr : Type u) : Type u := RingHeap Addr PEmpty.{u + 1}

variable {Addr : Type u} [DecidableEq Addr]

def listInit (heap : ListHeap Addr) (lst : Addr) : ListHeap Addr :=
  (heap.setNext lst lst).setPrev lst lst

def listAddAfter (heap : ListHeap Addr) (a b : Addr) : Option (ListHeap Addr) := do
  let c ← (heap a).next
  return heap.splice a b c

def listAddBefore (heap : ListHeap Addr) (c b : Addr) : Option (ListHeap Addr) := do
  let a ← (heap c).prev
  return heap.splice a b c

def listItemRemove (heap : ListHeap Addr) (elem : Addr) : Option (ListHeap Addr) := do
  let a ← (heap elem).prev
  let c ← (heap elem).next
  return heap.unsplice a c

/-- `list_pop_tail`: the node that was taken, or null. -/
def listPopTail (heap : ListHeap Addr) (list : Addr) : Option (Option Addr × ListHeap Addr) :=
  match (heap list).prev with
  | none => some (none, heap)
  | some ret =>
      if ret = list then some (none, heap)
      else (listItemRemove heap ret).map fun next => (some ret, next)

/-- `list_pop_head`: the node that was taken, or null. -/
def listPopHead (heap : ListHeap Addr) (list : Addr) : Option (Option Addr × ListHeap Addr) :=
  match (heap list).next with
  | none => some (none, heap)
  | some ret =>
      if ret = list then some (none, heap)
      else (listItemRemove heap ret).map fun next => (some ret, next)

/-- Deletion of the node at one end, which is the result; an empty list gives null. -/
def Pops (Addr : Type u) [DecidableEq Addr] (fromTail : Bool)
    (pop : ListHeap Addr → Addr → Option (Option Addr × ListHeap Addr)) : Prop :=
  ∀ {Key : Type u} [DecidableEq Key] (heap : ListHeap Addr) (heads : Key → Addr)
    (rings : Key → List Addr), heap.Rings heads rings →
    ∀ key, (rings key = [] → pop heap (heads key) = some (none, heap)) ∧
      ∀ elem rest, rings key = (if fromTail then rest ++ [elem] else elem :: rest) →
        ∃ next, pop heap (heads key) = some (some elem, next) ∧
          next.Rings heads (Function.update rings key rest) ∧
          ∀ addr, addr ∉ heads key :: rest → next addr = heap addr

theorem listInit_resets : Resets Addr PEmpty listInit :=
  linkedRingInit_resets

theorem listAddAfter_insertsBeside : InsertsBeside Addr PEmpty true listAddAfter := by
  have same : listAddAfter =
      fun (heap : ListHeap Addr) (a b : Addr) => linkedRingInsert heap a b true := by
    funext heap a b
    simp [listAddAfter, linkedRingInsert]
  rw [same]
  exact @linkedRingInsert_insertsBeside Addr PEmpty _ true

theorem listAddBefore_insertsBeside : InsertsBeside Addr PEmpty false listAddBefore := by
  have same : listAddBefore =
      fun (heap : ListHeap Addr) (c b : Addr) => linkedRingInsert heap c b false := by
    funext heap c b
    simp [listAddBefore, linkedRingInsert]
  rw [same]
  exact @linkedRingInsert_insertsBeside Addr PEmpty _ false

theorem listItemRemove_deletes : Deletes Addr PEmpty listItemRemove :=
  linkedRingRemove_deletes

section Pop

variable {Key : Type u} [DecidableEq Key] {heap : ListHeap Addr} {heads : Key → Addr}
  {rings : Key → List Addr} {key : Key} {elem : Addr} {front back : List Addr}

/-- `list_item_remove` of a node of a list. -/
theorem listItemRemove_mem (family : heap.Rings heads rings)
    (split : rings key = front ++ elem :: back) :
    elem ≠ heads key ∧ ∃ next, listItemRemove heap elem = some next ∧
      next.Rings heads (Function.update rings key (front ++ back)) ∧
      ∀ addr, addr ∉ heads key :: (front ++ back) → next addr = heap addr := by
  have ring := family.isRing key
  rw [split] at ring
  have notHead : elem ≠ heads key := by
    rintro rfl
    exact (List.nodup_cons.mp ring.nodup).1 (by simp)
  rcases linkedRingRemove_rings family split with ⟨next, removed, changed⟩
  exact ⟨notHead, next, removed, changed, fun addr notMem =>
    linkedRingRemove_frame ring notMem removed⟩

theorem listPopTail_pops : Pops Addr true listPopTail := by
  intro Key _ heap heads rings family key
  have ring := family.isRing key
  constructor
  · intro isEmpty
    rw [isEmpty] at ring
    simp [listPopTail, ring.prev_head]
  · intro elem rest split
    have isLast : rings key = rest ++ elem :: [] := split
    rcases listItemRemove_mem family isLast with ⟨notHead, next, removed, changed, frame⟩
    rw [List.append_nil] at changed frame
    refine ⟨next, ?_, changed, frame⟩
    rw [isLast] at ring
    have prev : (heap (heads key)).prev = some elem := by
      rw [ring.prev_head]
      simp
    simp [listPopTail, prev, notHead, removed]

theorem listPopHead_pops : Pops Addr false listPopHead := by
  intro Key _ heap heads rings family key
  have ring := family.isRing key
  constructor
  · intro isEmpty
    rw [isEmpty] at ring
    simp [listPopHead, ring.next_head]
  · intro elem rest split
    have isFirst : rings key = [] ++ elem :: rest := split
    rcases listItemRemove_mem family isFirst with ⟨notHead, next, removed, changed, frame⟩
    refine ⟨next, ?_, changed, frame⟩
    rw [isFirst] at ring
    simp [listPopHead, ring.next_head, notHead, removed]

end Pop

end Rkernel
