import Mathlib.Data.Int.Notation
import Mathlib.Data.Nat.Notation
import Rkernel.Lib.Ring

/-!
# Linked rings

The operations of `kern/kern_ring.c` on the heap of `linked_ring` nodes. A link
may be null, and an operation that would dereference a null link has no result.

The specifications say that on disjoint rings the operations are insertion and
deletion in the sequences of the rings; nothing else about the pointers is used
by the queues built on top.
-/

namespace Rkernel

universe u

variable {Addr Data : Type u} [DecidableEq Addr]

/-- `linked_ring_insert`: behind `list` if `after` is set, before it otherwise. -/
def linkedRingInsert (heap : RingHeap Addr Data) (list elem : Addr) (after : Bool) :
    Option (RingHeap Addr Data) := do
  let a ← if after then some list else (heap list).prev
  let c ← if after then (heap list).next else some list
  return heap.splice a elem c

def linkedRingRemove (heap : RingHeap Addr Data) (elem : Addr) :
    Option (RingHeap Addr Data) := do
  let a ← (heap elem).prev
  let c ← (heap elem).next
  return heap.unsplice a c

/-- `linked_ring_empty`: `-1` for an empty ring, `0` otherwise. -/
def linkedRingEmpty (heap : RingHeap Addr Data) (list : Addr) : ℤ :=
  if (heap list).next = some list then -1 else 0

def linkedRingInit (heap : RingHeap Addr Data) (list : Addr) : RingHeap Addr Data :=
  (heap.setNext list list).setPrev list list

section Specifications

variable {heap : RingHeap Addr Data} {head : Addr} {nodes : List Addr}

theorem linkedRingEmpty_eq_zero_iff (ring : heap.IsRing head nodes) :
    linkedRingEmpty heap head = 0 ↔ nodes ≠ [] := by
  rw [← not_iff_not, not_not, ← ring.next_head_eq_iff]
  simp [linkedRingEmpty]

theorem linkedRingRemove_head (ring : heap.IsRing head []) :
    linkedRingRemove heap head = some heap := by
  have next := ring.next_head
  have prev := ring.prev_head
  simp only [List.headD_nil, List.getLastD_nil] at next prev
  have unchanged : heap.unsplice head head = heap := by
    funext addr
    by_cases same : addr = head
    · subst addr
      cases node : heap head
      simp_all [RingHeap.unsplice, RingHeap.setNext, RingHeap.setPrev]
    · simp [RingHeap.unsplice, RingHeap.setNext, RingHeap.setPrev, same]
  simp [linkedRingRemove, next, prev, unchanged]

theorem linkedRingRemove_mem {elem : Addr} {front back : List Addr}
    (ring : heap.IsRing head (front ++ elem :: back)) :
    linkedRingRemove heap elem =
      some (heap.unsplice (front.getLastD head) (back.headD head)) := by
  have turned := ring.rotate
  have next : (heap elem).next = some (back.headD head) := by
    rw [turned.next_head]
    cases back <;> simp
  have prev : (heap elem).prev = some (front.getLastD head) := by
    rw [turned.prev_head]
    simp [List.getLastD_eq_getLast?, List.getLast?_cons]
  simp [linkedRingRemove, next, prev]

theorem linkedRingInsert_rings {Key : Type u} [DecidableEq Key] {heads : Key → Addr}
    {rings : Key → List Addr} (family : heap.Rings heads rings) (key : Key) {elem : Addr}
    (fresh : ∀ other, elem ∉ heads other :: rings other) (after : Bool) :
    ∃ next, linkedRingInsert heap (heads key) elem after = some next ∧
      next.Rings heads (Function.update rings key
        (if after then elem :: rings key else rings key ++ [elem])) := by
  cases after with
  | true =>
      refine ⟨_, ?_, family.splice_after fresh⟩
      simp [linkedRingInsert, (family.isRing key).next_head]
  | false =>
      refine ⟨_, ?_, family.splice_before fresh⟩
      simp [linkedRingInsert, (family.isRing key).prev_head]

theorem linkedRingRemove_rings {Key : Type u} [DecidableEq Key] {heads : Key → Addr}
    {rings : Key → List Addr} (family : heap.Rings heads rings) {key : Key} {elem : Addr}
    {front back : List Addr} (split : rings key = front ++ elem :: back) :
    ∃ next, linkedRingRemove heap elem = some next ∧
      next.Rings heads (Function.update rings key (front ++ back)) := by
  have ring := family.isRing key
  rw [split] at ring
  exact ⟨_, linkedRingRemove_mem ring, family.unsplice split⟩

section Frames

variable {list elem addr : Addr} {after : Bool} {next : RingHeap Addr Data}

theorem linkedRingInsert_data (inserted : linkedRingInsert heap list elem after = some next)
    (addr : Addr) : (next addr).data = (heap addr).data := by
  cases after with
  | true =>
      rcases Option.bind_eq_some_iff.mp inserted with ⟨c, _, spliced⟩
      rw [← Option.some.inj spliced]
      exact RingHeap.splice_data ..
  | false =>
      rcases Option.bind_eq_some_iff.mp inserted with ⟨a, _, spliced⟩
      rw [← Option.some.inj spliced]
      exact RingHeap.splice_data ..

theorem linkedRingRemove_data (removed : linkedRingRemove heap elem = some next) (addr : Addr) :
    (next addr).data = (heap addr).data := by
  rcases Option.bind_eq_some_iff.mp removed with ⟨a, _, removed⟩
  rcases Option.bind_eq_some_iff.mp removed with ⟨c, _, unspliced⟩
  rw [← Option.some.inj unspliced]
  exact RingHeap.unsplice_data ..

/-- An insertion leaves the links of a node alone that is neither on the ring nor inserted. -/
theorem linkedRingInsert_links (ring : heap.IsRing list nodes) (notMem : addr ∉ list :: nodes)
    (different : addr ≠ elem) (inserted : linkedRingInsert heap list elem after = some next) :
    (next addr).next = (heap addr).next ∧ (next addr).prev = (heap addr).prev := by
  have notHead : addr ≠ list := by
    rintro rfl
    exact notMem List.mem_cons_self
  cases after with
  | true =>
      have isNext : next = heap.splice list elem (nodes.headD list) := by
        simpa [linkedRingInsert, ring.next_head] using inserted.symm
      have notFirst : addr ≠ nodes.headD list := by
        rintro rfl
        exact notMem (RingHeap.headD_mem_cons ..)
      rw [isNext]
      exact ⟨RingHeap.splice_next_of_ne notHead different,
        RingHeap.splice_prev_of_ne notFirst different⟩
  | false =>
      have isNext : next = heap.splice (nodes.getLastD list) elem list := by
        simpa [linkedRingInsert, ring.prev_head] using inserted.symm
      have notLast : addr ≠ nodes.getLastD list := by
        rintro rfl
        exact notMem List.getLastD_mem_cons
      rw [isNext]
      exact ⟨RingHeap.splice_next_of_ne notLast different,
        RingHeap.splice_prev_of_ne notHead different⟩

theorem linkedRingRemove_links {front back : List Addr}
    (ring : heap.IsRing head (front ++ elem :: back)) (notMem : addr ∉ head :: (front ++ back))
    (removed : linkedRingRemove heap elem = some next) :
    (next addr).next = (heap addr).next ∧ (next addr).prev = (heap addr).prev := by
  rw [linkedRingRemove_mem ring, Option.some.injEq] at removed
  rw [← removed]
  constructor
  · apply RingHeap.unsplice_next_of_ne
    rintro rfl
    apply notMem
    rw [← List.cons_append]
    exact List.mem_append_left _ List.getLastD_mem_cons
  · apply RingHeap.unsplice_prev_of_ne
    rintro rfl
    apply notMem
    rcases List.mem_cons.mp (RingHeap.headD_mem_cons back head) with isHead | inBack
    · rw [isHead]
      exact List.mem_cons_self
    · exact List.mem_cons_of_mem _ (List.mem_append_right _ inBack)

end Frames

end Specifications

end Rkernel
