import Rkernel.Kern.Ring
import Rkernel.Lib.RingEdit

/-!
# Rings as sequences

On any number of disjoint rings the operations of `kern/kern_ring.c` and of `utils/list.h` are
insertion, deletion, reset and the emptiness test on the sequences of the rings. What an
operation is to do is said once, for any function on heaps, and then proved of each function.

`list` and `elem` may be any nodes of a ring, the head included. Nothing outside the ring that an
operation works on changes.
-/

namespace Rkernel

universe u

section Specifications

variable (Addr Data : Type u) [DecidableEq Addr]

/-- Insertion of an unlinked node beside any node of a ring. -/
def InsertsBeside (after : Bool)
    (insert : RingHeap Addr Data → Addr → Addr → Option (RingHeap Addr Data)) : Prop :=
  ∀ {Key : Type u} [DecidableEq Key] (heap : RingHeap Addr Data) (heads : Key → Addr)
    (rings : Key → List Addr), heap.Rings heads rings →
    ∀ key, ∀ list ∈ heads key :: rings key, ∀ elem, (∀ other, elem ∉ heads other :: rings other) →
      ∃ next, insert heap list elem = some next ∧
        next.Rings heads (Function.update rings key
          (RingHeap.insertBeside (heads key) list elem after (rings key))) ∧
        (∀ addr, addr ≠ elem → addr ∉ heads key :: rings key → next addr = heap addr) ∧
        ∀ addr, (next addr).data = (heap addr).data

/-- Deletion of a node from its ring. When the head goes, the next node takes its place, and a
node that is alone stays as it is. -/
def Deletes (remove : RingHeap Addr Data → Addr → Option (RingHeap Addr Data)) : Prop :=
  ∀ {Key : Type u} [DecidableEq Key] (heap : RingHeap Addr Data) (heads : Key → Addr)
    (rings : Key → List Addr), heap.Rings heads rings →
    ∀ key, (rings key = [] → remove heap (heads key) = some heap) ∧
      (∀ first rest, rings key = first :: rest → ∃ next, remove heap (heads key) = some next ∧
        next.Rings (Function.update heads key first) (Function.update rings key rest) ∧
        (∀ addr, addr ∉ rings key → next addr = heap addr) ∧
        ∀ addr, (next addr).data = (heap addr).data) ∧
      ∀ elem ∈ rings key, ∃ next, remove heap elem = some next ∧
        next.Rings heads (Function.update rings key ((rings key).erase elem)) ∧
        (∀ addr, addr ∉ heads key :: (rings key).erase elem → next addr = heap addr) ∧
        ∀ addr, (next addr).data = (heap addr).data

/-- The head of a ring becomes an empty ring, and so does a node that is on no ring. -/
def Resets (init : RingHeap Addr Data → Addr → RingHeap Addr Data) : Prop :=
  ∀ {Key : Type u} [DecidableEq Key] (heap : RingHeap Addr Data) (heads : Key → Addr)
    (rings : Key → List Addr), heap.Rings heads rings →
    (∀ key, (init heap (heads key)).Rings heads (Function.update rings key [])) ∧
    (∀ list, (∀ key, list ∉ heads key :: rings key) →
      (init heap list).Rings heads rings ∧ (init heap list).IsRing list []) ∧
    ∀ list addr, addr ≠ list → init heap list addr = heap addr

/-- The answer of the emptiness test at any node of a ring. -/
def TestsEmpty (empty : RingHeap Addr Data → Addr → ℤ) : Prop :=
  ∀ {Key : Type u} (heap : RingHeap Addr Data) (heads : Key → Addr) (rings : Key → List Addr),
    heap.Rings heads rings → ∀ key, ∀ list ∈ heads key :: rings key,
      empty heap list = if rings key = [] then -1 else 0

end Specifications

variable {Addr Data : Type u} [DecidableEq Addr]

section Frames

variable {heap next : RingHeap Addr Data} {list elem addr : Addr} {nodes : List Addr}

theorem linkedRingInsert_frame {after : Bool} (ring : heap.IsRing list nodes)
    (different : addr ≠ elem) (notMem : addr ∉ list :: nodes)
    (inserted : linkedRingInsert heap list elem after = some next) : next addr = heap addr := by
  rcases linkedRingInsert_links ring notMem different inserted with ⟨sameNext, samePrev⟩
  exact RingNode.ext sameNext samePrev (linkedRingInsert_data inserted addr)

theorem linkedRingRemove_frame {front back : List Addr}
    (ring : heap.IsRing list (front ++ elem :: back)) (notMem : addr ∉ list :: (front ++ back))
    (removed : linkedRingRemove heap elem = some next) : next addr = heap addr := by
  rcases linkedRingRemove_links ring notMem removed with ⟨sameNext, samePrev⟩
  exact RingNode.ext sameNext samePrev (linkedRingRemove_data removed addr)

end Frames

section LinkedRing

variable {Key : Type u} [DecidableEq Key] {heap : RingHeap Addr Data} {heads : Key → Addr}
  {rings : Key → List Addr} {key : Key} {list elem : Addr}

/-- An insertion beside a node that is not the head, read from that node. -/
theorem linkedRingInsert_mem (family : heap.Rings heads rings) (listMem : list ∈ rings key)
    (fresh : ∀ other, elem ∉ heads other :: rings other) (after : Bool) :
    ∃ next, linkedRingInsert heap list elem after = some next ∧
      next.Rings heads (Function.update rings key
        (RingHeap.insertBeside (heads key) list elem after (rings key))) := by
  rcases List.append_of_mem listMem with ⟨front, back, split⟩
  have nodup := (family.isRing key).nodup
  rw [split, List.nodup_cons, List.mem_append, List.mem_cons] at nodup
  have notHead : list ≠ heads key := fun same => nodup.1 (Or.inr (Or.inl same.symm))
  have reheaded := family.rehead split
  have freshThere : ∀ other, elem ∉ Function.update heads key list other ::
      Function.update rings key (back ++ heads key :: front) other := by
    intro other
    by_cases same : other = key
    · subst other
      have notMem := fresh key
      rw [split] at notMem
      simp only [List.mem_cons, List.mem_append, Function.update_self, not_or] at notMem ⊢
      tauto
    · simpa [same] using fresh other
  rcases linkedRingInsert_rings reheaded key freshThere after with ⟨next, inserted, changed⟩
  rw [Function.update_self] at inserted
  refine ⟨next, inserted, ?_⟩
  rw [split, RingHeap.insertBeside_mem notHead nodup.2]
  rw [Function.update_self, Function.update_idem] at changed
  cases after with
  | true =>
      simpa using RingHeap.Rings.rehead_back (elem :: back) front changed rfl rfl
  | false =>
      simpa using RingHeap.Rings.rehead_back back (front ++ [elem]) changed (by simp) rfl

theorem linkedRingInsert_insertsBeside (after : Bool) :
    InsertsBeside Addr Data after (linkedRingInsert · · · after) := by
  intro Key _ heap heads rings family key list listMem elem fresh
  have inserts : ∃ next, linkedRingInsert heap list elem after = some next ∧
      next.Rings heads (Function.update rings key
        (RingHeap.insertBeside (heads key) list elem after (rings key))) := by
    rcases List.mem_cons.mp listMem with rfl | inRing
    · rw [RingHeap.insertBeside_head]
      exact linkedRingInsert_rings family key fresh after
    · exact linkedRingInsert_mem family inRing fresh after
  rcases inserts with ⟨next, inserted, changed⟩
  rcases (family.isRing key).read_from listMem with ⟨others, ring, same⟩
  refine ⟨next, inserted, changed, ?_, linkedRingInsert_data inserted⟩
  intro addr different notMem
  exact linkedRingInsert_frame ring different (fun inRing => notMem (same.mem_iff.mp inRing))
    inserted

theorem linkedRingRemove_deletes : Deletes Addr Data linkedRingRemove := by
  intro Key _ heap heads rings family key
  refine ⟨?_, ?_, ?_⟩
  · intro isEmpty
    have ring := family.isRing key
    rw [isEmpty] at ring
    exact linkedRingRemove_head ring
  · intro first rest split
    have isFirst : rings key = [] ++ first :: rest := split
    have reheaded := family.rehead isFirst
    have atKey : Function.update rings key (rest ++ [heads key]) key = rest ++ heads key :: [] :=
      Function.update_self ..
    rcases linkedRingRemove_rings reheaded atKey with ⟨next, removed, changed⟩
    rw [Function.update_idem, List.append_nil] at changed
    refine ⟨next, removed, changed, ?_, linkedRingRemove_data removed⟩
    intro addr notMem
    have ring := reheaded.isRing key
    rw [Function.update_self, atKey] at ring
    rw [split] at notMem
    apply linkedRingRemove_frame ring _ removed
    simpa using notMem
  · intro elem elemMem
    rcases List.append_of_mem elemMem with ⟨front, back, split⟩
    have nodup := (List.nodup_cons.mp (family.isRing key).nodup).2
    rw [split, List.nodup_middle, List.nodup_cons, List.mem_append, not_or] at nodup
    have erased : (rings key).erase elem = front ++ back := by
      rw [split, List.erase_append_right _ nodup.1.1, List.erase_cons_head]
    rcases linkedRingRemove_rings family split with ⟨next, removed, changed⟩
    rw [erased]
    refine ⟨next, removed, changed, ?_, linkedRingRemove_data removed⟩
    intro addr notMem
    have ring := family.isRing key
    rw [split] at ring
    exact linkedRingRemove_frame ring notMem removed

theorem linkedRingInit_resets : Resets Addr Data linkedRingInit := by
  intro Key _ heap heads rings family
  refine ⟨family.reset, ?_, fun _ _ => RingHeap.reset_of_ne⟩
  intro list fresh
  refine ⟨⟨?_, family.disjoint⟩, RingHeap.reset_isRing⟩
  intro key
  exact (family.isRing key).reset_frame (fresh key)

theorem linkedRingEmpty_testsEmpty : TestsEmpty Addr Data linkedRingEmpty := by
  intro Key heap heads rings family key list listMem
  rcases (family.isRing key).read_from listMem with ⟨others, ring, same⟩
  have lengths := same.length_eq
  rw [List.length_cons, List.length_cons, Nat.add_right_cancel_iff] at lengths
  have both : others = [] ↔ rings key = [] := by
    rw [← List.length_eq_zero_iff, lengths, List.length_eq_zero_iff]
  rw [linkedRingEmpty]
  exact if_congr (ring.next_head_eq_iff.trans both) rfl rfl

end LinkedRing

end Rkernel
