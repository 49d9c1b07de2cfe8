import Mathlib.Data.List.Nodup
import Mathlib.Data.List.Perm.Basic
import Mathlib.Logic.Function.Basic

/-!
# Circular doubly linked lists in a heap

A heap maps addresses to nodes with two nullable links and a nullable payload.
`Segment heap left nodes right` says that following `next` from `left` visits
exactly `nodes` before it arrives at `right`, and that `prev` undoes every one
of these steps. A ring is a segment from a head back to itself without repeated
addresses.

The two pointer updates that list code is made of are `splice`, which puts a
node between two neighbours, and `unsplice`, which joins two nodes over whatever
was between them. Both are described by what they do to the sequence of a ring,
and both leave every ring alone that does not contain the addresses they write.
-/

universe u v w

/-- A node: two links and a payload, each of which may be null. -/
@[ext]
structure RingNode (Addr : Type u) (Data : Type v) where
  next : Option Addr
  prev : Option Addr
  data : Option Data

abbrev RingHeap (Addr : Type u) (Data : Type v) : Type (max u v) :=
  Addr → RingNode Addr Data

namespace RingHeap

variable {Addr : Type u} {Data : Type v}

section Updates

variable [DecidableEq Addr]

def setNext (heap : RingHeap Addr Data) (addr target : Addr) : RingHeap Addr Data :=
  Function.update heap addr { heap addr with next := some target }

def setPrev (heap : RingHeap Addr Data) (addr target : Addr) : RingHeap Addr Data :=
  Function.update heap addr { heap addr with prev := some target }

def setData (heap : RingHeap Addr Data) (addr : Addr) (payload : Data) : RingHeap Addr Data :=
  Function.update heap addr { heap addr with data := some payload }

/-- Put `b` between `a` and `c`, in the order `a → b → c`, then `a ← b ← c`. -/
def splice (heap : RingHeap Addr Data) (a b c : Addr) : RingHeap Addr Data :=
  (((heap.setNext a b).setNext b c).setPrev c b).setPrev b a

def unsplice (heap : RingHeap Addr Data) (a c : Addr) : RingHeap Addr Data :=
  (heap.setNext a c).setPrev c a

variable (heap : RingHeap Addr Data) (addr other target : Addr)

@[simp]
theorem setNext_next :
    (heap.setNext addr target other).next =
      if other = addr then some target else (heap other).next := by
  by_cases same : other = addr
  · subst other
    simp [setNext]
  · simp [setNext, same]

@[simp]
theorem setNext_prev : (heap.setNext addr target other).prev = (heap other).prev := by
  by_cases same : other = addr
  · subst other
    simp [setNext]
  · simp [setNext, same]

@[simp]
theorem setNext_data : (heap.setNext addr target other).data = (heap other).data := by
  by_cases same : other = addr
  · subst other
    simp [setNext]
  · simp [setNext, same]

@[simp]
theorem setPrev_next : (heap.setPrev addr target other).next = (heap other).next := by
  by_cases same : other = addr
  · subst other
    simp [setPrev]
  · simp [setPrev, same]

@[simp]
theorem setPrev_prev :
    (heap.setPrev addr target other).prev =
      if other = addr then some target else (heap other).prev := by
  by_cases same : other = addr
  · subst other
    simp [setPrev]
  · simp [setPrev, same]

@[simp]
theorem setPrev_data : (heap.setPrev addr target other).data = (heap other).data := by
  by_cases same : other = addr
  · subst other
    simp [setPrev]
  · simp [setPrev, same]

@[simp]
theorem setData_next (payload : Data) :
    (heap.setData addr payload other).next = (heap other).next := by
  by_cases same : other = addr
  · subst other
    simp [setData]
  · simp [setData, same]

@[simp]
theorem setData_prev (payload : Data) :
    (heap.setData addr payload other).prev = (heap other).prev := by
  by_cases same : other = addr
  · subst other
    simp [setData]
  · simp [setData, same]

@[simp]
theorem setData_data (payload : Data) :
    (heap.setData addr payload other).data =
      if other = addr then some payload else (heap other).data := by
  by_cases same : other = addr
  · subst other
    simp [setData]
  · simp [setData, same]

@[simp]
theorem splice_data (a b c : Addr) : (heap.splice a b c other).data = (heap other).data := by
  simp [splice]

@[simp]
theorem unsplice_data (a c : Addr) : (heap.unsplice a c other).data = (heap other).data := by
  simp [unsplice]

end Updates

/-- `right` follows `left` and `left` precedes `right`. -/
def Link (heap : RingHeap Addr Data) (left right : Addr) : Prop :=
  (heap left).next = some right ∧ (heap right).prev = some left

/-- From `left` the links visit exactly `nodes` and then arrive at `right`. -/
def Segment (heap : RingHeap Addr Data) (left : Addr) : List Addr → Addr → Prop
  | [], right => heap.Link left right
  | node :: nodes, right => heap.Link left node ∧ heap.Segment node nodes right

/-- The ring with the given head and the given other nodes, in `next` order. -/
structure IsRing (heap : RingHeap Addr Data) (head : Addr) (nodes : List Addr) : Prop where
  segment : heap.Segment head nodes head
  nodup : (head :: nodes).Nodup

section Segments

variable {heap other : RingHeap Addr Data} {left right middle head : Addr}
  {nodes others front back : List Addr}

theorem segment_append :
    heap.Segment left (front ++ middle :: back) right ↔
      heap.Segment left front middle ∧ heap.Segment middle back right := by
  induction front generalizing left with
  | nil => simp [Segment]
  | cons node front ih => simp [Segment, ih, and_assoc]

theorem Segment.congr (segment : heap.Segment left nodes right)
    (sameNext : ∀ addr ∈ left :: nodes, (other addr).next = (heap addr).next)
    (samePrev : ∀ addr ∈ nodes ++ [right], (other addr).prev = (heap addr).prev) :
    other.Segment left nodes right := by
  induction nodes generalizing left with
  | nil =>
      simp only [Segment, Link] at segment ⊢
      rw [sameNext left (by simp), samePrev right (by simp)]
      exact segment
  | cons node nodes ih =>
      simp only [Segment, Link] at segment ⊢
      rcases segment with ⟨link, rest⟩
      refine ⟨?_, ih rest ?_ ?_⟩
      · rw [sameNext left (by simp), samePrev node (by simp)]
        exact link
      · intro addr addrMem
        exact sameNext addr (List.mem_cons_of_mem _ addrMem)
      · intro addr addrMem
        exact samePrev addr (by simp only [List.cons_append]; exact List.mem_cons_of_mem _ addrMem)

theorem IsRing.congr (ring : heap.IsRing head nodes)
    (sameNext : ∀ addr ∈ head :: nodes, (other addr).next = (heap addr).next)
    (samePrev : ∀ addr ∈ head :: nodes, (other addr).prev = (heap addr).prev) :
    other.IsRing head nodes := by
  refine ⟨ring.segment.congr sameNext ?_, ring.nodup⟩
  intro addr addrMem
  apply samePrev
  simp only [List.mem_append, List.mem_cons, List.not_mem_nil, or_false] at addrMem ⊢
  exact addrMem.symm

theorem Segment.next_left (segment : heap.Segment left nodes right) :
    (heap left).next = some (nodes.headD right) := by
  cases nodes with
  | nil => exact segment.1
  | cons node nodes => exact segment.1.1

theorem Segment.prev_right (segment : heap.Segment left nodes right) :
    (heap right).prev = some (nodes.getLastD left) := by
  rcases List.eq_nil_or_concat' nodes with rfl | ⟨front, last, rfl⟩
  · exact segment.2
  · rw [segment_append] at segment
    simpa [List.getLastD_eq_getLast?] using segment.2.2

/-- A ring can be read from any of its nodes. -/
theorem IsRing.rotate (ring : heap.IsRing head (front ++ middle :: back)) :
    heap.IsRing middle (back ++ head :: front) := by
  have split := segment_append.mp ring.segment
  refine ⟨segment_append.mpr ⟨split.2, split.1⟩, ?_⟩
  have reordered : (middle :: (back ++ head :: front)).Perm
      (head :: (front ++ middle :: back)) := by
    have swap : ((middle :: back) ++ (head :: front)).Perm ((head :: front) ++ (middle :: back)) :=
      List.perm_append_comm
    simpa using swap
  exact reordered.nodup_iff.mpr ring.nodup

theorem IsRing.next_head (ring : heap.IsRing head nodes) :
    (heap head).next = some (nodes.headD head) :=
  ring.segment.next_left

theorem IsRing.prev_head (ring : heap.IsRing head nodes) :
    (heap head).prev = some (nodes.getLastD head) :=
  ring.segment.prev_right

theorem Segment.unique (segment : heap.Segment left nodes right)
    (again : heap.Segment left others right) (notMem : right ∉ nodes) (notOther : right ∉ others) :
    nodes = others := by
  induction nodes generalizing left others with
  | nil =>
      cases others with
      | nil => rfl
      | cons other others =>
          have same := segment.1.symm.trans again.1.1
          simp only [Option.some.injEq] at same
          simp [same] at notOther
  | cons node nodes ih =>
      cases others with
      | nil =>
          have same := again.1.symm.trans segment.1.1
          simp only [Option.some.injEq] at same
          simp [same] at notMem
      | cons other others =>
          have same := segment.1.1.symm.trans again.1.1
          simp only [Option.some.injEq] at same
          subst same
          rw [ih segment.2 again.2 (List.not_mem_of_not_mem_cons notMem)
            (List.not_mem_of_not_mem_cons notOther)]

theorem IsRing.unique (ring : heap.IsRing head nodes) (again : heap.IsRing head others) :
    nodes = others :=
  ring.segment.unique again.segment (List.nodup_cons.mp ring.nodup).1
    (List.nodup_cons.mp again.nodup).1

theorem IsRing.next_head_eq_iff (ring : heap.IsRing head nodes) :
    (heap head).next = some head ↔ nodes = [] := by
  rw [ring.next_head]
  cases nodes with
  | nil => simp
  | cons node nodes =>
      have nodup := ring.nodup
      simp only [List.nodup_cons, List.mem_cons, not_or] at nodup
      simpa using Ne.symm nodup.1.1

end Segments

section Operations

variable [DecidableEq Addr] {heap : RingHeap Addr Data} {head elem : Addr}
  {nodes front back : List Addr}

theorem splice_next_of_ne {a b c addr : Addr} (notA : addr ≠ a) (notB : addr ≠ b) :
    (heap.splice a b c addr).next = (heap addr).next := by
  simp [splice, notA, notB]

theorem splice_prev_of_ne {a b c addr : Addr} (notC : addr ≠ c) (notB : addr ≠ b) :
    (heap.splice a b c addr).prev = (heap addr).prev := by
  simp [splice, notC, notB]

theorem unsplice_next_of_ne {a c addr : Addr} (notA : addr ≠ a) :
    (heap.unsplice a c addr).next = (heap addr).next := by
  simp [unsplice, notA]

theorem unsplice_prev_of_ne {a c addr : Addr} (notC : addr ≠ c) :
    (heap.unsplice a c addr).prev = (heap addr).prev := by
  simp [unsplice, notC]

theorem splice_link_left {a b c : Addr} (different : a ≠ b) :
    (heap.splice a b c).Link a b := by
  simp [splice, Link, different]

theorem splice_link_right {a b c : Addr} (different : c ≠ b) :
    (heap.splice a b c).Link b c := by
  simp [splice, Link, different]

theorem IsRing.splice_after (ring : heap.IsRing head nodes) (fresh : elem ∉ head :: nodes) :
    (heap.splice head elem (nodes.headD head)).IsRing head (elem :: nodes) := by
  have nodup := ring.nodup
  simp only [List.mem_cons, not_or] at fresh
  rcases fresh with ⟨notHead, notNodes⟩
  constructor
  · cases nodes with
    | nil =>
        exact ⟨splice_link_left (Ne.symm notHead), splice_link_right (Ne.symm notHead)⟩
    | cons first rest =>
        simp only [List.mem_cons, not_or] at notNodes
        simp only [List.nodup_cons, List.mem_cons, not_or] at nodup
        refine ⟨splice_link_left (Ne.symm notHead), splice_link_right (Ne.symm notNodes.1), ?_⟩
        apply Segment.congr ring.segment.2
        · intro addr addrMem
          apply splice_next_of_ne
          · rintro rfl
            simp only [List.mem_cons] at addrMem
            exact addrMem.elim nodup.1.1 nodup.1.2
          · rintro rfl
            simp only [List.mem_cons] at addrMem
            exact addrMem.elim notNodes.1 notNodes.2
        · intro addr addrMem
          simp only [List.mem_append, List.mem_singleton] at addrMem
          apply splice_prev_of_ne
          · rintro rfl
            exact addrMem.elim nodup.2.1 (Ne.symm nodup.1.1)
          · rintro rfl
            exact addrMem.elim notNodes.2 notHead
  · simp only [List.nodup_cons, List.mem_cons, not_or] at nodup ⊢
    exact ⟨⟨Ne.symm notHead, nodup.1⟩, notNodes, nodup.2⟩

theorem IsRing.splice_before (ring : heap.IsRing head nodes) (fresh : elem ∉ head :: nodes) :
    (heap.splice (nodes.getLastD head) elem head).IsRing head (nodes ++ [elem]) := by
  rcases List.eq_nil_or_concat' nodes with rfl | ⟨rest, last, rfl⟩
  · exact ring.splice_after fresh
  · rw [List.append_assoc] at *
    have turned : heap.IsRing last (head :: rest) := by
      simpa using ring.rotate
    have freshTurned : elem ∉ last :: head :: rest := by
      simpa [or_comm, or_assoc, or_left_comm] using fresh
    have inserted := turned.splice_after freshTurned
    have back : (elem :: head :: rest) = [elem] ++ head :: rest := rfl
    rw [back] at inserted
    simpa [List.getLastD_eq_getLast?] using inserted.rotate

theorem IsRing.unsplice_cons (ring : heap.IsRing head (elem :: nodes)) :
    (heap.unsplice head (nodes.headD head)).IsRing head nodes := by
  have nodup := ring.nodup
  cases nodes with
  | nil => exact ⟨by simp [Segment, Link, unsplice], by simp⟩
  | cons first rest =>
      simp only [List.nodup_cons, List.mem_cons, not_or] at nodup
      constructor
      · refine ⟨by simp [Link, unsplice], ?_⟩
        apply Segment.congr ring.segment.2.2
        · intro addr addrMem
          have notHead : addr ≠ head := by
            rintro rfl
            simp only [List.mem_cons] at addrMem
            exact addrMem.elim nodup.1.2.1 nodup.1.2.2
          simp [unsplice, notHead]
        · intro addr addrMem
          have notFirst : addr ≠ first := by
            rintro rfl
            simp only [List.mem_append, List.mem_singleton] at addrMem
            exact addrMem.elim nodup.2.2.1 (Ne.symm nodup.1.2.1)
          simp [unsplice, notFirst]
      · simp only [List.nodup_cons, List.mem_cons, not_or]
        exact ⟨nodup.1.2, nodup.2.2⟩

theorem IsRing.unsplice_mem (ring : heap.IsRing head (front ++ elem :: back)) :
    (heap.unsplice (front.getLastD head) (back.headD head)).IsRing head (front ++ back) := by
  rcases List.eq_nil_or_concat' front with rfl | ⟨rest, last, rfl⟩
  · exact ring.unsplice_cons
  · rw [List.append_assoc] at *
    have turned : heap.IsRing last (elem :: (back ++ head :: rest)) := by
      simpa using ring.rotate
    have removed := turned.unsplice_cons
    have sameEnd : (back ++ head :: rest).headD last = back.headD head := by
      cases back <;> rfl
    rw [sameEnd] at removed
    simpa [List.getLastD_eq_getLast?] using removed.rotate

theorem IsRing.splice_frame {a b c : Addr} (ring : heap.IsRing head nodes)
    (notA : a ∉ head :: nodes) (notB : b ∉ head :: nodes) (notC : c ∉ head :: nodes) :
    (heap.splice a b c).IsRing head nodes := by
  apply ring.congr
  · intro addr addrMem
    apply splice_next_of_ne
    · rintro rfl
      exact notA addrMem
    · rintro rfl
      exact notB addrMem
  · intro addr addrMem
    apply splice_prev_of_ne
    · rintro rfl
      exact notC addrMem
    · rintro rfl
      exact notB addrMem

theorem IsRing.unsplice_frame {a c : Addr} (ring : heap.IsRing head nodes)
    (notA : a ∉ head :: nodes) (notC : c ∉ head :: nodes) :
    (heap.unsplice a c).IsRing head nodes := by
  apply ring.congr
  · intro addr addrMem
    apply unsplice_next_of_ne
    rintro rfl
    exact notA addrMem
  · intro addr addrMem
    apply unsplice_prev_of_ne
    rintro rfl
    exact notC addrMem

end Operations

/-- Any number of rings that share no node. -/
structure Rings {Key : Type w} (heap : RingHeap Addr Data) (heads : Key → Addr)
    (nodes : Key → List Addr) : Prop where
  isRing : ∀ key, heap.IsRing (heads key) (nodes key)
  disjoint : ∀ key other, key ≠ other →
    List.Disjoint (heads key :: nodes key) (heads other :: nodes other)

theorem headD_mem_cons (nodes : List Addr) (default : Addr) :
    nodes.headD default ∈ default :: nodes := by
  cases nodes <;> simp

section Families

variable {Key : Type w} [DecidableEq Key] {heap : RingHeap Addr Data}
  {heads : Key → Addr} {nodes : Key → List Addr} {key : Key} {elem : Addr}
  {front back : List Addr}

omit [DecidableEq Key] in
theorem Rings.setData [DecidableEq Addr] (rings : heap.Rings heads nodes) (addr : Addr)
    (payload : Data) : (heap.setData addr payload).Rings heads nodes := by
  refine ⟨fun key => (rings.isRing key).congr ?_ ?_, rings.disjoint⟩
  · exact fun node _ => setData_next heap addr node payload
  · exact fun node _ => setData_prev heap addr node payload

/-- Changing one ring of a family, when the others do not notice. -/
theorem Rings.update {other : RingHeap Addr Data} {changed : List Addr}
    (rings : heap.Rings heads nodes)
    (isRing : other.IsRing (heads key) changed)
    (unchanged : ∀ right, right ≠ key → other.IsRing (heads right) (nodes right))
    (changedMem : ∀ addr ∈ changed, addr ∈ nodes key ∨
      ∀ right, addr ∉ heads right :: nodes right) :
    other.Rings heads (Function.update nodes key changed) := by
  have apart : ∀ right, right ≠ key →
      List.Disjoint (heads key :: changed) (heads right :: nodes right) := by
    intro right different addr addrMem otherMem
    simp only [List.mem_cons] at addrMem
    rcases addrMem with rfl | inChanged
    · exact rings.disjoint key right (Ne.symm different) (by simp) otherMem
    · rcases changedMem addr inChanged with old | fresh
      · exact rings.disjoint key right (Ne.symm different) (List.mem_cons_of_mem _ old) otherMem
      · exact fresh right otherMem
  constructor
  · intro right
    by_cases same : right = key
    · subst right
      simpa using isRing
    · simpa [same] using unchanged right same
  · intro left right different
    by_cases leftSame : left = key
    · subst left
      have rightNe : right ≠ key := Ne.symm different
      simpa [rightNe] using apart right rightNe
    · by_cases rightSame : right = key
      · subst right
        rw [Function.update_self, Function.update_of_ne leftSame]
        intro addr inLeft inKey
        exact apart left leftSame inKey inLeft
      · simpa [leftSame, rightSame] using rings.disjoint left right different

variable [DecidableEq Addr]

theorem Rings.splice_after (rings : heap.Rings heads nodes)
    (fresh : ∀ right, elem ∉ heads right :: nodes right) :
    (heap.splice (heads key) elem ((nodes key).headD (heads key))).Rings heads
      (Function.update nodes key (elem :: nodes key)) := by
  apply rings.update
  · exact (rings.isRing key).splice_after (fresh key)
  · intro right different
    have apart := rings.disjoint key right (Ne.symm different)
    exact (rings.isRing right).splice_frame (fun mem => apart (by simp) mem) (fresh right)
      (fun mem => apart (headD_mem_cons _ _) mem)
  · intro addr addrMem
    simp only [List.mem_cons] at addrMem
    rcases addrMem with rfl | old
    · exact Or.inr fresh
    · exact Or.inl old

theorem Rings.splice_before (rings : heap.Rings heads nodes)
    (fresh : ∀ right, elem ∉ heads right :: nodes right) :
    (heap.splice ((nodes key).getLastD (heads key)) elem (heads key)).Rings heads
      (Function.update nodes key (nodes key ++ [elem])) := by
  apply rings.update
  · exact (rings.isRing key).splice_before (fresh key)
  · intro right different
    have apart := rings.disjoint key right (Ne.symm different)
    exact (rings.isRing right).splice_frame (fun mem => apart List.getLastD_mem_cons mem)
      (fresh right)
      (fun mem => apart (by simp) mem)
  · intro addr addrMem
    simp only [List.mem_append, List.mem_singleton] at addrMem
    rcases addrMem with old | rfl
    · exact Or.inl old
    · exact Or.inr fresh

theorem Rings.unsplice (rings : heap.Rings heads nodes)
    (split : nodes key = front ++ elem :: back) :
    (heap.unsplice (front.getLastD (heads key)) (back.headD (heads key))).Rings heads
      (Function.update nodes key (front ++ back)) := by
  have lastMem : front.getLastD (heads key) ∈ heads key :: nodes key := by
    rw [split, ← List.cons_append]
    exact List.mem_append_left _ List.getLastD_mem_cons
  have headMem : back.headD (heads key) ∈ heads key :: nodes key := by
    rw [split]
    cases back <;> simp
  apply rings.update
  · have ring := rings.isRing key
    rw [split] at ring
    exact ring.unsplice_mem
  · intro right different
    have apart := rings.disjoint key right (Ne.symm different)
    exact (rings.isRing right).unsplice_frame (fun mem => apart lastMem mem)
      (fun mem => apart headMem mem)
  · intro addr addrMem
    left
    rw [split]
    simp only [List.mem_append, List.mem_cons] at addrMem ⊢
    exact addrMem.imp_right Or.inr

end Families

end RingHeap
