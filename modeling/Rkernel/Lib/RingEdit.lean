import Rkernel.Lib.Ring

/-!
# Editing rings at any of their nodes

A ring can be read from each of its nodes, and a family of rings keeps its properties when some
of its rings are read from other nodes. An edit beside any node of a ring is thereby the edit
beside its head.
-/

universe u v w

namespace RingHeap

variable {Addr : Type u} {Data : Type v}

section Sequences

variable [DecidableEq Addr]

/-- The nodes of a ring behind its head after `elem` has been inserted beside `list`. -/
def insertBeside (head list elem : Addr) (after : Bool) (nodes : List Addr) : List Addr :=
  if list = head then if after then elem :: nodes else nodes ++ [elem]
  else nodes.flatMap fun node =>
    if node = list then if after then [node, elem] else [elem, node] else [node]

variable {head list elem : Addr} {after : Bool} {front back : List Addr}

theorem insertBeside_head (nodes : List Addr) :
    insertBeside head head elem after nodes = if after then elem :: nodes else nodes ++ [elem] :=
  if_pos rfl

theorem flatMap_beside_of_notMem {nodes : List Addr} (notMem : list ∉ nodes) :
    (nodes.flatMap fun node =>
      if node = list then if after then [node, elem] else [elem, node] else [node]) = nodes := by
  induction nodes with
  | nil => rfl
  | cons node nodes ih =>
      rw [List.mem_cons, not_or] at notMem
      rw [List.flatMap_cons, if_neg (Ne.symm notMem.1), ih notMem.2, List.singleton_append]

theorem insertBeside_mem (notHead : list ≠ head) (nodup : (front ++ list :: back).Nodup) :
    insertBeside head list elem after (front ++ list :: back) =
      if after then front ++ list :: elem :: back else front ++ elem :: list :: back := by
  rw [List.nodup_middle, List.nodup_cons, List.mem_append, not_or] at nodup
  rw [insertBeside, if_neg notHead, List.flatMap_append, List.flatMap_cons, if_pos rfl,
    flatMap_beside_of_notMem nodup.1.1, flatMap_beside_of_notMem nodup.1.2]
  cases after <;> rfl

end Sequences

section Reading

variable {heap : RingHeap Addr Data} {head list : Addr} {nodes : List Addr}

/-- A ring, read from one of its nodes. -/
theorem IsRing.read_from (ring : heap.IsRing head nodes) (listMem : list ∈ head :: nodes) :
    ∃ others, heap.IsRing list others ∧ (list :: others).Perm (head :: nodes) := by
  rcases List.mem_cons.mp listMem with rfl | inNodes
  · exact ⟨nodes, ring, List.Perm.refl _⟩
  · rcases List.append_of_mem inNodes with ⟨front, back, rfl⟩
    refine ⟨back ++ head :: front, ring.rotate, ?_⟩
    have swap : ((list :: back) ++ (head :: front)).Perm ((head :: front) ++ (list :: back)) :=
      List.perm_append_comm
    simpa using swap

variable {Key : Type w} {heads heads' : Key → Addr} {rings rings' : Key → List Addr}

/-- A family of rings, some of them read from other nodes. -/
theorem Rings.reread (family : heap.Rings heads rings)
    (isRing : ∀ key, heap.IsRing (heads' key) (rings' key))
    (same : ∀ key, (heads' key :: rings' key).Perm (heads key :: rings key)) :
    heap.Rings heads' rings' := by
  refine ⟨isRing, ?_⟩
  intro key other different addr inKey inOther
  exact family.disjoint key other different ((same key).mem_iff.mp inKey)
    ((same other).mem_iff.mp inOther)

variable [DecidableEq Key] {key : Key} {front back : List Addr} {middle : Addr}

/-- A family of rings, one of them read from another node. -/
theorem Rings.rehead (family : heap.Rings heads rings)
    (split : rings key = front ++ middle :: back) :
    heap.Rings (Function.update heads key middle)
      (Function.update rings key (back ++ heads key :: front)) := by
  have ring := family.isRing key
  rw [split] at ring
  apply family.reread
  · intro other
    by_cases same : other = key
    · subst other
      simpa using ring.rotate
    · simpa [same] using family.isRing other
  · intro other
    by_cases same : other = key
    · subst other
      have swap : ((middle :: back) ++ (heads key :: front)).Perm
          ((heads key :: front) ++ (middle :: back)) := List.perm_append_comm
      simpa [split] using swap
    · simp [same]

/-- Reading the ring from its old head again. -/
theorem Rings.rehead_back {first : Addr} {changed : List Addr} (front back : List Addr)
    (family : heap.Rings (Function.update heads key middle) (Function.update rings key changed))
    (split : changed = front ++ first :: back) (isHead : heads key = first) :
    heap.Rings heads (Function.update rings key (back ++ middle :: front)) := by
  have atKey : Function.update rings key changed key = front ++ first :: back := by
    rw [Function.update_self, split]
  have reheaded := family.rehead atKey
  rwa [Function.update_self, Function.update_idem, Function.update_idem, ← isHead,
    Function.update_eq_self] at reheaded

end Reading

section Resets

variable [DecidableEq Addr] {heap : RingHeap Addr Data} {list : Addr}

/-- `list->prev = list->next = list` -/
def reset (heap : RingHeap Addr Data) (list : Addr) : RingHeap Addr Data :=
  (heap.setNext list list).setPrev list list

theorem reset_of_ne {addr : Addr} (different : addr ≠ list) : heap.reset list addr = heap addr := by
  simp [reset, setNext, setPrev, different]

theorem reset_isRing : (heap.reset list).IsRing list [] := by
  refine ⟨?_, by simp⟩
  simp [Segment, Link, reset]

theorem IsRing.reset_frame {head : Addr} {nodes : List Addr} (ring : heap.IsRing head nodes)
    (notMem : list ∉ head :: nodes) : (heap.reset list).IsRing head nodes := by
  have unchanged (addr : Addr) (addrMem : addr ∈ head :: nodes) :
      heap.reset list addr = heap addr := by
    apply reset_of_ne
    rintro rfl
    exact notMem addrMem
  apply ring.congr
  · intro addr addrMem
    rw [unchanged addr addrMem]
  · intro addr addrMem
    rw [unchanged addr addrMem]

theorem Rings.reset {Key : Type w} [DecidableEq Key] {heads : Key → Addr}
    {rings : Key → List Addr} (family : heap.Rings heads rings) (key : Key) :
    (heap.reset (heads key)).Rings heads (Function.update rings key []) := by
  apply family.update reset_isRing
  · intro right different
    apply (family.isRing right).reset_frame
    exact family.disjoint key right (Ne.symm different) List.mem_cons_self
  · simp

end Resets

end RingHeap
