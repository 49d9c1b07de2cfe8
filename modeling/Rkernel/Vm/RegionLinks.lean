import Rkernel.Utils.ListNode
import Rkernel.Vm.Pager

/-!
# The lists of the region mappers

`rm_insert` and `rm_ll_lookup` (`vm/region_mapper.c`) walk the list of a region mapper through the
links of its objects. Here the links, the objects and the mappers stand in memory, and the functions
follow pointers. They refine the functions on sequences of children: every sequence of calls is
answered as these answer it, and the links go on to represent the children.

A link may be null, and following it has no result. The address of an object is that of its
`rmo_member`.
-/

namespace Rkernel

universe u

/-- The links, the objects by the addresses of their `rmo_member`, and the sizes of the mappers by
the addresses of their `rm_childs`. -/
structure RegionMemory (Addr : Type u) where
  links : ListHeap Addr
  objects : Addr → RegionMapperObject
  rmSize : Addr → Vaddr

namespace RegionMemory

variable {Addr : Type u} [DecidableEq Addr]

/-- `rmo->rmo_offset = begin;` and `list_add_before`. -/
def addBefore (memory : RegionMemory Addr) (node rmo : Addr) (start : Vaddr) :
    Option (RegionMemory Addr) :=
  (listAddBefore memory.links node rmo).map fun links =>
    { memory with
      links := links
      objects := Function.update memory.objects rmo
        { memory.objects rmo with rmoOffset := start } }

/-- The loop of `rm_insert` from a node on, and what follows the loop. -/
def rmInsertLoop (memory : RegionMemory Addr) (list rmo : Addr) :
    (bound : ℕ) → (start : Vaddr) → (node : Option Addr) → Option (ℤ × RegionMemory Addr)
  | bound + 1, start, some node =>
      if node = list then
        if start + (memory.objects rmo).rmoSize > memory.rmSize list then some (0, memory)
        else (memory.addBefore list rmo start).map fun next => (-1, next)
      else
        let other := memory.objects node
        if start + (memory.objects rmo).rmoSize > other.rmoOffset then
          memory.rmInsertLoop list rmo bound (other.rmoOffset + other.rmoSize)
            (memory.links node).next
        else (memory.addBefore node rmo start).map fun next => (-1, next)
  | _, _, _ => none

def rmInsert (memory : RegionMemory Addr) (bound : ℕ) (list rmo : Addr) :
    Option (ℤ × RegionMemory Addr) :=
  memory.rmInsertLoop list rmo bound 0 (memory.links list).next

/-- The loop of `rm_ll_lookup` from a node on. -/
def rmLlLookupLoop (memory : RegionMemory Addr) (list : Addr) (fault : PageFault)
    (type : RmoType) : (bound : ℕ) → (node : Option Addr) → Option (ℕ × PageFault × RmoType)
  | bound + 1, some node =>
      if node = list then some (0, fault, type)
      else
        let object := memory.objects node
        if fault.ptr < object.rmoOffset then some (0, fault, type)
        else if fault.ptr < object.rmoOffset + object.rmoSize then
          if object.rmoType = .undefined then some (0, fault, type)
          else some (object.rmoObject, fault.enter object, object.rmoType)
        else memory.rmLlLookupLoop list fault type bound (memory.links node).next
  | _, _ => none

def rmLlLookup (memory : RegionMemory Addr) (bound : ℕ) (list : Addr) (fault : PageFault)
    (type : RmoType) : Option (ℕ × PageFault × RmoType) :=
  memory.rmLlLookupLoop list fault type bound (memory.links list).next

section Walk

variable {memory : RegionMemory Addr} {list rmo left : Addr} {back : List Addr} {bound : ℕ}
  {start : Vaddr}

/-- The search stops where the search on the sequence stops. -/
theorem rmInsertLoop_eq (segment : memory.links.Segment left back list) (notHead : list ∉ back)
    (enough : back.length < bound) :
    (Rkernel.rmInsertLoop (memory.rmSize list) (memory.objects rmo) start
        (back.map memory.objects) = none ∧
      memory.rmInsertLoop list rmo bound start (memory.links left).next = some (0, memory)) ∨
    ∃ before after place, back = before ++ after ∧
      Rkernel.rmInsertLoop (memory.rmSize list) (memory.objects rmo) start
          (back.map memory.objects) =
        some (before.map memory.objects ++
          { memory.objects rmo with rmoOffset := place } :: after.map memory.objects,
          { memory.objects rmo with rmoOffset := place }) ∧
      memory.rmInsertLoop list rmo bound start (memory.links left).next =
        (memory.addBefore (after.headD list) rmo place).map fun next => (-1, next) := by
  induction back generalizing left start bound with
  | nil =>
      cases bound with
      | zero => exact absurd enough (Nat.not_lt_zero _)
      | succ bound =>
          rw [segment.next_left, List.headD_nil, rmInsertLoop, if_pos rfl, List.map_nil,
            Rkernel.rmInsertLoop]
          split
          · exact Or.inl ⟨rfl, rfl⟩
          · exact Or.inr ⟨[], [], start, rfl, rfl, rfl⟩
  | cons node back ih =>
      cases bound with
      | zero => exact absurd enough (Nat.not_lt_zero _)
      | succ bound =>
          have isNode : node ≠ list := fun same => notHead (by simp [same])
          have notLater : list ∉ back := fun later => notHead (List.mem_cons_of_mem _ later)
          rw [segment.next_left, List.headD_cons, rmInsertLoop, if_neg isNode, List.map_cons,
            Rkernel.rmInsertLoop]
          simp only
          split
          · rcases @ih node _ _ segment.2 notLater (Nat.lt_of_succ_lt_succ enough) with
              ⟨failed, walked⟩ | ⟨before, after, place, isSplit, found, walked⟩
            · left
              rw [failed, walked]
              exact ⟨rfl, rfl⟩
            · right
              refine ⟨node :: before, after, place, by rw [isSplit]; rfl, ?_, walked⟩
              rw [found]
              rfl
          · exact Or.inr ⟨[], node :: back, start, rfl, rfl, rfl⟩

theorem rmLlLookupLoop_eq (segment : memory.links.Segment left back list) (notHead : list ∉ back)
    (enough : back.length < bound) (fault : PageFault) (type : RmoType) :
    memory.rmLlLookupLoop list fault type bound (memory.links left).next =
      some (Rkernel.rmLlLookupLoop fault type (back.map memory.objects)) := by
  induction back generalizing left bound with
  | nil =>
      cases bound with
      | zero => exact absurd enough (Nat.not_lt_zero _)
      | succ bound =>
          rw [segment.next_left, List.headD_nil, rmLlLookupLoop, if_pos rfl]
          rfl
  | cons node back ih =>
      cases bound with
      | zero => exact absurd enough (Nat.not_lt_zero _)
      | succ bound =>
          have isNode : node ≠ list := fun same => notHead (by simp [same])
          have notLater : list ∉ back := fun later => notHead (List.mem_cons_of_mem _ later)
          rw [segment.next_left, List.headD_cons, rmLlLookupLoop, if_neg isNode, List.map_cons,
            Rkernel.rmLlLookupLoop]
          simp only
          split
          · rfl
          · split
            · split
              · rfl
              · rfl
            · exact ih segment.2 notLater (Nat.lt_of_succ_lt_succ enough)

end Walk

end RegionMemory

/-- A call: an object that is on no list is made and filled in, is inserted, or is looked up. -/
inductive RegionCall (Key Addr : Type u) where
  | construct (rmo : Addr) (object : RegionMapperObject)
  | insert (key : Key) (rmo : Addr)
  | lookup (key : Key) (fault : PageFault) (type : RmoType)

/-- What a call returns. -/
inductive RegionAnswer where
  | constructed
  | status (ret : ℤ)
  | found (object : ℕ) (fault : PageFault) (type : RmoType)

namespace RegionMemory

variable {Key Addr : Type u} [DecidableEq Addr]

/-- `list_clear` of the member of an object, and its other fields. -/
def construct (memory : RegionMemory Addr) (rmo : Addr) (object : RegionMapperObject) :
    RegionMemory Addr :=
  { memory with
    links := Function.update memory.links rmo ⟨none, none, (memory.links rmo).data⟩
    objects := Function.update memory.objects rmo object }

def perform (heads : Key → Addr) (bound : ℕ) (memory : RegionMemory Addr) :
    RegionCall Key Addr → Option (RegionAnswer × RegionMemory Addr)
  | .construct rmo object => some (.constructed, memory.construct rmo object)
  | .insert key rmo =>
      (memory.rmInsert bound (heads key) rmo).map fun answer => (.status answer.1, answer.2)
  | .lookup key fault type =>
      (memory.rmLlLookup bound (heads key) fault type).map fun answer =>
        (.found answer.1 answer.2.1 answer.2.2, memory)

def performAll (heads : Key → Addr) (bound : ℕ) :
    List (RegionCall Key Addr) → RegionMemory Addr → Option (List RegionAnswer × RegionMemory Addr)
  | [], memory => some ([], memory)
  | call :: calls, memory => do
      let (answer, next) ← memory.perform heads bound call
      let (answers, last) ← performAll heads bound calls next
      return (answer :: answers, last)

end RegionMemory

/-- Region mappers as sequences, the objects, and those that are on a list. -/
structure RegionModel (Key Addr : Type u) where
  rms : Key → RegionMapper
  objects : Addr → RegionMapperObject
  linked : List Addr

namespace RegionModel

variable {Key Addr : Type u} [DecidableEq Key] [DecidableEq Addr]

/-- The object is on no list. -/
def Unlinked (heads : Key → Addr) (model : RegionModel Key Addr) (rmo : Addr) : Prop :=
  rmo ∉ model.linked ∧ ∀ key, rmo ≠ heads key

def Allows (heads : Key → Addr) (model : RegionModel Key Addr) : RegionCall Key Addr → Prop
  | .construct rmo _ => model.Unlinked heads rmo
  | .insert _ rmo => model.Unlinked heads rmo
  | .lookup _ _ _ => True

def perform (model : RegionModel Key Addr) :
    RegionCall Key Addr → RegionAnswer × RegionModel Key Addr
  | .construct rmo object =>
      (.constructed, { model with objects := Function.update model.objects rmo object })
  | .insert key rmo =>
      let inserted := rmInsert (model.rms key) (model.objects rmo)
      if inserted.1 = 0 then (.status 0, model)
      else
        (.status inserted.1,
          { rms := Function.update model.rms key inserted.2.1
            objects := Function.update model.objects rmo inserted.2.2
            linked := rmo :: model.linked })
  | .lookup key fault type =>
      let found := rmLlLookup (model.rms key) fault type
      (.found found.1 found.2.1 found.2.2, model)

def performAll : List (RegionCall Key Addr) → RegionModel Key Addr →
    List RegionAnswer × RegionModel Key Addr
  | [], model => ([], model)
  | call :: calls, model =>
      let (answer, next) := model.perform call
      let (answers, last) := performAll calls next
      (answer :: answers, last)

/-- No call makes or inserts an object that is on a list. -/
def AllowsAll (heads : Key → Addr) : List (RegionCall Key Addr) → RegionModel Key Addr → Prop
  | [], _ => True
  | call :: calls, model =>
      model.Allows heads call ∧ AllowsAll heads calls (model.perform call).2

end RegionModel

/-- The links represent the children of all mappers. -/
structure RegionMemory.Represents {Key Addr : Type u} (heads : Key → Addr)
    (memory : RegionMemory Addr) (model : RegionModel Key Addr) (nodes : Key → List Addr) :
    Prop where
  rings : memory.links.Rings heads nodes
  childs : ∀ key, (model.rms key).rmChilds = (nodes key).map memory.objects
  sizes : ∀ key, (model.rms key).rmSize = memory.rmSize (heads key)
  objects : model.objects = memory.objects
  linked : ∀ key, ∀ addr ∈ nodes key, addr ∈ model.linked

namespace RegionMemory.Represents

variable {Key Addr : Type u} [DecidableEq Key] [DecidableEq Addr] {heads : Key → Addr}
  {memory : RegionMemory Addr} {model : RegionModel Key Addr} {nodes : Key → List Addr}
  {key : Key} {rmo : Addr} {bound : ℕ}

omit [DecidableEq Key] [DecidableEq Addr] in
theorem length_le (represents : memory.Represents heads model nodes) (key : Key) :
    (nodes key).length ≤ model.linked.length := by
  have nodup := (List.nodup_cons.mp (represents.rings.isRing key).nodup).2
  exact (List.subperm_of_subset nodup (represents.linked key)).length_le

omit [DecidableEq Key] [DecidableEq Addr] in
theorem fresh (represents : memory.Represents heads model nodes)
    (unlinked : model.Unlinked heads rmo) (key : Key) : rmo ∉ heads key :: nodes key := by
  rw [List.mem_cons, not_or]
  exact ⟨unlinked.2 key, fun isNode => unlinked.1 (represents.linked key rmo isNode)⟩

omit [DecidableEq Key] in
/-- What is written to an object on no list does not change what the lists represent. -/
theorem map_update (represents : memory.Represents heads model nodes)
    (unlinked : model.Unlinked heads rmo) (key : Key) (object : RegionMapperObject) :
    (nodes key).map (Function.update memory.objects rmo object) =
      (nodes key).map memory.objects := by
  apply List.map_congr_left
  intro addr isNode
  apply Function.update_of_ne
  rintro rfl
  exact represents.fresh unlinked key (List.mem_cons_of_mem _ isNode)

omit [DecidableEq Key] in
theorem construct (represents : memory.Represents heads model nodes)
    (unlinked : model.Unlinked heads rmo) (object : RegionMapperObject) :
    (memory.construct rmo object).Represents heads
      { model with objects := Function.update model.objects rmo object } nodes := by
  have unwritten (key : Key) (addr : Addr) (isNode : addr ∈ heads key :: nodes key) :
      (memory.construct rmo object).links addr = memory.links addr := by
    apply Function.update_of_ne
    rintro rfl
    exact represents.fresh unlinked key isNode
  refine ⟨⟨fun key => ?_, represents.rings.disjoint⟩, ?_, represents.sizes, ?_, represents.linked⟩
  · apply (represents.rings.isRing key).congr
    · exact fun addr isNode => congrArg RingNode.next (unwritten key addr isNode)
    · exact fun addr isNode => congrArg RingNode.prev (unwritten key addr isNode)
  · intro key
    exact (represents.childs key).trans (represents.map_update unlinked key object).symm
  · change Function.update model.objects rmo object = Function.update memory.objects rmo object
    rw [represents.objects]

omit [DecidableEq Key] in
theorem lookup_eq (represents : memory.Represents heads model nodes)
    (enough : model.linked.length < bound) (key : Key) (fault : PageFault) (type : RmoType) :
    memory.rmLlLookup bound (heads key) fault type =
      some (Rkernel.rmLlLookup (model.rms key) fault type) := by
  have ring := represents.rings.isRing key
  have shorter := represents.length_le key
  rw [rmLlLookup, rmLlLookupLoop_eq ring.segment (List.nodup_cons.mp ring.nodup).1 (by omega),
    Rkernel.rmLlLookup, represents.childs]

/-- The place in front of a node, or at the end if the node is the head. -/
theorem insertBeside_headD {head : Addr} {before after : List Addr}
    (nodup : (head :: (before ++ after)).Nodup) :
    RingHeap.insertBeside head (after.headD head) rmo false (before ++ after) =
      before ++ rmo :: after := by
  rw [List.nodup_cons] at nodup
  cases after with
  | nil => simp [RingHeap.insertBeside_head]
  | cons node after =>
      have notHead : node ≠ head := by
        rintro rfl
        exact nodup.1 (by simp)
      rw [List.headD_cons, RingHeap.insertBeside_mem notHead nodup.2]
      rfl

/-- The object is linked in where the sequence has it. -/
theorem addBefore (represents : memory.Represents heads model nodes)
    (unlinked : model.Unlinked heads rmo) {before after : List Addr}
    (isSplit : nodes key = before ++ after) (place : Vaddr) :
    ∃ next, memory.addBefore (after.headD (heads key)) rmo place = some next ∧
      next.Represents heads
        { rms := Function.update model.rms key
            { model.rms key with rmChilds := before.map memory.objects ++
                { memory.objects rmo with rmoOffset := place } :: after.map memory.objects }
          objects := Function.update model.objects rmo
            { memory.objects rmo with rmoOffset := place }
          linked := rmo :: model.linked }
        (Function.update nodes key (before ++ rmo :: after)) := by
  have nodup := (represents.rings.isRing key).nodup
  rw [isSplit] at nodup
  have atNode : after.headD (heads key) ∈ heads key :: nodes key := by
    rw [isSplit]
    cases after with
    | nil => exact List.mem_cons_self
    | cons node after => simp
  rcases listAddBefore_insertsBeside memory.links heads nodes represents.rings key _ atNode rmo
    (represents.fresh unlinked) with ⟨links, added, rings, -⟩
  rw [isSplit, insertBeside_headD nodup] at rings
  have sameMap := represents.map_update unlinked key { memory.objects rmo with rmoOffset := place }
  rw [isSplit, List.map_append, List.map_append] at sameMap
  have sameMaps := List.append_inj sameMap (by simp)
  refine ⟨_, by rw [RegionMemory.addBefore, added, Option.map_some], rings, ?_, ?_, ?_, ?_⟩
  · intro other
    rcases eq_or_ne other key with rfl | isOther
    · simp only [Function.update_self, List.map_append, List.map_cons, sameMaps.1, sameMaps.2]
    · simp only [Function.update_of_ne isOther]
      rw [represents.childs, represents.map_update unlinked]
  · intro other
    rcases eq_or_ne other key with rfl | isOther
    · simp only [Function.update_self]
      exact represents.sizes other
    · simp only [Function.update_of_ne isOther]
      exact represents.sizes other
  · change Function.update model.objects rmo _ = Function.update memory.objects rmo _
    rw [represents.objects]
  · intro other addr isNode
    rcases eq_or_ne other key with rfl | isOther
    · rw [Function.update_self, List.mem_append, List.mem_cons] at isNode
      rcases isNode with isBefore | rfl | isAfter
      · refine List.mem_cons_of_mem _ (represents.linked other addr ?_)
        rw [isSplit]
        exact List.mem_append_left _ isBefore
      · exact List.mem_cons_self
      · refine List.mem_cons_of_mem _ (represents.linked other addr ?_)
        rw [isSplit]
        exact List.mem_append_right _ isAfter
    · rw [Function.update_of_ne isOther] at isNode
      exact List.mem_cons_of_mem _ (represents.linked other addr isNode)

theorem insert (represents : memory.Represents heads model nodes)
    (unlinked : model.Unlinked heads rmo) (enough : model.linked.length < bound) :
    ∃ next nextNodes, memory.rmInsert bound (heads key) rmo =
        some ((Rkernel.rmInsert (model.rms key) (model.objects rmo)).1, next) ∧
      next.Represents heads (model.perform (.insert key rmo)).2 nextNodes := by
  have ring := represents.rings.isRing key
  have shorter := represents.length_le key
  rw [RegionMemory.rmInsert]
  rcases @rmInsertLoop_eq _ _ memory (heads key) rmo (heads key) (nodes key) bound 0 ring.segment
    (List.nodup_cons.mp ring.nodup).1 (by omega) with
    ⟨failed, walked⟩ | ⟨before, after, place, isSplit, found, walked⟩
  · have answer : Rkernel.rmInsert (model.rms key) (model.objects rmo) =
        (0, model.rms key, model.objects rmo) := by
      rw [Rkernel.rmInsert, represents.childs, represents.sizes, represents.objects, failed]
    refine ⟨memory, nodes, by rw [walked, answer], ?_⟩
    rw [RegionModel.perform, answer]
    exact represents
  · have answer : Rkernel.rmInsert (model.rms key) (model.objects rmo) =
        (-1, { model.rms key with rmChilds := before.map memory.objects ++
          { memory.objects rmo with rmoOffset := place } :: after.map memory.objects },
          { memory.objects rmo with rmoOffset := place }) := by
      simp only [Rkernel.rmInsert, represents.childs, represents.sizes, represents.objects, found]
    rcases represents.addBefore unlinked isSplit place with ⟨next, added, nextRepresents⟩
    refine ⟨next, Function.update nodes key (before ++ rmo :: after),
      by rw [walked, added, answer, Option.map_some], ?_⟩
    rw [RegionModel.perform, answer]
    exact nextRepresents

/-- One call. -/
theorem perform (represents : memory.Represents heads model nodes)
    {call : RegionCall Key Addr} (allowed : model.Allows heads call)
    (enough : model.linked.length < bound) :
    ∃ next nextNodes, memory.perform heads bound call = some ((model.perform call).1, next) ∧
      next.Represents heads (model.perform call).2 nextNodes := by
  cases call with
  | construct rmo object =>
      exact ⟨_, nodes, rfl, represents.construct allowed object⟩
  | insert key rmo =>
      rcases represents.insert allowed enough with ⟨next, nextNodes, inserted, nextRepresents⟩
      refine ⟨next, nextNodes, ?_, nextRepresents⟩
      rw [RegionMemory.perform, inserted, RegionModel.perform, Option.map_some]
      split
      · next isZero => rw [isZero]
      · rfl
  | lookup key fault type =>
      refine ⟨memory, nodes, ?_, represents⟩
      rw [RegionMemory.perform, represents.lookup_eq enough]
      rfl

end RegionMemory.Represents

section Runs

variable {Key Addr : Type u} [DecidableEq Key] [DecidableEq Addr] {heads : Key → Addr}
  {memory : RegionMemory Addr} {model : RegionModel Key Addr} {nodes : Key → List Addr}
  {bound : ℕ}

theorem RegionModel.linked_perform_length (model : RegionModel Key Addr)
    (call : RegionCall Key Addr) :
    (model.perform call).2.linked.length ≤ model.linked.length + 1 := by
  cases call with
  | construct rmo object => exact Nat.le_succ _
  | insert key rmo =>
      simp only [perform]
      split
      · exact Nat.le_succ _
      · exact Nat.le_refl _
  | lookup key fault type => exact Nat.le_succ _

/-- Following the links answers every sequence of calls on any number of region mappers as the
functions on sequences answer it, as long as no object is inserted that is on a list already. No
null link is followed, every walk ends, and the links represent the children afterwards. -/
theorem RegionMemory.Represents.performAll_refines
    (represents : memory.Represents heads model nodes) (calls : List (RegionCall Key Addr))
    (allowed : RegionModel.AllowsAll heads calls model)
    (enough : model.linked.length + calls.length < bound) :
    ∃ last lastNodes, RegionMemory.performAll heads bound calls memory =
        some ((RegionModel.performAll calls model).1, last) ∧
      last.Represents heads (RegionModel.performAll calls model).2 lastNodes := by
  induction calls generalizing memory model nodes with
  | nil => exact ⟨memory, nodes, rfl, represents⟩
  | cons call calls ih =>
      rw [List.length_cons] at enough
      have isEnough : model.linked.length < bound := by omega
      rcases represents.perform allowed.1 isEnough with ⟨next, nextNodes, performed, represented⟩
      have longer := model.linked_perform_length call
      have fewer : (model.perform call).2.linked.length + calls.length < bound := by omega
      rcases ih represented allowed.2 fewer with ⟨last, lastNodes, rest, lastRepresents⟩
      refine ⟨last, lastNodes, ?_, lastRepresents⟩
      rw [RegionMemory.performAll, performed]
      simp only [Option.bind_eq_bind, Option.bind_some, rest]
      rfl

end Runs

section TwoRegions

/-- A mapper of four pages at address 0, as `rm_construct` leaves it. -/
def emptyMapper : RegionMemory ℕ where
  links := listInit (fun _ => ⟨none, none, none⟩) 0
  objects _ := ⟨0, 0, 0, .undefined⟩
  rmSize _ := 0x4000

def emptyModel : RegionModel Unit ℕ where
  rms _ := rmConstruct 0x4000
  objects _ := ⟨0, 0, 0, .undefined⟩
  linked := []

theorem emptyMapper_represents :
    emptyMapper.Represents (fun _ : Unit => 0) emptyModel fun _ => [] := by
  refine ⟨⟨fun _ => RingHeap.reset_isRing, ?_⟩, fun _ => rfl, fun _ => rfl, rfl, by simp⟩
  exact fun key other differ => absurd rfl differ

/-- A region of three pages and one of two that does not fit behind it are inserted; then the second
page is looked up. -/
def threePages : List (RegionCall Unit ℕ) :=
  [.construct 1 ⟨0, 0x3000, 7, .dataspace⟩, .insert () 1, .construct 2 ⟨0, 0x2000, 8, .dataspace⟩,
    .insert () 2, .lookup () ⟨0, 0x1000, 0x4000, 1⟩ .regionMapper]

theorem performAll_refines_threePages : ∃ last lastNodes,
    RegionMemory.performAll (fun _ : Unit => 0) 6 threePages emptyMapper =
        some ((RegionModel.performAll threePages emptyModel).1, last) ∧
      last.Represents (fun _ : Unit => 0) (RegionModel.performAll threePages emptyModel).2
        lastNodes := by
  refine emptyMapper_represents.performAll_refines threePages ?_ (by decide)
  have notHead (rmo : ℕ) (positive : 0 < rmo) (key : Unit) : rmo ≠ (fun _ => 0) key :=
    Nat.ne_of_gt positive
  exact ⟨⟨by decide, notHead 1 (by decide)⟩, ⟨by decide, notHead 1 (by decide)⟩,
    ⟨by decide, notHead 2 (by decide)⟩, ⟨by decide, notHead 2 (by decide)⟩, trivial, trivial⟩

end TwoRegions

end Rkernel
