import Mathlib.Data.Nat.Notation
import Mathlib.Logic.Function.Basic

/-!
# Binary trees of the virtual memory

The functions of `vm/tree.c`. A node is known by its address, and a `struct
bintree_node **` is a slot: the root pointer, or the `left` or `right` field of a
node. The memory holds what stands in the slots and in the other fields of the
nodes; the field `recycle` is not used by these functions.

A function fails where the code dereferences a null pointer. A search goes from node
to node, so a loop that takes more steps than there are addresses never ends, and
fails as well.
-/

namespace Rkernel

/-- A pointer to a `struct bintree_node` that is not null. -/
abbrev NodePtr := { address : BitVec 32 // address ≠ 0 }

/-- Where a pointer to a node is stored. -/
inductive Slot where
  | root
  | left (node : NodePtr)
  | right (node : NodePtr)
  deriving DecidableEq

/-- The nodes in memory, with their fields, and the root pointer. -/
structure TreeMemory (Value : Type) where
  link : Slot → Option NodePtr
  K : NodePtr → BitVec 32
  V : NodePtr → Value
  depth : NodePtr → BitVec 32

namespace TreeMemory

variable {Value : Type}

def store (memory : TreeMemory Value) (slot : Slot) (pointer : Option NodePtr) :
    TreeMemory Value :=
  { memory with link := Function.update memory.link slot pointer }

def storeDepth (memory : TreeMemory Value) (node : NodePtr) (depth : BitVec 32) :
    TreeMemory Value :=
  { memory with depth := Function.update memory.depth node depth }

def storeV (memory : TreeMemory Value) (node : NodePtr) (value : Value) : TreeMemory Value :=
  { memory with V := Function.update memory.V node value }

end TreeMemory

variable {Value : Type}

def btMax (a b : BitVec 32) : BitVec 32 :=
  if b < a then a else b

def btDepth (memory : TreeMemory Value) : Option NodePtr → BitVec 32
  | some node => memory.depth node
  | none => 0

def btCalcdepth (memory : TreeMemory Value) : Option NodePtr → TreeMemory Value
  | none => memory
  | some node =>
      memory.storeDepth node
        (btMax (btDepth memory (memory.link (.left node)))
          (btDepth memory (memory.link (.right node))) + 1)

def btRotleft (memory : TreeMemory Value) (node : Slot) : Option (TreeMemory Value) := do
  let h ← memory.link node
  let x ← memory.link (.right h)
  let memory := memory.store (.right h) (memory.link (.left x))
  let memory := memory.store (.left x) (some h)
  let memory := btCalcdepth memory (some h)
  let memory := btCalcdepth memory (some x)
  return memory.store node (some x)

def btRotright (memory : TreeMemory Value) (node : Slot) : Option (TreeMemory Value) := do
  let h ← memory.link node
  let x ← memory.link (.left h)
  let memory := memory.store (.left h) (memory.link (.right x))
  let memory := memory.store (.right x) (some h)
  let memory := btCalcdepth memory (some h)
  let memory := btCalcdepth memory (some x)
  return memory.store node (some x)

def btBalance (memory : TreeMemory Value) (node : Slot) : Option (TreeMemory Value) :=
  match memory.link node with
  | none => some memory
  | some h =>
      let l := btDepth memory (memory.link (.left h))
      let r := btDepth memory (memory.link (.right h))
      if r < l ∧ 1 < l - r then btRotright memory node
      else if l < r ∧ 1 < r - l then btRotleft memory node
      else some (btCalcdepth memory (some h))

/-- The array `narr` and its index. -/
structure PathBuffer where
  narr : ℕ → Option Slot
  i : ℕ

namespace PathBuffer

def m64 (i : ℕ) : ℕ :=
  i % 64

/-- The buffer behind the loop that clears it and the store of the first slot. -/
def start (node : Slot) : PathBuffer where
  narr := Function.update (fun _ => none) (m64 64) (some node)
  i := 64

/-- `narr[m64(++i)]=node`. -/
def push (buffer : PathBuffer) (node : Slot) : PathBuffer where
  narr := Function.update buffer.narr (m64 (buffer.i + 1)) (some node)
  i := buffer.i + 1

/-- The end of one iteration of the backtracking: `narr[m64(i)]=0` and `--i`. -/
def pop (buffer : PathBuffer) : PathBuffer where
  narr := Function.update buffer.narr (m64 buffer.i) none
  i := buffer.i - 1

end PathBuffer

/-- The number of pointers, which bounds the length of a path without a cycle. -/
def pathBound : ℕ :=
  4294967296

/-- The loop at the end of every update, over the slots in the buffer. -/
def btBacktrack (balance : TreeMemory Value → Slot → Option (TreeMemory Value)) :
    ℕ → TreeMemory Value → PathBuffer → Option (TreeMemory Value)
  | 0, _, _ => none
  | fuel + 1, memory, buffer =>
      match buffer.narr (PathBuffer.m64 buffer.i) with
      | none => some memory
      | some node => do
          let memory ← balance memory node
          btBacktrack balance fuel memory buffer.pop

/-- The loop that `bt_insert`, `bt_put` and `bt_put_ip` have in common: down to an empty slot or
to the slot of a node with the key. -/
def btDescend (memory : TreeMemory Value) (K : BitVec 32) :
    ℕ → Slot → PathBuffer → Option (Slot × PathBuffer)
  | 0, _, _ => none
  | fuel + 1, node, buffer =>
      match memory.link node with
      | none => some (node, buffer)
      | some n =>
          if K < memory.K n then btDescend memory K fuel (.left n) (buffer.push (.left n))
          else if memory.K n < K then btDescend memory K fuel (.right n) (buffer.push (.right n))
          else some (node, buffer)

/-- The 64 entries of the buffer are cleared one by one. -/
def bufferBound : ℕ :=
  65

/-- The result is the memory and what stands in `*it`. -/
def btInsert (memory : TreeMemory Value) (node : Slot) (it : NodePtr) :
    Option (TreeMemory Value × Option NodePtr) := do
  let K := memory.K it
  let memory := (memory.store (.right it) none).store (.left it) none
  let (node, buffer) ← btDescend memory K pathBound node (PathBuffer.start node)
  match memory.link node with
  | none =>
      let memory := memory.store node (some it)
      let memory ← btBacktrack btBalance bufferBound memory buffer
      return (memory, none)
  | some _ => return (memory, some it)

def btPut (memory : TreeMemory Value) (node : Slot) (it : NodePtr) :
    Option (TreeMemory Value × Option NodePtr) := do
  let K := memory.K it
  let memory := (memory.store (.right it) none).store (.left it) none
  let (node, buffer) ← btDescend memory K pathBound node (PathBuffer.start node)
  match memory.link node with
  | none =>
      let memory := memory.store node (some it)
      let memory ← btBacktrack btBalance bufferBound memory buffer
      return (memory, none)
  | some n =>
      let memory := memory.store (.left it) (memory.link (.left n))
      let memory := memory.store (.right it) (memory.link (.right n))
      let memory := memory.storeDepth it (memory.depth n)
      let memory := memory.store node (some it)
      let memory ← btBacktrack btBalance bufferBound memory buffer
      return (memory, some n)

def btPutIp (memory : TreeMemory Value) (node : Slot) (it : NodePtr) :
    Option (TreeMemory Value × Option NodePtr) := do
  let K := memory.K it
  let memory := (memory.store (.right it) none).store (.left it) none
  let (node, buffer) ← btDescend memory K pathBound node (PathBuffer.start node)
  match memory.link node with
  | none =>
      let memory := memory.store node (some it)
      let memory ← btBacktrack btBalance bufferBound memory buffer
      return (memory, none)
  | some n =>
      let memory := memory.storeV n (memory.V it)
      let memory ← btBacktrack btBalance bufferBound memory buffer
      return (memory, some it)

/-- The first loop of `bt_remove`: the node of the slot is rotated down until it can be unlinked. -/
def btSink : ℕ → TreeMemory Value → Slot → PathBuffer → Option NodePtr →
    Option (TreeMemory Value × PathBuffer × Option NodePtr)
  | 0, _, _, _, _ => none
  | fuel + 1, memory, node, buffer, it =>
      match memory.link node with
      | none => some (memory, buffer, it)
      | some n =>
          if memory.link (.left n) = none then
            some (memory.store node (memory.link (.right n)), buffer, some n)
          else if memory.link (.right n) = none then
            some (memory.store node (memory.link (.left n)), buffer, some n)
          else
            let l := btDepth memory (memory.link (.left n))
            let r := btDepth memory (memory.link (.right n))
            if l ≤ r then do
              let memory ← btRotleft memory node
              let x ← memory.link node
              btSink fuel memory (.left x) (buffer.push (.left x)) it
            else do
              let memory ← btRotright memory node
              let x ← memory.link node
              btSink fuel memory (.right x) (buffer.push (.right x)) it

def btRemove (memory : TreeMemory Value) (node : Slot) (it : Option NodePtr) :
    Option (TreeMemory Value × Option NodePtr) := do
  let (memory, buffer, it) ← btSink pathBound memory node (PathBuffer.start node) it
  let memory ← btBacktrack
    (fun memory node => if (memory.link node).isSome then btBalance memory node else some memory)
    bufferBound memory buffer
  return (memory, it)

def btLookupLoop (memory : TreeMemory Value) (K : BitVec 32) : ℕ → Slot → Option (Option Slot)
  | 0, _ => none
  | fuel + 1, node =>
      match memory.link node with
      | none => some none
      | some n =>
          if K < memory.K n then btLookupLoop memory K fuel (.left n)
          else if memory.K n < K then btLookupLoop memory K fuel (.right n)
          else some (some node)

/-- The outer `Option` is the failure of the loop, the inner one the null result. -/
def btLookup (memory : TreeMemory Value) (node : Slot) (K : BitVec 32) : Option (Option Slot) :=
  btLookupLoop memory K pathBound node

/-- The loop of `bt_floor`, with the local variable `lowermost`. -/
def btFloorLoop (memory : TreeMemory Value) (K : BitVec 32) :
    ℕ → Slot → Option Slot → Option (Option Slot)
  | 0, _, _ => none
  | fuel + 1, node, lowermost =>
      match memory.link node with
      | none => some lowermost
      | some n =>
          if K < memory.K n then btFloorLoop memory K fuel (.left n) lowermost
          else if memory.K n < K then btFloorLoop memory K fuel (.right n) (some node)
          else some (some node)

def btFloor (memory : TreeMemory Value) (node : Slot) (K : BitVec 32) : Option (Option Slot) :=
  btFloorLoop memory K pathBound node none

/-- The loop of `bt_ceiling`, with the local variable `uppermost`. -/
def btCeilingLoop (memory : TreeMemory Value) (K : BitVec 32) :
    ℕ → Slot → Option Slot → Option (Option Slot)
  | 0, _, _ => none
  | fuel + 1, node, uppermost =>
      match memory.link node with
      | none => some uppermost
      | some n =>
          if K < memory.K n then btCeilingLoop memory K fuel (.left n) (some node)
          else if memory.K n < K then btCeilingLoop memory K fuel (.right n) uppermost
          else some (some node)

def btCeiling (memory : TreeMemory Value) (node : Slot) (K : BitVec 32) : Option (Option Slot) :=
  btCeilingLoop memory K pathBound node none

end Rkernel
