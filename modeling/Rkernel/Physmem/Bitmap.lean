import Mathlib.Data.List.Basic
import Mathlib.Data.Int.Notation
import Rkernel.Lib.BitArray

/-!
# The physical page allocator

`vm_phys_bm_bootinit` (`physmem/phys_bmainit.c`) lays the allocation bitmaps of
up to 16 physical ranges one after another into one static block of words;
`vm_phys_alloc` and `vm_phys_free` (`physmem/phys_bmalloc.c`) search and mark
them. Addresses are 32-bit words. A pointer into the block is the index of the
word it points to.

`slots` lists what the allocator manages: for every page of every map, the
position of its bit in the block and its address, in the order of the search.
-/

namespace Rkernel

abbrev Paddr := BitVec 32

structure PhysmemRange where
  pmBegin : Paddr
  pmEnd : Paddr
  deriving DecidableEq

/-- `struct physmem_bmalloc`; the bitmap starts at a word of the static block. -/
structure PhysmemBmalloc where
  pmbRange : PhysmemRange
  pmbBitmap : ℕ
  pmbLength : Paddr
  deriving DecidableEq

/-- `struct physmem_bmaset` and the words its maps point into. -/
structure PhysmemBmaset where
  pmbMaps : List PhysmemBmalloc
  bitmapBlock : BitArray 32

/-- `UNUMBER`, the number of words in `bitmap_block`. -/
def unumber : ℕ := 0x1000

/-- `NNUMBER`, the number of preallocated maps. -/
def nnumber : ℕ := 0x10

def mulPagesize (x : BitVec 32) : BitVec 32 :=
  x <<< 12

def divPagesize (x : BitVec 32) : BitVec 32 :=
  x >>> 12

def bit32 (index : ℕ) : BitVec 32 :=
  1#32 <<< (index % 32)

/-- The inner loop of `vm_phys_bm_bootinit`: zero words from `current` on until `remaining` are
done or the block ends, counting them in `j`. -/
def clearWords (current : ℕ) : (remaining j : ℕ) → BitArray 32 → ℕ × BitArray 32
  | 0, j, words => (j, words)
  | remaining + 1, j, words =>
      if unumber ≤ current + j then (j, words)
      else clearWords current remaining (j + 1) (Function.update words (current + j) 0)

/-- The variables and outputs of `vm_phys_bm_bootinit`. -/
structure BootState where
  maps : List PhysmemBmalloc
  words : BitArray 32
  current : ℕ
  outIndex : ℕ
  outAddress : Paddr

/-- The loop of `vm_phys_bm_bootinit` from range `i` on, with the status it returns. -/
def bootLoop (nRanges : ℕ) : ℕ → List PhysmemRange → BootState → ℤ × BootState
  | _, [], state => (0, state)
  | i, range :: ranges, state =>
      if nnumber ≤ i then
        (-1, { state with outIndex := i, outAddress := range.pmBegin })
      else
        let m := divPagesize (range.pmEnd - range.pmBegin)
        let n := (m + 31) >>> 5
        let cleared := clearWords state.current n.toNat 0 state.words
        let j := cleared.1
        let k := BitVec.ofNat 32 j <<< 5
        let k := if k > m then m else k
        let next := { state with
          maps := state.maps ++ [⟨range, state.current, k⟩]
          words := cleared.2
          current := state.current + j }
        if unumber ≤ next.current then
          let address := range.pmBegin + mulPagesize (BitVec.ofNat 32 j <<< 5)
          let next := { next with outIndex := i, outAddress := address }
          if address ≥ range.pmEnd ∧ i + 1 ≥ nRanges then (0, next) else (-1, next)
        else
          bootLoop nRanges (i + 1) ranges next

/-- `vm_phys_bm_bootinit`, over whatever the block held before. -/
def vmPhysBmBootinit (ranges : List PhysmemRange) (words : BitArray 32) (outIndex : ℕ)
    (outAddress : Paddr) : ℤ × BootState :=
  bootLoop ranges.length 0 ranges ⟨[], words, 0, outIndex, outAddress⟩

/-- The loop of `bitmap_search` from index `i` on. -/
def bitmapSearchLoop (map : PhysmemBmalloc) (words : BitArray 32) :
    (remaining i : ℕ) → Option (Paddr × BitArray 32)
  | 0, _ => none
  | remaining + 1, i =>
      let word := map.pmbBitmap + i / 32
      if words word &&& bit32 i ≠ 0 then
        bitmapSearchLoop map words remaining (i + 1)
      else
        some (mulPagesize (BitVec.ofNat 32 i) + map.pmbRange.pmBegin,
          Function.update words word (words word ||| bit32 i))

def bitmapSearch (map : PhysmemBmalloc) (words : BitArray 32) : Option (Paddr × BitArray 32) :=
  bitmapSearchLoop map words map.pmbLength.toNat 0

/-- The loop of `vm_phys_alloc` over the maps. -/
def searchMaps (words : BitArray 32) : List PhysmemBmalloc → Option (Paddr × BitArray 32)
  | [] => none
  | map :: maps =>
      match bitmapSearch map words with
      | some found => some found
      | none => searchMaps words maps

/-- `vm_phys_alloc`: the page it hands out, if any. -/
def vmPhysAlloc (set : PhysmemBmaset) : Option Paddr × PhysmemBmaset :=
  match searchMaps set.bitmapBlock set.pmbMaps with
  | some (page, words) => (some page, { set with bitmapBlock := words })
  | none => (none, set)

/-- The loop of `vm_phys_free` over the maps, with the status. -/
def freeMaps (words : BitArray 32) (page : Paddr) : List PhysmemBmalloc → ℤ × BitArray 32
  | [] => (0, words)
  | map :: maps =>
      if map.pmbRange.pmBegin < page ∨ map.pmbRange.pmEnd ≥ page then
        freeMaps words page maps
      else
        let j := (divPagesize (page - map.pmbRange.pmBegin)).toNat
        let word := map.pmbBitmap + j / 32
        (-1, Function.update words word (words word &&& ~~~bit32 j))

def vmPhysFree (set : PhysmemBmaset) (page : Paddr) : ℤ × PhysmemBmaset :=
  let freed := freeMaps set.bitmapBlock page set.pmbMaps
  (freed.1, { set with bitmapBlock := freed.2 })

/-- The pages of one map: bit position and address. -/
def PhysmemBmalloc.slots (map : PhysmemBmalloc) : List (ℕ × Paddr) :=
  (List.range map.pmbLength.toNat).map fun i =>
    (32 * map.pmbBitmap + i, mulPagesize (BitVec.ofNat 32 i) + map.pmbRange.pmBegin)

/-- The pages of all maps, in the order of the search. -/
def PhysmemBmaset.slots (set : PhysmemBmaset) : List (ℕ × Paddr) :=
  set.pmbMaps.flatMap PhysmemBmalloc.slots

/-- The page at an address is inside the range. -/
def PhysmemRange.ContainsPage (range : PhysmemRange) (page : Paddr) : Prop :=
  range.pmBegin.toNat ≤ page.toNat ∧ page.toNat + 4096 ≤ range.pmEnd.toNat

def PhysmemRange.Contains (range : PhysmemRange) (address : Paddr) : Prop :=
  range.pmBegin ≤ address ∧ address < range.pmEnd

/-- Page-aligned ranges that do not overlap. -/
structure ValidRanges (ranges : List PhysmemRange) : Prop where
  beginAligned : ∀ range ∈ ranges, range.pmBegin.toNat % 4096 = 0
  endAligned : ∀ range ∈ ranges, range.pmEnd.toNat % 4096 = 0
  ordered : ∀ range ∈ ranges, range.pmBegin ≤ range.pmEnd
  disjoint : ranges.Pairwise fun left right =>
    ∀ address, ¬(left.Contains address ∧ right.Contains address)

end Rkernel
