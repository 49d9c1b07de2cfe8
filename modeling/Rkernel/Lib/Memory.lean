import Mathlib.Algebra.Group.Nat.Defs
import Mathlib.Data.List.Basic
import Mathlib.Data.List.Pairwise
import Mathlib.Data.List.Perm.Basic
import Mathlib.Data.Nat.Notation

/-!
# Byte memory and its cells

Memory maps addresses to bytes; `read32` and `write32` access little-endian words
at any alignment.

What a program knows about its memory is kept as a list of cells. A cell is a
range of addresses with a property of its contents that nothing outside the range
can change. `Arranged` says that all cells of a list hold and do not overlap; the
frame rule `Arranged.frame` replaces some cells after a change to their contents and
keeps all others.
-/

abbrev Memory := ℕ → BitVec 8

namespace Memory

/-- The little-endian word at an address. -/
def read32 (memory : Memory) (addr : ℕ) : ℕ :=
  (memory addr).toNat + 2 ^ 8 * (memory (addr + 1)).toNat +
    2 ^ 16 * (memory (addr + 2)).toNat + 2 ^ 24 * (memory (addr + 3)).toNat

/-- Store the low 32 bits of a value at an address, in little-endian order. -/
def write32 (memory : Memory) (addr value : ℕ) : Memory := fun byte =>
  if byte = addr then BitVec.ofNat 8 value
  else if byte = addr + 1 then BitVec.ofNat 8 (value / 2 ^ 8)
  else if byte = addr + 2 then BitVec.ofNat 8 (value / 2 ^ 16)
  else if byte = addr + 3 then BitVec.ofNat 8 (value / 2 ^ 24)
  else memory byte

variable {memory other : Memory} {addr target value byte : ℕ}

theorem read32_lt : memory.read32 addr < 2 ^ 32 := by
  have first := (memory addr).isLt
  have second := (memory (addr + 1)).isLt
  have third := (memory (addr + 2)).isLt
  have fourth := (memory (addr + 3)).isLt
  simp only [read32]
  omega

theorem read32_congr (same : ∀ byte, addr ≤ byte → byte < addr + 4 → other byte = memory byte) :
    other.read32 addr = memory.read32 addr := by
  have first := same addr (by omega) (by omega)
  have second := same (addr + 1) (by omega) (by omega)
  have third := same (addr + 2) (by omega) (by omega)
  have fourth := same (addr + 3) (by omega) (by omega)
  simp only [read32, first, second, third, fourth]

theorem write32_of_apart (apart : byte < addr ∨ addr + 4 ≤ byte) :
    memory.write32 addr value byte = memory byte := by
  simp only [write32]
  rw [if_neg (by omega), if_neg (by omega), if_neg (by omega), if_neg (by omega)]

theorem read32_write32_of_apart (apart : target + 4 ≤ addr ∨ addr + 4 ≤ target) :
    (memory.write32 addr value).read32 target = memory.read32 target := by
  apply read32_congr
  intro byte atLeast below
  exact write32_of_apart (by omega)

@[simp]
theorem read32_write32_self :
    (memory.write32 addr value).read32 addr = value % 2 ^ 32 := by
  simp [read32, write32]
  omega

theorem read32_of_zero (zero : ∀ byte, addr ≤ byte → byte < addr + 4 → memory byte = 0) :
    memory.read32 addr = 0 := by
  have first := zero addr (by omega) (by omega)
  have second := zero (addr + 1) (by omega) (by omega)
  have third := zero (addr + 2) (by omega) (by omega)
  have fourth := zero (addr + 3) (by omega) (by omega)
  simp [read32, first, second, third, fourth]

end Memory

/-- A range of addresses and a property of the bytes in it. -/
structure Cell where
  start : ℕ
  size : ℕ
  holds : Memory → Prop
  isLocal : ∀ {memory other : Memory},
    (∀ byte, start ≤ byte → byte < start + size → other byte = memory byte) →
      holds memory → holds other

namespace Cell

/-- The byte is one of the cell. -/
def Contains (cell : Cell) (byte : ℕ) : Prop :=
  cell.start ≤ byte ∧ byte < cell.start + cell.size

/-- The two cells have no byte in common. -/
def Apart (left right : Cell) : Prop :=
  left.start + left.size ≤ right.start ∨ right.start + right.size ≤ left.start

/-- The inner cell is a part of the outer one. -/
def Within (inner outer : Cell) : Prop :=
  outer.start ≤ inner.start ∧ inner.start + inner.size ≤ outer.start + outer.size

theorem Apart.symm {left right : Cell} (apart : left.Apart right) : right.Apart left :=
  Or.symm apart

instance : Std.Symm Apart := ⟨fun _ _ => Apart.symm⟩

theorem Apart.within {inner outer right : Cell} (apart : outer.Apart right)
    (within : inner.Within outer) : inner.Apart right := by
  simp only [Apart, Within] at *
  omega

end Cell

/-- All cells hold, and no two of them overlap. -/
structure Arranged (memory : Memory) (cells : List Cell) : Prop where
  holds : ∀ cell ∈ cells, cell.holds memory
  apart : cells.Pairwise Cell.Apart

namespace Arranged

variable {memory other : Memory} {cells old new rest : List Cell}

theorem perm (arranged : Arranged memory cells) (reordered : cells.Perm rest) :
    Arranged memory rest := by
  refine ⟨fun cell cellMem => arranged.holds cell (reordered.mem_iff.mpr cellMem), ?_⟩
  exact reordered.pairwise arranged.apart Cell.Apart.symm

theorem sublist (arranged : Arranged memory cells) (sub : rest.Sublist cells) :
    Arranged memory rest :=
  ⟨fun cell cellMem => arranged.holds cell (sub.subset cellMem), arranged.apart.sublist sub⟩

/-- Cells change their contents, and are divided, without any effect on the others. -/
theorem frame (arranged : Arranged memory (old ++ rest)) (changed : Arranged other new)
    (within : ∀ cell ∈ new, ∃ outer ∈ old, cell.Within outer)
    (same : ∀ byte, (∀ cell ∈ old, ¬cell.Contains byte) → other byte = memory byte) :
    Arranged other (new ++ rest) := by
  rcases List.pairwise_append.mp arranged.apart with ⟨_, restApart, between⟩
  constructor
  · intro cell cellMem
    rcases List.mem_append.mp cellMem with isNew | isRest
    · exact changed.holds cell isNew
    · apply cell.isLocal _ (arranged.holds cell (List.mem_append_right _ isRest))
      intro byte atLeast below
      apply same
      intro outer outerMem contains
      have apart := between outer outerMem cell isRest
      simp only [Cell.Apart, Cell.Contains] at apart contains
      omega
  · refine List.pairwise_append.mpr ⟨changed.apart, restApart, ?_⟩
    intro cell isNew right isRest
    rcases within cell isNew with ⟨outer, outerMem, inside⟩
    exact (between outer outerMem right isRest).within inside

end Arranged
