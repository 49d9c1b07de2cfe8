import Mathlib.Algebra.Group.Nat.Defs
import Mathlib.Data.Nat.Notation
import Mathlib.Logic.Function.Basic

/-!
# Bit arrays

An array of machine words read as one sequence of bits: bit `index` is bit
`index % width` of word `index / width`. Testing, setting and clearing a bit by
masking one word are described by their effect on that sequence.
-/

abbrev BitArray (width : ℕ) := ℕ → BitVec width

namespace BitArray

variable {width : ℕ}

def bit (words : BitArray width) (index : ℕ) : Bool :=
  (words (index / width)).getLsbD (index % width)

/-- Set a bit by or-ing its mask into its word. -/
def setBit (words : BitArray width) (index : ℕ) : BitArray width :=
  Function.update words (index / width)
    (words (index / width) ||| BitVec.twoPow width (index % width))

theorem index_eq_iff (width : ℕ) {left right : ℕ} :
    left = right ↔ left / width = right / width ∧ left % width = right % width := by
  constructor
  · rintro rfl
    exact ⟨rfl, rfl⟩
  · rintro ⟨sameWord, sameBit⟩
    rw [← Nat.div_add_mod left width, ← Nat.div_add_mod right width, sameWord, sameBit]

theorem and_twoPow_ne_zero_iff (positive : 0 < width) (words : BitArray width) (index : ℕ) :
    words (index / width) &&& BitVec.twoPow width (index % width) ≠ 0 ↔
      words.bit index = true := by
  have inWord := Nat.mod_lt index positive
  have nonzero : BitVec.twoPow width (index % width) ≠ (0 : BitVec width) := by
    intro isZero
    have here := congrArg (fun word => word.getLsbD (index % width)) isZero
    simp [inWord] at here
  rw [BitVec.and_twoPow, bit]
  split <;> simp_all

theorem bit_setBit (positive : 0 < width) (words : BitArray width) (index other : ℕ) :
    (words.setBit index).bit other = (decide (other = index) || words.bit other) := by
  have inWord := Nat.mod_lt other positive
  by_cases sameWord : other / width = index / width
  · have split : other = index ↔ index % width = other % width := by
      rw [index_eq_iff width]
      simp [sameWord, eq_comm]
    have indexInWord := Nat.mod_lt index positive
    simp [bit, setBit, sameWord, BitVec.getLsbD_or, BitVec.getLsbD_twoPow, indexInWord, split,
      Bool.or_comm]
  · have different : other ≠ index := by
      rintro rfl
      exact sameWord rfl
    simp [bit, setBit, sameWord, different]

end BitArray
