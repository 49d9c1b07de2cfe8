import Mathlib.Algebra.Group.Nat.Defs
import Mathlib.Data.Nat.Notation

/-!
# Masked machine words

Addresses are split into a page and an offset by masks of the form `2 ^ k - 1`; such words
are described by the remainder and the quotient of their numbers. Other words hold flags, of
which one is set or cleared and the rest kept.
-/

namespace BitVec

variable {w k : ℕ}

section LowMask

variable {mask : BitVec w}

/-- A mask of the `k` lowest bits. -/
def IsLowMask (mask : BitVec w) (k : ℕ) : Prop :=
  mask.toNat = 2 ^ k - 1

theorem IsLowMask.getLsbD (isMask : mask.IsLowMask k) (i : ℕ) :
    mask.getLsbD i = decide (i < k) := by
  rw [← testBit_toNat, isMask, Nat.testBit_two_pow_sub_one]

theorem IsLowMask.toNat_and (isMask : mask.IsLowMask k) (word : BitVec w) :
    (word &&& mask).toNat = word.toNat % 2 ^ k := by
  rw [BitVec.toNat_and, isMask, Nat.and_two_pow_sub_one_eq_mod]

theorem IsLowMask.and_not (isMask : mask.IsLowMask k) (word : BitVec w) :
    word &&& ~~~mask = (word >>> k) <<< k := by
  apply eq_of_getLsbD_eq
  intro i inWord
  rw [getLsbD_and, getLsbD_not, isMask.getLsbD, getLsbD_shiftLeft, getLsbD_ushiftRight]
  by_cases low : i < k
  · simp [inWord, low]
  · have sum : k + (i - k) = i := by omega
    simp [inWord, low, sum]

theorem IsLowMask.toNat_and_not (isMask : mask.IsLowMask k) (word : BitVec w) :
    (word &&& ~~~mask).toNat = word.toNat / 2 ^ k * 2 ^ k := by
  have fits : word.toNat / 2 ^ k * 2 ^ k < 2 ^ w :=
    Nat.lt_of_le_of_lt (Nat.div_mul_le_self _ _) word.isLt
  rw [isMask.and_not, toNat_shiftLeft, toNat_ushiftRight, Nat.shiftLeft_eq,
    Nat.shiftRight_eq_div_pow, Nat.mod_eq_of_lt fits]

end LowMask

section Flags

variable {flag mask : BitVec w}

theorem setFlag_and (flags : BitVec w) (apart : flag &&& mask = 0) :
    (flags ||| flag) &&& mask = flags &&& mask := by
  rw [and_or_distrib_right, apart]
  exact or_zero

theorem clearFlag_and (flags : BitVec w) (apart : flag &&& mask = 0) :
    (flags &&& ~~~flag) &&& mask = flags &&& mask := by
  apply eq_of_getLsbD_eq
  intro i less
  have bit := congrArg (getLsbD · i) apart
  simp only [getLsbD_and, getLsbD_not] at bit ⊢
  grind

theorem setFlag_and_self (flags flag : BitVec w) : (flags ||| flag) &&& flag = flag := by
  apply eq_of_getLsbD_eq
  intro i less
  simp only [getLsbD_and, getLsbD_or]
  grind

theorem clearFlag_and_self (flags flag : BitVec w) : (flags &&& ~~~flag) &&& flag = 0 := by
  apply eq_of_getLsbD_eq
  intro i less
  simp only [getLsbD_and, getLsbD_not, less]
  simp

theorem clearFlag_of_clear {flags : BitVec w} (clear : flags &&& flag = 0) :
    flags &&& ~~~flag = flags := by
  apply eq_of_getLsbD_eq
  intro i less
  have bit := congrArg (getLsbD · i) clear
  simp only [getLsbD_and, getLsbD_not] at bit ⊢
  grind

end Flags

end BitVec
