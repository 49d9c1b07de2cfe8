import Mathlib.Algebra.Group.Nat.Defs
import Mathlib.Data.Nat.Notation

/-!
# Bit-fields

Fields of some bits each, packed one above the other from the lowest bit on, as a structure of
bit-fields is laid out in a word. A field is read back from its position, and the consecutive
pieces of a word are packed to that word again.
-/

/-- A field: its width and its value. -/
abbrev Bitfield := Σ w : ℕ, BitVec w

namespace Bitfield

def width : List Bitfield → ℕ
  | [] => 0
  | ⟨w, _⟩ :: above => w + width above

def pack : List Bitfield → ℕ
  | [] => 0
  | ⟨w, value⟩ :: above => value.toNat + 2 ^ w * pack above

/-- The fields in a word, the first one lowest. -/
def word (n : ℕ) (fields : List Bitfield) : BitVec n :=
  BitVec.ofNat n (pack fields)

/-- The consecutive pieces of a word. -/
def pieces {n : ℕ} (x : BitVec n) : ℕ → List ℕ → List Bitfield
  | _, [] => []
  | start, w :: widths => ⟨w, x.extractLsb' start w⟩ :: pieces x (start + w) widths

variable {n w : ℕ} {fields below above : List Bitfield}

theorem pack_append : pack (below ++ above) = pack below + 2 ^ width below * pack above := by
  induction below with
  | nil => simp [pack, width]
  | cons field below ih =>
      rcases field with ⟨w, value⟩
      have power : 2 ^ width (⟨w, value⟩ :: below) = 2 ^ w * 2 ^ width below :=
        Nat.pow_add 2 w (width below)
      rw [List.cons_append, pack, pack, ih, power, Nat.mul_add, ← Nat.mul_assoc, Nat.add_assoc]

theorem pack_lt : pack fields < 2 ^ width fields := by
  induction fields with
  | nil => exact Nat.one_pos
  | cons field above ih =>
      rcases field with ⟨w, value⟩
      have power : 2 ^ width (⟨w, value⟩ :: above) = 2 ^ w * 2 ^ width above :=
        Nat.pow_add 2 w (width above)
      have room : 2 ^ w * (pack above + 1) ≤ 2 ^ w * 2 ^ width above := Nat.mul_le_mul_left _ ih
      have inField := value.isLt
      rw [pack, power]
      rw [Nat.mul_add, Nat.mul_one] at room
      omega

/-- A field is read back from its position. -/
theorem extractLsb'_word (below : List Bitfield) (value : BitVec w) (above : List Bitfield)
    (fits : width (below ++ ⟨w, value⟩ :: above) ≤ n) :
    (word n (below ++ ⟨w, value⟩ :: above)).extractLsb' (width below) w = value := by
  have inWord : pack (below ++ ⟨w, value⟩ :: above) < 2 ^ n :=
    Nat.lt_of_lt_of_le pack_lt (Nat.pow_le_pow_right (Nat.succ_pos 1) fits)
  apply BitVec.eq_of_toNat_eq
  rw [BitVec.extractLsb'_toNat, word, BitVec.toNat_ofNat, Nat.mod_eq_of_lt inWord, pack_append,
    pack, Nat.shiftRight_eq_div_pow, Nat.add_mul_div_left _ _ (Nat.two_pow_pos _),
    Nat.div_eq_of_lt pack_lt, Nat.zero_add, Nat.add_mul_mod_self_left,
    Nat.mod_eq_of_lt value.isLt]

theorem pack_pieces (x : BitVec n) (start : ℕ) (widths : List ℕ) :
    pack (pieces x start widths) =
      x.toNat / 2 ^ start % 2 ^ width (pieces x start widths) := by
  induction widths generalizing start with
  | nil => exact (Nat.mod_one _).symm
  | cons w widths ih =>
      rw [pieces, pack, ih, width, BitVec.extractLsb'_toNat, Nat.shiftRight_eq_div_pow,
        Nat.pow_add, Nat.pow_add, Nat.mod_mul, Nat.div_div_eq_div_mul]

/-- The pieces above a position, packed again. -/
theorem word_pieces (x : BitVec n) {start : ℕ} {widths : List ℕ}
    (reaches : n ≤ start + width (pieces x start widths)) :
    word n (pieces x start widths) = x >>> start := by
  have inPieces : x.toNat / 2 ^ start < 2 ^ width (pieces x start widths) := by
    apply Nat.div_lt_of_lt_mul
    rw [← Nat.pow_add]
    exact Nat.lt_of_lt_of_le x.isLt (Nat.pow_le_pow_right (Nat.succ_pos 1) reaches)
  apply BitVec.eq_of_toNat_eq
  rw [word, pack_pieces, Nat.mod_eq_of_lt inPieces, BitVec.toNat_ofNat, BitVec.toNat_ushiftRight,
    Nat.shiftRight_eq_div_pow]
  exact Nat.mod_eq_of_lt (Nat.lt_of_le_of_lt (Nat.div_le_self ..) x.isLt)

end Bitfield
