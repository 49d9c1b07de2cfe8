import Rkernel.Lib.Numeral
import Rkernel.Libkern.Numbers

/-!
# Numerals of unsigned numbers

What the unsigned helpers of the formatters return can be read back: the text is the numeral of
the argument in the base of the helper. The address renderers of `printinfo.c` write leading
zeros, so that their texts have one length.

The induction goes over the quotients that the loop of a helper runs through. All bases share
it, since a digit is the remainder of the division that makes the next quotient.
-/

namespace Rkernel

open Numeral

def decimalDigits : List Byte :=
  "0123456789".toList.map byte

def octalDigits : List Byte :=
  "01234567".toList.map byte

/-- A helper returns a string inside `numbuf`. -/
structure ReturnsText (result : Option Numbuf) (text : List Byte) : Prop where
  isText : ∃ numbuf, result = some numbuf ∧ numbuf.text = text ∧
    numbuf.pos + text.length < 100 ∧ numbuf.cells (numbuf.pos + text.length) = 0

/-- A helper returns the numeral of its argument, and different texts for different arguments. -/
structure RendersNumeral {w : ℕ} (alphabet lead : List Byte)
    (helper : BitVec w → Cells → Option Numbuf) : Prop where
  returns : ∀ i cells, ∃ text, ReturnsText (helper i cells) (lead ++ text) ∧
    Denotes alphabet text i.toNat
  distinct : ∀ i j cells others, i ≠ j →
    (helper i cells).map Numbuf.text ≠ (helper j others).map Numbuf.text

/-- A helper returns a given number of digits that denote its argument, and different texts for
different arguments. -/
structure RendersFixed {w : ℕ} (alphabet : List Byte) (count : ℕ)
    (helper : BitVec w → Cells → Option Numbuf) : Prop where
  returns : ∀ i cells, ∃ text, ReturnsText (helper i cells) text ∧ text.length = count ∧
    value alphabet text = some i.toNat
  distinct : ∀ i j cells others, i ≠ j →
    (helper i cells).map Numbuf.text ≠ (helper j others).map Numbuf.text

section Texts

variable {w : ℕ}

theorem Renders.returnsText {helper : Cells → Option Numbuf} {text : List Byte}
    (renders : Renders helper text) (cells : Cells) : ReturnsText (helper cells) text := by
  rcases renders cells with ⟨numbuf, returned, holds⟩
  refine ⟨numbuf, returned, holds.text_eq, ?_, ?_⟩
  · rw [holds.begins]
    omega
  · rw [holds.begins]
    exact holds.terminated

/-- Texts that can be read back differ for different arguments. -/
theorem Renders.distinct {helper : BitVec w → Cells → Option Numbuf} {alphabet lead : List Byte}
    {texts : BitVec w → List Byte} (renders : ∀ i, Renders (helper i) (lead ++ texts i))
    (readable : ∀ i, value alphabet (texts i) = some i.toNat) (i j : BitVec w)
    (cells others : Cells) (different : i ≠ j) :
    (helper i cells).map Numbuf.text ≠ (helper j others).map Numbuf.text := by
  rcases renders i cells with ⟨numbuf, returned, holds⟩
  rcases renders j others with ⟨other, otherReturned, otherHolds⟩
  rw [returned, otherReturned, Option.map_some, Option.map_some, holds.text_eq, otherHolds.text_eq]
  intro sameText
  have same : texts i = texts j := List.append_cancel_left (Option.some.inj sameText)
  apply different
  apply BitVec.eq_of_toNat_eq
  apply Option.some.inj
  rw [← readable i, same, readable j]

theorem Renders.rendersNumeral {helper : BitVec w → Cells → Option Numbuf}
    {alphabet lead : List Byte} {texts : BitVec w → List Byte}
    (renders : ∀ i, Renders (helper i) (lead ++ texts i))
    (denotes : ∀ i, Denotes alphabet (texts i) i.toNat) :
    RendersNumeral alphabet lead helper where
  returns i cells := ⟨texts i, (renders i).returnsText cells, denotes i⟩
  distinct := Renders.distinct renders fun i => (denotes i).value

end Texts

section Loops

variable {w : ℕ}

/-- The digits that a loop writes are the numeral of its argument. -/
theorem digitText_denotes {digit : BitVec w → Byte} {next : BitVec w → BitVec w}
    {alphabet : List Byte} {base : ℕ} (nodup : alphabet.Nodup) (length : alphabet.length = base)
    (isDigit : ∀ i : BitVec w, alphabet[i.toNat % base]? = some (digit i))
    (shrinks : ∀ i, (next i).toNat = i.toNat / base) {room : ℕ} {i : BitVec w}
    (positive : 0 < room) (fits : i.toNat < base ^ room) :
    Denotes alphabet (digitText digit next room i) i.toNat := by
  induction room generalizing i with
  | zero => omega
  | succ room ih =>
      rw [digitText]
      split
      · rename_i done
        have small : i.toNat / base = 0 := by
          rw [← shrinks, done]
          simp
        have single := Denotes.single nodup (isDigit i)
        rcases Nat.div_eq_zero_iff.mp small with isEmpty | below
        · have present := isDigit i
          rw [isEmpty] at length
          simp [List.length_eq_zero_iff.mp length] at present
        · rwa [Nat.mod_eq_of_lt below] at single
      · rename_i more
        have large : 0 < (next i).toNat := by
          apply Nat.pos_of_ne_zero
          intro zero
          exact more (toNat_eq_zero _ zero)
        have nextFits : (next i).toNat < base ^ room := by
          rw [shrinks]
          apply Nat.div_lt_of_lt_mul
          rwa [Nat.pow_succ, Nat.mul_comm] at fits
        have roomPositive : 0 < room := by
          apply Nat.pos_of_ne_zero
          rintro rfl
          rw [Nat.pow_zero] at nextFits
          omega
        have appended := (ih roomPositive nextFits).append_digit nodup large (isDigit i)
        rwa [length, shrinks, Nat.div_add_mod] at appended

theorem toNat_lt_octal (width : w = 32 ∨ w = 64) {base : ℕ} (atLeastOctal : 8 ≤ base)
    (i : BitVec w) : i.toNat < base ^ 22 :=
  calc
    i.toNat < 2 ^ 64 := toNat_lt_two_pow_64 width i
    _ ≤ 8 ^ 22 := by decide
    _ ≤ base ^ 22 := Nat.pow_le_pow_left atLeastOctal 22

theorem decimalDigits_getElem : ∀ k < 10, decimalDigits[k]? = some (BitVec.ofNat 8 (48 + k)) := by
  decide

theorem octalDigits_getElem : ∀ k < 8, octalDigits[k]? = some (BitVec.ofNat 8 (48 + k)) := by
  decide

theorem unsignedText_denotes (width : w = 32 ∨ w = 64) (i : BitVec w) :
    Denotes decimalDigits (digitText unsignedDigit (· / 10) 22 i) i.toNat := by
  refine @digitText_denotes w unsignedDigit (· / 10) decimalDigits 10 (by decide) rfl ?_ ?_ 22 i
    (by omega) (toNat_lt_octal width (by omega) i)
  · intro i
    have below : i.toNat % 10 < 10 := Nat.mod_lt _ (by omega)
    refine (decimalDigits_getElem _ below).trans (congrArg some ?_)
    apply BitVec.eq_of_toNat_eq
    rcases width with rfl | rfl <;> simp [unsignedDigit]
  · intro i
    rcases width with rfl | rfl <;> simp

theorem octalText_denotes (width : w = 32 ∨ w = 64) (i : BitVec w) :
    Denotes octalDigits (digitText octalDigit (· >>> 3) 22 i) i.toNat := by
  refine @digitText_denotes w octalDigit (· >>> 3) octalDigits 8 (by decide) rfl ?_ ?_ 22 i
    (by omega) (toNat_lt_octal width (by omega) i)
  · intro i
    have below : i.toNat % 8 < 8 := Nat.mod_lt _ (by omega)
    have masked : i.toNat &&& 7 = i.toNat % 8 := Nat.and_two_pow_sub_one_eq_mod i.toNat 3
    refine (octalDigits_getElem _ below).trans (congrArg some ?_)
    apply BitVec.eq_of_toNat_eq
    rcases width with rfl | rfl <;> simp [octalDigit, masked]
  · intro i
    rcases width with rfl | rfl <;> simp [Nat.shiftRight_eq_div_pow]

theorem hexDigit_getElem (width : w = 32 ∨ w = 64) {table : List Byte} (length : table.length = 16)
    (i : BitVec w) : table[i.toNat % 16]? = some (hexDigit table i) := by
  have masked : (i &&& 0xf).toNat = i.toNat % 16 := by
    have mask := Nat.and_two_pow_sub_one_eq_mod i.toNat 4
    rcases width with rfl | rfl <;> simpa using mask
  have below : i.toNat % 16 < table.length := by
    rw [length]
    exact Nat.mod_lt _ (by omega)
  rw [hexDigit, masked, List.getD_eq_getElem?_getD, List.getElem?_eq_getElem below,
    Option.getD_some]

theorem hexText_denotes (width : w = 32 ∨ w = 64) {table : List Byte} (nodup : table.Nodup)
    (length : table.length = 16) (i : BitVec w) :
    Denotes table (digitText (hexDigit table) (· >>> 4) 22 i) i.toNat := by
  refine digitText_denotes nodup length (hexDigit_getElem width length) ?_ (by omega)
    (toNat_lt_octal width (by omega) i)
  intro i
  rcases width with rfl | rfl <;> simp [Nat.shiftRight_eq_div_pow]

theorem unsigned2a_rendersNumeral (width : w = 32 ∨ w = 64) :
    RendersNumeral decimalDigits [] (@unsigned2a w) :=
  Renders.rendersNumeral (unsigned2a_renders width) (unsignedText_denotes width)

theorem octal2a_rendersNumeral (width : w = 32 ∨ w = 64) :
    RendersNumeral octalDigits [] (@octal2a w) :=
  Renders.rendersNumeral (octal2a_renders width) (octalText_denotes width)

theorem hex2a_rendersNumeral (width : w = 32 ∨ w = 64) {table : List Byte} (nodup : table.Nodup)
    (length : table.length = 16) (visible : ∀ k < 16, table.getD k 0 ≠ 0) :
    RendersNumeral table [] (@hex2a w table) :=
  Renders.rendersNumeral (hex2a_renders width visible) (hexText_denotes width nodup length)

theorem p2a_rendersNumeral : RendersNumeral hexlow [byte '0', byte 'x'] p2a :=
  Renders.rendersNumeral p2a_renders (hexText_denotes (Or.inl rfl) (by decide) rfl)

/-- The renderers write the last digits of an address. -/
theorem addressText_value {table : List Byte} (nodup : table.Nodup) (length : table.length = 16)
    (left : ℕ) (paddr : BitVec 32) :
    value table (addressText table left paddr) = some (paddr.toNat % 16 ^ left) := by
  induction left generalizing paddr with
  | zero => simp [addressText, value, Nat.mod_one]
  | succ left ih =>
      have appended := value_append_digit nodup (ih (paddr >>> 4))
        (hexDigit_getElem (Or.inl rfl) length paddr)
      have split : paddr.toNat % 16 ^ (left + 1) =
          paddr.toNat % 16 + 16 * (paddr.toNat / 16 % 16 ^ left) := by
        rw [Nat.pow_succ, Nat.mul_comm, Nat.mod_mul]
      rw [addressText, appended, length, BitVec.toNat_ushiftRight, Nat.shiftRight_eq_div_pow, split,
        Nat.add_comm]

theorem addressText_length (table : List Byte) (left : ℕ) (paddr : BitVec 32) :
    (addressText table left paddr).length = left := by
  induction left generalizing paddr with
  | zero => rfl
  | succ left ih => rw [addressText, List.length_append, ih, List.length_singleton]

theorem renderAddress_rendersFixed {table : List Byte} (nodup : table.Nodup)
    (length : table.length = 16) (visible : ∀ k < 16, table.getD k 0 ≠ 0) :
    RendersFixed table 8 (renderAddress table) := by
  have readable (paddr : BitVec 32) :
      value table (addressText table 8 paddr) = some paddr.toNat := by
    rw [addressText_value nodup length]
    exact congrArg some (Nat.mod_eq_of_lt paddr.isLt)
  refine ⟨fun paddr cells => ?_, ?_⟩
  · exact ⟨_, (renderAddress_renders visible paddr).returnsText cells, addressText_length _ _ _,
      readable paddr⟩
  · exact @Renders.distinct _ _ _ [] _ (renderAddress_renders visible) readable

end Loops

/-- The unsigned helpers of `printf.c` and the helpers of `printinfo.c` return numerals of their
arguments. -/
theorem unsigned_conversions_denote :
    (RendersNumeral decimalDigits [] u2a ∧ RendersNumeral hexlow [] x2a ∧
      RendersNumeral hexhig [] X2a ∧ RendersNumeral octalDigits [] o2a ∧
      RendersNumeral hexlow [byte '0', byte 'x'] p2a) ∧
    (RendersNumeral decimalDigits [] lu2a ∧ RendersNumeral hexlow [] lx2a ∧
      RendersNumeral hexhig [] lX2a ∧ RendersNumeral octalDigits [] lo2a) ∧
    (RendersNumeral decimalDigits [] llu2a ∧ RendersNumeral hexlow [] llx2a ∧
      RendersNumeral hexhig [] llX2a ∧ RendersNumeral octalDigits [] llo2a) ∧
    (RendersNumeral decimalDigits [] zu2a ∧ RendersNumeral hexlow [] zx2a ∧
      RendersNumeral hexhig [] zX2a ∧ RendersNumeral octalDigits [] zo2a) ∧
    (RendersNumeral decimalDigits [] tu2a ∧ RendersNumeral hexlow [] tx2a ∧
      RendersNumeral hexhig [] tX2a ∧ RendersNumeral octalDigits [] to2a) ∧
    RendersFixed hexlow 8 renderPhysLow ∧ RendersFixed hexhig 8 renderPhysHigh ∧
    RendersFixed hexlow 8 renderVirtLow ∧ RendersFixed hexhig 8 renderVirtHigh := by
  have decimal {w : ℕ} (width : w = 32 ∨ w = 64) := unsigned2a_rendersNumeral width
  have low {w : ℕ} (width : w = 32 ∨ w = 64) :=
    hex2a_rendersNumeral width (show hexlow.Nodup by decide) rfl hexlow_visible
  have high {w : ℕ} (width : w = 32 ∨ w = 64) :=
    hex2a_rendersNumeral width (show hexhig.Nodup by decide) rfl hexhig_visible
  have octal {w : ℕ} (width : w = 32 ∨ w = 64) := octal2a_rendersNumeral width
  have narrow : 32 = 32 ∨ 32 = 64 := Or.inl rfl
  have wide : 64 = 32 ∨ 64 = 64 := Or.inr rfl
  have fixedLow := renderAddress_rendersFixed (show hexlow.Nodup by decide) rfl hexlow_visible
  have fixedHigh := renderAddress_rendersFixed (show hexhig.Nodup by decide) rfl hexhig_visible
  refine ⟨⟨?_, ?_, ?_, ?_, p2a_rendersNumeral⟩, ?_, ?_, ?_, ?_, fixedLow, fixedHigh, fixedLow,
    fixedHigh⟩
  · exact decimal narrow
  · exact low narrow
  · exact high narrow
  · exact octal narrow
  · exact ⟨decimal narrow, low narrow, high narrow, octal narrow⟩
  · exact ⟨decimal wide, low wide, high wide, octal wide⟩
  · exact ⟨decimal narrow, low narrow, high narrow, octal narrow⟩
  · exact ⟨decimal narrow, low narrow, high narrow, octal narrow⟩

end Rkernel
