import Mathlib.Data.Nat.Digits.Lemmas
import Mathlib.Data.Nat.Notation
import Mathlib.Logic.Function.Basic

/-!
# Numbers as text

The helpers of the formatters (`libkern/printf.c`, `libkern/printinfo.c`) write a number from
its last digit on into a buffer of 100 bytes, downwards from the byte 98, which holds the
terminating NUL. They return the pointer to the first character.

A helper has no result if it would write below the buffer. All of them are instances of one
loop, which writes a digit and divides as long as the number is not zero.
-/

namespace Rkernel

abbrev Byte := BitVec 8

/-- A character constant. -/
def byte (character : Char) : Byte :=
  BitVec.ofNat 8 character.toNat

/-- The contents of `numbuf` by index. -/
abbrev Cells := ℕ → Byte

/-- `char numbuf[100]` with a pointer into it. -/
structure Numbuf where
  cells : Cells
  pos : ℕ

namespace Numbuf

/-- The string at the pointer: the bytes up to the first NUL. -/
def text (numbuf : Numbuf) : List Byte :=
  ((List.range' numbuf.pos (100 - numbuf.pos)).map numbuf.cells).takeWhile (· ≠ 0)

/-- `*--buffer = c` -/
def push (numbuf : Numbuf) (character : Byte) : Option Numbuf :=
  match numbuf.pos with
  | 0 => none
  | pos + 1 => some ⟨Function.update numbuf.cells pos character, pos⟩

end Numbuf

section Loops

variable {w : ℕ}

/-- `do { *--buffer = digit; i = next; } while(i)` from a position of the buffer on. -/
def digitLoop (digit : BitVec w → Byte) (next : BitVec w → BitVec w) :
    (pos : ℕ) → BitVec w → Cells → Option Numbuf
  | 0, _, _ => none
  | pos + 1, i, cells =>
      if next i = 0 then some ⟨Function.update cells pos (digit i), pos⟩
      else digitLoop digit next pos (next i) (Function.update cells pos (digit i))

/-- The loop with the NUL stored behind it. -/
def digits2a (digit : BitVec w → Byte) (next : BitVec w → BitVec w) (i : BitVec w)
    (cells : Cells) : Option Numbuf :=
  digitLoop digit next 98 i (Function.update cells 98 0)

/-- `'0' + (i%10)` of a signed number, as a `char`. -/
def signedDigit (i : BitVec w) : Byte :=
  (48 + i.srem 10).setWidth 8

/-- `'0' + (i%10)` of an unsigned number, as a `char`. -/
def unsignedDigit (i : BitVec w) : Byte :=
  (48 + i % 10).setWidth 8

/-- `'0' + (i&0x7)` -/
def octalDigit (i : BitVec w) : Byte :=
  (48 + (i &&& 0x7)).setWidth 8

def hexlow : List Byte :=
  "0123456789abcdef".toList.map byte

def hexhig : List Byte :=
  "0123456789ABCDEF".toList.map byte

/-- An entry of `hexlow` or `hexhig` for `i&0xf`. -/
def hexDigit (table : List Byte) (i : BitVec w) : Byte :=
  table.getD (i &&& 0xf).toNat 0

/-- The common body of the signed conversions. -/
def signed2a (i : BitVec w) (cells : Cells) : Option Numbuf :=
  if i.slt 0 then (digits2a signedDigit (·.sdiv 10) (-i) cells).bind (·.push (byte '-'))
  else digits2a signedDigit (·.sdiv 10) i cells

/-- The common body of the unsigned decimal conversions. -/
def unsigned2a (i : BitVec w) (cells : Cells) : Option Numbuf :=
  digits2a unsignedDigit (· / 10) i cells

/-- The common body of the hexadecimal conversions. -/
def hex2a (table : List Byte) (i : BitVec w) (cells : Cells) : Option Numbuf :=
  digits2a (hexDigit table) (· >>> 4) i cells

/-- The common body of the octal conversions. -/
def octal2a (i : BitVec w) (cells : Cells) : Option Numbuf :=
  digits2a octalDigit (· >>> 3) i cells

end Loops

section Helpers

def i2a (i : BitVec 32) : Cells → Option Numbuf := signed2a i

def u2a (i : BitVec 32) : Cells → Option Numbuf := unsigned2a i

def x2a (i : BitVec 32) : Cells → Option Numbuf := hex2a hexlow i

def X2a (i : BitVec 32) : Cells → Option Numbuf := hex2a hexhig i

def o2a (i : BitVec 32) : Cells → Option Numbuf := octal2a i

def p2a (ptr : BitVec 32) (cells : Cells) : Option Numbuf :=
  ((hex2a hexlow ptr cells).bind (·.push (byte 'x'))).bind (·.push (byte '0'))

/-! `long int` -/

def li2a (i : BitVec 32) : Cells → Option Numbuf := signed2a i

def lu2a (i : BitVec 32) : Cells → Option Numbuf := unsigned2a i

def lx2a (i : BitVec 32) : Cells → Option Numbuf := hex2a hexlow i

def lX2a (i : BitVec 32) : Cells → Option Numbuf := hex2a hexhig i

def lo2a (i : BitVec 32) : Cells → Option Numbuf := octal2a i

/-! `long long int` -/

def lli2a (i : BitVec 64) : Cells → Option Numbuf := signed2a i

def llu2a (i : BitVec 64) : Cells → Option Numbuf := unsigned2a i

def llx2a (i : BitVec 64) : Cells → Option Numbuf := hex2a hexlow i

def llX2a (i : BitVec 64) : Cells → Option Numbuf := hex2a hexhig i

def llo2a (i : BitVec 64) : Cells → Option Numbuf := octal2a i

/-! `ssize_t`, `size_t` -/

def zi2a (i : BitVec 32) : Cells → Option Numbuf := signed2a i

def zu2a (i : BitVec 32) : Cells → Option Numbuf := unsigned2a i

def zx2a (i : BitVec 32) : Cells → Option Numbuf := hex2a hexlow i

def zX2a (i : BitVec 32) : Cells → Option Numbuf := hex2a hexhig i

def zo2a (i : BitVec 32) : Cells → Option Numbuf := octal2a i

/-! `ptrdiff_t`, `u_intptr_t` -/

def ti2a (i : BitVec 32) : Cells → Option Numbuf := signed2a i

def tu2a (i : BitVec 32) : Cells → Option Numbuf := unsigned2a i

def tx2a (i : BitVec 32) : Cells → Option Numbuf := hex2a hexlow i

def tX2a (i : BitVec 32) : Cells → Option Numbuf := hex2a hexhig i

def to2a (i : BitVec 32) : Cells → Option Numbuf := octal2a i

/-! The helpers of `printinfo.c` write all digits of an address. -/

/-- The loop of the address renderers, with the digits left. -/
def renderLoop (table : List Byte) : (left : ℕ) → BitVec 32 → Numbuf → Option Numbuf
  | 0, _, numbuf => some numbuf
  | left + 1, paddr, numbuf =>
      (numbuf.push (hexDigit table paddr)).bind (renderLoop table left (paddr >>> 4))

/-- The common body of the address renderers: `2*sizeof(paddr)` digits. -/
def renderAddress (table : List Byte) (paddr : BitVec 32) (cells : Cells) : Option Numbuf :=
  renderLoop table 8 paddr ⟨Function.update cells 98 0, 98⟩

def renderPhysLow (paddr : BitVec 32) : Cells → Option Numbuf := renderAddress hexlow paddr

def renderPhysHigh (paddr : BitVec 32) : Cells → Option Numbuf := renderAddress hexhig paddr

def renderVirtLow (paddr : BitVec 32) : Cells → Option Numbuf := renderAddress hexlow paddr

def renderVirtHigh (paddr : BitVec 32) : Cells → Option Numbuf := renderAddress hexhig paddr

end Helpers

/-- The text that the loop writes when it has room for enough digits. -/
def digitText {w : ℕ} (digit : BitVec w → Byte) (next : BitVec w → BitVec w) :
    (room : ℕ) → BitVec w → List Byte
  | 0, _ => []
  | room + 1, i =>
      if next i = 0 then [digit i] else digitText digit next room (next i) ++ [digit i]

/-- A text stands in front of the NUL at the byte 98. -/
structure Numbuf.Holds (numbuf : Numbuf) (text : List Byte) : Prop where
  begins : numbuf.pos + text.length = 98
  contents : (List.range' numbuf.pos text.length).map numbuf.cells = text
  terminated : numbuf.cells 98 = 0
  visible : 0 ∉ text

namespace Numbuf.Holds

variable {numbuf : Numbuf} {text : List Byte}

theorem text_eq (holds : numbuf.Holds text) : numbuf.text = text := by
  have begins := holds.begins
  have length : 100 - numbuf.pos = text.length + 2 := by omega
  have rest : (List.range' (numbuf.pos + text.length) 2).map numbuf.cells =
      [0, numbuf.cells 99] := by
    simp [begins, List.range'_succ, holds.terminated]
  rw [Numbuf.text, length, ← List.range'_append_1, List.map_append, holds.contents, rest,
    List.takeWhile_append_of_pos]
  · simp
  · intro character characterMem
    rw [decide_eq_true_eq]
    rintro rfl
    exact holds.visible characterMem

theorem push (holds : numbuf.Holds text) (room : text.length < 98) {character : Byte}
    (visible : character ≠ 0) :
    ∃ pushed, numbuf.push character = some pushed ∧ pushed.Holds (character :: text) ∧
      pushed.pos + 1 = numbuf.pos := by
  rcases numbuf with ⟨cells, pos⟩
  have begins : pos + text.length = 98 := holds.begins
  cases pos with
  | zero => omega
  | succ pos =>
      refine ⟨_, rfl, ⟨?_, ?_, ?_, ?_⟩, rfl⟩
      · rw [List.length_cons]
        change pos + (text.length + 1) = 98
        omega
      · rw [List.length_cons, List.range'_succ, List.map_cons]
        change Function.update cells pos character pos ::
          (List.range' (pos + 1) text.length).map (Function.update cells pos character) = _
        rw [Function.update_self]
        congr 1
        rw [← holds.contents, List.length_map, List.length_range']
        apply List.map_congr_left
        intro index indexMem
        rw [List.mem_range'_1] at indexMem
        exact Function.update_of_ne (by omega) _ _
      · exact (Function.update_of_ne (by omega) _ _).trans holds.terminated
      · rw [List.mem_cons, not_or]
        exact ⟨visible.symm, holds.visible⟩

end Numbuf.Holds

theorem Numbuf.holds_nil (cells : Cells) : Numbuf.Holds ⟨Function.update cells 98 0, 98⟩ [] where
  begins := rfl
  contents := rfl
  terminated := Function.update_self 98 0 cells
  visible := List.not_mem_nil

section Loop

variable {w : ℕ} {digit : BitVec w → Byte} {next : BitVec w → BitVec w}

theorem digitText_length_le (room : ℕ) (i : BitVec w) :
    (digitText digit next room i).length ≤ room := by
  induction room generalizing i with
  | zero => exact Nat.le_refl 0
  | succ room ih =>
      have rest := ih (next i)
      rw [digitText]
      split
      · simp
      · rw [List.length_append, List.length_singleton]
        omega

/-- A number that shrinks by the factor `base` is written into a buffer with enough room. -/
theorem digitLoop_holds {base : ℕ} {magnitude : BitVec w → ℕ} (visible : ∀ i, digit i ≠ 0)
    (shrinks : ∀ i, magnitude (next i) = magnitude i / base)
    (isZero : ∀ i, magnitude i = 0 → i = 0) {room pos : ℕ} {i : BitVec w} {cells : Cells}
    {text : List Byte} (positive : 0 < room) (fits : magnitude i < base ^ room)
    (inBuffer : room ≤ pos) (holds : Numbuf.Holds ⟨cells, pos⟩ text) :
    ∃ numbuf, digitLoop digit next pos i cells = some numbuf ∧
      numbuf.Holds (digitText digit next room i ++ text) := by
  induction room generalizing pos i cells text with
  | zero => omega
  | succ room ih =>
      cases pos with
      | zero => omega
      | succ pos =>
          have begins : pos + 1 + text.length = 98 := holds.begins
          rcases holds.push (by omega) (visible i) with ⟨pushed, isPushed, pushedHolds, -⟩
          have pushedEq : pushed = ⟨Function.update cells pos (digit i), pos⟩ :=
            (Option.some.inj isPushed).symm
          rw [digitLoop, digitText]
          split
          · exact ⟨pushed, by rw [pushedEq], pushedHolds⟩
          · rename_i more
            have nextFits : magnitude (next i) < base ^ room := by
              rw [shrinks]
              apply Nat.div_lt_of_lt_mul
              rwa [Nat.pow_succ, Nat.mul_comm] at fits
            have roomPositive : 0 < room := by
              apply Nat.pos_of_ne_zero
              rintro rfl
              apply more
              apply isZero
              rw [Nat.pow_zero] at nextFits
              omega
            rw [List.append_assoc]
            rw [pushedEq] at pushedHolds
            exact ih roomPositive nextFits (by omega) pushedHolds

end Loop

/-- A helper returns a text, whatever its buffer held before. -/
def Renders (helper : Cells → Option Numbuf) (text : List Byte) : Prop :=
  ∀ cells, ∃ numbuf, helper cells = some numbuf ∧ numbuf.Holds text

section Renders

variable {w : ℕ}

theorem Renders.push {helper : Cells → Option Numbuf} {text : List Byte}
    (renders : Renders helper text) (room : text.length < 98) {character : Byte}
    (visible : character ≠ 0) :
    Renders (fun cells => (helper cells).bind (·.push character)) (character :: text) := by
  intro cells
  rcases renders cells with ⟨numbuf, returned, holds⟩
  rcases holds.push room visible with ⟨pushed, isPushed, pushedHolds, -⟩
  refine ⟨pushed, ?_, pushedHolds⟩
  change (helper cells).bind (·.push character) = some pushed
  rw [returned]
  exact isPushed

/-- Twenty-two digits hold every number of 64 bits to a base of at least eight. -/
theorem digits2a_renders {digit : BitVec w → Byte} {next : BitVec w → BitVec w} {base : ℕ}
    {magnitude : BitVec w → ℕ} (visible : ∀ i, digit i ≠ 0)
    (shrinks : ∀ i, magnitude (next i) = magnitude i / base)
    (isZero : ∀ i, magnitude i = 0 → i = 0) (atLeastOctal : 8 ≤ base) {i : BitVec w}
    (fits : magnitude i < 2 ^ 64) :
    Renders (digits2a digit next i) (digitText digit next 22 i) := by
  intro cells
  have enough : magnitude i < base ^ 22 :=
    calc
      magnitude i < 2 ^ 64 := fits
      _ ≤ 8 ^ 22 := by decide
      _ ≤ base ^ 22 := Nat.pow_le_pow_left atLeastOctal 22
  rcases digitLoop_holds visible shrinks isZero (by omega) enough (by omega)
    (Numbuf.holds_nil cells) with ⟨numbuf, returned, holds⟩
  rw [List.append_nil] at holds
  exact ⟨numbuf, returned, holds⟩

theorem toNat_lt_two_pow_64 (width : w = 32 ∨ w = 64) (i : BitVec w) : i.toNat < 2 ^ 64 := by
  have iLt := i.isLt
  rcases width with rfl | rfl <;> omega

theorem toNat_eq_zero (i : BitVec w) (zero : i.toNat = 0) : i = 0 :=
  BitVec.eq_of_toNat_eq (by simpa using zero)

theorem unsigned2a_renders (width : w = 32 ∨ w = 64) (i : BitVec w) :
    Renders (unsigned2a i) (digitText unsignedDigit (· / 10) 22 i) := by
  refine digits2a_renders ?_ ?_ toNat_eq_zero (show 8 ≤ 10 by omega) (toNat_lt_two_pow_64 width i)
  · intro i zero
    have digitNat := congrArg BitVec.toNat zero
    rcases width with rfl | rfl <;> simp [unsignedDigit] at digitNat <;> omega
  · intro i
    rcases width with rfl | rfl <;> simp

theorem octal2a_renders (width : w = 32 ∨ w = 64) (i : BitVec w) :
    Renders (octal2a i) (digitText octalDigit (· >>> 3) 22 i) := by
  refine digits2a_renders ?_ ?_ toNat_eq_zero (show 8 ≤ 8 by omega) (toNat_lt_two_pow_64 width i)
  · intro i zero
    have digitNat := congrArg BitVec.toNat zero
    have masked := @Nat.and_le_right i.toNat 7
    rcases width with rfl | rfl <;> simp [octalDigit] at digitNat <;> omega
  · intro i
    rcases width with rfl | rfl <;> simp [Nat.shiftRight_eq_div_pow]

theorem hexDigit_ne_zero {table : List Byte} (visible : ∀ k < 16, table.getD k 0 ≠ 0)
    (i : BitVec w) : hexDigit table i ≠ 0 := by
  apply visible
  have masked := @Nat.and_le_right i.toNat (0xf : BitVec w).toNat
  have mask : (0xf : BitVec w).toNat ≤ 15 := Nat.mod_le 15 _
  rw [BitVec.toNat_and]
  omega

theorem hex2a_renders (width : w = 32 ∨ w = 64) {table : List Byte}
    (visible : ∀ k < 16, table.getD k 0 ≠ 0) (i : BitVec w) :
    Renders (hex2a table i) (digitText (hexDigit table) (· >>> 4) 22 i) := by
  refine digits2a_renders (hexDigit_ne_zero visible) ?_ toNat_eq_zero (show 8 ≤ 16 by omega)
    (toNat_lt_two_pow_64 width i)
  intro i
  rcases width with rfl | rfl <;> simp [Nat.shiftRight_eq_div_pow]

theorem hexlow_visible : ∀ k < 16, hexlow.getD k 0 ≠ 0 := by
  decide

theorem hexhig_visible : ∀ k < 16, hexhig.getD k 0 ≠ 0 := by
  decide

theorem toInt_signedDigit (width : w = 32 ∨ w = 64) (i : BitVec w) :
    ((signedDigit i).toNat : ℤ) = 48 + i.toInt.tmod 10 := by
  have above := Int.lt_tmod_of_pos i.toInt (show (0 : ℤ) < 10 by omega)
  have below := Int.tmod_lt_of_pos i.toInt (show (0 : ℤ) < 10 by omega)
  have remainder := BitVec.toInt_srem i 10
  have remainderLt := (i.srem 10).isLt
  rcases width with rfl | rfl
  · have ten : (10 : BitVec 32).toInt = 10 := rfl
    have zero : (48 : BitVec 32).toNat = 48 := rfl
    rw [ten, BitVec.toInt_eq_toNat_cond] at remainder
    rw [signedDigit, BitVec.toNat_setWidth, BitVec.toNat_add, zero]
    omega
  · have ten : (10 : BitVec 64).toInt = 10 := rfl
    have zero : (48 : BitVec 64).toNat = 48 := rfl
    rw [ten, BitVec.toInt_eq_toNat_cond] at remainder
    rw [signedDigit, BitVec.toNat_setWidth, BitVec.toNat_add, zero]
    omega

theorem toInt_sdiv_ten (width : w = 32 ∨ w = 64) (i : BitVec w) :
    (i.sdiv 10).toInt = i.toInt.tdiv 10 := by
  rcases width with rfl | rfl
  · exact BitVec.toInt_sdiv_of_ne_or_ne i 10 (Or.inr (by decide))
  · exact BitVec.toInt_sdiv_of_ne_or_ne i 10 (Or.inr (by decide))

/-- The digits of a signed number, also of one that is still negative. -/
theorem signedDigits_renders (width : w = 32 ∨ w = 64) (i : BitVec w) :
    Renders (digits2a signedDigit (·.sdiv 10) i) (digitText signedDigit (·.sdiv 10) 22 i) := by
  refine @digits2a_renders w _ _ 10 (fun i => i.toInt.natAbs) ?_ ?_ ?_ (by omega) i ?_
  · intro i zero
    have digitInt := toInt_signedDigit width i
    have above := Int.lt_tmod_of_pos i.toInt (show (0 : ℤ) < 10 by omega)
    rw [zero] at digitInt
    simp at digitInt
    omega
  · intro i
    rw [toInt_sdiv_ten width, Int.natAbs_tdiv]
    rfl
  · intro i zero
    exact BitVec.eq_of_toInt_eq (by simpa using Int.natAbs_eq_zero.mp zero)
  · have iLt := i.isLt
    have cond := BitVec.toInt_eq_toNat_cond i
    rcases width with rfl | rfl <;> split at cond <;> omega

/-- The text that a signed conversion returns. -/
def signedText (i : BitVec w) : List Byte :=
  if i.slt 0 then byte '-' :: digitText signedDigit (·.sdiv 10) 22 (-i)
  else digitText signedDigit (·.sdiv 10) 22 i

theorem signed2a_renders (width : w = 32 ∨ w = 64) (i : BitVec w) :
    Renders (signed2a i) (signedText i) := by
  intro cells
  rw [signed2a, signedText]
  split
  · have digits := @digitText_length_le w signedDigit (·.sdiv 10) 22 (-i)
    exact (signedDigits_renders width (-i)).push (by omega) (by decide) cells
  · exact signedDigits_renders width i cells

theorem p2a_renders (ptr : BitVec 32) :
    Renders (p2a ptr)
      (byte '0' :: byte 'x' :: digitText (hexDigit hexlow) (· >>> 4) 22 ptr) := by
  have digits := @digitText_length_le 32 (hexDigit hexlow) (· >>> 4) 22 ptr
  have hex := hex2a_renders (Or.inl rfl) hexlow_visible ptr
  have withX : Renders (fun cells => (hex2a hexlow ptr cells).bind (·.push (byte 'x'))) _ :=
    hex.push (by omega) (by decide)
  exact withX.push (by rw [List.length_cons]; omega) (by decide)

/-- The last digits of an address, as the address renderers write them. -/
def addressText (table : List Byte) : (left : ℕ) → BitVec 32 → List Byte
  | 0, _ => []
  | left + 1, paddr => addressText table left (paddr >>> 4) ++ [hexDigit table paddr]

theorem renderLoop_holds {table : List Byte} (visible : ∀ k < 16, table.getD k 0 ≠ 0)
    {left : ℕ} {paddr : BitVec 32} {numbuf : Numbuf} {text : List Byte}
    (room : left + text.length ≤ 98) (holds : numbuf.Holds text) :
    ∃ rendered, renderLoop table left paddr numbuf = some rendered ∧
      rendered.Holds (addressText table left paddr ++ text) := by
  induction left generalizing paddr numbuf text with
  | zero => exact ⟨numbuf, rfl, holds⟩
  | succ left ih =>
      rcases holds.push (by omega) (hexDigit_ne_zero visible paddr) with
        ⟨pushed, isPushed, pushedHolds, -⟩
      rw [renderLoop, isPushed, addressText, List.append_assoc]
      apply ih ?_ pushedHolds
      rw [List.length_cons]
      omega

theorem renderAddress_renders {table : List Byte} (visible : ∀ k < 16, table.getD k 0 ≠ 0)
    (paddr : BitVec 32) : Renders (renderAddress table paddr) (addressText table 8 paddr) := by
  intro cells
  rcases @renderLoop_holds table visible 8 paddr _ _ (by simp) (Numbuf.holds_nil cells) with
    ⟨numbuf, returned, holds⟩
  rw [List.append_nil] at holds
  exact ⟨numbuf, returned, holds⟩

end Renders

/-- The character for a decimal digit. -/
def digitChar (digit : ℕ) : Byte :=
  BitVec.ofNat 8 (48 + digit)

/-- A decimal numeral without superfluous leading zeros. -/
def IsDecimal (text : List Byte) (value : ℕ) : Prop :=
  ∃ digits : List ℕ, text = digits.map digitChar ∧ (∀ digit ∈ digits, digit < 10) ∧
    Nat.ofDigits 10 digits.reverse = value ∧ digits ≠ [] ∧
    (1 < digits.length → digits.head? ≠ some 0)

/-- A decimal numeral with an optional sign in front of it. -/
def DenotesInt (text : List Byte) (value : ℤ) : Prop :=
  (∃ magnitude : ℕ, IsDecimal text magnitude ∧ value = magnitude) ∨
    ∃ (rest : List Byte) (magnitude : ℕ), text = byte '-' :: rest ∧ IsDecimal rest magnitude ∧
      value = -magnitude

/-- A conversion returns a string inside `numbuf` that denotes a number. -/
def ReturnsInt (result : Option Numbuf) (value : ℤ) : Prop :=
  ∃ numbuf, result = some numbuf ∧ numbuf.pos + numbuf.text.length < 100 ∧
    numbuf.cells (numbuf.pos + numbuf.text.length) = 0 ∧ DenotesInt numbuf.text value

section Decimal

variable {w : ℕ}

theorem isDecimal_digit {value : ℕ} (small : value < 10) : IsDecimal [digitChar value] value := by
  refine ⟨[value], rfl, ?_, ?_, List.cons_ne_nil _ _, ?_⟩
  · simpa using small
  · simp
  · simp

theorem IsDecimal.append_digit {text : List Byte} {value digit : ℕ}
    (isDecimal : IsDecimal text value) (positive : 0 < value) (small : digit < 10) :
    IsDecimal (text ++ [digitChar digit]) (10 * value + digit) := by
  rcases isDecimal with ⟨digits, rfl, inBase, valueEq, nonempty, leading⟩
  refine ⟨digits ++ [digit], by simp, ?_, ?_, by simp, ?_⟩
  · intro other otherMem
    rw [List.mem_append, List.mem_singleton] at otherMem
    rcases otherMem with earlier | rfl
    · exact inBase other earlier
    · exact small
  · rw [List.reverse_append, List.reverse_singleton, List.singleton_append, Nat.ofDigits_cons,
      valueEq]
    exact Nat.add_comm _ _
  · intro long headZero
    rw [List.head?_append_of_ne_nil _ nonempty] at headZero
    cases digits with
    | nil => exact nonempty rfl
    | cons first rest =>
        rw [List.head?_cons, Option.some.injEq] at headZero
        subst headZero
        cases rest with
        | nil =>
            simp at valueEq
            omega
        | cons second rest => exact leading (by simp) rfl

/-- The digits of a number that is not negative are its decimal numeral. -/
theorem digitText_isDecimal (width : w = 32 ∨ w = 64) {room value : ℕ} {i : BitVec w}
    (positive : 0 < room) (valueEq : i.toInt = value) (fits : value < 10 ^ room) :
    IsDecimal (digitText signedDigit (·.sdiv 10) room i) value := by
  induction room generalizing value i with
  | zero => omega
  | succ room ih =>
      have remainder : i.toInt.tmod 10 = (value % 10 : ℕ) := by
        rw [valueEq]
        rfl
      have quotient : (i.sdiv 10).toInt = (value / 10 : ℕ) := by
        rw [toInt_sdiv_ten width, valueEq]
        rfl
      have digit : signedDigit i = digitChar (value % 10) := by
        have digitInt := toInt_signedDigit width i
        apply BitVec.eq_of_toNat_eq
        rw [digitChar, BitVec.toNat_ofNat]
        omega
      rw [digitText, digit]
      split
      · rename_i done
        have small : ((value / 10 : ℕ) : ℤ) = 0 := by
          rw [← quotient, done]
          simp
        have same : value % 10 = value := by omega
        rw [same]
        exact isDecimal_digit (by omega)
      · rename_i more
        have large : 0 < value / 10 := by
          apply Nat.pos_of_ne_zero
          intro zero
          apply more
          apply BitVec.eq_of_toInt_eq
          rw [quotient, zero]
          simp
        have nextFits : value / 10 < 10 ^ room := by
          apply Nat.div_lt_of_lt_mul
          rwa [Nat.pow_succ, Nat.mul_comm] at fits
        have roomPositive : 0 < room := by
          apply Nat.pos_of_ne_zero
          rintro rfl
          rw [Nat.pow_zero] at nextFits
          omega
        have appended := (ih roomPositive quotient nextFits).append_digit large
          (Nat.mod_lt value (by omega))
        rwa [Nat.div_add_mod] at appended

theorem toInt_bounds (width : w = 32 ∨ w = 64) (i : BitVec w) :
    -2 ^ 63 ≤ i.toInt ∧ i.toInt < 2 ^ 63 := by
  have iLt := i.isLt
  have cond := BitVec.toInt_eq_toNat_cond i
  rcases width with rfl | rfl <;> split at cond <;> omega

/-- Every value but the smallest is denoted by the text of its conversion. -/
theorem signedText_denotes (width : w = 32 ∨ w = 64) {i : BitVec w}
    (notMin : i ≠ BitVec.intMin w) : DenotesInt (signedText i) i.toInt := by
  have bounds := toInt_bounds width i
  rw [signedText]
  split
  · rename_i negative
    have isNegative : i.toInt < 0 := by simpa [BitVec.slt_iff_toInt_lt] using negative
    have negated : (-i).toInt = (i.toInt.natAbs : ℕ) := by
      rw [BitVec.toInt_neg_of_ne_intMin notMin]
      omega
    refine Or.inr ⟨_, i.toInt.natAbs, rfl, ?_, by omega⟩
    exact digitText_isDecimal width (by omega) negated (by omega)
  · rename_i nonnegative
    have isNonnegative : 0 ≤ i.toInt := by simpa [BitVec.slt_iff_toInt_lt] using nonnegative
    have same : i.toInt = (i.toInt.natAbs : ℕ) := by omega
    refine Or.inl ⟨i.toInt.natAbs, ?_, same⟩
    exact digitText_isDecimal width (by omega) same (by omega)

theorem IsDecimal.mem {text : List Byte} {value : ℕ} (isDecimal : IsDecimal text value)
    {character : Byte} (characterMem : character ∈ text) : 48 ≤ character.toNat := by
  rcases isDecimal with ⟨digits, rfl, inBase, -⟩
  rcases List.mem_map.mp characterMem with ⟨digit, digitMem, rfl⟩
  have small := inBase digit digitMem
  rw [digitChar, BitVec.toNat_ofNat]
  omega

theorem DenotesInt.mem {text : List Byte} {value : ℤ} (denotes : DenotesInt text value)
    {character : Byte} (characterMem : character ∈ text) :
    character = byte '-' ∨ 48 ≤ character.toNat := by
  rcases denotes with ⟨magnitude, isDecimal, -⟩ | ⟨rest, magnitude, rfl, isDecimal, -⟩
  · exact Or.inr (isDecimal.mem characterMem)
  · rcases List.mem_cons.mp characterMem with rfl | inRest
    · exact Or.inl rfl
    · exact Or.inr (isDecimal.mem inRest)

/-- A signed conversion is right unless negating its argument overflows: then the remainders
are negative and the characters lie below the digits. -/
theorem signed2a_returnsInt_iff (width : w = 32 ∨ w = 64) (cells : Cells) (i : BitVec w) :
    ReturnsInt (signed2a i cells) i.toInt ↔ i ≠ BitVec.intMin w := by
  rcases signed2a_renders width i cells with ⟨numbuf, returned, holds⟩
  constructor
  · rintro ⟨other, otherReturned, -, -, denotes⟩ rfl
    rw [returned, Option.some.injEq] at otherReturned
    rw [← otherReturned, holds.text_eq] at denotes
    have below : byte '(' ∈ signedText (BitVec.intMin w) := by
      rcases width with rfl | rfl <;> decide
    have character := denotes.mem below
    revert character
    decide
  · intro notMin
    refine ⟨numbuf, returned, ?_, ?_, ?_⟩
    · rw [holds.text_eq, holds.begins]
      omega
    · rw [holds.text_eq, holds.begins, holds.terminated]
    · rw [holds.text_eq]
      exact signedText_denotes width notMin

/-- The signed conversions return the decimal numeral of every value but the smallest of their
types. -/
theorem signed_conversions_returnsInt_iff (cells : Cells) (i : BitVec 32) (ll : BitVec 64) :
    (ReturnsInt (i2a i cells) i.toInt ↔ i ≠ BitVec.intMin 32) ∧
      (ReturnsInt (li2a i cells) i.toInt ↔ i ≠ BitVec.intMin 32) ∧
      (ReturnsInt (lli2a ll cells) ll.toInt ↔ ll ≠ BitVec.intMin 64) ∧
      (ReturnsInt (zi2a i cells) i.toInt ↔ i ≠ BitVec.intMin 32) ∧
      (ReturnsInt (ti2a i cells) i.toInt ↔ i ≠ BitVec.intMin 32) := by
  have narrow := signed2a_returnsInt_iff (Or.inl rfl) cells i
  have wide := signed2a_returnsInt_iff (Or.inr rfl) cells ll
  exact ⟨narrow, narrow, wide, narrow, narrow⟩

/-- The text of -2147483648 is `-./,),(-*,(`. -/
theorem i2a_intMin : ¬ReturnsInt (i2a (BitVec.intMin 32) fun _ => 0) (BitVec.intMin 32).toInt := by
  rintro ⟨numbuf, returned, -, -, denotes⟩
  have text : (i2a (BitVec.intMin 32) fun _ => 0).map Numbuf.text =
      some ("-./,),(-*,(".toList.map byte) := by
    decide
  rw [returned, Option.map_some, Option.some.injEq] at text
  rw [text] at denotes
  have below : byte '(' ∈ "-./,),(-*,(".toList.map byte := by decide
  have character := denotes.mem below
  revert character
  decide

end Decimal

end Rkernel
