import Rkernel.Lib.Typewriter
import Rkernel.Terminal.Ccterm

/-!
# The screen

The console (`platform/i686-pc/terminal.c`) draws into the text buffer of the VGA, 25 rows of 80
cells, and goes on in the first row behind the last one. It is a typewriter whose strip is shown
on a screen of 2000 cells: the cursor is at the place of the next mark, a cell shows the mark that
was typed there last, and nothing outside of the screen is written.

`typeByte` says what a byte means to the typewriter, and the consumers of
`terminal/ccterm_output.c` do that to the console. They differ in who moves the carriage: one of
them takes `\r` and `\n` apart, the other one ends the line at every `\n`.
-/

namespace Rkernel

namespace Console

def vgaColorBlack : BitVec 8 := 0

def vgaColorLightGrey : BitVec 8 := 7

def vgaEntryColor (fg bg : BitVec 8) : BitVec 8 :=
  fg ||| bg <<< 4

/-- The inner loop of `console_init`, with the columns left. -/
def clearRow (color : BitVec 8) (y : ℕ) : (left x : ℕ) → (ℕ → BitVec 16) → ℕ → BitVec 16
  | 0, _, buffer => buffer
  | left + 1, x, buffer =>
      clearRow color y left (x + 1)
        (Function.update buffer (y * vgaWidth.toNat + x) (vgaEntry (byte ' ') color))

/-- The outer loop of `console_init`, with the rows left. -/
def clearRows (color : BitVec 8) : (left y : ℕ) → (ℕ → BitVec 16) → ℕ → BitVec 16
  | 0, _, buffer => buffer
  | left + 1, y, buffer =>
      clearRows color left (y + 1) (clearRow color y vgaWidth.toNat 0 buffer)

/-- `console_init` -/
def init (console : Console) : Console :=
  let color := vgaEntryColor vgaColorLightGrey vgaColorBlack
  { console with
    terminalRow := 0
    terminalColumn := 0
    terminalColor := color
    terminalBuffer := clearRows color vgaHeight.toNat 0 console.terminalBuffer }

/-- The screen shows what a typewriter has typed, grey on black, with blanks where it has typed
nothing. The memory behind the screen is as it was. -/
structure Displays (console : Console) (memory : ℕ → BitVec 16) (typewriter : Typewriter Byte) :
    Prop where
  row : console.terminalRow.toNat = typewriter.place / 80 % 25
  column : console.terminalColumn.toNat = typewriter.place % 80
  color : console.terminalColor = 7
  cells : ∀ index < 2000, console.terminalBuffer index =
    vgaEntry ((typewriter.shown 2000 index).getD (byte ' ')) 7
  behind : ∀ index, 2000 ≤ index → console.terminalBuffer index = memory index

end Console

/-- What a byte means to the typewriter: a line ends at `\n`, a tabulator goes on to the next
column that is a multiple of 4, and all other control characters mean nothing. -/
def typeByte (c : Byte) (typewriter : Typewriter Byte) : Typewriter Byte :=
  if c = byte '\n' then (typewriter.carriageReturn 80).lineFeed 80
  else if c = byte '\t' ∨ c = 0x0b then
    typewriter.typeAll (List.replicate (4 - typewriter.place % 4) (byte ' '))
  else if c < 0x20 ∨ c = 0x7f then typewriter
  else typewriter.type c

def typeBytes (bytes : List Byte) (typewriter : Typewriter Byte) : Typewriter Byte :=
  bytes.foldl (fun typewriter c => typeByte c typewriter) typewriter

/-- A byte that is typed. -/
def Printable (c : Byte) : Prop :=
  0x20 ≤ c ∧ c ≠ 0x7f

instance (c : Byte) : Decidable (Printable c) :=
  inferInstanceAs (Decidable (_ ∧ _))

section Classes

theorem charClass_nl : charClass (byte '\n') = .nl := by decide

theorem charClass_cr : charClass (byte '\r') = .cr := by decide

theorem charClass_tab {c : Byte} (isTab : c = byte '\t' ∨ c = 0x0b) : charClass c = .tab := by
  rcases isTab with rfl | rfl
  · decide
  · decide

/-- What the table of `ansi_charmap.h` and the default of the consumers come to. -/
theorem charClass_other {c : Byte} (notNl : c ≠ byte '\n') (notTab : ¬(c = byte '\t' ∨ c = 0x0b)) :
    charClass c =
      if c < 0x20 ∨ c = 0x7f then
        if c = byte '\r' then .cr else if c = 0x08 then .backspace else .ignore
      else .print := by
  rw [not_or] at notTab
  simp only [charClass, ansiCharmap, if_neg notNl, if_neg notTab.1, if_neg notTab.2]
  by_cases isCr : c = byte '\r'
  · rw [isCr]
    decide
  by_cases isBackspace : c = 0x08
  · rw [isBackspace]
    decide
  by_cases isDelete : c = 0x7f
  · rw [isDelete]
    decide
  · simp only [if_neg isCr, if_neg isBackspace, isDelete, or_false, if_false, if_true]

end Classes

namespace Console

variable {console : Console} {memory : ℕ → BitVec 16} {typewriter : Typewriter Byte}

section Init

variable {color : BitVec 8}

theorem clearRow_eq (y left x : ℕ) (buffer : ℕ → BitVec 16) (index : ℕ) :
    clearRow color y left x buffer index =
      if y * 80 + x ≤ index ∧ index < y * 80 + x + left then vgaEntry (byte ' ') color
      else buffer index := by
  induction left generalizing x buffer with
  | zero => rw [clearRow, if_neg (by omega)]
  | succ left ih =>
      have width : vgaWidth.toNat = 80 := rfl
      rw [clearRow, ih, width]
      by_cases here : index = y * 80 + x
      · rw [if_neg (by omega), if_pos (by omega), here, Function.update_self]
      · rw [Function.update_of_ne here]
        congr 1
        apply propext
        omega

theorem clearRows_eq (left y : ℕ) (buffer : ℕ → BitVec 16) (index : ℕ) :
    clearRows color left y buffer index =
      if y * 80 ≤ index ∧ index < (y + left) * 80 then vgaEntry (byte ' ') color
      else buffer index := by
  induction left generalizing y buffer with
  | zero => rw [clearRows, if_neg (by omega)]
  | succ left ih =>
      have width : vgaWidth.toNat = 80 := rfl
      rw [clearRows, ih, width, clearRow_eq]
      by_cases inRow : y * 80 + 0 ≤ index ∧ index < y * 80 + 0 + 80
      · rw [if_neg (by omega), if_pos inRow, if_pos (by omega)]
      · rw [if_neg inRow]
        congr 1
        apply propext
        omega

theorem init_displays (console : Console) :
    console.init.Displays console.terminalBuffer Typewriter.blank := by
  have cleared : ∀ index, console.init.terminalBuffer index =
      if 0 * 80 ≤ index ∧ index < (0 + 25) * 80 then vgaEntry (byte ' ') 7
      else console.terminalBuffer index :=
    clearRows_eq 25 0 console.terminalBuffer
  refine ⟨rfl, rfl, rfl, ?_, ?_⟩
  · intro index inScreen
    rw [cleared, if_pos (by omega)]
    rfl
  · intro index behind
    rw [cleared, if_neg (by omega)]

end Init

namespace Displays

theorem column_lt (displays : console.Displays memory typewriter) :
    console.terminalColumn.toNat < 80 := by
  rw [displays.column]
  exact Nat.mod_lt _ (by omega)

theorem toNat_nextRow {row : BitVec 32} {place : ℕ} (inScreen : row.toNat = place / 80 % 25) :
    (nextRow row).toNat = (place + 80) / 80 % 25 := by
  have height : vgaHeight.toNat = 25 := rfl
  have one : (1 : BitVec 32).toNat = 1 := rfl
  have zero : (0 : BitVec 32).toNat = 0 := rfl
  have next : (row + 1).toNat = row.toNat + 1 := by
    rw [BitVec.toNat_add, one]
    omega
  rw [nextRow]
  split
  · rename_i isLast
    rw [isLast, height] at next
    omega
  · rename_i notLast
    have notHeight : (row + 1).toNat ≠ 25 := fun same => notLast (BitVec.eq_of_toNat_eq same)
    omega

theorem carriageReturn (displays : console.Displays memory typewriter) :
    console.carriageReturn.Displays memory (typewriter.carriageReturn 80) := by
  refine ⟨?_, ?_, displays.color, displays.cells, displays.behind⟩
  · have row := displays.row
    simp only [Typewriter.carriageReturn, Console.carriageReturn]
    omega
  · simp only [Typewriter.carriageReturn, Console.carriageReturn, Nat.mul_mod_left]
    rfl

theorem newline (displays : console.Displays memory typewriter) :
    console.newline.Displays memory (typewriter.lineFeed 80) := by
  refine ⟨toNat_nextRow displays.row, ?_, displays.color, displays.cells, displays.behind⟩
  have column := displays.column
  simp only [Typewriter.lineFeed, Console.newline, Nat.add_mod_right]
  exact column

/-- The index of the cursor's cell. -/
theorem index_eq (displays : console.Displays memory typewriter) :
    (console.terminalRow * vgaWidth + console.terminalColumn).toNat = typewriter.place % 2000 := by
  have width : vgaWidth.toNat = 80 := rfl
  have row := displays.row
  have column := displays.column
  have small : console.terminalRow.toNat * 80 < 2 ^ 32 := by omega
  rw [BitVec.toNat_add, BitVec.toNat_mul, width, Nat.mod_eq_of_lt small]
  have rowLine : typewriter.place / 80 / 25 = typewriter.place / 2000 := Nat.div_div_eq_div_mul ..
  omega

theorem putchar (displays : console.Displays memory typewriter) (c : Byte) :
    (console.putchar c).Displays memory (typewriter.type c) := by
  have width : vgaWidth.toNat = 80 := rfl
  have one : (1 : BitVec 32).toNat = 1 := rfl
  have column := displays.column
  have columnLt := displays.column_lt
  have index := displays.index_eq
  have next : (console.terminalColumn + 1).toNat = console.terminalColumn.toNat + 1 := by
    rw [BitVec.toNat_add, one]
    omega
  have wraps : console.terminalColumn + 1 = vgaWidth ↔ console.terminalColumn.toNat = 79 := by
    rw [← BitVec.toNat_inj, next, width]
    omega
  have place : (typewriter.type c).place = typewriter.place + 1 := rfl
  refine ⟨?_, ?_, displays.color, ?_, ?_⟩
  · have row := displays.row
    have nextRow := toNat_nextRow row
    simp only [Console.putchar, wraps, place]
    split
    · omega
    · omega
  · simp only [Console.putchar, wraps, place]
    split
    · change 0 = _
      omega
    · omega
  · intro cell inScreen
    simp only [Console.putchar, index, displays.color]
    rw [Typewriter.shown_type]
    by_cases here : typewriter.place % 2000 = cell
    · rw [if_pos here, here, Function.update_self, Option.getD_some]
    · rw [if_neg here, Function.update_of_ne (Ne.symm here)]
      exact displays.cells cell inScreen
  · intro cell behind
    simp only [Console.putchar, index]
    rw [Function.update_of_ne (by omega)]
    exact displays.behind cell behind

theorem ccTabLoop (displays : console.Displays memory typewriter) (left : ℕ) :
    (Rkernel.ccTabLoop left console).Displays memory
      (typewriter.typeAll (List.replicate left (byte ' '))) := by
  induction left generalizing console typewriter with
  | zero => exact displays
  | succ left ih => exact ih (displays.putchar (byte ' '))

theorem ccTab (displays : console.Displays memory typewriter) :
    (Rkernel.ccTab console).Displays memory
      (typewriter.typeAll (List.replicate (4 - typewriter.place % 4) (byte ' '))) := by
  have four : (4 : BitVec 32).toNat = 4 := rfl
  have blanks : (console.terminalColumn % 4).toNat = typewriter.place % 4 := by
    rw [BitVec.toNat_umod, four, displays.column]
    omega
  rw [Rkernel.ccTab, blanks]
  exact displays.ccTabLoop _

/-- A byte of `ccterm_lite_ops_consume`. -/
theorem liteOutput (displays : console.Displays memory typewriter) (c : Byte) :
    (Rkernel.liteOutput c console).Displays memory (typeByte c typewriter) := by
  rw [Rkernel.liteOutput, typeByte]
  by_cases isNl : c = byte '\n'
  · rw [isNl, charClass_nl]
    exact displays.carriageReturn.newline
  rw [if_neg isNl]
  by_cases isTab : c = byte '\t' ∨ c = 0x0b
  · rw [charClass_tab isTab, if_pos isTab]
    exact displays.ccTab
  rw [if_neg isTab, charClass_other isNl isTab]
  by_cases isControl : c < 0x20 ∨ c = 0x7f
  · rw [if_pos isControl, if_pos isControl]
    split_ifs
    · exact displays
    · exact displays
    · exact displays
  · rw [if_neg isControl, if_neg isControl]
    exact displays.putchar c

theorem showBytes (displays : console.Displays memory typewriter) (bytes : List Byte) :
    (Rkernel.showBytes Rkernel.liteOutput bytes console).Displays memory
      (typeBytes bytes typewriter) := by
  induction bytes generalizing console typewriter with
  | nil => exact displays
  | cons c bytes ih => exact ih (displays.liteOutput c)

end Displays

end Console

section LineEnds

/-- The line ends of one consumer in terms of the other: `\r\n` for `\n`, and no other `\r`. -/
def crlf (c : Byte) : List Byte :=
  if c = byte '\n' then [byte '\r', byte '\n'] else if c = byte '\r' then [] else [c]

theorem stdOutput_crlf (c : Byte) (console : Console) :
    showBytes stdOutput (crlf c) console = liteOutput c console := by
  rw [crlf]
  by_cases isNl : c = byte '\n'
  · rw [if_pos isNl, isNl, liteOutput, charClass_nl]
    change stdOutput (byte '\n') (stdOutput (byte '\r') console) = _
    rw [stdOutput, stdOutput, charClass_nl, charClass_cr]
  rw [if_neg isNl]
  by_cases isCr : c = byte '\r'
  · rw [if_pos isCr, isCr, liteOutput, charClass_cr]
    rfl
  · rw [if_neg isCr]
    change stdOutput c console = liteOutput c console
    rw [stdOutput, liteOutput]
    by_cases isTab : c = byte '\t' ∨ c = 0x0b
    · rw [charClass_tab isTab]
    · rw [charClass_other isNl isTab, if_neg isCr]
      split_ifs
      · rfl
      · rfl
      · rfl

theorem showBytes_crlf (bytes : List Byte) (console : Console) :
    showBytes stdOutput (bytes.flatMap crlf) console = showBytes liteOutput bytes console := by
  induction bytes generalizing console with
  | nil => rfl
  | cons c bytes ih =>
      rw [List.flatMap_cons, showBytes, List.foldl_append]
      change showBytes stdOutput (bytes.flatMap crlf) (showBytes stdOutput (crlf c) console) = _
      rw [stdOutput_crlf, ih]
      rfl

end LineEnds

section Layout

theorem typeByte_printable {c : Byte} (printable : Printable c) (typewriter : Typewriter Byte) :
    typeByte c typewriter = typewriter.type c := by
  have notNl : c ≠ byte '\n' := by
    rintro rfl
    exact absurd printable.1 (by decide)
  have notTab : ¬(c = byte '\t' ∨ c = 0x0b) := by
    rintro (rfl | rfl)
    · exact absurd printable.1 (by decide)
    · exact absurd printable.1 (by decide)
  have notControl : ¬(c < 0x20 ∨ c = 0x7f) := by
    rintro (below | isDelete)
    · exact absurd printable.1 (BitVec.not_le.mpr below)
    · exact printable.2 isDelete
  rw [typeByte, if_neg notNl, if_neg notTab, if_neg notControl]

theorem typeBytes_printable {text : List Byte} (printable : ∀ c ∈ text, Printable c)
    (typewriter : Typewriter Byte) : typeBytes text typewriter = typewriter.typeAll text := by
  induction text generalizing typewriter with
  | nil => rfl
  | cons c text ih =>
      rw [List.forall_mem_cons] at printable
      change typeBytes text (typeByte c typewriter) = (typewriter.type c).typeAll text
      rw [typeByte_printable printable.1, ih printable.2]

end Layout

end Rkernel
