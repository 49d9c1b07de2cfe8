import Rkernel.Libkern.FormatScan
import Rkernel.Libkern.Numerals

/-!
# What `printinfo` writes

A format of `iopipe_vprintinfo` (`libkern/printinfo.c`) is a sequence of characters and of
directives, which are a `~` and any letter. The reference expansion replaces every directive on
its own: addresses by eight hexadecimal digits, numbers by their decimal numeral, and directives
with an unknown letter by nothing, without taking an argument.

The formatter does not count what it writes. `Printed` therefore is `Produced` without the count.
-/

namespace Rkernel

open Numeral

section Expand

variable {A : Type} (vaArg : (type : VaType) → A → type.Value × A)

/-- The reference expansion of a token with the arguments left behind it. -/
def InfoToken.expand : InfoToken → A → List Byte × A
  | .literal c, ap => ([c], ap)
  | .directive c, ap =>
      if c = byte 'h' then Token.expandArg vaArg .paddrT renderPhysLow ap
      else if c = byte 'H' then Token.expandArg vaArg .paddrT renderPhysHigh ap
      else if c = byte 'p' then Token.expandArg vaArg .uIntptrT renderVirtLow ap
      else if c = byte 'P' then Token.expandArg vaArg .uIntptrT renderVirtHigh ap
      else if c = byte 'u' ∨ c = byte 'i' ∨ c = byte 'd' then
        Token.expandArg vaArg .unsignedInt u2a ap
      else ([], ap)

/-- The reference expansion of a format, with the arguments from left to right. -/
def expandInfoTokens : List InfoToken → A → List Byte × A
  | [], ap => ([], ap)
  | token :: tokens, ap =>
      let head := token.expand vaArg ap
      let tail := expandInfoTokens tokens head.2
      (head.1 ++ tail.1, tail.2)

end Expand

/-- An address directive writes eight digits, and they can be read back. -/
structure ReadsBack (alphabet : List Byte) (render : BitVec 32 → Cells → Option Numbuf) : Prop where
  length : ∀ address, (rendering (render address)).length = 8
  value : ∀ address, value alphabet (rendering (render address)) = some address.toNat

namespace Formatter

variable {A : Type} {vaArg : (type : VaType) → A → type.Value × A} {formatter : Formatter A}
  {output : List Byte}

/-- The output consists of what was written and of the text between `last` and `fmt`. -/
structure Printed (formatter : Formatter A) (output : List Byte) : Prop where
  pending : ∃ literal, formatter.last = literal ++ formatter.fmt ∧
    formatter.writes.flatten ++ literal = output

/-- A part of a formatter's code returns where it began, with an expansion written. -/
def Writes (formatter : Formatter A) (result : Option (Formatter A)) (expansion : List Byte × A) :
    Prop :=
  ∃ after, result = some after ∧ after.fmt = formatter.fmt ∧
    after.writes.flatten = formatter.writes.flatten ++ expansion.1 ∧ after.ap = expansion.2

theorem start_printed (format : CString) (ap : A) (numbuf : Cells) :
    (start format ap numbuf).Printed [] :=
  ⟨[], rfl, rfl⟩

theorem Printed.next (printed : formatter.Printed output) {c : Byte} {rest : List Byte}
    (atChar : formatter.fmt = c :: rest) : formatter.next.Printed (output ++ [c]) := by
  rcases printed.pending with ⟨literal, last, written⟩
  refine ⟨literal ++ [c], ?_, ?_⟩
  · change formatter.last = literal ++ [c] ++ formatter.fmt.tail
    rw [last, atChar]
    simp
  · change formatter.writes.flatten ++ (literal ++ [c]) = output ++ [c]
    rw [← List.append_assoc, written]

theorem Printed.writePending (printed : formatter.Printed output) :
    formatter.writePending.writes.flatten = output := by
  rcases printed.pending with ⟨literal, last, written⟩
  have pending : formatter.pending = literal.length := by
    rw [Formatter.pending, last, List.length_append]
    omega
  have text : formatter.last.take literal.length = literal := by
    rw [last, List.take_left]
  rw [Formatter.writePending, pending]
  split
  · change (formatter.writes ++ [formatter.last.take literal.length]).flatten = output
    rw [text, List.flatten_append, ← written]
    simp
  · rename_i empty
    have isNil : literal = [] := List.length_eq_zero_iff.mp (by omega)
    rwa [isNil, List.append_nil] at written

theorem render_writes {type : VaType} {helper : type.Value → Cells → Option Numbuf}
    (total : RendersAll helper) :
    formatter.Writes ((formatter.render vaArg type helper).map Prod.fst)
      (Token.expandArg vaArg type helper formatter.ap) := by
  rcases total.returns (vaArg type formatter.ap).1 formatter.numbuf with
    ⟨numbuf, returned, textEq⟩
  rw [render, returned]
  refine ⟨_, rfl, rfl, ?_, rfl⟩
  change (formatter.writes ++ [numbuf.text]).flatten = _
  rw [textEq, List.flatten_append, Token.expandArg]
  simp

theorem renderAddress_rendersAll {table : List Byte} (visible : ∀ k < 16, table.getD k 0 ≠ 0) :
    RendersAll (renderAddress table) :=
  fun address => ⟨_, renderAddress_renders visible address⟩

theorem infoDirective_writes {c : Byte} {rest : List Byte} (atChar : formatter.fmt = c :: rest) :
    formatter.Writes (formatter.infoDirective vaArg)
      ((InfoToken.directive c).expand vaArg formatter.ap) := by
  have low := renderAddress_rendersAll hexlow_visible
  have high := renderAddress_rendersAll hexhig_visible
  have decimal : RendersAll u2a := unsigned2a_rendersAll (Or.inl rfl)
  have head : formatter.fmt.head? = some c := by rw [atChar, List.head?_cons]
  simp only [infoDirective, head, InfoToken.expand, Option.bind_eq_bind, Option.bind_some]
  split
  · exact render_writes low
  split
  · exact render_writes high
  split
  · exact render_writes low
  split
  · exact render_writes high
  split
  · exact render_writes decimal
  · exact ⟨formatter, rfl, rfl, (List.append_nil _).symm, rfl⟩

/-- One iteration of the loop of `iopipe_vprintinfo` at a token. -/
theorem scan_info_token_printed (printed : formatter.Printed output) {token : InfoToken}
    (complete : token.Complete) (noNul : 0 ∉ token.text) {rest : List Byte}
    (atToken : formatter.fmt = token.text ++ rest) :
    ∃ after, after.fmt = rest ∧ after.Printed (output ++ (token.expand vaArg formatter.ap).1) ∧
      after.ap = (token.expand vaArg formatter.ap).2 ∧
      ∀ fuel, scan (byte '~') (tilde vaArg) (fuel + 1) formatter =
        scan (byte '~') (tilde vaArg) fuel after := by
  cases token with
  | literal c =>
      have atChar : formatter.fmt = c :: rest := atToken
      have visible : c ≠ 0 := by
        rintro rfl
        exact noNul List.mem_cons_self
      have plain : c ≠ byte '~' := complete
      refine ⟨formatter.next, ?_, printed.next atChar, rfl, ?_⟩
      · rw [next, atChar, List.tail_cons]
      · intro fuel
        rw [scan, atChar, List.head?_cons, Option.bind_some, if_neg visible, if_pos plain]
  | directive c =>
      have atMark : formatter.fmt = byte '~' :: c :: rest := atToken
      have atChar : formatter.writePending.next.fmt = c :: rest := by
        rw [next, writePending_fmt, atMark, List.tail_cons]
      have arguments : formatter.writePending.next.ap = formatter.ap := writePending_ap
      rcases @infoDirective_writes A vaArg _ _ _ atChar with
        ⟨before, directed, atLetter, written, ap⟩
      rw [arguments] at written ap
      have atRest : before.resume.fmt = rest := by
        change before.fmt.tail = rest
        rw [atLetter, atChar, List.tail_cons]
      refine ⟨before.resume, atRest, ⟨[], rfl, ?_⟩, ap, ?_⟩
      · change before.writes.flatten ++ [] = _
        rw [List.append_nil, written]
        exact congrArg (· ++ _) printed.writePending
      · intro fuel
        rw [scan, atMark, List.head?_cons, Option.bind_some, if_neg (by decide),
          if_neg (not_not.mpr rfl), tilde, directed, Option.map_some, Option.bind_some]

/-- The loop replaces all tokens and stops at the NUL. -/
theorem scan_info_tokens_printed (printed : formatter.Printed output) {tokens : List InfoToken}
    (complete : ∀ token ∈ tokens, token.Complete) (noNul : 0 ∉ tokens.flatMap InfoToken.text)
    (atTokens : formatter.fmt = tokens.flatMap InfoToken.text ++ [0]) :
    ∃ after, scan (byte '~') (tilde vaArg) (tokens.length + 1) formatter = some after ∧
      after.fmt = [0] ∧ after.Printed (output ++ (expandInfoTokens vaArg tokens formatter.ap).1) ∧
      after.ap = (expandInfoTokens vaArg tokens formatter.ap).2 := by
  induction tokens generalizing formatter output with
  | nil =>
      have atEnd : formatter.fmt = [0] := atTokens
      refine ⟨formatter, ?_, atEnd, ?_, rfl⟩
      · rw [scan, atEnd]
        rfl
      · rwa [expandInfoTokens, List.append_nil]
  | cons token tokens ih =>
      rw [List.flatMap_cons, List.mem_append, not_or] at noNul
      rw [List.flatMap_cons, List.append_assoc] at atTokens
      rcases @scan_info_token_printed A vaArg _ _ printed token (complete token List.mem_cons_self)
        noNul.1 _ atTokens with ⟨after, atRest, afterPrinted, arguments, oneStep⟩
      have restComplete := fun other otherMem =>
        complete other (List.mem_cons_of_mem token otherMem)
      rcases ih afterPrinted restComplete noNul.2 atRest with
        ⟨final, returned, atEnd, finalPrinted, finalArguments⟩
      rw [arguments] at finalPrinted finalArguments
      refine ⟨final, ?_, atEnd, ?_, finalArguments⟩
      · rw [List.length_cons, oneStep, returned]
      · rwa [List.append_assoc] at finalPrinted

end Formatter

section Vprintinfo

variable {A : Type} {vaArg : (type : VaType) → A → type.Value × A}

/-- `iopipe_vprintinfo` returns at the NUL with the expansion of the format written. -/
theorem iopipeVprintinfo_written (format : CString) (ap : A) (numbuf : Cells)
    {tokens : List InfoToken} (complete : ∀ token ∈ tokens, token.Complete)
    (parsed : format.chars = tokens.flatMap InfoToken.text) :
    ∃ final, iopipeVprintinfo vaArg (tokens.length + 1) format ap numbuf = some final ∧
      final.fmt = [0] ∧ final.writes.flatten = (expandInfoTokens vaArg tokens ap).1 ∧
      final.ap = (expandInfoTokens vaArg tokens ap).2 := by
  have noNul := format.noNul
  have atTokens : (Formatter.start format ap numbuf).fmt =
      tokens.flatMap InfoToken.text ++ [0] := by
    rw [← parsed]
    rfl
  rw [parsed] at noNul
  rcases @Formatter.scan_info_tokens_printed A vaArg _ _
    (Formatter.start_printed format ap numbuf) tokens complete noNul atTokens with
    ⟨after, returned, atEnd, printed, arguments⟩
  refine ⟨after.writePending, ?_, ?_, printed.writePending, ?_⟩
  · rw [iopipeVprintinfo, returned, Option.map_some]
  · rw [Formatter.writePending_fmt, atEnd]
  · rw [Formatter.writePending_ap, arguments]
    rfl

theorem renderAddress_readsBack {table : List Byte} (nodup : table.Nodup)
    (length : table.length = 16) (visible : ∀ k < 16, table.getD k 0 ≠ 0) :
    ReadsBack table (renderAddress table) := by
  have text (address : BitVec 32) :
      rendering (renderAddress table address) = addressText table 8 address :=
    (renderAddress_renders visible address).rendering_eq
  constructor
  · intro address
    rw [text, addressText_length]
  · intro address
    rw [text, addressText_value nodup length]
    exact congrArg some (Nat.mod_eq_of_lt address.isLt)

end Vprintinfo

/-- A format of `printinfo` in which no `~` is the last character is written token by token, with
the arguments taken from left to right, and the addresses in it can be read back. -/
theorem iopipeVprintinfo_expands {A : Type} (vaArg : (type : VaType) → A → type.Value × A)
    (format : CString) (tokens : List InfoToken) (complete : ∀ token ∈ tokens, token.Complete)
    (parsed : format.chars = tokens.flatMap InfoToken.text) (ap : A) (numbuf : Cells) :
    (∃ fuel final, iopipeVprintinfo vaArg fuel format ap numbuf = some final ∧
      final.writes.flatten = (expandInfoTokens vaArg tokens ap).1 ∧
      final.ap = (expandInfoTokens vaArg tokens ap).2) ∧
    ReadsBack hexlow renderPhysLow ∧ ReadsBack hexhig renderPhysHigh ∧
    ReadsBack hexlow renderVirtLow ∧ ReadsBack hexhig renderVirtHigh := by
  have low := renderAddress_readsBack (show hexlow.Nodup by decide) rfl hexlow_visible
  have high := renderAddress_readsBack (show hexhig.Nodup by decide) rfl hexhig_visible
  refine ⟨?_, low, high, low, high⟩
  rcases @iopipeVprintinfo_written A vaArg format ap numbuf tokens complete parsed with
    ⟨final, returned, -, written, arguments⟩
  exact ⟨_, final, returned, written, arguments⟩

theorem iopipeVprintinfo_expands_range :
    (∃ fuel final, iopipeVprintinfo nextArg fuel ⟨"0x~H".toList.map byte, by decide⟩
        [⟨.paddrT, (0xb8000 : BitVec 32)⟩] (fun _ => 0) = some final ∧
      final.writes.flatten = "0x000B8000".toList.map byte ∧ final.ap = []) ∧
    ReadsBack hexlow renderPhysLow ∧ ReadsBack hexhig renderPhysHigh ∧
    ReadsBack hexlow renderVirtLow ∧ ReadsBack hexhig renderVirtHigh := by
  have expansion : (expandInfoTokens nextArg
      [.literal (byte '0'), .literal (byte 'x'), .directive (byte 'H')]
      [⟨.paddrT, (0xb8000 : BitVec 32)⟩]).1 = "0x000B8000".toList.map byte := by
    decide
  rw [← expansion]
  apply iopipeVprintinfo_expands
  · simp only [List.mem_cons, List.not_mem_nil, or_false]
    rintro token (rfl | rfl | rfl)
    · exact (by decide : byte '0' ≠ byte '~')
    · exact (by decide : byte 'x' ≠ byte '~')
    · trivial
  · decide

end Rkernel
