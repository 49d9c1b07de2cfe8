import Rkernel.Libkern.Formatter

/-!
# What a formatter writes

A format string is read as a sequence of tokens: single characters, `%%`, and directives with
an optional length prefix. The reference expansion replaces every token on its own.

`iopipe_vioprintf` writes literal text later than it reads it. `Produced` therefore counts the
text between `last` and `fmt` as output; where nothing is pending this is `Flushed`. Every
token appends its expansion to the output, which is also the number that `count` holds, as far
as an `int` can hold it.
-/

namespace Rkernel

/-- The letters of a length prefix. -/
def Length.letters : Length → List Byte
  | .plain => []
  | .z => [byte 'z']
  | .t => [byte 't']
  | .l => [byte 'l']
  | .ll => [byte 'l', byte 'l']

/-- The parts of a format string. The letter behind a length prefix may be any. -/
inductive Token where
  | literal (c : Byte)
  | percent
  | integer (length : Length) (c : Byte)
  | pointer
  | character
  | string

/-- The text that a helper returns. -/
def rendering (helper : Cells → Option Numbuf) : List Byte :=
  ((helper fun _ => 0).map Numbuf.text).getD []

namespace Token

def text : Token → List Byte
  | .literal c => [c]
  | .percent => [byte '%', byte '%']
  | .integer length c => byte '%' :: length.letters ++ [c]
  | .pointer => [byte '%', byte 'p']
  | .character => [byte '%', byte 'c']
  | .string => [byte '%', byte 's']

/-- The text of a token is not read as another one. -/
def Complete : Token → Prop
  | .literal c => c ≠ byte '%'
  | .integer .plain c => c ∉ "%ztlpcs".toList.map byte
  | .integer .l c => c ≠ byte 'l'
  | _ => True

/-- A character other than `%`, `%%` or a directive that the formatter knows. -/
def Supported : Token → Prop
  | .literal c => c ≠ byte '%'
  | .integer _ c => c ∈ "diuxXo".toList.map byte
  | _ => True

instance (token : Token) : Decidable token.Supported :=
  match token with
  | .literal c => inferInstanceAs (Decidable (c ≠ byte '%'))
  | .integer _ c => inferInstanceAs (Decidable (c ∈ "diuxXo".toList.map byte))
  | .percent | .pointer | .character | .string => instDecidableTrue

/-- The type of the argument that a token takes. -/
def argType : Token → Option VaType
  | .literal _ | .percent => none
  | .integer length c =>
      if c = byte 'd' ∨ c = byte 'i' then some length.conversions.signed
      else some length.conversions.unsigned
  | .pointer => some .voidPointer
  | .character => some .int
  | .string => some .charPointer

section Expand

variable {A : Type} (vaArg : (type : VaType) → A → type.Value × A)

/-- A helper's rendering of the next argument. -/
def expandArg (type : VaType) (helper : type.Value → Cells → Option Numbuf) (ap : A) :
    List Byte × A :=
  (rendering (helper (vaArg type ap).1), (vaArg type ap).2)

/-- The reference expansion of a token with the arguments left behind it. -/
def expand : Token → A → List Byte × A
  | .literal c, ap => ([c], ap)
  | .percent, ap => ([byte '%'], ap)
  | .integer length c, ap =>
      let conversions := length.conversions
      if c = byte 'd' ∨ c = byte 'i' then expandArg vaArg conversions.signed conversions.i2a ap
      else if c = byte 'u' then expandArg vaArg conversions.unsigned conversions.u2a ap
      else if c = byte 'x' then expandArg vaArg conversions.unsigned conversions.x2a ap
      else if c = byte 'X' then expandArg vaArg conversions.unsigned conversions.X2a ap
      else if c = byte 'o' then expandArg vaArg conversions.unsigned conversions.o2a ap
      else ([], ap)
  | .pointer, ap => expandArg vaArg .voidPointer p2a ap
  | .character, ap =>
      ([BitVec.setWidth 8 (show BitVec 32 from (vaArg .int ap).1)], (vaArg .int ap).2)
  | .string, ap => (stringText (vaArg .charPointer ap).1, (vaArg .charPointer ap).2)

end Expand

end Token

/-- The reference expansion of a format: token by token, with the arguments from left to
right. -/
def expandTokens {A : Type} (vaArg : (type : VaType) → A → type.Value × A) :
    List Token → A → List Byte × A
  | [], ap => ([], ap)
  | token :: tokens, ap =>
      let head := token.expand vaArg ap
      let tail := expandTokens vaArg tokens head.2
      (head.1 ++ tail.1, tail.2)

section Renderings

theorem Renders.rendering_eq {helper : Cells → Option Numbuf} {text : List Byte}
    (renders : Renders helper text) : rendering helper = text := by
  rcases renders fun _ => 0 with ⟨numbuf, returned, holds⟩
  rw [rendering, returned]
  exact holds.text_eq

/-- A helper that always returns its rendering. -/
def RendersAll {V : Type} (helper : V → Cells → Option Numbuf) : Prop :=
  ∀ value, ∃ text, Renders (helper value) text

theorem RendersAll.returns {V : Type} {helper : V → Cells → Option Numbuf}
    (total : RendersAll helper) (value : V) (cells : Cells) :
    ∃ numbuf, helper value cells = some numbuf ∧ numbuf.text = rendering (helper value) := by
  rcases total value with ⟨text, renders⟩
  rcases renders cells with ⟨numbuf, returned, holds⟩
  exact ⟨numbuf, returned, holds.text_eq.trans renders.rendering_eq.symm⟩

theorem p2a_rendersAll : RendersAll p2a :=
  fun value => ⟨_, p2a_renders value⟩

/-- The conversions of every length prefix are total. -/
structure Conversions.Total (conversions : Conversions) : Prop where
  i2a : RendersAll conversions.i2a
  u2a : RendersAll conversions.u2a
  x2a : RendersAll conversions.x2a
  X2a : RendersAll conversions.X2a
  o2a : RendersAll conversions.o2a

section Width

variable {w : ℕ}

theorem signed2a_rendersAll (width : w = 32 ∨ w = 64) : RendersAll (@signed2a w) :=
  fun value => ⟨_, signed2a_renders width value⟩

theorem unsigned2a_rendersAll (width : w = 32 ∨ w = 64) : RendersAll (@unsigned2a w) :=
  fun value => ⟨_, unsigned2a_renders width value⟩

theorem hexlow2a_rendersAll (width : w = 32 ∨ w = 64) : RendersAll (@hex2a w hexlow) :=
  fun value => ⟨_, hex2a_renders width hexlow_visible value⟩

theorem hexhig2a_rendersAll (width : w = 32 ∨ w = 64) : RendersAll (@hex2a w hexhig) :=
  fun value => ⟨_, hex2a_renders width hexhig_visible value⟩

theorem octal2a_rendersAll (width : w = 32 ∨ w = 64) : RendersAll (@octal2a w) :=
  fun value => ⟨_, octal2a_renders width value⟩

end Width

theorem Length.conversions_total (length : Length) : length.conversions.Total := by
  have narrow : 32 = 32 ∨ 32 = 64 := Or.inl rfl
  have wide : 64 = 32 ∨ 64 = 64 := Or.inr rfl
  cases length with
  | ll =>
      exact ⟨signed2a_rendersAll wide, unsigned2a_rendersAll wide, hexlow2a_rendersAll wide,
        hexhig2a_rendersAll wide, octal2a_rendersAll wide⟩
  | plain | z | t | l =>
      exact ⟨signed2a_rendersAll narrow, unsigned2a_rendersAll narrow,
        hexlow2a_rendersAll narrow, hexhig2a_rendersAll narrow, octal2a_rendersAll narrow⟩

end Renderings

namespace Formatter

variable {A : Type} {vaArg : (type : VaType) → A → type.Value × A}

/-- Nothing is pending: the output has been written and counted. -/
structure Flushed (formatter : Formatter A) (output : List Byte) : Prop where
  written : formatter.writes.flatten = output
  counted : formatter.count = BitVec.ofNat 32 output.length

/-- The output consists of what was written and of the text between `last` and `fmt`. -/
structure Produced (formatter : Formatter A) (output : List Byte) : Prop where
  pending : ∃ literal, formatter.last = literal ++ formatter.fmt ∧
    formatter.writes.flatten ++ literal = output ∧
    formatter.count + BitVec.ofNat 32 literal.length = BitVec.ofNat 32 output.length

/-- A part of the loop returns with an expansion appended to the output. -/
def Emits (result : Option (Formatter A)) (fmt output : List Byte) (expansion : List Byte × A) :
    Prop :=
  ∃ formatter, result = some formatter ∧ formatter.fmt = fmt ∧
    formatter.Flushed (output ++ expansion.1) ∧ formatter.ap = expansion.2

section Parts

variable {formatter : Formatter A} {output : List Byte}

theorem start_produced (format : CString) (ap : A) (numbuf : Cells) :
    (start format ap numbuf).Produced [] :=
  ⟨[], rfl, rfl, rfl⟩

theorem Produced.next (produced : formatter.Produced output) {c : Byte} {rest : List Byte}
    (atChar : formatter.fmt = c :: rest) : formatter.next.Produced (output ++ [c]) := by
  rcases produced.pending with ⟨literal, last, written, counted⟩
  refine ⟨literal ++ [c], ?_, ?_, ?_⟩
  · change formatter.last = literal ++ [c] ++ formatter.fmt.tail
    rw [last, atChar]
    simp
  · change formatter.writes.flatten ++ (literal ++ [c]) = output ++ [c]
    rw [← List.append_assoc, written]
  · change formatter.count + BitVec.ofNat 32 (literal ++ [c]).length = _
    rw [List.length_append, List.length_append, BitVec.ofNat_add, BitVec.ofNat_add,
      ← BitVec.add_assoc, counted]

@[simp]
theorem writePending_fmt : formatter.writePending.fmt = formatter.fmt := by
  rw [writePending]
  split <;> rfl

@[simp]
theorem writePending_ap : formatter.writePending.ap = formatter.ap := by
  rw [writePending]
  split <;> rfl

@[simp]
theorem flush_fmt : formatter.flush.fmt = formatter.fmt :=
  writePending_fmt

@[simp]
theorem flush_ap : formatter.flush.ap = formatter.ap :=
  writePending_ap

theorem Produced.flush (produced : formatter.Produced output) :
    formatter.flush.Flushed output := by
  rcases produced.pending with ⟨literal, last, written, counted⟩
  have pending : formatter.pending = literal.length := by
    rw [Formatter.pending, last, List.length_append]
    omega
  have size : (formatter.addCount formatter.pending).pending = literal.length := pending
  have counts : (formatter.addCount formatter.pending).count =
      BitVec.ofNat 32 output.length := by
    rw [pending]
    exact counted
  have text : formatter.last.take literal.length = literal := by
    rw [last, List.take_left]
  rw [Formatter.flush, writePending, size]
  split
  · refine ⟨?_, counts⟩
    change (formatter.writes ++ [formatter.last.take literal.length]).flatten = output
    rw [text, List.flatten_append, ← written]
    simp
  · rename_i empty
    have isNil : literal = [] := List.length_eq_zero_iff.mp (by omega)
    refine ⟨?_, counts⟩
    rw [isNil, List.append_nil] at written
    exact written

theorem Flushed.next (flushed : formatter.Flushed output) : formatter.next.Flushed output :=
  ⟨flushed.written, flushed.counted⟩

theorem Flushed.resume (flushed : formatter.Flushed output) :
    formatter.resume.Produced output := by
  refine ⟨[], rfl, ?_, ?_⟩
  · rw [List.append_nil]
    exact flushed.written
  · exact (BitVec.add_zero _).trans flushed.counted

theorem Flushed.write (flushed : formatter.Flushed output) (text : List Byte) :
    ((formatter.iopipeWrite text).addCount text.length).Flushed (output ++ text) := by
  constructor
  · change (formatter.writes ++ [text]).flatten = output ++ text
    rw [List.flatten_append, flushed.written]
    simp
  · change formatter.count + BitVec.ofNat 32 text.length = _
    rw [flushed.counted, List.length_append, BitVec.ofNat_add]

theorem convert_emits (flushed : formatter.Flushed output) {type : VaType}
    {helper : type.Value → Cells → Option Numbuf} (total : RendersAll helper) :
    Emits (formatter.convert vaArg type helper) formatter.fmt output
      (Token.expandArg vaArg type helper formatter.ap) := by
  rcases total.returns (vaArg type formatter.ap).1 formatter.numbuf with
    ⟨numbuf, returned, textEq⟩
  rw [convert, render, returned]
  refine ⟨_, rfl, rfl, ?_, rfl⟩
  rw [Token.expandArg, ← textEq]
  have taken : ({ formatter with
      ap := (vaArg type formatter.ap).2, numbuf := numbuf.cells } : Formatter A).Flushed output :=
    ⟨flushed.written, flushed.counted⟩
  exact taken.write numbuf.text

theorem integer_emits (flushed : formatter.Flushed output) (length : Length) {c : Byte}
    {rest : List Byte} (atChar : formatter.fmt = c :: rest) :
    Emits (formatter.integer vaArg length) formatter.fmt output
      ((Token.integer length c).expand vaArg formatter.ap) := by
  have total := length.conversions_total
  have head : formatter.fmt.head? = some c := by rw [atChar, List.head?_cons]
  simp only [integer, head, Token.expand, Option.bind_eq_bind, Option.bind_some]
  split
  · exact convert_emits flushed total.i2a
  split
  · exact convert_emits flushed total.u2a
  split
  · exact convert_emits flushed total.x2a
  split
  · exact convert_emits flushed total.X2a
  split
  · exact convert_emits flushed total.o2a
  · refine ⟨formatter, rfl, rfl, ?_, rfl⟩
    rwa [List.append_nil]

theorem character_emits (flushed : formatter.Flushed output) :
    Emits (some (formatter.character vaArg)) formatter.fmt output
      (Token.character.expand vaArg formatter.ap) := by
  refine ⟨_, rfl, rfl, ?_, rfl⟩
  have taken : ({ formatter with
      ap := (vaArg .int formatter.ap).2
      numbuf := Function.update formatter.numbuf 0
        (BitVec.setWidth 8 (show BitVec 32 from (vaArg .int formatter.ap).1)) } :
      Formatter A).Flushed output :=
    ⟨flushed.written, flushed.counted⟩
  exact taken.write [BitVec.setWidth 8 (show BitVec 32 from (vaArg .int formatter.ap).1)]

theorem string_emits (flushed : formatter.Flushed output) :
    Emits (some (formatter.string vaArg)) formatter.fmt output
      (Token.string.expand vaArg formatter.ap) := by
  refine ⟨_, rfl, rfl, ?_, rfl⟩
  have taken : ({ formatter with
      ap := (vaArg .charPointer formatter.ap).2 } : Formatter A).Flushed output :=
    ⟨flushed.written, flushed.counted⟩
  exact taken.write _

/-- The switch behind a `%`, for the character that it reads. -/
theorem directive_eq {c : Byte} {rest : List Byte} (atChar : formatter.fmt = c :: rest) :
    formatter.directive vaArg =
      if c = byte 'z' then formatter.next.integer vaArg .z
      else if c = byte 't' then formatter.next.integer vaArg .t
      else if c = byte 'l' then
        rest.head?.bind fun d =>
          if d = byte 'l' then formatter.next.next.integer vaArg .ll
          else formatter.next.integer vaArg .l
      else if c = byte 'p' then formatter.convert vaArg .voidPointer p2a
      else if c = byte 'c' then some (formatter.character vaArg)
      else if c = byte 's' then some (formatter.string vaArg)
      else formatter.integer vaArg .plain := by
  have atNext : formatter.next.fmt = rest := by rw [next, atChar, List.tail_cons]
  simp only [directive, atChar, atNext, List.head?_cons, Option.bind_eq_bind, Option.bind_some]

/-- The directive of an integer token, behind its `%`. -/
theorem directive_integer_emits (flushed : formatter.Flushed output) {length : Length} {c : Byte}
    (complete : (Token.integer length c).Complete) {rest : List Byte}
    (atDirective : formatter.fmt = length.letters ++ c :: rest) :
    Emits (formatter.directive vaArg) (c :: rest) output
      ((Token.integer length c).expand vaArg formatter.ap) := by
  have atNext : formatter.next.fmt = formatter.fmt.tail := rfl
  have atSecond : formatter.next.next.fmt = formatter.fmt.tail.tail := rfl
  rw [atDirective] at atNext atSecond
  cases length with
  | plain =>
      have atChar : formatter.fmt = c :: rest := atDirective
      have others : ¬c = byte '%' ∧ ¬c = byte 'z' ∧ ¬c = byte 't' ∧ ¬c = byte 'l' ∧
          ¬c = byte 'p' ∧ ¬c = byte 'c' ∧ ¬c = byte 's' := by
        simpa [Token.Complete] using complete
      rcases others with ⟨-, notZ, notT, notL, notP, notC, notS⟩
      rw [directive_eq atChar, if_neg notZ, if_neg notT, if_neg notL, if_neg notP, if_neg notC,
        if_neg notS, ← atChar]
      exact integer_emits flushed .plain atChar
  | z =>
      rw [directive_eq atDirective, if_pos rfl, ← show formatter.next.fmt = c :: rest from atNext]
      exact integer_emits flushed.next .z atNext
  | t =>
      rw [directive_eq atDirective, if_neg (by decide), if_pos rfl,
        ← show formatter.next.fmt = c :: rest from atNext]
      exact integer_emits flushed.next .t atNext
  | l =>
      have notL : c ≠ byte 'l' := complete
      rw [directive_eq atDirective, if_neg (by decide), if_neg (by decide), if_pos rfl]
      change Emits (if c = byte 'l' then _ else _) _ _ _
      rw [if_neg notL, ← show formatter.next.fmt = c :: rest from atNext]
      exact integer_emits flushed.next .l atNext
  | ll =>
      rw [directive_eq atDirective, if_neg (by decide), if_neg (by decide), if_pos rfl]
      change Emits (formatter.next.next.integer vaArg .ll) _ _ _
      rw [← show formatter.next.next.fmt = c :: rest from atSecond]
      exact integer_emits flushed.next.next .ll atSecond

/-- A part of the format is replaced by its expansion. -/
def Replaces (result : Option (Formatter A)) (rest output : List Byte)
    (expansion : List Byte × A) : Prop :=
  ∃ formatter, result = some formatter ∧ formatter.fmt = rest ∧
    formatter.Produced (output ++ expansion.1) ∧ formatter.ap = expansion.2

theorem Emits.resume {result : Option (Formatter A)} {c : Byte} {rest : List Byte}
    {expansion : List Byte × A} (emits : Emits result (c :: rest) output expansion) :
    Replaces (result.map Formatter.resume) rest output expansion := by
  rcases emits with ⟨emitted, rfl, atChar, flushed, arguments⟩
  refine ⟨emitted.resume, rfl, ?_, flushed.resume, arguments⟩
  change emitted.fmt.tail = rest
  rw [atChar, List.tail_cons]

theorem percent_percent_replaces (produced : formatter.Produced output) {rest : List Byte}
    (atToken : formatter.fmt = byte '%' :: byte '%' :: rest) :
    Replaces (formatter.percent vaArg) rest output (Token.percent.expand vaArg formatter.ap) := by
  have flushed : formatter.next.flush.Flushed (output ++ [byte '%']) :=
    (produced.next atToken).flush
  have atChar : formatter.next.flush.fmt = byte '%' :: rest := by
    rw [flush_fmt, next, atToken, List.tail_cons]
  have emits : Emits (formatter.next.flush.directive vaArg) (byte '%' :: rest)
      (output ++ [byte '%']) ([], formatter.ap) := by
    have ignored := @integer_emits A vaArg _ _ flushed .plain _ _ atChar
    rw [atChar, flush_ap] at ignored
    rw [directive_eq atChar]
    exact ignored
  have replaces := emits.resume
  rw [percent, atToken]
  rcases replaces with ⟨after, returned, atRest, afterProduced, arguments⟩
  refine ⟨after, returned, atRest, ?_, arguments⟩
  rwa [List.append_nil] at afterProduced

/-- The directive behind a `%` that is not doubled runs on the flushed formatter. -/
theorem percent_replaces (produced : formatter.Produced output) {c d : Byte}
    {body rest : List Byte} {expansion : List Byte × A} (notPercent : d ≠ byte '%')
    (atToken : formatter.fmt = byte '%' :: d :: body)
    (emits : ∀ flushed : Formatter A, flushed.Flushed output → flushed.fmt = d :: body →
      flushed.ap = formatter.ap → Emits (flushed.directive vaArg) (c :: rest) output expansion) :
    Replaces (formatter.percent vaArg) rest output expansion := by
  have atBody : formatter.flush.next.fmt = d :: body := by
    rw [next, flush_fmt, atToken, List.tail_cons]
  have percentEq : formatter.percent vaArg =
      (formatter.flush.next.directive vaArg).map Formatter.resume := by
    rw [percent, atToken]
    change Option.map _ ((if d = byte '%' then _ else _ : Formatter A).directive vaArg) = _
    rw [if_neg notPercent]
  rw [percentEq]
  exact (emits formatter.flush.next produced.flush.next atBody flush_ap).resume

/-- A token that begins with `%` is replaced by its expansion. -/
theorem percent_token_replaces (produced : formatter.Produced output) {token : Token}
    (complete : token.Complete) {rest : List Byte}
    (isDirective : token.text.head? = some (byte '%'))
    (atToken : formatter.fmt = token.text ++ rest) :
    Replaces (formatter.percent vaArg) rest output (token.expand vaArg formatter.ap) := by
  cases token with
  | literal c =>
      have isPercent : c = byte '%' := by simpa [Token.text] using isDirective
      exact absurd isPercent complete
  | percent => exact percent_percent_replaces produced atToken
  | pointer =>
      have atLetter : formatter.fmt = byte '%' :: byte 'p' :: rest := atToken
      refine percent_replaces (c := byte 'p') produced (by decide) atLetter ?_
      intro flushed isFlushed atChar sameArguments
      rw [directive_eq atChar, ← sameArguments, ← atChar]
      exact convert_emits isFlushed p2a_rendersAll
  | character =>
      have atLetter : formatter.fmt = byte '%' :: byte 'c' :: rest := atToken
      refine percent_replaces (c := byte 'c') produced (by decide) atLetter ?_
      intro flushed isFlushed atChar sameArguments
      rw [directive_eq atChar, ← sameArguments, ← atChar]
      exact character_emits isFlushed
  | string =>
      have atLetter : formatter.fmt = byte '%' :: byte 's' :: rest := atToken
      refine percent_replaces (c := byte 's') produced (by decide) atLetter ?_
      intro flushed isFlushed atChar sameArguments
      rw [directive_eq atChar, ← sameArguments, ← atChar]
      exact string_emits isFlushed
  | integer length c =>
      have atDirective : formatter.fmt = byte '%' :: (length.letters ++ c :: rest) := by
        rw [atToken]
        simp [Token.text]
      have letters : ∃ d body, length.letters ++ c :: rest = d :: body ∧ d ≠ byte '%' := by
        cases length with
        | plain =>
            refine ⟨c, rest, rfl, ?_⟩
            rintro rfl
            exact complete (by decide)
        | z | t | l | ll => exact ⟨_, _, rfl, by decide⟩
      rcases letters with ⟨d, body, lettersEq, notPercent⟩
      rw [lettersEq] at atDirective
      refine percent_replaces (c := c) produced notPercent atDirective ?_
      intro flushed isFlushed atChar sameArguments
      rw [← sameArguments]
      exact directive_integer_emits isFlushed complete (atChar.trans lettersEq.symm)

/-- One iteration of the loop at a token. -/
theorem scan_token (produced : formatter.Produced output) {token : Token}
    (complete : token.Complete) (noNul : 0 ∉ token.text) {rest : List Byte}
    (atToken : formatter.fmt = token.text ++ rest) :
    ∃ after, after.fmt = rest ∧ after.Produced (output ++ (token.expand vaArg formatter.ap).1) ∧
      after.ap = (token.expand vaArg formatter.ap).2 ∧
      ∀ fuel, scan (byte '%') (percent vaArg) (fuel + 1) formatter =
        scan (byte '%') (percent vaArg) fuel after := by
  have textHead : ∃ c, token.text.head? = some c ∧ (c ≠ byte '%' → token = .literal c) := by
    cases token with
    | literal c => exact ⟨c, rfl, fun _ => rfl⟩
    | percent | integer | pointer | character | string =>
        exact ⟨byte '%', rfl, fun other => absurd rfl other⟩
  rcases textHead with ⟨c, isHead, others⟩
  have visible : c ≠ 0 := by
    rintro rfl
    exact noNul (List.mem_of_mem_head? isHead)
  have head : formatter.fmt.head? = some c := by
    rw [atToken, List.head?_append, isHead, Option.some_or]
  by_cases mark : c = byte '%'
  · rw [mark] at isHead
    rcases @percent_token_replaces A vaArg _ _ produced _ complete _ isHead atToken with
      ⟨after, returned, atRest, afterProduced, arguments⟩
    refine ⟨after, atRest, afterProduced, arguments, ?_⟩
    intro fuel
    rw [scan, head, Option.bind_some, if_neg visible, if_neg (not_not.mpr mark), returned,
      Option.bind_some]
  · rcases others mark with rfl
    have atLiteral : formatter.fmt = c :: rest := atToken
    refine ⟨formatter.next, ?_, produced.next atLiteral, rfl, ?_⟩
    · rw [next, atLiteral, List.tail_cons]
    · intro fuel
      rw [scan, head, Option.bind_some, if_neg visible, if_pos mark]

/-- The loop replaces all tokens and stops at the NUL. -/
theorem scan_tokens (produced : formatter.Produced output) {tokens : List Token}
    (complete : ∀ token ∈ tokens, token.Complete) (noNul : 0 ∉ tokens.flatMap Token.text)
    (atTokens : formatter.fmt = tokens.flatMap Token.text ++ [0]) :
    Replaces (scan (byte '%') (percent vaArg) (tokens.length + 1) formatter) [0] output
      (expandTokens vaArg tokens formatter.ap) := by
  induction tokens generalizing formatter output with
  | nil =>
      have atEnd : formatter.fmt = [0] := atTokens
      refine ⟨formatter, ?_, atEnd, ?_, rfl⟩
      · rw [scan, atEnd]
        rfl
      · rwa [expandTokens, List.append_nil]
  | cons token tokens ih =>
      rw [List.flatMap_cons, List.mem_append, not_or] at noNul
      rw [List.flatMap_cons, List.append_assoc] at atTokens
      rcases @scan_token A vaArg _ _ produced token (complete token List.mem_cons_self) noNul.1 _
        atTokens with ⟨after, atRest, afterProduced, arguments, oneStep⟩
      have rest := ih afterProduced
        (fun other otherMem => complete other (List.mem_cons_of_mem _ otherMem)) noNul.2 atRest
      rw [arguments] at rest
      rcases rest with ⟨final, returned, atEnd, finalProduced, finalArguments⟩
      refine ⟨final, ?_, atEnd, ?_, finalArguments⟩
      · rw [List.length_cons, oneStep, returned]
      · rwa [List.append_assoc] at finalProduced

/-- The loop returns the same with more iterations. -/
theorem scan_mono {mark : Byte} {body : Formatter A → Option (Formatter A)} {fuel more : ℕ}
    (enough : fuel ≤ more) {final : Formatter A}
    (returned : scan mark body fuel formatter = some final) :
    scan mark body more formatter = some final := by
  induction fuel generalizing more formatter with
  | zero => exact absurd returned (by simp [scan])
  | succ fuel ih =>
      cases more with
      | zero => omega
      | succ more =>
          rw [scan] at returned ⊢
          rcases Option.bind_eq_some_iff.mp returned with ⟨c, head, rest⟩
          rw [head, Option.bind_some]
          by_cases atNul : c = 0
          · rw [if_pos atNul] at rest ⊢
            exact rest
          · rw [if_neg atNul] at rest ⊢
            by_cases plain : c ≠ mark
            · rw [if_pos plain] at rest ⊢
              exact ih (Nat.le_of_succ_le_succ enough) rest
            · rw [if_neg plain] at rest ⊢
              rcases Option.bind_eq_some_iff.mp rest with ⟨after, bodyReturned, loop⟩
              rw [bodyReturned, Option.bind_some]
              exact ih (Nat.le_of_succ_le_succ enough) loop

end Parts

end Formatter

section Vioprintf

variable {A : Type} {vaArg : (type : VaType) → A → type.Value × A}

/-- `iopipe_vioprintf` returns at the NUL with the expansion of the format as its output. -/
theorem iopipeVioprintf_flushed (format : CString) (ap : A) (numbuf : Cells)
    {tokens : List Token} (complete : ∀ token ∈ tokens, token.Complete)
    (parsed : format.chars = tokens.flatMap Token.text) :
    ∃ final, iopipeVioprintf vaArg (tokens.length + 1) format ap numbuf = some final ∧
      final.fmt = [0] ∧ final.Flushed (expandTokens vaArg tokens ap).1 ∧
      final.ap = (expandTokens vaArg tokens ap).2 := by
  have noNul := format.noNul
  have atTokens : (Formatter.start format ap numbuf).fmt = tokens.flatMap Token.text ++ [0] := by
    rw [← parsed]
    rfl
  rw [parsed] at noNul
  rcases @Formatter.scan_tokens A vaArg _ _ (Formatter.start_produced format ap numbuf) tokens
    complete noNul atTokens with ⟨after, returned, atEnd, produced, arguments⟩
  refine ⟨after.flush, ?_, ?_, produced.flush, ?_⟩
  · rw [iopipeVioprintf, returned, Option.map_some]
  · rw [Formatter.flush_fmt, atEnd]
  · rw [Formatter.flush_ap, arguments]
    rfl

/-- Two runs that return have returned the same. -/
theorem iopipeVioprintf_unique {format : CString} {ap : A} {numbuf : Cells} {fuel other : ℕ}
    {final otherFinal : Formatter A}
    (returned : iopipeVioprintf vaArg fuel format ap numbuf = some final)
    (otherReturned : iopipeVioprintf vaArg other format ap numbuf = some otherFinal) :
    final = otherFinal := by
  rcases Option.map_eq_some_iff.mp returned with ⟨after, scanned, rfl⟩
  rcases Option.map_eq_some_iff.mp otherReturned with ⟨otherAfter, otherScanned, rfl⟩
  have more := Formatter.scan_mono (Nat.le_max_left fuel other) scanned
  have otherMore := Formatter.scan_mono (Nat.le_max_right fuel other) otherScanned
  rw [more, Option.some.injEq] at otherMore
  rw [otherMore]

theorem Token.Supported.complete {token : Token} (supported : token.Supported) :
    token.Complete := by
  have apart : ∀ c ∈ "diuxXo".toList.map byte, c ∉ "%ztlpcs".toList.map byte := by decide
  have notL : ∀ c ∈ "diuxXo".toList.map byte, c ≠ byte 'l' := by decide
  cases token with
  | literal c => exact supported
  | integer length c =>
      cases length with
      | plain => exact apart c supported
      | l => exact notL c supported
      | z | t | ll => trivial
  | percent | pointer | character | string => trivial

section Arguments

theorem nextArg_cons {type : VaType} {arg : Arg} (same : arg.1 = type) (args : List Arg) :
    nextArg type (arg :: args) = ((nextArg type [arg]).1, args) := by
  rw [nextArg, nextArg, dif_pos same, dif_pos same]

theorem Token.expandArg_nextArg {type : VaType} {helper : type.Value → Cells → Option Numbuf}
    {arg : Arg} (same : arg.1 = type) (args : List Arg) :
    expandArg nextArg type helper (arg :: args) =
      ((expandArg nextArg type helper [arg]).1, args) := by
  rw [expandArg, nextArg_cons same]
  rfl

theorem Token.expand_nextArg_none {token : Token} (noType : token.argType = none)
    (args : List Arg) : token.expand nextArg args = ((token.expand nextArg []).1, args) := by
  cases token with
  | literal | percent => rfl
  | integer length c =>
      rw [argType] at noType
      split at noType <;> contradiction
  | pointer | character | string => contradiction

/-- A supported directive takes the next argument. -/
theorem Token.expand_nextArg_some {token : Token} (supported : token.Supported) {arg : Arg}
    (hasType : token.argType = some arg.1) (args : List Arg) :
    token.expand nextArg (arg :: args) = ((token.expand nextArg [arg]).1, args) := by
  cases token with
  | literal | percent => contradiction
  | pointer => exact expandArg_nextArg (Option.some.inj hasType).symm args
  | character | string =>
      simp only [expand]
      rw [nextArg_cons (Option.some.inj hasType).symm]
  | integer length c =>
      have letters : c = byte 'd' ∨ c = byte 'i' ∨ c = byte 'u' ∨ c = byte 'x' ∨ c = byte 'X' ∨
          c = byte 'o' := by
        simpa [Token.Supported] using supported
      rcases letters with rfl | rfl | rfl | rfl | rfl | rfl
      all_goals exact expandArg_nextArg (Option.some.inj hasType).symm args

/-- The arguments are taken from left to right, one for each directive. -/
theorem expandTokens_nextArg {tokens : List Token}
    (supported : ∀ token ∈ tokens, token.Supported) {used : List Arg}
    (matching : tokens.filterMap Token.argType = used.map Sigma.fst) (rest : List Arg) :
    expandTokens nextArg tokens (used ++ rest) = ((expandTokens nextArg tokens used).1, rest) := by
  induction tokens generalizing used with
  | nil =>
      have noneUsed : used = [] := List.map_eq_nil_iff.mp matching.symm
      rw [noneUsed]
      rfl
  | cons token tokens ih =>
      have tokenSupported := supported token List.mem_cons_self
      have restSupported := fun other otherMem =>
        supported other (List.mem_cons_of_mem token otherMem)
      cases hasType : token.argType with
      | none =>
          rw [List.filterMap_cons_none hasType] at matching
          rw [expandTokens, expandTokens, Token.expand_nextArg_none hasType (used ++ rest),
            Token.expand_nextArg_none hasType used, ih restSupported matching]
      | some type =>
          rw [List.filterMap_cons_some hasType] at matching
          cases used with
          | nil => contradiction
          | cons arg used =>
              rw [List.map_cons, List.cons.injEq] at matching
              rw [matching.1] at hasType
              rw [expandTokens, expandTokens, List.cons_append,
                Token.expand_nextArg_some tokenSupported hasType (used ++ rest),
                Token.expand_nextArg_some tokenSupported hasType used,
                ih restSupported matching.2]

end Arguments

/-- For a format of supported directives and matching arguments, the bytes that are written
are the reference expansion, the arguments are used up, and the return value is the number of
bytes as an `int`. -/
theorem iopipeVioprintf_expands (format : CString) (tokens : List Token)
    (supported : ∀ token ∈ tokens, token.Supported)
    (parsed : format.chars = tokens.flatMap Token.text) (used rest : List Arg)
    (matching : tokens.filterMap Token.argType = used.map Sigma.fst) (numbuf : Cells) :
    ∃ fuel final, iopipeVioprintf nextArg fuel format (used ++ rest) numbuf = some final ∧
      final.writes.flatten = (expandTokens nextArg tokens used).1 ∧ final.ap = rest ∧
      final.count = BitVec.ofNat 32 final.writes.flatten.length ∧
      (final.writes.flatten.length < 2 ^ 31 →
        final.count.toInt = final.writes.flatten.length) := by
  have complete := fun token tokenMem => (supported token tokenMem).complete
  have expansion := expandTokens_nextArg supported matching rest
  rcases @iopipeVioprintf_flushed _ nextArg format (used ++ rest) numbuf tokens complete parsed
    with ⟨final, returned, -, flushed, arguments⟩
  rw [expansion] at flushed arguments
  have counted := flushed.counted
  rw [← flushed.written] at counted
  refine ⟨_, final, returned, flushed.written, arguments, counted, ?_⟩
  intro fits
  rw [counted, BitVec.toInt_eq_toNat_cond, BitVec.toNat_ofNat]
  split <;> omega

theorem iopipeVioprintf_expands_temperature :
    ∃ fuel final, iopipeVioprintf nextArg fuel ⟨"t=%d%%".toList.map byte, by decide⟩
        ([⟨.int, (-5 : BitVec 32)⟩] ++ []) (fun _ => 0) = some final ∧
      final.writes.flatten = "t=-5%".toList.map byte ∧ final.ap = [] ∧
      final.count = BitVec.ofNat 32 final.writes.flatten.length ∧
      (final.writes.flatten.length < 2 ^ 31 →
        final.count.toInt = final.writes.flatten.length) := by
  have expansion : (expandTokens nextArg
      [.literal (byte 't'), .literal (byte '='), .integer .plain (byte 'd'), .percent]
      [⟨.int, (-5 : BitVec 32)⟩]).1 = "t=-5%".toList.map byte := by
    decide
  rw [← expansion]
  apply iopipeVioprintf_expands
  · decide
  · decide
  · decide

section Overflow

variable (string : CString)

/-- The argument list with one string several times. -/
def repeatedString (count : ℕ) : List Arg :=
  List.replicate count ⟨.charPointer, some string⟩

theorem length_expandTokens_string (count : ℕ) :
    (expandTokens nextArg (List.replicate count .string) (repeatedString string count)).1.length =
      count * string.chars.length := by
  induction count with
  | zero => simp [expandTokens]
  | succ count ih =>
      have head : Token.string.expand nextArg (repeatedString string (count + 1)) =
          (string.chars, repeatedString string count) := rfl
      rw [List.replicate_succ, expandTokens, head, List.length_append, ih, Nat.succ_mul,
        Nat.add_comm]

/-- `%s` several times. -/
def stringFormat (count : ℕ) : CString where
  chars := (List.replicate count Token.string).flatMap Token.text
  noNul := by
    intro nul
    rcases List.mem_flatMap.mp nul with ⟨token, tokenMem, inText⟩
    rw [List.eq_of_mem_replicate tokenMem] at inText
    revert inText
    decide

/-- A string of two mebibytes. -/
def mebibytes : CString where
  chars := List.replicate (2 ^ 21) (byte 'a')
  noNul := by
    intro nul
    have isA := List.eq_of_mem_replicate nul
    revert isA
    decide

end Overflow

/-- A string of two mebibytes that is printed 1024 times: the return value is negative. -/
theorem iopipeVioprintf_count_overflow :
    ¬∀ (format : CString) (tokens : List Token), (∀ token ∈ tokens, token.Supported) →
      format.chars = tokens.flatMap Token.text → ∀ used rest : List Arg,
      tokens.filterMap Token.argType = used.map Sigma.fst → ∀ numbuf : Cells,
      ∃ fuel final, iopipeVioprintf nextArg fuel format (used ++ rest) numbuf = some final ∧
        final.writes.flatten = (expandTokens nextArg tokens used).1 ∧ final.ap = rest ∧
        final.count.toInt = final.writes.flatten.length := by
  intro all
  have supported : ∀ token ∈ List.replicate 1024 Token.string, token.Supported := by
    intro token tokenMem
    rw [List.eq_of_mem_replicate tokenMem]
    trivial
  have matching : (List.replicate 1024 Token.string).filterMap Token.argType =
      (repeatedString mebibytes 1024).map Sigma.fst := by
    have takesString : Token.string.argType = some .charPointer := rfl
    rw [List.filterMap_replicate_of_some takesString, repeatedString, List.map_replicate]
  have length := length_expandTokens_string mebibytes 1024
  have size : mebibytes.chars.length = 2 ^ 21 := List.length_replicate
  rcases all (stringFormat 1024) _ supported rfl _ [] matching fun _ => 0 with
    ⟨fuel, final, returned, written, -, counts⟩
  rcases @iopipeVioprintf_flushed _ nextArg (stringFormat 1024)
    (repeatedString mebibytes 1024 ++ []) (fun _ => 0) _
    (fun token tokenMem => (supported token tokenMem).complete) rfl with
    ⟨other, otherReturned, -, flushed, -⟩
  rw [iopipeVioprintf_unique returned otherReturned, flushed.counted, flushed.written,
    List.append_nil, length, size] at counts
  revert counts
  decide

end Vioprintf

end Rkernel
