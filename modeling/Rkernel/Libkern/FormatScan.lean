import Rkernel.Libkern.Printf

/-!
# The end of a format string

The loops of the formatters test for the NUL at their heads only, while the code for a
directive goes on by up to three characters and then by one more. A formatter therefore stays
inside its format exactly if the string does not end within a directive, that is, if it is a
sequence of complete tokens.

Unknown directives are complete tokens: the formatter skips them.
-/

namespace Rkernel

/-- The parts of a format string of `iopipe_vprintinfo`. -/
inductive InfoToken where
  | literal (c : Byte)
  | directive (c : Byte)

namespace InfoToken

def text : InfoToken → List Byte
  | .literal c => [c]
  | .directive c => [byte '~', c]

def Complete : InfoToken → Prop
  | .literal c => c ≠ byte '~'
  | .directive _ => True

end InfoToken

/-- The string is a sequence of characters and complete directives for `iopipe_vioprintf`. -/
def CString.EndsOutsideDirective (format : CString) : Prop :=
  ∃ tokens : List Token, (∀ token ∈ tokens, token.Complete) ∧
    format.chars = tokens.flatMap Token.text

/-- The same for `iopipe_vprintinfo`. -/
def CString.EndsOutsideInfoDirective (format : CString) : Prop :=
  ∃ tokens : List InfoToken, (∀ token ∈ tokens, token.Complete) ∧
    format.chars = tokens.flatMap InfoToken.text

/-- A formatter returns, with its pointer at the NUL. A read behind the NUL has no result. -/
def StaysInside {A : Type} (run : ℕ → Option (Formatter A)) : Prop :=
  ∃ fuel final, run fuel = some final ∧ final.fmt = [0]

namespace Formatter

variable {A : Type} {vaArg : (type : VaType) → A → type.Value × A}
  {formatter after : Formatter A}

section Consumed

theorem render_fmt {type : VaType} {helper : type.Value → Cells → Option Numbuf}
    {rendered : Formatter A × ℕ} (returned : formatter.render vaArg type helper = some rendered) :
    rendered.1.fmt = formatter.fmt := by
  rcases Option.map_eq_some_iff.mp returned with ⟨numbuf, -, rfl⟩
  rfl

theorem convert_fmt {type : VaType} {helper : type.Value → Cells → Option Numbuf}
    (returned : formatter.convert vaArg type helper = some after) :
    after.fmt = formatter.fmt := by
  rcases Option.map_eq_some_iff.mp returned with ⟨rendered, isRendered, rfl⟩
  exact render_fmt isRendered

theorem integer_fmt {length : Length} (returned : formatter.integer vaArg length = some after) :
    after.fmt = formatter.fmt ∧ formatter.fmt ≠ [] := by
  rcases Option.bind_eq_some_iff.mp returned with ⟨c, head, converted⟩
  have nonempty : formatter.fmt ≠ [] := by
    intro isNil
    rw [isNil] at head
    contradiction
  refine ⟨?_, nonempty⟩
  repeat' split at converted
  all_goals first
    | exact convert_fmt converted
    | rw [Option.some.inj converted]

/-- The switch of an integer token leaves `fmt` at its letter. -/
theorem integer_consumes {length : Length}
    (returned : formatter.integer vaArg length = some after) :
    ∃ c, formatter.fmt = c :: after.fmt.tail := by
  have unchanged := integer_fmt returned
  rcases List.exists_cons_of_ne_nil unchanged.2 with ⟨c, rest, atChar⟩
  refine ⟨c, ?_⟩
  rw [unchanged.1, atChar, List.tail_cons]

/-- The two switches behind `%l`. -/
theorem long_consumes {rest : List Byte} (atNext : formatter.next.fmt = rest)
    (returned : (rest.head?.bind fun d =>
      if d = byte 'l' then formatter.next.next.integer vaArg .ll
      else formatter.next.integer vaArg .l) = some after) :
    ∃ token : Token, token.Complete ∧
      byte '%' :: byte 'l' :: rest = token.text ++ after.fmt.tail := by
  cases rest with
  | nil => contradiction
  | cons d rest =>
      have atSecond : formatter.next.next.fmt = rest := by
        rw [next, atNext, List.tail_cons]
      rw [List.head?_cons, Option.bind_some] at returned
      by_cases isLl : d = byte 'l'
      · rw [if_pos isLl] at returned
        rcases integer_consumes returned with ⟨e, letter⟩
        refine ⟨.integer .ll e, trivial, ?_⟩
        rw [isLl, ← atSecond, letter]
        rfl
      · rw [if_neg isLl] at returned
        rcases integer_consumes returned with ⟨e, letter⟩
        rw [atNext, List.cons.injEq] at letter
        refine ⟨.integer .l d, isLl, ?_⟩
        rw [letter.2]
        rfl

/-- What the directive behind a single `%` leaves behind it is the rest of a token. -/
theorem directive_consumes (returned : formatter.directive vaArg = some after) {c : Byte}
    {rest : List Byte} (atChar : formatter.fmt = c :: rest) (notPercent : c ≠ byte '%') :
    ∃ token : Token, token.Complete ∧ byte '%' :: c :: rest = token.text ++ after.fmt.tail := by
  have atNext : formatter.next.fmt = rest := by rw [next, atChar, List.tail_cons]
  rw [directive_eq atChar] at returned
  by_cases isZ : c = byte 'z'
  · rw [if_pos isZ] at returned
    rcases integer_consumes returned with ⟨d, letter⟩
    refine ⟨.integer .z d, trivial, ?_⟩
    rw [isZ, ← atNext, letter]
    rfl
  rw [if_neg isZ] at returned
  by_cases isT : c = byte 't'
  · rw [if_pos isT] at returned
    rcases integer_consumes returned with ⟨d, letter⟩
    refine ⟨.integer .t d, trivial, ?_⟩
    rw [isT, ← atNext, letter]
    rfl
  rw [if_neg isT] at returned
  by_cases isL : c = byte 'l'
  · rw [if_pos isL] at returned
    rw [isL]
    exact long_consumes atNext returned
  rw [if_neg isL] at returned
  by_cases isP : c = byte 'p'
  · rw [if_pos isP] at returned
    refine ⟨.pointer, trivial, ?_⟩
    rw [convert_fmt returned, atChar, isP]
    rfl
  rw [if_neg isP] at returned
  by_cases isC : c = byte 'c'
  · rw [if_pos isC, Option.some.injEq] at returned
    have unchanged : after.fmt = formatter.fmt := by
      rw [← returned]
      rfl
    refine ⟨.character, trivial, ?_⟩
    rw [unchanged, atChar, isC]
    rfl
  rw [if_neg isC] at returned
  by_cases isS : c = byte 's'
  · rw [if_pos isS, Option.some.injEq] at returned
    have unchanged : after.fmt = formatter.fmt := by
      rw [← returned]
      rfl
    refine ⟨.string, trivial, ?_⟩
    rw [unchanged, atChar, isS]
    rfl
  · rw [if_neg isS] at returned
    refine ⟨.integer .plain c, ?_, ?_⟩
    · simp [Token.Complete, notPercent, isZ, isT, isL, isP, isC, isS]
    · rw [(integer_fmt returned).1, atChar]
      rfl

/-- The body of the loop of `iopipe_vioprintf` goes on by one token. -/
theorem percent_consumes (mark : formatter.fmt.head? = some (byte '%'))
    (returned : formatter.percent vaArg = some after) :
    ∃ token : Token, token.Complete ∧ formatter.fmt = token.text ++ after.fmt := by
  rcases List.head?_eq_some_iff.mp mark with ⟨tail, atMark⟩
  rcases Option.bind_eq_some_iff.mp returned with ⟨c, second, resumed⟩
  rcases Option.map_eq_some_iff.mp resumed with ⟨before, directed, rfl⟩
  rw [atMark, List.tail_cons] at second
  rcases List.head?_eq_some_iff.mp second with ⟨rest, rfl⟩
  have atRest : before.resume.fmt = before.fmt.tail := rfl
  rw [atRest, atMark]
  by_cases doubled : c = byte '%'
  · have atChar : formatter.next.flush.fmt = byte '%' :: rest := by
      rw [flush_fmt, next, atMark, List.tail_cons, doubled]
    rw [if_pos doubled, directive_eq atChar] at directed
    have unchanged : before.fmt = formatter.next.flush.fmt := (integer_fmt directed).1
    refine ⟨.percent, trivial, ?_⟩
    rw [unchanged, atChar, doubled]
    rfl
  · have atChar : formatter.flush.next.fmt = c :: rest := by
      rw [next, flush_fmt, atMark, List.tail_cons]
    rw [if_neg doubled] at directed
    exact directive_consumes directed atChar doubled

theorem infoDirective_fmt (returned : formatter.infoDirective vaArg = some after) :
    after.fmt = formatter.fmt ∧ formatter.fmt ≠ [] := by
  rcases Option.bind_eq_some_iff.mp returned with ⟨c, head, rendered⟩
  have nonempty : formatter.fmt ≠ [] := by
    intro isNil
    rw [isNil] at head
    contradiction
  refine ⟨?_, nonempty⟩
  have unchanged : ∀ {type : VaType} {helper : type.Value → Cells → Option Numbuf},
      (formatter.render vaArg type helper).map Prod.fst = some after →
      after.fmt = formatter.fmt := by
    intro type helper mapped
    rcases Option.map_eq_some_iff.mp mapped with ⟨pair, isRendered, rfl⟩
    exact render_fmt isRendered
  repeat' split at rendered
  all_goals first
    | exact unchanged rendered
    | rw [Option.some.inj rendered]

/-- The body of the loop of `iopipe_vprintinfo` goes on by two characters. -/
theorem tilde_consumes (mark : formatter.fmt.head? = some (byte '~'))
    (returned : formatter.tilde vaArg = some after) :
    ∃ token : InfoToken, token.Complete ∧ formatter.fmt = token.text ++ after.fmt := by
  rcases List.head?_eq_some_iff.mp mark with ⟨rest, atMark⟩
  rcases Option.map_eq_some_iff.mp returned with ⟨before, directed, rfl⟩
  have unchanged := infoDirective_fmt directed
  have atRest : formatter.writePending.next.fmt = rest := by
    rw [next, writePending_fmt, atMark, List.tail_cons]
  rw [atRest] at unchanged
  rcases List.exists_cons_of_ne_nil unchanged.2 with ⟨c, behind, restEq⟩
  refine ⟨.directive c, trivial, ?_⟩
  change formatter.fmt = _ ++ before.fmt.tail
  rw [unchanged.1, atMark, restEq]
  rfl

/-- A loop that returns has read tokens up to a NUL. -/
theorem scan_consumes {T : Type} {text : T → List Byte} {Complete : T → Prop} {mark : Byte}
    {body : Formatter A → Option (Formatter A)}
    (literal : ∀ c, c ≠ mark → ∃ token, Complete token ∧ text token = [c])
    (consumes : ∀ {formatter after : Formatter A}, formatter.fmt.head? = some mark →
      body formatter = some after →
      ∃ token, Complete token ∧ formatter.fmt = text token ++ after.fmt)
    {fuel : ℕ} (returned : scan mark body fuel formatter = some after) :
    ∃ tokens : List T, (∀ token ∈ tokens, Complete token) ∧
      formatter.fmt = tokens.flatMap text ++ after.fmt ∧ after.fmt.head? = some 0 := by
  induction fuel generalizing formatter with
  | zero => exact absurd returned (by simp [scan])
  | succ fuel ih =>
      rw [scan] at returned
      rcases Option.bind_eq_some_iff.mp returned with ⟨c, head, rest⟩
      have step : ∀ {middle : Formatter A}, scan mark body fuel middle = some after →
          (∃ token, Complete token ∧ formatter.fmt = text token ++ middle.fmt) →
          ∃ tokens : List T, (∀ token ∈ tokens, Complete token) ∧
            formatter.fmt = tokens.flatMap text ++ after.fmt ∧ after.fmt.head? = some 0 := by
        rintro middle loop ⟨token, complete, consumed⟩
        rcases ih loop with ⟨tokens, allComplete, parsed, atNul⟩
        refine ⟨token :: tokens, List.forall_mem_cons.mpr ⟨complete, allComplete⟩, ?_, atNul⟩
        rw [consumed, parsed, List.flatMap_cons, List.append_assoc]
      split at rest
      · rename_i isNul
        rcases Option.some.inj rest with rfl
        exact ⟨[], by simp, rfl, by rw [head, isNul]⟩
      split at rest
      · rename_i notMark
        apply step rest
        rcases literal c notMark with ⟨token, complete, textEq⟩
        rcases List.head?_eq_some_iff.mp head with ⟨tail, atChar⟩
        refine ⟨token, complete, ?_⟩
        rw [textEq, next, atChar]
        rfl
      · rename_i isMark
        rcases Option.bind_eq_some_iff.mp rest with ⟨middle, bodyReturned, loop⟩
        rw [not_not.mp isMark] at head
        exact step loop (consumes head bodyReturned)

end Consumed

section Info

theorem render_returns {type : VaType} {helper : type.Value → Cells → Option Numbuf}
    (returns : ∀ value cells, ∃ numbuf, helper value cells = some numbuf) :
    ∃ rendered, (formatter.render vaArg type helper).map Prod.fst = some rendered := by
  rcases returns (vaArg type formatter.ap).1 formatter.numbuf with ⟨numbuf, returned⟩
  exact ⟨_, by rw [render, returned]; rfl⟩

theorem renderAddress_returns {table : List Byte} (visible : ∀ k < 16, table.getD k 0 ≠ 0)
    (paddr : BitVec 32) (cells : Cells) :
    ∃ numbuf, renderAddress table paddr cells = some numbuf := by
  rcases renderAddress_renders visible paddr cells with ⟨numbuf, returned, -⟩
  exact ⟨numbuf, returned⟩

theorem u2a_returns (i : BitVec 32) (cells : Cells) : ∃ numbuf, u2a i cells = some numbuf := by
  rcases unsigned2a_renders (Or.inl rfl) i cells with ⟨numbuf, returned, -⟩
  exact ⟨numbuf, returned⟩

theorem infoDirective_returns {c : Byte} {rest : List Byte} (atChar : formatter.fmt = c :: rest) :
    ∃ after, formatter.infoDirective vaArg = some after := by
  have low := @renderAddress_returns hexlow hexlow_visible
  have high := @renderAddress_returns hexhig hexhig_visible
  simp only [infoDirective, atChar, List.head?_cons, Option.bind_eq_bind, Option.bind_some]
  split
  · exact render_returns low
  split
  · exact render_returns high
  split
  · exact render_returns low
  split
  · exact render_returns high
  split
  · exact render_returns u2a_returns
  · exact ⟨formatter, rfl⟩

/-- One iteration of the loop of `iopipe_vprintinfo` at a token. -/
theorem scan_info_token {token : InfoToken} (complete : token.Complete) (noNul : 0 ∉ token.text)
    {rest : List Byte} (atToken : formatter.fmt = token.text ++ rest) :
    ∃ after, after.fmt = rest ∧ ∀ fuel, scan (byte '~') (tilde vaArg) (fuel + 1) formatter =
      scan (byte '~') (tilde vaArg) fuel after := by
  cases token with
  | literal c =>
      have atChar : formatter.fmt = c :: rest := atToken
      have visible : c ≠ 0 := by
        rintro rfl
        exact noNul List.mem_cons_self
      have plain : c ≠ byte '~' := complete
      refine ⟨formatter.next, ?_, ?_⟩
      · rw [next, atChar, List.tail_cons]
      · intro fuel
        rw [scan, atChar, List.head?_cons, Option.bind_some, if_neg visible, if_pos plain]
  | directive c =>
      have atMark : formatter.fmt = byte '~' :: c :: rest := atToken
      have atChar : formatter.writePending.next.fmt = c :: rest := by
        rw [next, writePending_fmt, atMark, List.tail_cons]
      rcases @infoDirective_returns A vaArg _ _ _ atChar with ⟨before, directed⟩
      refine ⟨before.resume, ?_, ?_⟩
      · change before.fmt.tail = rest
        rw [(infoDirective_fmt directed).1, atChar, List.tail_cons]
      · intro fuel
        rw [scan, atMark, List.head?_cons, Option.bind_some, if_neg (by decide),
          if_neg (not_not.mpr rfl), tilde, directed, Option.map_some, Option.bind_some]

theorem scan_info_tokens {tokens : List InfoToken} (complete : ∀ token ∈ tokens, token.Complete)
    (noNul : 0 ∉ tokens.flatMap InfoToken.text)
    (atTokens : formatter.fmt = tokens.flatMap InfoToken.text ++ [0]) :
    ∃ after, scan (byte '~') (tilde vaArg) (tokens.length + 1) formatter = some after ∧
      after.fmt = [0] := by
  induction tokens generalizing formatter with
  | nil =>
      have atEnd : formatter.fmt = [0] := atTokens
      refine ⟨formatter, ?_, atEnd⟩
      rw [scan, atEnd]
      rfl
  | cons token tokens ih =>
      rw [List.flatMap_cons, List.mem_append, not_or] at noNul
      rw [List.flatMap_cons, List.append_assoc] at atTokens
      rcases @scan_info_token A vaArg _ token (complete token List.mem_cons_self) noNul.1 _
        atTokens with ⟨after, atRest, oneStep⟩
      rw [List.length_cons, oneStep]
      exact ih (fun other otherMem => complete other (List.mem_cons_of_mem _ otherMem)) noNul.2
        atRest

end Info

end Formatter

section Entry

variable {A : Type} (vaArg : (type : VaType) → A → type.Value × A) (format : CString) (ap : A)
  (numbuf : Cells)

/-- The only NUL of a terminated string is its last byte. -/
theorem CString.pointer_eq_append {front rest : List Byte}
    (split : format.pointer = front ++ rest) (atNul : rest.head? = some 0) :
    format.chars = front := by
  rcases List.head?_eq_some_iff.mp atNul with ⟨behind, rfl⟩
  rcases List.append_eq_append_iff.mp split with ⟨middle, frontEq, tail⟩ | ⟨middle, charsEq, tail⟩
  · cases middle with
    | nil => rw [frontEq, List.append_nil]
    | cons c middle => simp at tail
  · cases middle with
    | nil => rw [charsEq, List.append_nil]
    | cons c middle =>
        rw [List.cons_append, List.cons.injEq] at tail
        refine absurd ?_ format.noNul
        rw [charsEq, tail.1]
        simp

theorem iopipeVioprintf_staysInside_iff :
    StaysInside (iopipeVioprintf vaArg · format ap numbuf) ↔ format.EndsOutsideDirective := by
  constructor
  · rintro ⟨fuel, final, returned, -⟩
    rcases Option.map_eq_some_iff.mp returned with ⟨after, scanned, -⟩
    rcases Formatter.scan_consumes (fun c plain => ⟨Token.literal c, plain, rfl⟩)
      Formatter.percent_consumes scanned with ⟨tokens, complete, parsed, atNul⟩
    exact ⟨tokens, complete, format.pointer_eq_append parsed atNul⟩
  · rintro ⟨tokens, complete, parsed⟩
    rcases @iopipeVioprintf_flushed A vaArg format ap numbuf tokens complete parsed with
      ⟨final, returned, atEnd, -, -⟩
    exact ⟨_, final, returned, atEnd⟩

theorem iopipeVprintinfo_staysInside_iff :
    StaysInside (iopipeVprintinfo vaArg · format ap numbuf) ↔
      format.EndsOutsideInfoDirective := by
  constructor
  · rintro ⟨fuel, final, returned, -⟩
    rcases Option.map_eq_some_iff.mp returned with ⟨after, scanned, -⟩
    rcases Formatter.scan_consumes (fun c plain => ⟨InfoToken.literal c, plain, rfl⟩)
      Formatter.tilde_consumes scanned with ⟨tokens, complete, parsed, atNul⟩
    exact ⟨tokens, complete, format.pointer_eq_append parsed atNul⟩
  · rintro ⟨tokens, complete, parsed⟩
    have noNul := format.noNul
    have atTokens : (Formatter.start format ap numbuf).fmt =
        tokens.flatMap InfoToken.text ++ [0] := by
      rw [← parsed]
      rfl
    rw [parsed] at noNul
    rcases @Formatter.scan_info_tokens A vaArg _ tokens complete noNul atTokens with
      ⟨after, returned, atEnd⟩
    refine ⟨tokens.length + 1, after.writePending, ?_, ?_⟩
    · change (Formatter.scan _ _ _ _).map _ = _
      rw [returned, Option.map_some]
    · rw [Formatter.writePending_fmt, atEnd]

/-- The formatters stay inside the format strings that do not end within a directive. -/
theorem formatters_staysInside_iff :
    (StaysInside (iopipeVioprintf vaArg · format ap numbuf) ↔ format.EndsOutsideDirective) ∧
      (StaysInside (iopipeVprintinfo vaArg · format ap numbuf) ↔
        format.EndsOutsideInfoDirective) :=
  ⟨iopipeVioprintf_staysInside_iff vaArg format ap numbuf,
    iopipeVprintinfo_staysInside_iff vaArg format ap numbuf⟩

end Entry

/-- A format that is a single `%` or a single `~` is left. -/
theorem formatters_leave_format :
    ¬StaysInside (iopipeVioprintf nextArg · ⟨[byte '%'], by decide⟩ [] fun _ => 0) ∧
      ¬StaysInside (iopipeVprintinfo nextArg · ⟨[byte '~'], by decide⟩ [] fun _ => 0) := by
  constructor
  · rintro ⟨fuel, final, returned, -⟩
    rcases fuel with _ | _ | fuel
    · contradiction
    · contradiction
    · contradiction
  · rintro ⟨fuel, final, returned, -⟩
    rcases fuel with _ | _ | fuel
    · contradiction
    · contradiction
    · contradiction

end Rkernel
