import Rkernel.Libkern.Printinfo
import Rkernel.Terminal.Screen

/-!
# From the formatters to the screen

`printf` and `printinfo` write to `kterm_instance`, which `kterm_init` (`terminal/kterm.c`) makes
the terminal of `terminal/ccterm_base.c`: every `iopipe_write` of a formatter
(`iopipe/iopipe_ops.c`) is a write to the ring of the terminal, which is emptied into the console
before the write returns. The screen therefore always shows the expansions of the calls that have
returned.
-/

namespace Rkernel

inductive KbuRw where
  | read
  | write

inductive KbuOrigin where
  | asUsr
  | asSys
  deriving DecidableEq

/-- `struct kern_uio`, with the bytes behind every `struct iovec`. -/
structure KernUio where
  kbuIovec : List (List Byte)
  kbuTotalsize : ℕ
  kbuRw : KbuRw
  kbuOrigin : KbuOrigin

/-- `struct iopipe_ops` for the data of a pipe. -/
structure IopipeOps (Data : Type) where
  ioRead : KernUio → Data → Option (ℕ × Data)
  ioWrite : KernUio → Data → Option (ℕ × Data)

section Iopipe

variable {Data : Type} (iopOps : IopipeOps Data)

/-- `iopipe_write` of a buffer of the kernel. -/
def iopipeWrite (buf : List Byte) : Data → Option (ℕ × Data) :=
  iopOps.ioWrite ⟨[buf], buf.length, .write, .asSys⟩

/-- The writes of a formatter, which does not look at their results. -/
def iopipeWrites : List (List Byte) → Data → Option Data
  | [], data => some data
  | buf :: bufs, data =>
      (iopipeWrite iopOps buf data).bind fun written => iopipeWrites bufs written.2

end Iopipe

def cctermRead (_kbu : KernUio) (cctb : Ccterm) : Option (ℕ × Ccterm) :=
  some (0, cctb)

/-- `ccterm_write`: only writes of the kernel with a single buffer are done. -/
def cctermWrite (oConsume : Ccterm → Option Ccterm) (kbu : KernUio) (cctb : Ccterm) :
    Option (ℕ × Ccterm) :=
  match kbu.kbuIovec with
  | [iov] => if kbu.kbuOrigin = .asSys then cctermWriteraw oConsume iov cctb else some (0, cctb)
  | _ => some (0, cctb)

/-- `ccterm_ops`, for one of the consumers. -/
def cctermOps (oConsume : Ccterm → Option Ccterm) : IopipeOps Ccterm where
  ioRead := cctermRead
  ioWrite := cctermWrite oConsume

/-- `ccbuffer`, which is zero at first. -/
def ccbuffer (console : Console) : Ccterm where
  oBuffer := fun _ => 0
  oBegin := 0
  oEnd := 0
  console := console

/-- `kterm_instance`, as `kterm_init` sets it: the pipe of the terminal with
`ccterm_lite_ops`. -/
def ktermInstance : IopipeOps Ccterm :=
  cctermOps cctermLiteOpsConsume

/-- What `kterm_init` does to the terminal. -/
def ktermInit (cctb : Ccterm) : Ccterm :=
  { cctb with console := cctb.console.init }

section Calls

/-- `printf`: the return value and the terminal. -/
def printf (fuel : ℕ) (fmt : CString) (ap : List Arg) (numbuf : Cells) (cctb : Ccterm) :
    Option (BitVec 32 × Ccterm) :=
  (iopipeVioprintf nextArg fuel fmt ap numbuf).bind fun final =>
    (iopipeWrites ktermInstance final.writes cctb).map fun cctb => (final.count, cctb)

def printinfo (fuel : ℕ) (fmt : CString) (ap : List Arg) (numbuf : Cells) (cctb : Ccterm) :
    Option Ccterm :=
  (iopipeVprintinfo nextArg fuel fmt ap numbuf).bind fun final =>
    iopipeWrites ktermInstance final.writes cctb

/-- A call of `printf` with supported directives and arguments that match them, and with what is
in the formatter's buffer before it. -/
structure PrintfCall where
  fmt : CString
  tokens : List Token
  args : List Arg
  numbuf : Cells
  supported : ∀ token ∈ tokens, token.Supported
  parsed : fmt.chars = tokens.flatMap Token.text
  matching : tokens.filterMap Token.argType = args.map Sigma.fst

/-- A call of `printinfo` whose format does not end within a directive. -/
structure PrintinfoCall where
  fmt : CString
  tokens : List InfoToken
  args : List Arg
  numbuf : Cells
  complete : ∀ token ∈ tokens, token.Complete
  parsed : fmt.chars = tokens.flatMap InfoToken.text

/-- A call of one of the two formatters. -/
inductive PrintCall where
  | printf (call : PrintfCall)
  | printinfo (call : PrintinfoCall)

namespace PrintCall

/-- What a call prints. -/
def text : PrintCall → List Byte
  | .printf call => (expandTokens nextArg call.tokens call.args).1
  | .printinfo call => (expandInfoTokens nextArg call.tokens call.args).1

def perform (fuel : ℕ) (cctb : Ccterm) : PrintCall → Option Ccterm
  | .printf call => (Rkernel.printf fuel call.fmt call.args call.numbuf cctb).map Prod.snd
  | .printinfo call => Rkernel.printinfo fuel call.fmt call.args call.numbuf cctb

def performAll (fuel : ℕ) : List PrintCall → Ccterm → Option Ccterm
  | [], cctb => some cctb
  | call :: calls, cctb => (call.perform fuel cctb).bind (performAll fuel calls)

end PrintCall

end Calls

section Writes

variable {output : Byte → Console → Console} {cctb : Ccterm} {console : Console}
  {stream : List Byte}

theorem iopipeWrite_ccterm (oConsume : Ccterm → Option Ccterm) (buf : List Byte) :
    iopipeWrite (cctermOps oConsume) buf = cctermWriteraw oConsume buf :=
  rfl

theorem iopipeWrites_ccterm (oConsume : Ccterm → Option Ccterm) (bufs : List (List Byte))
    (cctb : Ccterm) :
    iopipeWrites (cctermOps oConsume) bufs cctb =
      (cctermWrites oConsume bufs cctb).map Prod.snd := by
  induction bufs generalizing cctb with
  | nil => rfl
  | cons buf bufs ih =>
      rw [iopipeWrites, iopipeWrite_ccterm, cctermWrites]
      cases cctermWriteraw oConsume buf cctb with
      | none => rfl
      | some written =>
          rw [Option.bind_some, Option.bind_some, ih, Option.map_map]
          rfl

/-- A terminal whose ring is empty has shown its stream. -/
theorem Ccterm.Carries.shown (carries : cctb.Carries output console stream)
    (empty : cctb.oBegin = cctb.oEnd) : cctb.console = showBytes output stream console := by
  rcases carries.split with ⟨shown, pending, split, shows, holds⟩
  have nothing : pending = [] := holds.eq_nil_iff.mp (congrArg BitVec.toNat empty)
  rw [nothing, List.append_nil] at split
  rw [shows, split]

theorem ccbuffer_carries (console : Console) : (ccbuffer console).Carries output console [] :=
  @carries_nil output console 0 (by omega) fun _ => 0

/-- The writes to a pipe that has shown all of its stream. -/
theorem iopipeWrites_carries (bufs : List (List Byte))
    (carries : cctb.Carries output console stream) (empty : cctb.oBegin = cctb.oEnd) :
    ∃ after, iopipeWrites (cctermOps (opsConsume output)) bufs cctb = some after ∧
      after.Carries output console (stream ++ bufs.flatten) ∧ after.oBegin = after.oEnd := by
  rcases cctermWrites_carries bufs carries empty with ⟨after, returned, afterCarries, afterEmpty⟩
  refine ⟨after, ?_, afterCarries, afterEmpty⟩
  rw [iopipeWrites_ccterm, returned, Option.map_some]

end Writes

section Perform

variable {cctb : Ccterm} {console : Console} {stream : List Byte}

/-- A formatter that returns has the same result with more iterations. -/
theorem scan_map_mono {A B : Type} {mark : Byte} {body : Formatter A → Option (Formatter A)}
    {finish : Formatter A → B} {formatter : Formatter A} {final : B} {fuel more : ℕ}
    (enough : fuel ≤ more)
    (returned : (Formatter.scan mark body fuel formatter).map finish = some final) :
    (Formatter.scan mark body more formatter).map finish = some final := by
  rcases Option.map_eq_some_iff.mp returned with ⟨after, scanned, rfl⟩
  rw [Formatter.scan_mono enough scanned, Option.map_some]

/-- With enough iterations, a call prints its text. -/
theorem PrintCall.perform_carries (call : PrintCall)
    (carries : cctb.Carries liteOutput console stream) (empty : cctb.oBegin = cctb.oEnd) :
    ∃ fuel after, (∀ more ≥ fuel, call.perform more cctb = some after) ∧
      after.Carries liteOutput console (stream ++ call.text) ∧ after.oBegin = after.oEnd := by
  cases call with
  | printf call =>
      have complete := fun token tokenMem => (call.supported token tokenMem).complete
      rcases @iopipeVioprintf_flushed _ nextArg call.fmt call.args call.numbuf call.tokens complete
        call.parsed with ⟨final, returned, -, flushed, -⟩
      rcases iopipeWrites_carries final.writes carries empty with
        ⟨after, written, afterCarries, afterEmpty⟩
      rw [flushed.written] at afterCarries
      refine ⟨call.tokens.length + 1, after, ?_, afterCarries, afterEmpty⟩
      intro more enough
      have returnedMore := scan_map_mono enough returned
      change ((iopipeVioprintf nextArg more call.fmt call.args call.numbuf).bind _).map _ = _
      rw [iopipeVioprintf, returnedMore, Option.bind_some]
      change ((iopipeWrites (cctermOps (opsConsume liteOutput)) final.writes cctb).map _).map _ = _
      rw [written]
      rfl
  | printinfo call =>
      rcases @iopipeVprintinfo_written _ nextArg call.fmt call.args call.numbuf call.tokens
        call.complete call.parsed with ⟨final, returned, -, flushed, -⟩
      rcases iopipeWrites_carries final.writes carries empty with
        ⟨after, written, afterCarries, afterEmpty⟩
      rw [flushed] at afterCarries
      refine ⟨call.tokens.length + 1, after, ?_, afterCarries, afterEmpty⟩
      intro more enough
      have returnedMore := scan_map_mono enough returned
      change (iopipeVprintinfo nextArg more call.fmt call.args call.numbuf).bind _ = _
      rw [iopipeVprintinfo, returnedMore, Option.bind_some]
      exact written

theorem PrintCall.performAll_carries (calls : List PrintCall)
    (carries : cctb.Carries liteOutput console stream) (empty : cctb.oBegin = cctb.oEnd) :
    ∃ fuel after, (∀ more ≥ fuel, performAll more calls cctb = some after) ∧
      after.Carries liteOutput console (stream ++ calls.flatMap PrintCall.text) ∧
      after.oBegin = after.oEnd := by
  induction calls generalizing cctb stream with
  | nil =>
      refine ⟨0, cctb, fun _ _ => rfl, ?_, empty⟩
      rwa [List.flatMap_nil, List.append_nil]
  | cons call calls ih =>
      rcases call.perform_carries carries empty with
        ⟨fuel, first, performed, firstCarries, firstEmpty⟩
      rcases ih firstCarries firstEmpty with ⟨restFuel, after, rest, afterCarries, afterEmpty⟩
      refine ⟨max fuel restFuel, after, ?_, ?_, afterEmpty⟩
      · intro more enough
        rw [performAll, performed more (le_of_max_le_left enough), Option.bind_some]
        exact rest more (le_of_max_le_right enough)
      · rwa [List.append_assoc, ← List.flatMap_cons] at afterCarries

end Perform

/-- After `kterm_init`, every sequence of calls of `printf` and `printinfo` returns, the ring of
the terminal is empty behind it, and the screen is that of a typewriter that has typed what the
calls print. Nothing outside of the screen has been written. -/
theorem PrintCall.performAll_displays (console : Console) (calls : List PrintCall) :
    ∃ fuel cctb, performAll fuel calls (ktermInit (ccbuffer console)) = some cctb ∧
      cctb.oBegin = cctb.oEnd ∧
      cctb.console.Displays console.terminalBuffer
        (typeBytes (calls.flatMap PrintCall.text) Typewriter.blank) := by
  rcases performAll_carries calls (ccbuffer_carries console.init) rfl with
    ⟨fuel, cctb, performed, carries, empty⟩
  refine ⟨fuel, cctb, performed fuel (Nat.le_refl _), empty, ?_⟩
  rw [carries.shown empty, List.nil_append]
  exact console.init_displays.showBytes _

/-- `printf("t=%d%%\n", -5)` -/
def PrintfCall.temperature : PrintfCall where
  fmt := ⟨"t=%d%%\n".toList.map byte, by decide⟩
  tokens := [.literal (byte 't'), .literal (byte '='), .integer .plain (byte 'd'), .percent,
    .literal (byte '\n')]
  args := [⟨.int, (-5 : BitVec 32)⟩]
  numbuf := fun _ => 0
  supported := by decide
  parsed := by decide
  matching := by decide

/-- `printinfo("0x~H", 0xb8000)` -/
def PrintinfoCall.screen : PrintinfoCall where
  fmt := ⟨"0x~H".toList.map byte, by decide⟩
  tokens := [.literal (byte '0'), .literal (byte 'x'), .directive (byte 'H')]
  args := [⟨.paddrT, (0xb8000 : BitVec 32)⟩]
  numbuf := fun _ => 0
  complete := by
    simp only [List.mem_cons, List.not_mem_nil, or_false]
    rintro token (rfl | rfl | rfl)
    · exact (by decide : byte '0' ≠ byte '~')
    · exact (by decide : byte 'x' ≠ byte '~')
    · trivial
  parsed := by decide

theorem PrintCall.text_lines : [PrintCall.printf .temperature, .printinfo .screen].flatMap
    PrintCall.text = "t=-5%\n0x000B8000".toList.map byte := by
  decide

theorem PrintCall.performAll_displays_lines :
    ∃ fuel cctb, performAll fuel [.printf .temperature, .printinfo .screen]
        (ktermInit (ccbuffer ⟨0, 0, 0, fun _ => 0, []⟩)) = some cctb ∧
      cctb.oBegin = cctb.oEnd ∧
      cctb.console.Displays (fun _ => 0)
        (typeBytes ("t=-5%\n0x000B8000".toList.map byte) Typewriter.blank) := by
  rw [← text_lines]
  exact performAll_displays ⟨0, 0, 0, fun _ => 0, []⟩ [.printf .temperature, .printinfo .screen]

/-- After `kterm_init`, the last 2000 characters of a text stand on the screen in their order,
however long the text is and however it is cut into writes. -/
theorem iopipeWrites_shows_tail (console : Console) (bufs : List (List Byte))
    (printable : ∀ c ∈ bufs.flatten, Printable c) :
    ∃ cctb, iopipeWrites ktermInstance bufs (ktermInit (ccbuffer console)) = some cctb ∧
      ∀ (k : ℕ) (inText : k < bufs.flatten.length), bufs.flatten.length ≤ k + 2000 →
        cctb.console.terminalBuffer (k % 2000) = Console.vgaEntry bufs.flatten[k] 7 := by
  rcases iopipeWrites_carries bufs (@ccbuffer_carries liteOutput console.init) rfl with
    ⟨cctb, written, carries, empty⟩
  refine ⟨cctb, written, ?_⟩
  intro k inText inTail
  have displays := console.init_displays.showBytes bufs.flatten
  have typed := @Typewriter.shown_typeAll _ 2000 Typewriter.blank _ _ inText inTail
  change Typewriter.shown 2000 _ ((0 + k) % 2000) = _ at typed
  rw [Nat.zero_add] at typed
  rw [carries.shown empty, List.nil_append, displays.cells _ (Nat.mod_lt _ (by omega)),
    typeBytes_printable printable, typed, Option.getD_some]

theorem iopipeWrites_shows_tail_letters :
    ∃ cctb, iopipeWrites ktermInstance ["ab".toList.map byte, "c".toList.map byte]
        (ktermInit (ccbuffer ⟨0, 0, 0, fun _ => 0, []⟩)) = some cctb ∧
      cctb.console.terminalBuffer 2 = Console.vgaEntry (byte 'c') 7 := by
  rcases iopipeWrites_shows_tail ⟨0, 0, 0, fun _ => 0, []⟩
    ["ab".toList.map byte, "c".toList.map byte] (by decide) with ⟨cctb, written, shows⟩
  exact ⟨cctb, written, shows 2 (by decide) (by decide)⟩

/-- The two consumers differ in `\r` and `\n` only: for every sequence of writes, the one that moves
the carriage at `\r` shows, for the writes without their `\r` and with `\r\n` for every `\n`, what
the other one shows for the writes as they are. -/
theorem consumers_agree (console : Console) (bufs : List (List Byte)) :
    ∃ std lite,
      iopipeWrites (cctermOps cctermStdOpsConsume) (bufs.map (List.flatMap crlf))
        (ccbuffer console) = some std ∧
      iopipeWrites (cctermOps cctermLiteOpsConsume) bufs (ccbuffer console) = some lite ∧
      std.console = lite.console ∧ std.oBegin = std.oEnd ∧ lite.oBegin = lite.oEnd := by
  rcases iopipeWrites_carries (bufs.map (List.flatMap crlf)) (@ccbuffer_carries stdOutput console)
    rfl with ⟨std, stdWritten, stdCarries, stdEmpty⟩
  rcases iopipeWrites_carries bufs (@ccbuffer_carries liteOutput console) rfl with
    ⟨lite, liteWritten, liteCarries, liteEmpty⟩
  have flat : (bufs.map (List.flatMap crlf)).flatten = bufs.flatten.flatMap crlf := by
    rw [List.flatMap_def, List.map_flatten, List.flatten_flatten, List.map_map]
    rfl
  refine ⟨std, lite, stdWritten, liteWritten, ?_, stdEmpty, liteEmpty⟩
  rw [stdCarries.shown stdEmpty, liteCarries.shown liteEmpty, List.nil_append, List.nil_append,
    flat, showBytes_crlf]

end Rkernel
