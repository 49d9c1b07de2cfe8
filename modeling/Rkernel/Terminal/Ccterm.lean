import Rkernel.Lib.CircularBuffer
import Rkernel.Lib.Word
import Rkernel.Libkern.Numbers

/-!
# The terminal

`ccterm_writeraw` (`terminal/ccterm_base.c`) stores the bytes of a write in a ring of 1024 bytes
and lets `o_consume` empty the ring whenever it is full and at the end of the write. The two
implementations of `o_consume` (`terminal/ccterm_output.c`) turn every byte into calls of the
console (`platform/i686-pc/terminal.c`), which are recorded here in the order in which they are
made.

The ring is an instance of `CircularBuffer`. What has been shown and what is still in the ring
make up the bytes written so far; a write keeps this and ends with an empty ring.
-/

namespace Rkernel

/-- The calls that draw on the console. -/
inductive ConsoleOperation where
  | putchar (c : Byte)
  | carriageReturn
  | newline
  deriving DecidableEq

/-- The variables of the console, with the calls made so far. -/
structure Console where
  terminalRow : BitVec 32
  terminalColumn : BitVec 32
  terminalColor : BitVec 8
  terminalBuffer : ℕ → BitVec 16
  operations : List ConsoleOperation

namespace Console

def vgaWidth : BitVec 32 := 80

def vgaHeight : BitVec 32 := 25

def vgaEntry (uc : Byte) (color : BitVec 8) : BitVec 16 :=
  uc.setWidth 16 ||| color.setWidth 16 <<< 8

/-- `if (++terminal_row == VGA_HEIGHT) terminal_row = 0;` -/
def nextRow (row : BitVec 32) : BitVec 32 :=
  if row + 1 = vgaHeight then 0 else row + 1

def carriageReturn (console : Console) : Console :=
  { console with
    terminalColumn := 0, operations := console.operations ++ [.carriageReturn] }

def newline (console : Console) : Console :=
  { console with
    terminalRow := nextRow console.terminalRow
    operations := console.operations ++ [.newline] }

def putchar (c : Byte) (console : Console) : Console :=
  let index := console.terminalRow * vgaWidth + console.terminalColumn
  let wraps := console.terminalColumn + 1 = vgaWidth
  { console with
    terminalBuffer := Function.update console.terminalBuffer index.toNat
      (vgaEntry c console.terminalColor)
    terminalColumn := if wraps then 0 else console.terminalColumn + 1
    terminalRow := if wraps then nextRow console.terminalRow else console.terminalRow
    operations := console.operations ++ [.putchar c] }

end Console

def ConsoleOperation.perform : ConsoleOperation → Console → Console
  | .putchar c, console => console.putchar c
  | .carriageReturn, console => console.carriageReturn
  | .newline, console => console.newline

/-- The classes of `ansi_charmap.h`. -/
inductive CharClass where
  | default
  | print
  | ignore
  | cr
  | nl
  | tab
  | backspace
  deriving DecidableEq

def ansiCharmap (c : Byte) : CharClass :=
  if c = byte '\r' then .cr
  else if c = byte '\n' then .nl
  else if c = 0x08 then .backspace
  else if c = byte '\t' then .tab
  else if c = 0x0b then .tab
  else if c = 0x7f then .ignore
  else .default

/-- `cmc` with the default of its class. -/
def charClass (curb : Byte) : CharClass :=
  if ansiCharmap curb = .default then if curb < 0x20 then .ignore else .print
  else ansiCharmap curb

/-- The loop of `cc_tab`, with the blanks left. -/
def ccTabLoop : ℕ → Console → Console
  | 0, console => console
  | left + 1, console => ccTabLoop left (console.putchar (byte ' '))

/-- `cc_tab`, with `TABWIDTH` 4. -/
def ccTab (console : Console) : Console :=
  ccTabLoop (4 - (console.terminalColumn % 4).toNat) console

/-- The switch of `ccterm_std_ops_consume`. -/
def stdOutput (curb : Byte) (console : Console) : Console :=
  match charClass curb with
  | .print => console.putchar curb
  | .cr => console.carriageReturn
  | .nl => console.newline
  | .tab => ccTab console
  | _ => console

/-- The switch of `ccterm_lite_ops_consume`. -/
def liteOutput (curb : Byte) (console : Console) : Console :=
  match charClass curb with
  | .print => console.putchar curb
  | .nl => console.carriageReturn.newline
  | .tab => ccTab console
  | _ => console

/-- `struct ccterm_buffer`, with the console behind it. -/
structure Ccterm where
  oBuffer : ℕ → Byte
  oBegin : BitVec 16
  oEnd : BitVec 16
  console : Console

/-- `CCTB_CUT` -/
def cctbCut (i : BitVec 16) : BitVec 16 :=
  i &&& 1023

/-- The loop of the consumers; no result means that the iterations did not suffice. -/
def consumeLoop (output : Byte → Console → Console) (cctb : Ccterm) :
    (left : ℕ) → (i : BitVec 16) → Console → Option (BitVec 16 × Console)
  | 0, _, _ => none
  | left + 1, i, console =>
      if cctbCut (cctb.oBegin + i) = cctb.oEnd then some (i, console)
      else
        consumeLoop output cctb left (i + 1)
          (output (cctb.oBuffer (cctbCut (cctb.oBegin + i)).toNat) console)

/-- The common body of the consumers. -/
def opsConsume (output : Byte → Console → Console) (cctb : Ccterm) : Option Ccterm :=
  (consumeLoop output cctb 1024 0 cctb.console).map fun consumed =>
    { cctb with oBegin := cctbCut (cctb.oBegin + consumed.1), console := consumed.2 }

def cctermStdOpsConsume : Ccterm → Option Ccterm :=
  opsConsume stdOutput

def cctermLiteOpsConsume : Ccterm → Option Ccterm :=
  opsConsume liteOutput

section Writeraw

variable (oConsume : Ccterm → Option Ccterm)

/-- The inner loop of `ccterm_writeraw`, with the retries left: whether there is room for a
byte. -/
def awaitRoom : (retries : ℕ) → Ccterm → Option (Bool × Ccterm)
  | retries, cctb =>
      if cctb.oBegin ≠ cctbCut (cctb.oEnd + 1) then some (true, cctb)
      else
        match retries with
        | 0 => some (false, cctb)
        | retries + 1 => (oConsume cctb).bind (awaitRoom retries)

/-- `o_buffer[cur] = c; o_end = next;`, without a result outside of the buffer. -/
def storeByte (c : Byte) (cctb : Ccterm) : Option Ccterm :=
  if cctb.oEnd < 1024 then
    some
      { cctb with
        oBuffer := Function.update cctb.oBuffer cctb.oEnd.toNat c
        oEnd := cctbCut (cctb.oEnd + 1) }
  else none

/-- The outer loop of `ccterm_writeraw` over the bytes from the index `i` on: whether it ran to
its end, the index it has reached and the terminal. -/
def writerawLoop : List Byte → (i : ℕ) → Ccterm → Option (Bool × ℕ × Ccterm)
  | [], i, cctb => some (true, i, cctb)
  | c :: bytes, i, cctb =>
      (awaitRoom oConsume 4 cctb).bind fun awaited =>
        if awaited.1 then (storeByte c awaited.2).bind (writerawLoop bytes (i + 1))
        else some (false, i, awaited.2)

/-- `ccterm_writeraw`: the return value and the terminal. -/
def cctermWriteraw (bytes : List Byte) (cctb : Ccterm) : Option (ℕ × Ccterm) :=
  (writerawLoop oConsume bytes 0 cctb).bind fun written =>
    if written.1 then
      if written.2.2.oBegin ≠ written.2.2.oEnd then
        (oConsume written.2.2).map fun cctb => (bytes.length, cctb)
      else some (bytes.length, written.2.2)
    else some written.2

/-- Several writes in a row: the values they return and the terminal. -/
def cctermWrites : List (List Byte) → Ccterm → Option (List ℕ × Ccterm)
  | [], cctb => some ([], cctb)
  | bytes :: writes, cctb =>
      (cctermWriteraw oConsume bytes cctb).bind fun first =>
        (cctermWrites writes first.2).map fun rest => (first.1 :: rest.1, rest.2)

end Writeraw

/-- The calls for a byte, at a column of the console. -/
def byteOperations (column : BitVec 32) (c : Byte) : List ConsoleOperation :=
  match charClass c with
  | .print => [.putchar c]
  | .nl => [.carriageReturn, .newline]
  | .tab => List.replicate (4 - column.toNat % 4) (.putchar (byte ' '))
  | _ => []

def performAll (operations : List ConsoleOperation) (console : Console) : Console :=
  operations.foldl (fun console operation => operation.perform console) console

/-- The calls for a sequence of bytes, those of one byte after those of the other. -/
def streamOperations : List Byte → Console → List ConsoleOperation
  | [], _ => []
  | c :: bytes, console =>
      let operations := byteOperations console.terminalColumn c
      operations ++ streamOperations bytes (performAll operations console)

section Stream

theorem perform_operations (operation : ConsoleOperation) (console : Console) :
    (operation.perform console).operations = console.operations ++ [operation] := by
  cases operation <;> rfl

theorem performAll_operations (operations : List ConsoleOperation) (console : Console) :
    (performAll operations console).operations = console.operations ++ operations := by
  induction operations generalizing console with
  | nil => exact (List.append_nil _).symm
  | cons operation operations ih =>
      change (performAll operations (operation.perform console)).operations = _
      rw [ih, perform_operations, List.append_assoc, List.singleton_append]

theorem ccTabLoop_eq (left : ℕ) (console : Console) :
    ccTabLoop left console = performAll (List.replicate left (.putchar (byte ' '))) console := by
  induction left generalizing console with
  | zero => rfl
  | succ left ih =>
      rw [ccTabLoop, ih, List.replicate_succ]
      rfl

theorem liteOutput_eq (c : Byte) (console : Console) :
    liteOutput c console = performAll (byteOperations console.terminalColumn c) console := by
  rw [liteOutput, byteOperations]
  cases charClass c with
  | tab =>
      have four : (4 : BitVec 32).toNat = 4 := rfl
      have blanks : (console.terminalColumn % 4).toNat = console.terminalColumn.toNat % 4 := by
        rw [BitVec.toNat_umod, four]
      change ccTab console = performAll (List.replicate _ _) console
      rw [ccTab, ccTabLoop_eq, blanks]
  | default | print | ignore | cr | nl | backspace => rfl

/-- The console after a sequence of bytes. -/
def showBytes (output : Byte → Console → Console) (bytes : List Byte) (console : Console) :
    Console :=
  bytes.foldl (fun console c => output c console) console

theorem showBytes_lite (bytes : List Byte) (console : Console) :
    (showBytes liteOutput bytes console).operations =
      console.operations ++ streamOperations bytes console := by
  induction bytes generalizing console with
  | nil => exact (List.append_nil _).symm
  | cons c bytes ih =>
      change (showBytes liteOutput bytes (liteOutput c console)).operations = _
      rw [ih, liteOutput_eq, performAll_operations, streamOperations, List.append_assoc]

end Stream

/-- The bytes of a stream have been shown, but for those that are still in the ring. -/
structure Ccterm.Carries (output : Byte → Console → Console) (cctb : Ccterm) (console : Console)
    (stream : List Byte) : Prop where
  split : ∃ shown pending, shown ++ pending = stream ∧
    cctb.console = showBytes output shown console ∧
    CircularBuffer.Holds 1024 cctb.oBuffer cctb.oBegin.toNat cctb.oEnd.toNat pending

section Carries

variable {output : Byte → Console → Console} {cctb : Ccterm} {console : Console}
  {stream : List Byte}

theorem toNat_cctbCut (i j : BitVec 16) :
    (cctbCut (i + j)).toNat = (i.toNat + j.toNat) % 1024 := by
  have isMask : (1023 : BitVec 16).IsLowMask 10 := rfl
  rw [cctbCut, isMask.toNat_and, BitVec.toNat_add]
  omega

theorem toNat_cctbCut_succ (i : BitVec 16) : (cctbCut (i + 1)).toNat = (i.toNat + 1) % 1024 :=
  toNat_cctbCut i 1

/-- A consumer shows the bytes that follow an index of the ring. -/
theorem consumeLoop_eq {pending : List Byte} {left : ℕ} {i : BitVec 16} {console : Console}
    (enough : pending.length < left)
    (holds : CircularBuffer.Holds 1024 cctb.oBuffer (cctbCut (cctb.oBegin + i)).toNat
      cctb.oEnd.toNat pending) :
    ∃ j, consumeLoop output cctb left i console = some (j, showBytes output pending console) ∧
      cctbCut (cctb.oBegin + j) = cctb.oEnd := by
  induction pending generalizing left i console with
  | nil =>
      cases left with
      | zero => contradiction
      | succ left =>
          have atEnd : cctbCut (cctb.oBegin + i) = cctb.oEnd :=
            BitVec.eq_of_toNat_eq (holds.eq_nil_iff.mpr rfl)
          rw [consumeLoop, if_pos atEnd]
          exact ⟨i, rfl, atEnd⟩
  | cons c pending ih =>
      cases left with
      | zero => contradiction
      | succ left =>
          have notEnd : cctbCut (cctb.oBegin + i) ≠ cctb.oEnd := by
            intro atEnd
            have empty := holds.eq_nil_iff.mp (congrArg BitVec.toNat atEnd)
            contradiction
          have next : ((cctbCut (cctb.oBegin + i)).toNat + 1) % 1024 =
              (cctbCut (cctb.oBegin + (i + 1))).toNat := by
            rw [← BitVec.add_assoc, toNat_cctbCut_succ, toNat_cctbCut, BitVec.toNat_add]
            omega
          rcases holds.pop with ⟨head, rest⟩
          rw [next] at rest
          rw [consumeLoop, if_neg notEnd, head]
          exact ih (Nat.lt_of_succ_lt_succ enough) rest

theorem opsConsume_carries (carries : cctb.Carries output console stream) :
    ∃ after, opsConsume output cctb = some after ∧ after.Carries output console stream ∧
      after.oBegin = after.oEnd := by
  rcases carries.split with ⟨shown, pending, rfl, shows, holds⟩
  have begins : cctbCut (cctb.oBegin + 0) = cctb.oBegin := by
    apply BitVec.eq_of_toNat_eq
    rw [toNat_cctbCut]
    exact Nat.mod_eq_of_lt holds.begins
  have fromBegin := holds
  rw [← begins] at fromBegin
  rcases @consumeLoop_eq output cctb pending 1024 0 cctb.console holds.room fromBegin with
    ⟨j, looped, atEnd⟩
  rw [opsConsume, looped]
  refine ⟨_, rfl, ⟨shown ++ pending, [], List.append_nil _, ?_, ?_⟩, atEnd⟩
  · change showBytes output pending cctb.console = _
    rw [shows, showBytes, showBytes, showBytes, List.foldl_append]
  · change CircularBuffer.Holds 1024 cctb.oBuffer (cctbCut (cctb.oBegin + j)).toNat _ _
    rw [atEnd]
    exact CircularBuffer.holds_nil holds.last_lt

theorem awaitRoom_of_room (oConsume : Ccterm → Option Ccterm) (retries : ℕ)
    (room : cctb.oBegin ≠ cctbCut (cctb.oEnd + 1)) :
    awaitRoom oConsume retries cctb = some (true, cctb) := by
  cases retries with
  | zero => exact if_pos room
  | succ retries => exact if_pos room

theorem awaitRoom_carries (retries : ℕ) (carries : cctb.Carries output console stream) :
    ∃ after, awaitRoom (opsConsume output) (retries + 1) cctb = some (true, after) ∧
      after.Carries output console stream ∧ after.oBegin ≠ cctbCut (after.oEnd + 1) := by
  by_cases room : cctb.oBegin ≠ cctbCut (cctb.oEnd + 1)
  · exact ⟨cctb, awaitRoom_of_room _ _ room, carries, room⟩
  · rcases opsConsume_carries carries with ⟨after, consumed, afterCarries, empty⟩
    have afterRoom : after.oBegin ≠ cctbCut (after.oEnd + 1) := by
      intro full
      have fullNat := congrArg BitVec.toNat full
      rw [empty, toNat_cctbCut_succ] at fullNat
      omega
    refine ⟨after, ?_, afterCarries, afterRoom⟩
    rw [awaitRoom, if_neg room, consumed, Option.bind_some, awaitRoom_of_room _ _ afterRoom]

theorem storeByte_carries (carries : cctb.Carries output console stream)
    (room : cctb.oBegin ≠ cctbCut (cctb.oEnd + 1)) (c : Byte) :
    ∃ after, storeByte c cctb = some after ∧ after.Carries output console (stream ++ [c]) := by
  rcases carries.split with ⟨shown, pending, rfl, shows, holds⟩
  have inside : cctb.oEnd < 1024 := by
    rw [BitVec.lt_def]
    exact holds.last_lt
  have notFull : (cctb.oEnd.toNat + 1) % 1024 ≠ cctb.oBegin.toNat := by
    rw [← toNat_cctbCut_succ]
    intro full
    exact room (BitVec.eq_of_toNat_eq full.symm)
  have pushed := holds.push notFull c
  rw [← toNat_cctbCut_succ] at pushed
  rw [storeByte, if_pos inside]
  exact ⟨_, rfl, shown, pending ++ [c], (List.append_assoc _ _ _).symm, shows, pushed⟩

theorem writerawLoop_carries (bytes : List Byte) (i : ℕ)
    (carries : cctb.Carries output console stream) :
    ∃ after, writerawLoop (opsConsume output) bytes i cctb =
        some (true, i + bytes.length, after) ∧
      after.Carries output console (stream ++ bytes) := by
  induction bytes generalizing i cctb stream with
  | nil =>
      refine ⟨cctb, rfl, ?_⟩
      rwa [List.append_nil]
  | cons c bytes ih =>
      rcases awaitRoom_carries 3 carries with ⟨ready, awaited, readyCarries, room⟩
      rcases storeByte_carries readyCarries room c with ⟨stored, isStored, storedCarries⟩
      rcases ih (i + 1) storedCarries with ⟨after, looped, afterCarries⟩
      refine ⟨after, ?_, ?_⟩
      · rw [writerawLoop, awaited, Option.bind_some, if_pos rfl, isStored, Option.bind_some,
          looped, List.length_cons, Nat.add_assoc, Nat.add_comm 1]
      · rwa [List.append_assoc, List.singleton_append] at afterCarries

/-- A write shows everything that was in the ring and then its own bytes. -/
theorem cctermWriteraw_carries (bytes : List Byte) (carries : cctb.Carries output console stream) :
    ∃ after, cctermWriteraw (opsConsume output) bytes cctb = some (bytes.length, after) ∧
      after.Carries output console (stream ++ bytes) ∧ after.oBegin = after.oEnd := by
  rcases writerawLoop_carries bytes 0 carries with ⟨looped, isLooped, loopedCarries⟩
  rw [cctermWriteraw, isLooped, Option.bind_some, if_pos rfl]
  by_cases empty : looped.oBegin = looped.oEnd
  · exact ⟨looped, if_neg (not_not.mpr empty), loopedCarries, empty⟩
  · rcases opsConsume_carries loopedCarries with ⟨after, consumed, afterCarries, afterEmpty⟩
    refine ⟨after, ?_, afterCarries, afterEmpty⟩
    rw [if_pos empty, consumed]
    rfl

theorem cctermWrites_carries (writes : List (List Byte))
    (carries : cctb.Carries output console stream) (empty : cctb.oBegin = cctb.oEnd) :
    ∃ after, cctermWrites (opsConsume output) writes cctb =
        some (writes.map List.length, after) ∧
      after.Carries output console (stream ++ writes.flatten) ∧ after.oBegin = after.oEnd := by
  induction writes generalizing cctb stream with
  | nil =>
      refine ⟨cctb, rfl, ?_, empty⟩
      rwa [List.flatten_nil, List.append_nil]
  | cons bytes writes ih =>
      rcases cctermWriteraw_carries bytes carries with ⟨first, returned, firstCarries, firstEmpty⟩
      rcases ih firstCarries firstEmpty with ⟨after, rest, afterCarries, afterEmpty⟩
      refine ⟨after, ?_, ?_, afterEmpty⟩
      · rw [cctermWrites, returned, Option.bind_some, rest]
        rfl
      · rwa [List.append_assoc, ← List.flatten_cons] at afterCarries

/-- A terminal with an empty ring at some position carries nothing. -/
theorem carries_nil {position : ℕ} (inRing : position < 1024) (cells : ℕ → Byte) :
    Ccterm.Carries output ⟨cells, BitVec.ofNat 16 position, BitVec.ofNat 16 position, console⟩
      console [] := by
  have positionNat : (BitVec.ofNat 16 position).toNat = position := by
    rw [BitVec.toNat_ofNat]
    omega
  refine ⟨[], [], rfl, rfl, ?_⟩
  change CircularBuffer.Holds 1024 cells (BitVec.ofNat 16 position).toNat
    (BitVec.ofNat 16 position).toNat []
  rw [positionNat]
  exact CircularBuffer.holds_nil inRing

end Carries

/-- Any sequence of writes to an empty ring, such as the zero-initialised one, returns the full
sizes, leaves the ring empty, and has made the calls for all bytes in their order. -/
theorem cctermWrites_operations (cells : ℕ → Byte) (position : Fin 1024) (console : Console)
    (writes : List (List Byte)) :
    ∃ cctb, cctermWrites cctermLiteOpsConsume writes
        ⟨cells, BitVec.ofNat 16 position, BitVec.ofNat 16 position, console⟩ =
        some (writes.map List.length, cctb) ∧
      cctb.oBegin = cctb.oEnd ∧ cctb.oBegin < 1024 ∧ cctb.oEnd < 1024 ∧
      cctb.console.operations =
        console.operations ++ streamOperations writes.flatten console := by
  rcases cctermWrites_carries writes (carries_nil position.isLt cells) rfl with
    ⟨cctb, returned, carries, empty⟩
  rcases carries.split with ⟨shown, pending, split, shows, holds⟩
  have inRing : cctb.oEnd < 1024 := by
    rw [BitVec.lt_def]
    exact holds.last_lt
  have nothing : pending = [] := holds.eq_nil_iff.mp (congrArg BitVec.toNat empty)
  rw [nothing, List.append_nil, List.nil_append] at split
  refine ⟨cctb, returned, empty, ?_, inRing, ?_⟩
  · rwa [empty]
  · rw [shows, split]
    exact showBytes_lite writes.flatten console

end Rkernel
