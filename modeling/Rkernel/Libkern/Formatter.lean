import Rkernel.Libkern.Numbers

/-!
# The formatters

`iopipe_vioprintf` (`libkern/printf.c`) and `iopipe_vprintinfo` (`libkern/printinfo.c`) copy a
format string to a pipe and replace the directives in it. A run of literal text between the
pointers `last` and `fmt` is written when a directive or the end of the string is reached.

A pointer into a NUL-terminated string is modelled by the bytes from there up to and including
the NUL, so that the pointer behind the NUL is the empty list and reading through it has no
result. What `va_arg` returns is a parameter; `nextArg` is its behaviour on a list of typed
arguments.
-/

namespace Rkernel

/-- A string without its terminating NUL. -/
structure CString where
  chars : List Byte
  noNul : 0 ∉ chars

/-- The pointer to the first character of a string. -/
def CString.pointer (string : CString) : List Byte :=
  string.chars ++ [0]

/-- The types that the formatters pass to `va_arg`. -/
inductive VaType where
  | int
  | unsignedInt
  | long
  | unsignedLong
  | longLong
  | unsignedLongLong
  | ssizeT
  | sizeT
  | ptrdiffT
  | uIntptrT
  | paddrT
  | voidPointer
  | charPointer
  deriving DecidableEq

/-- The values of a type; a `const char*` is null or points to a string. -/
def VaType.Value : VaType → Type
  | .longLong | .unsignedLongLong => BitVec 64
  | .charPointer => Option CString
  | _ => BitVec 32

/-- An argument with the type it was passed with. -/
abbrev Arg := Σ type : VaType, type.Value

def VaType.default : (type : VaType) → type.Value
  | .longLong | .unsignedLongLong => (0 : BitVec 64)
  | .charPointer => (none : Option CString)
  | .int | .unsignedInt | .long | .unsignedLong | .ssizeT | .sizeT | .ptrdiffT | .uIntptrT
  | .paddrT | .voidPointer => (0 : BitVec 32)

/-- `va_arg`: the next argument, if it has the type that is asked for. -/
def nextArg (type : VaType) : List Arg → type.Value × List Arg
  | [] => (type.default, [])
  | arg :: args =>
      if same : arg.1 = type then (same ▸ arg.2, args) else (type.default, args)

/-- The variables of a formatter, with the calls of `iopipe_write`. -/
structure Formatter (A : Type) where
  fmt : List Byte
  last : List Byte
  count : BitVec 32
  numbuf : Cells
  ap : A
  writes : List (List Byte)

/-- The conversions for one length prefix. -/
structure Conversions where
  signed : VaType
  unsigned : VaType
  i2a : signed.Value → Cells → Option Numbuf
  u2a : unsigned.Value → Cells → Option Numbuf
  x2a : unsigned.Value → Cells → Option Numbuf
  X2a : unsigned.Value → Cells → Option Numbuf
  o2a : unsigned.Value → Cells → Option Numbuf

/-- The length prefixes of `iopipe_vioprintf`. -/
inductive Length where
  | plain
  | z
  | t
  | l
  | ll
  deriving DecidableEq

def Length.conversions : Length → Conversions
  | .plain => ⟨.int, .unsignedInt, i2a, u2a, x2a, X2a, o2a⟩
  | .z => ⟨.ssizeT, .sizeT, zi2a, zu2a, zx2a, zX2a, zo2a⟩
  | .t => ⟨.ptrdiffT, .uIntptrT, ti2a, tu2a, tx2a, tX2a, to2a⟩
  | .l => ⟨.long, .unsignedLong, li2a, lu2a, lx2a, lX2a, lo2a⟩
  | .ll => ⟨.longLong, .unsignedLongLong, lli2a, llu2a, llx2a, llX2a, llo2a⟩

/-- The text for a null `%s`. -/
def nullText : List Byte :=
  "(null)".toList.map byte

/-- The string that `%s` writes. -/
def stringText : Option CString → List Byte
  | none => nullText
  | some string => string.chars

namespace Formatter

variable {A : Type} (vaArg : (type : VaType) → A → type.Value × A)

/-- `fmt++` -/
def next (formatter : Formatter A) : Formatter A :=
  { formatter with fmt := formatter.fmt.tail }

def iopipeWrite (formatter : Formatter A) (bytes : List Byte) : Formatter A :=
  { formatter with writes := formatter.writes ++ [bytes] }

/-- `fmt-last` -/
def pending (formatter : Formatter A) : ℕ :=
  formatter.last.length - formatter.fmt.length

/-- `if(fmt>last) iopipe_write(iopipe,last,fmt-last)` -/
def writePending (formatter : Formatter A) : Formatter A :=
  if 0 < formatter.pending then formatter.iopipeWrite (formatter.last.take formatter.pending)
  else formatter

/-- `count += size` -/
def addCount (formatter : Formatter A) (size : ℕ) : Formatter A :=
  { formatter with count := formatter.count + BitVec.ofNat 32 size }

/-- `count += fmt-last` and the write of the literal text. -/
def flush (formatter : Formatter A) : Formatter A :=
  (formatter.addCount formatter.pending).writePending

/-- `nb = helper(va_arg(ap,type),numbuf)` and the write of `nb`, with its length. -/
def render (type : VaType) (helper : type.Value → Cells → Option Numbuf)
    (formatter : Formatter A) : Option (Formatter A × ℕ) :=
  let arg := vaArg type formatter.ap
  (helper arg.1 formatter.numbuf).map fun nb =>
    (({ formatter with ap := arg.2, numbuf := nb.cells }).iopipeWrite nb.text, nb.text.length)

/-- A conversion of `iopipe_vioprintf`. -/
def convert (type : VaType) (helper : type.Value → Cells → Option Numbuf)
    (formatter : Formatter A) : Option (Formatter A) :=
  (formatter.render vaArg type helper).map fun rendered => rendered.1.addCount rendered.2

/-- The innermost `switch(*fmt)` for a length prefix. -/
def integer (length : Length) (formatter : Formatter A) : Option (Formatter A) := do
  let conversions := length.conversions
  let c ← formatter.fmt.head?
  if c = byte 'd' ∨ c = byte 'i' then
    formatter.convert vaArg conversions.signed conversions.i2a
  else if c = byte 'u' then formatter.convert vaArg conversions.unsigned conversions.u2a
  else if c = byte 'x' then formatter.convert vaArg conversions.unsigned conversions.x2a
  else if c = byte 'X' then formatter.convert vaArg conversions.unsigned conversions.X2a
  else if c = byte 'o' then formatter.convert vaArg conversions.unsigned conversions.o2a
  else some formatter

/-- `numbuf[0] = va_arg(ap,int)` and the write of that byte. -/
def character (formatter : Formatter A) : Formatter A :=
  let arg := vaArg .int formatter.ap
  let c : Byte := BitVec.setWidth 8 (show BitVec 32 from arg.1)
  (({ formatter with
      ap := arg.2, numbuf := Function.update formatter.numbuf 0 c }).iopipeWrite [c]).addCount 1

/-- The case `'s'`. -/
def string (formatter : Formatter A) : Formatter A :=
  let arg := vaArg .charPointer formatter.ap
  (({ formatter with ap := arg.2 }).iopipeWrite (stringText arg.1)).addCount
    (stringText arg.1).length

/-- `switch(*fmt)` behind the `%`. -/
def directive (formatter : Formatter A) : Option (Formatter A) := do
  let c ← formatter.fmt.head?
  if c = byte 'z' then formatter.next.integer vaArg .z
  else if c = byte 't' then formatter.next.integer vaArg .t
  else if c = byte 'l' then do
    let d ← formatter.next.fmt.head?
    if d = byte 'l' then formatter.next.next.integer vaArg .ll
    else formatter.next.integer vaArg .l
  else if c = byte 'p' then formatter.convert vaArg .voidPointer p2a
  else if c = byte 'c' then some (formatter.character vaArg)
  else if c = byte 's' then some (formatter.string vaArg)
  else formatter.integer vaArg .plain

/-- `fmt++; last = fmt;` -/
def resume (formatter : Formatter A) : Formatter A :=
  { formatter.next with last := formatter.next.fmt }

/-- The body of the loop of `iopipe_vioprintf` at a `%`. -/
def percent (formatter : Formatter A) : Option (Formatter A) := do
  let c ← formatter.fmt.tail.head?
  let flushed := if c = byte '%' then formatter.next.flush else formatter.flush.next
  (flushed.directive vaArg).map resume

/-- The switch of `iopipe_vprintinfo`. -/
def infoDirective (formatter : Formatter A) : Option (Formatter A) := do
  let c ← formatter.fmt.head?
  if c = byte 'h' then (formatter.render vaArg .paddrT renderPhysLow).map Prod.fst
  else if c = byte 'H' then (formatter.render vaArg .paddrT renderPhysHigh).map Prod.fst
  else if c = byte 'p' then (formatter.render vaArg .uIntptrT renderVirtLow).map Prod.fst
  else if c = byte 'P' then (formatter.render vaArg .uIntptrT renderVirtHigh).map Prod.fst
  else if c = byte 'u' ∨ c = byte 'i' ∨ c = byte 'd' then
    (formatter.render vaArg .unsignedInt u2a).map Prod.fst
  else some formatter

/-- The body of the loop of `iopipe_vprintinfo` at a `~`. -/
def tilde (formatter : Formatter A) : Option (Formatter A) :=
  (formatter.writePending.next.infoDirective vaArg).map resume

/-- `while(*fmt){ if(*fmt!=mark){fmt++;continue;} body }`; no result also means that the
iterations did not suffice. -/
def scan (mark : Byte) (body : Formatter A → Option (Formatter A)) :
    (fuel : ℕ) → Formatter A → Option (Formatter A)
  | 0, _ => none
  | fuel + 1, formatter =>
      formatter.fmt.head?.bind fun c =>
        if c = 0 then some formatter
        else if c ≠ mark then scan mark body fuel formatter.next
        else (body formatter).bind (scan mark body fuel)

/-- The variables of a formatter at its entry. -/
def start (format : CString) (ap : A) (numbuf : Cells) : Formatter A where
  fmt := format.pointer
  last := format.pointer
  count := 0
  numbuf := numbuf
  ap := ap
  writes := []

end Formatter

section Entry

variable {A : Type} (vaArg : (type : VaType) → A → type.Value × A)

/-- `iopipe_vioprintf`; its return value is the final `count`. -/
def iopipeVioprintf (fuel : ℕ) (format : CString) (ap : A) (numbuf : Cells) :
    Option (Formatter A) :=
  (Formatter.scan (byte '%') (Formatter.percent vaArg) fuel (.start format ap numbuf)).map
    Formatter.flush

def iopipeVprintinfo (fuel : ℕ) (format : CString) (ap : A) (numbuf : Cells) :
    Option (Formatter A) :=
  (Formatter.scan (byte '~') (Formatter.tilde vaArg) fuel (.start format ap numbuf)).map
    Formatter.writePending

end Entry

end Rkernel
