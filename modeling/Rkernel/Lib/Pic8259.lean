import Mathlib.Algebra.Group.Nat.Defs
import Mathlib.Data.Nat.Notation

/-!
# The 8259A interrupt controller

A controller as its two ports program it, and a master with one slave. Requests are accepted by
the fixed priorities; the rotation of priorities, the polling mode and what the ports read are
left out.
-/

namespace Pic8259

/-- The next byte of an initialisation that the data port takes. -/
inductive Expects where
  | icw2 | icw3 | icw4 | nothing
  deriving DecidableEq

structure Controller where
  imr : BitVec 8
  /-- The lines whose interrupts are in service. -/
  isr : BitVec 8
  vectorBase : BitVec 8
  cascade : BitVec 8
  autoEoi : Bool
  specialMask : Bool
  single : Bool
  needsIcw4 : Bool
  expects : Expects
  deriving DecidableEq

namespace Controller

/-- The lowest line in service, which has the highest priority, is done. -/
def endHighest (isr : BitVec 8) : BitVec 8 :=
  isr &&& (isr - 1)

/-- A byte for the command port: ICW1, OCW3 or OCW2. -/
def command (data : BitVec 8) (c : Controller) : Controller :=
  if data.getLsbD 4 then
    { c with imr := 0, isr := 0, autoEoi := false, specialMask := false,
             single := data.getLsbD 1, needsIcw4 := data.getLsbD 0, expects := .icw2 }
  else if data.getLsbD 3 then
    if data.getLsbD 6 then { c with specialMask := data.getLsbD 5 } else c
  else if data.extractLsb' 5 3 = 1 then { c with isr := endHighest c.isr }
  else if data.extractLsb' 5 3 = 3 then
    { c with isr := c.isr &&& ~~~((1 : BitVec 8) <<< (data.extractLsb' 0 3).toNat) }
  else c

/-- A byte for the data port: ICW2 to ICW4, or the mask. -/
def data (data : BitVec 8) (c : Controller) : Controller :=
  let last := if c.needsIcw4 then Expects.icw4 else .nothing
  match c.expects with
  | .icw2 =>
      { c with vectorBase := data &&& 0xf8, expects := if c.single then last else .icw3 }
  | .icw3 => { c with cascade := data, expects := last }
  | .icw4 => { c with autoEoi := data.getLsbD 1, expects := .nothing }
  | .nothing => { c with imr := data }

/-- A line in service keeps itself and the lines after it waiting. -/
def accepts (line : ℕ) (c : Controller) : Bool :=
  let holding := if c.specialMask then c.isr &&& ~~~c.imr else c.isr
  c.expects = .nothing && !c.imr.getLsbD line &&
    (List.range (line + 1)).all fun served => !holding.getLsbD served

/-- The vector for a request that is accepted. -/
def acknowledge (line : ℕ) (c : Controller) : Option (BitVec 8 × Controller) :=
  if c.accepts line then
    some (c.vectorBase ||| BitVec.ofNat 8 line,
      if c.autoEoi then c else { c with isr := c.isr ||| (1 : BitVec 8) <<< line })
  else none

end Controller

/-- A master and its slave. -/
structure Pair where
  master : Controller
  slave : Controller
  deriving DecidableEq

/-- The vector for a request, the lines of the slave counted behind those of the master. -/
def Pair.acknowledge (irq : ℕ) (p : Pair) : Option (BitVec 8 × Pair) :=
  if irq < 8 then
    if p.master.cascade.getLsbD irq then none
    else (p.master.acknowledge irq).map fun answer => (answer.1, { p with master := answer.2 })
  else
    if p.master.cascade.getLsbD p.slave.cascade.toNat then
      (p.master.acknowledge p.slave.cascade.toNat).bind fun forwarded =>
        (p.slave.acknowledge (irq - 8)).map fun answer => (answer.1, ⟨forwarded.2, answer.2⟩)
    else none

/-- A controller in automatic end-of-interrupt mode, with no line in service. -/
structure Controller.Automatic (c : Controller) : Prop where
  autoEoi : c.autoEoi = true
  isr : c.isr = 0
  expects : c.expects = .nothing

namespace Controller

variable {c : Controller}

/-- Without a line in service, only the mask decides. -/
theorem Automatic.acknowledge (automatic : c.Automatic) (line : ℕ) :
    c.acknowledge line =
      if c.imr.getLsbD line then none
      else some (c.vectorBase ||| BitVec.ofNat 8 line, c) := by
  have holding : (if c.specialMask then c.isr &&& ~~~c.imr else c.isr) = 0 := by
    rw [automatic.isr]
    split
    · exact BitVec.zero_and
    · rfl
  have accepted : c.accepts line = !c.imr.getLsbD line := by
    simp [accepts, holding, automatic.expects]
  rw [Controller.acknowledge, accepted, automatic.autoEoi]
  cases c.imr.getLsbD line with
  | false => rfl
  | true => rfl

/-- With nothing in service, the end of an interrupt changes nothing. -/
theorem Automatic.endOfInterrupt (automatic : c.Automatic) : c.command 0x20 = c := by
  have ended : endHighest c.isr = c.isr := by
    rw [automatic.isr]
    decide
  change { c with isr := endHighest c.isr } = c
  rw [ended]

theorem Automatic.setMask (automatic : c.Automatic) (mask : BitVec 8) :
    c.data mask = { c with imr := mask } := by
  rw [Controller.data, automatic.expects]

end Controller

end Pic8259
