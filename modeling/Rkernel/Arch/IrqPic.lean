import Mathlib.Logic.Basic
import Rkernel.Lib.Pic8259

/-!
# The programmable interrupt controllers

`irq_pic.c` drives the two controllers over their ports and keeps their mask in `irqmask`. From
`__i686_picinit` on, in whatever state the controllers were before, exactly the lines that have
been enabled interrupt, and each has its vector; the ends of interrupts that `__i686_interrupt`
sends for every trap do no harm, since both controllers end interrupts by themselves.
-/

namespace Rkernel

open Pic8259

def ioPic1 : ℕ := 0x20
def ioPic2 : ℕ := 0xa0
def irqSlave : ℕ := 2
def picEoi : BitVec 8 := 0x20
def ioTimer1 : ℕ := 0x40
def timerMode : ℕ := ioTimer1 + 3
def timerFreq : ℕ := 1193182
def tIrq0 : ℕ := 32
def irqTimer : ℕ := 0

/-- `TIMER_DIV`. -/
def timerDiv (x : ℕ) : ℕ :=
  (timerFreq + x / 2) / x

/-- `irqmask`, the controllers, and what has been written to the ports of the timer. -/
structure PicState where
  irqmask : BitVec 16
  pics : Pair
  timer : List (ℕ × BitVec 8)

/-- `outb` to a port of the controllers or of the timer. -/
def outb (port : ℕ) (data : BitVec 8) (s : PicState) : PicState :=
  if port = ioPic1 then { s with pics.master := s.pics.master.command data }
  else if port = ioPic1 + 1 then { s with pics.master := s.pics.master.data data }
  else if port = ioPic2 then { s with pics.slave := s.pics.slave.command data }
  else if port = ioPic2 + 1 then { s with pics.slave := s.pics.slave.data data }
  else { s with timer := s.timer ++ [(port, data)] }

/-- `outb` one after the other. -/
def outbs (writes : List (ℕ × BitVec 8)) (s : PicState) : PicState :=
  writes.foldl (fun s write => outb write.1 write.2 s) s

def picsetmask (mask : BitVec 16) (s : PicState) : PicState :=
  outbs [(ioPic1 + 1, mask.setWidth 8), (ioPic2 + 1, (mask >>> 8).setWidth 8)]
    { s with irqmask := mask }

def picenable (irq : ℕ) (s : PicState) : PicState :=
  picsetmask (s.irqmask &&& ~~~((1 : BitVec 16) <<< irq)) s

/-- `__i686_picinit`. -/
def i686Picinit (s : PicState) : PicState :=
  let s := outbs [(ioPic1 + 1, 0xff), (ioPic2 + 1, 0xff),
    (ioPic1, 0x11), (ioPic1 + 1, BitVec.ofNat 8 tIrq0), (ioPic1 + 1, (1 : BitVec 8) <<< irqSlave),
    (ioPic1 + 1, 0x3),
    (ioPic2, 0x11), (ioPic2 + 1, BitVec.ofNat 8 (tIrq0 + 8)),
    (ioPic2 + 1, BitVec.ofNat 8 irqSlave), (ioPic2 + 1, 0x3),
    (ioPic1, 0x68), (ioPic1, 0x0a), (ioPic2, 0x68), (ioPic2, 0x0a)] s
  if s.irqmask ≠ 0xffff then picsetmask s.irqmask s else s

/-- `__i686_piceoi`. -/
def i686Piceoi (irq : ℕ) (s : PicState) : PicState :=
  let s := if irq ≥ 8 then outb ioPic2 picEoi s else s
  outb ioPic1 picEoi s

/-- `__i686_timerinit`. -/
def i686Timerinit (s : PicState) : PicState :=
  let time := timerDiv 50
  let s := outb timerMode (0x00 ||| 0x04 ||| 0x30) s
  let s := outb ioTimer1 (BitVec.ofNat 8 (time % 256)) s
  let s := outb ioTimer1 (BitVec.ofNat 8 (time / 256)) s
  picenable irqTimer s

/-- The value of `irqmask` at boot. -/
def bootIrqmask : BitVec 16 :=
  0xffff &&& ~~~((1 : BitVec 16) <<< irqSlave)

/-- What `__i686_interrupt` calls. -/
inductive InterruptCall where
  | lapiceoi
  | piceoi (irq : ℕ)
  | switch
  deriving DecidableEq

/-- `__i686_interrupt`, from `tf->trapno`. -/
def i686Interrupt (trapno : ℕ) : List InterruptCall :=
  (if trapno ∈ [tIrq0 + irqTimer, tIrq0 + 1, tIrq0 + 4, tIrq0 + 14, tIrq0 + 7, tIrq0 + 31] then
    [.lapiceoi] else []) ++ [.piceoi trapno] ++ if trapno = tIrq0 + irqTimer then [.switch] else []

/-- The controllers behind the calls of `__i686_interrupt`. -/
def i686InterruptPics (trapno : ℕ) (s : PicState) : PicState :=
  (i686Interrupt trapno).foldl (fun s call => match call with
    | .piceoi irq => i686Piceoi irq s
    | .lapiceoi => s
    | .switch => s) s

/-- What happens to the controllers: a line is enabled, the timer is set up, a line requests an
interrupt, which `__i686_interrupt` services if the controllers let it through, or the processor
traps. -/
inductive PicEvent where
  | enable (irq : ℕ)
  | timerinit
  | request (irq : ℕ)
  | trap (trapno : ℕ)
  deriving DecidableEq

def PicEvent.perform (event : PicEvent) (s : PicState) : PicState :=
  match event with
  | .enable irq => picenable irq s
  | .timerinit => i686Timerinit s
  | .request irq =>
      match s.pics.acknowledge irq with
      | none => s
      | some (vector, pics) => i686InterruptPics vector.toNat { s with pics := pics }
  | .trap trapno => i686InterruptPics trapno s

def PicEvent.performAll (events : List PicEvent) (s : PicState) : PicState :=
  events.foldl (fun s event => event.perform s) s

/-- The lines that some events enable. -/
def PicEvent.lines (events : List PicEvent) : List ℕ :=
  events.filterMap fun event => match event with
    | .enable irq => some irq
    | .timerinit => some irqTimer
    | .request _ => none
    | .trap _ => none

/-- The controllers are programmed, and their masks are `irqmask`, which has a bit for every line
that is not let through. -/
structure Programmed (enabled : List ℕ) (s : PicState) : Prop where
  irqmask : ∀ irq < 16, s.irqmask.getLsbD irq = true ↔ irq ∉ enabled
  master : s.pics.master.Automatic
  slave : s.pics.slave.Automatic
  masterImr : s.pics.master.imr = s.irqmask.setWidth 8
  slaveImr : s.pics.slave.imr = (s.irqmask >>> 8).setWidth 8
  masterBase : s.pics.master.vectorBase = BitVec.ofNat 8 tIrq0
  slaveBase : s.pics.slave.vectorBase = BitVec.ofNat 8 (tIrq0 + 8)
  masterCascade : s.pics.master.cascade = (1 : BitVec 8) <<< irqSlave
  slaveCascade : s.pics.slave.cascade = BitVec.ofNat 8 irqSlave
  slaveLine : irqSlave ∈ enabled

section Init

theorem i686Picinit_programmed (s : PicState) (isBoot : s.irqmask = bootIrqmask) :
    Programmed [irqSlave] (i686Picinit s) := by
  rcases s with ⟨irqmask, ⟨master, slave⟩, timer⟩
  change irqmask = bootIrqmask at isBoot
  subst isBoot
  have isInit : i686Picinit ⟨bootIrqmask, ⟨master, slave⟩, timer⟩ = ⟨bootIrqmask,
      ⟨{ imr := bootIrqmask.setWidth 8, isr := 0, vectorBase := BitVec.ofNat 8 tIrq0,
         cascade := (1 : BitVec 8) <<< irqSlave, autoEoi := true, specialMask := true,
         single := false, needsIcw4 := true, expects := .nothing },
       { imr := (bootIrqmask >>> 8).setWidth 8, isr := 0,
         vectorBase := BitVec.ofNat 8 (tIrq0 + 8), cascade := BitVec.ofNat 8 irqSlave,
         autoEoi := true, specialMask := true, single := false, needsIcw4 := true,
         expects := .nothing }⟩, timer⟩ := rfl
  have boot : ∀ irq < 16, bootIrqmask.getLsbD irq = true ↔ irq ∉ [irqSlave] := by decide
  rw [isInit]
  exact ⟨boot, ⟨rfl, rfl, rfl⟩, ⟨rfl, rfl, rfl⟩, rfl, rfl, rfl, rfl, rfl, rfl,
    List.mem_singleton.mpr rfl⟩

end Init

namespace Programmed

variable {enabled : List ℕ} {s : PicState}

theorem congr {other : List ℕ} (programmed : Programmed enabled s)
    (same : ∀ irq, irq ∈ other ↔ irq ∈ enabled) : Programmed other s where
  irqmask := fun irq less => (programmed.irqmask irq less).trans (not_congr (same irq)).symm
  master := programmed.master
  slave := programmed.slave
  masterImr := programmed.masterImr
  slaveImr := programmed.slaveImr
  masterBase := programmed.masterBase
  slaveBase := programmed.slaveBase
  masterCascade := programmed.masterCascade
  slaveCascade := programmed.slaveCascade
  slaveLine := (same irqSlave).mpr programmed.slaveLine

theorem i686Piceoi (programmed : Programmed enabled s) (irq : ℕ) :
    i686Piceoi irq s = s := by
  have master := programmed.master.endOfInterrupt
  have slave := programmed.slave.endOfInterrupt
  have toSlave : outb ioPic2 picEoi s = s := by
    change { s with pics.slave := s.pics.slave.command 0x20 } = s
    rw [slave]
  have toMaster : outb ioPic1 picEoi s = s := by
    change { s with pics.master := s.pics.master.command 0x20 } = s
    rw [master]
  rw [Rkernel.i686Piceoi, toSlave, ite_self, toMaster]

/-- No trap disturbs the controllers. -/
theorem i686InterruptPics (programmed : Programmed enabled s) (trapno : ℕ) :
    i686InterruptPics trapno s = s := by
  have eoi := programmed.i686Piceoi trapno
  rw [Rkernel.i686InterruptPics, i686Interrupt, List.foldl_append, List.foldl_append]
  split
  · split
    · exact eoi
    · exact eoi
  · split
    · exact eoi
    · exact eoi

theorem picenable (programmed : Programmed enabled s) (irq : ℕ) :
    Programmed (irq :: enabled) (picenable irq s) := by
  have master := programmed.master.setMask
    ((s.irqmask &&& ~~~((1 : BitVec 16) <<< irq)).setWidth 8)
  have slave := programmed.slave.setMask
    (((s.irqmask &&& ~~~((1 : BitVec 16) <<< irq)) >>> 8).setWidth 8)
  have isEnabled : Rkernel.picenable irq s = ⟨s.irqmask &&& ~~~((1 : BitVec 16) <<< irq),
      ⟨{ s.pics.master with imr := (s.irqmask &&& ~~~((1 : BitVec 16) <<< irq)).setWidth 8 },
        { s.pics.slave with
          imr := ((s.irqmask &&& ~~~((1 : BitVec 16) <<< irq)) >>> 8).setWidth 8 }⟩, s.timer⟩ := by
    rw [← master, ← slave]
    rfl
  rw [isEnabled]
  refine ⟨?_, ⟨programmed.master.autoEoi, programmed.master.isr, programmed.master.expects⟩,
    ⟨programmed.slave.autoEoi, programmed.slave.isr, programmed.slave.expects⟩, rfl, rfl,
    programmed.masterBase, programmed.slaveBase, programmed.masterCascade,
    programmed.slaveCascade, List.mem_cons_of_mem _ programmed.slaveLine⟩
  intro line less
  have before := programmed.irqmask line less
  have bit : ((1 : BitVec 16) <<< irq).getLsbD line = decide (line = irq) := by
    rw [BitVec.getLsbD_shiftLeft]
    rcases Nat.lt_trichotomy line irq with below | isLine | above
    · simp [below, Nat.ne_of_lt below]
    · subst isLine
      simp [less]
    · have notBelow : ¬line < irq := Nat.not_lt_of_gt above
      have notFirst : line - irq ≠ 0 := Nat.sub_ne_zero_of_lt above
      simp [less, notBelow, Nat.ne_of_gt above, BitVec.getLsbD_one, notFirst]
  rw [BitVec.getLsbD_and, BitVec.getLsbD_not, bit, List.mem_cons, not_or, ← before]
  simp [less]
  exact and_comm

/-- The ports of the timer are not the ones of the controllers. -/
theorem timerinit (programmed : Programmed enabled s) :
    Programmed (irqTimer :: enabled) (i686Timerinit s) := by
  have onlyTimer : ∃ timer,
      i686Timerinit s = Rkernel.picenable irqTimer { s with timer := timer } :=
    ⟨_, rfl⟩
  rcases onlyTimer with ⟨timer, isInit⟩
  rw [isInit]
  exact @picenable enabled { s with timer := timer } ⟨programmed.irqmask, programmed.master,
    programmed.slave, programmed.masterImr, programmed.slaveImr, programmed.masterBase,
    programmed.slaveBase, programmed.masterCascade, programmed.slaveCascade,
    programmed.slaveLine⟩ irqTimer

theorem acknowledge_kept (programmed : Programmed enabled s) {irq : ℕ} {vector : BitVec 8}
    {pics : Pair} (answer : s.pics.acknowledge irq = some (vector, pics)) : pics = s.pics := by
  rw [Pair.acknowledge, programmed.master.acknowledge, programmed.master.acknowledge,
    programmed.slave.acknowledge] at answer
  split at answer
  · split at answer
    · contradiction
    · split at answer
      · contradiction
      · rcases answer
        rfl
  · split at answer
    · split at answer
      · contradiction
      · split at answer
        · contradiction
        · rcases answer
          rfl
    · contradiction

/-- A line interrupts when it is enabled, with its own vector. -/
theorem acknowledge (programmed : Programmed enabled s) {irq : ℕ} (isLine : irq < 16)
    (notSlave : irq ≠ irqSlave) :
    s.pics.acknowledge irq =
      if irq ∈ enabled then some (BitVec.ofNat 8 (tIrq0 + irq), s.pics) else none := by
  have masked := programmed.irqmask irq isLine
  have slaveOpen : s.irqmask.getLsbD irqSlave = false := by
    rw [← Bool.not_eq_true, programmed.irqmask irqSlave (by decide)]
    exact not_not_intro programmed.slaveLine
  have masterBit (line : ℕ) (less : line < 8) :
      s.pics.master.imr.getLsbD line = s.irqmask.getLsbD line := by
    rw [programmed.masterImr, BitVec.getLsbD_setWidth]
    simp [less]
  have vector : (irq < 8 → BitVec.ofNat 8 tIrq0 ||| BitVec.ofNat 8 irq =
        BitVec.ofNat 8 (tIrq0 + irq)) ∧
      (8 ≤ irq → BitVec.ofNat 8 (tIrq0 + 8) ||| BitVec.ofNat 8 (irq - 8) =
        BitVec.ofNat 8 (tIrq0 + irq)) := by
    have lines : ∀ irq < 16, (irq < 8 → BitVec.ofNat 8 tIrq0 ||| BitVec.ofNat 8 irq =
          BitVec.ofNat 8 (tIrq0 + irq)) ∧
        (8 ≤ irq → BitVec.ofNat 8 (tIrq0 + 8) ||| BitVec.ofNat 8 (irq - 8) =
          BitVec.ofNat 8 (tIrq0 + irq)) := by
      decide
    exact lines irq isLine
  have answer (value : BitVec 8 × Pair) :
      (if s.irqmask.getLsbD irq then none else some value) =
        if irq ∈ enabled then some value else none := by
    by_cases isEnabled : irq ∈ enabled
    · rw [if_pos isEnabled, if_neg fun isMasked => masked.mp isMasked isEnabled]
    · rw [if_neg isEnabled, if_pos (masked.mpr isEnabled)]
  rw [← answer, Pair.acknowledge, programmed.master.acknowledge, programmed.master.acknowledge,
    programmed.slave.acknowledge, programmed.masterCascade, programmed.slaveCascade,
    programmed.masterBase, programmed.slaveBase]
  by_cases isMaster : irq < 8
  · have noSlave : ∀ irq < 8, irq ≠ irqSlave →
        ((1 : BitVec 8) <<< irqSlave).getLsbD irq = false := by
      decide
    rw [if_pos isMaster, noSlave irq isMaster notSlave, vector.1 isMaster, masterBit irq isMaster]
    cases s.irqmask.getLsbD irq with
    | false => rfl
    | true => rfl
  · have slaveLine : (BitVec.ofNat 8 irqSlave).toNat = irqSlave := rfl
    have hasSlave : ((1 : BitVec 8) <<< irqSlave).getLsbD irqSlave = true := by decide
    have slaveBit : s.pics.slave.imr.getLsbD (irq - 8) = s.irqmask.getLsbD irq := by
      have sum : 8 + (irq - 8) = irq := by omega
      have less : irq - 8 < 8 := by omega
      rw [programmed.slaveImr, BitVec.getLsbD_setWidth, BitVec.getLsbD_ushiftRight, sum]
      simp [less]
    rw [if_neg isMaster, slaveLine, hasSlave, masterBit irqSlave (by decide), slaveOpen, slaveBit,
      vector.2 (Nat.le_of_not_lt isMaster)]
    cases s.irqmask.getLsbD irq with
    | false => rfl
    | true => rfl

theorem perform (programmed : Programmed enabled s) (event : PicEvent) :
    Programmed (enabled ++ PicEvent.lines [event]) (event.perform s) := by
  cases event with
  | enable irq =>
      apply (programmed.picenable irq).congr
      intro line
      rw [List.mem_append, List.mem_cons, or_comm]
      exact or_congr List.mem_singleton Iff.rfl
  | timerinit =>
      apply programmed.timerinit.congr
      intro line
      rw [List.mem_append, List.mem_cons, or_comm]
      exact or_congr List.mem_singleton Iff.rfl
  | request irq =>
      rw [PicEvent.perform]
      have kept : Programmed (enabled ++ []) s := (List.append_nil enabled).symm ▸ programmed
      split
      · exact kept
      · next vector pics answer =>
          rw [programmed.acknowledge_kept answer, programmed.i686InterruptPics]
          exact kept
  | trap trapno =>
      rw [PicEvent.perform, programmed.i686InterruptPics]
      exact (List.append_nil enabled).symm ▸ programmed

theorem performAll (programmed : Programmed enabled s) (events : List PicEvent) :
    Programmed (enabled ++ PicEvent.lines events) (PicEvent.performAll events s) := by
  induction events generalizing enabled s with
  | nil => exact (List.append_nil enabled).symm ▸ programmed
  | cons event events ih =>
      have later := ih (programmed.perform event)
      rw [List.append_assoc] at later
      have lines : PicEvent.lines [event] ++ PicEvent.lines events =
          PicEvent.lines (event :: events) :=
        (List.filterMap_append).symm
      rw [lines] at later
      exact later

end Programmed

/-- From `__i686_picinit` on, whatever lines are enabled, whatever requests and traps come, a line
interrupts if and only if it has been enabled, and its vector is the one behind `T_IRQ0`. -/
theorem PicEvent.performAll_acknowledge (pics : Pair) (timer : List (ℕ × BitVec 8))
    (events : List PicEvent) {irq : ℕ} (isLine : irq < 16) (notSlave : irq ≠ irqSlave) :
    let s := performAll events (i686Picinit ⟨bootIrqmask, pics, timer⟩)
    s.pics.acknowledge irq =
      if irq ∈ lines events then some (BitVec.ofNat 8 (tIrq0 + irq), s.pics) else none := by
  have programmed := (i686Picinit_programmed ⟨bootIrqmask, pics, timer⟩ rfl).performAll events
  refine (programmed.acknowledge isLine notSlave).trans (if_congr ?_ rfl rfl)
  rw [List.singleton_append, List.mem_cons]
  exact or_iff_right notSlave

theorem PicEvent.performAll_acknowledge_timer :
    let s := performAll [.timerinit, .request 4, .trap 14, .request irqTimer]
      (i686Picinit ⟨bootIrqmask, ⟨⟨1, 2, 3, 4, false, false, true, true, .icw3⟩,
        ⟨5, 6, 7, 8, true, true, false, false, .nothing⟩⟩, []⟩)
    s.pics.acknowledge irqTimer = some (BitVec.ofNat 8 32, s.pics) := by
  have answered := @performAll_acknowledge ⟨⟨1, 2, 3, 4, false, false, true, true, .icw3⟩,
    ⟨5, 6, 7, 8, true, true, false, false, .nothing⟩⟩ []
    [.timerinit, .request 4, .trap 14, .request irqTimer] irqTimer (by decide) (by decide)
  exact answered.trans (if_pos (by decide))

end Rkernel
