import Mathlib.Logic.Function.Basic
import Rkernel.Lib.Memory
import Rkernel.Lib.Word

/-!
# A fragment of IA-32

The registers of the 32-bit processor, the stack, the instructions of straight-line code that
saves and restores them, and what the processor itself does at an interrupt and at `iret`.

`Pushed` says that some words have been pushed and nothing else in the machine's frame has
changed. It is followed through the code that pushes. The code behind a call pops the words from
a memory that may differ outside of the caller's frame; this is what `Returns` says, the calling
convention as its caller sees it.
-/

namespace Ia32

abbrev Word := BitVec 32

inductive Reg where
  | eax | ecx | edx | ebx | esp | ebp | esi | edi
  deriving DecidableEq

inductive Seg where
  | es | cs | ss | ds | fs | gs
  deriving DecidableEq

@[ext]
structure Machine where
  reg : Reg → Word
  seg : Seg → BitVec 16
  eip : Word
  eflags : Word
  memory : Memory

namespace Machine

def setReg (r : Reg) (value : Word) (m : Machine) : Machine :=
  { m with reg := Function.update m.reg r value }

def setSeg (s : Seg) (value : BitVec 16) (m : Machine) : Machine :=
  { m with seg := Function.update m.seg s value }

/-- The address of the top of the stack. -/
def sp (m : Machine) : ℕ :=
  (m.reg .esp).toNat

def push (value : Word) (m : Machine) : Machine :=
  let esp := m.reg .esp - 4
  { m.setReg .esp esp with memory := m.memory.write32 esp.toNat value.toNat }

/-- A word of the stack, from the top on. -/
def word (m : Machine) (k : ℕ) : Word :=
  BitVec.ofNat 32 (m.memory.read32 (m.reg .esp + BitVec.ofNat 32 (4 * k)).toNat)

/-- The stack pointer goes back over some words. -/
def dropWords (count : ℕ) (m : Machine) : Machine :=
  m.setReg .esp (m.reg .esp + BitVec.ofNat 32 (4 * count))

end Machine

/-- The instructions of straight-line code, with the immediate and the destination last. -/
inductive Instr where
  | pushImm (value : Word)
  | pushReg (r : Reg)
  | pushSeg (s : Seg)
  | pushal
  | popReg (r : Reg)
  | popSeg (s : Seg)
  | popal
  | movImm16 (value : BitVec 16) (r : Reg)
  | movToSeg (r : Reg) (s : Seg)
  | load (base : Reg) (offset : Word) (r : Reg)
  | store (r base : Reg) (offset : Word)
  | loadSeg (s : Seg) (offset : Word) (r : Reg)
  | addImm (value : Word) (r : Reg)
  | ret
  deriving DecidableEq

/-- The arithmetic flags of a sum: carry, parity, adjust, zero, sign and overflow. -/
def sumFlags (x y eflags : Word) : Word :=
  let sum := x + y
  let bit (position : ℕ) (set : Bool) : Word := if set then 1 <<< position else 0
  let ones := ((List.range 8).filter fun i => sum.getLsbD i).length
  (eflags &&& ~~~0x8d5) ||| bit 0 (2 ^ 32 ≤ x.toNat + y.toNat) ||| bit 2 (ones % 2 = 0) |||
    bit 4 (16 ≤ x.toNat % 16 + y.toNat % 16) ||| bit 6 (sum = 0) ||| bit 7 sum.msb |||
    bit 11 (x.msb = y.msb && sum.msb ≠ x.msb)

/-- One instruction, with the base addresses of the segments by their selectors. -/
def exec (base : BitVec 16 → Word) : Instr → Machine → Machine
  | .pushImm value, m => m.push value
  | .pushReg r, m => m.push (m.reg r)
  | .pushSeg s, m => m.push ((m.seg s).setWidth 32)
  | .pushal, m =>
      [Reg.eax, .ecx, .edx, .ebx, .esp, .ebp, .esi, .edi].foldl
        (fun pushed r => pushed.push (m.reg r)) m
  | .popReg r, m => (m.dropWords 1).setReg r (m.word 0)
  | .popSeg s, m => (m.dropWords 1).setSeg s ((m.word 0).setWidth 16)
  | .popal, m =>
      (((((((m.dropWords 8).setReg .edi (m.word 0)).setReg .esi (m.word 1)).setReg .ebp
        (m.word 2)).setReg .ebx (m.word 4)).setReg .edx (m.word 5)).setReg .ecx
        (m.word 6)).setReg .eax (m.word 7)
  | .movImm16 value r, m => m.setReg r ((m.reg r &&& 0xffff0000) ||| value.setWidth 32)
  | .movToSeg r s, m => m.setSeg s ((m.reg r).setWidth 16)
  | .load b offset r, m =>
      m.setReg r (BitVec.ofNat 32 (m.memory.read32 (m.reg b + offset).toNat))
  | .store r b offset, m =>
      { m with memory := m.memory.write32 (m.reg b + offset).toNat (m.reg r).toNat }
  | .loadSeg s offset r, m =>
      m.setReg r (BitVec.ofNat 32 (m.memory.read32 (base (m.seg s) + offset).toNat))
  | .addImm value r, m =>
      { m.setReg r (m.reg r + value) with eflags := sumFlags (m.reg r) value m.eflags }
  | .ret, m => { m.dropWords 1 with eip := m.word 0 }

def run (base : BitVec 16 → Word) (code : List Instr) (m : Machine) : Machine :=
  code.foldl (fun m instr => exec base instr m) m

/-- An interrupt gate. -/
structure Gate where
  selector : BitVec 16
  offset : Word

/-- The flags that an interrupt gate clears: TF, IF, NT, RF and VM. -/
def gateFlags : Word := 0x34300

/-- The privilege level of a code selector. -/
def privilege (selector : BitVec 16) : BitVec 16 :=
  selector &&& 3

/-- The words that every interrupt pushes, with the error code, if there is one. -/
def pushFrame (errorCode : Option Word) (m entered : Machine) : Machine :=
  let framed := ((entered.push m.eflags).push ((m.seg .cs).setWidth 32)).push m.eip
  match errorCode with
  | none => framed
  | some code => framed.push code

/-- An interrupt through a gate to level 0, with the stack for that level. -/
def deliver (gate : Gate) (ss0 : BitVec 16) (esp0 : Word) (errorCode : Option Word) (m : Machine) :
    Machine :=
  let entered :=
    if privilege (m.seg .cs) = 0 then m
    else (((m.setSeg .ss ss0).setReg .esp esp0).push ((m.seg .ss).setWidth 32)).push (m.reg .esp)
  { (pushFrame errorCode m entered).setSeg .cs gate.selector with
    eip := gate.offset, eflags := m.eflags &&& ~~~gateFlags }

/-- The stack pointer from which the frame of an interrupt is pushed. -/
def interruptStack (esp0 : Word) (m : Machine) : Word :=
  if privilege (m.seg .cs) = 0 then m.reg .esp else esp0

/-- What `iret` pops: the frame of an interrupt without its error code. -/
def interruptFrame (m : Machine) : List Word :=
  m.eip :: (m.seg .cs).setWidth 32 :: m.eflags ::
    if privilege (m.seg .cs) = 0 then [] else [m.reg .esp, (m.seg .ss).setWidth 32]

/-- `iret` at level 0. -/
def iret (m : Machine) : Machine :=
  let cs := (m.word 1).setWidth 16
  let popped := { m.dropWords 3 with eip := m.word 0, eflags := m.word 2 }.setSeg .cs cs
  if privilege cs = 0 then popped
  else (popped.setSeg .ss ((m.word 4).setWidth 16)).setReg .esp (m.word 3)

/-- Words are in memory, one behind the other. -/
def WordsAt (memory : Memory) (address : ℕ) (words : List Word) : Prop :=
  ∀ (k : ℕ) (inside : k < words.length), memory.read32 (address + 4 * k) = (words[k]).toNat

/-- The stack holds some words from its top on, up to an address. -/
structure Stacked (bottom : ℕ) (m : Machine) (words : List Word) : Prop where
  fits : bottom < 2 ^ 32
  sp : m.sp + 4 * words.length = bottom
  words : WordsAt m.memory m.sp words

/-- Some words have been pushed, the last one first, and nothing else is written. -/
structure Pushed (before after : Machine) (words : List Word) : Prop where
  sp : after.sp + 4 * words.length = before.sp
  memory : ∀ byte, byte < after.sp ∨ before.sp ≤ byte → after.memory byte = before.memory byte
  words : WordsAt after.memory after.sp words

/-- A function has returned as the calling convention wants it, seen from its caller: the stack
up to an address is as it was, apart from the arguments of the call. -/
structure Returns (args top : ℕ) (before after : Machine) : Prop where
  reg : ∀ r ∈ [Reg.ebx, .esp, .ebp, .esi, .edi], after.reg r = before.reg r
  seg : after.seg = before.seg
  memory : ∀ byte, before.sp + args ≤ byte → byte < top → after.memory byte = before.memory byte

section Words

variable {memory other : Memory} {address : ℕ} {words more : List Word} {value : Word}

theorem wordsAt_nil : WordsAt memory address [] :=
  fun _ inside => absurd inside (Nat.not_lt_zero _)

theorem wordsAt_cons :
    WordsAt memory address (value :: words) ↔
      memory.read32 address = value.toNat ∧ WordsAt memory (address + 4) words := by
  constructor
  · intro isThere
    refine ⟨isThere 0 (Nat.zero_lt_succ _), ?_⟩
    intro k inside
    have next := isThere (k + 1) (Nat.succ_lt_succ inside)
    rwa [Nat.mul_add, Nat.mul_one, Nat.add_comm (4 * k), ← Nat.add_assoc] at next
  · rintro ⟨head, rest⟩ k inside
    cases k with
    | zero => exact head
    | succ k =>
        have next := rest k (Nat.lt_of_succ_lt_succ inside)
        rwa [Nat.add_assoc, Nat.add_comm 4] at next

theorem wordsAt_append :
    WordsAt memory address (words ++ more) ↔
      WordsAt memory address words ∧ WordsAt memory (address + 4 * words.length) more := by
  induction words generalizing address with
  | nil => exact ⟨fun isThere => ⟨wordsAt_nil, isThere⟩, fun isThere => isThere.2⟩
  | cons value words ih =>
      have next : address + 4 + 4 * words.length = address + 4 * (value :: words).length := by
        simp only [List.length_cons]
        omega
      rw [List.cons_append, wordsAt_cons, wordsAt_cons, ih, next, and_assoc]

theorem WordsAt.congr (isThere : WordsAt memory address words)
    (same : ∀ byte, address ≤ byte → byte < address + 4 * words.length →
      other byte = memory byte) : WordsAt other address words := by
  intro k inside
  rw [← isThere k inside]
  apply Memory.read32_congr
  intro byte begins ends
  exact same byte (by omega) (by omega)

end Words

namespace Machine

variable {m : Machine} {value : Word}

@[simp]
theorem setReg_reg_self (r : Reg) : (m.setReg r value).reg r = value :=
  Function.update_self ..

theorem setReg_reg_of_ne {r other : Reg} (isOther : other ≠ r) :
    (m.setReg r value).reg other = m.reg other :=
  Function.update_of_ne isOther ..

@[simp]
theorem setReg_seg (r : Reg) : (m.setReg r value).seg = m.seg :=
  rfl

@[simp]
theorem setSeg_seg_self (s : Seg) (selector : BitVec 16) : (m.setSeg s selector).seg s = selector :=
  Function.update_self ..

theorem setSeg_seg_of_ne {s other : Seg} {selector : BitVec 16} (isOther : other ≠ s) :
    (m.setSeg s selector).seg other = m.seg other :=
  Function.update_of_ne isOther ..

theorem push_reg_of_ne {r : Reg} (notEsp : r ≠ .esp) : (m.push value).reg r = m.reg r :=
  setReg_reg_of_ne notEsp

theorem dropWords_reg_of_ne {count : ℕ} {r : Reg} (notEsp : r ≠ .esp) :
    (m.dropWords count).reg r = m.reg r :=
  setReg_reg_of_ne notEsp

theorem push_sp (room : 4 ≤ m.sp) : (m.push value).sp = m.sp - 4 := by
  have four : (4 : Word).toNat = 4 := rfl
  have espLt := (m.reg .esp).isLt
  have isEsp := @setReg_reg_self m (m.reg .esp - 4) .esp
  change 4 ≤ (m.reg .esp).toNat at room
  change ((m.setReg .esp (m.reg .esp - 4)).reg .esp).toNat = (m.reg .esp).toNat - 4
  rw [isEsp, BitVec.toNat_sub, four]
  omega

theorem push_memory (room : 4 ≤ m.sp) :
    (m.push value).memory = m.memory.write32 (m.sp - 4) value.toNat := by
  rw [← @push_sp m value room]
  rfl

theorem dropWords_sp {count : ℕ} (fits : m.sp + 4 * count < 2 ^ 32) :
    (m.dropWords count).sp = m.sp + 4 * count := by
  rw [sp, dropWords, setReg_reg_self, BitVec.toNat_add, BitVec.toNat_ofNat]
  change (m.sp + 4 * count % 2 ^ 32) % 2 ^ 32 = m.sp + 4 * count
  omega

end Machine

namespace Stacked

variable {bottom : ℕ} {m other : Machine} {words : List Word} {value : Word}

/-- Only the stack pointer and the memory matter. -/
theorem congr (stacked : Stacked bottom m words) (sameEsp : other.reg .esp = m.reg .esp)
    (sameMemory : other.memory = m.memory) : Stacked bottom other words := by
  have sp : other.sp = m.sp := congrArg BitVec.toNat sameEsp
  refine ⟨stacked.fits, ?_, ?_⟩
  · rw [sp]
    exact stacked.sp
  · rw [sp, sameMemory]
    exact stacked.words

/-- The words of the stack as the instructions that pop see them. -/
theorem word_eq (stacked : Stacked bottom m words) {k : ℕ} (inside : k < words.length) :
    m.word k = words[k] := by
  have fits := stacked.fits
  have sp := stacked.sp
  have address : (m.reg .esp + BitVec.ofNat 32 (4 * k)).toNat = m.sp + 4 * k := by
    rw [BitVec.toNat_add, BitVec.toNat_ofNat]
    change (m.sp + 4 * k % 2 ^ 32) % 2 ^ 32 = m.sp + 4 * k
    omega
  rw [Machine.word, address, stacked.words k inside]
  apply BitVec.eq_of_toNat_eq
  rw [BitVec.toNat_ofNat, Nat.mod_eq_of_lt (words[k]).isLt]

theorem dropWords (stacked : Stacked bottom m words) {count : ℕ}
    (inside : count ≤ words.length) :
    Stacked bottom (m.dropWords count) (words.drop count) := by
  have fits := stacked.fits
  have whole := stacked.sp
  have sp := @Machine.dropWords_sp m count (by omega)
  refine ⟨fits, ?_, ?_⟩
  · rw [sp, List.length_drop]
    omega
  · intro k inDrop
    rw [List.length_drop] at inDrop
    have there := stacked.words (count + k) (by omega)
    rw [sp, List.getElem_drop, ← there, Nat.mul_add, Nat.add_assoc]
    rfl

variable (base : BitVec 16 → Word)

theorem popReg (stacked : Stacked bottom m (value :: words)) {r : Reg} (notEsp : r ≠ .esp) :
    Stacked bottom (exec base (.popReg r) m) words ∧
      (exec base (.popReg r) m).reg r = value := by
  have inside : 0 < (value :: words).length := Nat.zero_lt_succ _
  refine ⟨(stacked.dropWords inside).congr ?_ rfl, ?_⟩
  · exact Machine.setReg_reg_of_ne notEsp.symm
  · exact Machine.setReg_reg_self r |>.trans (stacked.word_eq inside)

theorem popReg_reg_of_ne {r kept : Reg} (isOther : kept ≠ r) (notEsp : kept ≠ .esp) :
    (exec base (.popReg r) m).reg kept = m.reg kept :=
  (Machine.setReg_reg_of_ne isOther).trans (Machine.dropWords_reg_of_ne notEsp)

theorem popSeg (stacked : Stacked bottom m (value :: words)) (s : Seg) :
    Stacked bottom (exec base (.popSeg s) m) words ∧
      (exec base (.popSeg s) m).seg = Function.update m.seg s (value.setWidth 16) := by
  have inside : 0 < (value :: words).length := Nat.zero_lt_succ _
  refine ⟨(stacked.dropWords inside).congr rfl rfl, ?_⟩
  exact congrArg (fun popped : Word => Function.update m.seg s (popped.setWidth 16))
    (stacked.word_eq inside)

theorem popal {edi esi ebp esp ebx edx ecx eax : Word}
    (stacked : Stacked bottom m (edi :: esi :: ebp :: esp :: ebx :: edx :: ecx :: eax :: words)) :
    Stacked bottom (exec base .popal m) words ∧
      (exec base .popal m).reg .edi = edi ∧ (exec base .popal m).reg .esi = esi ∧
      (exec base .popal m).reg .ebp = ebp ∧ (exec base .popal m).reg .ebx = ebx ∧
      (exec base .popal m).reg .edx = edx ∧ (exec base .popal m).reg .ecx = ecx ∧
      (exec base .popal m).reg .eax = eax := by
  have inside {k : ℕ} (less : k < 8) :
      k < (edi :: esi :: ebp :: esp :: ebx :: edx :: ecx :: eax :: words).length := by
    simp only [List.length_cons]
    omega
  refine ⟨(@dropWords bottom m _ stacked 8 (inside (k := 7) (by decide))).congr rfl rfl, ?_⟩
  exact ⟨stacked.word_eq (inside (k := 0) (by decide)),
    stacked.word_eq (inside (k := 1) (by decide)), stacked.word_eq (inside (k := 2) (by decide)),
    stacked.word_eq (inside (k := 4) (by decide)), stacked.word_eq (inside (k := 5) (by decide)),
    stacked.word_eq (inside (k := 6) (by decide)), stacked.word_eq (inside (k := 7) (by decide))⟩

theorem ret (stacked : Stacked bottom m (value :: words)) :
    Stacked bottom (exec base .ret m) words ∧ (exec base .ret m).eip = value := by
  have inside : 0 < (value :: words).length := Nat.zero_lt_succ _
  exact ⟨(stacked.dropWords inside).congr rfl rfl, stacked.word_eq inside⟩

theorem ret_reg_of_ne {kept : Reg} (notEsp : kept ≠ .esp) :
    (exec base .ret m).reg kept = m.reg kept :=
  Machine.dropWords_reg_of_ne notEsp

theorem addEsp (stacked : Stacked bottom m words) {count : ℕ} (inside : count ≤ words.length) :
    Stacked bottom (exec base (.addImm (BitVec.ofNat 32 (4 * count)) .esp) m)
      (words.drop count) :=
  (stacked.dropWords inside).congr rfl rfl

end Stacked

namespace Pushed

variable {before middle after : Machine} {words : List Word} {value : Word}

theorem refl (m : Machine) : Pushed m m [] where
  sp := rfl
  memory := fun _ _ => rfl
  words := wordsAt_nil

theorem push (pushed : Pushed before after words) (room : 4 ≤ after.sp) (value : Word) :
    Pushed before (after.push value) (value :: words) := by
  have begins := pushed.sp
  have sp := @Machine.push_sp after value room
  have written := @Machine.push_memory after value room
  refine ⟨?_, ?_, ?_⟩
  · rw [sp, List.length_cons]
    omega
  · intro byte outside
    rw [sp] at outside
    rw [written, Memory.write32_of_apart (by omega)]
    exact pushed.memory byte (by omega)
  · rw [wordsAt_cons, sp, written]
    constructor
    · rw [Memory.read32_write32_self]
      exact Nat.mod_eq_of_lt value.isLt
    · rw [Nat.sub_add_cancel room]
      apply pushed.words.congr
      intro byte above _
      exact Memory.write32_of_apart (by omega)

/-- Registers other than the stack pointer do not matter. -/
theorem congr (pushed : Pushed before middle words) (sameEsp : after.reg .esp = middle.reg .esp)
    (sameMemory : after.memory = middle.memory) : Pushed before after words := by
  have sp : after.sp = middle.sp := congrArg BitVec.toNat sameEsp
  refine ⟨?_, ?_, ?_⟩
  · rw [sp]
    exact pushed.sp
  · rw [sp, sameMemory]
    exact pushed.memory
  · rw [sp, sameMemory]
    exact pushed.words

theorem pushal (base : BitVec 16 → Word) (pushed : Pushed before middle words)
    (room : 32 ≤ middle.sp) :
    Pushed before (exec base .pushal middle)
      (middle.reg .edi :: middle.reg .esi :: middle.reg .ebp :: middle.reg .esp ::
        middle.reg .ebx :: middle.reg .edx :: middle.reg .ecx :: middle.reg .eax :: words) := by
  have begins := pushed.sp
  have step {m : Machine} {all : List Word} (sofar : Pushed before m all)
      (left : 4 * all.length < 4 * words.length + 32) (value : Word) :
      Pushed before (m.push value) (value :: all) := by
    have ends := sofar.sp
    exact sofar.push (by omega) value
  have eax := step pushed (by omega) (middle.reg .eax)
  have ecx := step eax (by simp only [List.length_cons]; omega) (middle.reg .ecx)
  have edx := step ecx (by simp only [List.length_cons]; omega) (middle.reg .edx)
  have ebx := step edx (by simp only [List.length_cons]; omega) (middle.reg .ebx)
  have esp := step ebx (by simp only [List.length_cons]; omega) (middle.reg .esp)
  have ebp := step esp (by simp only [List.length_cons]; omega) (middle.reg .ebp)
  have esi := step ebp (by simp only [List.length_cons]; omega) (middle.reg .esi)
  exact step esi (by simp only [List.length_cons]; omega) (middle.reg .edi)

/-- What was pushed is on the stack. -/
theorem stacked (pushed : Pushed before after words) : Stacked before.sp after words :=
  ⟨(before.reg .esp).isLt, pushed.sp, pushed.words⟩

end Pushed

namespace Returns

variable {args top bottom : ℕ} {before after : Machine} {words : List Word}

theorem sp (returns : Returns args top before after) : after.sp = before.sp :=
  congrArg BitVec.toNat (returns.reg .esp (by decide))

/-- The words of the caller's frame are still on the stack behind a call. -/
theorem stacked (returns : Returns args top before after) {arguments : List Word}
    (isArgs : args = 4 * arguments.length)
    (stacked : Stacked bottom before (arguments ++ words)) (inStack : bottom ≤ top) :
    Stacked bottom (after.dropWords arguments.length) words := by
  have fits := stacked.fits
  have whole := stacked.sp
  rw [List.length_append] at whole
  have sp := @Machine.dropWords_sp after arguments.length (by rw [returns.sp]; omega)
  have dropped := stacked.dropWords (List.length_append ▸ Nat.le_add_right arguments.length _)
  rw [List.drop_left] at dropped
  have before_sp := @Machine.dropWords_sp before arguments.length (by omega)
  refine ⟨fits, ?_, ?_⟩
  · rw [sp, returns.sp]
    omega
  · have there := dropped.words
    rw [before_sp] at there
    rw [sp, returns.sp]
    apply there.congr
    intro byte above below
    exact returns.memory byte (by omega) (by omega)

end Returns

theorem run_append (base : BitVec 16 → Word) (code more : List Instr) (m : Machine) :
    run base (code ++ more) m = run base more (run base code m) :=
  List.foldl_append

/-- A selector that goes through the lower half of a register. -/
theorem movImm16_setWidth (base : BitVec 16 → Word) (value : BitVec 16) (r : Reg) (m : Machine) :
    ((exec base (.movImm16 value r) m).reg r).setWidth 16 = value := by
  have isMask : BitVec.IsLowMask (0xffff : Word) 16 := rfl
  have isHigh : (0xffff0000 : Word) = ~~~0xffff := by decide
  rw [exec, Machine.setReg_reg_self, isHigh]
  apply BitVec.eq_of_getLsbD_eq
  intro i inHalf
  rw [BitVec.getLsbD_setWidth, BitVec.getLsbD_or, BitVec.getLsbD_and, BitVec.getLsbD_not,
    isMask.getLsbD, BitVec.getLsbD_setWidth]
  simp [inHalf]
  omega

section Interrupts

variable {before m entered : Machine} {words : List Word} {ss0 : BitVec 16} {esp0 : Word}

theorem pushFrame_pushed (errorCode : Option Word) (m : Machine)
    (pushed : Pushed before entered words) (room : 16 ≤ entered.sp) :
    Pushed before (pushFrame errorCode m entered)
      (errorCode.toList ++ m.eip :: (m.seg .cs).setWidth 32 :: m.eflags :: words) := by
  have begins := pushed.sp
  have step {after : Machine} {all : List Word} (sofar : Pushed before after all)
      (left : 4 * all.length < 4 * words.length + 16) (value : Word) :
      Pushed before (after.push value) (value :: all) := by
    have ends := sofar.sp
    exact sofar.push (by omega) value
  have eflags := step pushed (by omega) m.eflags
  have cs := step eflags (by simp only [List.length_cons]; omega) ((m.seg .cs).setWidth 32)
  have eip := step cs (by simp only [List.length_cons]; omega) m.eip
  cases errorCode with
  | none => exact eip
  | some code => exact step eip (by simp only [List.length_cons]; omega) code

theorem pushFrame_reg (errorCode : Option Word) (m : Machine) {r : Reg} (notEsp : r ≠ .esp) :
    (pushFrame errorCode m entered).reg r = entered.reg r := by
  have framed : (((entered.push m.eflags).push ((m.seg .cs).setWidth 32)).push m.eip).reg r =
      entered.reg r := by
    rw [Machine.push_reg_of_ne notEsp, Machine.push_reg_of_ne notEsp,
      Machine.push_reg_of_ne notEsp]
  cases errorCode with
  | none => exact framed
  | some code => exact (Machine.push_reg_of_ne notEsp).trans framed

theorem pushFrame_seg (errorCode : Option Word) (m : Machine) :
    (pushFrame errorCode m entered).seg = entered.seg := by
  cases errorCode with
  | none => rfl
  | some code => rfl

/-- An interrupt pushes its frame on the stack for it. -/
theorem deliver_pushed (gate : Gate) (ss0 : BitVec 16) (errorCode : Option Word)
    (room : 24 ≤ (interruptStack esp0 m).toNat) :
    Pushed (m.setReg .esp (interruptStack esp0 m)) (deliver gate ss0 esp0 errorCode m)
      (errorCode.toList ++ interruptFrame m) := by
  have isStack : (m.setReg .esp (interruptStack esp0 m)).reg .esp = interruptStack esp0 m :=
    Machine.setReg_reg_self _
  by_cases inner : privilege (m.seg .cs) = 0
  · rw [interruptStack, if_pos inner] at room isStack ⊢
    have start : Pushed (m.setReg .esp (m.reg .esp)) m [] :=
      (Pushed.refl _).congr isStack.symm rfl
    have framed := pushFrame_pushed errorCode m start (Nat.le_trans (by decide) room)
    rw [deliver, interruptFrame, if_pos inner, if_pos inner]
    exact framed.congr rfl rfl
  · rw [interruptStack, if_neg inner] at room isStack ⊢
    have start : Pushed (m.setReg .esp esp0) ((m.setSeg .ss ss0).setReg .esp esp0) [] :=
      (Pushed.refl _).congr rfl rfl
    have isSp : ((m.setSeg .ss ss0).setReg .esp esp0).sp = esp0.toNat :=
      congrArg BitVec.toNat (Machine.setReg_reg_self _)
    have ss := start.push (by omega) ((m.seg .ss).setWidth 32)
    have ssSp := ss.sp
    have startSp := start.sp
    simp only [List.length_cons, List.length_nil] at ssSp startSp
    have esp := ss.push (by omega) (m.reg .esp)
    have espSp := esp.sp
    simp only [List.length_cons, List.length_nil] at espSp
    have framed := pushFrame_pushed errorCode m esp (by omega)
    rw [deliver, interruptFrame, if_neg inner, if_neg inner]
    exact framed.congr rfl rfl

theorem deliver_reg (gate : Gate) (errorCode : Option Word) {r : Reg} (notEsp : r ≠ .esp) :
    (deliver gate ss0 esp0 errorCode m).reg r = m.reg r := by
  by_cases inner : privilege (m.seg .cs) = 0
  · rw [deliver, if_pos inner]
    exact pushFrame_reg errorCode m notEsp
  · rw [deliver, if_neg inner]
    refine (pushFrame_reg errorCode m notEsp).trans ?_
    rw [Machine.push_reg_of_ne notEsp, Machine.push_reg_of_ne notEsp,
      Machine.setReg_reg_of_ne notEsp]
    rfl

theorem deliver_seg (gate : Gate) (errorCode : Option Word) :
    (deliver gate ss0 esp0 errorCode m).seg = Function.update
      (if privilege (m.seg .cs) = 0 then m.seg else Function.update m.seg .ss ss0)
      .cs gate.selector := by
  have cs (entered : Machine) : Function.update (pushFrame errorCode m entered).seg .cs
      gate.selector = Function.update entered.seg .cs gate.selector := by
    rw [pushFrame_seg]
  by_cases inner : privilege (m.seg .cs) = 0
  · rw [deliver, if_pos inner, if_pos inner]
    exact cs m
  · rw [deliver, if_neg inner, if_neg inner]
    exact cs _

theorem deliver_seg_of_ne (gate : Gate) (errorCode : Option Word) {s : Seg} (notCs : s ≠ .cs)
    (notSs : s ≠ .ss) : (deliver gate ss0 esp0 errorCode m).seg s = m.seg s := by
  rw [deliver_seg, Function.update_of_ne notCs]
  by_cases inner : privilege (m.seg .cs) = 0
  · rw [if_pos inner]
  · rw [if_neg inner, Function.update_of_ne notSs]

theorem interruptFrame_length (m : Machine) : (interruptFrame m).length ≤ 5 := by
  rw [interruptFrame]
  split
  · simp
  · simp

theorem selector_roundtrip (selector : BitVec 16) : (selector.setWidth 32).setWidth 16 = selector :=
  (BitVec.setWidth_setWidth_of_le selector (by decide)).trans (BitVec.setWidth_eq selector)

theorem iret_inner (inner : privilege (m.seg .cs) = 0)
    (stacked : Stacked m.sp entered [m.eip, (m.seg .cs).setWidth 32, m.eflags])
    (reg : ∀ r, r ≠ .esp → entered.reg r = m.reg r)
    (seg : ∀ s, s ≠ .cs → entered.seg s = m.seg s) :
    iret entered = { m with memory := entered.memory } := by
  have eip : entered.word 0 = m.eip := stacked.word_eq (by simp)
  have eflags : entered.word 2 = m.eflags := stacked.word_eq (by simp)
  have csWord : entered.word 1 = (m.seg .cs).setWidth 32 := stacked.word_eq (by simp)
  have isEsp : (entered.dropWords 3).reg .esp = m.reg .esp :=
    BitVec.eq_of_toNat_eq (stacked.dropWords (Nat.le_refl 3)).sp
  rw [iret, csWord, selector_roundtrip, if_pos inner, eip, eflags]
  ext1
  · funext r
    by_cases esp : r = .esp
    · rw [esp]
      exact isEsp
    · change (entered.dropWords 3).reg r = m.reg r
      exact (Machine.dropWords_reg_of_ne esp).trans (reg r esp)
  · funext s
    by_cases cs : s = .cs
    · rw [cs]
      exact Machine.setSeg_seg_self ..
    · exact (Machine.setSeg_seg_of_ne cs).trans (seg s cs)
  · rfl
  · rfl
  · rfl

theorem iret_outer {bottom : ℕ} (outer : privilege (m.seg .cs) ≠ 0)
    (stacked : Stacked bottom entered [m.eip, (m.seg .cs).setWidth 32, m.eflags, m.reg .esp,
      (m.seg .ss).setWidth 32])
    (reg : ∀ r, r ≠ .esp → entered.reg r = m.reg r)
    (seg : ∀ s, s ≠ .cs → s ≠ .ss → entered.seg s = m.seg s) :
    iret entered = { m with memory := entered.memory } := by
  have eip : entered.word 0 = m.eip := stacked.word_eq (by simp)
  have eflags : entered.word 2 = m.eflags := stacked.word_eq (by simp)
  have csWord : entered.word 1 = (m.seg .cs).setWidth 32 := stacked.word_eq (by simp)
  have esp : entered.word 3 = m.reg .esp := stacked.word_eq (by simp)
  have ssWord : entered.word 4 = (m.seg .ss).setWidth 32 := stacked.word_eq (by simp)
  rw [iret, csWord, selector_roundtrip, if_neg outer, eip, eflags, esp, ssWord,
    selector_roundtrip]
  ext1
  · funext r
    by_cases isEsp : r = .esp
    · rw [isEsp]
      exact Machine.setReg_reg_self _
    · refine (Machine.setReg_reg_of_ne isEsp).trans ?_
      change (entered.dropWords 3).reg r = m.reg r
      exact (Machine.dropWords_reg_of_ne isEsp).trans (reg r isEsp)
  · funext s
    rw [Machine.setReg_seg]
    by_cases isSs : s = .ss
    · rw [isSs]
      exact Machine.setSeg_seg_self ..
    · refine (Machine.setSeg_seg_of_ne isSs).trans ?_
      by_cases cs : s = .cs
      · rw [cs]
        exact Machine.setSeg_seg_self ..
      · exact (Machine.setSeg_seg_of_ne cs).trans (seg s cs isSs)
  · rfl
  · rfl
  · rfl

/-- `iret` undoes an interrupt: it goes back to where the interrupt came, when everything that
is not in the frame has been put back. -/
theorem iret_frame
    (stacked : Stacked (interruptStack esp0 m).toNat entered (interruptFrame m))
    (reg : ∀ r, r ≠ .esp → entered.reg r = m.reg r)
    (seg : ∀ s, s ≠ .cs → s ≠ .ss → entered.seg s = m.seg s)
    (ss : privilege (m.seg .cs) = 0 → entered.seg .ss = m.seg .ss) :
    iret entered = { m with memory := entered.memory } := by
  by_cases inner : privilege (m.seg .cs) = 0
  · rw [interruptStack, interruptFrame, if_pos inner, if_pos inner] at stacked
    apply iret_inner inner stacked reg
    intro s notCs
    by_cases isSs : s = .ss
    · rw [isSs]
      exact ss inner
    · exact seg s notCs isSs
  · rw [interruptFrame, if_neg inner] at stacked
    exact iret_outer inner stacked reg seg

end Interrupts

end Ia32
