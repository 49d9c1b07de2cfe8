import Rkernel.Arch.Gdt

/-!
# Interrupts

The stubs of the vectors (`intvec.s`) and `__i686_isr` (`interrupt.s`), from the gate to `iret`.
Whatever the processor pushes for a vector, the stub completes it to a `struct trapframe`, and the
way back restores the interrupted code as it was, as long as `__i686_interrupt` keeps to the
calling convention.
-/

namespace Rkernel

open Ia32

/-- The vectors for which the processor pushes an error code, as `intvec.rb` has them. -/
def hasErrorCode (vector : ℕ) : Bool :=
  vector = 8 || vector = 17 || vector = 30 || 10 ≤ vector && vector ≤ 14

/-- `__i686_vector_0` to `__i686_vector_255`, without the jump to `__i686_isr`. -/
def i686Vector (vector : ℕ) : List Instr :=
  (if hasErrorCode vector then [] else [.pushImm 0]) ++ [.pushImm (BitVec.ofNat 32 vector)]

/-- `__i686_isr` up to the call of `__i686_interrupt`. -/
def isrEntry : List Instr :=
  [.pushSeg .ds, .pushSeg .es, .pushSeg .fs, .pushSeg .gs, .pushal,
    .movImm16 16 .eax, .movToSeg .eax .ds, .movToSeg .eax .es,
    .movImm16 24 .eax, .movToSeg .eax .fs, .movToSeg .eax .gs, .pushReg .esp]

/-- `__i686_isr` from the call to `iret`. -/
def isrExit : List Instr :=
  [.addImm 4 .esp, .popal, .popSeg .gs, .popSeg .fs, .popSeg .es, .popSeg .ds, .addImm 8 .esp]

/-- `struct trapframe`, with the stack pointer that `pushal` has pushed. -/
def trapframe (vector : ℕ) (err oesp : Word) (m : Machine) : List Word :=
  m.reg .edi :: m.reg .esi :: m.reg .ebp :: oesp :: m.reg .ebx :: m.reg .edx :: m.reg .ecx ::
    m.reg .eax :: (m.seg .gs).setWidth 32 :: (m.seg .fs).setWidth 32 :: (m.seg .es).setWidth 32 ::
    (m.seg .ds).setWidth 32 :: BitVec.ofNat 32 vector :: err :: interruptFrame m

section Entry

variable {before m delivered : Machine} {vector : ℕ} {errorCode : Option Word} {words : List Word}
  (base : BitVec 16 → Word)

/-- Behind the stub, the stack looks the same for all vectors. -/
theorem i686Vector_pushed (isCode : errorCode.isSome = hasErrorCode vector)
    (pushed : Pushed before delivered (errorCode.toList ++ words)) (room : 8 ≤ delivered.sp) :
    Pushed before (run base (i686Vector vector) delivered)
      (BitVec.ofNat 32 vector :: errorCode.getD 0 :: words) := by
  cases errorCode with
  | none =>
      have sp := @Machine.push_sp delivered 0 (by omega)
      rw [i686Vector, ← isCode]
      exact (pushed.push (by omega) 0).push (by omega) (BitVec.ofNat 32 vector)
  | some code =>
      rw [i686Vector, ← isCode]
      exact pushed.push (by omega) (BitVec.ofNat 32 vector)

theorem i686Vector_kept (vector : ℕ) (m : Machine) :
    (∀ r, r ≠ .esp → (run base (i686Vector vector) m).reg r = m.reg r) ∧
      (run base (i686Vector vector) m).seg = m.seg := by
  rw [i686Vector]
  cases hasErrorCode vector with
  | false =>
      refine ⟨?_, rfl⟩
      intro r notEsp
      exact (Machine.push_reg_of_ne notEsp).trans (Machine.push_reg_of_ne notEsp)
  | true => exact ⟨fun r notEsp => Machine.push_reg_of_ne notEsp, rfl⟩

/-- `__i686_isr` pushes the registers and a pointer to them. -/
theorem isrEntry_pushed (pushed : Pushed before m words) (room : 52 ≤ m.sp) :
    Pushed before (run base isrEntry m)
      (BitVec.ofNat 32 (m.sp - 48) :: m.reg .edi :: m.reg .esi :: m.reg .ebp ::
        BitVec.ofNat 32 (m.sp - 16) :: m.reg .ebx :: m.reg .edx :: m.reg .ecx :: m.reg .eax ::
        (m.seg .gs).setWidth 32 :: (m.seg .fs).setWidth 32 :: (m.seg .es).setWidth 32 ::
        (m.seg .ds).setWidth 32 :: words) := by
  let segs := run base [.pushSeg .ds, .pushSeg .es, .pushSeg .fs, .pushSeg .gs] m
  have begins := pushed.sp
  have step {after : Machine} {all : List Word} (sofar : Pushed before after all)
      (left : 4 * all.length < 4 * words.length + 52) (value : Word) :
      Pushed before (after.push value) (value :: all) := by
    have ends := sofar.sp
    exact sofar.push (by omega) value
  have ds := step pushed (by omega) ((m.seg .ds).setWidth 32)
  have es := step ds (by simp only [List.length_cons]; omega) ((m.seg .es).setWidth 32)
  have fs := step es (by simp only [List.length_cons]; omega) ((m.seg .fs).setWidth 32)
  have gs : Pushed before segs _ :=
    step fs (by simp only [List.length_cons]; omega) ((m.seg .gs).setWidth 32)
  have gsSp := gs.sp
  simp only [List.length_cons] at gsSp
  have all := gs.pushal base (by omega)
  have allSp := all.sp
  simp only [List.length_cons] at allSp
  have esp : (exec base .pushal segs).reg .esp = BitVec.ofNat 32 (m.sp - 48) := by
    rw [← BitVec.toNat_inj, BitVec.toNat_ofNat]
    have less := (m.reg .esp).isLt
    change (exec base .pushal segs).sp = (m.sp - 48) % 2 ^ 32
    change m.sp < 2 ^ 32 at less
    omega
  have oesp : segs.reg .esp = BitVec.ofNat 32 (m.sp - 16) := by
    rw [← BitVec.toNat_inj, BitVec.toNat_ofNat]
    have less := (m.reg .esp).isLt
    change segs.sp = (m.sp - 16) % 2 ^ 32
    change m.sp < 2 ^ 32 at less
    omega
  have kept {r : Reg} (notEsp : r ≠ .esp) : segs.reg r = m.reg r :=
    (Machine.push_reg_of_ne notEsp).trans ((Machine.push_reg_of_ne notEsp).trans
      ((Machine.push_reg_of_ne notEsp).trans (Machine.push_reg_of_ne notEsp)))
  rw [oesp, kept (by decide), kept (by decide), kept (by decide), kept (by decide),
    kept (by decide), kept (by decide), kept (by decide)] at all
  have pointer := all.push (by omega) (BitVec.ofNat 32 (m.sp - 48))
  rw [← esp] at pointer ⊢
  exact pointer.congr rfl rfl

/-- A selector for two segments. -/
theorem run_loadSegments (value : BitVec 16) (s t : Seg) (m : Machine) :
    (run base [.movImm16 value .eax, .movToSeg .eax s, .movToSeg .eax t] m).seg =
      Function.update (Function.update m.seg s value) t value := by
  have isValue := movImm16_setWidth base value .eax m
  have kept : (exec base (.movImm16 value .eax) m).seg = m.seg := rfl
  have isRun : run base [.movImm16 value .eax, .movToSeg .eax s, .movToSeg .eax t] m =
      run base [.movToSeg .eax s, .movToSeg .eax t] (exec base (.movImm16 value .eax) m) := rfl
  rw [isRun]
  generalize exec base (.movImm16 value .eax) m = loaded at isValue kept
  rw [← kept, ← isValue]
  rfl

theorem isrEntry_seg (m : Machine) :
    (run base isrEntry m).seg .cs = m.seg .cs ∧ (run base isrEntry m).seg .ss = m.seg .ss ∧
      (∀ s ∈ [Seg.ds, .es], (run base isrEntry m).seg s = selector segKdata) ∧
      ∀ s ∈ [Seg.fs, .gs], (run base isrEntry m).seg s = selector segKcpu := by
  have parts : isrEntry = [.pushSeg .ds, .pushSeg .es, .pushSeg .fs, .pushSeg .gs, .pushal] ++
      ([.movImm16 16 .eax, .movToSeg .eax .ds, .movToSeg .eax .es] ++
        ([.movImm16 24 .eax, .movToSeg .eax .fs, .movToSeg .eax .gs] ++ [.pushReg .esp])) := rfl
  have pushes :
      (run base [.pushSeg .ds, .pushSeg .es, .pushSeg .fs, .pushSeg .gs, .pushal] m).seg = m.seg :=
    rfl
  have pushEsp (m : Machine) : (run base [.pushReg .esp] m).seg = m.seg := rfl
  have seg : (run base isrEntry m).seg = Function.update (Function.update
      (Function.update (Function.update m.seg .ds 16) .es 16) .fs 24) .gs 24 := by
    rw [parts, run_append, run_append, run_append, pushEsp, run_loadSegments, run_loadSegments,
      pushes]
  rw [seg]
  refine ⟨rfl, rfl, ?_, ?_⟩
  · intro s isSeg
    simp only [List.mem_cons, List.not_mem_nil, or_false] at isSeg
    rcases isSeg with rfl | rfl
    · rfl
    · rfl
  · intro s isSeg
    simp only [List.mem_cons, List.not_mem_nil, or_false] at isSeg
    rcases isSeg with rfl | rfl
    · rfl
    · rfl

end Entry

section Exit

variable {m after : Machine} {bottom vector : ℕ} {err oesp : Word} (base : BitVec 16 → Word)

/-- The way back: everything that is not in the frame of `iret` is what the trap frame says. -/
theorem isrExit_restores
    (stacked : Stacked bottom (after.dropWords 1) (trapframe vector err oesp m)) :
    Stacked bottom (run base isrExit after) (interruptFrame m) ∧
      (∀ r, r ≠ .esp → (run base isrExit after).reg r = m.reg r) ∧
      (∀ s, s ≠ .cs → s ≠ .ss → (run base isrExit after).seg s = m.seg s) ∧
      (run base isrExit after).seg .ss = after.seg .ss ∧
      (run base isrExit after).memory = after.memory := by
  let dropped := exec base (.addImm 4 .esp) after
  have atRegs : Stacked bottom dropped (trapframe vector err oesp m) := stacked.congr rfl rfl
  rcases atRegs.popal base with ⟨atGs, edi, esi, ebp, ebx, edx, ecx, eax⟩
  rcases atGs.popSeg base .gs with ⟨atFs, gs⟩
  rcases atFs.popSeg base .fs with ⟨atEs, fs⟩
  rcases atEs.popSeg base .es with ⟨atDs, es⟩
  rcases atDs.popSeg base .ds with ⟨atTrapno, ds⟩
  have atFrame := @Stacked.addEsp _ _ _ base atTrapno 2 (Nat.le_add_left 2 _)
  rw [selector_roundtrip] at gs fs es ds
  have seg : (run base isrExit after).seg = Function.update (Function.update (Function.update
      (Function.update after.seg .gs (m.seg .gs)) .fs (m.seg .fs)) .es (m.seg .es))
      .ds (m.seg .ds) := by
    refine ds.trans ?_
    rw [es, fs, gs]
    rfl
  refine ⟨atFrame, ?_, ?_, ?_, rfl⟩
  · intro r notEsp
    have kept : (run base isrExit after).reg r = (exec base .popal dropped).reg r :=
      (Machine.setReg_reg_of_ne notEsp).trans ((Machine.dropWords_reg_of_ne notEsp).trans
        ((Machine.dropWords_reg_of_ne notEsp).trans ((Machine.dropWords_reg_of_ne notEsp).trans
          (Machine.dropWords_reg_of_ne notEsp))))
    rw [kept]
    cases r with
    | eax => exact eax
    | ecx => exact ecx
    | edx => exact edx
    | ebx => exact ebx
    | esp => exact absurd rfl notEsp
    | ebp => exact ebp
    | esi => exact esi
    | edi => exact edi
  · intro s notCs notSs
    rw [seg]
    cases s with
    | es => rfl
    | cs => exact absurd rfl notCs
    | ss => exact absurd rfl notSs
    | ds => rfl
    | fs => rfl
    | gs => rfl
  · rw [seg]
    rfl

end Exit

section Interrupt

variable {m : Machine} {vector : ℕ} {errorCode : Option Word} {esp0 : Word}

/-- What `__i686_interrupt` is called with: a pointer to the trap frame, in the segments of the
kernel. -/
structure Called (stack vector : ℕ) (err : Word) (m called : Machine) : Prop where
  frame : ∃ oesp, Stacked stack called
    (BitVec.ofNat 32 (called.sp + 4) :: trapframe vector err oesp m)
  cs : called.seg .cs = selector segKcode
  ss : privilege (m.seg .cs) = 0 → called.seg .ss = m.seg .ss
  data : ∀ s ∈ [Seg.ds, .es], called.seg s = selector segKdata
  cpu : ∀ s ∈ [Seg.fs, .gs], called.seg s = selector segKcpu
  memory : ∀ byte, stack ≤ byte → called.memory byte = m.memory byte

/-- What `__i686_interrupt` reads as `tf->trapno`. -/
theorem Called.trapno {stack : ℕ} {err : Word} {called : Machine}
    (isCalled : Called stack vector err m called) (isVector : vector < 256) :
    called.memory.read32 (called.sp + 4 + 48) = vector := by
  rcases isCalled.frame with ⟨oesp, frame⟩
  have there := frame.words 13 (by simp [trapframe])
  rw [Nat.add_assoc]
  refine there.trans ?_
  change (BitVec.ofNat 32 vector).toNat = vector
  rw [BitVec.toNat_ofNat]
  omega

/-- An interrupt through a gate of the kernel and the code up to the call. -/
theorem deliver_called (base : BitVec 16 → Word) (offset : Word) (ss0 : BitVec 16)
    (isCode : errorCode.isSome = hasErrorCode vector)
    (room : 84 ≤ (interruptStack esp0 m).toNat) :
    Called (interruptStack esp0 m).toNat vector (errorCode.getD 0) m
      (run base (i686Vector vector ++ isrEntry)
        (deliver ⟨selector segKcode, offset⟩ ss0 esp0 errorCode m)) := by
  let delivered := deliver ⟨selector segKcode, offset⟩ ss0 esp0 errorCode m
  let before := m.setReg .esp (interruptStack esp0 m)
  have isStack : before.sp = (interruptStack esp0 m).toNat :=
    congrArg BitVec.toNat (Machine.setReg_reg_self _)
  have frameLength := interruptFrame_length m
  have pushed : Pushed before delivered (errorCode.toList ++ interruptFrame m) :=
    deliver_pushed _ ss0 errorCode (by omega)
  have codeLength : errorCode.toList.length ≤ 1 := by
    cases errorCode with
    | none => decide
    | some code => exact Nat.le_refl 1
  have deliveredSp := pushed.sp
  rw [List.length_append] at deliveredSp
  let stubbed := run base (i686Vector vector) delivered
  have stub : Pushed before stubbed _ := i686Vector_pushed base isCode pushed (by omega)
  have stubSp := stub.sp
  simp only [List.length_cons] at stubSp
  have entry := isrEntry_pushed base stub (by omega)
  have entrySp := entry.sp
  simp only [List.length_cons] at entrySp
  rcases i686Vector_kept base vector delivered with ⟨stubReg, stubSeg⟩
  have reg {r : Reg} (notEsp : r ≠ .esp) : stubbed.reg r = m.reg r :=
    (stubReg r notEsp).trans (deliver_reg _ errorCode notEsp)
  have seg {s : Seg} (notCs : s ≠ .cs) (notSs : s ≠ .ss) : stubbed.seg s = m.seg s :=
    (congrFun stubSeg s).trans (deliver_seg_of_ne _ errorCode notCs notSs)
  rw [reg (by decide), reg (by decide), reg (by decide), reg (by decide), reg (by decide),
    reg (by decide), reg (by decide), seg (by decide) (by decide), seg (by decide) (by decide),
    seg (by decide) (by decide), seg (by decide) (by decide)] at entry
  rcases isrEntry_seg base stubbed with ⟨cs, ss, data, cpu⟩
  have pointer : (run base isrEntry stubbed).sp + 4 = stubbed.sp - 48 := by omega
  rw [run_append]
  refine ⟨⟨BitVec.ofNat 32 (stubbed.sp - 16), ?_⟩, ?_, ?_, data, cpu, ?_⟩
  · rw [pointer, ← isStack]
    exact entry.stacked
  · refine cs.trans ((congrFun stubSeg .cs).trans ?_)
    rw [deliver_seg]
    exact Function.update_self ..
  · intro inner
    refine ss.trans ((congrFun stubSeg .ss).trans ?_)
    rw [deliver_seg, if_pos inner]
    rfl
  · intro byte above
    exact entry.memory byte (Or.inr (isStack ▸ above))

/-- An interrupt leaves no trace in the interrupted code, neither in its registers nor on its
stack: the vector's gate leads to its stub, the stub and `__i686_isr` pass the trap frame to
`__i686_interrupt`, and when that returns, all is put back. -/
theorem i686Isr_transparent {idt : Word} {i686Vectors : ℕ → Word} {memory : Memory} {top : ℕ}
    (isIdt : ∀ byte, idt.toNat ≤ byte → byte < idt.toNat + 8 * 256 →
      m.memory byte = (i686SetupIdt idt i686Vectors memory).2 byte)
    (isVector : vector < 256) (isCode : errorCode.isSome = hasErrorCode vector)
    (room : 84 ≤ (interruptStack esp0 m).toNat) (inStack : (interruptStack esp0 m).toNat ≤ top)
    (base : BitVec 16 → Word) (ss0 : BitVec 16) :
    ∃ delivered,
      interrupt (i686SetupIdt idt i686Vectors memory).1 ss0 esp0 vector errorCode m =
        some delivered ∧ delivered.eip = i686Vectors vector ∧
      let called := run base (i686Vector vector ++ isrEntry) delivered
      Called (interruptStack esp0 m).toNat vector (errorCode.getD 0) m called ∧
      called.memory.read32 (called.sp + 4 + 48) = vector ∧
      ∀ after, Returns 4 top called after →
        iret (run base isrExit after) = { m with memory := after.memory } ∧
        ∀ byte, (interruptStack esp0 m).toNat ≤ byte → byte < top →
          after.memory byte = m.memory byte := by
  have called := deliver_called base (i686Vectors vector) ss0 isCode room
  refine ⟨_, i686SetupIdt_interrupt isIdt ss0 esp0 isVector errorCode, rfl, called,
    called.trapno isVector, ?_⟩
  intro after returns
  rcases called.frame with ⟨oesp, frame⟩
  have dropped := @Returns.stacked _ _ _ _ _ _ returns [_] rfl frame inStack
  rcases isrExit_restores base dropped with ⟨atFrame, reg, seg, ss, kept⟩
  constructor
  · rw [← kept]
    apply iret_frame atFrame reg seg
    intro inner
    rw [ss, returns.seg]
    exact called.ss inner
  · intro byte above below
    have whole := frame.sp
    simp only [List.length_cons] at whole
    rw [returns.memory byte (by omega) below]
    exact called.memory byte above

/-- The timer in the kernel, and what its code was about to do. -/
theorem i686Isr_transparent_timer :
    let stubs : ℕ → Word := fun vector => 0x100000 + BitVec.ofNat 32 (16 * vector)
    let idt := i686SetupIdt 0x2000 stubs fun _ => 0
    let m : Machine := ⟨fun r => if r = .esp then 0x9000 else 7,
      fun s => if s = .cs then 8 else 16, 0x101000, 0x202, idt.2⟩
    ∃ delivered, interrupt idt.1 16 0x8000 32 none m = some delivered ∧
      delivered.eip = 0x100200 ∧
      ∀ after, Returns 4 0xa000 (run (fun _ => 0) (i686Vector 32 ++ isrEntry) delivered) after →
        iret (run (fun _ => 0) isrExit after) = { m with memory := after.memory } := by
  intro stubs idt m
  have isIdt : m.memory = idt.2 := by
    simp only [m]
  rcases @i686Isr_transparent m 32 none 0x8000 0x2000 stubs (fun _ => 0) 0xa000
    (fun byte _ _ => congrFun isIdt byte) (by decide) (by decide) (by decide) (by decide)
    (fun _ => 0) 16 with
    ⟨delivered, isDelivered, eip, -, -, back⟩
  exact ⟨delivered, isDelivered, eip, fun after returns => (back after returns).1⟩

end Interrupt

end Rkernel
