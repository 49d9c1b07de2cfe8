import Rkernel.Arch.Gdt
import Rkernel.Lib.Transition

/-!
# Switching threads

`__i686_switch` (`switch.s`). It parks the thread that calls it, lets `sched_preempt` decide on
the stack of the CPU, and goes on with the thread whose storage `%gs:4` then points to. Seen from
every thread, it is a call that returns: whatever the other threads have done in the meantime, the
thread goes on behind its call with the registers and the stack that it had.

`sched_preempt` is any code that leaves the memory of the parked threads alone. A thread that has
never run goes on only if it has been given a context, as if it had called `__i686_switch`.
-/

namespace Rkernel

open Ia32

/-- `__i686_switch` up to the call of `sched_preempt`. -/
def switchOut : List Instr :=
  [.pushReg .ebp, .pushReg .ebx, .pushReg .esi, .pushReg .edi,
    .loadSeg .gs 4 .eax, .store .esp .eax 4, .loadSeg .gs 8 .esp]

/-- `__i686_switch` from the call on. -/
def switchIn : List Instr :=
  [.loadSeg .gs 4 .eax, .load .eax 4 .esp,
    .popReg .edi, .popReg .esi, .popReg .ebx, .popReg .ebp, .ret]

/-- Where things are: the bases of the segments, `cpu_local`, and each thread's `t_storage` and
stack. -/
structure SwitchLayout (Tid : Type) where
  base : BitVec 16 → Word
  cpuLocal : Word
  storage : Tid → Word
  stackLow : Tid → ℕ
  stackTop : Tid → ℕ

namespace SwitchLayout

variable {Tid : Type}

/-- `&THREAD_LOCAL_CONTEXT`. -/
def context (layout : SwitchLayout Tid) (t : Tid) : ℕ :=
  (layout.storage t + 4).toNat

/-- `&CPU_LOCAL_TLS`. -/
def cpuLocalTls (layout : SwitchLayout Tid) : ℕ :=
  (layout.cpuLocal + 4).toNat

/-- No two of the words and stacks overlap, and no stack reaches to the end of the addresses. -/
structure Separate (layout : SwitchLayout Tid) : Prop where
  stackFits : ∀ t, layout.stackTop t < 2 ^ 32
  gs : layout.base (selector segKcpu) = layout.cpuLocal
  contexts : ∀ t u, t ≠ u →
    layout.context t + 4 ≤ layout.context u ∨ layout.context u + 4 ≤ layout.context t
  contextTls : ∀ t, layout.context t + 4 ≤ layout.cpuLocalTls ∨
    layout.cpuLocalTls + 4 ≤ layout.context t
  contextStack : ∀ t u, layout.context t + 4 ≤ layout.stackLow u ∨
    layout.stackTop u ≤ layout.context t
  stackApart : ∀ t u, t ≠ u → layout.stackTop t ≤ layout.stackLow u ∨
    layout.stackTop u ≤ layout.stackLow t
  stackTls : ∀ t, layout.cpuLocalTls + 4 ≤ layout.stackLow t ∨
    layout.stackTop t ≤ layout.cpuLocalTls

/-- A thread's stack from an address on, and its context word. -/
def Holds (layout : SwitchLayout Tid) (t : Tid) (sp byte : ℕ) : Prop :=
  (sp ≤ byte ∧ byte < layout.stackTop t) ∨
    (layout.context t ≤ byte ∧ byte < layout.context t + 4)

/-- A thread is in the kernel, about to run `__i686_switch` with room for its frame: `%gs` is the
segment of the CPU, and the return address is on the thread's stack. -/
structure Calls (layout : SwitchLayout Tid) (t : Tid) (m : Machine) : Prop where
  gs : m.seg .gs = selector segKcpu
  room : layout.stackLow t + 16 ≤ m.sp
  inStack : m.sp + 4 ≤ layout.stackTop t

/-- `__i686_switch` has returned to a thread as a function should, since the thread called it. -/
structure ReturnsTo (layout : SwitchLayout Tid) (t : Tid) (called resumed : Machine) : Prop where
  reg : ∀ r ∈ [Reg.ebx, .ebp, .esi, .edi], resumed.reg r = called.reg r
  esp : resumed.sp = called.sp + 4
  eip : resumed.eip = called.word 0
  memory : ∀ byte, called.sp ≤ byte → byte < layout.stackTop t →
    resumed.memory byte = called.memory byte

end SwitchLayout

/-- The thread that runs, and the machines with which the parked threads called
`__i686_switch`. -/
structure SwitchState (Tid : Type) where
  current : Tid
  machine : Machine
  parked : Tid → Option Machine

namespace SwitchState

variable {Tid : Type}

/-- The memory that code may not change while threads are parked: their contexts and the used
parts of their stacks. -/
def Kept (layout : SwitchLayout Tid) (parked : Tid → Option Machine) (byte : ℕ) : Prop :=
  ∃ t called, parked t = some called ∧ layout.Holds t (called.sp - 16) byte

/-- The memory of the parked threads is as it was. -/
def Keeps (layout : SwitchLayout Tid) (parked : Tid → Option Machine) (before after : Machine) :
    Prop :=
  ∀ byte, Kept layout parked byte → after.memory byte = before.memory byte

/-- What `sched_preempt` does between its call and its return: it chooses a parked thread. -/
structure Preempts (layout : SwitchLayout Tid) (parked : Tid → Option Machine) (next : Tid)
    (before after : Machine) : Prop where
  seg : after.seg = before.seg
  keeps : Keeps layout parked before after
  tls : after.memory.read32 layout.cpuLocalTls = (layout.storage next).toNat

/-- What can happen: the current thread computes, or it calls `__i686_switch` and another thread, or
itself, goes on. -/
inductive Step [DecidableEq Tid] (layout : SwitchLayout Tid) (s : SwitchState Tid) :
    Option Tid → SwitchState Tid → Prop where
  | compute (machine : Machine) (keeps : Keeps layout s.parked s.machine machine)
      (tls : machine.memory.read32 layout.cpuLocalTls =
        s.machine.memory.read32 layout.cpuLocalTls) :
      Step layout s none { s with machine := machine }
  | switch (after called : Machine) (next : Tid) (calls : layout.Calls s.current s.machine)
      (isParked : Function.update s.parked s.current (some s.machine) next = some called)
      (preempts : Preempts layout (Function.update s.parked s.current (some s.machine)) next
        (run layout.base switchOut s.machine) after) :
      Step layout s (some next)
        ⟨next, run layout.base switchIn after,
          Function.update (Function.update s.parked s.current (some s.machine)) next none⟩

/-- The frame of a parked thread: what `__i686_switch` pushed above its return address. -/
def frame (called : Machine) : List Word :=
  [called.reg .edi, called.reg .esi, called.reg .ebx, called.reg .ebp]

/-- A thread that has called `__i686_switch` can go on. -/
structure Parked (layout : SwitchLayout Tid) (t : Tid) (called : Machine) (memory : Memory) :
    Prop where
  calls : layout.Calls t called
  context : memory.read32 (layout.context t) = called.sp - 16
  frame : WordsAt memory (called.sp - 16) (frame called)
  stack : ∀ byte, called.sp ≤ byte → byte < layout.stackTop t →
    memory byte = called.memory byte

/-- At first a thread runs, and others may have been given contexts. -/
structure Initial (layout : SwitchLayout Tid) (s : SwitchState Tid) : Prop where
  tls : s.machine.memory.read32 layout.cpuLocalTls = (layout.storage s.current).toNat
  current : s.parked s.current = none
  parked : ∀ t called, s.parked t = some called → Parked layout t called s.machine.memory

def system [DecidableEq Tid] (layout : SwitchLayout Tid) :
    TransitionSystem (SwitchState Tid) (Option Tid) where
  init := Initial layout
  step := Step layout

/-- The contexts of the parked threads stay what they are. -/
structure Inv (layout : SwitchLayout Tid) (s : SwitchState Tid) : Prop where
  tls : s.machine.memory.read32 layout.cpuLocalTls = (layout.storage s.current).toNat
  current : s.parked s.current = none
  parked : ∀ t called, s.parked t = some called → Parked layout t called s.machine.memory

section Park

variable {layout : SwitchLayout Tid} {t : Tid} {called m : Machine} {memory other : Memory}

/-- A parked thread needs no more than its own memory. -/
theorem Parked.congr (parked : Parked layout t called memory)
    (same : ∀ byte, layout.Holds t (called.sp - 16) byte → other byte = memory byte) :
    Parked layout t called other := by
  have room := parked.calls.room
  have inStack := parked.calls.inStack
  refine ⟨parked.calls, ?_, ?_, ?_⟩
  · rw [← parked.context]
    apply Memory.read32_congr
    intro byte begins ends
    exact same byte (Or.inr ⟨begins, ends⟩)
  · apply parked.frame.congr
    intro byte begins ends
    change byte < called.sp - 16 + 4 * 4 at ends
    exact same byte (Or.inl ⟨begins, by omega⟩)
  · intro byte begins ends
    rw [← parked.stack byte begins ends]
    exact same byte (Or.inl ⟨by omega, ends⟩)

/-- What `__i686_switch` has done when it calls `sched_preempt`. -/
theorem switchOut_effect (separate : layout.Separate) (calls : layout.Calls t m)
    (tls : m.memory.read32 layout.cpuLocalTls = (layout.storage t).toNat) :
    ∃ pushed, Pushed m pushed (frame m) ∧
      (run layout.base switchOut m).memory =
        pushed.memory.write32 (layout.context t) (m.sp - 16) ∧
      (run layout.base switchOut m).seg = m.seg := by
  let pushed := run layout.base [.pushReg .ebp, .pushReg .ebx, .pushReg .esi, .pushReg .edi] m
  let loaded := exec layout.base (.loadSeg .gs 4 .eax) pushed
  have room := calls.room
  have inStack := calls.inStack
  have ebp := (Pushed.refl m).push (by omega) (m.reg .ebp)
  have ebpSp := ebp.sp
  simp only [List.length_cons, List.length_nil] at ebpSp
  have ebx := ebp.push (by omega) (m.reg .ebx)
  have ebxSp := ebx.sp
  simp only [List.length_cons, List.length_nil] at ebxSp
  have esi := ebx.push (by omega) (m.reg .esi)
  have esiSp := esi.sp
  simp only [List.length_cons, List.length_nil] at esiSp
  have all : Pushed m pushed (frame m) := esi.push (by omega) (m.reg .edi)
  have allSp : pushed.sp + 4 * 4 = m.sp := all.sp
  have kept : pushed.memory.read32 layout.cpuLocalTls = (layout.storage t).toNat := by
    rw [← tls]
    apply Memory.read32_congr
    intro byte begins ends
    apply all.memory
    rcases separate.stackTls t with below | above
    · omega
    · omega
  have eax : loaded.reg .eax = layout.storage t := by
    refine (Machine.setReg_reg_self _).trans ?_
    have isBase : layout.base (pushed.seg .gs) = layout.cpuLocal := by
      rw [← separate.gs, ← calls.gs]
      rfl
    rw [isBase]
    refine (congrArg (BitVec.ofNat 32) kept).trans ?_
    rw [BitVec.ofNat_toNat, BitVec.setWidth_eq]
  refine ⟨pushed, all, ?_, rfl⟩
  have esp : (loaded.reg .esp).toNat = m.sp - 16 := by
    change pushed.sp = m.sp - 16
    omega
  change loaded.memory.write32 (loaded.reg .eax + 4).toNat (loaded.reg .esp).toNat = _
  rw [eax, esp]
  rfl

/-- The calling thread is parked; memory outside of its frame and its context is as it was. -/
theorem switchOut_parks (separate : layout.Separate) (calls : layout.Calls t m)
    (tls : m.memory.read32 layout.cpuLocalTls = (layout.storage t).toNat) :
    Parked layout t m (run layout.base switchOut m).memory ∧
      ∀ byte, ¬layout.Holds t (m.sp - 16) byte →
        (run layout.base switchOut m).memory byte = m.memory byte := by
  rcases switchOut_effect separate calls tls with ⟨pushed, all, memory, -⟩
  have room := calls.room
  have inStack := calls.inStack
  have spLt := (m.reg .esp).isLt
  change m.sp < 2 ^ 32 at spLt
  have allSp : pushed.sp + 4 * 4 = m.sp := all.sp
  have pushedSp : pushed.sp = m.sp - 16 := by omega
  have apart := separate.contextStack t t
  have written {byte : ℕ} (outside : byte < layout.context t ∨ layout.context t + 4 ≤ byte) :
      (run layout.base switchOut m).memory byte = pushed.memory byte := by
    rw [memory]
    exact Memory.write32_of_apart outside
  refine ⟨⟨calls, ?_, ?_, ?_⟩, ?_⟩
  · rw [memory, Memory.read32_write32_self]
    omega
  · rw [← pushedSp]
    apply all.words.congr
    intro byte begins ends
    change byte < pushed.sp + 4 * 4 at ends
    exact written (by omega)
  · intro byte begins ends
    rw [written (by omega)]
    exact all.memory byte (Or.inr begins)
  · intro byte notHeld
    simp only [SwitchLayout.Holds, not_or, not_and, Nat.not_lt] at notHeld
    rw [written (by omega)]
    apply all.memory
    omega

/-- The thread whose storage `%gs:4` points to goes on. -/
theorem switchIn_returns (separate : layout.Separate) (parked : Parked layout t called m.memory)
    (gs : m.seg .gs = selector segKcpu)
    (tls : m.memory.read32 layout.cpuLocalTls = (layout.storage t).toNat) :
    layout.ReturnsTo t called (run layout.base switchIn m) ∧
      (run layout.base switchIn m).memory = m.memory := by
  let atStorage := exec layout.base (.loadSeg .gs 4 .eax) m
  let loaded := exec layout.base (.load .eax 4 .esp) atStorage
  have fits := separate.stackFits t
  have room := parked.calls.room
  have inStack := parked.calls.inStack
  have eax : atStorage.reg .eax = layout.storage t := by
    refine (Machine.setReg_reg_self _).trans ?_
    rw [gs, separate.gs]
    refine (congrArg (BitVec.ofNat 32) tls).trans ?_
    rw [BitVec.ofNat_toNat, BitVec.setWidth_eq]
  have sp : loaded.sp = called.sp - 16 := by
    refine (congrArg BitVec.toNat (Machine.setReg_reg_self _)).trans ?_
    rw [eax]
    refine (congrArg (fun word => (BitVec.ofNat 32 word).toNat) parked.context).trans ?_
    rw [BitVec.toNat_ofNat]
    omega
  have address : called.word 0 = BitVec.ofNat 32 (m.memory.read32 called.sp) := by
    have same : m.memory.read32 called.sp = called.memory.read32 called.sp :=
      Memory.read32_congr fun byte begins ends => parked.stack byte begins (by omega)
    rw [same, Machine.word]
    exact congrArg (fun word => BitVec.ofNat 32 (called.memory.read32 word))
      (congrArg BitVec.toNat (BitVec.add_zero (called.reg .esp)))
  have onStack : Stacked (called.sp + 4) loaded (frame called ++ [called.word 0]) := by
    refine ⟨by omega, ?_, ?_⟩
    · rw [sp]
      change called.sp - 16 + 4 * 5 = called.sp + 4
      omega
    · rw [sp]
      refine wordsAt_append.mpr ⟨parked.frame, wordsAt_cons.mpr ⟨?_, wordsAt_nil⟩⟩
      have behind : called.sp - 16 + 4 * (frame called).length = called.sp := by
        change called.sp - 16 + 4 * 4 = called.sp
        omega
      have less := @Memory.read32_lt m.memory called.sp
      rw [behind, address, BitVec.toNat_ofNat, Nat.mod_eq_of_lt less]
      rfl
  rcases onStack.popReg layout.base (r := .edi) (by decide) with ⟨atEsi, edi⟩
  rcases atEsi.popReg layout.base (r := .esi) (by decide) with ⟨atEbx, esi⟩
  rcases atEbx.popReg layout.base (r := .ebx) (by decide) with ⟨atEbp, ebx⟩
  rcases atEbp.popReg layout.base (r := .ebp) (by decide) with ⟨atRet, ebp⟩
  rcases atRet.ret layout.base with ⟨done, eip⟩
  refine ⟨⟨?_, ?_, eip, parked.stack⟩, rfl⟩
  · have toEbp {r : Reg} (notEsp : r ≠ .esp) (notEbp : r ≠ .ebp) :
        (run layout.base switchIn m).reg r =
          (exec layout.base (.popReg .ebx) (exec layout.base (.popReg .esi)
            (exec layout.base (.popReg .edi) loaded))).reg r :=
      (Stacked.ret_reg_of_ne layout.base notEsp).trans
        (Stacked.popReg_reg_of_ne layout.base notEbp notEsp)
    intro r isKept
    simp only [List.mem_cons, List.not_mem_nil, or_false] at isKept
    rcases isKept with rfl | rfl | rfl | rfl
    · exact (toEbp (by decide) (by decide)).trans ebx
    · exact (Stacked.ret_reg_of_ne layout.base (by decide)).trans ebp
    · refine (toEbp (by decide) (by decide)).trans ?_
      exact (Stacked.popReg_reg_of_ne layout.base (by decide) (by decide)).trans esi
    · refine (toEbp (by decide) (by decide)).trans ?_
      refine (Stacked.popReg_reg_of_ne layout.base (by decide) (by decide)).trans ?_
      exact (Stacked.popReg_reg_of_ne layout.base (by decide) (by decide)).trans edi
  · have ends := done.sp
    exact ends

end Park

/-- The store of `kernel_set_current_thread` to `CPU_LOCAL_TLS` leaves the parked threads alone. -/
theorem preempts_of_setTls (separate : layout.Separate) {parked : Tid → Option Machine}
    (allCall : ∀ u other, parked u = some other → layout.Calls u other) (next : Tid)
    (before : Machine) :
    Preempts layout parked next before { before with
      memory := before.memory.write32 layout.cpuLocalTls (layout.storage next).toNat } := by
  refine ⟨rfl, ?_, ?_⟩
  · rintro byte ⟨u, other, isParked, holds⟩
    have room := (allCall u other isParked).room
    have contextTls := separate.contextTls u
    have stackTls := separate.stackTls u
    simp only [SwitchLayout.Holds] at holds
    apply Memory.write32_of_apart
    omega
  · rw [Memory.read32_write32_self, Nat.mod_eq_of_lt (layout.storage next).isLt]

section Runs

variable [DecidableEq Tid] {layout : SwitchLayout Tid} {s next : SwitchState Tid}
  {label : Option Tid}

omit [DecidableEq Tid] in
/-- Two threads do not share memory. -/
theorem not_holds_of_holds (separate : layout.Separate) {t u : Tid} {first second : Machine}
    (isOther : t ≠ u) (firstCalls : layout.Calls t first) (secondCalls : layout.Calls u second)
    {byte : ℕ} (holds : layout.Holds t (first.sp - 16) byte) :
    ¬layout.Holds u (second.sp - 16) byte := by
  have firstRoom := firstCalls.room
  have secondRoom := secondCalls.room
  have contexts := separate.contexts t u isOther
  have firstStack := separate.contextStack u t
  have secondStack := separate.contextStack t u
  have stackApart := separate.stackApart t u isOther
  simp only [SwitchLayout.Holds] at holds ⊢
  omega

/-- What one call of `__i686_switch` does to the invariant, and to the thread that goes on. -/
theorem Inv.switch (separate : layout.Separate) (inv : Inv layout s) {after called : Machine}
    {t : Tid} (calls : layout.Calls s.current s.machine)
    (isParked : Function.update s.parked s.current (some s.machine) t = some called)
    (preempts : Preempts layout (Function.update s.parked s.current (some s.machine)) t
      (run layout.base switchOut s.machine) after) :
    Inv layout ⟨t, run layout.base switchIn after,
        Function.update (Function.update s.parked s.current (some s.machine)) t none⟩ ∧
      layout.ReturnsTo t called (run layout.base switchIn after) := by
  rcases switchOut_effect separate calls inv.tls with ⟨-, -, -, seg⟩
  rcases switchOut_parks separate calls inv.tls with ⟨isOut, kept⟩
  have atCall : ∀ u other,
      Function.update s.parked s.current (some s.machine) u = some other →
        Parked layout u other (run layout.base switchOut s.machine).memory := by
    intro u other otherParked
    by_cases isCurrent : u = s.current
    · rw [isCurrent, Function.update_self] at otherParked
      cases otherParked
      rw [isCurrent]
      exact isOut
    · rw [Function.update_of_ne isCurrent] at otherParked
      have before := inv.parked u other otherParked
      apply before.congr
      intro byte holds
      exact kept byte (not_holds_of_holds separate isCurrent before.calls calls holds)
  have atReturn : ∀ u other,
      Function.update s.parked s.current (some s.machine) u = some other →
        Parked layout u other after.memory := by
    intro u other otherParked
    apply (atCall u other otherParked).congr
    intro byte holds
    exact preempts.keeps byte ⟨u, other, otherParked, holds⟩
  have gs : after.seg .gs = selector segKcpu := by
    rw [preempts.seg, seg]
    exact calls.gs
  rcases switchIn_returns separate (atReturn t called isParked) gs preempts.tls with
    ⟨returns, memory⟩
  refine ⟨⟨?_, Function.update_self .., ?_⟩, returns⟩
  · rw [memory]
    exact preempts.tls
  · intro u other otherParked
    change Function.update (Function.update s.parked s.current (some s.machine)) t none u =
      some other at otherParked
    by_cases isNext : u = t
    · rw [isNext, Function.update_self] at otherParked
      contradiction
    · rw [Function.update_of_ne isNext] at otherParked
      rw [memory]
      exact atReturn u other otherParked

theorem Inv.step (separate : layout.Separate) (inv : Inv layout s)
    (stepped : Step layout s label next) : Inv layout next := by
  cases stepped with
  | compute machine keeps tls =>
      refine ⟨tls.trans inv.tls, inv.current, ?_⟩
      intro t called isParked
      apply (inv.parked t called isParked).congr
      intro byte holds
      exact keeps byte ⟨t, called, isParked, holds⟩
  | switch after called t calls isParked preempts =>
      exact (inv.switch separate calls isParked preempts).1

/-- In every run, `__i686_switch` returns to the thread that goes on as to its own call: behind the
call, with the registers that a function keeps, and with its stack as it was. -/
theorem switch_returnsTo (separate : layout.Separate) (reachable : (system layout).Reachable s)
    {t : Tid} (stepped : Step layout s (some t) next) :
    ∃ called, Function.update s.parked s.current (some s.machine) t = some called ∧
      next.current = t ∧ layout.ReturnsTo t called next.machine := by
  have inv : Inv layout s := by
    apply reachable.invariant
    · intro state isInit
      exact ⟨isInit.tls, isInit.current, isInit.parked⟩
    · intro state label after inv stepped
      exact inv.step separate stepped
  cases stepped with
  | switch after called t calls isParked preempts =>
      exact ⟨called, isParked, rfl, (inv.switch separate calls isParked preempts).2⟩

/-- A thread gives way to another one that waits behind its own call. -/
theorem switch_returnsTo_two :
    let layout : SwitchLayout Bool := ⟨fun _ => 0x1000, 0x1000, fun t => cond t 0x2000 0x2100,
      fun t => cond t 0x3000 0x4000, fun t => cond t 0x3100 0x4100⟩
    let waiting : Machine :=
      ⟨fun r => if r = .esp then 0x4080 else 0, fun _ => 24, 0, 0, fun _ => 0⟩
    let memory : Memory :=
      Memory.write32 (Memory.write32 (fun _ => 0) 0x1004 0x2000) 0x2104 0x4070
    let running : Machine :=
      ⟨fun r => if r = .esp then 0x3080 else 7, fun _ => 24, 0, 0, memory⟩
    let left := run layout.base switchOut running
    let after := { left with memory := left.memory.write32 0x1004 0x2100 }
    layout.ReturnsTo false waiting (run layout.base switchIn after) := by
  intro layout waiting memory running left after
  have separate : layout.Separate := by
    refine ⟨by decide, by decide, by decide, by decide, by decide, by decide, by decide⟩
  have zero {byte : ℕ} (begins : 0x4070 ≤ byte) : memory byte = 0 := by
    refine (Memory.write32_of_apart (by omega)).trans ?_
    exact Memory.write32_of_apart (by omega)
  have waits : layout.Calls false waiting := ⟨by decide, by decide, by decide⟩
  have isParked : Parked layout false waiting memory := by
    refine ⟨waits, by decide, ?_, fun byte begins _ => zero (Nat.le_trans (by decide) begins)⟩
    have word {address : ℕ} (begins : 0x4070 ≤ address) : memory.read32 address = 0 :=
      Memory.read32_of_zero fun byte above _ => zero (Nat.le_trans begins above)
    exact wordsAt_cons.mpr ⟨word (by decide), wordsAt_cons.mpr ⟨word (by decide),
      wordsAt_cons.mpr ⟨word (by decide), wordsAt_cons.mpr ⟨word (by decide), wordsAt_nil⟩⟩⟩⟩
  let s : SwitchState Bool := ⟨true, running, fun t => cond t none (some waiting)⟩
  have isInit : Initial layout s := by
    refine ⟨by decide, rfl, ?_⟩
    intro t called parked
    cases t with
    | true => contradiction
    | false =>
        cases parked
        exact isParked
  have calls : layout.Calls true running := ⟨by decide, by decide, by decide⟩
  have allCall : ∀ u other, Function.update s.parked true (some running) u = some other →
      layout.Calls u other := by
    intro u other parked
    cases u with
    | true =>
        cases parked
        exact calls
    | false =>
        cases parked
        exact waits
  have preempts := preempts_of_setTls separate allCall false left
  rcases switch_returnsTo separate (.init isInit)
    (.switch after waiting false calls rfl preempts) with ⟨called, isCalled, -, returns⟩
  cases isCalled
  exact returns

end Runs

end SwitchState

end Rkernel
