import Rkernel.Arch.Gdt

/-!
# The stack for interrupts

The task state tells the processor on which stack an interrupt from a user program begins.
`kernel_set_current_thread`, `thread_enter_syscall` and `thread_exit_syscall` (`kern_thread.c`)
choose it among the two stacks of a thread, and `hal_after_thread_switch` (`hal.c`) stores it and
loads the task register.

The task state always has the stack of the current thread. But loading the task register makes the
descriptor busy, only `hal_initcpu` makes it available again, and a busy descriptor is not loaded:
after the first of these calls, the next one ends at `ltr` with a general protection exception.
-/

namespace Rkernel

open Ia32

/-- `THREAD_SF_INTSTACK_2`. -/
def threadSfIntstack2 : BitVec 32 := 0x0001

/-- The fields of a thread that choose its stack: `t_stateflags`, `t_istacks` (whose indices are 0
and 1) and `THREAD_LOCAL_INT_STACK`. -/
structure IntStacks where
  tStateflags : BitVec 32
  tIstacks : ℕ → Word
  threadLocalIntStack : Word

/-- The stack that the thread's flags choose. -/
def IntStacks.chosen (thread : IntStacks) : Word :=
  if thread.tStateflags &&& threadSfIntstack2 ≠ 0 then thread.tIstacks 1 else thread.tIstacks 0

/-- The thread on its second stack. -/
def IntStacks.enter (thread : IntStacks) : IntStacks :=
  { thread with
    tStateflags := thread.tStateflags ||| threadSfIntstack2
    threadLocalIntStack := thread.tIstacks 1 }

/-- The thread on its first stack. -/
def IntStacks.leave (thread : IntStacks) : IntStacks :=
  { thread with
    tStateflags := thread.tStateflags &&& ~~~threadSfIntstack2
    threadLocalIntStack := thread.tIstacks 0 }

/-- The fields of the task state that the kernel sets. -/
structure Taskstate where
  esp0 : Word
  ss0 : BitVec 16
  iomb : BitVec 16

/-- A CPU with its current thread, its task state and its descriptors, and all threads. -/
structure CpuState (Tid : Type) where
  cpuCurrentThread : Option Tid
  thread : Tid → IntStacks
  tss : Taskstate
  gdt : TableRegister
  memory : Memory

/-- Why a call does not return. -/
inductive CpuStop where
  | nullThread
  | generalProtection
  deriving DecidableEq

namespace CpuState

variable {Tid : Type} [DecidableEq Tid]

/-- Change a thread. -/
def storeThread (t : Tid) (thread : IntStacks) (s : CpuState Tid) : CpuState Tid :=
  { s with thread := Function.update s.thread t thread }

/-- `hal_after_thread_switch`, where `cpu_tls` is the storage of the current thread. -/
def halAfterThreadSwitch (s : CpuState Tid) : Except (CpuStop × CpuState Tid) (CpuState Tid) :=
  match s.cpuCurrentThread with
  | none => .error (.nullThread, s)
  | some current =>
      let s := { s with tss :=
        ⟨(s.thread current).threadLocalIntStack, selector segKdata, 0xffff⟩ }
      match s.gdt.ltr (selector segTss) s.memory with
      | none => .error (.generalProtection, s)
      | some memory => .ok { s with memory := memory }

/-- `kernel_set_current_thread`. -/
def kernelSetCurrentThread (t : Tid) (s : CpuState Tid) :
    Except (CpuStop × CpuState Tid) (CpuState Tid) :=
  halAfterThreadSwitch { s with cpuCurrentThread := some t }

/-- `thread_update_int_stack`. -/
def threadUpdateIntStack (t : Tid) (s : CpuState Tid) : CpuState Tid :=
  s.storeThread t { s.thread t with threadLocalIntStack := (s.thread t).chosen }

/-- `thread_enter_syscall`. -/
def threadEnterSyscall (s : CpuState Tid) : Except (CpuStop × CpuState Tid) (CpuState Tid) :=
  match s.cpuCurrentThread with
  | none => .error (.nullThread, s)
  | some t => halAfterThreadSwitch (s.storeThread t (s.thread t).enter)

/-- `thread_exit_syscall`. -/
def threadExitSyscall (s : CpuState Tid) : Except (CpuStop × CpuState Tid) (CpuState Tid) :=
  match s.cpuCurrentThread with
  | none => .error (.nullThread, s)
  | some t => halAfterThreadSwitch (s.storeThread t (s.thread t).leave)

end CpuState

/-- A call of one of the functions. -/
inductive CpuCall (Tid : Type) where
  | setCurrentThread (t : Tid)
  | updateIntStack (t : Tid)
  | enterSyscall
  | exitSyscall

namespace CpuCall

variable {Tid : Type} [DecidableEq Tid]

def perform (s : CpuState Tid) :
    CpuCall Tid → Except (CpuStop × CpuState Tid) (CpuState Tid)
  | .setCurrentThread t => s.kernelSetCurrentThread t
  | .updateIntStack t => .ok (s.threadUpdateIntStack t)
  | .enterSyscall => s.threadEnterSyscall
  | .exitSyscall => s.threadExitSyscall

/-- Calls one after the other, as long as they return. -/
def performAll (s : CpuState Tid) :
    List (CpuCall Tid) → Except (CpuStop × CpuState Tid) (CpuState Tid)
  | [] => .ok s
  | call :: calls => (call.perform s).bind fun s => performAll s calls

/-- The call loads the task register. -/
def loads : CpuCall Tid → Bool
  | .updateIntStack _ => false
  | _ => true

end CpuCall

namespace CpuState

variable {Tid : Type}

/-- Every thread's storage has the stack that its flags choose, and the task state that of the
current thread. -/
structure StacksChosen (s : CpuState Tid) : Prop where
  threads : ∀ t, (s.thread t).threadLocalIntStack = (s.thread t).chosen
  esp0 : ∀ t, s.cpuCurrentThread = some t → s.tss.esp0 = (s.thread t).chosen

/-- How often the task register can still be loaded. -/
def loadsLeft (s : CpuState Tid) : ℕ :=
  if (s.gdt.ltr (selector segTss) s.memory).isSome then 1 else 0

variable {s : CpuState Tid}

/-- What `hal_after_thread_switch` makes of a state whose threads have their stacks. -/
theorem halAfterThreadSwitch_cases
    (threads : ∀ t, (s.thread t).threadLocalIntStack = (s.thread t).chosen) {current : Tid}
    (isCurrent : s.cpuCurrentThread = some current) :
    (∃ next, s.halAfterThreadSwitch = .ok next ∧ next.StacksChosen ∧ s.loadsLeft = 1 ∧
      next.loadsLeft = 0) ∨
    ∃ next, s.halAfterThreadSwitch = .error (.generalProtection, next) ∧ next.StacksChosen ∧
      s.loadsLeft = 0 := by
  let stored : CpuState Tid :=
    { s with tss := ⟨(s.thread current).threadLocalIntStack, selector segKdata, 0xffff⟩ }
  have isStored : s.halAfterThreadSwitch =
      match s.gdt.ltr (selector segTss) s.memory with
      | none => .error (.generalProtection, stored)
      | some memory => .ok { stored with memory := memory } := by
    rw [halAfterThreadSwitch]
    split
    · next noThread =>
        rw [isCurrent] at noThread
        contradiction
    · next t isT =>
        rw [isCurrent] at isT
        cases isT
        rfl
  have esp0 : ∀ t, s.cpuCurrentThread = some t →
      (s.thread current).threadLocalIntStack = (s.thread t).chosen := by
    intro t isT
    rw [isCurrent] at isT
    cases isT
    exact threads current
  rw [isStored]
  cases isLoaded : s.gdt.ltr (selector segTss) s.memory with
  | none =>
      refine Or.inr ⟨stored, rfl, ⟨threads, esp0⟩, ?_⟩
      rw [loadsLeft, isLoaded]
      rfl
  | some memory =>
      refine Or.inl ⟨{ stored with memory := memory }, rfl, ⟨threads, esp0⟩, ?_, ?_⟩
      · rw [loadsLeft, isLoaded]
        rfl
      · rw [loadsLeft, TableRegister.ltr_ltr isLoaded]
        rfl

end CpuState

namespace CpuCall

variable {Tid : Type} [DecidableEq Tid] {s : CpuState Tid}

theorem enter_chosen (thread : IntStacks) :
    thread.enter.threadLocalIntStack = thread.enter.chosen := by
  have isSet : thread.enter.tStateflags &&& threadSfIntstack2 = threadSfIntstack2 :=
    BitVec.setFlag_and_self ..
  rw [IntStacks.chosen, isSet]
  rfl

theorem leave_chosen (thread : IntStacks) :
    thread.leave.threadLocalIntStack = thread.leave.chosen := by
  have isClear : thread.leave.tStateflags &&& threadSfIntstack2 = 0 :=
    BitVec.clearFlag_and_self ..
  rw [IntStacks.chosen, isClear]
  rfl

/-- A thread that has its stack takes the place of another. -/
theorem threads_storeThread (threads : ∀ t, (s.thread t).threadLocalIntStack = (s.thread t).chosen)
    (t : Tid) {thread : IntStacks} (isChosen : thread.threadLocalIntStack = thread.chosen) :
    ∀ u, ((s.storeThread t thread).thread u).threadLocalIntStack =
      ((s.storeThread t thread).thread u).chosen := by
  intro u
  change (Function.update s.thread t thread u).threadLocalIntStack =
    (Function.update s.thread t thread u).chosen
  by_cases isT : u = t
  · rw [isT, Function.update_self]
    exact isChosen
  · rw [Function.update_of_ne isT]
    exact threads u

/-- What calls may come to when the task register can be loaded `left` times more, and they would
load it `loading` times. -/
def Outcome (left loading : ℕ) : Except (CpuStop × CpuState Tid) (CpuState Tid) → Prop
  | .ok next => next.StacksChosen ∧ loading ≤ left
  | .error (.generalProtection, next) => next.StacksChosen ∧ left < loading
  | .error (.nullThread, next) => next.cpuCurrentThread = none

omit [DecidableEq Tid] in
theorem Outcome.more {left loading : ℕ} {result : Except (CpuStop × CpuState Tid) (CpuState Tid)}
    (outcome : Outcome left loading result) : Outcome (left + 1) (loading + 1) result := by
  cases result with
  | ok next => exact ⟨outcome.1, Nat.succ_le_succ outcome.2⟩
  | error stopped =>
      rcases stopped with ⟨stop, next⟩
      cases stop with
      | generalProtection => exact ⟨outcome.1, Nat.succ_lt_succ outcome.2⟩
      | nullThread => exact outcome

/-- A call that loads the task register uses up what is left, or it ends with an exception. -/
theorem perform_loads (chosen : s.StacksChosen) {call : CpuCall Tid} (loads : call.loads = true) :
    (∃ next, call.perform s = .ok next ∧ next.StacksChosen ∧ s.loadsLeft = 1 ∧
      next.loadsLeft = 0) ∨
    (∃ next, call.perform s = .error (.generalProtection, next) ∧ next.StacksChosen ∧
      s.loadsLeft = 0) ∨
    (call.perform s = .error (.nullThread, s) ∧ s.cpuCurrentThread = none) := by
  cases call with
  | setCurrentThread t =>
      have switched := @CpuState.halAfterThreadSwitch_cases _ { s with cpuCurrentThread := some t }
        chosen.threads t rfl
      exact switched.imp_right Or.inl
  | updateIntStack t => contradiction
  | enterSyscall =>
      cases isCurrent : s.cpuCurrentThread with
      | none =>
          right
          right
          refine ⟨?_, rfl⟩
          rw [perform, CpuState.threadEnterSyscall, isCurrent]
      | some t =>
          have entered := CpuState.halAfterThreadSwitch_cases
            (threads_storeThread chosen.threads t (enter_chosen (s.thread t))) isCurrent
          rw [perform, CpuState.threadEnterSyscall, isCurrent]
          exact entered.imp_right Or.inl
  | exitSyscall =>
      cases isCurrent : s.cpuCurrentThread with
      | none =>
          right
          right
          refine ⟨?_, rfl⟩
          rw [perform, CpuState.threadExitSyscall, isCurrent]
      | some t =>
          have exited := CpuState.halAfterThreadSwitch_cases
            (threads_storeThread chosen.threads t (leave_chosen (s.thread t))) isCurrent
          rw [perform, CpuState.threadExitSyscall, isCurrent]
          exact exited.imp_right Or.inl

theorem updateIntStack_chosen (chosen : s.StacksChosen) (t : Tid) :
    (s.threadUpdateIntStack t).StacksChosen ∧
      (s.threadUpdateIntStack t).loadsLeft = s.loadsLeft := by
  have same : { s.thread t with threadLocalIntStack := (s.thread t).chosen } = s.thread t := by
    rw [← chosen.threads t]
  rw [CpuState.threadUpdateIntStack, same]
  have unchanged : s.storeThread t (s.thread t) = s := by
    rw [CpuState.storeThread, Function.update_eq_self]
  rw [unchanged]
  exact ⟨chosen, rfl⟩

theorem performAll_outcome (chosen : s.StacksChosen) (calls : List (CpuCall Tid)) :
    Outcome s.loadsLeft (calls.countP loads) (performAll s calls) := by
  induction calls generalizing s with
  | nil => exact ⟨chosen, Nat.zero_le _⟩
  | cons call calls ih =>
      rw [performAll]
      cases isLoad : call.loads with
      | false =>
          cases call with
          | updateIntStack t =>
              rcases updateIntStack_chosen chosen t with ⟨next, left⟩
              rw [List.countP_cons_of_neg (by rw [isLoad]; decide), ← left]
              exact ih next
          | setCurrentThread t => contradiction
          | enterSyscall => contradiction
          | exitSyscall => contradiction
      | true =>
          rw [List.countP_cons_of_pos isLoad]
          rcases perform_loads chosen isLoad with
            ⟨next, isOk, nextChosen, left, nothing⟩ | ⟨next, isError, nextChosen, left⟩ |
            ⟨isError, noThread⟩
          · have later := ih nextChosen
            rw [nothing] at later
            rw [isOk, left]
            exact later.more
          · rw [isError, left]
            exact ⟨nextChosen, Nat.succ_pos _⟩
          · rw [isError]
            exact noThread

/-- A CPU behind `hal_initcpu`, with threads as `thread_allocate` makes them. -/
structure Booted (s : CpuState Tid) (gdt tss cpuLocal : Word) (memory : Memory) : Prop where
  isGdt : s.gdt = (halInitcpu gdt tss cpuLocal memory).1
  isMemory : s.memory = (halInitcpu gdt tss cpuLocal memory).2
  noThread : s.cpuCurrentThread = none
  noFlags : ∀ t, (s.thread t).tStateflags = 0
  firstStack : ∀ t, (s.thread t).threadLocalIntStack = (s.thread t).tIstacks 0

/-- The task register is loaded once. Of all calls that load it, the first returns and the second
ends with an exception; up to then, and there too, the task state has the stack that the flags of
the current thread choose. -/
theorem performAll_booted {gdt tss cpuLocal : Word} {memory : Memory}
    (booted : Booted s gdt tss cpuLocal memory) (calls : List (CpuCall Tid)) :
    Outcome 1 (calls.countP loads) (performAll s calls) := by
  have threads : ∀ t, (s.thread t).threadLocalIntStack = (s.thread t).chosen := by
    intro t
    rw [booted.firstStack t, IntStacks.chosen, booted.noFlags t]
    rfl
  have chosen : s.StacksChosen := by
    refine ⟨threads, ?_⟩
    intro t isCurrent
    rw [booted.noThread] at isCurrent
    contradiction
  have left : s.loadsLeft = 1 := by
    rcases halInitcpu_linear gdt tss cpuLocal memory with ⟨-, -, ⟨d, isEntry, type, present,
      system, -⟩, -⟩
    have index : (selector segTss).toNat / 8 = segTss := by decide
    rw [CpuState.loadsLeft, booted.isGdt, booted.isMemory, TableRegister.ltr, index, isEntry,
      Option.bind_some, type, present, system]
    rfl
  rw [← left]
  exact performAll_outcome chosen calls

/-- The first thread is set, makes a system call, and does not come back. -/
theorem performAll_booted_syscall :
    let tables := halInitcpu 0x1000 0x1038 0x2000 fun _ => 0
    let s : CpuState Bool :=
      ⟨none, fun t => ⟨0, fun _ => cond t 0x8000 0x9000, cond t 0x8000 0x9000⟩, ⟨0, 0, 0⟩,
        tables.1, tables.2⟩
    Outcome 1 2 (performAll s [.setCurrentThread true, .updateIntStack false, .enterSyscall]) :=
  performAll_booted ⟨rfl, rfl, rfl, fun _ => rfl, fun _ => rfl⟩
    [.setCurrentThread true, .updateIntStack false, .enterSyscall]

end CpuCall

end Rkernel
