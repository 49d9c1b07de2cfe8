import Mathlib.Algebra.BigOperators.Group.Finset.Basic
import Mathlib.Algebra.Order.BigOperators.Group.Finset
import Mathlib.Data.Fintype.Card
import Rkernel.Lib.Transition

/-!
# References to a protection domain

`pd_grab` and `pd_drop` (`vm/protection_domain.c`) count the references to a protection domain
under `pd_refclock`, and the drop that takes the counter to 0 frees the domain behind the lock.
Any number of threads call them; a step is a single access to the lock or to the counter. A thread
only grabs a domain it has a reference to, and drops its own references; references may be passed
on. The domain of the kernel is not counted.

A drop has tested the counter under the lock, but frees the domain after it has released it. No
other thread can come in between: the thread that finds 0 has dropped the last reference.
-/

namespace Rkernel

/-- Where a thread is in `pd_grab` or `pd_drop`: before it takes the lock, loads the counter,
stores it, tests it, releases the lock, or returns with `f`. -/
inductive PdPc where
  | idle
  | grabLock
  | grabLoad
  | grabStore (loaded : BitVec 32)
  | grabUnlock
  | dropLock
  | dropLoad
  | dropStore (loaded : BitVec 32)
  | dropTest
  | dropUnlock (f : Bool)
  | dropReturn (f : Bool)
  deriving DecidableEq

namespace PdPc

/-- The thread holds `pd_refclock`. -/
def InSection : PdPc → Prop
  | .grabLoad | .grabStore _ | .grabUnlock => True
  | .dropLoad | .dropStore _ | .dropTest | .dropUnlock _ => True
  | _ => False

def Grabs : PdPc → Prop
  | .grabLock | .grabLoad | .grabStore _ | .grabUnlock => True
  | _ => False

/-- The thread is going to access the domain. -/
def Touches : PdPc → Prop
  | .idle | .dropReturn _ => False
  | _ => True

/-- If the counter is 0, the thread is the one that frees the domain. -/
def Frees : PdPc → Prop
  | .dropTest | .dropUnlock false | .dropReturn false => True
  | _ => False

/-- A reference that is counted in `pd_refc`, but is not held any more, or not yet. -/
def counted : PdPc → ℕ
  | .grabUnlock | .dropLock | .dropLoad | .dropStore _ => 1
  | _ => 0

end PdPc

/-- A protection domain, the threads, the references that each of them holds, and how often
`zfree` was called. -/
structure DomainRun (Tid : Type) where
  isKernel : Bool
  pdRefc : BitVec 32
  pdRefclock : Option Tid
  freed : ℕ
  pc : Tid → PdPc
  held : Tid → ℕ

/-- What a thread does: it begins a call, hands a reference on, or goes on in its call. -/
inductive DomainAction (Tid : Type) where
  | pdGrab
  | pdDrop
  | pass (receiver : Tid)
  | advance

namespace DomainRun

variable {Tid : Type} [DecidableEq Tid]

def goto (state : DomainRun Tid) (thread : Tid) (pc : PdPc) : DomainRun Tid :=
  { state with pc := Function.update state.pc thread pc }

def setHeld (state : DomainRun Tid) (thread : Tid) (count : ℕ) : DomainRun Tid :=
  { state with held := Function.update state.held thread count }

/-- The begin of `pd_grab`. -/
def pdGrab (state : DomainRun Tid) (thread : Tid) : DomainRun Tid :=
  if state.isKernel then state.setHeld thread (state.held thread + 1)
  else state.goto thread .grabLock

/-- The begin of `pd_drop`. -/
def pdDrop (state : DomainRun Tid) (thread : Tid) : DomainRun Tid :=
  let dropped := state.setHeld thread (state.held thread - 1)
  if state.isKernel then dropped else dropped.goto thread .dropLock

/-- A reference is given to another thread. -/
def pass (state : DomainRun Tid) (thread receiver : Tid) : DomainRun Tid :=
  let given := state.setHeld thread (state.held thread - 1)
  given.setHeld receiver (given.held receiver + 1)

/-- One try to take the lock. -/
def tryLock (state : DomainRun Tid) (thread : Tid) (locked : PdPc) : DomainRun Tid :=
  match state.pdRefclock with
  | none => { state.goto thread locked with pdRefclock := some thread }
  | some _ => state

/-- The next step of a thread in one of the two functions. -/
def advance (state : DomainRun Tid) (thread : Tid) : DomainRun Tid :=
  match state.pc thread with
  | .idle => state
  | .grabLock => state.tryLock thread .grabLoad
  | .grabLoad => state.goto thread (.grabStore state.pdRefc)
  | .grabStore loaded => { state.goto thread .grabUnlock with pdRefc := loaded + 1 }
  | .grabUnlock =>
      { (state.setHeld thread (state.held thread + 1)).goto thread .idle with pdRefclock := none }
  | .dropLock => state.tryLock thread .dropLoad
  | .dropLoad => state.goto thread (.dropStore state.pdRefc)
  | .dropStore loaded => { state.goto thread .dropTest with pdRefc := loaded - 1 }
  | .dropTest => state.goto thread (.dropUnlock (state.pdRefc ≠ 0))
  | .dropUnlock f => { state.goto thread (.dropReturn f) with pdRefclock := none }
  | .dropReturn true => state.goto thread .idle
  | .dropReturn false => { state.goto thread .idle with freed := state.freed + 1 }

/-- The references of a thread that are counted. -/
def units (state : DomainRun Tid) (thread : Tid) : ℕ :=
  state.held thread + (state.pc thread).counted

open scoped BigOperators in
def references [Fintype Tid] (state : DomainRun Tid) : ℕ :=
  ∑ thread, state.units thread

end DomainRun

/-- The calls of `pd_grab` and `pd_drop` for a domain with as many references as it counts. -/
def domainSystem (Tid : Type) [DecidableEq Tid] [Fintype Tid] :
    TransitionSystem (DomainRun Tid) (Tid × DomainAction Tid) where
  init state := (∀ thread, state.pc thread = .idle) ∧ state.pdRefclock = none ∧
    state.freed = 0 ∧ (state.isKernel = false → 0 < state.references ∧
      state.pdRefc.toNat = state.references)
  step state label next :=
    match label with
    | (thread, .pdGrab) =>
        state.pc thread = .idle ∧ 0 < state.held thread ∧ next = state.pdGrab thread
    | (thread, .pdDrop) =>
        state.pc thread = .idle ∧ 0 < state.held thread ∧ next = state.pdDrop thread
    | (thread, .pass receiver) =>
        state.pc thread = .idle ∧ 0 < state.held thread ∧ next = state.pass thread receiver
    | (thread, .advance) => state.pc thread ≠ .idle ∧ next = state.advance thread

/-- There are never more references than `pd_refc` can count: with `2 ^ 32` of them it is 0 again,
and the next drop that comes back to 0 frees a domain in use. -/
def ReferencesFit {Tid : Type} [DecidableEq Tid] [Fintype Tid] (_ : DomainRun Tid)
    (_ : Tid × DomainAction Tid) (next : DomainRun Tid) : Prop :=
  next.references < 2 ^ 32

namespace DomainRun

/-- The domain is freed at most once, behind the last reference, and nobody accesses it then; and
it is freed if there are no references and no calls any more. -/
structure Safe {Tid : Type} [DecidableEq Tid] [Fintype Tid] (state : DomainRun Tid) : Prop where
  behindLast : state.freed ≠ 0 → state.isKernel = false ∧ state.freed = 1 ∧
    (∀ thread, state.held thread = 0) ∧ ∀ thread, ¬(state.pc thread).Touches
  notLeaked : state.isKernel = false → (∀ thread, state.pc thread = .idle) →
    (∀ thread, state.held thread = 0) → state.freed = 1

/-- The invariant of a domain that is counted. -/
structure Counts {Tid : Type} [DecidableEq Tid] [Fintype Tid] (state : DomainRun Tid) : Prop where
  refc : state.pdRefc.toNat = state.references
  lock : ∀ thread, state.pdRefclock = some thread ↔ (state.pc thread).InSection
  loaded : ∀ thread loaded, state.pc thread = .grabStore loaded ∨
    state.pc thread = .dropStore loaded → loaded = state.pdRefc
  tested : ∀ thread f, state.pc thread = .dropUnlock f → f = decide (state.pdRefc ≠ 0)
  grabs : ∀ thread, (state.pc thread).Grabs → 0 < state.held thread
  alive : state.references ≠ 0 → state.freed = 0 ∧ ∀ thread, state.pc thread ≠ .dropReturn false
  dead : state.references = 0 → state.freed = 1 ∧ (∀ thread, ¬(state.pc thread).Frees) ∨
    state.freed = 0 ∧ ∃ thread, (state.pc thread).Frees ∧
      ∀ other, (state.pc other).Frees → other = thread

variable {Tid : Type} [DecidableEq Tid] [Fintype Tid] {state next : DomainRun Tid}
  {thread : Tid}

section References

open scoped BigOperators

/-- Only one thread's references change. -/
theorem references_of_local (others : ∀ other, other ≠ thread →
    next.units other = state.units other) :
    next.references + state.units thread = state.references + next.units thread := by
  have before := Finset.add_sum_erase Finset.univ state.units (Finset.mem_univ thread)
  have after := Finset.add_sum_erase Finset.univ next.units (Finset.mem_univ thread)
  have rest : ∑ other ∈ Finset.univ.erase thread, next.units other =
      ∑ other ∈ Finset.univ.erase thread, state.units other :=
    Finset.sum_congr rfl fun other otherMem => others other (Finset.ne_of_mem_erase otherMem)
  rw [rest] at after
  rw [references, references]
  omega

omit [DecidableEq Tid] in
theorem units_le_references (state : DomainRun Tid) (thread : Tid) :
    state.units thread ≤ state.references :=
  Finset.single_le_sum (fun _ _ => Nat.zero_le _) (Finset.mem_univ thread)

omit [DecidableEq Tid] in
theorem references_congr (same : ∀ thread, next.units thread = state.units thread) :
    next.references = state.references :=
  Finset.sum_congr rfl fun thread _ => same thread

omit [Fintype Tid] in
/-- A thread that moves on with as many references counted. -/
theorem units_moved {target : PdPc} (sameHeld : next.held = state.held)
    (moved : next.pc = Function.update state.pc thread target)
    (sameCount : target.counted = (state.pc thread).counted) (other : Tid) :
    next.units other = state.units other := by
  rw [units, units, sameHeld, moved]
  rcases eq_or_ne other thread with rfl | isOther
  · rw [Function.update_self, sameCount]
  · rw [Function.update_of_ne isOther]

theorem references_pass (holds : 0 < state.held thread) (receiver : Tid) :
    (state.pass thread receiver).references = state.references := by
  have given : (state.setHeld thread (state.held thread - 1)).references + state.units thread =
      state.references + (state.setHeld thread (state.held thread - 1)).units thread := by
    apply references_of_local
    intro other isOther
    simp only [units, setHeld, Function.update_of_ne isOther]
  have received := @references_of_local Tid _ _ (state.setHeld thread (state.held thread - 1))
    (state.pass thread receiver) receiver fun other isOther => by
      simp only [units, pass, setHeld, Function.update_of_ne isOther]
  have oneLess : (state.setHeld thread (state.held thread - 1)).units thread + 1 =
      state.units thread := by
    simp only [units, setHeld, Function.update_self]
    omega
  have oneMore : (state.pass thread receiver).units receiver =
      (state.setHeld thread (state.held thread - 1)).units receiver + 1 := by
    simp only [units, pass, setHeld, Function.update_self]
    omega
  omega

end References

namespace Counts

omit [DecidableEq Tid] in
/-- A thread that holds a reference is counted. -/
theorem references_pos (holds : 0 < state.held thread) : state.references ≠ 0 := by
  have unitsLe := state.units_le_references thread
  rw [units] at unitsLe
  omega

theorem grabs_moved (counts : state.Counts) {target : PdPc} (sameHeld : next.held = state.held)
    (moved : next.pc = Function.update state.pc thread target)
    (grabs : target.Grabs → 0 < state.held thread) (other : Tid)
    (isGrab : (next.pc other).Grabs) : 0 < next.held other := by
  rw [moved] at isGrab
  rw [sameHeld]
  rcases eq_or_ne other thread with rfl | isOther
  · rw [Function.update_self] at isGrab
    exact grabs isGrab
  · rw [Function.update_of_ne isOther] at isGrab
    exact counts.grabs other isGrab

theorem loaded_moved (counts : state.Counts) {target : PdPc}
    (moved : next.pc = Function.update state.pc thread target)
    (loads : ∀ loaded, target = .grabStore loaded ∨ target = .dropStore loaded →
      loaded = state.pdRefc) (other : Tid) (loaded : BitVec 32)
    (isStore : next.pc other = .grabStore loaded ∨ next.pc other = .dropStore loaded) :
    loaded = state.pdRefc := by
  rw [moved] at isStore
  rcases eq_or_ne other thread with rfl | isOther
  · rw [Function.update_self] at isStore
    exact loads loaded isStore
  · rw [Function.update_of_ne isOther] at isStore
    exact counts.loaded other loaded isStore

theorem tested_moved (counts : state.Counts) {target : PdPc}
    (moved : next.pc = Function.update state.pc thread target)
    (tests : ∀ f, target = .dropUnlock f → f = decide (state.pdRefc ≠ 0)) (other : Tid) (f : Bool)
    (isUnlock : next.pc other = .dropUnlock f) : f = decide (state.pdRefc ≠ 0) := by
  rw [moved] at isUnlock
  rcases eq_or_ne other thread with rfl | isOther
  · rw [Function.update_self] at isUnlock
    exact tests f isUnlock
  · rw [Function.update_of_ne isOther] at isUnlock
    exact counts.tested other f isUnlock

/-- A step that leaves the counter, the references and `zfree` alone. -/
theorem move (counts : state.Counts) (target : PdPc) (sameRefc : next.pdRefc = state.pdRefc)
    (sameFreed : next.freed = state.freed)
    (sameUnits : ∀ other, next.units other = state.units other)
    (moved : next.pc = Function.update state.pc thread target)
    (locked : ∀ other, next.pdRefclock = some other ↔ (next.pc other).InSection)
    (loads : ∀ loaded, target = .grabStore loaded ∨ target = .dropStore loaded →
      loaded = state.pdRefc)
    (tests : ∀ f, target = .dropUnlock f → f = decide (state.pdRefc ≠ 0))
    (grabs : ∀ other, (next.pc other).Grabs → 0 < next.held other)
    (frees : state.references = 0 → (target.Frees ↔ (state.pc thread).Frees))
    (returns : state.references ≠ 0 → target ≠ .dropReturn false) : next.Counts := by
  have sameReferences := references_congr sameUnits
  have elsewhere {other : Tid} (isOther : other ≠ thread) : next.pc other = state.pc other := by
    rw [moved, Function.update_of_ne isOther]
  have here : next.pc thread = target := by rw [moved, Function.update_self]
  refine ⟨by rw [sameRefc, sameReferences, counts.refc], locked, ?_, ?_, grabs, ?_, ?_⟩
  · rw [sameRefc]
    exact counts.loaded_moved moved loads
  · rw [sameRefc]
    exact counts.tested_moved moved tests
  · intro isAlive
    rw [sameReferences] at isAlive
    rcases counts.alive isAlive with ⟨notFreed, noReturn⟩
    refine ⟨sameFreed.trans notFreed, ?_⟩
    intro other
    rcases eq_or_ne other thread with rfl | isOther
    · rw [here]
      exact returns isAlive
    · rw [elsewhere isOther]
      exact noReturn other
  · intro isDead
    rw [sameReferences] at isDead
    have sameFrees (other : Tid) : (next.pc other).Frees ↔ (state.pc other).Frees := by
      rcases eq_or_ne other thread with rfl | isOther
      · rw [here]
        exact frees isDead
      · rw [elsewhere isOther]
    simp only [sameFrees, sameFreed]
    exact counts.dead isDead

/-- The lock stays as it is in a step that neither takes nor releases it. -/
theorem locked_goto (counts : state.Counts) {target : PdPc}
    (sameLock : next.pdRefclock = state.pdRefclock)
    (moved : next.pc = Function.update state.pc thread target)
    (sameSection : target.InSection ↔ (state.pc thread).InSection) (other : Tid) :
    next.pdRefclock = some other ↔ (next.pc other).InSection := by
  rw [sameLock, counts.lock, moved]
  rcases eq_or_ne other thread with rfl | isOther
  · rw [Function.update_self, sameSection]
  · rw [Function.update_of_ne isOther]

theorem locked_take (counts : state.Counts) {target : PdPc} (isFree : state.pdRefclock = none)
    (taken : next.pdRefclock = some thread)
    (moved : next.pc = Function.update state.pc thread target) (inSection : target.InSection)
    (other : Tid) : next.pdRefclock = some other ↔ (next.pc other).InSection := by
  rw [taken, moved]
  rcases eq_or_ne other thread with rfl | isOther
  · rw [Function.update_self]
    exact iff_of_true rfl inSection
  · rw [Function.update_of_ne isOther, ← counts.lock other, isFree, Option.some.injEq]
    exact iff_of_false isOther.symm nofun

theorem locked_release (counts : state.Counts) (target : PdPc)
    (inSection : (state.pc thread).InSection) (released : next.pdRefclock = none)
    (moved : next.pc = Function.update state.pc thread target) (outside : ¬target.InSection)
    (other : Tid) : next.pdRefclock = some other ↔ (next.pc other).InSection := by
  have holder := (counts.lock thread).mpr inSection
  rw [released, moved]
  rcases eq_or_ne other thread with rfl | isOther
  · rw [Function.update_self]
    exact iff_of_false nofun outside
  · rw [Function.update_of_ne isOther, ← counts.lock other, holder, Option.some.injEq]
    exact iff_of_false nofun isOther.symm

variable {receiver : Tid}

theorem tryLock (counts : state.Counts) (locked : PdPc)
    (sameCount : locked.counted = (state.pc thread).counted) (inSection : locked.InSection)
    (noStore : ∀ loaded, ¬(locked = .grabStore loaded ∨ locked = .dropStore loaded))
    (noUnlock : ∀ f, locked ≠ .dropUnlock f)
    (grabs : locked.Grabs → (state.pc thread).Grabs) (noFrees : ¬locked.Frees)
    (before : ¬(state.pc thread).Frees) : (state.tryLock thread locked).Counts := by
  rw [DomainRun.tryLock]
  split
  · next isFree =>
      refine counts.move locked rfl rfl (units_moved rfl rfl sameCount) rfl
        (counts.locked_take isFree rfl rfl inSection)
        (fun loaded isStore => absurd isStore (noStore loaded))
        (fun f isUnlock => absurd isUnlock (noUnlock f))
        (counts.grabs_moved rfl rfl fun isGrab => counts.grabs thread (grabs isGrab))
        (fun _ => iff_of_false noFrees before) ?_
      intro _ isReturn
      rw [isReturn] at noFrees
      exact noFrees trivial
  · exact counts

/-- A step that only moves one thread on. -/
theorem goto (counts : state.Counts) (target : PdPc)
    (sameCount : target.counted = (state.pc thread).counted)
    (sameSection : target.InSection ↔ (state.pc thread).InSection)
    (loads : ∀ loaded, target = .grabStore loaded ∨ target = .dropStore loaded →
      loaded = state.pdRefc)
    (tests : ∀ f, target = .dropUnlock f → f = decide (state.pdRefc ≠ 0))
    (grabs : target.Grabs → 0 < state.held thread)
    (frees : state.references = 0 → (target.Frees ↔ (state.pc thread).Frees))
    (returns : state.references ≠ 0 → target ≠ .dropReturn false) :
    (state.goto thread target).Counts :=
  counts.move target rfl rfl (units_moved rfl rfl sameCount) rfl
    (counts.locked_goto rfl rfl sameSection) loads tests (counts.grabs_moved rfl rfl grabs) frees
    returns

theorem refc_eq_zero_iff (counts : state.Counts) : state.pdRefc = 0 ↔ state.references = 0 := by
  rw [← counts.refc]
  constructor
  · intro isZero
    rw [isZero]
    rfl
  · exact fun isZero => BitVec.eq_of_toNat_eq isZero

theorem pass (counts : state.Counts) (isIdle : state.pc thread = .idle)
    (holds : 0 < state.held thread) (receiver : Tid) :
    (state.pass thread receiver).Counts := by
  have sameReferences := references_pass holds receiver
  refine ⟨counts.refc.trans sameReferences.symm, counts.lock, counts.loaded, counts.tested, ?_, ?_,
    ?_⟩
  · intro other isGrab
    have notThread : other ≠ thread := by
      rintro rfl
      change (state.pc other).Grabs at isGrab
      rw [isIdle] at isGrab
      exact isGrab
    have before := counts.grabs other isGrab
    change 0 < Function.update (Function.update state.held thread (state.held thread - 1)) receiver
      (Function.update state.held thread (state.held thread - 1) receiver + 1) other
    rcases eq_or_ne other receiver with rfl | notReceiver
    · rw [Function.update_self]
      omega
    · rw [Function.update_of_ne notReceiver, Function.update_of_ne notThread]
      exact before
  · rw [sameReferences]
    exact counts.alive
  · rw [sameReferences]
    exact counts.dead

theorem pdDrop (counts : state.Counts) (isIdle : state.pc thread = .idle)
    (holds : 0 < state.held thread)
    (isNext : next = (state.setHeld thread (state.held thread - 1)).goto thread .dropLock) :
    next.Counts := by
  subst isNext
  refine counts.move .dropLock rfl rfl ?_ rfl ?_ (by simp) (by simp) ?_ ?_ (by simp)
  · intro other
    simp only [units, DomainRun.goto, setHeld]
    rcases eq_or_ne other thread with rfl | isOther
    · rw [Function.update_self, Function.update_self, isIdle]
      simp only [PdPc.counted]
      omega
    · rw [Function.update_of_ne isOther, Function.update_of_ne isOther]
  · refine counts.locked_goto rfl rfl ?_
    rw [isIdle]
    rfl
  · intro other
    change (Function.update state.pc thread .dropLock other).Grabs →
      0 < Function.update state.held thread (state.held thread - 1) other
    rcases eq_or_ne other thread with rfl | isOther
    · rw [Function.update_self]
      exact False.elim
    · rw [Function.update_of_ne isOther, Function.update_of_ne isOther]
      exact counts.grabs other
  · rw [isIdle]
    exact fun _ => Iff.rfl

theorem grabUnlock (counts : state.Counts) (isUnlock : state.pc thread = .grabUnlock)
    (isNext : next = { (state.setHeld thread (state.held thread + 1)).goto thread .idle with
      pdRefclock := none }) : next.Counts := by
  subst isNext
  refine counts.move .idle rfl rfl ?_ rfl ?_ (by simp) (by simp) ?_ ?_ (by simp)
  · intro other
    simp only [units, DomainRun.goto, setHeld]
    rcases eq_or_ne other thread with rfl | isOther
    · rw [Function.update_self, Function.update_self, isUnlock]
      simp only [PdPc.counted]
    · rw [Function.update_of_ne isOther, Function.update_of_ne isOther]
  · refine counts.locked_release .idle ?_ rfl rfl id
    rw [isUnlock]
    trivial
  · intro other
    change (Function.update state.pc thread .idle other).Grabs →
      0 < Function.update state.held thread (state.held thread + 1) other
    rcases eq_or_ne other thread with rfl | isOther
    · rw [Function.update_self]
      exact False.elim
    · rw [Function.update_of_ne isOther, Function.update_of_ne isOther]
      exact counts.grabs other
  · rw [isUnlock]
    exact fun _ => Iff.rfl

theorem dropUnlock (counts : state.Counts) {f : Bool} (isUnlock : state.pc thread = .dropUnlock f)
    (isNext : next = { state.goto thread (.dropReturn f) with pdRefclock := none }) :
    next.Counts := by
  subst isNext
  have inSection : (state.pc thread).InSection := by
    rw [isUnlock]
    trivial
  refine counts.move (.dropReturn f) rfl rfl (units_moved rfl rfl ?_) rfl
    (counts.locked_release (.dropReturn f) inSection rfl rfl id) (by simp) (by simp)
    (counts.grabs_moved rfl rfl False.elim) ?_ ?_
  · rw [isUnlock]
    rfl
  · rw [isUnlock]
    cases f with
    | false => exact fun _ => Iff.rfl
    | true => exact fun _ => Iff.rfl
  · intro isAlive isReturn
    have isFalse : f = false := by
      cases isReturn
      rfl
    have tested := counts.tested thread f isUnlock
    rw [isFalse, eq_comm, decide_eq_false_iff_not, not_not, counts.refc_eq_zero_iff] at tested
    exact isAlive tested

/-- The holder of the lock is the only thread between the lock and its release. -/
theorem eq_of_inSection (counts : state.Counts) {other : Tid}
    (inSection : (state.pc thread).InSection) (otherIn : (state.pc other).InSection) :
    other = thread := by
  have holder := (counts.lock thread).mpr inSection
  rw [← counts.lock other, holder, Option.some.injEq] at otherIn
  exact otherIn.symm

/-- The holder of the lock stores the counter; no other thread has loaded or tested it. -/
theorem store (counts : state.Counts) (target : PdPc) {value : BitVec 32}
    (inSection : (state.pc thread).InSection) (targetIn : target.InSection)
    (noStore : ∀ loaded, ¬(target = .grabStore loaded ∨ target = .dropStore loaded))
    (noUnlock : ∀ f, target ≠ .dropUnlock f) (noReturn : target ≠ .dropReturn false)
    (grabs : target.Grabs → (state.pc thread).Grabs)
    (isNext : next = { state.goto thread target with pdRefc := value })
    (isValue : value.toNat = next.references) (before : state.references ≠ 0)
    (dead : next.references = 0 → target.Frees) : next.Counts := by
  have sameSection : target.InSection ↔ (state.pc thread).InSection :=
    iff_of_true targetIn inSection
  have locked := @locked_goto _ _ _ state next thread counts target (by rw [isNext]; rfl)
    (by rw [isNext]; rfl) sameSection
  have here : next.pc thread = target := by rw [isNext]; exact Function.update_self _ _ _
  have elsewhere {other : Tid} (isOther : other ≠ thread) : next.pc other = state.pc other := by
    rw [isNext]
    exact Function.update_of_ne isOther _ _
  have outside {other : Tid} (isOther : other ≠ thread) : ¬(state.pc other).InSection :=
    fun otherIn => isOther (counts.eq_of_inSection inSection otherIn)
  rcases counts.alive before with ⟨notFreed, noFree⟩
  have stillNotFreed : next.freed = 0 := by rw [isNext]; exact notFreed
  refine ⟨by rw [← isValue, isNext], locked, ?_, ?_, ?_, ?_, ?_⟩
  · intro other loaded isStore
    rcases eq_or_ne other thread with rfl | isOther
    · rw [here] at isStore
      exact absurd isStore (noStore loaded)
    · rw [elsewhere isOther] at isStore
      refine absurd ?_ (outside isOther)
      rcases isStore with isStore | isStore
      · rw [isStore]
        trivial
      · rw [isStore]
        trivial
  · intro other f isUnlock
    rcases eq_or_ne other thread with rfl | isOther
    · rw [here] at isUnlock
      exact absurd isUnlock (noUnlock f)
    · rw [elsewhere isOther] at isUnlock
      refine absurd ?_ (outside isOther)
      rw [isUnlock]
      trivial
  · intro other isGrab
    have sameHeld : next.held = state.held := by rw [isNext]; rfl
    rw [sameHeld]
    rcases eq_or_ne other thread with rfl | isOther
    · rw [here] at isGrab
      exact counts.grabs other (grabs isGrab)
    · rw [elsewhere isOther] at isGrab
      exact counts.grabs other isGrab
  · intro _
    refine ⟨stillNotFreed, ?_⟩
    intro other
    rcases eq_or_ne other thread with rfl | isOther
    · rw [here]
      exact noReturn
    · rw [elsewhere isOther]
      exact noFree other
  · intro isDead
    refine Or.inr ⟨stillNotFreed, thread, by rw [here]; exact dead isDead, ?_⟩
    intro other isFree
    by_contra isOther
    rw [elsewhere isOther] at isFree
    have notIn := outside isOther
    have notReturn := noFree other
    generalize state.pc other = pc at isFree notIn notReturn
    cases pc with
    | dropTest => exact notIn trivial
    | dropUnlock f => exact notIn trivial
    | dropReturn f =>
        cases f with
        | false => exact notReturn rfl
        | true => exact isFree
    | _ => exact isFree

theorem grabStore (counts : state.Counts) {loaded : BitVec 32}
    (isStore : state.pc thread = .grabStore loaded)
    (isNext : next = { state.goto thread .grabUnlock with pdRefc := loaded + 1 })
    (fits : next.references < 2 ^ 32) : next.Counts := by
  have holds : 0 < state.held thread := counts.grabs thread (by rw [isStore]; trivial)
  have isLoaded := counts.loaded thread loaded (Or.inl isStore)
  have one : (1 : BitVec 32).toNat = 1 := rfl
  have oneMore : next.references = state.references + 1 := by
    have sums := @references_of_local _ _ _ state next thread fun other isOther => by
      rw [isNext]
      simp only [units, DomainRun.goto, Function.update_of_ne isOther]
    have here : next.units thread = state.units thread + 1 := by
      rw [isNext]
      simp only [units, DomainRun.goto, Function.update_self, isStore, PdPc.counted]
    omega
  refine counts.store .grabUnlock ?_ trivial (by simp) (by simp) (by simp) ?_ isNext ?_
    (references_pos holds) ?_
  · rw [isStore]
    trivial
  · intro _
    rw [isStore]
    trivial
  · rw [isLoaded, BitVec.toNat_add, counts.refc, one]
    omega
  · intro isZero
    omega

theorem dropStore (counts : state.Counts) {loaded : BitVec 32}
    (isStore : state.pc thread = .dropStore loaded)
    (isNext : next = { state.goto thread .dropTest with pdRefc := loaded - 1 }) : next.Counts := by
  have isLoaded := counts.loaded thread loaded (Or.inr isStore)
  have one : (1 : BitVec 32).toNat = 1 := rfl
  have oneLess : next.references + 1 = state.references := by
    have sums := @references_of_local _ _ _ state next thread fun other isOther => by
      rw [isNext]
      simp only [units, DomainRun.goto, Function.update_of_ne isOther]
    have here : next.units thread + 1 = state.units thread := by
      rw [isNext]
      simp only [units, DomainRun.goto, Function.update_self, isStore, PdPc.counted]
    omega
  have refcLt := state.pdRefc.isLt
  have refc := counts.refc
  refine counts.store .dropTest ?_ trivial (by simp) (by simp) (by simp) False.elim isNext ?_
    (by omega) (fun _ => trivial)
  · rw [isStore]
    trivial
  · rw [isLoaded, BitVec.toNat_sub, one]
    omega

/-- The thread that found 0 frees the domain. -/
theorem free (counts : state.Counts) (isReturn : state.pc thread = .dropReturn false)
    (isNext : next = { state.goto thread .idle with freed := state.freed + 1 }) : next.Counts := by
  have isDead : state.references = 0 := by
    by_contra isAlive
    exact (counts.alive isAlive).2 thread isReturn
  have frees : (state.pc thread).Frees := by
    rw [isReturn]
    trivial
  have sameCount : PdPc.idle.counted = (state.pc thread).counted := by
    rw [isReturn]
    rfl
  subst isNext
  have sameUnits : ∀ other, units { state.goto thread .idle with freed := state.freed + 1 } other =
      state.units other := units_moved rfl rfl sameCount
  have sameReferences := references_congr sameUnits
  refine ⟨counts.refc.trans sameReferences.symm, ?_, counts.loaded_moved rfl (by simp),
    counts.tested_moved rfl (by simp), counts.grabs_moved rfl rfl False.elim, ?_, ?_⟩
  · refine counts.locked_goto rfl rfl ?_
    rw [isReturn]
    rfl
  · intro isAlive
    exact absurd (sameReferences.trans isDead) isAlive
  · intro _
    rcases counts.dead isDead with ⟨-, noFree⟩ | ⟨notFreed, free, isFree, onlyFree⟩
    · exact absurd frees (noFree thread)
    · refine Or.inl ⟨congrArg (· + 1) notFreed, ?_⟩
      intro other
      change ¬(Function.update state.pc thread .idle other).Frees
      rcases eq_or_ne other thread with rfl | isOther
      · rw [Function.update_self]
        exact id
      · rw [Function.update_of_ne isOther]
        intro otherFrees
        exact isOther ((onlyFree other otherFrees).trans (onlyFree thread frees).symm)

theorem advance (counts : state.Counts) (fits : (state.advance thread).references < 2 ^ 32) :
    (state.advance thread).Counts := by
  rw [DomainRun.advance] at fits ⊢
  cases isPc : state.pc thread with
  | idle => exact counts
  | grabLock =>
      refine counts.tryLock .grabLoad ?_ trivial (by simp) (by simp) ?_ id ?_
      all_goals rw [isPc]
      · rfl
      · exact id
      · exact id
  | grabLoad =>
      have holds := counts.grabs thread (by rw [isPc]; trivial)
      refine counts.goto (.grabStore state.pdRefc) ?_ ?_ (by simp) (by simp) (fun _ => holds) ?_
        (by simp)
      all_goals rw [isPc]
      · rfl
      · exact Iff.rfl
      · exact fun _ => Iff.rfl
  | grabStore loaded =>
      simp only [isPc] at fits
      exact counts.grabStore isPc rfl fits
  | grabUnlock => exact counts.grabUnlock isPc rfl
  | dropLock =>
      refine counts.tryLock .dropLoad ?_ trivial (by simp) (by simp) ?_ id ?_
      all_goals rw [isPc]
      · rfl
      · exact id
      · exact id
  | dropLoad =>
      refine counts.goto (.dropStore state.pdRefc) ?_ ?_ (by simp) (by simp) False.elim ?_ (by simp)
      all_goals rw [isPc]
      · rfl
      · exact Iff.rfl
      · exact fun _ => Iff.rfl
  | dropStore loaded => exact counts.dropStore isPc rfl
  | dropTest =>
      refine counts.goto (.dropUnlock (state.pdRefc ≠ 0)) ?_ ?_ (by simp) (by simp) False.elim ?_
        (by simp)
      all_goals rw [isPc]
      · rfl
      · exact Iff.rfl
      · intro isDead
        rw [counts.refc_eq_zero_iff.mpr isDead]
        exact Iff.rfl
  | dropUnlock f => exact counts.dropUnlock isPc rfl
  | dropReturn f =>
      cases f with
      | false => exact counts.free isPc rfl
      | true =>
          refine counts.goto .idle ?_ ?_ (by simp) (by simp) False.elim ?_ (by simp)
          all_goals rw [isPc]
          · rfl
          · exact Iff.rfl
          · exact fun _ => Iff.rfl

theorem pdGrab (counts : state.Counts) (notKernel : state.isKernel = false)
    (isIdle : state.pc thread = .idle) (holds : 0 < state.held thread) :
    (state.pdGrab thread).Counts := by
  rw [DomainRun.pdGrab, notKernel]
  refine counts.goto .grabLock ?_ ?_ (by simp) (by simp) (fun _ => holds) ?_ (by simp)
  all_goals rw [isIdle]
  · rfl
  · exact Iff.rfl
  · exact fun _ => Iff.rfl

end Counts

/-- The domain of the kernel is never counted; another one is. -/
structure Inv (state : DomainRun Tid) : Prop where
  kernel : state.isKernel = true → state.freed = 0 ∧ ∀ thread, state.pc thread = .idle
  counts : state.isKernel = false → state.Counts

omit [Fintype Tid] in
theorem advance_isKernel (state : DomainRun Tid) (thread : Tid) :
    (state.advance thread).isKernel = state.isKernel := by
  rw [advance]
  cases state.pc thread with
  | grabLock =>
      simp only [tryLock]
      split
      · rfl
      · rfl
  | dropLock =>
      simp only [tryLock]
      split
      · rfl
      · rfl
  | dropReturn f =>
      cases f with
      | false => rfl
      | true => rfl
  | _ => rfl

theorem Inv.step {label : Tid × DomainAction Tid} (inv : state.Inv)
    (stepped : (domainSystem Tid).step state label next) (fits : next.references < 2 ^ 32) :
    next.Inv := by
  rcases label with ⟨thread, action⟩
  cases action with
  | pdGrab =>
      rcases stepped with ⟨isIdle, holds, rfl⟩
      cases isKernel : state.isKernel with
      | true =>
          rw [pdGrab, isKernel]
          exact ⟨inv.kernel, fun notKernel => absurd (isKernel.symm.trans notKernel) nofun⟩
      | false =>
          have counts := (inv.counts isKernel).pdGrab isKernel isIdle holds
          refine ⟨fun stillKernel => ?_, fun _ => counts⟩
          rw [pdGrab, isKernel] at stillKernel
          exact absurd (isKernel.symm.trans stillKernel) nofun
  | pdDrop =>
      rcases stepped with ⟨isIdle, holds, rfl⟩
      cases isKernel : state.isKernel with
      | true =>
          rw [pdDrop, isKernel]
          exact ⟨inv.kernel, fun notKernel => absurd (isKernel.symm.trans notKernel) nofun⟩
      | false =>
          rw [pdDrop, isKernel]
          have counts := (inv.counts isKernel).pdDrop isIdle holds rfl
          exact ⟨fun stillKernel => absurd (isKernel.symm.trans stillKernel) nofun,
            fun _ => counts⟩
  | pass receiver =>
      rcases stepped with ⟨isIdle, holds, rfl⟩
      exact ⟨inv.kernel, fun notKernel => (inv.counts notKernel).pass isIdle holds receiver⟩
  | advance =>
      rcases stepped with ⟨inCall, rfl⟩
      constructor
      · intro isKernel
        rw [advance_isKernel] at isKernel
        exact absurd ((inv.kernel isKernel).2 thread) inCall
      · intro notKernel
        rw [advance_isKernel] at notKernel
        exact (inv.counts notKernel).advance fits

theorem Inv.of_reachable
    (reachable : ((domainSystem Tid).restrict ReferencesFit).Reachable state) : state.Inv := by
  apply reachable.invariant
  · rintro start ⟨allIdle, isFree, notFreed, counted⟩
    refine ⟨fun _ => ⟨notFreed, allIdle⟩, fun notKernel => ?_⟩
    rcases counted notKernel with ⟨positive, refc⟩
    refine ⟨refc, ?_, ?_, ?_, ?_, ?_, ?_⟩
    · intro thread
      rw [isFree, allIdle]
      exact iff_of_false nofun id
    · simp [allIdle]
    · simp [allIdle]
    · intro thread isGrab
      rw [allIdle] at isGrab
      exact isGrab.elim
    · exact fun _ => ⟨notFreed, by simp [allIdle]⟩
    · intro isDead
      omega
  · exact fun source label target inv stepped => inv.step stepped.1 stepped.2

/-- In every interleaving of calls of `pd_grab` and `pd_drop` for references that the callers hold,
of which there are never `2 ^ 32`, the domain is freed at most once, by the drop of the last
reference; nobody accesses it from then on; it is not leaked either. The domain of the kernel is
never freed. -/
theorem safe_of_reachable
    (reachable : ((domainSystem Tid).restrict ReferencesFit).Reachable state) : state.Safe := by
  have inv := Inv.of_reachable reachable
  constructor
  · intro isFreed
    have notKernel : state.isKernel = false := by
      by_contra isKernel
      exact isFreed (inv.kernel (Bool.eq_true_of_not_eq_false isKernel)).1
    have counts := inv.counts notKernel
    have isDead : state.references = 0 := by
      by_contra isAlive
      exact isFreed (counts.alive isAlive).1
    have noUnits (thread : Tid) : state.units thread = 0 :=
      Nat.le_zero.mp (isDead ▸ state.units_le_references thread)
    have noHeld (thread : Tid) : state.held thread = 0 :=
      (Nat.add_eq_zero_iff.mp (noUnits thread)).1
    rcases counts.dead isDead with ⟨once, noFree⟩ | ⟨notFreed, -⟩
    · refine ⟨notKernel, once, noHeld, ?_⟩
      intro thread touches
      have notCounted : (state.pc thread).counted = 0 :=
        (Nat.add_eq_zero_iff.mp (noUnits thread)).2
      have notGrabs : ¬(state.pc thread).Grabs := fun isGrab =>
        Nat.ne_of_gt (counts.grabs thread isGrab) (noHeld thread)
      have notFrees := noFree thread
      have tested := counts.tested thread true
      rw [counts.refc_eq_zero_iff.mpr isDead] at tested
      generalize state.pc thread = pc at touches notCounted notGrabs notFrees tested
      cases pc with
      | dropTest => exact notFrees trivial
      | dropUnlock f =>
          cases f with
          | false => exact notFrees trivial
          | true => exact absurd (tested rfl) (by decide)
      | idle => exact touches
      | dropReturn f => exact touches
      | dropLock => contradiction
      | dropLoad => contradiction
      | dropStore loaded => contradiction
      | _ => exact notGrabs trivial
    · exact absurd notFreed isFreed
  · intro notKernel allIdle noHeld
    have counts := inv.counts notKernel
    have isDead : state.references = 0 := by
      apply Finset.sum_eq_zero
      intro thread _
      rw [units, noHeld, allIdle]
      rfl
    rcases counts.dead isDead with ⟨once, -⟩ | ⟨-, thread, frees, -⟩
    · exact once
    · rw [allIdle] at frees
      exact frees.elim

/-- A domain with one reference, which the first of two threads holds. -/
def oneReference : DomainRun Bool where
  isKernel := false
  pdRefc := 1
  pdRefclock := none
  freed := 0
  pc _ := .idle
  held thread := if thread then 1 else 0

/-- The threads that go on one after the other are in their calls, and the references fit. -/
def GoOn : List Bool → DomainRun Bool → Prop
  | [], _ => True
  | thread :: threads, state =>
      state.pc thread ≠ .idle ∧ (state.advance thread).references < 2 ^ 32 ∧
        GoOn threads (state.advance thread)

instance GoOn.decidable : (threads : List Bool) → (state : DomainRun Bool) →
    Decidable (GoOn threads state)
  | [], _ => isTrue trivial
  | thread :: threads, state =>
      have := GoOn.decidable threads (state.advance thread)
      inferInstanceAs (Decidable (_ ∧ _ ∧ _))

theorem GoOn.reachable {threads : List Bool} {state : DomainRun Bool} (goOn : GoOn threads state)
    (reachable : ((domainSystem Bool).restrict ReferencesFit).Reachable state) :
    ((domainSystem Bool).restrict ReferencesFit).Reachable (threads.foldl advance state) := by
  induction threads generalizing state with
  | nil => exact reachable
  | cons thread threads ih =>
      rcases goOn with ⟨inCall, fits, goOn⟩
      have stepped : (domainSystem Bool).step state (thread, .advance) (state.advance thread) :=
        ⟨inCall, rfl⟩
      exact ih goOn (reachable.step ⟨stepped, fits⟩)

/-- The first thread has grabbed a second reference and has given it to the second thread. -/
def sharedReference : DomainRun Bool :=
  ([true, true, true, true].foldl advance (oneReference.pdGrab true)).pass true false

/-- Both threads have dropped their reference; the first one has waited for the lock. -/
def droppedReference : DomainRun Bool :=
  [false, true, false, false, false, false, true, false, true, true, true, true, true].foldl
    advance ((sharedReference.pdDrop true).pdDrop false)

theorem safe_of_reachable_contended :
    droppedReference.Safe ∧ droppedReference.freed = 1 := by
  have start : ((domainSystem Bool).restrict ReferencesFit).Reachable oneReference :=
    .init ⟨fun _ => rfl, rfl, rfl, fun _ => ⟨by decide, by decide⟩⟩
  have grabs : (domainSystem Bool).step oneReference (true, .pdGrab) (oneReference.pdGrab true) :=
    ⟨rfl, by decide, rfl⟩
  have grabbing := start.step ⟨grabs, show (oneReference.pdGrab true).references < 2 ^ 32 by decide⟩
  have grabbed := GoOn.reachable (show GoOn [true, true, true, true] _ by decide) grabbing
  have passes : (domainSystem Bool).step
      ([true, true, true, true].foldl advance (oneReference.pdGrab true)) (true, .pass false)
      sharedReference := ⟨rfl, by decide, rfl⟩
  have shared := grabbed.step ⟨passes, show sharedReference.references < 2 ^ 32 by decide⟩
  have drops : (domainSystem Bool).step sharedReference (true, .pdDrop)
      (sharedReference.pdDrop true) := ⟨rfl, by decide, rfl⟩
  have dropping := shared.step
    ⟨drops, show (sharedReference.pdDrop true).references < 2 ^ 32 by decide⟩
  have dropsAgain : (domainSystem Bool).step (sharedReference.pdDrop true) (false, .pdDrop)
      ((sharedReference.pdDrop true).pdDrop false) := ⟨rfl, by decide, rfl⟩
  have contended := dropping.step
    ⟨dropsAgain, show ((sharedReference.pdDrop true).pdDrop false).references < 2 ^ 32 by decide⟩
  have dropped := GoOn.reachable (show GoOn [false, true, false, false, false, false, true, false,
    true, true, true, true, true] _ by decide) contended
  exact ⟨safe_of_reachable dropped, by decide⟩

end DomainRun

end Rkernel
