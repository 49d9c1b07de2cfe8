import Rkernel.Vm.KernelMemory

/-!
# The static region objects

`rm_kalloc` (`vm/region_mapper.c`) hands out the four static region objects of the kernel. It
runs under the spin lock `kernel_lock`, which the model of the kernel's memory leaves out.

When the objects are used up the function returns without unlocking. The call that finds this
out still returns null, but every call after it spins on the lock for ever. Hence a history of
calls goes well exactly as long as there are objects left.

The links of a region object in its list are left out, and so is the message about the capacity.
-/

namespace Rkernel

/-- `kspinlock_t` -/
abbrev Kspinlock := BitVec 8

/-- `kernlock_try_lock`: the previous value and the new one. -/
def kernlockTryLock (lock : Kspinlock) : Kspinlock × Kspinlock := (lock, -1)

/-- `kernlock_lock`, with the iterations left. -/
def kernlockLock : (fuel : ℕ) → Kspinlock → Option Kspinlock
  | 0, _ => none
  | fuel + 1, lock =>
      if (kernlockTryLock lock).1 ≠ 0 then kernlockLock fuel (kernlockTryLock lock).2
      else some (kernlockTryLock lock).2

/-- The value that `kernlock_unlock` and `kernlock_init` store. -/
def kernlockFree : Kspinlock := 0

/-- A region object of the static array. -/
structure StaticRmo extends RegionMapperObject where
  rmoStatic : Bool

/-- The static variables of `rm_kalloc`; the address of `kernel_rmodss[i]` is `i + 1`. -/
structure KernelObjects where
  kernelLock : Kspinlock
  kernelRmoi : BitVec 32
  kernelRmos : ℕ → StaticRmo
  kernelRmodss : ℕ → Dataspace

def rmoConstruct (rmo : StaticRmo) : StaticRmo :=
  { rmo with rmoObject := 0, rmoType := .undefined, rmoStatic := false }

/-- `for(i = 0;i<ds->ds_n_pages;++i) ds->ds_pages[i] = 0;` with the iterations left. -/
def zeroPages : (left i : ℕ) → (ℕ → Paddr) → ℕ → Paddr
  | 0, _, pages => pages
  | left + 1, i, pages => zeroPages left (i + 1) (Function.update pages i 0)

/-- `sizeof(kernel_rmodss[0].entries)` -/
def entriesSize : ℕ := 520

/-- The dataspace of a static region object, in a buffer of 536 bytes. -/
def rmDataspace (before : Dataspace) : Dataspace :=
  let ds := dsConstruct 536 before.dsPages
  let nPages := if ds.dsNPages > 128 then 128 else ds.dsNPages
  { dsNPages := nPages
    dsSize := nPages.setWidth 32 * 0x1000
    dsPages := zeroPages nPages.toNat 0 ds.dsPages }

namespace KernelObjects

/-- `rm_kalloc` behind `kernlock_lock`: the index of the region object, or null. -/
def allocate (state : KernelObjects) : Option ℕ × KernelObjects :=
  if state.kernelRmoi ≥ BitVec.ofNat 32 nRmos then (none, state)
  else
    let i := state.kernelRmoi.toNat
    let ds := rmDataspace (state.kernelRmodss (i + 1))
    let rmo : StaticRmo :=
      { rmoConstruct (state.kernelRmos i) with
        rmoStatic := true
        rmoType := .dataspace
        rmoObject := i + 1
        rmoSize := ds.dsSize }
    (some i,
      { kernelLock := kernlockFree
        kernelRmoi := state.kernelRmoi + 1
        kernelRmos := Function.update state.kernelRmos i rmo
        kernelRmodss := Function.update state.kernelRmodss (i + 1) ds })

/-- `rm_kalloc`, with the iterations that it may spin. -/
def rmKalloc (fuel : ℕ) (state : KernelObjects) : Option (Option ℕ × KernelObjects) :=
  (kernlockLock fuel state.kernelLock).map fun locked =>
    allocate { state with kernelLock := locked }

/-- What `rm_init` stores before its first call. -/
structure Initialised (state : KernelObjects) : Prop where
  kernelLock : state.kernelLock = kernlockFree
  kernelRmoi : state.kernelRmoi = 0

/-- A region object that was handed out: its dataspace is its own, empty, and lies within its
buffer. -/
structure Ready (state : KernelObjects) (object : ℕ) : Prop where
  isObject : object < nRmos
  isStatic : (state.kernelRmos object).rmoStatic = true
  isDataspace : (state.kernelRmos object).rmoType = .dataspace
  own : (state.kernelRmos object).rmoObject = object + 1
  fits : (state.kernelRmodss (object + 1)).dsNPages.toNat * 4 ≤ entriesSize
  rmoSize : (state.kernelRmos object).rmoSize = (state.kernelRmodss (object + 1)).dsSize
  dsSize : (state.kernelRmodss (object + 1)).dsSize.toNat =
    (state.kernelRmodss (object + 1)).dsNPages.toNat * 4096
  zeroed : ∀ i < (state.kernelRmodss (object + 1)).dsNPages.toNat,
    (state.kernelRmodss (object + 1)).dsPages i = 0

/-- One call of a history: it returns and leaves the lock free; an object that it returns is new
and stays ready, and there is none only when the objects are used up, with nothing changed. -/
structure GoodCall (states : ℕ → KernelObjects) (results : ℕ → Option ℕ) (calls k : ℕ) :
    Prop where
  returns : ∃ fuel, (states k).rmKalloc fuel = some (results k, states (k + 1))
  free : (states (k + 1)).kernelLock = kernlockFree
  fresh : ∀ object, results k = some object → ∀ j < k, results j ≠ some object
  ready : ∀ object, results k = some object → ∀ later, k < later → later ≤ calls →
    (states later).Ready object
  served : (states k).kernelRmoi.toNat < nRmos → results k ≠ none
  usedUp : nRmos ≤ (states k).kernelRmoi.toNat → results k = none ∧ states (k + 1) = states k

/-- All of a number of successive calls go well. -/
def GoodHistory (start : KernelObjects) (calls : ℕ) : Prop :=
  ∃ states results, states 0 = start ∧ ∀ k < calls, GoodCall states results calls k

end KernelObjects

section Lock

theorem kernlockLock_held {lock : Kspinlock} (held : lock ≠ kernlockFree) (fuel : ℕ) :
    kernlockLock fuel lock = none := by
  induction fuel generalizing lock with
  | zero => rfl
  | succ fuel ih =>
      have notFree : (kernlockTryLock lock).1 ≠ 0 := held
      rw [kernlockLock, if_pos notFree]
      exact ih (show (-1 : Kspinlock) ≠ 0 by decide)

theorem kernlockLock_free (fuel : ℕ) : kernlockLock (fuel + 1) kernlockFree = some (-1) := rfl

end Lock

theorem zeroPages_apply (left i : ℕ) (pages : ℕ → Paddr) (j : ℕ) :
    zeroPages left i pages j = if i ≤ j ∧ j < i + left then 0 else pages j := by
  induction left generalizing i pages with
  | zero =>
      rw [zeroPages, if_neg (by omega)]
  | succ left ih =>
      rw [zeroPages, ih]
      by_cases first : j = i
      · subst first
        rw [if_neg (by omega), if_pos (by omega), Function.update_self]
      · rw [Function.update_of_ne first]
        by_cases inside : i + 1 ≤ j ∧ j < i + 1 + left
        · rw [if_pos inside, if_pos (by omega)]
        · rw [if_neg inside, if_neg (by omega)]

theorem rmDataspace_dsNPages (before : Dataspace) : (rmDataspace before).dsNPages = 128 := rfl

theorem rmDataspace_dsSize (before : Dataspace) :
    (rmDataspace before).dsSize = (rmDataspace before).dsNPages.setWidth 32 * 0x1000 := rfl

theorem rmDataspace_zeroed (before : Dataspace) {i : ℕ}
    (below : i < (rmDataspace before).dsNPages.toNat) : (rmDataspace before).dsPages i = 0 := by
  have pages : (rmDataspace before).dsPages = zeroPages 128 0 before.dsPages := rfl
  rw [rmDataspace_dsNPages] at below
  rw [pages, zeroPages_apply, if_pos ⟨Nat.zero_le i, by simpa using below⟩]

namespace KernelObjects

variable {state next : KernelObjects} {result : Option ℕ} {fuel : ℕ}

theorem rmKalloc_held (held : state.kernelLock ≠ kernlockFree) (fuel : ℕ) :
    state.rmKalloc fuel = none := by
  rw [rmKalloc, kernlockLock_held held]
  rfl

/-- A call that returns has found the lock free. -/
theorem rmKalloc_eq_some (returned : state.rmKalloc fuel = some (result, next)) :
    state.kernelLock = kernlockFree ∧
      allocate { state with kernelLock := -1 } = (result, next) := by
  by_cases free : state.kernelLock = kernlockFree
  · cases fuel with
    | zero => simp [rmKalloc, kernlockLock] at returned
    | succ fuel =>
        rw [rmKalloc, free, kernlockLock_free, Option.map_some, Option.some.injEq] at returned
        exact ⟨free, returned⟩
  · rw [rmKalloc_held free] at returned
    simp at returned

theorem rmKalloc_of_free (free : state.kernelLock = kernlockFree) :
    state.rmKalloc 1 = some (allocate { state with kernelLock := -1 }) := by
  rw [rmKalloc, free]
  rfl

theorem nRmos_le_iff : state.kernelRmoi ≥ BitVec.ofNat 32 nRmos ↔
    nRmos ≤ state.kernelRmoi.toNat := by
  rw [ge_iff_le, BitVec.le_def]
  rfl

/-- Without an object left the lock stays with the caller. -/
theorem allocate_usedUp (usedUp : nRmos ≤ state.kernelRmoi.toNat) :
    state.allocate = (none, state) := by
  rw [allocate, if_pos (nRmos_le_iff.mpr usedUp)]

theorem allocate_left (left : state.kernelRmoi.toNat < nRmos) :
    ∃ next, state.allocate = (some state.kernelRmoi.toNat, next) ∧
      next.kernelLock = kernlockFree ∧ next.kernelRmoi.toNat = state.kernelRmoi.toNat + 1 ∧
      next.Ready state.kernelRmoi.toNat ∧
      ∀ object < state.kernelRmoi.toNat, state.Ready object → next.Ready object := by
  have notUsedUp : ¬state.kernelRmoi ≥ BitVec.ofNat 32 nRmos := by
    rw [nRmos_le_iff]
    omega
  simp only [nRmos] at left
  rw [allocate, if_neg notUsedUp]
  refine ⟨_, rfl, rfl, ?_, ?_, ?_⟩
  · rw [BitVec.toNat_add_of_lt]
    · rfl
    · change state.kernelRmoi.toNat + 1 < 2 ^ 32
      omega
  · constructor
    · exact left
    all_goals simp only [Function.update_self]
    · rw [rmDataspace_dsNPages]
      decide
    · rw [rmDataspace_dsSize, rmDataspace_dsNPages]
      decide
    · intro i below
      exact rmDataspace_zeroed _ below
  · intro object before ready
    have other : object ≠ state.kernelRmoi.toNat := by omega
    have otherSpace : object + 1 ≠ state.kernelRmoi.toNat + 1 := by omega
    constructor
    · exact ready.isObject
    all_goals simp only [Function.update_of_ne other, Function.update_of_ne otherSpace]
    · exact ready.isStatic
    · exact ready.isDataspace
    · exact ready.own
    · exact ready.fits
    · exact ready.rmoSize
    · exact ready.dsSize
    · exact ready.zeroed

theorem rmDataspace_eq (before : Dataspace) :
    rmDataspace before =
      { dsNPages := 128
        dsSize := (128 : BitVec 27).setWidth 32 * 0x1000
        dsPages := fun i => if i < (128 : BitVec 27).toNat then 0 else before.dsPages i } := by
  have pages : (rmDataspace before).dsPages =
      fun i => if i < (128 : BitVec 27).toNat then 0 else before.dsPages i := by
    funext i
    change zeroPages 128 0 before.dsPages i = _
    rw [zeroPages_apply]
    simp
  exact congrArg (Dataspace.mk 128 ((128 : BitVec 27).setWidth 32 * 0x1000)) pages

/-- Behind the lock a call does what the call of the model without locks does. -/
theorem allocate_agrees {kernel : KernelVm} (sameIndex : kernel.kernelRmoi = state.kernelRmoi.toNat)
    (sameSpaces : kernel.kernelRmodss = state.kernelRmodss) :
    (Rkernel.rmKalloc kernel).2.kernelRmoi = state.allocate.2.kernelRmoi.toNat ∧
      (Rkernel.rmKalloc kernel).2.kernelRmodss = state.allocate.2.kernelRmodss ∧
      (Rkernel.rmKalloc kernel).1.map (fun rmo => (rmo.rmoObject, rmo.rmoSize, rmo.rmoType)) =
        state.allocate.1.map fun i => ((state.allocate.2.kernelRmos i).rmoObject,
          (state.allocate.2.kernelRmos i).rmoSize, (state.allocate.2.kernelRmos i).rmoType) := by
  by_cases usedUp : nRmos ≤ state.kernelRmoi.toNat
  · rw [allocate_usedUp usedUp, Rkernel.rmKalloc, if_pos (sameIndex ▸ usedUp)]
    exact ⟨sameIndex, sameSpaces, rfl⟩
  · have inRange : state.kernelRmoi.toNat + (1 : BitVec 32).toNat < 2 ^ 32 := by
      have one : (1 : BitVec 32).toNat = 1 := rfl
      simp only [nRmos] at usedUp
      omega
    have notUsedUp : ¬state.kernelRmoi ≥ BitVec.ofNat 32 nRmos := by
      rwa [nRmos_le_iff]
    rw [allocate, if_neg notUsedUp, Rkernel.rmKalloc, if_neg (sameIndex ▸ usedUp), sameIndex,
      sameSpaces]
    simp only [rmDataspace_eq]
    refine ⟨(BitVec.toNat_add_of_lt inRange).symm, rfl, ?_⟩
    simp only [Option.map_some, Function.update_self]
    rfl

/-- The states of a history that starts after the initialisation, as long as all calls return. -/
def after (start : KernelObjects) : ℕ → KernelObjects
  | 0 => start
  | k + 1 => (allocate { after start k with kernelLock := -1 }).2

/-- After some calls the objects handed out are the first ones, and the lock is free. -/
structure Served (state : KernelObjects) (count : ℕ) : Prop where
  free : state.kernelLock = kernlockFree
  counted : state.kernelRmoi.toNat = count
  ready : ∀ object < count, state.Ready object

theorem Initialised.served (isInit : state.Initialised) : state.Served 0 where
  free := isInit.kernelLock
  counted := by
    rw [isInit.kernelRmoi]
    rfl
  ready := by omega

/-- A call with an object left. -/
theorem Served.rmKalloc {count : ℕ} (served : state.Served count) (left : count < nRmos) :
    ∃ next, allocate { state with kernelLock := -1 } = (some count, next) ∧
      next.Served (count + 1) := by
  have counted := served.counted
  subst counted
  rcases @allocate_left { state with kernelLock := -1 } left with
    ⟨next, allocated, free, index, ready, kept⟩
  refine ⟨next, allocated, free, index, ?_⟩
  intro object below
  rcases Nat.lt_succ_iff_lt_or_eq.mp below with before | rfl
  · have wasReady := served.ready object before
    exact kept object before ⟨wasReady.isObject, wasReady.isStatic, wasReady.isDataspace,
      wasReady.own, wasReady.fits, wasReady.rmoSize, wasReady.dsSize, wasReady.zeroed⟩
  · exact ready

theorem Initialised.served_after {start : KernelObjects} (isInit : start.Initialised) {k : ℕ}
    (within : k ≤ nRmos) : (start.after k).Served k := by
  induction k with
  | zero => exact isInit.served
  | succ k ih =>
      rcases (ih (by omega)).rmKalloc (by omega) with ⟨next, allocated, served⟩
      rw [after, allocated]
      exact served

/-- A history goes through the states that the calls compute. -/
theorem eq_after {start : KernelObjects} {states : ℕ → KernelObjects} {results : ℕ → Option ℕ}
    {calls : ℕ} (isStart : states 0 = start)
    (good : ∀ k < calls, GoodCall states results calls k) {k : ℕ} (within : k ≤ calls) :
    states k = start.after k := by
  induction k with
  | zero => exact isStart
  | succ k ih =>
      rcases (good k (by omega)).returns with ⟨fuel, returned⟩
      rw [after, ← ih (by omega), (rmKalloc_eq_some returned).2]

theorem goodHistory_of_le {start : KernelObjects} (isInit : start.Initialised) {calls : ℕ}
    (within : calls ≤ nRmos) : start.GoodHistory calls := by
  refine ⟨start.after, fun k => some k, rfl, ?_⟩
  intro k below
  have served := isInit.served_after (show k ≤ nRmos by omega)
  rcases served.rmKalloc (by omega) with ⟨next, allocated, nextServed⟩
  have isNext : start.after (k + 1) = next := by
    rw [after, allocated]
  refine ⟨⟨1, ?_⟩, ?_, ?_, ?_, ?_, ?_⟩
  · rw [rmKalloc_of_free served.free, allocated, isNext]
  · rw [isNext]
    exact nextServed.free
  · rintro object ⟨⟩ j before same
    rw [Option.some.injEq] at same
    omega
  · rintro object ⟨⟩ later after atMost
    exact (isInit.served_after (by omega)).ready k after
  · intro _
    exact Option.some_ne_none k
  · intro usedUp
    rw [served.counted] at usedUp
    omega

/-- The call that finds no object left keeps the lock. -/
theorem Initialised.locked {start : KernelObjects} (isInit : start.Initialised) :
    (start.after (nRmos + 1)).kernelLock = -1 := by
  have served := isInit.served_after (Nat.le_refl nRmos)
  have usedUp := @allocate_usedUp { start.after nRmos with kernelLock := -1 }
    (Nat.le_of_eq served.counted.symm)
  rw [after, usedUp]

/-- Calls of `rm_kalloc` go well as long as they are not more than the objects. -/
theorem goodHistory_iff (start : KernelObjects) (isInit : start.Initialised) (calls : ℕ) :
    start.GoodHistory calls ↔ calls ≤ nRmos := by
  constructor
  · rintro ⟨states, results, isStart, good⟩
    by_contra more
    have last := good nRmos (by omega)
    have free := last.free
    rw [eq_after isStart good (by omega), isInit.locked] at free
    revert free
    decide
  · exact goodHistory_of_le isInit

/-- The variables as the kernel finds them. -/
def booted : KernelObjects where
  kernelLock := 0
  kernelRmoi := 0
  kernelRmos := fun _ => ⟨⟨0, 0, 0, .undefined⟩, false⟩
  kernelRmodss := fun _ => ⟨0, 0, fun _ => 0⟩

theorem booted_initialised : booted.Initialised := ⟨rfl, rfl⟩

/-- Four calls go well. -/
theorem goodHistory_four : booted.Initialised ∧ booted.GoodHistory 4 :=
  ⟨booted_initialised, (goodHistory_iff booted booted_initialised 4).mpr (by decide)⟩

/-- The fifth call returns null with the lock held, and the sixth never returns. -/
theorem not_goodHistory_five : booted.Initialised ∧ ¬booted.GoodHistory 5 ∧
    (∃ fuel, (booted.after 4).rmKalloc fuel = some (none, booted.after 5)) ∧
    ∀ fuel, (booted.after 5).rmKalloc fuel = none := by
  have served : (booted.after 4).Served 4 := booted_initialised.served_after (Nat.le_refl nRmos)
  have locked : (booted.after 5).kernelLock = -1 := booted_initialised.locked
  refine ⟨booted_initialised, ?_, ⟨1, ?_⟩, ?_⟩
  · rintro ⟨states, results, isStart, good⟩
    have free := (good 4 (by omega)).free
    rw [eq_after isStart good (by omega), locked] at free
    revert free
    decide
  · have usedUp := @allocate_usedUp { booted.after 4 with kernelLock := -1 }
      (Nat.le_of_eq served.counted.symm)
    have isNext : booted.after 5 = { booted.after 4 with kernelLock := -1 } := by
      rw [after, usedUp]
    rw [rmKalloc_of_free served.free, usedUp, isNext]
  · apply rmKalloc_held
    rw [locked]
    decide

end KernelObjects

end Rkernel
