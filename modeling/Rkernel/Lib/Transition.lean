import Mathlib.Data.List.Basic
import Mathlib.Logic.Relation

/-!
# Labelled transition systems

Concurrent code is modeled as a transition system: one label stands for one
indivisible step of one party. This file fixes what a reachable state and a run
are, and states the invariant rules every safety proof of the development uses.
A system can be restricted to the steps that meet a condition, which is how a
result about well-behaved runs is phrased.
-/

universe u v

/-- Where runs start and what one labelled step can do. -/
structure TransitionSystem (State : Type u) (Label : Type v) where
  init : State → Prop
  step : State → Label → State → Prop

namespace TransitionSystem

variable {State : Type u} {Label : Type v}

/-- The states of some run of the system. -/
inductive Reachable (system : TransitionSystem State Label) : State → Prop where
  | init {state : State} (isInit : system.init state) : Reachable system state
  | step {state next : State} {label : Label} (reachable : Reachable system state)
      (stepped : system.step state label next) : Reachable system next

/-- A run, with the source, the label and the target of each of its steps. -/
inductive Run (system : TransitionSystem State Label) :
    State → List (State × Label × State) → State → Prop where
  | nil {state : State} (isInit : system.init state) : Run system state [] state
  | snoc {start state next : State} {label : Label} {trace : List (State × Label × State)}
      (run : Run system start trace state) (stepped : system.step state label next) :
      Run system start (trace ++ [(state, label, next)]) next

/-- Some steps of the system lead from one state to the other. -/
def Leads (system : TransitionSystem State Label) : State → State → Prop :=
  Relation.ReflTransGen fun state next => ∃ label, system.step state label next

/-- The system whose steps additionally meet `allowed`. -/
def restrict (system : TransitionSystem State Label)
    (allowed : State → Label → State → Prop) : TransitionSystem State Label where
  init := system.init
  step state label next := system.step state label next ∧ allowed state label next

variable {system : TransitionSystem State Label}

/-- What holds initially and is preserved by every step holds in every reachable state. -/
theorem Reachable.invariant {inv : State → Prop}
    (base : ∀ state, system.init state → inv state)
    (preserved : ∀ state label next, inv state → system.step state label next → inv next)
    {state : State} (reachable : system.Reachable state) : inv state := by
  induction reachable with
  | init isInit => exact base _ isInit
  | step _ stepped ih => exact preserved _ _ _ ih stepped

theorem Reachable.leads {state next : State} (reachable : system.Reachable state)
    (leads : system.Leads state next) : system.Reachable next := by
  induction leads with
  | refl => exact reachable
  | tail _ stepped ih =>
      rcases stepped with ⟨label, stepped⟩
      exact ih.step stepped

theorem Reachable.mono {strict lax : State → Label → State → Prop}
    (weaker : ∀ state label next, strict state label next → lax state label next) {state : State}
    (reachable : (system.restrict strict).Reachable state) :
    (system.restrict lax).Reachable state := by
  induction reachable with
  | init isInit => exact .init isInit
  | step _ stepped ih => exact ih.step ⟨stepped.1, weaker _ _ _ stepped.2⟩

theorem Reachable.of_restrict {allowed : State → Label → State → Prop} {state : State}
    (reachable : (system.restrict allowed).Reachable state) : system.Reachable state := by
  induction reachable with
  | init isInit => exact .init isInit
  | step _ stepped ih => exact ih.step stepped.1

/-- A run can be cut before any of its steps. -/
theorem Run.cut {start final source target : State} {label : Label}
    {front back : List (State × Label × State)}
    (run : system.Run start (front ++ (source, label, target) :: back) final) :
    system.Run start front source ∧ system.step source label target := by
  generalize isTrace : front ++ (source, label, target) :: back = trace at run
  induction run generalizing back with
  | nil isInit => simp at isTrace
  | snoc run stepped ih =>
      rcases List.eq_nil_or_concat' back with isNil | ⟨rest, last, isConcat⟩
      · rw [isNil] at isTrace
        obtain ⟨sameFront, sameStep⟩ := List.append_inj' isTrace rfl
        simp only [List.cons.injEq, Prod.mk.injEq, and_true] at sameStep
        rcases sameStep with ⟨rfl, rfl, rfl⟩
        rw [sameFront]
        exact ⟨run, stepped⟩
      · rw [isConcat, ← List.cons_append, ← List.append_assoc] at isTrace
        exact ih (List.append_inj' isTrace rfl).1

/-- What holds initially and is preserved by the steps that meet `allowed` holds before and
after every step of a run whose steps all meet it. -/
theorem Run.invariant (inv : State → Prop) (allowed : State → Label → State → Prop)
    (base : ∀ state, system.init state → inv state)
    (preserved : ∀ state label next, inv state → system.step state label next →
      allowed state label next → inv next)
    {start final : State} {trace : List (State × Label × State)}
    (run : system.Run start trace final)
    (steps : ∀ state label next, (state, label, next) ∈ trace → allowed state label next) :
    inv final ∧ ∀ state label next, (state, label, next) ∈ trace →
      inv state ∧ system.step state label next ∧ inv next := by
  induction run with
  | nil isInit => exact ⟨base _ isInit, by simp⟩
  | snoc run stepped ih =>
      rename_i source target label _
      have earlier := ih fun state label next stepMem =>
        steps state label next (List.mem_append_left _ stepMem)
      have kept : inv target := preserved _ _ _ earlier.1 stepped (steps _ _ _ (by simp))
      refine ⟨kept, ?_⟩
      intro state label next stepMem
      rw [List.mem_append, List.mem_singleton] at stepMem
      rcases stepMem with before | last
      · exact earlier.2 state label next before
      · simp only [Prod.mk.injEq] at last
        rcases last with ⟨rfl, rfl, rfl⟩
        exact ⟨earlier.1, stepped, kept⟩

end TransitionSystem
