import Mathlib.Tactic

/-!
# Finite runs of a partial step function

A program under a client is a state, a set of operations and a step function
that returns `none` where the operation has no defined result.  A run executes
a list of operations.  The rules below lift what one step preserves to what a
run preserves, with the side conditions of each step read in the state the
step starts from.
-/

namespace DoomsdayModules.Runs

variable {State Op : Type*}

/-- Execute the operations in order. -/
def run (step : State → Op → Option State) : State → List Op → Option State
  | state, [] => some state
  | state, op :: ops => (step state op).bind fun next => run step next ops

/-- Every operation meets `admissible` in the state it is applied to. -/
def AllSteps (step : State → Op → Option State) (admissible : State → Op → Prop) :
    State → List Op → Prop
  | _, [] => True
  | state, op :: ops => admissible state op ∧
      ∀ next, step state op = some next → AllSteps step admissible next ops

/-- Checked by executing the run. -/
instance decidableAllSteps (step : State → Op → Option State) (admissible : State → Op → Prop)
    [∀ state op, Decidable (admissible state op)] :
    ∀ state ops, Decidable (AllSteps step admissible state ops)
  | _, [] => isTrue trivial
  | state, op :: ops =>
      match hstep : step state op with
      | none => decidable_of_iff (admissible state op) (by simp [AllSteps, hstep])
      | some next =>
          have := decidableAllSteps step admissible next ops
          decidable_of_iff (admissible state op ∧ AllSteps step admissible next ops)
            (by simp [AllSteps, hstep])

variable {step : State → Op → Option State} {admissible : State → Op → Prop}

@[simp]
theorem run_nil (state : State) : run step state [] = some state := rfl

theorem run_cons (state : State) (op : Op) (ops : List Op) :
    run step state (op :: ops) = (step state op).bind fun next => run step next ops := rfl

/-- A run goes on from where it got to. -/
theorem run_append (state : State) (first second : List Op) :
    run step state (first ++ second) =
      (run step state first).bind fun reached => run step reached second := by
  induction first generalizing state with
  | nil => rfl
  | cons op ops ih =>
      rw [List.cons_append, run_cons, run_cons, Option.bind_assoc]
      exact congrArg (Option.bind (step state op)) (funext ih)

/-- The operations of a prefix meet the condition the whole run meets. -/
theorem AllSteps.of_append {state : State} {first second : List Op}
    (hall : AllSteps step admissible state (first ++ second)) :
    AllSteps step admissible state first := by
  induction first generalizing state with
  | nil => trivial
  | cons op ops ih => exact ⟨hall.1, fun next hnext => ih (hall.2 next hnext)⟩

/-- The operations of the rest meet it from where the first ones led. -/
theorem AllSteps.of_append_right {state reached : State} {first second : List Op}
    (hall : AllSteps step admissible state (first ++ second))
    (hreached : run step state first = some reached) :
    AllSteps step admissible reached second := by
  induction first generalizing state with
  | nil => exact Option.some.inj hreached ▸ hall
  | cons op ops ih =>
      obtain ⟨next, hnext, hrest⟩ := Option.bind_eq_some_iff.mp hreached
      exact ih (hall.2 next hnext) hrest

theorem AllSteps.of_prefix {state : State} {first ops : List Op}
    (hall : AllSteps step admissible state ops) (hfirst : first <+: ops) :
    AllSteps step admissible state first := by
  obtain ⟨second, rfl⟩ := hfirst
  exact hall.of_append

theorem AllSteps.mono {weaker : State → Op → Prop} {state : State} {ops : List Op}
    (hall : AllSteps step admissible state ops)
    (himp : ∀ state op, admissible state op → weaker state op) :
    AllSteps step weaker state ops := by
  induction ops generalizing state with
  | nil => trivial
  | cons op ops ih =>
      exact ⟨himp _ _ hall.1, fun next hnext => ih (hall.2 next hnext)⟩

/-- What holds of every step holds of the steps of every run. -/
theorem AllSteps.of_forall (hall : ∀ state op, admissible state op) (state : State)
    (ops : List Op) : AllSteps step admissible state ops := by
  induction ops generalizing state with
  | nil => trivial
  | cons op ops ih => exact ⟨hall state op, fun next _ => ih next⟩

theorem AllSteps.and {other : State → Op → Prop} {state : State} {ops : List Op}
    (hall : AllSteps step admissible state ops) (hother : AllSteps step other state ops) :
    AllSteps step (fun state op => admissible state op ∧ other state op) state ops := by
  induction ops generalizing state with
  | nil => trivial
  | cons op ops ih =>
      exact ⟨⟨hall.1, hother.1⟩, fun next hnext => ih (hall.2 next hnext) (hother.2 next hnext)⟩

/-- A run goes on where its first part ends. -/
theorem AllSteps.append {state : State} {first second : List Op}
    (hfirst : AllSteps step admissible state first)
    (hsecond : ∀ reached, run step state first = some reached →
      AllSteps step admissible reached second) :
    AllSteps step admissible state (first ++ second) := by
  induction first generalizing state with
  | nil => exact hsecond state rfl
  | cons op ops ih =>
      refine ⟨hfirst.1, fun next hnext => ih (hfirst.2 next hnext) fun reached hreached => ?_⟩
      exact hsecond reached (by rw [run_cons, hnext]; exact hreached)

/-- What follows from the condition of a step and an invariant holds at every step. -/
theorem AllSteps.of_invariant {other : State → Op → Prop} (invariant : State → Prop)
    (hstep : ∀ state op next, invariant state → admissible state op →
      step state op = some next → invariant next)
    (himp : ∀ state op, invariant state → admissible state op → other state op)
    {state : State} {ops : List Op} (hinit : invariant state)
    (hall : AllSteps step admissible state ops) : AllSteps step other state ops := by
  induction ops generalizing state with
  | nil => trivial
  | cons op ops ih =>
      exact ⟨himp state op hinit hall.1, fun next hnext =>
        ih (hstep state op next hinit hall.1 hnext) (hall.2 next hnext)⟩

/-- An invariant kept by every admissible step is kept by every admissible
run, and such a run is defined to its end. -/
theorem run_preserves (invariant : State → Prop)
    (hstep : ∀ state op, invariant state → admissible state op →
      ∃ next, step state op = some next ∧ invariant next)
    {state : State} {ops : List Op} (hinit : invariant state)
    (hall : AllSteps step admissible state ops) :
    ∃ final, run step state ops = some final ∧ invariant final := by
  induction ops generalizing state with
  | nil => exact ⟨state, rfl, hinit⟩
  | cons op ops ih =>
      obtain ⟨next, hnext, hinv⟩ := hstep state op hinit hall.1
      obtain ⟨final, hrun, hfinal⟩ := ih hinv (hall.2 next hnext)
      exact ⟨final, by rw [run_cons, hnext]; exact hrun, hfinal⟩

/-- The same at every point of the run, not only at its end. -/
theorem run_preserves_throughout (invariant : State → Prop)
    (hstep : ∀ state op, invariant state → admissible state op →
      ∃ next, step state op = some next ∧ invariant next)
    {state : State} {ops : List Op} (hinit : invariant state)
    (hall : AllSteps step admissible state ops) :
    ∀ done, done <+: ops → ∃ reached, run step state done = some reached ∧
      invariant reached := fun _ hdone =>
  run_preserves invariant hstep hinit (hall.of_prefix hdone)

/-- A run splits at its first step. -/
theorem run_cons_eq_some {state final : State} {op : Op} {ops : List Op} :
    run step state (op :: ops) = some final ↔
      ∃ next, step state op = some next ∧ run step next ops = some final := by
  simp [run_cons, Option.bind_eq_some_iff]

/-- An invariant of the steps that are defined, for runs that are defined. -/
theorem run_invariant (invariant : State → Prop)
    (hstep : ∀ state op next, invariant state → admissible state op →
      step state op = some next → invariant next)
    {state final : State} {ops : List Op} (hinit : invariant state)
    (hall : AllSteps step admissible state ops)
    (hrun : run step state ops = some final) : invariant final := by
  induction ops generalizing state with
  | nil =>
      simp only [run_nil, Option.some.injEq] at hrun
      exact hrun ▸ hinit
  | cons op ops ih =>
      obtain ⟨next, hnext, hrest⟩ := run_cons_eq_some.mp hrun
      exact ih (hstep state op next hinit hall.1 hnext) (hall.2 next hnext) hrest

/-- Where a step keeps the invariant exactly if it is admissible, the invariant
holds at every point of a run exactly if all its steps are admissible. -/
theorem run_throughout_iff (invariant : State → Prop)
    (hstep : ∀ state op next, invariant state → step state op = some next →
      (invariant next ↔ admissible state op))
    {state final : State} {ops : List Op} (hinit : invariant state)
    (hrun : run step state ops = some final) :
    (∀ done, done <+: ops → ∀ reached, run step state done = some reached → invariant reached) ↔
      AllSteps step admissible state ops := by
  induction ops generalizing state with
  | nil =>
      refine iff_of_true (fun done hdone reached hreached => ?_) trivial
      rw [List.prefix_nil.mp hdone, run_nil, Option.some.injEq] at hreached
      exact hreached ▸ hinit
  | cons op ops ih =>
      obtain ⟨next, hnext, hrest⟩ := run_cons_eq_some.mp hrun
      constructor
      · intro hthroughout
        have hkept := hthroughout [op] ⟨ops, rfl⟩ next (by rw [run_cons, hnext]; rfl)
        refine ⟨(hstep state op next hinit hnext).mp hkept, fun other hother => ?_⟩
        rw [hnext, Option.some.injEq] at hother
        rw [← hother]
        refine (ih hkept hrest).mp fun done hdone reached hreached => ?_
        exact hthroughout (op :: done) (List.cons_prefix_cons.mpr ⟨rfl, hdone⟩) reached
          (by rw [run_cons, hnext]; exact hreached)
      · intro hall done hdone reached hreached
        have hkept := (hstep state op next hinit hnext).mpr hall.1
        cases done with
        | nil =>
            rw [run_nil, Option.some.injEq] at hreached
            exact hreached ▸ hinit
        | cons first done =>
            obtain ⟨rfl, hrestdone⟩ := List.cons_prefix_cons.mp hdone
            obtain ⟨after, hafter, hreached⟩ := run_cons_eq_some.mp hreached
            rw [hnext, Option.some.injEq] at hafter
            subst hafter
            exact (ih hkept hrest).mpr (hall.2 next hnext) done hrestdone reached hreached

end DoomsdayModules.Runs
