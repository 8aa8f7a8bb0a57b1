import Mathlib.Tactic

/-!
# Schedules

Several agents share a state, and a schedule is the list of their steps in the
order they happen.  What an agent reaches by itself it reaches in every
schedule with enough steps of its own, and a machine of small steps follows one
of large steps when each small step takes its part of a large one.
-/

namespace DoomsdayModules.Schedules

variable {State Op : Type*} (step : State → Op → State)

/-- What every step preserves, every schedule preserves. -/
theorem foldl_invariant {invariant : State → Prop}
    (hstep : ∀ state op, invariant state → invariant (step state op)) {state : State}
    (hstart : invariant state) (ops : List Op) : invariant (ops.foldl step state) := by
  induction ops generalizing state with
  | nil => exact hstart
  | cons op ops ih => exact ih (hstep state op hstart)

/-! ## Own steps -/

/-- A goal that an agent's own steps approach and no other step delays is
reached, whatever the others do in between. -/
theorem exists_reached (own : Op → Bool) (inside goal : State → Prop) (rank : State → ℕ)
    (hpos : ∀ state, inside state → 0 < rank state)
    (hown : ∀ state op, own op → inside state →
      goal (step state op) ∨ inside (step state op) ∧ rank (step state op) < rank state)
    (hother : ∀ state op, ¬ own op → inside state →
      goal (step state op) ∨ inside (step state op) ∧ rank (step state op) ≤ rank state)
    {state : State} {ops : List Op} (hinside : inside state)
    (hturns : rank state ≤ ops.countP own) :
    ∃ done, done <+: ops ∧ goal (done.foldl step state) := by
  induction ops generalizing state with
  | nil => exact absurd (hpos state hinside) (Nat.not_lt.mpr hturns)
  | cons op ops ih =>
      have hnext : goal (step state op) ∨
          inside (step state op) ∧ rank (step state op) ≤ ops.countP own := by
        rw [List.countP_cons] at hturns
        by_cases hop : own op
        · refine (hown state op hop hinside).imp_right (And.imp_right fun hless => ?_)
          rw [if_pos hop] at hturns
          omega
        · refine (hother state op hop hinside).imp_right (And.imp_right fun hless => ?_)
          rw [if_neg hop] at hturns
          omega
      rcases hnext with hgoal | ⟨hstill, hrest⟩
      · exact ⟨[op], List.cons_prefix_cons.mpr ⟨rfl, List.nil_prefix⟩, hgoal⟩
      · obtain ⟨done, hdone, hgoal⟩ := ih hstill hrest
        exact ⟨op :: done, List.cons_prefix_cons.mpr ⟨rfl, hdone⟩, hgoal⟩

/-- A goal that some steps always approach can be reached. -/
theorem exists_reaching {allowed : Op → Prop} (inside goal : State → Prop) (rank : State → ℕ)
    (hround : ∀ state, inside state → ∃ ops : List Op, (∀ op ∈ ops, allowed op) ∧
      (goal (ops.foldl step state) ∨
        inside (ops.foldl step state) ∧ rank (ops.foldl step state) < rank state))
    {state : State} (hinside : inside state) :
    ∃ ops : List Op, (∀ op ∈ ops, allowed op) ∧ goal (ops.foldl step state) := by
  induction hrank : rank state using Nat.strong_induction_on generalizing state with
  | _ bound ih =>
      obtain ⟨ops, hallowed, hgoal | ⟨hstill, hless⟩⟩ := hround state hinside
      · exact ⟨ops, hallowed, hgoal⟩
      · obtain ⟨later, hlater, hgoal⟩ := ih _ (hrank ▸ hless) hstill rfl
        refine ⟨ops ++ later, fun op hop => ?_, by rwa [List.foldl_append]⟩
        exact (List.mem_append.mp hop).elim (hallowed op) (hlater op)

/-! ## Small steps and large steps -/

variable {Large LargeOp : Type*} (largeStep : Large → LargeOp → Large)
  (commit : State → Op → List LargeOp)

/-- The large steps a schedule commits, in order. -/
def commits : State → List Op → List LargeOp
  | _, [] => []
  | state, op :: ops => commit state op ++ commits (step state op) ops

/-- What has been committed stays committed. -/
theorem commits_append (state : State) (first second : List Op) :
    commits step commit state (first ++ second) =
      commits step commit state first ++ commits step commit (first.foldl step state) second := by
  induction first generalizing state with
  | nil => rfl
  | cons op ops ih =>
      rw [List.cons_append, commits, ih, commits, List.append_assoc]
      rfl

/-- A relation that every small step keeps, with the large steps it commits. -/
theorem foldl_simulates {related : State → Large → Prop}
    (hstep : ∀ state large op, related state large →
      related (step state op) ((commit state op).foldl largeStep large))
    {state : State} {large : Large} (hstart : related state large) (ops : List Op) :
    related (ops.foldl step state) ((commits step commit state ops).foldl largeStep large) := by
  induction ops generalizing state large with
  | nil => exact hstart
  | cons op ops ih =>
      rw [commits, List.foldl_append]
      exact ih (hstep state large op hstart)

end DoomsdayModules.Schedules
