import Mathlib.Tactic

/-!
# Orbits of a partial step

A deterministic step that may stop is followed from a start.  Where it can only
be taken from finitely many points, it comes to an end exactly if it never
returns to a point: by the pigeonhole principle an endless orbit meets a point
twice, and from then on it repeats itself.
-/

namespace DoomsdayModules.FiniteOrbit

variable {α : Type*} {next : α → Option α}

/-- The point after some steps, `none` once the step has stopped. -/
def orbit (next : α → Option α) : ℕ → α → Option α
  | 0, x => some x
  | count + 1, x => (next x).bind (orbit next count)

/-- The step stops. -/
def Ends (next : α → Option α) (x : α) : Prop := ∃ count, orbit next count x = none

/-- The orbit comes back to a point it has left. -/
def Returns (next : α → Option α) (x : α) : Prop :=
  ∃ first second y, first < second ∧ orbit next first x = some y ∧ orbit next second x = some y

theorem orbit_add (first second : ℕ) (x : α) :
    orbit next (first + second) x = (orbit next first x).bind (orbit next second) := by
  induction first generalizing x with
  | zero => rw [Nat.zero_add, orbit, Option.bind_some]
  | succ first ih =>
      rw [Nat.succ_add, orbit, orbit, Option.bind_assoc]
      exact Option.bind_congr fun y _ => ih y

theorem orbit_isSome_of_le {first second : ℕ} {x : α} (hle : first ≤ second)
    (hsome : (orbit next second x).isSome = true) : (orbit next first x).isSome = true := by
  obtain ⟨more, rfl⟩ := Nat.exists_eq_add_of_le hle
  rw [orbit_add] at hsome
  exact Option.isSome_of_isSome_bind hsome

/-- A point that is met again after `period` steps is met after every multiple of them. -/
theorem orbit_mul {period : ℕ} {y : α} (hperiod : orbit next period y = some y) (count : ℕ) :
    orbit next (count * period) y = some y := by
  induction count with
  | zero => rw [Nat.zero_mul, orbit]
  | succ count ih => rw [Nat.succ_mul, orbit_add, ih, Option.bind_some, hperiod]

theorem not_ends_of_returns {x : α} (hreturns : Returns next x) : ¬ Ends next x := by
  obtain ⟨first, second, y, hlt, hfirst, hsecond⟩ := hreturns
  obtain ⟨period, rfl⟩ := Nat.exists_eq_add_of_le hlt.le
  rw [orbit_add, hfirst, Option.bind_some] at hsecond
  rintro ⟨count, hnone⟩
  have hlater : orbit next (first + count * period) x = some y := by
    rw [orbit_add, hfirst, Option.bind_some, orbit_mul hsecond]
  have hcount : count ≤ count * period := Nat.le_mul_of_pos_right count (by omega)
  have hsome := @orbit_isSome_of_le α next count (first + count * period) x (by omega)
    (by rw [hlater]; rfl)
  rw [hnone] at hsome
  cases hsome

/-- A point from which a step was taken. -/
theorem mem_of_orbit_succ {points : Finset α} (hstep : ∀ x y, next x = some y → x ∈ points)
    {count : ℕ} {x y : α} (hat : orbit next count x = some y)
    (hnext : (orbit next (count + 1) x).isSome = true) : y ∈ points := by
  rw [orbit_add, hat, Option.bind_some, orbit] at hnext
  obtain ⟨z, hz⟩ := Option.isSome_iff_exists.mp (Option.isSome_of_isSome_bind hnext)
  exact hstep y z hz

theorem returns_of_not_ends {points : Finset α} (hstep : ∀ x y, next x = some y → x ∈ points)
    {x : α} (hendless : ¬ Ends next x) : Returns next x := by
  have hsome : ∀ count, ∃ y, orbit next count x = some y := fun count =>
    Option.ne_none_iff_exists'.mp fun hnone => hendless ⟨count, hnone⟩
  choose point hpoint using hsome
  have hmem (count : ℕ) : point count ∈ points :=
    mem_of_orbit_succ hstep (hpoint count) (by rw [hpoint (count + 1)]; rfl)
  obtain ⟨first, second, hne, hsame⟩ := Finite.exists_ne_map_eq_of_infinite
    fun count => (⟨point count, hmem count⟩ : points)
  have hpoints : point first = point second := congrArg Subtype.val hsame
  rcases Nat.lt_or_gt_of_ne hne with hlt | hgt
  · exact ⟨first, second, point first, hlt, hpoint first, by rw [hpoints, hpoint]⟩
  · exact ⟨second, first, point first, hgt, by rw [hpoints, hpoint], hpoint first⟩

/-- A step that can only be taken from finitely many points stops exactly if it
never returns. -/
theorem ends_iff_not_returns {points : Finset α} (hstep : ∀ x y, next x = some y → x ∈ points)
    (x : α) : Ends next x ↔ ¬ Returns next x := by
  constructor
  · exact fun hends hreturns => not_ends_of_returns hreturns hends
  · intro hnever
    by_contra hendless
    exact hnever (returns_of_not_ends hstep hendless)

end DoomsdayModules.FiniteOrbit
