import Mathlib.Logic.Function.Basic

/-!
# Mutexes

Agents enter and leave sections that a lock protects; an agent is in one section
at a time.  The table of the owners and the agents' own places in the code say
the same, so a lock has one agent in its sections at most.
-/

namespace DoomsdayModules.Mutexes

open Function

variable {Agent Lock : Type*} {owner : Lock → Option Agent} {holds : Agent → Option Lock}
  {agent other : Agent} {lock : Lock}

/-- The owner of a lock is the agent in a section of the lock. -/
def Exclusive (owner : Lock → Option Agent) (holds : Agent → Option Lock) : Prop :=
  ∀ lock agent, owner lock = some agent ↔ holds agent = some lock

namespace Exclusive

theorem unique (hexclusive : Exclusive owner holds) (hagent : holds agent = some lock)
    (hother : holds other = some lock) : agent = other := by
  have hfirst := (hexclusive lock agent).mpr hagent
  have hsecond := (hexclusive lock other).mpr hother
  exact Option.some.inj (hfirst.symm.trans hsecond)

/-- A lock that is not free has its owner in one of its sections. -/
theorem exists_holder (hexclusive : Exclusive owner holds) (htaken : owner lock ≠ none) :
    ∃ holder, holds holder = some lock := by
  obtain ⟨holder, hholder⟩ := Option.ne_none_iff_exists'.mp htaken
  exact ⟨holder, (hexclusive lock holder).mp hholder⟩

variable [DecidableEq Agent]

/-- An agent that stays where it is. -/
theorem stay {place : Option Lock} (hexclusive : Exclusive owner holds)
    (hagent : holds agent = place) : Exclusive owner (update holds agent place) := by
  rw [← hagent, update_eq_self]
  exact hexclusive

variable [DecidableEq Lock]

/-- An agent outside of all sections takes a free lock. -/
theorem acquire (hexclusive : Exclusive owner holds) (hfree : owner lock = none)
    (houtside : holds agent = none) :
    Exclusive (update owner lock (some agent)) (update holds agent (some lock)) := by
  intro lock' agent'
  by_cases hlock : lock' = lock
  · subst hlock
    by_cases hagent : agent' = agent
    · subst hagent
      simp
    · have hother : holds agent' ≠ some lock' := fun hholds => by
        have := (hexclusive lock' agent').mpr hholds
        rw [hfree] at this
        cases this
      simp [hagent, Ne.symm hagent, hother]
  · by_cases hagent : agent' = agent
    · subst hagent
      have hother : owner lock' ≠ some agent' := fun howner => by
        have := (hexclusive lock' agent').mp howner
        rw [houtside] at this
        cases this
      simp [hlock, Ne.symm hlock, hother]
    · simp only [update_of_ne hlock, update_of_ne hagent]
      exact hexclusive lock' agent'

/-- The owner leaves its section. -/
theorem release (hexclusive : Exclusive owner holds) (hinside : holds agent = some lock) :
    Exclusive (update owner lock none) (update holds agent none) := by
  intro lock' agent'
  by_cases hagent : agent' = agent
  · subst hagent
    by_cases hlock : lock' = lock
    · subst hlock
      simp
    · have hother : owner lock' ≠ some agent' := fun howner => by
        have := (hexclusive lock' agent').mp howner
        rw [hinside] at this
        exact hlock (Option.some.inj this).symm
      simp [hlock, hother]
  · by_cases hlock : lock' = lock
    · subst hlock
      have hother : holds agent' ≠ some lock' := fun hholds =>
        hagent (hexclusive.unique hholds hinside)
      simp [hagent, hother]
    · simp only [update_of_ne hlock, update_of_ne hagent]
      exact hexclusive lock' agent'

end Exclusive

end DoomsdayModules.Mutexes
