import Mathlib.Data.List.Basic

/-!
# Transducers

A machine that gives one output for each letter it reads.  What it gives does not
depend on how its input is cut into words.
-/

namespace DoomsdayModules.Transducers

variable {State Letter Output : Type*}

structure Transducer (State Letter Output : Type*) where
  step : State → Letter → State × Output

namespace Transducer

variable (machine : Transducer State Letter Output)

/-- The state after a word. -/
def after (state : State) (word : List Letter) : State :=
  word.foldl (fun state letter => (machine.step state letter).1) state

/-- The outputs along a word. -/
def outputs (state : State) : List Letter → List Output
  | [] => []
  | letter :: word =>
      (machine.step state letter).2 :: outputs (machine.step state letter).1 word

@[simp]
theorem after_nil (state : State) : machine.after state [] = state := rfl

end Transducer

end DoomsdayModules.Transducers
