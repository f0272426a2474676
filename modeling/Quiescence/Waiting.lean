/-
# Polling before parking

The owner of a scope waits for it to be released. It asks a number of times
whether it is, and only then parks, again and again until parking says that
the scope is released. Short waits end without parking.

`managedWait` counts the questions and the parkings of one wait, given the
answers to each in order. Once the given answers are used up, a question is
answered no and parking ends with the scope released.
-/

namespace Quiescence

/-- How often one wait asked and how often it parked. -/
structure Waits where
  polls : Nat
  parks : Nat
  deriving DecidableEq, Repr

namespace Waits

/-- Asks at most `spins` times. Was the answer yes, and how often was it asked? -/
def spin : Nat → List Bool → Bool × Nat
  | 0, _ => (false, 0)
  | spins + 1, [] => (false, spins + 1)
  | _ + 1, true :: _ => (true, 1)
  | spins + 1, false :: answers =>
    let (released, polls) := spin spins answers
    (released, polls + 1)

/-- Parks until parking says that the wait is over. -/
def park : List Bool → Nat
  | [] => 1
  | true :: _ => 1
  | false :: answers => park answers + 1

end Waits

def managedWait (spins : Nat) (isReleased parked : List Bool) : Waits :=
  let (released, polls) := Waits.spin spins isReleased
  ⟨polls, if released then 0 else Waits.park parked⟩

end Quiescence
