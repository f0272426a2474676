/-
# The actions of task bodies

The body of a scope or of a task is a list of actions, performed in order. An
action that fails ends its body, unless it is an `attempt`: then the error is
noted and the body goes on.

`α` is the type of the values that remote evaluations give.
-/
import Quiescence.Raised
import Quiescence.ScopeKind

namespace Quiescence

/-- What a remote evaluation gives when its body ends well. -/
inductive Answer (α : Type) where
  /-- The place the body ran at. -/
  | here
  | given (a : α)
  deriving DecidableEq, Repr

inductive Action (α : Type) where
  /-- Notes a line of text. -/
  | log (text : String)
  /-- Ends the body with an error. -/
  | fail (error : Raised)
  | panic (payload : PanicPayload)
  /-- Remembers the governing scope under a name. -/
  | save (name : String)
  /-- Notes the state of the governing scope. -/
  | info
  | kill (place : PlaceId)
  /-- Changes the number of places. -/
  | grow (places : Nat)
  /-- Lets that many deliveries and tasks happen at once. -/
  | pump (steps : Nat)
  /-- Spawns a task at the place of the body. -/
  | spawn (body : List (Action α))
  | spawnAt (target : PlaceId) (body : List (Action α))
  /-- Spawns a task governed by the current scope and held by remembered ones as well. -/
  | spawnShared (target : PlaceId) (scopes : List String) (body : List (Action α))
  /-- Spawns a task registered with remembered scopes only. -/
  | spawnAmong (target : PlaceId) (scopes : List String) (body : List (Action α))
  /-- Spawns a task under one remembered scope, at the place of that scope. -/
  | spawnUnder (scopes : List String) (body : List (Action α))
  /-- Opens a scope, runs its body, and waits for all tasks in it. -/
  | scope (kind : Option ScopeKind) (body : List (Action α))
  /-- Evaluates a body at a place, in a scope of its own, and notes the value. -/
  | evaluate (target : PlaceId) (body : List (Action α)) (answer : Answer α)
  | attempt (action : Action α)

namespace Action

instance {α : Type} : Inhabited (Action α) := ⟨info⟩

mutual

/-- An allowance for the moves that the action and all that it spawns can cause. Each body takes a
few moves of its own, and its end may send a report or a failure to the home of every scope it is
registered with, which takes a move to deliver. -/
def weight {α : Type} : Action α → Nat
  | spawn body => weightAll body + 20
  | spawnAt _ body => weightAll body + 20
  | spawnShared _ scopes body => weightAll body + 3 * scopes.length + 20
  | spawnAmong _ scopes body => weightAll body + 3 * scopes.length + 20
  | spawnUnder scopes body => weightAll body + 3 * scopes.length + 20
  | scope _ body => weightAll body + 20
  | evaluate _ body _ => weightAll body + 30
  | attempt a => weight a + 1
  | _ => 5

def weightAll {α : Type} : List (Action α) → Nat
  | [] => 0
  | a :: as => weight a + weightAll as

end

end Action

/-- The body of a task, with the place where its value goes if it is evaluated for one. -/
structure Code (α : Type) where
  body : List (Action α)
  evaluates : Option (Nat × Answer α)

end Quiescence
