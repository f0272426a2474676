/-
# Identity registries

Each place owns a registry that binds global identities to values of the
place's own, and allocates identities homed at the place.

Identities are allocated in order and never twice; when the local numbers run
out, allocation fails and goes on failing. A binding is replaced only by
`put`; `putIfAbsent` lets the first value win, and `removeIf` removes a value
only when a test accepts it.
-/
import Quiescence.Place

namespace Quiescence

/-- What one place binds to global identities: at most one value to each. -/
structure Registry (α : Type) where
  here : PlaceId
  /-- The next local number to hand out. -/
  next : UInt32
  bindings : List (GlobalId × α)
  deriving Repr

namespace Registry

variable {α : Type}

/-- The registry of a place at its start. -/
def empty (here : PlaceId) : Registry α := ⟨here, 0, []⟩

/-- A fresh identity homed here. The last local number is never handed out: it marks the end. -/
def allocate (r : Registry α) : Except PlaceError (GlobalId × Registry α) :=
  if r.next.toNat + 1 < UInt32.size then
    .ok (⟨r.here, r.next⟩, { r with next := r.next + 1 })
  else .error (.exhausted r.here)

/-- The value bound to an identity. -/
def get? (r : Registry α) (id : GlobalId) : Option α :=
  (r.bindings.find? fun b => b.1 == id).map (·.2)

/-- Unbinds an identity, whatever is bound. -/
def erase (r : Registry α) (id : GlobalId) : Registry α :=
  { r with bindings := r.bindings.filter fun b => b.1 != id }

/-- Binds a value, in place of the one bound before. -/
def put (r : Registry α) (id : GlobalId) (a : α) : Registry α :=
  { r with bindings := (r.erase id).bindings ++ [(id, a)] }

/-- Binds a value unless one is bound already; the value that was there comes back. -/
def putIfAbsent (r : Registry α) (id : GlobalId) (a : α) : Option α × Registry α :=
  match r.get? id with
  | some b => (some b, r)
  | none => (none, r.put id a)

/-- Unbinds an identity if the test accepts the value; the value removed comes back. -/
def removeIf (r : Registry α) (id : GlobalId) (accepts : α → Bool) : Option α × Registry α :=
  match r.get? id with
  | some a => if accepts a then (some a, r.erase id) else (none, r)
  | none => (none, r)

/-- The number of identities that are bound. -/
def size (r : Registry α) : Nat := r.bindings.length

/-- One line about the registry. -/
def describe (r : Registry α) : String :=
  "IdentityRegistry \x7b here: " ++ r.here.describe ++ ", bound: " ++ toString r.size ++ " \x7d"

end Registry

end Quiescence
