/-
# Finish tokens

A task that crosses a place boundary carries, for every scope it is registered
with, a token: the identity of the scope and its kind. With it the destination
finds its own instance of the scope, or makes one.
-/
import Quiescence.ScopeKind

namespace Quiescence

/-- What a task carries to name a scope at another place. -/
structure Token where
  id : GlobalId
  kind : ScopeKind
  deriving DecidableEq, Repr

namespace Wire

def writeToken (t : Token) : Bytes := writeId t.id ++ writeKind t.kind

def readToken : Reader Token := do
  let id ← readId
  let kind ← readKind
  pure ⟨id, kind⟩

end Wire

end Quiescence
