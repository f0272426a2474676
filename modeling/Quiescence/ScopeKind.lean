/-
# Kinds of scopes

A scope reports its failures when it exits. A scope of the debug kind also
leaves every failure that one of its instances sees in the diagnostics of that
instance's place, where they stay until they are dumped.
-/
import Quiescence.Text.Blank
import Quiescence.Wire

namespace Quiescence

inductive ScopeKind where
  /-- Failures are reported at the exit of the scope and nowhere else. -/
  | plain
  /-- Failures are retained in the diagnostics as well. -/
  | debug
  deriving DecidableEq, Repr, Inhabited

/-- A text that names no kind of scope. -/
structure UnknownKind where
  name : String
  deriving DecidableEq, Repr

namespace UnknownKind

def message (e : UnknownKind) : String :=
  "unknown finish kind `" ++ e.name ++ "` (expected `default` or `debug`)"

end UnknownKind

namespace ScopeKind

/-- The name of a kind in settings and messages. -/
def text : ScopeKind → String
  | plain => "default"
  | debug => "debug"

/-- The name of a kind in descriptions of larger values. -/
def describe : ScopeKind → String
  | plain => "Default"
  | debug => "Debug"

/-- Are failures retained for diagnostics? -/
def retains : ScopeKind → Bool
  | plain => false
  | debug => true

/-- The kind with exactly this name. -/
def ofName? (name : String) : Option ScopeKind :=
  if name = plain.text then some plain
  else if name = debug.text then some debug
  else none

/-- Reads a kind from a setting: blanks around it and the case of ASCII letters do not matter. -/
def parse (s : String) : Except UnknownKind ScopeKind :=
  match ofName? (String.ofList ((Text.trimmed s.toList).map Char.toLower)) with
  | some k => .ok k
  | none => .error ⟨s⟩

/-- The position of a kind among the alternatives on the wire. -/
def choice : ScopeKind → Nat
  | plain => 0
  | debug => 1

@[simp] theorem ofName?_text (k : ScopeKind) : ofName? k.text = some k := by cases k <;> rfl

end ScopeKind

namespace Wire

def writeKind (k : ScopeKind) : Bytes := writeNat k.choice

/-- A kind is a choice, numbered by a 32-bit number. -/
def readKind : Reader ScopeKind := do
  let n ← readNat 32
  if n = 0 then pure .plain
  else if n = 1 then pure .debug
  else .fail .badChoice

end Wire

end Quiescence
