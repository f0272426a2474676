/-
# Settings of a cluster

How many places a cluster has, the kind of its scopes, how many workers it may
use, and how often the owner of a scope asks for its release before it parks.

Settings come from a document (`parse`) or from values given directly, and
variables may override two of them (`withOverrides`). A cluster needs a place
and a worker; `validate` says so. A document that names no setting for a field
leaves it at its default, and one that names anything else is refused.
-/
import Quiescence.ScopeKind
import Quiescence.Settings.Document

namespace Quiescence

structure Settings where
  places : Nat
  kind : ScopeKind
  workers : Nat
  spins : Nat
  deriving DecidableEq, Repr

namespace Settings

/-- Settings unless others are given. -/
def standard : Settings := ⟨4, .plain, 512, 64⟩

instance : Inhabited Settings := ⟨standard⟩

/-- Why there are no settings to run a cluster with. -/
inductive Error where
  /-- The document is not one, or does not hold settings. -/
  | document
  /-- A variable that overrides the number of places holds no number. -/
  | invalidPlaces (text : String)
  /-- A variable that overrides the kind of scopes names none. -/
  | invalidKind (error : UnknownKind)
  | noPlaces
  | noWorkers
  deriving DecidableEq, Repr

def Error.message : Error → String
  | document => "TOML parse error"
  | invalidPlaces text => "invalid place count `" ++ text ++ "`"
  | invalidKind e => e.message
  | noPlaces => "a cluster needs at least one place"
  | noWorkers => "max_blocking_threads must be at least 1"

/-- Refuses settings that no cluster can run with. -/
def validate (s : Settings) : Except Error Settings :=
  if s.places = 0 then .error .noPlaces
  else if s.workers = 0 then .error .noWorkers
  else .ok s

/-- Numbers in settings are below this one. -/
def limit : Nat := UInt64.size

/-! ### Names -/

def placesName : String := "places"
def kindName : String := "finish"
def workersName : String := "max_blocking_threads"
def spinsName : String := "spin_before_block"

/-! ### From documents -/

/-- A number in a document. -/
def number? : Item → Option Nat
  | .number n => if 0 ≤ n ∧ n.toNat < limit then some n.toNat else none
  | _ => none

/-- A kind in a document: its name, or a table that holds nothing but its name, and nothing
under that. -/
def kind? : Item → Option ScopeKind
  | .text s => ScopeKind.ofName? s
  | .table _ [(name, .table _ [])] => ScopeKind.ofName? name
  | .table _ [(name, .list [])] => ScopeKind.ofName? name
  | _ => none

/-- Sets what one field of a document names. -/
def setField (s : Settings) (name : String) (item : Item) : Option Settings :=
  if name = placesName then (number? item).map fun places => { s with places }
  else if name = kindName then (kind? item).map fun kind => { s with kind }
  else if name = workersName then (number? item).map fun workers => { s with workers }
  else if name = spinsName then (number? item).map fun spins => { s with spins }
  else none

/-- The settings that a document holds; they need not be valid. -/
def ofDocument (fields : Fields) : Option Settings :=
  fields.foldlM (fun s f => s.setField f.1 f.2) standard

/-- The valid settings that a document holds. -/
def parse (s : String) : Except Error Settings :=
  match (Document.parse s).bind ofDocument with
  | some s => s.validate
  | none => .error .document

/-! ### From variables -/

def placesVariable : String := "PGAS_PLACES"
def kindVariable : String := "PGAS_FINISH"

/-- The value of a text of digits. -/
def ofDigits (cs : List Char) : Option Nat :=
  if cs.isEmpty ∨ !cs.all Char.isDigit then none
  else some (cs.foldl (fun n c => n * 10 + (c.toNat - '0'.toNat)) 0)

/-- A number of places in a variable: digits, perhaps after a plus sign, within blanks. -/
def placesOfText (text : String) : Except Error Nat :=
  let digits := match Text.trimmed text.toList with
    | '+' :: cs => cs
    | cs => cs
  match (ofDigits digits).filter (· < limit) with
  | some n => .ok n
  | none => .error (.invalidPlaces text)

/-- A kind of scopes in a variable. -/
def kindOfText (text : String) : Except Error ScopeKind :=
  match ScopeKind.parse text with
  | .ok k => .ok k
  | .error e => .error (.invalidKind e)

/-- Puts what variables hold in place of two settings, and refuses settings that are not valid
then. The number of places is looked at first. -/
def withOverrides (s : Settings) (lookUp : String → Option String) : Except Error Settings := do
  let places ← match lookUp placesVariable with
    | some text => placesOfText text
    | none => .ok s.places
  let kind ← match lookUp kindVariable with
    | some text => kindOfText text
    | none => .ok s.kind
  validate { s with places, kind }

/-! ### Printing -/

/-- The settings as a document. -/
def render (s : Settings) : String :=
  let line (name value : String) := name ++ " = " ++ value ++ "\n"
  line placesName (toString s.places) ++ line kindName ("\"" ++ s.kind.text ++ "\"") ++
    line workersName (toString s.workers) ++ line spinsName (toString s.spins)

/-- One line about the settings. -/
def describe (s : Settings) : String :=
  "RuntimeConfig \x7b " ++ placesName ++ ": " ++ toString s.places ++ ", " ++ kindName ++ ": " ++
    s.kind.describe ++ ", " ++ workersName ++ ": " ++ toString s.workers ++ ", " ++ spinsName ++
    ": " ++ toString s.spins ++ " \x7d"

end Settings

end Quiescence
