/-
# Diagnostics

Each place keeps the failures seen by its instances of debug scopes until they
are dumped: one entry per instance, in the order in which the instances were
first seen since the last dump.

An instance is known by its serial number. Its label is refreshed with every
failure, since a scope may gain its global identity after its first failures.
-/
import Quiescence.Failure

namespace Quiescence

/-- The failures retained for one instance of a scope, oldest first. -/
structure Diagnostics.Entry where
  serial : Nat
  label : String
  failures : List Failure
  deriving DecidableEq, Repr

/-- The entries of one place. -/
structure Diagnostics where
  entries : List Diagnostics.Entry
  deriving DecidableEq, Repr

namespace Diagnostics

def empty : Diagnostics := ⟨[]⟩

/-- Adds a failure to the entry of an instance, or starts one after those there are. -/
def recordIn (serial : Nat) (label : String) (f : Failure) : List Entry → List Entry
  | [] => [⟨serial, label, [f]⟩]
  | e :: es =>
    if e.serial = serial then ⟨serial, label, e.failures ++ [f]⟩ :: es
    else e :: recordIn serial label f es

def record (d : Diagnostics) (serial : Nat) (label : String) (f : Failure) : Diagnostics :=
  ⟨recordIn serial label f d.entries⟩

/-- Hands out every entry and keeps none. -/
def dump (d : Diagnostics) : List Entry × Diagnostics := (d.entries, empty)

/-- The number of instances with retained failures. -/
def size (d : Diagnostics) : Nat := d.entries.length

def isEmpty (d : Diagnostics) : Bool := d.entries.isEmpty

end Diagnostics

end Quiescence
