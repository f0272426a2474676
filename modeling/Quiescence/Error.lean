/-
# Errors of scopes and tasks

`TransferError` says why a scope or a failure could not cross a place
boundary, `ScopeError` why an operation on scopes or tasks failed. Each has
one `message`, and a list of `sources`: its own message, then the messages of
the errors that lie beneath it, outermost first.

An aggregate of failures is a list, in the order the failures were captured.
-/
import Quiescence.Failure
import Quiescence.Wire

namespace Quiescence

/-- The message of an aggregate of failures. -/
def Failure.aggregateText : List Failure → String
  | [] => "finish completed with no failures"
  | [only] => "1 task failed: " ++ only.text
  | first :: rest =>
    toString (rest.length + 1) ++ " tasks failed, first: " ++ first.text

/-- Beneath an aggregate lie its first failure and the causes of that. -/
def Failure.aggregateSources (fs : List Failure) : List String :=
  Failure.aggregateText fs :: match fs with
    | [] => []
    | first :: _ => first.chain.map Failure.text

/-- Why a scope or a failure could not cross a place boundary. -/
inductive TransferError where
  /-- Nothing is bound to the identity at its home place. -/
  | unknownIdentity (id : GlobalId)
  /-- The identity is bound to something that is no scope. -/
  | typeMismatch (id : GlobalId)
  /-- The bytes of a failure do not hold one. -/
  | codec (error : Wire.DecodeError)
  /-- The scope could not be given an identity. -/
  | allocate (error : PlaceError)
  deriving DecidableEq, Repr

namespace TransferError

def message : TransferError → String
  | unknownIdentity id => "no finish registered under " ++ id.text ++ " at its home place"
  | typeMismatch id => id.text ++ " is bound to a value that is not a finish"
  | codec e => "failure codec error: " ++ e.message
  | allocate e => e.message

/-- Only a codec error has another beneath it; an allocation error speaks for the place. -/
def sources (e : TransferError) : List String :=
  e.message :: match e with
    | codec inner => [inner.message]
    | _ => []

end TransferError

/-- Why an operation on scopes or tasks failed. -/
inductive ScopeError where
  /-- Tasks of the scope failed. -/
  | multiple (failures : List Failure)
  /-- The operation needs a running task or scope body, and there is none. -/
  | noActivity
  /-- A task was to be registered with no scope at all. -/
  | noFinish
  /-- A remote evaluation ended well and left no value. -/
  | missingValue (place : PlaceId)
  /-- The place could not be reached. -/
  | place (error : PlaceError)
  /-- The scope could not be transferred. -/
  | transfer (error : TransferError)
  deriving DecidableEq, Repr

namespace ScopeError

def message : ScopeError → String
  | multiple fs => Failure.aggregateText fs
  | noActivity => "not running inside a finish scope"
  | noFinish => "a task must be registered with at least one finish"
  | missingValue p => "evaluation at " ++ p.text ++ " completed without a value"
  | place e => e.message
  | transfer e => e.message

/-- An error that wraps another speaks for it, so the sources are those of the wrapped error. -/
def sources : ScopeError → List String
  | multiple fs => Failure.aggregateSources fs
  | transfer e => e.sources
  | e => [e.message]

/-- The aggregate, when tasks of the scope failed. -/
def failures? : ScopeError → Option (List Failure)
  | multiple fs => some fs
  | _ => none

end ScopeError

/-- The failure that stands for a failure which could not be carried. -/
def Failure.ofTransferError (e : TransferError) (place : PlaceId) : Failure :=
  .simple codecKind e.message place

/-- The failure that some bytes carry to a place, or the failure to read them. -/
def Failure.ofDecoded (r : Except Wire.DecodeError Failure) (place : PlaceId) : Failure :=
  match r with
  | .ok f => f
  | .error e => .ofTransferError (.codec e) place

end Quiescence
