/-
# Errors raised by task bodies, and their capture

The body of a task may end with any error, wrapped in any number of contexts.
Capture turns it into a `Failure` that names every link of its chain.

* `Raised.chain`: the links of an error, outermost first. A link is an
  aggregate when it stands for the failures of a scope.
* `Failure.ofRaised`: one failure of kind `error` per link, each the cause of
  the one before. The first aggregate ends the chain: its failure is of kind
  `multiple` and keeps the failures of the scope as nested ones.
* `Failure.ofPanic`: the failure of a body that panicked.
-/
import Quiescence.Error

namespace Quiescence

/-- The innermost error of a chain of contexts. -/
inductive Raised.Origin where
  /-- An error that is only a message. -/
  | message (text : String)
  /-- A failure, used as an error. -/
  | failure (failure : Failure)
  /-- An aggregate of failures. -/
  | aggregate (failures : List Failure)
  | scope (error : ScopeError)
  | transfer (error : TransferError)
  | place (error : PlaceError)
  deriving DecidableEq, Repr

/-- An error with the contexts added to it, innermost first. -/
structure Raised where
  origin : Raised.Origin
  contexts : List String
  deriving DecidableEq, Repr

namespace Raised

/-- One error of a chain: its message, and the failures it aggregates if it is an aggregate. -/
structure Link where
  text : String
  aggregate : Option (List Failure)
  deriving DecidableEq, Repr

/-- A link that aggregates nothing. -/
def Link.plain (text : String) : Link := ⟨text, none⟩

/-- An aggregate, and below it its first failure with the causes of that. -/
def Link.ofAggregate (fs : List Failure) : List Link :=
  match Failure.aggregateSources fs with
  | [] => []
  | text :: below => ⟨text, some fs⟩ :: below.map .plain

/-- The origin of an error and the errors beneath it. -/
def Origin.chain : Origin → List Link
  | message text => [.plain text]
  | failure f => f.chain.map fun g => .plain g.text
  | aggregate fs => Link.ofAggregate fs
  | scope e =>
    match e.failures? with
    | some fs => Link.ofAggregate fs
    | none => e.sources.map .plain
  | transfer e => e.sources.map .plain
  | place e => [.plain e.message]

/-- The contexts, the latest first, then the origin and what lies beneath it. -/
def chain (e : Raised) : List Link := e.contexts.reverse.map .plain ++ e.origin.chain

/-- An error of a scope operation, raised by the body that ran into it. -/
def ofScope (e : ScopeError) : Raised := ⟨.scope e, []⟩

/-- The message of the outermost link. -/
def text (e : Raised) : String :=
  match e.chain with
  | [] => ""
  | link :: _ => link.text

/-- The scope error at the origin, whatever contexts are around it. -/
def scope? (e : Raised) : Option ScopeError :=
  match e.origin with
  | .scope e => some e
  | _ => none

end Raised

/-- What a panicking body leaves behind: a text, or something that is none. -/
inductive PanicPayload where
  | text (s : String)
  | opaquely
  deriving DecidableEq, Repr

namespace PanicPayload

def message? : PanicPayload → Option String
  | text s => some s
  | opaquely => none

end PanicPayload

namespace Failure

/-- Captures a chain of errors as a chain of causes, up to the first aggregate. -/
def ofChain (place : PlaceId) : List Raised.Link → Option Failure
  | [] => none
  | link :: rest =>
    match link.aggregate with
    | some fs => some (fs.foldl suppress (.simple multipleKind link.text place))
    | none => some { Failure.simple errorKind link.text place with cause := ofChain place rest }

/-- The failure of a body that ended with an error. -/
def ofRaised (e : Raised) (place : PlaceId) : Failure :=
  (ofChain place e.chain).getD (.simple errorKind e.text place)

/-- The failure of a body that panicked. -/
def ofPanic (payload : PanicPayload) (place : PlaceId) : Failure :=
  .simple panicKind (payload.message?.getD "task panicked with a non-string payload") place

end Failure

end Quiescence
