/-
# Accounting for the tasks of a scope

The operations on one instance of a scope, whatever its role.

* `openScope` makes a scope; its body counts as one task.
* `spawn` counts a task about to be handed to a place, `submit` accepts one
  that has arrived, `tell` ends one that ran here, `unspawn` takes back a spawn
  whose task could not be handed over.
* `update` adds the report of another place. An instance away from home sends
  a report when the last task it accepted ends; it is then as good as a fresh
  one and gives up its identity.
* `prepareTransfer` gives the token that lets another place find or make its
  own instance with `resolve`.
* `exit` gives up the identity of a scope that is over.

Where the serial number names no instance, nothing happens.
-/
import Quiescence.Error
import Quiescence.World

namespace Quiescence.World

variable {ν : Type → Type} {β : Type} [Network ν]

/-- Opens a scope at a place, with its body as the one task outstanding. -/
def openScope (w : World ν β) (p : PlaceId) (kind : ScopeKind) : Serial × World ν β :=
  w.addInstance
    { place := p, kind, id := none, counters := Counters.zero.spawnAtHome p p w.known,
      exceptions := [], bound := true, wakes := 0 }

/-- Counts a task about to be handed to `target`. -/
def spawn (w : World ν β) (s : Serial) (target : PlaceId) : World ν β :=
  match w.instance? s with
  | none => w
  | some i =>
    match i.remoteId? with
    | some _ => w.setInstance s { i with counters := i.counters.spawnAway target w.known }
    | none => w.setInstance s { i with counters := i.counters.spawnAtHome i.place target w.known }

/-- Unbinds an identity at a place, if it is bound to the instance. -/
def unbind (w : World ν β) (p : PlaceId) (id : GlobalId) (s : Serial) : World ν β :=
  w.modifyIdentities p fun r => (r.removeIf id fun b => b == .scope s).2

/-- Accepts a task for this place. At home the task has been counted by its spawn. Away from
home it is counted here; an instance that had given up its identity takes it again, and accepts
nothing if another instance has it by now. -/
def submit (w : World ν β) (s : Serial) : Bool × World ν β :=
  match w.instance? s with
  | none => (true, w)
  | some i =>
    match i.remoteId? with
    | none => (true, w)
    | some id =>
      let accepted := { i with counters := i.counters.submitAway, bound := true }
      if i.bound then (true, w.setInstance s accepted)
      else match w.bound? i.place id with
        | some _ => (false, w)
        | none =>
          (true, (w.setInstance s accepted).modifyIdentities i.place fun r => r.put id (.scope s))

/-- Sends the report that is due to the home place, whether or not it can be sent, and gives up
the identity. -/
def report (w : World ν β) (s : Serial) (i : Instance) (id : GlobalId) (deltas : List Int) :
    World ν β :=
  let idle := w.setInstance s { i with bound := false }
  let sent := match idle.send i.place id.home (.report id deltas) with
    | .ok w => w
    | .error _ => idle
  sent.unbind i.place id s

/-- Ends a task that ran here. -/
def tell (w : World ν β) (s : Serial) : World ν β :=
  match w.instance? s with
  | none => w
  | some i =>
    match i.remoteId? with
    | some id =>
      match i.counters.tellAway i.place w.known with
      | (none, c) => w.setInstance s { i with counters := c }
      | (some deltas, c) => w.report s { i with counters := c } id deltas
    | none =>
      let (retired, c) := i.counters.tellAtHome i.place w.known
      w.setInstance s (i.retire retired.released c)

/-- Takes back a spawn at `target` whose task never ran. -/
def unspawn (w : World ν β) (s : Serial) (target : PlaceId) : World ν β :=
  match w.instance? s with
  | none => w
  | some i =>
    match i.remoteId? with
    | some _ => w.setInstance s { i with counters := i.counters.unspawnAway target w.known }
    | none =>
      let (retired, c) := i.counters.unspawnAtHome target w.known
      w.setInstance s (i.retire retired.released c)

/-- Adds the report of another place. -/
def update (w : World ν β) (s : Serial) (deltas : List Int) : World ν β :=
  match w.instance? s with
  | none => w
  | some i =>
    let (released, c) := i.counters.update i.place deltas w.known
    w.setInstance s (i.retire released c)

/-- Gives the token of the scope. The first time, the scope gets its identity here, and the
instance becomes its root. -/
def prepareTransfer (w : World ν β) (s : Serial) : Except TransferError Token × World ν β :=
  match w.instance? s with
  | none => (.error (.allocate (.unknown default w.known)), w)
  | some i =>
    match i.id with
    | some id => (.ok ⟨id, i.kind⟩, w)
    | none =>
      match w.site? i.place with
      | none => (.error (.allocate (.unknown i.place w.known)), w)
      | some site =>
        match site.identities.allocate with
        | .error e => (.error (.allocate e), w)
        | .ok (id, identities) =>
          (.ok ⟨id, i.kind⟩,
            (w.setInstance s { i with id := some id }).modifyIdentities i.place fun _ =>
              identities.put id (.scope s))

/-- The instance that a place has bound to an identity. -/
def lookup (w : World ν β) (p : PlaceId) (id : GlobalId) : Except TransferError Serial :=
  match w.bound? p id with
  | some (.scope s) => .ok s
  | some .foreign => .error (.typeMismatch id)
  | none => .error (.unknownIdentity id)

/-- Finds the instance of a scope at a place. At home it must be there; elsewhere it is made if
nothing is bound to the identity. -/
def resolve (w : World ν β) (t : Token) (p : PlaceId) :
    Except TransferError Serial × World ν β :=
  match w.lookup p t.id with
  | .ok s => (.ok s, w)
  | .error (.unknownIdentity id) =>
    if t.id.isHome p then (.error (.unknownIdentity id), w)
    else
      let (s, w) := w.addInstance
        { place := p, kind := t.kind, id := some t.id,
          counters := Counters.zero.materialize w.known, exceptions := [], bound := true,
          wakes := 0 }
      (.ok s, w.modifyIdentities p fun r => r.put t.id (.scope s))
  | .error e => (.error e, w)

/-- Finds the instance of a scope at a place and accepts one task there. The instance found is
the one that is bound, so it does accept. -/
def accept (w : World ν β) (t : Token) (p : PlaceId) : Except TransferError Serial × World ν β :=
  match w.resolve t p with
  | (.ok s, w) => (.ok s, (w.submit s).2)
  | (.error e, w) => (.error e, w)

/-- Gives up the identity of a scope at the place of an instance, if that instance has it. -/
def exit (w : World ν β) (s : Serial) : World ν β :=
  match w.instance? s with
  | none => w
  | some i =>
    match i.id with
    | none => w
    | some id => w.unbind i.place id s

/-- Hands out the failures an instance has collected, and keeps none. -/
def takeExceptions (w : World ν β) (s : Serial) : List Failure × World ν β :=
  match w.instance? s with
  | none => ([], w)
  | some i => (i.exceptions, w.setInstance s { i with exceptions := [] })

/-- Is no work of the scope outstanding, as far as the instance knows? -/
def isReleasable (w : World ν β) (s : Serial) : Bool :=
  match w.instance? s with
  | none => true
  | some i => i.isReleasable

end Quiescence.World
