/-
# The state of a computation over several places

A *scope* waits for every task spawned in it, at whatever place. Each place
that takes part has an *instance* of the scope: the one at the place that
opened the scope decides when it is released, the others report to it.

A `World` is all there is at one moment: the instances, the tables of each
place, the messages on their way, and the tasks that wait for a worker. It is
plain data; the operations are in the modules below this one. They speak of an
instance by its serial number, its position in the order of creation.

What a task does is not known here: `β` is the type of task bodies.
-/
import Quiescence.Counters
import Quiescence.Diagnostics
import Quiescence.Network
import Quiescence.Registry
import Quiescence.Stats
import Quiescence.Token

namespace Quiescence

/-- The position of an instance in the order of creation. -/
abbrev Serial := Nat

/-- What a place binds to a global identity. -/
inductive Binding where
  /-- Its instance of a scope. -/
  | scope (serial : Serial)
  /-- Something that is no scope. -/
  | foreign
  deriving DecidableEq, Repr

/-- What an instance is in its scope. -/
inductive Role where
  /-- No task has left the place: the instance is the whole scope. -/
  | confined
  /-- The instance at the home place of a scope that other places know of. -/
  | root
  /-- An instance at another place. -/
  | remote
  deriving DecidableEq, Repr

/-- How an instance's role is named in reports. -/
def Role.text : Role → String
  | confined => "Local"
  | root => "Root"
  | remote => "Remote"

/-- One place's instance of a scope. -/
structure Instance where
  place : PlaceId
  kind : ScopeKind
  /-- The identity of the scope, once a task of it has left its home place. -/
  id : Option GlobalId
  counters : Counters
  /-- The failures of the whole scope at home; elsewhere those that could not be forwarded. -/
  exceptions : List Failure
  /-- Is this the instance that its place binds to the identity? Of use only away from home. -/
  bound : Bool
  /-- How often those who wait for the release have been woken. -/
  wakes : Nat
  deriving DecidableEq, Repr

namespace Instance

def role (i : Instance) : Role :=
  match i.id with
  | none => .confined
  | some id => if id.isHome i.place then .root else .remote

/-- The identity of an instance away from home. -/
def remoteId? (i : Instance) : Option GlobalId :=
  i.id.filter fun id => !id.isHome i.place

/-- No work is outstanding, as far as the instance knows. -/
def isReleasable (i : Instance) : Bool := i.counters.isReleased

/-- How diagnostics name the instance with a serial number. -/
def label (i : Instance) (s : Serial) : String :=
  match i.id with
  | some id => "global finish " ++ id.text
  | none => "local finish@" ++ toString s

/-- The same instance with other counters, its waiters woken if that released it. -/
def retire (i : Instance) (released : Bool) (c : Counters) : Instance :=
  { i with counters := c, wakes := if released then i.wakes + 1 else i.wakes }

end Instance

/-- The tables of one place. -/
structure Site where
  here : PlaceId
  /-- The kind of scopes opened through the place. -/
  kind : ScopeKind
  /-- How often the owner of a scope asks for its release before it parks. -/
  spins : Nat
  identities : Registry Binding
  diagnostics : Diagnostics
  stats : Stats
  deriving Repr

namespace Site

/-- A place at its start. -/
def fresh (here : PlaceId) (kind : ScopeKind) (spins : Nat) : Site :=
  ⟨here, kind, spins, .empty here, .empty, .zero⟩

/-- One line about the place. -/
def describe (s : Site) : String :=
  "Place \x7b here: " ++ s.here.describe ++ ", finish_kind: " ++ s.kind.describe ++
    ", identities: " ++ s.identities.describe ++ ", .. \x7d"

end Site

/-- What one place sends to another. -/
inductive Message (β : Type) where
  /-- A task to run at the destination, with a token for each scope it is registered with. -/
  | handOff (tokens : List Token) (body : β)
  /-- What has happened to a scope at the sender since its last report. -/
  | report (id : GlobalId) (deltas : List Int)
  /-- A failure in a scope at the sender, in bytes. -/
  | failure (id : GlobalId) (payload : Wire.Bytes)
  deriving Repr

/-- A task that waits for a worker of its place. The first scope governs it. -/
structure Job (β : Type) where
  place : PlaceId
  finishes : List Serial
  body : β
  deriving Repr

structure World (ν : Type → Type) (β : Type) where
  net : ν (Message β)
  /-- The places there are, in order. -/
  sites : List Site
  /-- Every instance ever made, in order of creation. -/
  instances : List Instance
  /-- The tasks that wait for a worker, oldest first. -/
  jobs : List (Job β)

namespace World

variable {ν : Type → Type} {β : Type}

/-- Some places with nothing going on. -/
def start (net : ν (Message β)) (places : Nat) (kind : ScopeKind) (spins : Nat) : World ν β where
  net
  sites := (List.range places).map fun i => .fresh ⟨UInt32.ofNat i⟩ kind spins
  instances := []
  jobs := []

def site? (w : World ν β) (p : PlaceId) : Option Site := w.sites[p.index]?

def modifySite (w : World ν β) (p : PlaceId) (f : Site → Site) : World ν β :=
  { w with sites := w.sites.modify p.index f }

def instance? (w : World ν β) (s : Serial) : Option Instance := w.instances[s]?

def setInstance (w : World ν β) (s : Serial) (i : Instance) : World ν β :=
  { w with instances := w.instances.set s i }

/-- Makes a new instance, with the next serial number. -/
def addInstance (w : World ν β) (i : Instance) : Serial × World ν β :=
  (w.instances.length, { w with instances := w.instances ++ [i] })

/-- What a place binds to an identity. -/
def bound? (w : World ν β) (p : PlaceId) (id : GlobalId) : Option Binding :=
  (w.site? p).bind fun site => site.identities.get? id

def modifyIdentities (w : World ν β) (p : PlaceId) (f : Registry Binding → Registry Binding) :
    World ν β :=
  w.modifySite p fun site => { site with identities := f site.identities }

/-- Allocates an identity homed at a place. -/
def allocate (w : World ν β) (p : PlaceId) : Except PlaceError (GlobalId × World ν β) :=
  match w.site? p with
  | none => .error (.unknown p w.sites.length)
  | some site =>
    match site.identities.allocate with
    | .error e => .error e
    | .ok (id, identities) => .ok (id, w.modifyIdentities p fun _ => identities)

/-- Binds an identity at a place to something that is no scope. Was it bound before? -/
def bindForeign (w : World ν β) (p : PlaceId) (id : GlobalId) : Bool × World ν β :=
  ((w.bound? p id).isSome, w.modifyIdentities p fun r => r.put id .foreign)

/-- Unbinds an identity at a place, whatever is bound. Was it bound before? -/
def forget (w : World ν β) (p : PlaceId) (id : GlobalId) : Bool × World ν β :=
  ((w.bound? p id).isSome, w.modifyIdentities p fun r => r.erase id)

/-- Hands out the diagnostics of a place and keeps none. -/
def dump (w : World ν β) (p : PlaceId) : List Diagnostics.Entry × World ν β :=
  match w.site? p with
  | none => ([], w)
  | some site =>
    let (entries, diagnostics) := site.diagnostics.dump
    (entries, w.modifySite p fun site => { site with diagnostics })

variable [Network ν]

/-- The number of places there are now. -/
def known (w : World ν β) : Nat := Network.known w.net

/-- Sends a message, or says why it cannot be sent. -/
def send (w : World ν β) (sender dest : PlaceId) (m : Message β) : Except PlaceError (World ν β) :=
  match Network.send w.net ⟨sender, dest, m⟩ with
  | .ok net => .ok { w with net }
  | .error e => .error e

/-- Makes a place refuse messages from now on. -/
def kill (w : World ν β) (p : PlaceId) : Except PlaceError (World ν β) :=
  match Network.kill w.net p with
  | .ok net => .ok { w with net }
  | .error e => .error e

/-- Kills places in turn; those that cannot be killed are passed over. -/
def killAll (w : World ν β) (ps : List PlaceId) : World ν β :=
  ps.foldl (fun w p => (w.kill p).toOption.getD w) w

/-- Changes the number of places, where that can change. -/
def resize (w : World ν β) (known : Nat) : World ν β := { w with net := Network.resize w.net known }

/-- Hands a task to the workers of its place. -/
def enqueue (w : World ν β) (job : Job β) : World ν β :=
  { w.modifySite job.place fun site => { site with stats := site.stats.start } with
    jobs := w.jobs ++ [job] }

end World

end Quiescence
