/-
# Clusters

A cluster is a set of places that share one process. Each place has an inbox,
and the bodies of tasks run on the workers of the cluster; here they run one
after the other, in the order in which they and the messages before them
became ready.

A scope is opened through a place and runs to its exit. Afterwards whatever is
still on its way, such as the end of a task that only held another scope,
happens before anything else is asked of the cluster.
-/
import Quiescence.Network.Mailroom
import Quiescence.Program.Run
import Quiescence.Settings

namespace Quiescence

structure Cluster (α : Type) where
  settings : Settings
  machine : Machine Mailroom α

/-- The failures of one label at one place. -/
structure Cluster.Record where
  place : PlaceId
  label : String
  failures : List Failure
  deriving DecidableEq, Repr

namespace Cluster

variable {α : Type}

/-- A cluster at its start, with settings it can run with. -/
def start (s : Settings) : Except Settings.Error (Cluster α) := do
  let s ← s.validate
  return ⟨s, .idle (.start (.empty s.places) s.places s.kind s.spins) []⟩

def world (c : Cluster α) : World Mailroom (Code α) := c.machine.world

/-- The tables of a place, if there is such a place. -/
def site (c : Cluster α) (p : PlaceId) : Except PlaceError Site :=
  match c.world.site? p with
  | some site => .ok site
  | none => .error (.unknown p c.world.sites.length)

/-- Runs a body in a scope opened at a place, and then whatever is left. Gives the end of the
scope and what was noted meanwhile. -/
def run (c : Cluster α) (p : PlaceId) (body : List (Action α)) :
    Option Ending × List (Note α) × Cluster α :=
  let run := Program.run ⟨.inScope p none, body⟩ c.machine
  (run.ended.outcome, run.settled.log.drop c.machine.log.length, { c with machine := run.settled })

def kill (c : Cluster α) (p : PlaceId) : Except PlaceError (Cluster α) :=
  match c.world.kill p with
  | .ok world => .ok { c with machine := { c.machine with world } }
  | .error e => .error e

/-- Does the place refuse messages? -/
def isDead (c : Cluster α) (p : PlaceId) : Bool := Network.isDead c.world.net p

/-- Does some place retain failures? -/
def retains (c : Cluster α) : Bool := c.world.sites.any fun site => !site.diagnostics.isEmpty

/-- The label of an instance, without its serial number if the instance has no identity: the
order in which scopes are opened depends on the workers. -/
def stableLabel (label : String) : String :=
  if "local ".isPrefixOf label then "local finish@*" else label

/-- Adds failures to the record of a label, in a list of records in the order of labels. -/
def gather (r : Record) : List Record → List Record
  | [] => [r]
  | s :: rest =>
    if s.label = r.label then { s with failures := s.failures ++ r.failures } :: rest
    else if r.label < s.label then r :: s :: rest
    else s :: gather r rest

/-- The failures that a place retains, label by label. -/
def records (site : Site) : List Record :=
  site.diagnostics.entries.foldl
    (fun rs e => gather ⟨site.here, stableLabel e.label, e.failures⟩ rs) []

/-- Hands out every retained failure, place by place, and keeps none. -/
def dump (c : Cluster α) : List Record × Cluster α :=
  let world := c.world.sites.foldl (fun w site => (w.dump site.here).2) c.world
  (c.world.sites.flatMap records, { c with machine := { c.machine with world } })

/-- One line about the cluster. -/
def describe (c : Cluster α) : String :=
  "Cluster \x7b config: " ++ c.settings.describe ++ ", running: true, .. \x7d"

end Cluster

end Quiescence
