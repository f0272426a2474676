/-
# Reporting failures to a scope

A failure reported to an instance at home is kept there until the scope exits.
One reported elsewhere is sent home, where it counts as one more task of the
scope, so that the scope is not released before the failure has arrived. If
the home place cannot be reached, the failure stays where it was reported.

Instances of debug scopes also leave the failure in the diagnostics of their
place.
-/
import Quiescence.Failure.Wire
import Quiescence.World.Accounting

namespace Quiescence.World

variable {ν : Type → Type} {β : Type} [Network ν]

/-- Leaves a failure in the diagnostics of the instance's place, if its scope is a debug one. -/
def retain (w : World ν β) (s : Serial) (i : Instance) (f : Failure) : World ν β :=
  if i.kind.retains then
    w.modifySite i.place fun site =>
      { site with diagnostics := site.diagnostics.record s (i.label s) f }
  else w

/-- Reports a failure to an instance. -/
def addSuppressed (w : World ν β) (s : Serial) (f : Failure) : World ν β :=
  match w.instance? s with
  | none => w
  | some i =>
    let w := w.retain s i f
    match i.remoteId? with
    | none => w.setInstance s { i with exceptions := i.exceptions ++ [f] }
    | some id =>
      let c := i.counters.spawnAway id.home w.known
      let counted := w.setInstance s { i with counters := c }
      match counted.send i.place id.home (.failure id f.encode) with
      | .ok w => w
      | .error _ =>
        w.setInstance s
          { i with
            counters := c.unspawnAway id.home w.known
            exceptions := i.exceptions ++ [f] }

/-- Applies a failure that has arrived at its home place: it is accepted as a task, reported to
the root, and ended. Bytes that hold no failure are reported as a failure to read them. -/
def deliverFailure (w : World ν β) (home : PlaceId) (id : GlobalId) (payload : Wire.Bytes) :
    World ν β :=
  match w.lookup home id with
  | .error _ => w
  | .ok root =>
    let w := (w.submit root).2
    let w := w.addSuppressed root (Failure.ofDecoded (Failure.decode payload) home)
    w.tell root

end Quiescence.World
