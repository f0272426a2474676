/-
# Tasks: registration, hand-off, completion

A task is registered with one scope or more, by an instance of each. The first
governs it and receives its failure; all of them count it.

* `spawnHere` hands a task to the workers of a place.
* `spawnAt` sends a task to another place. If the message is refused, every
  registration is taken back.
* `deliver` takes the next message of a lane and applies it. A task one of
  whose scopes cannot be found at its destination is dropped there; the
  scopes already found are told that it has ended.
* `complete` ends a task that has run, `endBody` the body of a scope.
* `leave` exits a scope that is released, with its failures as the result.
-/
import Quiescence.World.Reporting

namespace Quiescence

/-- A task before it is handed over. -/
structure Task (β : Type) where
  finishes : List Serial
  /-- The place it was spawned from. -/
  origin : PlaceId
  body : β
  deriving Repr

/-- A task registered with some scopes; there must be one. -/
def Task.register {β : Type} (finishes : List Serial) (origin : PlaceId) (body : β) :
    Except ScopeError (Task β) :=
  if finishes.isEmpty then .error .noFinish else .ok ⟨finishes, origin, body⟩

namespace World

variable {ν : Type → Type} {β : Type} [Network ν]

def spawnAll (w : World ν β) (finishes : List Serial) (target : PlaceId) : World ν β :=
  finishes.foldl (fun w s => w.spawn s target) w

def unspawnAll (w : World ν β) (finishes : List Serial) (target : PlaceId) : World ν β :=
  finishes.foldl (fun w s => w.unspawn s target) w

def submitAll (w : World ν β) (finishes : List Serial) : World ν β :=
  finishes.foldl (fun w s => (w.submit s).2) w

def tellAll (w : World ν β) (finishes : List Serial) : World ν β :=
  finishes.foldl (fun w s => w.tell s) w

/-- Hands a task to the workers of a place. -/
def spawnHere (w : World ν β) (t : Task β) (p : PlaceId) : World ν β :=
  ((w.spawnAll t.finishes p).submitAll t.finishes).enqueue ⟨p, t.finishes, t.body⟩

/-- The tokens of some instances, unless one has none to give. -/
def prepareAll (w : World ν β) : List Serial → Except TransferError (List Token) × World ν β
  | [] => (.ok [], w)
  | s :: rest =>
    match w.prepareTransfer s with
    | (.error e, w) => (.error e, w)
    | (.ok t, w) =>
      match w.prepareAll rest with
      | (.error e, w) => (.error e, w)
      | (.ok ts, w) => (.ok (t :: ts), w)

/-- Hands a task over from a place to another; a task for the place itself takes no message. -/
def spawnAt (w : World ν β) (t : Task β) (p target : PlaceId) :
    Except ScopeError Unit × World ν β :=
  if target = p then (.ok (), w.spawnHere t p)
  else match w.prepareAll t.finishes with
    | (.error e, w) => (.error (.transfer e), w)
    | (.ok tokens, w) =>
      let w := w.spawnAll t.finishes target
      match w.send p target (.handOff tokens t.body) with
      | .ok w => (.ok (), w)
      | .error e => (.error (.place e), w.unspawnAll t.finishes target)

/-- Accepts a task under each of its tokens in turn. Stops at the first that names no scope
here; says which instances have accepted, and whether all have. -/
def acceptAll (w : World ν β) (p : PlaceId) : List Token → (List Serial × Bool) × World ν β
  | [] => (([], true), w)
  | t :: rest =>
    match w.accept t p with
    | (.error _, w) => (([], false), w)
    | (.ok s, w) =>
      let ((accepted, all), w) := w.acceptAll p rest
      ((s :: accepted, all), w)

/-- Applies a task that has arrived. -/
def receiveTask (w : World ν β) (p : PlaceId) (tokens : List Token) (body : β) : World ν β :=
  match w.acceptAll p tokens with
  | ((accepted, true), w) => w.enqueue ⟨p, accepted, body⟩
  | ((accepted, false), w) => w.tellAll accepted

/-- Applies a report that has arrived; one for a scope that is not there is lost. -/
def receiveReport (w : World ν β) (home : PlaceId) (id : GlobalId) (deltas : List Int) :
    World ν β :=
  match w.lookup home id with
  | .error _ => w
  | .ok root => w.update root deltas

/-- Applies a message at its destination. A message for a place that was never built is lost. -/
def receive (w : World ν β) (p : PlaceId) (m : Message β) : World ν β :=
  match w.site? p with
  | none => w
  | some _ =>
    let w := match m with
      | .handOff tokens body => w.receiveTask p tokens body
      | .report id deltas => w.receiveReport p id deltas
      | .failure id payload => w.deliverFailure p id payload
    w.modifySite p fun site => { site with stats := site.stats.deliver }

/-- Delivers the next message of a lane, if one waits there. -/
def deliver (w : World ν β) (lane : Lane) : Option (World ν β) :=
  match Network.take w.net lane with
  | none => none
  | some (packet, net) => some ({ w with net }.receive packet.dest packet.content)

/-- Takes a task off the queue, for a worker to run. -/
def takeJob (w : World ν β) (i : Nat) : Option (Job β × World ν β) :=
  match w.jobs[i]? with
  | none => none
  | some job => some (job, { w with jobs := w.jobs.eraseIdx i })

/-- Ends a task that has run: its failure goes to the scope that governs it, and every scope
it is registered with is told. -/
def complete (w : World ν β) (job : Job β) (failure : Option Failure) : World ν β :=
  let w := match failure, job.finishes with
    | some f, s :: _ => w.addSuppressed s f
    | _, _ => w
  (w.tellAll job.finishes).modifySite job.place fun site =>
    { site with stats := site.stats.complete }

/-- Ends the body of a scope: its failure is reported, and it counts as a task no more. -/
def endBody (w : World ν β) (s : Serial) (failure : Option Failure) : World ν β :=
  let w := match failure with
    | some f => w.addSuppressed s f
    | none => w
  w.tell s

/-- Exits a scope: it gives up its identity, and the failures collected are its result. -/
def leave (w : World ν β) (s : Serial) : Except ScopeError Unit × World ν β :=
  let (failures, w) := (w.exit s).takeExceptions s
  (if failures.isEmpty then .ok () else .error (.multiple failures), w)

/-- Something that can happen next: a delivery, or a worker that takes up a task. -/
inductive Ready where
  | delivery (lane : Lane)
  | job (index : Nat)
  deriving DecidableEq, Repr

/-- All that can happen next: deliveries in the order of lanes, then tasks, oldest first. -/
def ready (w : World ν β) : List Ready :=
  (Network.waiting w.net).map (fun l => .delivery l.1) ++
    (List.range w.jobs.length).map .job

end World

end Quiescence
