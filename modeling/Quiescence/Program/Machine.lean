/-
# The machine that runs bodies

One worker runs all bodies. While the owner of a scope waits, the worker goes
on with whatever can happen next, so other bodies may run in between, each to
its end. The machine keeps what is unfinished on a stack of frames:

* a body with actions left,
* a wait for the release of a scope, with what follows it,
* a request to let a number of things happen.

The *current activity* is the body on top: the place it runs at, and the scope
that governs it. A body restores the activity that was current before it.

`step` is one move. What happens next during a wait is picked from the list of
all that can, by the schedule.
-/
import Quiescence.Program.Action
import Quiescence.World.Task

namespace Quiescence

/-- The body that runs now: where it runs, and the scope that governs it. -/
structure Activity where
  place : PlaceId
  scope : Serial
  deriving DecidableEq, Repr

/-- How a body ends. -/
inductive Ending where
  | well
  | raised (error : Raised)
  | panicked (payload : PanicPayload)
  deriving DecidableEq, Repr

namespace Ending

/-- The end of a body that ends with the result of an operation. -/
def ofResult : Except ScopeError Unit → Ending
  | .ok _ => well
  | .error e => raised (.ofScope e)

/-- The failure that a body which ran at a place leaves. -/
def failure? (place : PlaceId) : Ending → Option Failure
  | well => none
  | raised e => some (.ofRaised e place)
  | panicked p => some (.ofPanic p place)

end Ending

/-- What a remote evaluation gave. -/
inductive Value (α : Type) where
  | place (p : PlaceId)
  | given (a : α)
  deriving DecidableEq, Repr

def Answer.value {α : Type} (p : PlaceId) : Answer α → Value α
  | here => .place p
  | given a => .given a

/-- What bodies leave in the log. A spot says where the body ran. -/
inductive Note (α : Type) where
  | line (text : String)
  /-- The governing scope, as it was then, and its label. -/
  | state (spot : String) (scope : Instance) (label : String)
  | value (spot : String) (value : Value α)
  /-- An error that did not end its body. -/
  | caught (spot : String) (error : Raised)

namespace Machine

/-- What follows the exit of a scope. -/
inductive Resume where
  /-- The body that opened the scope goes on, or ends with the error of the scope unless guarded. -/
  | body (guarded : Bool)
  /-- So it does after a remote evaluation, whose value is noted first. -/
  | evaluation (slot : Nat) (target : PlaceId) (guarded : Bool)
  /-- Nothing does: the result of the scope is that of the program. -/
  | outcome
  deriving DecidableEq, Repr

/-- Whose body it is. -/
inductive Owner (α : Type) where
  /-- The body of a scope opened at a place. -/
  | scope (serial : Serial) (place : PlaceId) (resume : Resume)
  | task (job : Job (Code α))
  /-- A body outside all scopes. -/
  | bare

inductive Frame (α : Type) where
  /-- A body with the actions left, and the activity to restore at its end. -/
  | body (rest : List (Action α)) (owner : Owner α) (previous : Option Activity)
  /-- A wait for the release of a scope. -/
  | await (serial : Serial) (resume : Resume)
  /-- A number of things to let happen; all there are if no number is given. -/
  | pump (left : Option Nat)

/-- Where a remote evaluation stands. -/
structure Evaluation (α : Type) where
  /-- Its body has begun to run. -/
  started : Bool
  value : Option (Value α)

end Machine

structure Machine (ν : Type → Type) (α : Type) where
  world : World ν (Code α)
  /-- What is unfinished, innermost first. -/
  stack : List (Machine.Frame α)
  current : Option Activity
  /-- Oldest first. -/
  log : List (Note α)
  /-- Remembered scopes; a name stands for the last scope it was given to. -/
  saved : List (String × Serial)
  evaluations : List (Machine.Evaluation α)
  /-- Numbers that pick what happens next, taken in turn and around again. -/
  schedule : List Nat
  /-- How often something has been picked. -/
  cursor : Nat
  /-- How the outermost body, or the scope around it, ended. -/
  outcome : Option Ending

namespace Machine

variable {ν : Type → Type} {α : Type}

/-- A world in which nothing runs. -/
def idle (world : World ν (Code α)) (schedule : List Nat) : Machine ν α :=
  { world, stack := [], current := none, log := [], saved := [], evaluations := [], schedule,
    cursor := 0, outcome := none }

/-- Where the current body runs, for the log. -/
def spot (m : Machine ν α) : String :=
  match m.current with
  | some a => a.place.text
  | none => ScopeError.noActivity.message

def note (m : Machine ν α) (n : Note α) : Machine ν α := { m with log := m.log ++ [n] }

def push (m : Machine ν α) (f : Frame α) : Machine ν α := { m with stack := f :: m.stack }

/-- Begins a body, as the activity given. -/
def enter (m : Machine ν α) (activity : Option Activity) (body : List (Action α))
    (owner : Owner α) : Machine ν α :=
  { m.push (.body body owner m.current) with current := activity }

/-- The scopes remembered under some names; names that were given to none are passed over. -/
def scopesNamed (m : Machine ν α) (names : List String) : List Serial :=
  names.filterMap fun name => (m.saved.find? fun s => s.1 == name).map (·.2)

/-- Remembers a scope, in place of the one that had the name. -/
def remember (m : Machine ν α) (name : String) (s : Serial) : Machine ν α :=
  { m with saved := m.saved.filter (fun s => s.1 != name) ++ [(name, s)] }

/-- Changes where an evaluation stands. -/
def modifyEvaluation (m : Machine ν α) (slot : Nat) (f : Evaluation α → Evaluation α) :
    Machine ν α :=
  { m with evaluations := m.evaluations.modify slot f }

/-- The kind of scopes opened through a place. -/
def defaultKind (m : Machine ν α) (p : PlaceId) : ScopeKind :=
  match m.world.site? p with
  | some site => site.kind
  | none => .plain

variable [Network ν]

/-- Ends the body of a scope: its failure is reported, and it counts as a task no more. -/
def tellBody (m : Machine ν α) (s : Serial) (place : PlaceId) (ending : Ending)
    (resume : Resume) : Machine ν α :=
  { m with world := m.world.endBody s (ending.failure? place) }.push (.await s resume)

/-- What becomes of a body that has ended. -/
def close (m : Machine ν α) (owner : Owner α) (ending : Ending) : Machine ν α :=
  match owner with
  | .scope s place resume => m.tellBody s place ending resume
  | .task job =>
    let m := { m with world := m.world.complete job (ending.failure? job.place) }
    match ending, job.body.evaluates with
    | .well, some (slot, answer) =>
      m.modifyEvaluation slot fun e => { e with value := some (answer.value job.place) }
    | _, _ => m
  | .bare => { m with outcome := some ending }

/-- Ends the body on top, whatever actions it has left. -/
def endBody (m : Machine ν α) (ending : Ending) : Machine ν α :=
  match m.stack with
  | .body _ owner previous :: rest =>
    { m with stack := rest, current := previous }.close owner ending
  | _ => m

/-- An error of an action ends its body, or is noted where the action is guarded. -/
def refuse (m : Machine ν α) (guarded : Bool) (e : Raised) : Machine ν α :=
  if guarded then m.note (.caught m.spot e) else m.endBody (.raised e)

/-- Goes on after an action with a result. -/
def settle (m : Machine ν α) (guarded : Bool) : Except ScopeError Unit → Machine ν α
  | .ok _ => m
  | .error e => m.refuse guarded (.ofScope e)

/-! ### Actions -/

/-- An action of the current activity; an error where there is none. -/
def withActivity (m : Machine ν α) (guarded : Bool) (act : Activity → Machine ν α) :
    Machine ν α :=
  match m.current with
  | some a => act a
  | none => m.refuse guarded (.ofScope .noActivity)

/-- Spawns a task from a place to a target, registered with some scopes. -/
def handOver (m : Machine ν α) (guarded : Bool) (finishes : List Serial) (place target : PlaceId)
    (body : List (Action α)) : Machine ν α :=
  match Task.register finishes place ⟨body, none⟩ with
  | .error e => m.refuse guarded (.ofScope e)
  | .ok t =>
    let (result, world) := m.world.spawnAt t place target
    { m with world }.settle guarded result

/-- Opens a scope at a place and begins its body. -/
def openScope (m : Machine ν α) (place : PlaceId) (kind : ScopeKind) (body : List (Action α))
    (resume : Resume) : Machine ν α :=
  let (s, world) := m.world.openScope place kind
  { m with world }.enter (some ⟨place, s⟩) body (.scope s place resume)

/-- Opens a scope whose body does nothing but spawn one task, which is evaluated for its value. -/
def openEvaluation (m : Machine ν α) (guarded : Bool) (place target : PlaceId)
    (body : List (Action α)) (answer : Answer α) : Machine ν α :=
  let slot := m.evaluations.length
  let (s, world) := m.world.openScope place (m.defaultKind place)
  let code : Code α := ⟨body, some (slot, answer)⟩
  let (result, world) := world.spawnAt ⟨[s], place, code⟩ place target
  let evaluation : Evaluation α := ⟨false, none⟩
  { m with world, evaluations := m.evaluations ++ [evaluation] }.tellBody s place
    (.ofResult result) (.evaluation slot target guarded)

/-- Performs an action that has been taken off the body on top. -/
def perform (m : Machine ν α) (guarded : Bool) : Action α → Machine ν α
  | .log text => m.note (.line (m.spot ++ ": " ++ text))
  | .fail e => m.refuse guarded e
  | .panic p => m.endBody (.panicked p)
  | .save name => m.withActivity guarded fun a => m.remember name a.scope
  | .info => m.withActivity guarded fun a =>
    match m.world.instance? a.scope with
    | some i => m.note (.state m.spot i (i.label a.scope))
    | none => m
  | .kill p =>
    match m.world.kill p with
    | .ok world => { m with world }
    | .error e => m.refuse guarded (.ofScope (.place e))
  | .grow places => { m with world := m.world.resize places }
  | .pump steps => m.push (.pump (some steps))
  | .spawn body => m.withActivity guarded fun a =>
    m.handOver guarded [a.scope] a.place a.place body
  | .spawnAt target body => m.withActivity guarded fun a =>
    m.handOver guarded [a.scope] a.place target body
  | .spawnShared target scopes body => m.withActivity guarded fun a =>
    m.handOver guarded (a.scope :: m.scopesNamed scopes) a.place target body
  | .spawnAmong target scopes body =>
    let finishes := m.scopesNamed scopes
    match finishes.head?.bind m.world.instance? with
    | some i => m.handOver guarded finishes i.place target body
    | none => m.refuse guarded (.ofScope .noFinish)
  | .spawnUnder scopes body =>
    let finishes := (m.scopesNamed scopes).take 1
    match finishes.head?.bind m.world.instance? with
    | some i => m.handOver guarded finishes i.place i.place body
    | none => m.refuse guarded (.ofScope .noFinish)
  | .scope none body => m.withActivity guarded fun a =>
    m.openScope a.place (m.defaultKind a.place) body (.body guarded)
  | .scope (some kind) body => m.withActivity guarded fun a =>
    match m.world.instance? a.scope with
    | some i => m.openScope i.place kind body (.body guarded)
    | none => m
  | .evaluate target body answer => m.withActivity guarded fun a =>
    m.openEvaluation guarded a.place target body answer
  | .attempt a => m.perform true a

/-! ### Waiting -/

/-- The position that the schedule picks among `n`. -/
def choice (m : Machine ν α) (n : Nat) : Nat :=
  match m.schedule[m.cursor % m.schedule.length]? with
  | some k => k % n
  | none => 0

/-- Begins the body of a task, governed by the first scope it is registered with. -/
def startJob (m : Machine ν α) (job : Job (Code α)) : Machine ν α :=
  match job.finishes with
  | [] => { m with world := m.world.complete job none }
  | s :: _ =>
    let m := match job.body.evaluates with
      | some (slot, _) => m.modifyEvaluation slot fun e => { e with started := true }
      | none => m
    m.enter (some ⟨job.place, s⟩) job.body.body (.task job)

/-- Lets something happen. -/
def happen (m : Machine ν α) : World.Ready → Option (Machine ν α)
  | .delivery lane => (m.world.deliver lane).map fun world => { m with world }
  | .job i => (m.world.takeJob i).map fun (job, world) => { m with world }.startJob job

/-- Lets the next thing happen, as the schedule picks it, unless there is none. -/
def tick (m : Machine ν α) : Option (Machine ν α) :=
  let ready := m.world.ready
  match ready[m.choice ready.length]? with
  | some r => { m with cursor := m.cursor + 1 }.happen r
  | none => none

/-- Exits a scope that is released, and goes on with what follows it. -/
def leave (m : Machine ν α) (s : Serial) (resume : Resume) : Machine ν α :=
  let (result, world) := m.world.leave s
  let m := { m with world }
  match resume with
  | .body guarded => m.settle guarded result
  | .evaluation slot target guarded =>
    match result, m.evaluations[slot]?.bind (·.value) with
    | .error e, _ => m.settle guarded (.error e)
    | .ok _, some v => m.note (.value m.spot v)
    | .ok _, none => m.settle guarded (.error (.missingValue target))
  | .outcome => { m with outcome := some (.ofResult result) }

/-! ### Moves -/

/-- What comes of one move. -/
inductive Move (ν : Type → Type) (α : Type) where
  | to (m : Machine ν α)
  /-- Nothing is left to do. -/
  | finished
  /-- A scope is not released, and nothing can happen that would release it. -/
  | hung

def step (m : Machine ν α) : Move ν α :=
  match m.stack with
  | [] => .finished
  | .body [] _ _ :: _ => .to (m.endBody .well)
  | .body (a :: as) owner previous :: rest =>
    .to ({ m with stack := .body as owner previous :: rest }.perform false a)
  | .await s resume :: rest =>
    if m.world.isReleasable s then .to ({ m with stack := rest }.leave s resume)
    else match m.tick with
      | some m => .to m
      | none => .hung
  | .pump (some 0) :: rest => .to { m with stack := rest }
  | .pump left :: rest =>
    match { m with stack := .pump (left.map (· - 1)) :: rest }.tick with
    | some m => .to m
    | none => .to { m with stack := rest }

end Machine

end Quiescence
