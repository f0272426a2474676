/-
# Runs of the machine

A run makes moves until nothing is left to do, or until a scope waits for what
cannot happen. Bodies have no loops and each runs once, so a run ends. The
weight of a machine counts every move that what it holds can cause, and a run
is allowed that many.

A `Program` is one body, in a scope of its own or outside all scopes. When it
has ended, whatever is left on the way or in the queue happens too.
-/
import Quiescence.Program.Machine

namespace Quiescence

namespace Machine

variable {ν : Type → Type} {α : Type} [Network ν]

/-! ### How long a run can be -/

/-- Each scope a task is registered with can cause a report and a failure to be sent. -/
def registrationWeight (registrations : Nat) : Nat := 3 * registrations + 10

def Frame.weight : Frame α → Nat
  | .body rest (.task job) _ => Action.weightAll rest + registrationWeight job.finishes.length
  | .body rest _ _ => Action.weightAll rest + registrationWeight 1
  | .await _ _ => 2
  | .pump _ => 2

def packetWeight (p : Packet (Message (Code α))) : Nat :=
  match p.content with
  | .handOff tokens code => Action.weightAll code.body + registrationWeight tokens.length
  | .report _ _ => 2
  | .failure _ _ => 2

def jobWeight (job : Job (Code α)) : Nat :=
  Action.weightAll job.body.body + registrationWeight job.finishes.length

def total (ns : List Nat) : Nat := ns.foldr (· + ·) 0

/-- The moves that all a machine holds can cause, and one more to see that none is left. -/
def weight (m : Machine ν α) : Nat :=
  total (m.stack.map Frame.weight) + total ((Network.packets m.world.net).map packetWeight) +
    total (m.world.jobs.map jobWeight) + 1

/-! ### Runs -/

/-- Why a run stops. -/
inductive Halt where
  /-- Nothing is left to do. -/
  | finished
  /-- A scope waits, and nothing can happen. -/
  | hung
  /-- The moves allowed are used up. -/
  | unfinished
  deriving DecidableEq, Repr

/-- Makes at most so many moves. -/
def runFor : Nat → Machine ν α → Machine ν α × Halt
  | 0, m => (m, .unfinished)
  | n + 1, m =>
    match m.step with
    | .to m => runFor n m
    | .finished => (m, .finished)
    | .hung => (m, .hung)

/-- Makes all the moves there are. -/
def run (m : Machine ν α) : Machine ν α × Halt := m.runFor m.weight

/-- Runs one task that waits for a worker, with all that happens while it runs. -/
def runJob (m : Machine ν α) (i : Nat) : Option (Machine ν α × Halt) :=
  (m.happen (.job i)).map run

/-- Lets so many things happen, each with all that happens while it runs, as long as there is
one; counts them. -/
def runTicks (m : Machine ν α) : Nat → Nat × Machine ν α × Halt
  | 0 => (0, m, .finished)
  | n + 1 =>
    match m.tick.map run with
    | none => (0, m, .finished)
    | some (m, .finished) =>
      let (count, m) := runTicks m n
      (count + 1, m)
    | some (m, halt) => (1, m, halt)

/-- The scope that waits on top, unless it waits for an evaluation that has not begun. -/
def waitsFor? (m : Machine ν α) : Option Instance :=
  match m.stack with
  | .await s (.evaluation slot _ _) :: _ =>
    if (m.evaluations[slot]?.map (·.started)).getD false then m.world.instance? s else none
  | .await s _ :: _ => m.world.instance? s
  | _ => none

/-- The remembered scopes, as they are now. -/
def savedInstances (m : Machine ν α) : List (String × Instance) :=
  m.saved.filterMap fun (name, s) => (m.world.instance? s).map (name, ·)

end Machine

/-! ### Programs -/

/-- Where a program runs its body. -/
inductive Program.Setting where
  /-- Outside all scopes. -/
  | outside
  /-- In a scope opened at a place, of a kind of its own or the kind of that place. -/
  | inScope (place : PlaceId) (kind : Option ScopeKind)
  deriving DecidableEq, Repr

structure Program (α : Type) where
  setting : Program.Setting
  body : List (Action α)

/-- What a run of a program came to. -/
structure Program.Run (ν : Type → Type) (α : Type) where
  /-- When the body and its scope had ended. -/
  ended : Machine ν α
  /-- When nothing was left to happen. -/
  settled : Machine ν α
  halt : Machine.Halt

namespace Program

variable {ν : Type → Type} {α : Type} [Network ν]

/-- Begins the body of a program. -/
def start (p : Program α) (m : Machine ν α) : Machine ν α :=
  match p.setting with
  | .outside => m.enter none p.body .bare
  | .inScope place kind =>
    m.openScope place (kind.getD (m.defaultKind place)) p.body .outcome

/-- Runs a program to its end, and then whatever is left. -/
def run (p : Program α) (m : Machine ν α) : Program.Run ν α :=
  match (p.start m).run with
  | (m, .finished) =>
    let (settled, halt) := (m.push (.pump none)).run
    ⟨m, settled, halt⟩
  | (m, halt) => ⟨m, m, halt⟩

end Program

end Quiescence
