/-
# One inbox for each destination

Each place has an inbox, and messages are applied in the order they arrive
there, whoever sent them. A place is killed by closing its inbox: what is
queued is still applied, and nothing more is accepted. The number of places
is the number of inboxes and does not change.
-/
import Quiescence.Inbox
import Quiescence.Network

namespace Quiescence

structure Mailroom (μ : Type) where
  /-- The inbox of every place, in the order of places. -/
  inboxes : List (Inbox (Packet μ))
  deriving Repr

namespace Mailroom

variable {μ : Type}

/-- An open inbox for each of some places. -/
def empty (places : Nat) : Mailroom μ := ⟨List.replicate places .empty⟩

def known (m : Mailroom μ) : Nat := m.inboxes.length

def send (m : Mailroom μ) (p : Packet μ) : Except PlaceError (Mailroom μ) :=
  match m.inboxes[p.dest.index]? with
  | none => .error (.unknown p.dest m.known)
  | some inbox =>
    match inbox.send p with
    | .ok inbox => .ok ⟨m.inboxes.set p.dest.index inbox⟩
    | .error _ => .error (.dead p.dest)

def packets (m : Mailroom μ) : List (Packet μ) := m.inboxes.flatMap (·.queue)

def take (m : Mailroom μ) (lane : Lane) : Option (Packet μ × Mailroom μ) :=
  match m.inboxes[lane.dest.index]? with
  | none => none
  | some inbox =>
    match inbox.tryReceive with
    | none => none
    | some (p, inbox) => some (p, ⟨m.inboxes.set lane.dest.index inbox⟩)

/-- The inboxes that hold something, counted from place `i` on. -/
def waitingFrom (i : Nat) : List (Inbox (Packet μ)) → List (Lane × Nat)
  | [] => []
  | inbox :: inboxes =>
    match inbox.queue with
    | [] => waitingFrom (i + 1) inboxes
    | _ :: _ => (⟨none, ⟨UInt32.ofNat i⟩⟩, inbox.queue.length) :: waitingFrom (i + 1) inboxes

def waiting (m : Mailroom μ) : List (Lane × Nat) := waitingFrom 0 m.inboxes

def kill (m : Mailroom μ) (p : PlaceId) : Except PlaceError (Mailroom μ) :=
  match m.inboxes[p.index]? with
  | none => .error (.unknown p m.known)
  | some inbox => .ok ⟨m.inboxes.set p.index inbox.close⟩

/-- A place that does not exist refuses messages too. -/
def isDead (m : Mailroom μ) (p : PlaceId) : Bool :=
  match m.inboxes[p.index]? with
  | none => true
  | some inbox => inbox.closed

instance : Network Mailroom where
  known := known
  send := send
  packets := packets
  waiting := waiting
  take := take
  lane _ _ dest := ⟨none, dest⟩
  kill := kill
  isDead := isDead
  resize m _ := m

end Mailroom

end Quiescence
