/-
# One lane for each sender and destination

Messages from one place to another arrive in the order they were sent; those
of different senders are not ordered. The packets that wait are kept in the
order they were accepted, so the lane from `a` to `b` holds those of them that
go from `a` to `b`, in the same order.

The number of places may change, and killing a place needs no such place to
exist: a send is first checked against the number of places, then against
the dead ones.
-/
import Quiescence.Network

namespace Quiescence

structure Pairwise (μ : Type) where
  known : Nat
  dead : List PlaceId
  /-- The packets that wait, oldest first. -/
  packets : List (Packet μ)
  deriving Repr

namespace Pairwise

variable {μ : Type}

/-- Nothing waits, and no place is dead. -/
def empty (known : Nat) : Pairwise μ := ⟨known, [], []⟩

def send (n : Pairwise μ) (p : Packet μ) : Except PlaceError (Pairwise μ) :=
  if p.dest.index < n.known then
    if p.dest ∈ n.dead then .error (.dead p.dest)
    else .ok { n with packets := n.packets ++ [p] }
  else .error (.unknown p.dest n.known)

/-- The address of the lane that a packet is on. -/
def laneOf (p : Packet μ) : Lane := ⟨some p.sender, p.dest⟩

/-- Takes the first packet of a lane out of a list. -/
def takeFirst (lane : Lane) : List (Packet μ) → Option (Packet μ × List (Packet μ))
  | [] => none
  | p :: ps =>
    if laneOf p = lane then some (p, ps)
    else (takeFirst lane ps).map fun (q, qs) => (q, p :: qs)

def take (n : Pairwise μ) (lane : Lane) : Option (Packet μ × Pairwise μ) :=
  (takeFirst lane n.packets).map fun (p, packets) => (p, { n with packets })

/-- Lanes are ordered by sender, then by destination. -/
def before (a b : PlaceId × PlaceId) : Bool :=
  a.1.index < b.1.index || (a.1 == b.1 && a.2.index < b.2.index)

/-- Counts one more message on a lane, in a list of lanes in order. -/
def tally (key : PlaceId × PlaceId) :
    List ((PlaceId × PlaceId) × Nat) → List ((PlaceId × PlaceId) × Nat)
  | [] => [(key, 1)]
  | (k, n) :: rest =>
    if k = key then (k, n + 1) :: rest
    else if before key k then (key, 1) :: (k, n) :: rest
    else (k, n) :: tally key rest

/-- The lanes on which something waits. -/
def waiting (n : Pairwise μ) : List (Lane × Nat) :=
  (n.packets.foldl (fun lanes p => tally (p.sender, p.dest) lanes) []).map
    fun ((sender, dest), k) => (⟨some sender, dest⟩, k)

def kill (n : Pairwise μ) (p : PlaceId) : Pairwise μ := { n with dead := p :: n.dead }

instance : Network Pairwise where
  known := known
  send := send
  packets := packets
  waiting := waiting
  take := take
  lane _ sender dest := ⟨some sender, dest⟩
  kill n p := .ok (n.kill p)
  isDead n p := p ∈ n.dead
  resize n known := { n with known }

end Pairwise

end Quiescence
