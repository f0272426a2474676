/-
# Networks

A network carries messages between places. Messages that wait are held in
*lanes*, and each lane is first in, first out. What a lane joins is up to the
network: one sender and one destination, or all senders and one destination.

A send to a place that does not exist, or no longer accepts messages, is
refused at once and leaves the network as it was. Messages accepted earlier
are still delivered.

`Network` is the interface, `Quiescence.Network.Pairwise` and
`Quiescence.Network.Mailroom` are its two instances.
-/
import Quiescence.Place

namespace Quiescence

/-- The address of a lane: a destination, and a sender where lanes are kept apart by sender. -/
structure Lane where
  sender : Option PlaceId
  dest : PlaceId
  deriving DecidableEq, Repr

/-- A message on its way. -/
structure Packet (μ : Type) where
  sender : PlaceId
  dest : PlaceId
  content : μ
  deriving Repr

/-- How messages of some type travel between places. -/
class Network (ν : Type → Type) where
  /-- The number of places there are: places are numbered below it. -/
  known {μ : Type} : ν μ → Nat
  /-- Accepts a packet, or says why not. -/
  send {μ : Type} : ν μ → Packet μ → Except PlaceError (ν μ)
  /-- Every packet that waits. -/
  packets {μ : Type} : ν μ → List (Packet μ)
  /-- The lanes on which something waits, with the number of messages, in the order of addresses. -/
  waiting {μ : Type} : ν μ → List (Lane × Nat)
  /-- Takes the oldest packet of a lane. -/
  take {μ : Type} : ν μ → Lane → Option (Packet μ × ν μ)
  /-- The lane that a message from one place to another would join. -/
  lane {μ : Type} : ν μ → PlaceId → PlaceId → Lane
  /-- Makes a place refuse messages from now on. -/
  kill {μ : Type} : ν μ → PlaceId → Except PlaceError (ν μ)
  /-- Does the place refuse messages? -/
  isDead {μ : Type} : ν μ → PlaceId → Bool
  /-- Changes the number of places, where that can change. -/
  resize {μ : Type} : ν μ → Nat → ν μ

end Quiescence
