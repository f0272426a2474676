/-
# Work at a place

The workers of a place run the bodies of its tasks and deliver the messages
that come to it. `Stats` says how many bodies the place has handed out and seen
return, and how many messages it has applied.
-/

namespace Quiescence

/-- What a worker of a place is busy with. -/
inductive TaskClass where
  /-- The body of a task. -/
  | activity
  /-- The delivery of messages, in the order of their arrival. -/
  | delivery
  deriving DecidableEq, Repr

namespace TaskClass

def label : TaskClass → String
  | activity => "activity"
  | delivery => "delivery"

end TaskClass

structure Stats where
  /-- Bodies handed to the workers. -/
  started : Nat
  /-- Bodies that returned, well or not. -/
  completed : Nat
  /-- Messages applied. -/
  delivered : Nat
  deriving DecidableEq, Repr

namespace Stats

def zero : Stats := ⟨0, 0, 0⟩

def start (s : Stats) : Stats := { s with started := s.started + 1 }

def complete (s : Stats) : Stats := { s with completed := s.completed + 1 }

def deliver (s : Stats) : Stats := { s with delivered := s.delivered + 1 }

/-- Bodies handed out that have not returned; none when more have returned than were handed out. -/
def pending (s : Stats) : Nat := s.started - s.completed

end Stats

end Quiescence
