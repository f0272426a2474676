/-
# Waiting for the release of a scope

A waiter waits for an instance to be released, and looks only when it is
polled. The first poll finds the instance released or joins those who wait for
it. From then on the waiter is asleep until the instance wakes its waiters;
the next poll looks again. A waiter that is asleep learns nothing: a spawn can
bring the count to zero, which wakes nobody.
-/
import Quiescence.World

namespace Quiescence

/-- One wait for the release of an instance. -/
inductive Waiter where
  /-- It has not been polled yet. -/
  | fresh (scope : Serial)
  /-- It has joined those who wait, after so many wakes. -/
  | joined (scope : Serial) (wakes : Nat)
  /-- It has found the instance released. -/
  | over
  deriving DecidableEq, Repr

/-- What polling a waiter came to. -/
inductive Waiter.Poll where
  | pending
  | released
  /-- The wait is over already. -/
  | gone
  deriving DecidableEq, Repr

namespace World

variable {ν : Type → Type} {β : Type}

/-- Looks whether an instance is released, and joins those who wait for it if not. -/
def look (w : World ν β) (s : Serial) : Waiter.Poll × Waiter :=
  match w.instance? s with
  | none => (.released, .over)
  | some i => if i.isReleasable then (.released, .over) else (.pending, .joined s i.wakes)

def poll (w : World ν β) (waiter : Waiter) : Waiter.Poll × Waiter :=
  match waiter with
  | .fresh s => w.look s
  | .joined s wakes =>
    if (w.instance? s).any fun i => i.wakes == wakes then (.pending, waiter) else w.look s
  | .over => (.gone, .over)

end World

end Quiescence
