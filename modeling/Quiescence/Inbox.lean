/-
# Inboxes

An inbox is a first-in, first-out queue that anyone may send into and that
receivers take from. Once closed it accepts nothing more, and receivers drain
what is queued.

A receive that finds nothing waits in line. Every accepted send wakes the
receiver that has waited longest; with nobody in line it leaves a permit, of
which there is at most one, and the next receiver to join the line takes it
and looks once more instead. Closing wakes everybody in line and leaves a
permit. A receiver that gives up after being woken by a send passes the wake
on, so that no message is left to a receiver that is gone.

* `send`, `close`, `tryReceive`: the queue.
* `receive`, `poll`, `cancel`: a receive is created, run until it must wait,
  and given up. Receives are told apart by numbers.
-/

namespace Quiescence

/-- Where an unfinished receive stands. -/
inductive Inbox.Standing where
  /-- It has not run yet. -/
  | fresh
  /-- It waits in line. -/
  | waiting
  /-- It has been woken and has not run since; `alone` if by a send, which woke no other. -/
  | woken (alone : Bool)
  deriving DecidableEq, Repr

structure Inbox (α : Type) where
  /-- Messages not yet received, oldest first. -/
  queue : List α
  closed : Bool
  /-- A wake that found nobody in line. -/
  permit : Bool
  /-- The unfinished receives. Those in line stand in the order they joined it. -/
  receivers : List (Nat × Inbox.Standing)
  deriving Repr

/-- What running a receive came to. -/
inductive Inbox.Poll (α : Type) where
  /-- There is no such receive, or it is finished. -/
  | gone
  /-- It waits. -/
  | pending
  /-- It is finished with a message. -/
  | got (message : α)
  /-- It is finished: the inbox is closed and drained. -/
  | ended
  deriving DecidableEq, Repr

namespace Inbox

variable {α : Type}

/-- An open inbox that holds nothing. -/
def empty : Inbox α := ⟨[], false, false, []⟩

/-- Wakes the first receiver that waits, if one does. -/
def wakeFirst : List (Nat × Standing) → Option (List (Nat × Standing))
  | [] => none
  | (n, .waiting) :: rest => some ((n, .woken true) :: rest)
  | r :: rest => (wakeFirst rest).map (r :: ·)

/-- Wakes one receiver, or leaves a permit. -/
def wakeOne (b : Inbox α) : Inbox α :=
  match wakeFirst b.receivers with
  | some receivers => { b with receivers }
  | none => { b with permit := true }

/-- Wakes every receiver in line. -/
def wakeAll (b : Inbox α) : Inbox α :=
  { b with receivers := b.receivers.map fun r => if r.2 = .waiting then (r.1, .woken false) else r }

/-- Queues a message; a closed inbox hands it back. -/
def send (b : Inbox α) (a : α) : Except α (Inbox α) :=
  if b.closed then .error a else .ok (wakeOne { b with queue := b.queue ++ [a] })

def close (b : Inbox α) : Inbox α := wakeOne (wakeAll { b with closed := true })

/-- Takes the oldest message, if there is one, without waiting. -/
def tryReceive (b : Inbox α) : Option (α × Inbox α) :=
  match b.queue with
  | [] => none
  | a :: queue => some (a, { b with queue })

/-- Where a receive stands, if it is unfinished. -/
def standing? (b : Inbox α) (n : Nat) : Option Standing :=
  (b.receivers.find? fun r => r.1 == n).map (·.2)

/-- Forgets a receive. -/
def forget (b : Inbox α) (n : Nat) : Inbox α :=
  { b with receivers := b.receivers.filter fun r => r.1 != n }

/-- Gives up a receive. One that was woken by a send and has not run since wakes another. -/
def cancel (b : Inbox α) (n : Nat) : Bool × Inbox α :=
  match b.standing? n with
  | none => (false, b)
  | some (.woken true) => (true, (b.forget n).wakeOne)
  | some _ => (true, b.forget n)

/-- Creates a receive without running it, in place of any unfinished one of that number. -/
def receive (b : Inbox α) (n : Nat) : Inbox α :=
  let b := (b.cancel n).2
  { b with receivers := b.receivers ++ [(n, .fresh)] }

/-- Runs a receive until it is finished or must wait. One that stands in line stays there,
whatever is queued. Any other takes a message, or finds the inbox closed, or joins the end of the
line; a permit only makes it look at the empty queue once more before it does. -/
def poll (b : Inbox α) (n : Nat) : Poll α × Inbox α :=
  match b.standing? n with
  | none => (.gone, b)
  | some .waiting => (.pending, b)
  | some _ =>
    match b.queue with
    | a :: queue => (.got a, { b.forget n with queue })
    | [] =>
      if b.closed then (.ended, b.forget n)
      else
        let receivers := (b.forget n).receivers ++ [(n, .waiting)]
        (.pending, { b with permit := false, receivers })

end Inbox

end Quiescence
