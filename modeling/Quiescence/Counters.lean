/-
# Counters of outstanding tasks

Each instance of a scope counts the tasks it knows of. What the two fields
mean depends on the role of the instance.

* At the home place, before any task has been spawned elsewhere: `count` is
  the number of outstanding tasks, and there are no slots.
* At the home place afterwards: slot `p` is the number of tasks spawned at
  place `p` less those that ended there, as far as is known, and `count` is
  the number of slots that are not zero. A slot may be negative, when an end
  is reported before the spawn it belongs to.
* At any other place: `count` is the number of tasks accepted and not yet
  ended, and slot `p` is what has happened since the last report to the home
  place: spawns at `p`, less ends if `p` is this place.

An instance has no outstanding work when `count` is zero.

Slots are allocated when first needed, at least one for each of the `known`
places there are at that time. They grow and never shrink; a missing slot
counts as zero.

Counters have 32 bits and a sign. Here they are idealised as `Int`, which does
not overflow: a run is as the model says as long as they stay in that range.
-/
import Quiescence.Place

namespace Quiescence

/-- What ending or retracting one task did to an instance at the home place. -/
structure Retired where
  /-- No outstanding work is left. -/
  released : Bool
  /-- The slot was zero already: the spawn has not been heard of yet. -/
  compensated : Bool
  deriving DecidableEq, Repr

structure Counters where
  count : Int
  slots : Option (List Int)
  deriving DecidableEq, Repr

namespace Counters

/-- Slots up to a position, for all `known` places at least when they grow. -/
def extend (slots : List Int) (i known : Nat) : List Int :=
  if i < slots.length then slots
  else slots ++ List.replicate (max (i + 1) known - slots.length) 0

/-- The value of a slot; a missing slot is zero. -/
def slot (slots : List Int) (i : Nat) : Int := slots.getD i 0

/-- No task at all. -/
def zero : Counters := ⟨0, none⟩

def isReleased (c : Counters) : Bool := c.count == 0

/-! ### At the home place -/

/-- The counter and the slots. Where there were none, all outstanding tasks are those at
home, so one slot holds the count. -/
def split (c : Counters) (here : PlaceId) (known : Nat) : Int × List Int :=
  match c.slots with
  | some slots => (c.count, slots)
  | none =>
    (if c.count = 0 then 0 else 1,
      (List.replicate (max known (here.index + 1)) 0).set here.index c.count)

/-- Counts a task spawned at `target`. -/
def spawnAtHome (c : Counters) (here target : PlaceId) (known : Nat) : Counters :=
  if c.slots = none ∧ target = here then { c with count := c.count + 1 }
  else
    let (count, slots) := c.split here known
    let slots := extend slots target.index known
    let s := slot slots target.index + 1
    let count := if s = 1 then count + 1 else if s = 0 then count - 1 else count
    ⟨count, some (slots.set target.index s)⟩

/-- Takes one off a slot that is counted, and counts the slot again. -/
def lower (count : Int) (slots : List Int) (i : Nat) : Retired × Counters :=
  let before := slot slots i
  let count := if before = 0 then count + 1 else count
  let count := if before = 1 then count - 1 else count
  (⟨before == 1 && count == 0, before == 0⟩, ⟨count, some (slots.set i (before - 1))⟩)

/-- Counts the end of a task that ran here. -/
def tellAtHome (c : Counters) (here : PlaceId) (known : Nat) : Retired × Counters :=
  match c.slots with
  | none => (⟨c.count - 1 == 0, false⟩, { c with count := c.count - 1 })
  | some slots => lower c.count (extend slots here.index known) here.index

/-- Takes back a spawn at `target` whose task never ran. -/
def unspawnAtHome (c : Counters) (target : PlaceId) (known : Nat) : Retired × Counters :=
  match c.slots with
  | none => (⟨c.count - 1 == 0, false⟩, { c with count := c.count - 1 })
  | some slots =>
    let (retired, c) := lower c.count (extend slots target.index known) target.index
    ({ retired with released := c.isReleased }, c)

/-- Adds a report to the slots, position by position, and counts the slots again. -/
def merge (count : Int) : List Int → List Int → Int × List Int
  | s :: slots, d :: deltas =>
    let count := if s = 0 then count else count - 1
    let count := if s + d = 0 then count else count + 1
    let (count, slots) := merge count slots deltas
    (count, (s + d) :: slots)
  | slots, _ => (count, slots)

/-- Adds the report of another place. Is no outstanding work left? -/
def update (c : Counters) (here : PlaceId) (deltas : List Int) (known : Nat) : Bool × Counters :=
  let (count, slots) := c.split here known
  let slots :=
    if slots.length < deltas.length then
      slots ++ List.replicate (max deltas.length known - slots.length) 0
    else slots
  let (count, slots) := merge count slots deltas
  (count == 0, ⟨count, some slots⟩)

/-! ### At any other place -/

/-- The slots of an instance away from home, allocated if there were none. -/
def slotsAway (c : Counters) (known : Nat) : List Int := c.slots.getD (List.replicate known 0)

/-- Allocates the slots of a fresh instance away from home. -/
def materialize (c : Counters) (known : Nat) : Counters :=
  { c with slots := some (c.slotsAway known) }

/-- Adds to one slot. -/
def addAway (c : Counters) (i known : Nat) (d : Int) : Counters :=
  let slots := extend (c.slotsAway known) i known
  { c with slots := some (slots.set i (slot slots i + d)) }

/-- Counts a task spawned at `target`. -/
def spawnAway (c : Counters) (target : PlaceId) (known : Nat) : Counters :=
  c.addAway target.index known 1

/-- Counts a task accepted here. -/
def submitAway (c : Counters) : Counters := { c with count := c.count + 1 }

/-- Takes back a spawn at `target` whose task never ran. -/
def unspawnAway (c : Counters) (target : PlaceId) (known : Nat) : Counters :=
  c.addAway target.index known (-1)

/-- Counts the end of a task that ran here. When it was the last one accepted, all that has
happened since the last report is due to be reported, and the slots start again at zero. -/
def tellAway (c : Counters) (here : PlaceId) (known : Nat) : Option (List Int) × Counters :=
  let c := c.addAway here.index known (-1)
  let c := { c with count := c.count - 1 }
  if c.count = 0 then
    let slots := c.slotsAway known
    (some slots, { c with slots := some (List.replicate slots.length 0) })
  else (none, c)

end Counters

end Quiescence
