/-
# Places and global identities

A computation is spread over *places*, numbered from 0. A value that several
places must speak of has a `GlobalId`: the place that allocated it, and a
number local to that place. Each place binds such ids to values of its own.

* `GlobalId.gid` packs an id into one number; `GlobalId.gid_inj` says that the
  packing loses nothing.
* `PlaceError` lists why a place cannot be reached or cannot serve.
-/

namespace Quiescence

/-- One participant of the computation, named by a 32-bit number. -/
structure PlaceId where
  number : UInt32
  deriving DecidableEq, Repr, Inhabited

namespace PlaceId

/-- The position of a place in tables that hold one entry per place. -/
def index (p : PlaceId) : Nat := p.number.toNat

/-- The place at a position, unless the position is beyond the last place number. -/
def ofIndex? (i : Nat) : Option PlaceId :=
  if i < UInt32.size then some ⟨UInt32.ofNat i⟩ else none

/-- Places are ordered by their numbers. -/
def order (p q : PlaceId) : Ordering := compare p.index q.index

/-- How messages to people name a place. -/
def text (p : PlaceId) : String := "place(" ++ toString p.index ++ ")"

/-- How the descriptions of larger values name a place. -/
def describe (p : PlaceId) : String := "PlaceId(" ++ toString p.index ++ ")"

@[simp] theorem index_inj {p q : PlaceId} : p.index = q.index ↔ p = q := by
  constructor
  · intro h
    cases p; cases q
    exact congrArg _ (UInt32.toNat_inj.mp h)
  · exact fun h => h ▸ rfl

theorem index_lt (p : PlaceId) : p.index < UInt32.size := p.number.toNat_lt

theorem index_ofIndex? {i : Nat} {p : PlaceId} (h : ofIndex? i = some p) : p.index = i := by
  unfold ofIndex? at h
  split at h
  · rename_i hi
    cases h
    simp only [index]
    exact UInt32.toNat_ofNat_of_lt hi
  · cases h

end PlaceId

/-- A name for one value across all places: who allocated it, and its number there. -/
structure GlobalId where
  home : PlaceId
  serial : UInt32
  deriving DecidableEq, Repr, Inhabited

namespace GlobalId

/-- Both halves of an id in one number, the home in the high 32 bits. -/
def gid (id : GlobalId) : Nat := id.home.index * UInt32.size + id.serial.toNat

/-- Was the id allocated at this place? -/
def isHome (id : GlobalId) (p : PlaceId) : Bool := id.home = p

/-- How messages to people name an id. -/
def text (id : GlobalId) : String := "gid(" ++ toString id.gid ++ ")"

instance : Hashable GlobalId := ⟨fun id => hash id.gid⟩

/-- Two ids are equal when their packed numbers are. -/
theorem gid_inj {a b : GlobalId} : a.gid = b.gid ↔ a = b := by
  constructor
  · intro h
    have ha := a.serial.toNat_lt
    have hb := b.serial.toNat_lt
    simp only [gid, UInt32.size] at h
    have h1 : a.home.index = b.home.index := by omega
    have h2 : a.serial.toNat = b.serial.toNat := by omega
    cases a; cases b
    simp only [PlaceId.index_inj] at h1
    simp only [UInt32.toNat_inj] at h2
    simp_all
  · exact fun h => h ▸ rfl

end GlobalId

/-- Why a place cannot be used. -/
inductive PlaceError where
  /-- The place is not among the `known` places that exist. -/
  | unknown (place : PlaceId) (known : Nat)
  /-- The place exists and no longer accepts messages. -/
  | dead (place : PlaceId)
  /-- The place has handed out every local number it had. -/
  | exhausted (place : PlaceId)
  deriving DecidableEq, Repr

namespace PlaceError

def message : PlaceError → String
  | unknown p known => p.text ++ " is not one of the " ++ toString known ++ " known places"
  | dead p => p.text ++ " is dead"
  | exhausted p => p.text ++ " has no identities left to allocate"

end PlaceError

end Quiescence
