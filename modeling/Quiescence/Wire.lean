/-
# The compact wire format

Values that cross a place boundary are written as bytes, field after field,
with no names and no padding.

* A number takes seven bits per byte, least significant first; every byte but
  the last has its high bit set (`writeNat`, `readNat`).
* A text is its length in bytes, then its UTF-8 bytes.
* An optional value is `0`, or `1` and the value.
* A list is its length, then its items.

Readers take a value off the front and leave the rest. They accept numbers
with needless zero groups, but no number beyond the width of its field.
-/
import Quiescence.Place

namespace Quiescence.Wire

abbrev Bytes := List UInt8

/-- Why bytes do not hold a value. -/
inductive DecodeError where
  /-- The bytes end before the value does. -/
  | truncated
  /-- A number does not end within the groups its field allows, or exceeds its field. -/
  | overlong
  /-- The byte before an optional value is neither `0` nor `1`. -/
  | badOption
  /-- The bytes of a text are not UTF-8. -/
  | badText
  /-- A choice is numbered beyond the alternatives there are. -/
  | badChoice
  deriving DecidableEq, Repr

namespace DecodeError

def message : DecodeError → String
  | truncated => "Hit the end of buffer, expected more data"
  | overlong => "Found a varint that didn't terminate. Is the usize too big for this platform?"
  | badOption => "Found an Option discriminant that wasn't 0 or 1"
  | badText => "Tried to parse invalid utf-8"
  | badChoice => "Serde Deserialization Error"

end DecodeError

/-- Takes a value off the front of some bytes and leaves the rest. -/
def Reader (α : Type) : Type := Bytes → Except DecodeError (α × Bytes)

namespace Reader

variable {α β : Type}

protected def pure (a : α) : Reader α := fun bs => .ok (a, bs)

/-- Reads one value, then goes on with what is left. -/
protected def bind (r : Reader α) (f : α → Reader β) : Reader β := fun bs =>
  match r bs with
  | .ok (a, rest) => f a rest
  | .error e => .error e

instance : Monad Reader where
  pure := Reader.pure
  bind := Reader.bind

/-- Refuses whatever comes. -/
def fail (e : DecodeError) : Reader α := fun _ => .error e

/-- The value at the front of some bytes; what follows it is ignored. -/
def decode (r : Reader α) (bs : Bytes) : Except DecodeError α :=
  match r bs with
  | .ok (a, _) => .ok a
  | .error e => .error e

end Reader

/-! ### Numbers -/

/-- A number in groups of seven bits, least significant first. -/
def writeNat (n : Nat) : Bytes :=
  if n < 128 then [UInt8.ofNat n] else UInt8.ofNat (n % 128 + 128) :: writeNat (n / 128)

/-- Reads a number of at most `bits` bits. The group that reaches the last of
these bits must be the last, and must not have more. -/
def readNat (bits : Nat) : Reader Nat
  | [] => .error .truncated
  | b :: rest =>
    if b.toNat < 128 then
      if b.toNat < Nat.pow 2 bits then .ok (b.toNat, rest) else .error .overlong
    else if bits ≤ 7 then .error .overlong
    else match readNat (bits - 7) rest with
      | .ok (n, rest) => .ok (b.toNat - 128 + 128 * n, rest)
      | .error e => .error e

def writeWord (w : UInt32) : Bytes := writeNat w.toNat

/-- A 32-bit number. -/
def readWord : Reader UInt32 := do
  let n ← readNat 32
  pure (UInt32.ofNat n)

/-- A length, or the position of a choice: a 64-bit number. -/
def readLength : Reader Nat := readNat 64

/-! ### Texts, optional values, lists -/

def writeText (s : String) : Bytes :=
  writeNat s.utf8ByteSize ++ s.toByteArray.data.toList

/-- Takes the next `n` bytes. -/
def readBytes (n : Nat) : Reader Bytes := fun bs =>
  if n ≤ bs.length then .ok (bs.take n, bs.drop n) else .error .truncated

def readText : Reader String := do
  let n ← readLength
  let bs ← readBytes n
  match String.fromUTF8? ⟨bs.toArray⟩ with
  | some s => pure s
  | none => .fail .badText

def writeOption {α : Type} (write : α → Bytes) : Option α → Bytes
  | none => [0]
  | some a => 1 :: write a

def readOption {α : Type} (read : Reader α) : Reader (Option α)
  | [] => .error .truncated
  | b :: rest =>
    if b = 0 then .ok (none, rest)
    else if b = 1 then (do let a ← read; pure (some a) : Reader (Option α)) rest
    else .error .badOption

/-- Reads `n` values, one after the other. -/
def readMany {α : Type} (read : Reader α) : Nat → Reader (List α)
  | 0 => pure []
  | n + 1 => do
    let a ← read
    let as ← readMany read n
    pure (a :: as)

def readList {α : Type} (read : Reader α) : Reader (List α) := do
  let n ← readLength
  readMany read n

/-! ### Places and ids -/

def writePlace (p : PlaceId) : Bytes := writeWord p.number

def readPlace : Reader PlaceId := do
  let w ← readWord
  pure ⟨w⟩

def writeId (id : GlobalId) : Bytes := writePlace id.home ++ writeWord id.serial

def readId : Reader GlobalId := do
  let home ← readPlace
  let serial ← readWord
  pure ⟨home, serial⟩

end Quiescence.Wire
