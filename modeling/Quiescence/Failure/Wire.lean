/-
# Failures on the wire

A failure is sent in its canonical form, so what arrives never carries an
empty list of nested failures. What is read is put into that form as well,
since the bytes need not come from `encode`.
-/
import Quiescence.Failure
import Quiescence.Wire

namespace Quiescence.Failure

open Wire

mutual

/-- The fields in order; lists are written as they are. -/
def write : Failure → Bytes
  | ⟨k, m, p, b, c, s⟩ =>
    writeText k ++ writeText m ++ writePlace p ++ writeOption writeText b ++ writeCause c ++
      writeNested s

def writeCause : Option Failure → Bytes
  | none => [0]
  | some f => 1 :: write f

def writeNested : Option (List Failure) → Bytes
  | none => [0]
  | some fs => 1 :: (writeNat fs.length ++ writeAll fs)

def writeAll : List Failure → Bytes
  | [] => []
  | f :: fs => write f ++ writeAll fs

end

/-- Reads a failure whose causes and nested failures go at most `depth` deep.
Each level takes a byte or more before the next begins, so at a depth of the
number of bytes there are, nothing is left to read: the bytes end too early. -/
def read : Nat → Reader Failure
  | 0 => .fail .truncated
  | depth + 1 => do
    let kind ← readText
    let message ← readText
    let place ← readPlace
    let backtrace ← readOption readText
    let cause ← readOption (read depth)
    let suppressed ← readOption (readList (read depth))
    pure ⟨kind, message, place, backtrace, cause, suppressed⟩

/-- The bytes that carry a failure to another place. -/
def encode (f : Failure) : Bytes := f.normalize.write

/-- The failure that some bytes carry; bytes after it are ignored. -/
def decode (bs : Bytes) : Except DecodeError Failure :=
  match (read (bs.length + 1)).decode bs with
  | .ok f => .ok f.normalize
  | .error e => .error e

end Quiescence.Failure
