/-
# Failures

What a task leaves behind when it ends with an error or a panic. A failure
owns all that is needed to report it elsewhere: its kind and message, the
place it was raised at, the chain of its causes, and the failures of the
nested scope that raised it.

`suppressed` tells a list that was never started (`none`) from an empty one.
`normalize` forgets the difference, at every depth, and nothing else.
-/
import Quiescence.Place

namespace Quiescence

structure Failure where
  kind : String
  message : String
  place : PlaceId
  backtrace : Option String
  cause : Option Failure
  suppressed : Option (List Failure)
  deriving Repr, Inhabited

/-- The kinds of failures that are made here; callers may have kinds of their own. -/
def Failure.errorKind : String := "error"
def Failure.panicKind : String := "panic"
def Failure.codecKind : String := "codec"
def Failure.multipleKind : String := "multiple"

namespace Failure

/-- A failure without a cause and without nested failures. -/
def simple (kind message : String) (place : PlaceId) : Failure :=
  ⟨kind, message, place, none, none, none⟩

/-- One line about this failure alone. -/
def text (f : Failure) : String := f.kind ++ " at " ++ f.place.text ++ ": " ++ f.message

mutual

/-- The failure and its causes, outermost first. -/
def chain : Failure → List Failure
  | ⟨k, m, p, b, c, s⟩ => ⟨k, m, p, b, c, s⟩ :: chainOfCause c

def chainOfCause : Option Failure → List Failure
  | none => []
  | some f => chain f

end

/-- The nested failures; a list that was never started holds none. -/
def nested (f : Failure) : List Failure := f.suppressed.getD []

def withCause (f cause : Failure) : Failure := { f with cause := some cause }

/-- Attaches a nested failure after those there are. -/
def suppress (f inner : Failure) : Failure := { f with suppressed := some (f.nested ++ [inner]) }

mutual

/-- The canonical form, in which no list of nested failures is empty. -/
def normalize : Failure → Failure
  | ⟨k, m, p, b, c, s⟩ => ⟨k, m, p, b, normalizeCause c, normalizeNested s⟩

def normalizeCause : Option Failure → Option Failure
  | none => none
  | some f => some (normalize f)

def normalizeNested : Option (List Failure) → Option (List Failure)
  | none => none
  | some [] => none
  | some (f :: fs) => some (normalize f :: normalizeAll fs)

def normalizeAll : List Failure → List Failure
  | [] => []
  | f :: fs => normalize f :: normalizeAll fs

end

mutual

/-- Do two failures agree in every part, `none` and an empty list told apart? -/
def same : Failure → Failure → Bool
  | ⟨k, m, p, b, c, s⟩, ⟨k', m', p', b', c', s'⟩ =>
    k == k' && m == m' && p == p' && b == b' && sameCause c c' && sameNested s s'

def sameCause : Option Failure → Option Failure → Bool
  | none, none => true
  | some f, some g => same f g
  | _, _ => false

def sameNested : Option (List Failure) → Option (List Failure) → Bool
  | none, none => true
  | some fs, some gs => sameAll fs gs
  | _, _ => false

def sameAll : List Failure → List Failure → Bool
  | [], [] => true
  | f :: fs, g :: gs => same f g && sameAll fs gs
  | _, _ => false

end

mutual

theorem same_iff : ∀ f g : Failure, same f g = true ↔ f = g
  | ⟨k, m, p, b, c, s⟩, ⟨k', m', p', b', c', s'⟩ => by
    simp only [same, Bool.and_eq_true, beq_iff_eq, sameCause_iff c c', sameNested_iff s s',
      Failure.mk.injEq, and_assoc]

theorem sameCause_iff : ∀ c d : Option Failure, sameCause c d = true ↔ c = d
  | none, none => by simp [sameCause]
  | none, some _ => by simp [sameCause]
  | some _, none => by simp [sameCause]
  | some f, some g => by simp [sameCause, same_iff f g]

theorem sameNested_iff : ∀ s t : Option (List Failure), sameNested s t = true ↔ s = t
  | none, none => by simp [sameNested]
  | none, some _ => by simp [sameNested]
  | some _, none => by simp [sameNested]
  | some fs, some gs => by simp [sameNested, sameAll_iff fs gs]

theorem sameAll_iff : ∀ fs gs : List Failure, sameAll fs gs = true ↔ fs = gs
  | [], [] => by simp [sameAll]
  | [], _ :: _ => by simp [sameAll]
  | _ :: _, [] => by simp [sameAll]
  | f :: fs, g :: gs => by simp [sameAll, same_iff f g, sameAll_iff fs gs]

end

instance : DecidableEq Failure := fun f g => decidable_of_iff _ (same_iff f g)

end Failure

end Quiescence
