/-
# Blank characters

The characters with the Unicode property White_Space, and trimming by them.
The table is closed: the property is stable, so no later character joins it.
-/

namespace Quiescence.Text

/-- The first and last character of every range that has the property White_Space. -/
def blankRanges : List (Nat × Nat) :=
  [(0x9, 0xd), (0x20, 0x20), (0x85, 0x85), (0xa0, 0xa0), (0x1680, 0x1680), (0x2000, 0x200a),
    (0x2028, 0x2029), (0x202f, 0x202f), (0x205f, 0x205f), (0x3000, 0x3000)]

/-- The property holds of 25 characters. -/
example : (blankRanges.flatMap fun r => List.range' r.1 (r.2 + 1 - r.1)).length = 25 := rfl

/-- Has the character the property White_Space? -/
def isBlank (c : Char) : Bool := blankRanges.any fun r => r.1 ≤ c.toNat && c.toNat ≤ r.2

/-- The characters left when the blanks at both ends are gone. -/
def trimmed (cs : List Char) : List Char :=
  ((cs.dropWhile isBlank).reverse.dropWhile isBlank).reverse

/-- A text without the blanks at its ends. -/
def trim (s : String) : String := String.ofList (trimmed s.toList)

end Quiescence.Text
