/-!
Sets of characters given as runs of code points.

A character class of the Unicode tables is a list of runs in ascending order.  `CodeRange.cover`
looks a character up in such a list and stops at the first run that begins beyond it.
-/

namespace AbilityRotation

/-- A run of consecutive code points, both ends included. -/
structure CodeRange where
  /-- The first code point of the run. -/
  first : Nat
  /-- The last code point of the run. -/
  last : Nat
  deriving DecidableEq, Repr

namespace CodeRange

/-- Whether one of the ascending runs contains the code point `n`: the search ends at the first
run that begins beyond `n`. -/
def coverCode : List CodeRange → Nat → Bool
  | [], _ => false
  | r :: rest, n => if n < r.first then false else if n ≤ r.last then true else coverCode rest n

/-- Whether the character is in the class that the ascending runs describe. -/
def cover (runs : List CodeRange) (c : Char) : Bool :=
  coverCode runs c.toNat

end CodeRange

end AbilityRotation
