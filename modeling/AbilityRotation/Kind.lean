/-!
The kinds of values that a settings file or another program hands over.

A kind says what a value is without saying which one; it is what a fault names when a value is of
no use where it stands.
-/

namespace AbilityRotation

/-- The kinds of values of unknown shape. -/
inductive Kind where
  /-- The absence of a value. -/
  | null
  /-- A truth value. -/
  | flag
  /-- A whole number. -/
  | whole
  /-- A floating-point number. -/
  | real
  /-- A text. -/
  | text
  /-- A list of values. -/
  | list
  /-- Values under keys. -/
  | record
  deriving DecidableEq, Repr

end AbilityRotation
