import AbilityRotation.Number.Decimal

/-!
Detection thresholds.

A threshold is set as a floating-point number or as a whole number, and is written the way it was
set; what takes effect is a floating-point number between 0 and 1 (`Threshold.effective`).  Whole
numbers of any size can be set, but those beyond the range of floating-point numbers cannot take
effect.
-/

namespace AbilityRotation

open Number

/-- A detection threshold as it was set. -/
inductive Threshold where
  /-- A floating-point number. -/
  | real (x : Binary64)
  /-- A whole number. -/
  | whole (n : Int)
  deriving DecidableEq

namespace Threshold

/-- The threshold as a floating-point number; a whole number may lie beyond their range. -/
def toReal : Threshold → Except Fault Binary64
  | .real x => .ok x
  | .whole n => Binary64.ofInt n

/-- The threshold that takes effect: a number between 0 and 1, or none at all where the setting is
infinite or no number. -/
def effective (t : Threshold) : Except Fault (Option Binary64) :=
  t.toReal.map Binary64.inUnitInterval

/-- A floating-point number always takes effect. -/
@[simp] theorem effective_real (x : Binary64) : effective (.real x) = .ok x.inUnitInterval := rfl

/-- The text of a threshold. -/
def write : Threshold → Except Fault String
  | .real x => .ok x.text
  | .whole n => writeWhole n

end Threshold

end AbilityRotation
