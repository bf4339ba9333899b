import AbilityRotation.Raw.Basic
import AbilityRotation.Text.Blank
import AbilityRotation.Text.LowerCase

/-!
Reading fields of known kinds from raw values.

A malformed value becomes a default rather than an error, so that one bad entry does not spoil a
whole file.  Two failures remain: a number beyond the range of its target, and a text asked of a
whole number with too many digits.
* `Raw.toInteger` and `Raw.toReal` convert, and name the fault if they cannot.
* `Raw.wholeNumber?`, `Raw.integer?` and `Raw.real?` have no value where it is malformed or of the
  wrong kind, `Raw.integerOr` and `Raw.flagOr` have a default in its place.
* `clamp`, `atLeastZero` and `Raw.ticks` keep numbers within their bounds.
-/

namespace AbilityRotation

open Number

/-- A whole number brought between two bounds. -/
def clamp (low high n : Int) : Int :=
  if n < low then low else if high < n then high else n

/-- A whole number, with zero in place of a negative one. -/
def atLeastZero (n : Int) : Int := max 0 n

/-- The result of a conversion, or `default` where the value is malformed or of the wrong kind.  A
number out of range stays an error. -/
def orDefault {α : Type} (default : α) : Except Fault α → Except Fault α
  | .ok a => .ok a
  | .error .outOfRange => .error .outOfRange
  | .error _ => .ok default

namespace Raw

/-- The value as a whole number: a fraction is cut off, and a text is read. -/
def toInteger : Raw → Except Fault Int
  | .scalar (.flag b) => .ok (Scalar.flagNumber b)
  | .scalar (.whole n) => .ok n
  | .scalar (.real x) => x.toInt
  | .scalar (.text s) =>
      match whole? s.toList with
      | some n => .ok n
      | none => .error .malformed
  | r => .error (.wrongKind .whole r.kind)

/-- The value as a floating-point number: whole numbers are rounded, and a text is read. -/
def toReal : Raw → Except Fault Binary64
  | .scalar (.flag b) => .ok (if b then Binary64.one else Binary64.zero)
  | .scalar (.whole n) => Binary64.ofInt n
  | .scalar (.real x) => .ok x
  | .scalar (.text s) =>
      match Binary64.ofChars? s.toList with
      | some x => .ok x
      | none => .error .malformed
  | r => .error (.wrongKind .real r.kind)

/-- The value as a text, `default` if it is absent. -/
def textOr (default : String) : Raw → Except Fault String
  | .scalar .null => .ok default
  | r => r.write

/-- The whole number that the value has, truth values included. -/
def wholeNumber? (r : Raw) : Except Fault (Option Int) :=
  orDefault none (r.toInteger.map some)

/-- The value as a whole number, `default` if it has none. -/
def integerOr (default : Int) (r : Raw) : Except Fault Int :=
  r.wholeNumber?.map (·.getD default)

/-- The words that stand for a truth value. -/
def truthWord? (s : String) : Option Bool :=
  if s ∈ ["1", "true", "yes", "y", "on"] then some true
  else if s ∈ ["0", "false", "no", "n", "off"] then some false
  else none

/-- The truth value that the value stands for: whole numbers other than zero stand for truth, and
texts for what their word says. -/
def truth? : Raw → Option Bool
  | .scalar (.flag b) => some b
  | .scalar (.whole n) => some (decide (n ≠ 0))
  | .scalar (.text s) => truthWord? (Text.lowerCase (Text.trim s))
  | _ => none

/-- The value as a truth value, `default` if it stands for none. -/
def flagOr (default : Bool) (r : Raw) : Bool :=
  r.truth?.getD default

/-- The trimmed text of the value; a blank text counts as absent. -/
def text? (r : Raw) : Except Fault (Option String) :=
  match r with
  | .scalar .null => .ok none
  | r => do
      let s ← r.textOr ""
      .ok (Text.trimmed? s)

/-- The value as a whole number; truth values do not count as numbers. -/
def integer? : Raw → Except Fault (Option Int)
  | .scalar .null => .ok none
  | .scalar (.flag _) => .ok none
  | r => r.wholeNumber?

/-- The value as a finite floating-point number; truth values do not count as numbers. -/
def real? : Raw → Except Fault (Option Binary64)
  | .scalar .null => .ok none
  | .scalar (.flag _) => .ok none
  | r => orDefault none (r.toReal.map fun x => if x.isFinite then some x else none)

/-- The value as a truth value, if it is one. -/
def flag? : Raw → Option Bool
  | .scalar (.flag b) => some b
  | _ => none

/-- The value as a number of ticks: nothing and negative numbers count as zero. -/
def ticks : Raw → Except Fault Int
  | .scalar .null => .ok 0
  | r => r.toInteger.map atLeastZero

/-- The value as a number between 0 and 1; nothing if it is absent or not finite. -/
def unitReal : Raw → Except Fault (Option Binary64)
  | .scalar .null => .ok none
  | r => r.toReal.map Binary64.inUnitInterval

end Raw

end AbilityRotation
