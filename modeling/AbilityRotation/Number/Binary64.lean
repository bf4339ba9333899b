import AbilityRotation.Number.Whole

/-!
Floating-point numbers with a significand of 53 bits, exactly.

Every finite number is a whole multiple of the unit `2 ^ (-1074)`, namely `significand * 2 ^ scale`
units with `significand < 2 ^ 53` and `scale ≤ 2045`; the pair is unique because the significand
has its highest bit unless the scale is zero.  All arithmetic here is on natural numbers.
* `ofRatio` rounds a quotient of natural numbers to the nearest number, a tie to the even
  significand, and goes to infinity beyond the largest one.
* `toInt` cuts off the fraction, `inUnitInterval` brings a number into the interval from 0 to 1.
* `Place` orders the numbers of both kinds, whole and floating-point, on one line.
-/

namespace AbilityRotation.Number

-- Powers are those of the core library, also where other powers of numbers are known.
attribute [local instance (high)] instPowNat

/-- Whether the pair is the one form of a finite number: the significand has at most 53 bits, and
it has exactly 53 unless the number is among the smallest. -/
def Canonical (significand scale : Nat) : Prop :=
  significand < 2 ^ (53 : Nat) ∧ scale ≤ 2045 ∧ (2 ^ (52 : Nat) ≤ significand ∨ scale = 0)

instance (significand scale : Nat) : Decidable (Canonical significand scale) :=
  inferInstanceAs (Decidable (_ ∧ _ ∧ _))

/-- A floating-point number of 64 bits.  Zero has a sign, the number that is none has not. -/
inductive Binary64 where
  /-- The result of an operation without a value. -/
  | nan
  /-- An infinity. -/
  | infinite (negative : Bool)
  /-- The number of `significand * 2 ^ scale` units of `2 ^ (-1074)`, with its sign. -/
  | finite (negative : Bool) (significand scale : Nat) (canonical : Canonical significand scale)
  deriving DecidableEq

namespace Binary64

/-- The number of units in one, as a power of two. -/
def unitBits : Nat := 1074

/-- Zero, without a minus. -/
def zero : Binary64 := .finite false 0 0 (by decide)

/-- One. -/
def one : Binary64 := .finite false (2 ^ (52 : Nat)) 1022 (by decide)

instance : Inhabited Binary64 := ⟨zero⟩

/-- Whether the number is neither infinite nor without a value. -/
def isFinite : Binary64 → Bool
  | .finite .. => true
  | _ => false

/-- The number with the given parts, or an infinity if it is too large to have such parts. -/
def ofParts (negative : Bool) (significand scale : Nat) : Binary64 :=
  if h : Canonical significand scale then .finite negative significand scale h
  else .infinite negative

/-- A quotient rounded to the nearest whole number, and a tie to the even one. -/
def roundQuotient (num den : Nat) : Nat :=
  let q := num / den
  let r := num % den
  if 2 * r < den then q
  else if den < 2 * r then q + 1
  else if q % 2 = 0 then q else q + 1

/-- The scale at which a number of whole `units` has a significand of 53 bits. -/
def scaleOf (units : Nat) : Nat :=
  Nat.log2 units - 52

/-- The number nearest to the quotient `num / den`, of two equally near ones the one with the
even significand. -/
def ofRatio (negative : Bool) (num den : Nat) : Binary64 :=
  let units := num * 2 ^ unitBits
  let scale := scaleOf (units / den)
  let significand := roundQuotient units (den * 2 ^ scale)
  if significand = 2 ^ (53 : Nat) then ofParts negative (2 ^ (52 : Nat)) (scale + 1)
  else ofParts negative significand scale

/-- The number itself if it is finite; what is not finite is out of range. -/
def whenFinite : Binary64 → Except Fault Binary64
  | .finite negative significand scale h => .ok (.finite negative significand scale h)
  | _ => .error .outOfRange

/-- The number nearest to a whole number; there is none if that number is too large. -/
def ofInt (n : Int) : Except Fault Binary64 :=
  (ofRatio (decide (n < 0)) n.natAbs 1).whenFinite

/-- The number with its fraction cut off. -/
def toInt : Binary64 → Except Fault Int
  | .nan => .error .malformed
  | .infinite _ => .error .outOfRange
  | .finite negative significand scale _ =>
      let magnitude := significand * 2 ^ scale / 2 ^ unitBits
      .ok (if negative then -(magnitude : Int) else (magnitude : Int))

/-- A finite number brought into the interval from 0 to 1; what is not finite has no place
there. -/
def inUnitInterval : Binary64 → Option Binary64
  | .finite negative significand scale h =>
      if negative || significand = 0 then some zero
      else if 2 ^ unitBits ≤ significand * 2 ^ scale then some one
      else some (.finite negative significand scale h)
  | _ => none

end Binary64

/-! ### The line of numbers -/

/-- A place on the line of all numbers, the infinities at its two ends included. -/
structure Place where
  /-- Negative or positive at an end of the line, zero between the ends. -/
  side : Int
  /-- The number of units of `2 ^ (-1074)` between the ends. -/
  units : Int
  deriving DecidableEq, Repr

namespace Place

/-- The place of a whole number. -/
def ofInt (n : Int) : Place := ⟨0, n * 2 ^ Binary64.unitBits⟩

/-- Whether a place lies below another one. -/
def isBelow (p q : Place) : Bool :=
  decide (p.side < q.side) || (p.side == q.side && decide (p.units < q.units))

end Place

/-- The place of a floating-point number: both zeros have the same place, and the number that is
none has no place. -/
def Binary64.place? : Binary64 → Option Place
  | .nan => none
  | .infinite negative => some ⟨if negative then -1 else 1, 0⟩
  | .finite negative significand scale _ =>
      let magnitude : Int := (significand * 2 ^ scale : Nat)
      some ⟨0, if negative then -magnitude else magnitude⟩

end AbilityRotation.Number
