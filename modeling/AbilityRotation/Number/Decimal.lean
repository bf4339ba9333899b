import AbilityRotation.Number.Binary64

/-!
Decimal texts of floating-point numbers.

Reading takes an optional sign, digits with an optional point and an optional exponent, or a name
of an infinity or of the number that is none.  Writing gives the fewest digits that read back, of
several the ones nearest to the number, and lays them out with a point or, for very large and very
small numbers, with an exponent.
* `Binary64.ofDecimal` rounds a decimal to the nearest floating-point number.
* `Binary64.shortest` is the decimal with the fewest digits that reads back; it is found by reading
  candidates back, and the exact decimal stands in if none of them did.
-/

namespace AbilityRotation.Number

-- Powers are those of the core library, also where other powers of numbers are known.
attribute [local instance (high)] instPowNat

/-- The decimal `coefficient * 10 ^ exponent`. -/
structure Decimal where
  /-- The digits of the decimal, as one number. -/
  coefficient : Nat
  /-- The place of the last digit. -/
  exponent : Int
  deriving DecidableEq, Repr

namespace Decimal

/-- The numerator of a decimal. -/
def num (d : Decimal) : Nat := d.coefficient * 10 ^ d.exponent.toNat

/-- The denominator of a decimal. -/
def den (d : Decimal) : Nat := 10 ^ (-d.exponent).toNat

/-- The place before the first digit: the decimal is below `10 ^ d.top`, and not below a tenth of
it unless it is zero. -/
def top (d : Decimal) : Int := (digits d.coefficient).length + d.exponent

/-- The decimal without zeros at the end of its digits. -/
def normal (d : Decimal) : Decimal :=
  if d.coefficient ≠ 0 ∧ d.coefficient % 10 = 0 then
    normal ⟨d.coefficient / 10, d.exponent + 1⟩
  else d
  termination_by d.coefficient
  decreasing_by omega

end Decimal

namespace Binary64

/-- The number nearest to a decimal.  The decimals whose place is far outside the range of
floating-point numbers are decided by that place alone. -/
def ofDecimal (negative : Bool) (d : Decimal) : Binary64 :=
  if d.coefficient = 0 ∨ d.top < -330 then ofParts negative 0 0
  else if 310 < d.top then .infinite negative
  else
    let common := Nat.gcd d.num d.den
    ofRatio negative (d.num / common) (d.den / common)

/-! ### The fewest digits that read back -/

/-- The decimal that a finite number is exactly, for `significand * 2 ^ scale` units. -/
def exactDecimal (significand scale : Nat) : Decimal :=
  if scale < unitBits then ⟨significand * 5 ^ (unitBits - scale), (scale : Int) - unitBits⟩
  else ⟨significand * 2 ^ (scale - unitBits), 0⟩

/-- The place of the first digit of a nonzero quotient: it is at least `10 ^ leadingPlace` and
less than ten times that. -/
def leadingPlace (num den : Nat) : Int :=
  if den ≤ num then (digits (num / den)).length - 1
  else
    let places := (digits (den / num)).length
    if den ≤ num * 10 ^ (places - 1) then 1 - (places : Int) else -places

/-- The decimals on both sides of a quotient whose last digit has the place `place`, as the
coefficient of the lower one and whether the upper one is nearer (of a tie, the even one). -/
def neighbours (num den : Nat) (place : Int) : Nat × Bool :=
  let top := num * 10 ^ (-place).toNat
  let bottom := den * 10 ^ place.toNat
  let lower := top / bottom
  let twice := 2 * (top % bottom)
  (lower, decide (bottom < twice) || (decide (bottom = twice) && decide (lower % 2 = 1)))

/-- The nearer of the two neighbours at a place that reads back, if one of them does. -/
def readsBack? (x : Binary64) (num den : Nat) (place : Int) : Option Decimal :=
  let (lower, upperNearer) := neighbours num den place
  let down : Decimal := ⟨lower, place⟩
  let up : Decimal := ⟨lower + 1, place⟩
  let first := if upperNearer then up else down
  let second := if upperNearer then down else up
  if ofDecimal false first = x then some first
  else if ofDecimal false second = x then some second
  else none

/-- The decimal with the fewest digits that reads back as the number of `significand * 2 ^ scale`
units: one digit is tried first, then two, up to the seventeen that always suffice. -/
def shortest (significand scale : Nat) : Decimal :=
  let num := significand * 2 ^ scale
  let den := 2 ^ unitBits
  let x := ofParts false significand scale
  let first := leadingPlace num den
  let found := (List.range 17).findSome? fun (k : Nat) => readsBack? x num den (first - k)
  (found.getD (exactDecimal significand scale)).normal

/-! ### Layout -/

/-- How a decimal is laid out. -/
structure DecimalStyle where
  /-- The least place of the first digit that is written without an exponent. -/
  leastPositional : Int
  /-- The least place of the first digit beyond those that are written without an exponent. -/
  beyondPositional : Int
  /-- The least number of digits of an exponent. -/
  exponentDigits : Nat

/-- Numbers from a ten-thousandth up to below ten to the sixteenth are written without an
exponent; an exponent has a sign and at least two digits. -/
def plainStyle : DecimalStyle := ⟨-4, 16, 2⟩

/-- Zeros of the given number. -/
def zeros (n : Nat) : List Char := List.replicate n '0'

/-- A decimal laid out in a style. -/
def layout (style : DecimalStyle) (d : Decimal) : List Char :=
  let ds := digitChars d.coefficient
  let place := d.top - 1
  if style.leastPositional ≤ place ∧ place < style.beyondPositional then
    if d.top ≤ 0 then '0' :: '.' :: zeros (-d.top).toNat ++ ds
    else if (ds.length : Int) ≤ d.top then ds ++ zeros (d.top - ds.length).toNat ++ ['.', '0']
    else ds.take d.top.toNat ++ '.' :: ds.drop d.top.toNat
  else
    let fraction := if ds.length ≤ 1 then [] else '.' :: ds.drop 1
    let power := digitChars place.natAbs
    ds.take 1 ++ fraction ++ 'e' :: (if place < 0 then '-' else '+') ::
      zeros (style.exponentDigits - power.length) ++ power

/-- The characters of a floating-point number. -/
def chars : Binary64 → List Char
  | .nan => "nan".toList
  | .infinite negative => if negative then "-inf".toList else "inf".toList
  | .finite negative significand scale _ =>
      (if negative then ['-'] else []) ++ layout plainStyle (shortest significand scale)

/-- The text of a floating-point number. -/
def text (x : Binary64) : String :=
  String.ofList x.chars

/-! ### Reading -/

/-- The exponent after the digits: nothing, or an `e` with a whole number in plain digits. -/
def exponent? : List Char → Option Int
  | [] => some 0
  | c :: rest =>
      let (negative, body) := splitSign rest
      if (c = 'e' || c = 'E') && !body.isEmpty && body.all Char.isDigit then
        some (if negative then -(ofDigitChars body : Int) else (ofDigitChars body : Int))
      else none

/-- The digits after a point, and what follows them. -/
def splitFraction : List Char → List Char × List Char
  | '.' :: rest => (rest.takeWhile Char.isDigit, rest.dropWhile Char.isDigit)
  | cs => ([], cs)

/-- The decimal that digits, point and exponent write. -/
def decimal? (cs : List Char) : Option Decimal := do
  let front := cs.takeWhile Char.isDigit
  let (fraction, rest) := splitFraction (cs.dropWhile Char.isDigit)
  if front.isEmpty && fraction.isEmpty then none
  else
    let power ← exponent? rest
    some ⟨ofDigitChars (front ++ fraction), power - fraction.length⟩

/-- The small letter of an ASCII capital, for names whose case does not count. -/
def asciiLower (cs : List Char) : List Char :=
  cs.map Char.toLower

/-- The floating-point number that a text writes. -/
def ofChars? (cs : List Char) : Option Binary64 := do
  let plain ← withoutGrouping? false (plainForm cs)
  let (negative, body) := splitSign plain
  let name := asciiLower body
  if name = "inf".toList || name = "infinity".toList then some (.infinite negative)
  else if name = "nan".toList then some .nan
  else (decimal? body).map (ofDecimal negative)

end Binary64

end AbilityRotation.Number
