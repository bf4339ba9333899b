import AbilityRotation.Kind
import AbilityRotation.Text.Blank
import AbilityRotation.Text.Digit

/-!
Whole numbers and their decimal texts.

A written whole number has an optional sign and decimal digits of any script; single underscores
may group the digits, blanks may surround the whole.  Reading and writing refuse numbers of more
than `maxDigits` digits.
* `ofDigits_digits`: the digits of a number determine it.
-/

namespace AbilityRotation.Number

/-- Why a value is no number of the kind that is asked for. -/
inductive Fault where
  /-- The value has the wrong form, or a number has too many digits. -/
  | malformed
  /-- The number lies beyond the range of its target. -/
  | outOfRange
  /-- The value is of a kind that has no number of the kind asked for. -/
  | wrongKind (asked given : Kind)
  deriving DecidableEq, Repr

/-- The number of digits beyond which whole numbers are neither read nor written. -/
def maxDigits : Nat := 4300

/-! ### Digits -/

/-- The number with the given decimal digits, the highest first. -/
def ofDigits (ds : List Nat) : Nat :=
  ds.foldl (fun n d => 10 * n + d) 0

/-- The decimal digits of a number, the highest first; zero has the single digit 0. -/
def digits (n : Nat) : List Nat :=
  if n < 10 then [n] else digits (n / 10) ++ [n % 10]

/-- The digits of a number determine it. -/
theorem ofDigits_digits (n : Nat) : ofDigits (digits n) = n := by
  fun_induction digits n with
  | case1 n h => simp [ofDigits]
  | case2 n h ih =>
      simp only [ofDigits] at ih ⊢
      rw [List.foldl_append, ih]
      simp only [List.foldl_cons, List.foldl_nil]
      omega

/-- Every digit is below ten. -/
theorem lt_ten_of_mem_digits {n d : Nat} (h : d ∈ digits n) : d < 10 := by
  fun_induction digits n with
  | case1 n hn => simp at h; omega
  | case2 n hn ih =>
      rcases List.mem_append.mp h with h | h
      · exact ih h
      · simp at h; omega

/-- The character of a decimal digit. -/
def digitChar (d : Nat) : Char :=
  Char.ofNat ('0'.toNat + d)

/-- The digits of a number as characters. -/
def digitChars (n : Nat) : List Char :=
  (digits n).map digitChar

/-! ### Reading -/

/-- A character of a written number in its plain form: blanks beyond ASCII become spaces, digits
of other scripts become `0` to `9`, and what no number holds becomes `?`. -/
def plainChar (c : Char) : Char :=
  if c.toNat < 127 then c
  else if Text.isBlank c then ' '
  else
    match Text.decimalDigit? c with
    | some d => digitChar d
    | none => '?'

/-- The blanks that may surround a written number in its plain form. -/
def isPadding (c : Char) : Bool :=
  c = ' ' || c = '\t' || c = '\n' || c = '\x0b' || c = '\x0c' || c = '\r'

/-- A written number in its plain form, without the blanks around it. -/
def plainForm (cs : List Char) : List Char :=
  let plain := cs.map plainChar
  ((plain.dropWhile isPadding).reverse.dropWhile isPadding).reverse

/-- Leaves out the underscores that stand between two digits; any other underscore makes the
number malformed.  `afterDigit` says whether a digit stands before the characters. -/
def withoutGrouping? (afterDigit : Bool) : List Char → Option (List Char)
  | [] => some []
  | ['_'] => none
  | '_' :: c :: rest =>
      if afterDigit && c.isDigit then withoutGrouping? false (c :: rest) else none
  | c :: rest => (withoutGrouping? c.isDigit rest).map (c :: ·)

/-- The sign in front of a written number, `true` for a minus, and the characters after it. -/
def splitSign : List Char → Bool × List Char
  | '-' :: rest => (true, rest)
  | '+' :: rest => (false, rest)
  | cs => (false, cs)

/-- The value of plain digit characters. -/
def ofDigitChars (cs : List Char) : Nat :=
  ofDigits (cs.map fun c => c.toNat - '0'.toNat)

/-- The whole number that a text writes. -/
def whole? (cs : List Char) : Option Int := do
  let plain ← withoutGrouping? false (plainForm cs)
  let (negative, body) := splitSign plain
  if !body.isEmpty && body.all Char.isDigit && decide (body.length ≤ maxDigits) then
    some (if negative then -(ofDigitChars body : Int) else (ofDigitChars body : Int))
  else none

/-! ### Writing -/

/-- The characters of a whole number, with a minus in front of a negative one. -/
def wholeChars : Int → List Char
  | .ofNat n => digitChars n
  | .negSucc n => '-' :: digitChars (n + 1)

/-- The text of a whole number, however long. -/
def wholeText (n : Int) : String :=
  String.ofList (wholeChars n)

/-- The text of a whole number of at most `maxDigits` digits. -/
def writeWhole (n : Int) : Except Fault String :=
  if (digits n.natAbs).length ≤ maxDigits then .ok (wholeText n) else .error .malformed

end AbilityRotation.Number
