import AbilityRotation.Text.Printable

/-!
Quoted texts, as messages show them.

A quoted text stands between single quotes, or between double quotes if it holds a single quote
and no double one.  The quote in use and the backslash are escaped with a backslash, the line
feed, the carriage return and the tab have letters of their own, and every other character that
is not printable is written by its code point in two, four or eight hexadecimal digits.
-/

namespace AbilityRotation.Text

/-- The hexadecimal digits of `n`, in small letters, with zeros in front up to `width`. -/
def hexDigits (width n : Nat) : List Char :=
  let digits := Nat.toDigits 16 n
  List.replicate (width - digits.length) '0' ++ digits

/-- The quote that encloses a text: the double one where that saves escaping single ones. -/
def enclosingQuote (cs : List Char) : Char :=
  if cs.contains '\'' && !cs.contains '"' then '"' else '\''

/-- A character as it is written between the quotes `quote`. -/
def quotedChar (quote c : Char) : List Char :=
  if c = quote || c = '\\' then ['\\', c]
  else if c = '\n' then ['\\', 'n']
  else if c = '\r' then ['\\', 'r']
  else if c = '\t' then ['\\', 't']
  else if isPrintable c then [c]
  else if c.toNat < 0x100 then '\\' :: 'x' :: hexDigits 2 c.toNat
  else if c.toNat < 0x10000 then '\\' :: 'u' :: hexDigits 4 c.toNat
  else '\\' :: 'U' :: hexDigits 8 c.toNat

/-- A text in quotes, escaped so that it fits on one line and shows every character. -/
def quotedChars (cs : List Char) : List Char :=
  let quote := enclosingQuote cs
  quote :: cs.flatMap (quotedChar quote) ++ [quote]

/-- A text in quotes, escaped so that it fits on one line and shows every character. -/
def quoted (s : String) : String :=
  String.ofList (quotedChars s.toList)

end AbilityRotation.Text
