import AbilityRotation.Fault
import AbilityRotation.Text.Alphanumeric
import AbilityRotation.Text.Blank
import AbilityRotation.Text.Digit
import AbilityRotation.Text.LowerCase
import AbilityRotation.Token

/-!
Scanning a rotation text into lexemes.

A lexeme is a written symbol or a line break, with the range of characters that it occupies; what
lies between lexemes is white space.  Words are maximal runs of word characters, cut before an
arrow `->`, and may carry a label in brackets.

Whether an opening parenthesis begins a group or a tooltip depends on its surroundings: a tooltip
is closed on the same line, holds neither operators nor the name of an ability, and touches a word,
a closing parenthesis or a label, with at most spaces and tabs between.
* `Lexeme.glyphAt` reads the glyph at the beginning of some characters.
* `Lexeme.scan` reads all of them.
-/

namespace AbilityRotation

/-- What is read at one place of a text. -/
inductive Glyph where
  /-- A space or tab, across which a tooltip may touch a word. -/
  | space
  /-- Any other white space but a line feed. -/
  | gap
  /-- The end of a line. -/
  | lineBreak
  /-- A written symbol. -/
  | symbol (s : Symbol)
  deriving DecidableEq, Repr

/-- A written symbol or a line break, with its range of characters. -/
structure Lexeme where
  /-- The symbol, or nothing for a line break. -/
  symbol : Option Symbol
  /-- The index of the first character. -/
  start : Nat
  /-- The index after the last character. -/
  stop : Nat
  deriving DecidableEq, Repr

namespace Lexeme

open Text

/-! ### Words and labels -/

/-- Whether the character may stand in a word. -/
def isWordChar (c : Char) : Bool :=
  isAlphanumeric c || c = '_' || c = '-' || c = '\'' || c = '.'

/-- Whether the characters begin with the arrow in ASCII. -/
def startsArrow : List Char → Bool
  | '-' :: '>' :: _ => true
  | _ => false

/-- The word at the beginning of the characters. -/
def wordRun : List Char → List Char
  | [] => []
  | c :: rest =>
      if isWordChar c && !startsArrow (c :: rest) then c :: wordRun rest else []

/-- The digits of a label, from the characters after its opening bracket: an asterisk and digits of
any script up to the next closing bracket. -/
def label? (cs : List Char) : Option (List Char) :=
  match cs.takeWhile (· != ']'), cs.dropWhile (· != ']') with
  | '*' :: digits, _ :: _ =>
      if !digits.isEmpty && digits.all isDigitSign then some digits else none
  | _, _ => none

/-- The word at the beginning of the characters with its label, and the number of characters of
both; the index of the bracket if it holds no label. -/
def wordAt (cs : List Char) : Except (ParseCause × Nat) (Word × Nat) :=
  let word := wordRun cs
  match cs.drop word.length with
  | '[' :: rest =>
      match label? rest with
      | some digits =>
          .ok (⟨String.ofList word, some (String.ofList digits)⟩, word.length + digits.length + 3)
      | none => .error (.malformedLabel (String.ofList word), word.length)
  | _ => .ok (⟨String.ofList word, none⟩, word.length)

/-! ### Tooltips -/

/-- The characters before the closing parenthesis of a tooltip, from those after the opening one; a
backslash takes a parenthesis after it into the tooltip. -/
def tooltipSlice? : List Char → Option (List Char)
  | [] => none
  | [c] => if c = ')' then some [] else none
  | c :: d :: rest =>
      if c = '\\' ∧ (d = '(' ∨ d = ')') then (tooltipSlice? rest).map (c :: d :: ·)
      else if c = '(' ∨ c = '\n' then none
      else if c = ')' then some []
      else (tooltipSlice? (d :: rest)).map (c :: ·)

/-- The text with a backslash in front of every parenthesis. -/
def escape (cs : List Char) : List Char :=
  cs.flatMap fun c => if c = '(' ∨ c = ')' then ['\\', c] else [c]

/-- The text without the backslashes in front of parentheses. -/
def unescape : List Char → List Char
  | [] => []
  | [c] => [c]
  | c :: d :: rest =>
      if c = '\\' ∧ (d = '(' ∨ d = ')') then d :: unescape rest else c :: unescape (d :: rest)

/-- Whether the text holds an operator. -/
def hasOperator : List Char → Bool
  | [] => false
  | c :: rest => c = '→' || c = '+' || c = '/' || startsArrow (c :: rest) || hasOperator rest

/-- Whether the character is a space or a tab. -/
def isSpace (c : Char) : Bool :=
  c = ' ' || c = '\t'

/-- Whether a word begins after spaces and tabs. -/
def wordFollows (cs : List Char) : Bool :=
  match cs.dropWhile isSpace with
  | [] => false
  | c :: rest => isWordChar c && !startsArrow (c :: rest)

/-- The text of the tooltip that begins with a parenthesis and the number of characters after that
parenthesis which belong to it, if it does begin a tooltip.  `names` are the names of abilities in
lower case, and `touching` says whether the parenthesis touches something on its left. -/
def tooltip? (names : List String) (touching : Bool) (cs : List Char) : Option (String × Nat) :=
  match tooltipSlice? cs with
  | none => none
  | some slice =>
      let content := trimChars (unescape slice)
      if !content.isEmpty && !hasOperator content &&
          !names.contains (String.ofList (lowerCaseAfter false content)) &&
          (touching || wordFollows (cs.drop (slice.length + 1))) then
        some (String.ofList content, slice.length + 1)
      else none

/-! ### Glyphs and lexemes -/

/-- The glyph that begins with the character `c`, and the number of characters after `c` that
belong to it.  A fault has its index counted from `c`. -/
def glyphAt (names : List String) (touching : Bool) (c : Char) (rest : List Char) :
    Except (ParseCause × Nat) (Glyph × Nat) :=
  if c = '\n' then .ok (.lineBreak, 0)
  else if isSpace c then .ok (.space, 0)
  else if isBlank c then .ok (.gap, 0)
  else if c = '→' then .ok (.symbol .arrow, 0)
  else if startsArrow (c :: rest) then .ok (.symbol .arrow, 1)
  else if c = '+' then .ok (.symbol .plus, 0)
  else if c = '/' then .ok (.symbol .slash, 0)
  else if c = ')' then .ok (.symbol .closing, 0)
  else if c = '(' then
    match tooltip? names touching rest with
    | some (text, n) => .ok (.symbol (.tooltip text), n)
    | none => .ok (.symbol .opening, 0)
  else if isWordChar c then
    (wordAt (c :: rest)).map fun (word, n) => (.symbol (.word word), n - 1)
  else .error (.unknownOperator c, 0)

/-- Whether a parenthesis touches something on its left when this glyph stands before it. -/
def touchesAfter (touching : Bool) : Glyph → Bool
  | .space => touching
  | .symbol s => s.endsOperand
  | _ => false

/-- The lexeme that a glyph is, if it is one. -/
def ofGlyph? (start stop : Nat) : Glyph → Option Lexeme
  | .symbol s => some ⟨some s, start, stop⟩
  | .lineBreak => some ⟨none, start, stop⟩
  | _ => none

/-- The lexemes of the characters, the first of which has the index `pos`. -/
def scan (names : List String) (touching : Bool) (pos : Nat) :
    List Char → Except ParseFault (List Lexeme)
  | [] => .ok []
  | c :: rest =>
      match glyphAt names touching c rest with
      | .error (cause, offset) => .error ⟨cause, pos + offset⟩
      | .ok (glyph, n) =>
          (scan names (touchesAfter touching glyph) (pos + n + 1) (rest.drop n)).map
            ((ofGlyph? pos (pos + n + 1) glyph).toList ++ ·)
  termination_by cs => cs.length
  decreasing_by
    simp only [List.length_drop, List.length_cons]
    omega

/-- The lexemes of a text. -/
def ofChars (names : List String) (cs : List Char) : Except ParseFault (List Lexeme) :=
  scan names false 0 cs

end Lexeme

end AbilityRotation
