import AbilityRotation.Rotation.Basic
import AbilityRotation.Token.Lexeme

/-!
Writing a rotation as text.

The canonical text has no blanks: steps are separated by arrows, terms by `+` and alternatives by
`/`; a group stands in parentheses, modifiers stand before their ability with a `+` after each, and
a marker stands in parentheses with its own parentheses escaped.
* `Rotation.render` is the text, with or without the labels of occurrences.
-/

namespace AbilityRotation

/-- The characters of an ability with its label, without its modifiers. -/
def AbilityUse.nameChars (labels : Bool) (use : AbilityUse) : List Char :=
  match labels, use.label with
  | true, some label => use.key.toList ++ '[' :: '*' :: label.toList ++ [']']
  | _, _ => use.key.toList

/-- The characters of the use of an ability. -/
def AbilityUse.chars (labels : Bool) (use : AbilityUse) : List Char :=
  ['+'].intercalate (use.modifiers.map String.toList ++ [use.nameChars labels])

/-- The characters of a marker. -/
def markerChars (text : String) : List Char :=
  '(' :: Lexeme.escape text.toList ++ [')']

mutual

/-- The characters of an alternative. -/
def Alternative.chars (labels : Bool) : Alternative → List Char
  | .ability use => use.chars labels
  | .marker text _ => markerChars text
  | .group steps _ => '(' :: ['→'].intercalate (charsOfSteps labels steps) ++ [')']

/-- The characters of a term; `slash` says whether a slash stands before its first choice. -/
def charsOfTerm (labels slash : Bool) : List Alternative → List Char
  | [] => []
  | a :: rest =>
      if a.isChoice then
        (if slash then ['/'] else []) ++ a.chars labels ++ charsOfTerm labels true rest
      else a.chars labels ++ charsOfTerm labels slash rest

/-- The characters of each term of a step. -/
def charsOfStep (labels : Bool) : List (List Alternative) → List (List Char)
  | [] => []
  | t :: rest => charsOfTerm labels false t :: charsOfStep labels rest

/-- The characters of each step. -/
def charsOfSteps (labels : Bool) : List (List (List Alternative)) → List (List Char)
  | [] => []
  | s :: rest => ['+'].intercalate (charsOfStep labels s) :: charsOfSteps labels rest

end

/-- The characters of a rotation in its canonical text. -/
def Rotation.chars (labels : Bool) (r : Rotation) : List Char :=
  ['→'].intercalate (charsOfSteps labels r.steps)

/-- The canonical text of a rotation, with or without labels. -/
def Rotation.render (r : Rotation) (labels : Bool) : String :=
  String.ofList (r.chars labels)

end AbilityRotation
