/-!
Lines of a text.

A line ends at a line feed, a carriage return, the two together, or one of the other eight
characters that break lines: vertical tab, form feed, the three upper separator controls, the
next-line control and the two Unicode separators.  The end of the last line may be missing.
-/

namespace AbilityRotation.Text

/-- The characters that end a line. -/
def lineEnds : List Char :=
  ['\n', '\r', '\x0b', '\x0c', '\x1c', '\x1d', '\x1e', '\u0085', '\u2028', '\u2029']

/-- Whether the character ends a line. -/
def isLineEnd (c : Char) : Bool :=
  lineEnds.contains c

/-- The lines of a text without the characters that end them.  The empty text has no line, and a
line end at the very end opens no further line. -/
def lines : List Char → List (List Char)
  | [] => []
  | '\r' :: '\n' :: rest => [] :: lines rest
  | c :: rest =>
      if isLineEnd c then [] :: lines rest
      else
        match lines rest with
        | [] => [[c]]
        | line :: more => (c :: line) :: more

/-- A line feed ends a line. -/
theorem lines_newline_cons (rest : List Char) : lines ('\n' :: rest) = [] :: lines rest := by
  rw [lines]
  · rfl
  · simp

/-- Texts joined by line feeds: one line each. -/
def joinLines (ls : List String) : String :=
  "\n".intercalate ls

end AbilityRotation.Text
