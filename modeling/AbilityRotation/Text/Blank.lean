import AbilityRotation.Text.CodeRange

/-!
White space: the blank characters, trimming and splitting into words.

A character is blank if it separates words or lines in some script, which takes in the four
separator controls `\x1c` to `\x1f` and the no-break spaces.  `trim` removes blanks from both
ends, `words` gives the maximal runs of other characters.
* `words_append_cons`: a blank between two texts keeps their words apart, so the words of the
  whole are the words of the two parts.
-/

namespace AbilityRotation.Text

/-- The code points of blank characters. -/
def blankRuns : List CodeRange :=
  [⟨0x9, 0xd⟩, ⟨0x1c, 0x20⟩, ⟨0x85, 0x85⟩, ⟨0xa0, 0xa0⟩, ⟨0x1680, 0x1680⟩, ⟨0x2000, 0x200a⟩,
   ⟨0x2028, 0x2029⟩, ⟨0x202f, 0x202f⟩, ⟨0x205f, 0x205f⟩, ⟨0x3000, 0x3000⟩]

/-- Whether the character is white space. -/
def isBlank (c : Char) : Bool :=
  CodeRange.cover blankRuns c

/-! ### Trimming -/

/-- The characters without the blanks in front. -/
def trimFront (cs : List Char) : List Char :=
  cs.dropWhile isBlank

/-- The characters without the blanks at the end. -/
def trimBack (cs : List Char) : List Char :=
  (cs.reverse.dropWhile isBlank).reverse

/-- The characters without the blanks at both ends. -/
def trimChars (cs : List Char) : List Char :=
  trimBack (trimFront cs)

/-- The text without the blanks at both ends. -/
def trim (s : String) : String :=
  String.ofList (trimChars s.toList)

/-- The trimmed text, if anything is left of it. -/
def trimmed? (s : String) : Option String :=
  let t := trim s
  if t.isEmpty then none else some t

/-- Whether the text has no character but blanks. -/
def isBlankText (s : String) : Bool :=
  s.toList.all isBlank

/-- Whether the text holds a blank. -/
def hasBlank (s : String) : Bool :=
  s.toList.any isBlank

/-! ### Words -/

/-- Puts a character in front of the pieces of what follows it: a blank ends a piece, which
may be empty, and any other character extends the first one. -/
def addToPieces (c : Char) (pieces : List Char × List (List Char)) :
    List Char × List (List Char) :=
  if isBlank c then ([], pieces.1 :: pieces.2) else (c :: pieces.1, pieces.2)

/-- The pieces between single blanks: the first one and the others. -/
def pieces (cs : List Char) : List Char × List (List Char) :=
  cs.foldr addToPieces ([], [])

/-- The words of a text: its maximal nonempty runs of characters that are not blank. -/
def words (cs : List Char) : List (List Char) :=
  ((pieces cs).1 :: (pieces cs).2).filter fun w => !w.isEmpty

/-- The pieces of a text with a blank in it are those before the blank and those after. -/
theorem pieces_append_cons (p q : List Char) {c : Char} (h : isBlank c = true) :
    pieces (p ++ c :: q) = ((pieces p).1, (pieces p).2 ++ (pieces q).1 :: (pieces q).2) := by
  induction p with
  | nil => simp [pieces, addToPieces, h]
  | cons d p ih =>
      have hd (r : List Char) : pieces (d :: r) = addToPieces d (pieces r) := rfl
      rw [List.cons_append, hd, hd, ih]
      by_cases hb : isBlank d = true <;> simp [addToPieces, hb]

/-- A blank keeps the words before it apart from the words after it. -/
theorem words_append_cons (p q : List Char) {c : Char} (h : isBlank c = true) :
    words (p ++ c :: q) = words p ++ words q := by
  simp only [words, pieces_append_cons p q h]
  rw [← List.cons_append, List.filter_append]

end AbilityRotation.Text
