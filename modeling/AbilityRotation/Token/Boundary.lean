import AbilityRotation.Token.Lexeme

/-!
From lexemes to tokens: the boundaries that need not be written.

A line break between two operands stands for an arrow; next to an operator or a parenthesis on the
inner side it is mere white space, and several in a row count once.  In front of the word `spec`
after an operand a plus is understood.
* `Token.ofLexemes` resolves line breaks, `Token.insertPluses` adds the understood pluses.
* `Token.ofChars` gives the tokens of a text.
-/

namespace AbilityRotation

namespace Token

/-- The first written symbol after line breaks. -/
def nextSymbol? : List Lexeme → Option Symbol
  | [] => none
  | ⟨some s, _, _⟩ :: _ => some s
  | ⟨none, _, _⟩ :: rest => nextSymbol? rest

/-- The tokens of lexemes, where line breaks between operands become arrows and others vanish.
`before` is the symbol of the token before them. -/
def ofLexemes (before : Option Symbol) : List Lexeme → List Token
  | [] => []
  | ⟨some s, start, _⟩ :: rest => ⟨s, start, false⟩ :: ofLexemes (some s) rest
  | ⟨none, start, _⟩ :: rest =>
      if before.any Symbol.endsOperand && (nextSymbol? rest).any Symbol.startsOperand then
        ⟨.arrow, start, true⟩ :: ofLexemes (some .arrow) rest
      else ofLexemes before rest

/-- Whether the symbol is the word `spec`, in any spelling. -/
def isSpec : Symbol → Bool
  | .word w => Text.lowerCase w.key = "spec"
  | _ => false

/-- The tokens with a plus in front of each `spec` that follows an operand.  `before` is the symbol
of the token before them. -/
def insertPluses (before : Option Symbol) : List Token → List Token
  | [] => []
  | t :: rest =>
      if isSpec t.symbol && before.any Symbol.endsOperand then
        ⟨.plus, t.pos, true⟩ :: t :: insertPluses (some t.symbol) rest
      else t :: insertPluses (some t.symbol) rest

/-- The tokens of a text.  A parenthesis around one of the `names` is a group and no tooltip,
whatever the case of its letters. -/
def ofChars (names : List String) (cs : List Char) : Except ParseFault (List Token) :=
  (Lexeme.ofChars (names.map Text.lowerCase) cs).map fun lexemes =>
    insertPluses none (ofLexemes none lexemes)

end Token

end AbilityRotation
