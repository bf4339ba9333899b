/-!
Tokens: the words, tooltips, operators and parentheses of a rotation text.

A token knows the index of its first character and whether it was written or follows from its
surroundings, as the arrow that a line break stands for does.
-/

namespace AbilityRotation

/-- A word of a rotation text: the key of an ability or modifier, with the label of the occurrence
if one is written behind it. -/
structure Word where
  /-- The word itself. -/
  key : String
  /-- The digits of the label. -/
  label : Option String := none
  deriving DecidableEq, Repr

/-- What a token stands for. -/
inductive Symbol where
  /-- A word. -/
  | word (w : Word)
  /-- A text to show, which does not count as an ability. -/
  | tooltip (text : String)
  /-- The boundary between two steps. -/
  | arrow
  /-- The sign between abilities of one step. -/
  | plus
  /-- The sign between alternatives. -/
  | slash
  /-- The beginning of a group. -/
  | opening
  /-- The end of a group. -/
  | closing
  deriving DecidableEq, Repr

namespace Symbol

/-- Whether an ability, a tooltip or a group begins here. -/
def startsOperand : Symbol → Bool
  | .word _ | .tooltip _ | .opening => true
  | _ => false

/-- Whether an ability, a tooltip or a group ends here. -/
def endsOperand : Symbol → Bool
  | .word _ | .tooltip _ | .closing => true
  | _ => false

/-- A symbol as messages show it: a word without its label, and a tooltip without parentheses. -/
def text : Symbol → String
  | .word w => w.key
  | .tooltip s => s
  | .arrow => "→"
  | .plus => "+"
  | .slash => "/"
  | .opening => "("
  | .closing => ")"

end Symbol

/-- A token of a rotation text. -/
structure Token where
  /-- What the token stands for. -/
  symbol : Symbol
  /-- The index of its first character. -/
  pos : Nat
  /-- Whether it follows from its surroundings and was not written. -/
  implicit : Bool := false
  deriving DecidableEq, Repr

namespace Token

/-- Whether an ability, a tooltip or a group begins at the first of the tokens. -/
def startsOperand : List Token → Bool
  | [] => false
  | t :: _ => t.symbol.startsOperand

end Token

end AbilityRotation
