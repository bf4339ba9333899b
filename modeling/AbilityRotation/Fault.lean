import AbilityRotation.Number.Whole
import AbilityRotation.Text.Quoted

/-!
Faults: why a rotation text cannot be read.

A malformed rotation could not be executed safely, so reading stops at the first fault and nothing
is guessed.  A fault is a cause with the place where reading stopped, which is the index of a
character while the text is scanned and the index of a token afterwards.
* `ParseCause.code` and `ParseCause.message` name a cause for programs and for people.
* `ErrorReport.text` is the line that reports a fault.
-/

namespace AbilityRotation

open Text (quoted)

/-- Why a rotation text cannot be read. -/
inductive ParseCause where
  /-- A character that belongs to no token. -/
  | unknownOperator (c : Char)
  /-- A bracket after a word that holds no label. -/
  | malformedLabel (word : String)
  /-- No ability, group or tooltip after an operator. -/
  | operandMissingAfter (operator : String)
  /-- An operator where an ability should stand. -/
  | operandMissingBefore (operator : String)
  /-- No ability or group where one should stand. -/
  | operandMissing
  /-- A group without content. -/
  | emptyGroup
  /-- A closing parenthesis without an opening one. -/
  | unexpectedClosing
  /-- A token after the end of the rotation. -/
  | unexpectedToken (token : String)
  /-- Two neighbouring abilities without an operator, where one is required. -/
  | operatorMissing (token : String)
  /-- Alternatives between two `+`, which could be grouped in two ways. -/
  | ambiguous
  /-- A group that is never closed. -/
  | unterminatedGroup
  deriving DecidableEq, Repr

namespace ParseCause

/-- The name of a cause for programs. -/
def code : ParseCause → String
  | .unknownOperator _ => "parse.operator.unknown"
  | .malformedLabel _ => "parse.label.malformed"
  | .operandMissingAfter _ => "parse.token.empty"
  | .operandMissingBefore _ => "parse.token.empty"
  | .operandMissing => "parse.token.empty"
  | .emptyGroup => "parse.token.empty"
  | .unexpectedClosing => "parse.group.unexpected_close"
  | .unexpectedToken _ => "parse.token.unexpected"
  | .operatorMissing _ => "parse.operator.missing"
  | .ambiguous => "parse.ambiguous"
  | .unterminatedGroup => "parse.group.unterminated"

/-- A cause in words. -/
def message : ParseCause → String
  | .unknownOperator c => "unknown operator " ++ quoted (String.singleton c)
  | .malformedLabel word => "malformed instance label after " ++ quoted word
  | .operandMissingAfter operator => "expected an ability after " ++ quoted operator
  | .operandMissingBefore operator => "expected an ability before " ++ quoted operator
  | .operandMissing => "expected an ability"
  | .emptyGroup => "empty group '()'"
  | .unexpectedClosing => "unexpected ')'"
  | .unexpectedToken token => "unexpected token " ++ quoted token
  | .operatorMissing token => "missing operator before " ++ quoted token
  | .ambiguous => "ambiguous '/' between '+' terms, use parentheses"
  | .unterminatedGroup => "unterminated group, missing ')'"

end ParseCause

/-- A cause with the place where reading stopped. -/
structure ParseFault where
  /-- Why reading stopped. -/
  cause : ParseCause
  /-- Where reading stopped. -/
  position : Nat
  deriving DecidableEq, Repr

/-- A fault as it is reported. -/
structure ErrorReport where
  /-- The name of the cause for programs. -/
  code : String
  /-- The cause in words. -/
  message : String
  /-- The place of the fault, if it is known. -/
  position : Option Int
  deriving DecidableEq, Repr

/-- The line that reports a fault. -/
def ErrorReport.text (r : ErrorReport) : String :=
  match r.position with
  | none => r.message ++ " (code=" ++ r.code ++ ")"
  | some p => r.message ++ " (code=" ++ r.code ++ ", pos=" ++ Number.wholeText p ++ ")"

/-- The report of a fault. -/
def ParseFault.report (f : ParseFault) : ErrorReport :=
  ⟨f.cause.code, f.cause.message, some f.position⟩

end AbilityRotation
