import AbilityRotation.Settings.Payload
import AbilityRotation.Table
import AbilityRotation.Text.Digit
import AbilityRotation.Text.Lines

/-!
Splitting a rotation text into its expression and its settings.

Lines that begin with `#*` and a label set fields for one occurrence of an ability, lines that
begin with `#@` and a key for all occurrences; all other lines make up the expression.  Several
lines for one target are laid over each other in order, and malformed lines are passed over.
* `sanitize` removes invisible characters and a pair of quotes around the whole text.
* `TextLine.ofChars` classifies a line.
* `SplitText.ofText` splits a text, `SplitText.notices` says what it passes over.
-/

namespace AbilityRotation

open Text

/-! ### Cleaning -/

/-- Characters without a picture that copied texts bring along. -/
def invisibles : List Char :=
  ['\u200b', '\u200c', '\u200d', '\u2060', '\ufeff', '\u00a0', '\u202f', '\u200e', '\u200f',
   '\u180e']

/-- The characters without the invisible ones. -/
def removeInvisibles (cs : List Char) : List Char :=
  cs.filter fun c => !invisibles.contains c

/-- The inside of a pair of double quotes that encloses all of the characters. -/
def insideQuotes? (cs : List Char) : Option (List Char) :=
  match cs with
  | '"' :: rest => if rest.getLast? = some '"' then some rest.dropLast else none
  | _ => none

/-- The characters without one pair of double quotes around them and the blanks at the quotes;
characters without such quotes stay as they are. -/
def stripQuotes (cs : List Char) : List Char :=
  match insideQuotes? (trimChars cs) with
  | some inside => trimChars inside
  | none => cs

/-- The characters of a text without invisible ones and without a pair of quotes around them. -/
def sanitize (cs : List Char) : List Char :=
  stripQuotes (removeInvisibles cs)

/-! ### Lines -/

/-- A line of a rotation text. -/
inductive TextLine where
  /-- A line of the expression. -/
  | expression (cs : List Char)
  /-- Settings for a target; `line` is the whole line without blanks around it. -/
  | setting (scope : SettingsScope) (target : String) (payload : List Char) (line : String)
  /-- A settings line without a target or without settings. -/
  | malformed (scope : SettingsScope) (line : String)
  deriving DecidableEq, Repr

namespace TextLine

/-- The settings line that begins with the mark of its scope: the target is made of the characters
that `inTarget` allows, and blanks separate it from the payload. -/
def settingOf (scope : SettingsScope) (inTarget : Char → Bool) (line afterMark : List Char) :
    TextLine :=
  let target := afterMark.takeWhile inTarget
  let separated := afterMark.dropWhile inTarget
  let payload := trimFront separated
  if target.isEmpty || payload.isEmpty || decide (payload.length = separated.length) then
    .malformed scope (String.ofList line)
  else .setting scope (String.ofList target) payload (String.ofList line)

/-- The line that the characters are. -/
def ofChars (cs : List Char) : TextLine :=
  let line := trimChars cs
  match line with
  | '#' :: '*' :: rest => settingOf .occurrence isDecimalDigit line rest
  | '#' :: '@' :: rest => settingOf .ability (fun c => !isBlank c) line rest
  | _ => .expression cs

/-- What is passed over on a line. -/
def notices : TextLine → List Notice
  | .expression _ => []
  | .setting _ _ payload line => Settings.readNotices payload line
  | .malformed scope line => [.malformedLine scope line]

end TextLine

/-! ### Texts -/

/-- A rotation text taken apart. -/
structure SplitText where
  /-- The expression: its lines, without the settings lines between them. -/
  expression : List Char := []
  /-- Settings for single occurrences, under their labels. -/
  perInstance : Table Overrides := Table.empty
  /-- Settings for abilities, under their keys. -/
  perAbility : Table Overrides := Table.empty

namespace SplitText

/-- The settings after those of one more line for a target. -/
def addSettings (t : Table Overrides) (target : String) (delta : Option Overrides) :
    Table Overrides :=
  match delta with
  | none => t
  | some o =>
      match Overrides.merge (t.get? target) (some o) with
      | none => t
      | some merged => t.insert target merged

/-- The settings for the targets of one scope that the lines give. -/
def settings (scope : SettingsScope) (lines : List TextLine) : Table Overrides :=
  lines.foldl
    (fun t l =>
      match l with
      | .setting s target payload line =>
          if s = scope then addSettings t target (Settings.read payload line) else t
      | _ => t)
    Table.empty

/-- The lines of the expression among the lines. -/
def expressionLines (lines : List TextLine) : List (List Char) :=
  lines.filterMap fun l =>
    match l with
    | .expression cs => some cs
    | _ => none

/-- The lines of a text. -/
def linesOf (cs : List Char) : List TextLine :=
  (Text.lines (sanitize cs)).map TextLine.ofChars

/-- A text taken apart. -/
def ofText (s : String) : SplitText :=
  let lines := linesOf s.toList
  { expression := trimChars (['\n'].intercalate (expressionLines lines))
    perInstance := settings .occurrence lines
    perAbility := settings .ability lines }

/-- The settings for abilities as a rotation holds them. -/
def abilityOverrides (t : SplitText) : Table (Option Overrides) :=
  t.perAbility.map some

/-- What is passed over when a text is taken apart. -/
def notices (s : String) : List Notice :=
  (linesOf s.toList).flatMap TextLine.notices

end SplitText

end AbilityRotation
