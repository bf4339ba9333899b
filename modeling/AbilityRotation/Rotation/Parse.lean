import AbilityRotation.Rotation.Descent
import AbilityRotation.Settings.Split
import AbilityRotation.Token.Boundary

/-!
Reading a rotation from its text.

The text is taken apart into expression and settings, the expression is cut into tokens, and the
tokens are read by the grammar.  A text without an expression is the rotation without steps.
* `Rotation.parse` reads a text, `Rotation.parseNotices` says what is passed over.
* `AdjacentWords.ofRaw` reads the treatment of adjacent words from a raw record.
-/

namespace AbilityRotation

open Number

/-! ### The treatment of adjacent words -/

namespace AdjacentWords

/-- The name of a treatment. -/
def name : AdjacentWords → String
  | .steps => "steps"
  | .error => "error"
  | .join => "join"

/-- The treatment with a name. -/
def ofName? (s : String) : Option AdjacentWords :=
  [steps, error, join].find? fun m => m.name == s

/-- What is said about a value, as it is shown, that names no treatment. -/
def unknownMessage (shown : String) : String :=
  "adjacent_words must be one of ('steps', 'error', 'join'), got " ++ shown

/-- The treatment that a raw record asks for, with a notice if it does not exist. -/
def ofRaw (r : Raw) : Except Fault (AdjacentWords × List Notice) := do
  let asked ← (r.field "adjacent_words" (Raw.text "steps")).textOr "steps"
  match normalizeKey asked with
  | none => .ok (.steps, [])
  | some key =>
      match ofName? key with
      | some m => .ok (m, [])
      | none => .ok (.steps, [.unknownMode key])

end AdjacentWords

/-! ### Parsing -/

/-- What the meaning of a rotation text depends on. -/
structure ParseOptions where
  /-- The known modifiers. -/
  catalog : Catalog := Catalog.default
  /-- What is done about neighbouring abilities. -/
  adjacentWords : AdjacentWords := .steps
  /-- Names of abilities; a parenthesis around one of them is a group. -/
  names : List String := []

namespace Rotation

/-- Why a text is no rotation. -/
inductive Fault where
  /-- The text cannot be read. -/
  | parse (fault : ParseFault)
  /-- An ability cannot be used as asked. -/
  | build (fault : AbilityUse.BuildFault)
  deriving DecidableEq, Repr

/-- The fault of a stop of the descent through `ts`: its position is the number of tokens that were
read before it. -/
def faultOfStop (ts : List Token) (s : Descent.Stop) : Fault :=
  match s.reason with
  | .malformed cause => .parse ⟨cause, ts.length - s.rest.length⟩
  | .unbuildable fault => .build fault

/-- The steps that tokens describe. -/
def stepsOfTokens (rules : Rules) (ts : List Token) : Except Fault (List Step) :=
  match Descent.all rules ts with
  | .ok steps => .ok steps
  | .error s => .error (faultOfStop ts s)

/-- The rules of the grammar for a text with the given settings of single occurrences. -/
def rulesOf (options : ParseOptions) (perInstance : Table Overrides) : Rules :=
  ⟨options.catalog, options.adjacentWords, perInstance⟩

/-- The rotation of a text that is taken apart. -/
def ofSplit (options : ParseOptions) (t : SplitText) : Except Fault Rotation :=
  if t.expression.isEmpty then .ok ⟨[], t.abilityOverrides⟩
  else
    match Token.ofChars options.names t.expression with
    | .error fault => .error (.parse fault)
    | .ok tokens =>
        match stepsOfTokens (rulesOf options t.perInstance) tokens with
        | .error fault => .error fault
        | .ok steps => .ok ⟨steps, t.abilityOverrides⟩

/-- The rotation that a text describes. -/
def parse (options : ParseOptions) (text : String) : Except Fault Rotation :=
  ofSplit options (SplitText.ofText text)

/-- The notice that the settings for an occurrence do not count, since it has modifiers. -/
def droppedNotice? (perInstance : Table Overrides) (use : AbilityUse) : Option Notice :=
  match use.label with
  | some label =>
      if !use.modifiers.isEmpty && perInstance.contains label then
        some (.settingsDropped label use.key use.modifiers)
      else none
  | none => none

/-- What is passed over when a text is read as the rotation `r`. -/
def parseNotices (text : String) (r : Rotation) : List Notice :=
  SplitText.notices text ++
    r.abilities.filterMap (droppedNotice? (SplitText.ofText text).perInstance)

end Rotation

end AbilityRotation
