import AbilityRotation.Ability.Database
import AbilityRotation.Rotation.Address
import AbilityRotation.Rotation.Parse

/-!
Compiling a rotation: reading it and checking what it refers to.

A finding is a cause with the address it concerns; a diagnostic is the same in words.  A malformed
text has one finding and no rotation.  Otherwise the findings follow the uses of abilities from left
to right, and settings without an ability come last.  An ability that cannot be used as asked is no
finding but a fault of the compiling, which no text leads to.
* `Rotation.findings` are the findings about a rotation.
* `Rotation.compile` reads and checks a text; `Compilation.isOk` tells whether nothing is wrong.
* `Diagnostic.line` is a diagnostic on one line.
-/

namespace AbilityRotation

/-- How bad a finding is. -/
inductive Severity where
  /-- The rotation cannot be carried out as it is. -/
  | error
  /-- Something has no effect. -/
  | warning
  /-- Something may have been forgotten. -/
  | info
  deriving DecidableEq, Repr

/-- The name of a severity. -/
def Severity.name : Severity → String
  | .error => "error"
  | .warning => "warning"
  | .info => "info"

/-! ### Diagnostics -/

/-- A finding in words. -/
structure Diagnostic where
  /-- The name of the cause for programs. -/
  code : String
  /-- How bad it is. -/
  severity : Severity
  /-- The path of what it concerns. -/
  path : String
  /-- The cause in words. -/
  message : String
  /-- The key, label or place that it concerns. -/
  detail : String := ""
  deriving DecidableEq, Repr

namespace Diagnostic

/-- A diagnostic; without a path it concerns the whole rotation. -/
def make (severity : Severity) (code path message detail : String) : Diagnostic :=
  ⟨code, severity, if path.isEmpty then Address.root else path, message, detail⟩

/-- Whether the diagnostic is an error. -/
def isError (d : Diagnostic) : Bool :=
  d.severity == .error

/-- The diagnostic on one line. -/
def line (d : Diagnostic) : String :=
  let main := "[" ++ d.severity.name ++ "] " ++ d.code ++ " " ++ d.path ++ ": " ++ d.message
  if d.detail.isEmpty then main else main ++ " (" ++ d.detail ++ ")"

end Diagnostic

/-! ### Findings -/

/-- What is found about a rotation. -/
inductive Finding where
  /-- The text is malformed. -/
  | unreadable (fault : ParseFault)
  /-- An ability that the database does not know. -/
  | unknownAbility (key : String)
  /-- A modifier that the catalog does not know. -/
  | unknownModifier (key : String)
  /-- A label without settings. -/
  | unusedLabel (label : String)
  /-- Settings for an occurrence that has modifiers. -/
  | settingsDropped (label : String)
  /-- Settings for an ability that does not occur. -/
  | unusedSettings (key : String)
  deriving DecidableEq, Repr

namespace Finding

/-- How bad a finding is. -/
def severity : Finding → Severity
  | .unreadable _ => .error
  | .unknownAbility _ => .error
  | .unknownModifier _ => .warning
  | .unusedLabel _ => .info
  | .settingsDropped _ => .warning
  | .unusedSettings _ => .warning

/-- A finding in words, with the path of what it concerns. -/
def diagnostic (f : Finding) (path : String) : Diagnostic :=
  match f with
  | .unreadable fault =>
      .make f.severity fault.cause.code path fault.cause.message
        ("pos=" ++ Number.wholeText fault.position)
  | .unknownAbility key => .make f.severity "ability.unknown" path "引用了不存在的技能" key
  | .unknownModifier key =>
      .make f.severity "modifier.unknown" path "未知修饰符，解算时会被忽略" key
  | .unusedLabel label => .make f.severity "label.unused" path "标签没有对应的 #* 设置行" label
  | .settingsDropped label =>
      .make f.severity "label.settings_dropped" path "带修饰符的技能不接受单实例设置" label
  | .unusedSettings key =>
      .make f.severity "ability_settings.unused" path "#@ 设置行没有对应的技能" key

end Finding

/-- A finding with the address it concerns. -/
structure LocatedFinding where
  /-- What is found. -/
  finding : Finding
  /-- The address of the alternative, or the empty one for the whole rotation. -/
  address : Address
  deriving DecidableEq, Repr

/-- A finding in words. -/
def LocatedFinding.diagnostic (f : LocatedFinding) : Diagnostic :=
  f.finding.diagnostic f.address.text

/-- What a rotation is checked against. -/
structure CheckContext where
  /-- The known abilities; without a database every ability counts as known. -/
  database : Option Database
  /-- The known modifiers. -/
  catalog : Catalog
  /-- The settings of single occurrences, under their labels. -/
  perInstance : Table Overrides

namespace CheckContext

/-- What is found about one use of an ability. -/
def findingsOfUse (c : CheckContext) (use : AbilityUse) : List Finding :=
  let unknown :=
    if c.database.any fun db => (db.lookup use.key).isNone then [.unknownAbility use.key] else []
  let modifiers :=
    (use.modifiers.filter fun m => (c.catalog.definition? m).isNone).map Finding.unknownModifier
  let label :=
    match use.label with
    | none => []
    | some l =>
        if !c.perInstance.contains l then [.unusedLabel l]
        else if !use.modifiers.isEmpty then [.settingsDropped l]
        else []
  unknown ++ modifiers ++ label

mutual

/-- What is found about an alternative and what it holds; `outside` leads to the rotation or group
that holds it. -/
def findingsOfAlternative (c : CheckContext) (outside : Address) (p : Place) :
    Alternative → List LocatedFinding
  | .ability use => (c.findingsOfUse use).map fun f => ⟨f, outside ++ [p]⟩
  | .marker _ _ => []
  | .group steps _ => findingsOfSteps c (outside ++ [p]) 0 steps

/-- What is found about alternatives, the first of which has the place `p`. -/
def findingsOfTerm (c : CheckContext) (outside : Address) (p : Place) :
    List Alternative → List LocatedFinding
  | [] => []
  | a :: rest =>
      findingsOfAlternative c outside p a ++
        findingsOfTerm c outside ⟨p.step, p.term, p.alternative + 1⟩ rest

/-- What is found about the terms of the step `step`, the first of which has the index `term`. -/
def findingsOfStep (c : CheckContext) (outside : Address) (step term : Nat) :
    List (List Alternative) → List LocatedFinding
  | [] => []
  | t :: rest =>
      findingsOfTerm c outside ⟨step, term, 0⟩ t ++ findingsOfStep c outside step (term + 1) rest

/-- What is found about steps, the first of which has the index `step`. -/
def findingsOfSteps (c : CheckContext) (outside : Address) (step : Nat) :
    List (List (List Alternative)) → List LocatedFinding
  | [] => []
  | s :: rest =>
      findingsOfStep c outside step 0 s ++ findingsOfSteps c outside (step + 1) rest

end

end CheckContext

/-! ### Compiling -/

/-- The outcome of compiling a text. -/
structure Compilation where
  /-- The rotation, if the text is one. -/
  rotation : Option Rotation
  /-- What is found. -/
  findings : List LocatedFinding

namespace Compilation

/-- What is found, in words. -/
def diagnostics (c : Compilation) : List Diagnostic :=
  c.findings.map LocatedFinding.diagnostic

/-- The errors among the diagnostics. -/
def errors (c : Compilation) : List Diagnostic :=
  c.diagnostics.filter Diagnostic.isError

/-- Whether there is a rotation and no error. -/
def isOk (c : Compilation) : Bool :=
  c.rotation.isSome && c.errors.isEmpty

end Compilation

namespace Rotation

/-- What is found about a rotation. -/
def findings (c : CheckContext) (r : Rotation) : List LocatedFinding :=
  c.findingsOfSteps [] 0 r.steps ++
    (r.abilityOverrides.keys.filter fun key => key ∉ r.abilityKeys).map
      fun key => ⟨.unusedSettings key, []⟩

/-- The rotation of a text and what is found about it. -/
def compile (options : ParseOptions) (database : Option Database) (text : String) :
    Except AbilityUse.BuildFault Compilation :=
  match parse options text with
  | .error (.parse fault) => .ok ⟨none, [⟨.unreadable fault, []⟩]⟩
  | .error (.build fault) => .error fault
  | .ok r =>
      .ok ⟨some r, r.findings ⟨database, options.catalog, (SplitText.ofText text).perInstance⟩⟩

end Rotation

end AbilityRotation
