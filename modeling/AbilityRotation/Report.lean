import AbilityRotation.Rotation.Diagnostic
import AbilityRotation.Rotation.Render

/-!
The report about a rotation text that the command line prints.

The report lists the diagnostics, then the tree of the rotation with its uses of abilities, and
last its canonical text.
* `Report.ofText` is the report and the exit code for a text.
* `Report.textOfArguments?` is the text that arguments of the command line give.
-/

namespace AbilityRotation

/-- What is printed about a text, and the exit code. -/
structure Report where
  /-- The printed lines. -/
  lines : List String
  /-- Zero if there is no error. -/
  exitCode : Nat
  deriving DecidableEq, Repr

namespace Report

/-- A list of texts as it is printed. -/
def shownTexts (ss : List String) : String :=
  "[" ++ ", ".intercalate (ss.map Text.quoted) ++ "]"

/-- The settings of an occurrence as they are printed. -/
def shownOverrides (o : Overrides) : String :=
  o.toRaw.write.toOption.getD ""

/-- The use of an ability on one line. -/
def useLine (use : AbilityUse) : String :=
  let modifiers :=
    if use.modifiers.isEmpty then "" else " modifiers=" ++ shownTexts use.modifiers
  let label :=
    match use.label with
    | some l => " label=*" ++ l
    | none => ""
  let overrides :=
    match use.overrides with
    | some o => " overrides=" ++ shownOverrides o
    | none => ""
  use.key ++ modifiers ++ label ++ overrides

/-- The heading of a numbered part. -/
def heading (indent name : String) (index : Nat) : String :=
  indent ++ name ++ " " ++ Number.wholeText index

mutual

/-- The lines about an alternative. -/
def linesOfAlternative (indent : String) : Alternative → List String
  | .ability use => [indent ++ "    " ++ useLine use]
  | .marker text kind => [indent ++ "    (" ++ kind ++ ") " ++ text]
  | .group steps _ => (indent ++ "    group") :: linesOfSteps (indent ++ "      ") 0 steps

/-- The lines about the alternatives of a term. -/
def linesOfTerm (indent : String) : List Alternative → List String
  | [] => []
  | a :: rest => linesOfAlternative indent a ++ linesOfTerm indent rest

/-- The lines about terms, the first of which has the given index. -/
def linesOfStep (indent : String) (index : Nat) : List (List Alternative) → List String
  | [] => []
  | t :: rest =>
      heading (indent ++ "  ") "term" index :: linesOfTerm indent t ++
        linesOfStep indent (index + 1) rest

/-- The lines about steps, the first of which has the given index. -/
def linesOfSteps (indent : String) (index : Nat) : List (List (List Alternative)) → List String
  | [] => []
  | s :: rest =>
      heading indent "step" index :: linesOfStep indent 0 s ++
        linesOfSteps indent (index + 1) rest

end

/-- The report about a compiled text. -/
def ofCompilation (c : Compilation) : Report :=
  let found := c.diagnostics.map Diagnostic.line
  match c.rotation with
  | none => ⟨found, 1⟩
  | some r =>
      ⟨found ++ linesOfSteps "" 0 r.steps ++ [r.render true], if c.isOk then 0 else 1⟩

/-- The report about a text. -/
def ofText (text : String) : Except AbilityUse.BuildFault Report :=
  (Rotation.compile {} none text).map ofCompilation

/-- What the report prints. -/
def output (r : Report) : String :=
  String.join (r.lines.map (· ++ "\n"))

/-- The text that arguments of the command line give; without arguments it is read from the
input. -/
def textOfArguments? (args : List String) : Option String :=
  if args.isEmpty then none else some (" ".intercalate args)

end Report

end AbilityRotation
