import AbilityRotation.Rotation.Parse
import AbilityRotation.Rotation.Render

/-!
Exporting a rotation text.

A plain export is the expression alone, without labels.  A full export is the expression with its
labels, then a settings line for each ability in the order of the keys, then one for each label in
the order of their numbers.  Settings whose target does not occur are left out with a notice.
No names of abilities are given for an export, so that a parenthesis around such a name alone may be
a tooltip there.
* `Rotation.exportPlain` and `Rotation.exportFull` export a text.
* `Rotation.exportNotices` says what a full export leaves out.
-/

namespace AbilityRotation

open Number

namespace Rotation

/-- The expression of a text, without labels.  No names of abilities are known. -/
def exportPlain (catalog : Catalog) (adjacentWords : AdjacentWords) (text : String) :
    Except Fault String :=
  (parse { catalog, adjacentWords } text).map fun r => r.render false

/-! ### The order of labels -/

/-- The place of a label among others: numbers come first, in their order, then other texts. -/
inductive LabelRank where
  /-- A label that is a number. -/
  | number (n : Int)
  /-- Any other label. -/
  | other (label : String)
  deriving DecidableEq, Repr

/-- Whether a label does not come after another. -/
def LabelRank.le : LabelRank → LabelRank → Bool
  | .number m, .number n => decide (m ≤ n)
  | .number _, .other _ => true
  | .other _, .number _ => false
  | .other s, .other t => decide (s ≤ t)

/-- The place of a label.  A label of digit signs has none if they do not write a number. -/
def rank (label : String) : Except Number.Fault LabelRank :=
  let cs := label.toList
  if !cs.isEmpty && cs.all Text.isDigitSign then
    match whole? cs with
    | some n => .ok (.number n)
    | none => .error .malformed
  else .ok (.other label)

/-- The entries of settings for labels, in the order of the labels. -/
def sortedByLabel (t : Table Overrides) : Except Number.Fault (List (String × Overrides)) := do
  let ranked ← t.entries.mapM fun e => (rank e.1).map fun k => (k, e)
  .ok ((ranked.mergeSort fun a b => a.1.le b.1).map (·.2))

/-- The entries of settings for abilities, in the order of the keys. -/
def sortedByKey (t : Table Overrides) : List (String × Overrides) :=
  t.entries.mergeSort fun a b => decide (a.1 ≤ b.1)

/-! ### Settings lines -/

/-- The settings line of a target, if there is anything to write. -/
def settingsLine (mark : String) (e : String × Overrides) : Except Number.Fault (List String) :=
  (Settings.write (some e.2)).map fun payload =>
    if payload.isEmpty then [] else [mark ++ e.1 ++ " " ++ payload]

/-- The settings lines of entries. -/
def settingsLines (mark : String) :
    List (String × Overrides) → Except Number.Fault (List String)
  | [] => .ok []
  | e :: rest => do
      let line ← settingsLine mark e
      let lines ← settingsLines mark rest
      .ok (line ++ lines)

/-- Why settings for an ability are left out of an export of `r`, if they are. -/
def abilityNotice? (r : Rotation) (key : String) : Option Notice :=
  if key ∉ r.abilityKeys then some (.abilityWithoutToken key)
  else if Text.hasBlank key then some (.abilityWithBlank key)
  else none

/-- Why settings for a label are left out of an export of `r`, if they are. -/
def labelNotice? (r : Rotation) (label : String) : Option Notice :=
  if label ∈ r.labels then none else some (.labelWithoutToken label)

/-- The lines of a full export of `r` with the given settings. -/
def exportLines (r : Rotation) (perInstance perAbility : Table Overrides) :
    Except Number.Fault (List String) := do
  let abilityLines ← settingsLines "#@"
    ((sortedByKey perAbility).filter fun e => (r.abilityNotice? e.1).isNone)
  let labelled ← sortedByLabel perInstance
  let labelLines ← settingsLines "#*" (labelled.filter fun e => (r.labelNotice? e.1).isNone)
  .ok (r.render true :: (abilityLines ++ labelLines))

/-- What a full export of `r` with the given settings leaves out. -/
def exportLinesNotices (r : Rotation) (perInstance perAbility : Table Overrides) :
    Except Number.Fault (List Notice) := do
  let labelled ← sortedByLabel perInstance
  .ok
    ((sortedByKey perAbility).flatMap (fun e =>
        match r.abilityNotice? e.1 with
        | some notice => [notice]
        | none => Settings.writeNotices (some e.2)) ++
      labelled.flatMap fun e =>
        match r.labelNotice? e.1 with
        | some notice => [notice]
        | none => Settings.writeNotices (some e.2))

/-- Why a text cannot be exported. -/
inductive ExportFault where
  /-- The text is no rotation. -/
  | rotation (fault : Fault)
  /-- A number cannot be read or written. -/
  | number (fault : Number.Fault)
  deriving DecidableEq, Repr

/-- The full export of a text.  Settings that are not given are those of the text itself. -/
def exportFull (catalog : Catalog) (adjacentWords : AdjacentWords) (text : String)
    (perInstance perAbility : Option (Table Overrides)) : Except ExportFault String :=
  match parse { catalog, adjacentWords } text with
  | .error fault => .error (.rotation fault)
  | .ok r =>
      let own := SplitText.ofText text
      match exportLines r (perInstance.getD own.perInstance) (perAbility.getD own.perAbility) with
      | .error fault => .error (.number fault)
      | .ok lines => .ok (Text.joinLines lines)

/-- What a full export of a text passes over: in reading the text, in taking it apart once more
for its settings, and in writing them. -/
def exportNotices (catalog : Catalog) (adjacentWords : AdjacentWords) (text : String)
    (perInstance perAbility : Option (Table Overrides)) : List Notice :=
  match parse { catalog, adjacentWords } text with
  | .error _ => []
  | .ok r =>
      let own := SplitText.ofText text
      parseNotices text r ++ SplitText.notices text ++
        (exportLinesNotices r (perInstance.getD own.perInstance)
          (perAbility.getD own.perAbility)).toOption.getD []

end Rotation

end AbilityRotation
