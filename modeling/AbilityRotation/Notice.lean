import AbilityRotation.Text.Quoted

/-!
Notices: what the library leaves out of its result without failing, and why.

A notice is a cause with the texts it concerns; `Notice.message` words it for people.
-/

namespace AbilityRotation

/-- What a settings line in a rotation text concerns. -/
inductive SettingsScope where
  /-- The one occurrence of an ability that carries the label. -/
  | occurrence
  /-- All occurrences of an ability. -/
  | ability
  deriving DecidableEq, Repr

/-- The name of a scope in messages. -/
def SettingsScope.name : SettingsScope → String
  | .occurrence => "per-instance"
  | .ability => "per-ability"

/-- Something that was left out of a result, with the reason. -/
inductive Notice where
  /-- A settings line without a target or without settings. -/
  | malformedLine (scope : SettingsScope) (line : String)
  /-- A part of a settings line that is no pair of key and value. -/
  | malformedPair (part line : String)
  /-- A truth value other than `true` and `false`. -/
  | invalidFlag (value key line : String)
  /-- A number of ticks that is no whole number in range. -/
  | invalidTicks (key value line : String)
  /-- A detection threshold that is no finite number. -/
  | invalidThreshold (value line : String)
  /-- A level that is no whole number. -/
  | invalidLevel (value line : String)
  /-- A key that names no setting. -/
  | unknownSetting (key line : String)
  /-- A setting that cannot be written because its value has a blank. -/
  | unwritableValue (key value : String)
  /-- Settings for an occurrence that has modifiers. -/
  | settingsDropped (label key : String) (modifiers : List String)
  /-- A treatment of adjacent words that does not exist. -/
  | unknownMode (mode : String)
  /-- Settings for an ability that does not occur. -/
  | abilityWithoutToken (key : String)
  /-- Settings for an ability whose key cannot stand on a settings line. -/
  | abilityWithBlank (key : String)
  /-- Settings for a label that does not occur. -/
  | labelWithoutToken (label : String)
  /-- A modifier that is defined a second time. -/
  | modifierReplaced (key : String)
  /-- A modifier alias that was another modifier's before. -/
  | aliasMoved (name old new : String)
  /-- An entry of a modifier catalog with a blank key. -/
  | modifierWithoutKey
  /-- A modifier that the catalog does not know. -/
  | unknownModifier (name ability : Option String)
  /-- A modifier that does not apply to the ability. -/
  | unsuitableModifier (modifier : String) (ability : Option String)
  deriving DecidableEq, Repr

namespace Notice

open Text (quoted)

/-- The name that stands for one that is not given. -/
def absentName : String :=
  "None"

/-- A notice in words. -/
def message : Notice → String
  | .malformedLine scope line =>
      "ignoring malformed " ++ scope.name ++ " settings line: " ++ quoted line
  | .malformedPair part line =>
      "ignoring malformed key/value pair " ++ quoted part ++ " in settings line " ++ quoted line
  | .invalidFlag value key line =>
      "ignoring invalid boolean " ++ quoted value ++ " for " ++ key ++ " in settings line " ++
        quoted line
  | .invalidTicks key value line =>
      "ignoring invalid " ++ key ++ " " ++ quoted value ++ " in settings line " ++ quoted line
  | .invalidThreshold value line =>
      "ignoring invalid detection_threshold " ++ quoted value ++ " in settings line " ++
        quoted line
  | .invalidLevel value line =>
      "ignoring invalid level " ++ quoted value ++ " in settings line " ++ quoted line
  | .unknownSetting key line =>
      "ignoring unknown settings key " ++ quoted key ++ " in settings line " ++ quoted line
  | .unwritableValue key value =>
      "skipping " ++ key ++ "=" ++ quoted value ++ ": value contains whitespace"
  | .settingsDropped label key modifiers =>
      "settings for label *" ++ label ++ " dropped: " ++ key ++ " carries modifiers " ++
        ",".intercalate modifiers
  | .unknownMode mode =>
      "unknown adjacent_words mode " ++ quoted mode ++ ", falling back to 'steps'"
  | .abilityWithoutToken key =>
      "per-ability settings for " ++ quoted key ++ " dropped: no matching token"
  | .abilityWithBlank key =>
      "per-ability settings for " ++ quoted key ++ " dropped: key contains whitespace"
  | .labelWithoutToken label =>
      "per-instance settings for label *" ++ label ++ " dropped: no matching label"
  | .modifierReplaced key => "duplicate modifier definition replaced: " ++ key
  | .aliasMoved name old new =>
      "modifier alias " ++ quoted name ++ " moved from " ++ old ++ " to " ++ new
  | .modifierWithoutKey => "modifier entry without key ignored"
  | .unknownModifier name ability =>
      "unknown modifier " ++ (name.map quoted).getD absentName ++ " on " ++
        ability.getD absentName ++ " skipped"
  | .unsuitableModifier modifier ability =>
      "modifier " ++ modifier ++ " does not apply to " ++ ability.getD absentName ++ ", skipped"

end Notice

end AbilityRotation
