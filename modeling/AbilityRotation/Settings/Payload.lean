import AbilityRotation.Ability.Overrides
import AbilityRotation.Notice

/-!
Settings written as pairs of key and value.

A payload such as `level=5 triggers_gcd=false` is a row of words of the form `key=value`.  Every
pair stands for itself: it either sets one field, or it is passed over with a notice, and a later
pair overrides an earlier one.
* `Settings.readPair` reads one pair, `Settings.read` a payload.
* `Settings.write` is the payload of overrides; texts with a blank cannot be written and are passed
  over (`Settings.writeNotices`).
-/

namespace AbilityRotation

namespace Settings

open Number

/-! ### Reading -/

/-- The truth value that a word names. -/
def flagWord? (value : List Char) : Option Bool :=
  let word := Text.lowerCaseAfter false value
  if word = "true".toList then some true
  else if word = "false".toList then some false
  else none

/-- The number of ticks that a word writes. -/
def ticks? (value : List Char) : Option Int :=
  (whole? value).filter fun n => decide (0 ≤ n) && decide (n ≤ maxTicks)

/-- The threshold that a word writes, brought between 0 and 1. -/
def threshold? (value : List Char) : Option Binary64 :=
  (Binary64.ofChars? value).bind Binary64.inUnitInterval

/-- The value, or the notice that there is none. -/
def orNotice {α : Type} (notice : Notice) : Option α → Except Notice α
  | some a => .ok a
  | none => .error notice

/-- The one field that a key in lower case and a value set, or why they set none.  The settings
line `line` is only mentioned in notices. -/
def readField (line key : String) (value : List Char) : Except Notice Overrides :=
  let shown := String.ofList value
  if key = "triggers_gcd" ∨ key = "gcd_cooldown" then
    (orNotice (.invalidFlag shown key line) (flagWord? value)).map
      fun b => { triggersGcd := some b }
  else if key = "cast_duration" then
    (orNotice (.invalidTicks key shown line) (ticks? value)).map
      fun n => { castDuration := some n }
  else if key = "cooldown" then
    (orNotice (.invalidTicks key shown line) (ticks? value)).map
      fun n => { cooldown := some n }
  else if key = "detection_threshold" then
    (orNotice (.invalidThreshold shown line) (threshold? value)).map
      fun x => { detectionThreshold := some (.real x) }
  else if key = "level" then
    (orNotice (.invalidLevel shown line) (whole? value)).map
      fun n => { level := some (atLeastZero n) }
  else if key = "mask" then .ok { mask := some shown }
  else if key = "type" then .ok { type := some shown }
  else .error (.unknownSetting key line)

/-- The one field that a word sets, or why it sets none. -/
def readPair (line : String) (part : List Char) : Except Notice Overrides :=
  let key := Text.lowerCaseAfter false (part.takeWhile (· != '='))
  match part.dropWhile (· != '=') with
  | _ :: c :: rest =>
      if key.isEmpty then .error (.malformedPair (String.ofList part) line)
      else readField line (String.ofList key) (c :: rest)
  | _ => .error (.malformedPair (String.ofList part) line)

/-- The fields that the words of a payload set, one each. -/
def fields (line : String) (parts : List (List Char)) : List Overrides :=
  parts.filterMap fun part => (readPair line part).toOption

/-- The overrides that a payload sets, if it sets any. -/
def read (payload : List Char) (line : String) : Option Overrides :=
  (fields line (Text.words payload)).foldl (fun acc o => Overrides.merge acc (some o)) none

/-- Which words of a payload are passed over. -/
def readNotices (payload : List Char) (line : String) : List Notice :=
  (Text.words payload).filterMap fun part =>
    match readPair line part with
    | .ok _ => none
    | .error notice => some notice

/-! ### Writing -/

/-- A pair of key and value in writing. -/
def pair (key value : String) : String :=
  key ++ "=" ++ value

/-- A text as a pair; an empty text and one with a blank cannot be written. -/
def textPair (key : String) (value : Option String) : List String :=
  match value with
  | some s => if s.isEmpty || Text.hasBlank s then [] else [pair key s]
  | none => []

/-- The notice that a text cannot be written because it has a blank. -/
def textNotice (key : String) (value : Option String) : List Notice :=
  match value with
  | some s => if Text.hasBlank s then [.unwritableValue key s] else []
  | none => []

/-- A value as a pair, if there is one. -/
def valuePair {α : Type} (key : String) (value : Option α) (text : α → Except Fault String) :
    Except Fault (List String) :=
  match value with
  | some a => (text a).map fun s => [pair key s]
  | none => .ok []

/-- The word for a truth value. -/
def flagText (b : Bool) : String :=
  if b then "true" else "false"

/-- The pairs of overrides, in the order in which they are written. -/
def pairs (o : Overrides) : Except Fault (List String) := do
  let level ← valuePair "level" o.level writeWhole
  let castDuration ← valuePair "cast_duration" o.castDuration writeWhole
  let cooldown ← valuePair "cooldown" o.cooldown writeWhole
  let threshold ← valuePair "detection_threshold" o.detectionThreshold Threshold.write
  .ok (textPair "type" o.type ++ level ++
    (o.triggersGcd.map fun b => pair "triggers_gcd" (flagText b)).toList ++
    castDuration ++ cooldown ++ threshold ++ textPair "mask" o.mask)

/-- The payload of overrides; without overrides it is empty. -/
def write (o : Option Overrides) : Except Fault String :=
  match o with
  | none => .ok ""
  | some o => (pairs o).map (" ".intercalate ·)

/-- Which fields of overrides cannot be written. -/
def writeNotices (o : Option Overrides) : List Notice :=
  match o with
  | none => []
  | some o => textNotice "type" o.type ++ textNotice "mask" o.mask

end Settings

end AbilityRotation
