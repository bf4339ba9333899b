import AbilityRotation.Ability.Threshold
import AbilityRotation.Raw.Coercion

/-!
Abilities: what the ability database records about each of them.

Timing uses three of the data, `triggersGcd`, `castDuration` and `cooldown`; the others describe
the ability and are handed on.
* `Ability.ofRaw` reads an ability from a raw record, brings the ticks into range and treats blank
  texts and malformed numbers as absent.
* `Ability.toRaw` is the record of an ability.
-/

namespace AbilityRotation

open Number

/-- The largest number of ticks of a cast or a cooldown. -/
def maxTicks : Int := 32767

/-- The data of an ability. -/
structure Ability where
  /-- Whether the ability triggers the global cooldown. -/
  triggersGcd : Bool := true
  /-- How long casting or channelling takes, in ticks. -/
  castDuration : Int := 0
  /-- The cooldown of the ability itself, in ticks. -/
  cooldown : Int := 0
  /-- The name people use. -/
  commonName : Option String := none
  /-- The kind of the ability. -/
  type : Option String := none
  /-- The level the ability needs. -/
  level : Option Int := none
  /-- How sure a detection of the ability must be. -/
  detectionThreshold : Option Threshold := none
  /-- The mask that a detection uses. -/
  mask : Option String := none
  deriving DecidableEq

namespace Ability

/-- The ability that a raw record describes. -/
def ofRaw (r : Raw) : Except Fault Ability := do
  let level ← (r.field "level" Raw.null).integer?
  let castDuration ← (r.field "cast_duration" (Raw.whole 0)).integerOr 0
  let cooldown ← (r.field "cooldown" (Raw.whole 0)).integerOr 0
  let commonName ← (r.field "common_name" Raw.null).text?
  let type ← (r.field "type" Raw.null).text?
  let threshold ← (r.field "detection_threshold" Raw.null).real?
  let mask ← (r.field "mask" Raw.null).text?
  .ok
    { triggersGcd := (r.field "triggers_gcd" (Raw.flag true)).flagOr true
      castDuration := clamp 0 maxTicks castDuration
      cooldown := clamp 0 maxTicks cooldown
      commonName := commonName
      type := type
      level := level.map atLeastZero
      detectionThreshold := threshold.map .real
      mask := mask }

/-- An entry of a record for a value that may be absent. -/
def optionalEntry {α : Type} (name : String) (toRaw : α → Raw) (value : Option α) :
    List (Scalar × Raw) :=
  match value with
  | some a => [(.text name, toRaw a)]
  | none => []

/-- The record of an ability, without entries for absent data. -/
def toRaw (a : Ability) : Except Fault Raw := do
  let threshold ← a.detectionThreshold.mapM Threshold.toReal
  .ok (Raw.record
    ([(.text "triggers_gcd", Raw.flag a.triggersGcd),
      (.text "cast_duration", Raw.whole a.castDuration),
      (.text "cooldown", Raw.whole a.cooldown)] ++
      optionalEntry "common_name" Raw.text a.commonName ++
      optionalEntry "type" Raw.text a.type ++
      optionalEntry "level" Raw.whole a.level ++
      optionalEntry "detection_threshold" Raw.real threshold ++
      optionalEntry "mask" Raw.text a.mask))

end Ability

end AbilityRotation
