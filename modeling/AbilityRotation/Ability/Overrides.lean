import AbilityRotation.Ability.Data

/-!
Overrides: settings that replace some of an ability's data.

Overrides come from the settings lines of a rotation, for one occurrence or for all of them, and
from modifiers.
* `Overrides.laidOver` lays one set of overrides over another, field by field; `laidOver_empty`,
  `empty_laidOver` and `laidOver_assoc` make it a monoid with `Overrides.empty`.
* `Overrides.merge` does the same where either set may be missing; overrides without any field are
  the same as none.
-/

namespace AbilityRotation

open Number

/-- Settings that replace data of an ability; a field without a value keeps what was there. -/
structure Overrides where
  /-- The kind of the ability. -/
  type : Option String := none
  /-- The level the ability needs. -/
  level : Option Int := none
  /-- Whether the ability triggers the global cooldown. -/
  triggersGcd : Option Bool := none
  /-- How long casting or channelling takes, in ticks. -/
  castDuration : Option Int := none
  /-- The cooldown of the ability itself, in ticks. -/
  cooldown : Option Int := none
  /-- How sure a detection of the ability must be. -/
  detectionThreshold : Option Threshold := none
  /-- The mask that a detection uses. -/
  mask : Option String := none
  deriving DecidableEq

namespace Overrides

/-- No overrides. -/
def empty : Overrides := {}

instance : Inhabited Overrides := ⟨empty⟩

/-- Whether no field has a value. -/
def isEmpty (o : Overrides) : Bool :=
  o.type.isNone && o.level.isNone && o.triggersGcd.isNone && o.castDuration.isNone &&
    o.cooldown.isNone && o.detectionThreshold.isNone && o.mask.isNone

/-- The fields of `top` where it has them, and those of `base` elsewhere. -/
def laidOver (top base : Overrides) : Overrides where
  type := top.type.or base.type
  level := top.level.or base.level
  triggersGcd := top.triggersGcd.or base.triggersGcd
  castDuration := top.castDuration.or base.castDuration
  cooldown := top.cooldown.or base.cooldown
  detectionThreshold := top.detectionThreshold.or base.detectionThreshold
  mask := top.mask.or base.mask

/-- The overrides, or nothing if they have no field. -/
def nonempty? (o : Overrides) : Option Overrides :=
  if o.isEmpty then none else some o

/-- One set of overrides laid over another: the fields of `delta` count where it has them. -/
def merge (base delta : Option Overrides) : Option Overrides :=
  ((delta.getD empty).laidOver (base.getD empty)).nonempty?

/-- Overrides are empty exactly if they are the ones without a field. -/
theorem isEmpty_iff (o : Overrides) : o.isEmpty = true ↔ o = empty := by
  obtain ⟨t, l, g, c, d, h, m⟩ := o
  simp [isEmpty, empty, and_assoc]

/-- Laid over nothing, overrides are what they were. -/
@[simp] theorem laidOver_empty (o : Overrides) : o.laidOver empty = o := by
  simp [laidOver, empty]

/-- Overrides without a field leave what is below them as it was. -/
@[simp] theorem empty_laidOver (o : Overrides) : empty.laidOver o = o := by
  simp [laidOver, empty]

/-- Of three sets of overrides it does not matter which two are laid over each other first. -/
theorem laidOver_assoc (a b c : Overrides) :
    (a.laidOver b).laidOver c = a.laidOver (b.laidOver c) := by
  simp [laidOver, Option.or_assoc]

/-- Overrides without a field are the same as none. -/
@[simp] theorem getD_nonempty? (o : Overrides) : o.nonempty?.getD empty = o := by
  rw [nonempty?]
  split
  · next h => exact ((isEmpty_iff o).mp h).symm
  · rfl

/-- The overrides that a raw record describes: blank texts and malformed numbers are absent. -/
def ofRaw (r : Raw) : Except Fault Overrides := do
  let type ← (r.field "type" Raw.null).text?
  let level ← (r.field "level" Raw.null).integer?
  let castDuration ← (r.field "cast_duration" Raw.null).integer?
  let cooldown ← (r.field "cooldown" Raw.null).integer?
  let threshold ← (r.field "detection_threshold" Raw.null).real?
  let mask ← (r.field "mask" Raw.null).text?
  .ok
    { type := type
      level := level
      triggersGcd := (r.field "triggers_gcd" Raw.null).flag?
      castDuration := castDuration
      cooldown := cooldown
      detectionThreshold := threshold.map .real
      mask := mask }

/-- The raw value of a threshold as it was set. -/
def thresholdToRaw : Threshold → Raw
  | .real x => Raw.real x
  | .whole n => Raw.whole n

/-- The record of overrides, without entries for absent fields. -/
def toRaw (o : Overrides) : Raw :=
  .record
    (Ability.optionalEntry "type" Raw.text o.type ++
      Ability.optionalEntry "level" Raw.whole o.level ++
      Ability.optionalEntry "triggers_gcd" Raw.flag o.triggersGcd ++
      Ability.optionalEntry "cast_duration" Raw.whole o.castDuration ++
      Ability.optionalEntry "cooldown" Raw.whole o.cooldown ++
      Ability.optionalEntry "detection_threshold" thresholdToRaw o.detectionThreshold ++
      Ability.optionalEntry "mask" Raw.text o.mask)

end Overrides

end AbilityRotation
