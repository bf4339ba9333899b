import AbilityRotation.Ability.Overrides

/-!
Effective abilities: the data that count for one occurrence of an ability.

An effective ability starts from the data in the database and takes up overrides one after the
other.  Its ticks are natural numbers and its threshold, if it has one, lies between 0 and 1,
whatever the data and the overrides say; only a threshold too large for a floating-point number
is a fault.
* `EffectiveAbility.ofAbility` is the start, `EffectiveAbility.apply` takes up overrides.
-/

namespace AbilityRotation

open Number

/-- The data that count for one occurrence of an ability. -/
structure EffectiveAbility where
  /-- The key of the ability. -/
  key : String
  /-- Whether the ability triggers the global cooldown. -/
  triggersGcd : Bool
  /-- How long casting or channelling takes, in ticks. -/
  castDuration : Nat
  /-- The cooldown of the ability itself, in ticks. -/
  cooldown : Nat
  /-- The kind of the ability. -/
  type : Option String := none
  /-- The level the ability needs. -/
  level : Option Int := none
  /-- How sure a detection of the ability must be. -/
  detectionThreshold : Option Binary64 := none
  /-- The mask that a detection uses. -/
  mask : Option String := none
  deriving DecidableEq

namespace EffectiveAbility

/-- The threshold that takes effect once another one is set, or is not. -/
def thresholdAfter (old : Option Binary64) (new : Option Threshold) :
    Except Fault (Option Binary64) :=
  match new with
  | none => .ok old
  | some t => t.effective

/-- The data of the database, with ticks and threshold brought into range. -/
def ofAbility (key : String) (base : Ability) : Except Fault EffectiveAbility :=
  (thresholdAfter none base.detectionThreshold).map fun threshold =>
    { key := key
      triggersGcd := base.triggersGcd
      castDuration := base.castDuration.toNat
      cooldown := base.cooldown.toNat
      type := base.type
      level := base.level
      detectionThreshold := threshold
      mask := base.mask }

/-- The data with one set of overrides taken up: negative ticks and levels become zero, blank texts
override nothing, and a threshold that is not finite removes the old one. -/
def withOverrides (c : EffectiveAbility) (o : Overrides) : Except Fault EffectiveAbility :=
  (thresholdAfter c.detectionThreshold o.detectionThreshold).map fun threshold =>
    { key := c.key
      triggersGcd := o.triggersGcd.getD c.triggersGcd
      castDuration := (o.castDuration.map Int.toNat).getD c.castDuration
      cooldown := (o.cooldown.map Int.toNat).getD c.cooldown
      type := (o.type.bind Text.trimmed?).or c.type
      level := (o.level.map atLeastZero).or c.level
      detectionThreshold := threshold
      mask := (o.mask.bind Text.trimmed?).or c.mask }

/-- The data with overrides taken up, if there are any. -/
def apply (c : EffectiveAbility) (o : Option Overrides) : Except Fault EffectiveAbility :=
  match o with
  | none => .ok c
  | some o => c.withOverrides o

/-- Overrides without a field change nothing. -/
theorem withOverrides_empty (c : EffectiveAbility) : c.withOverrides Overrides.empty = .ok c := by
  simp [withOverrides, thresholdAfter, Overrides.empty, Except.map]

end EffectiveAbility

end AbilityRotation
