import AbilityRotation.Ability.Effective

/-!
Timing of single abilities.

A profile holds what matters for timing, in ticks.  An ability keeps the character busy for its
cast or, if it is not cast, for the global cooldown if it triggers that; and for its own cooldown
if that is longer (`TimingProfile.effectiveTicks`).
-/

namespace AbilityRotation

/-- The parameters of timing. -/
structure TimingConfig where
  /-- The length of a tick in milliseconds. -/
  tickMs : Int := 600
  /-- The ticks of the global cooldown. -/
  defaultGcdTicks : Int := 3
  deriving DecidableEq, Repr

namespace TimingConfig

open Number

/-- The parameters that a raw record describes, brought into range. -/
def ofRaw (r : Raw) : Except Fault TimingConfig := do
  let tickMs ← (r.field "tick_ms" (Raw.whole 600)).integerOr 600
  let defaultGcdTicks ← (r.field "default_gcd_ticks" (Raw.whole 3)).integerOr 3
  .ok ⟨clamp 1 60000 tickMs, clamp 0 100 defaultGcdTicks⟩

end TimingConfig

/-- What matters about an ability for timing. -/
structure TimingProfile where
  /-- The key of the ability. -/
  key : String
  /-- Whether the ability triggers the global cooldown. -/
  triggersGcd : Bool
  /-- How long casting or channelling takes, in ticks. -/
  castTicks : Nat
  /-- The cooldown of the ability itself, in ticks. -/
  cooldownTicks : Nat
  /-- The ticks of the global cooldown where they differ from the usual ones for a while. -/
  gcdOverride : Option Nat := none
  deriving DecidableEq, Repr

namespace TimingProfile

/-- The profile of an ability with the given ticks; negative ones count as zero. -/
def ofTicks (key : String) (triggersGcd : Bool) (castTicks cooldownTicks : Int)
    (gcdOverride : Option Int) : TimingProfile :=
  ⟨key, triggersGcd, castTicks.toNat, cooldownTicks.toNat, gcdOverride.map Int.toNat⟩

/-- The profile of an effective ability. -/
def ofEffective (e : EffectiveAbility) : TimingProfile :=
  ⟨e.key, e.triggersGcd, e.castDuration, e.cooldown, none⟩

/-- The profile with other ticks of the global cooldown. -/
def withGcdOverride (p : TimingProfile) (ticks : Option Int) : TimingProfile :=
  { p with gcdOverride := ticks.map Int.toNat }

/-- The ticks for which the ability keeps its step busy. -/
def effectiveTicks (p : TimingProfile) (defaultGcdTicks : Int) : Nat :=
  let busy :=
    if 0 < p.castTicks then p.castTicks
    else if p.triggersGcd then p.gcdOverride.getD defaultGcdTicks.toNat
    else 0
  max busy p.cooldownTicks

end TimingProfile

end AbilityRotation
