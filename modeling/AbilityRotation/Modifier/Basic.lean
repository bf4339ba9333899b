import AbilityRotation.Ability.Overrides
import AbilityRotation.Text.Wildcard

/-!
Modifiers: weapons and the like that change how an ability is timed.

A modifier has a key, the aliases under which rotation texts mention it, patterns for the abilities
it may be fused onto, and an effect.  Keys, aliases and patterns are kept trimmed and in lower case
(`normalizeKey`), the key is always the first alias, and no alias occurs twice.
* `Modifier.build` makes a modifier of texts in any spelling.
* `Modifier.accepts` tells whether an ability may carry the modifier.
* `Modifier.ofRaw` and `Modifier.toRaw` go to and from raw records.
-/

namespace AbilityRotation

open Number

/-- A name trimmed and in lower case; a blank name is none. -/
def normalizeKey (s : String) : Option String :=
  (Text.trimmed? s).map Text.lowerCase

/-- The normalized name that a scalar gives; the absent value gives none. -/
def Scalar.normalizedKey? : Scalar → Except Fault (Option String)
  | .null => .ok none
  | s => s.write.map normalizeKey

/-! ### Effects -/

/-- What a modifier does to the timing of an ability; a field without a value leaves it alone. -/
structure Effect where
  /-- Whether the ability triggers the global cooldown. -/
  triggersGcd : Option Bool := none
  /-- How long casting takes, in ticks. -/
  castDuration : Option Int := none
  /-- The cooldown of the ability itself, in ticks. -/
  cooldown : Option Int := none
  deriving DecidableEq

namespace Effect

/-- The effect as overrides of the ability. -/
def overrides (e : Effect) : Overrides :=
  { triggersGcd := e.triggersGcd, castDuration := e.castDuration, cooldown := e.cooldown }

/-- The effect that a raw record describes. -/
def ofRaw (r : Raw) : Except Fault Effect := do
  let castDuration ← (r.field "cast_duration" Raw.null).integer?
  let cooldown ← (r.field "cooldown" Raw.null).integer?
  .ok
    { triggersGcd := (r.field "triggers_gcd" Raw.null).flag?
      castDuration := castDuration.map (clamp 0 maxTicks)
      cooldown := cooldown.map (clamp 0 maxTicks) }

/-- The record of an effect, without entries for what it leaves alone. -/
def toRaw (e : Effect) : Raw :=
  .record
    (Ability.optionalEntry "triggers_gcd" Raw.flag e.triggersGcd ++
      Ability.optionalEntry "cast_duration" Raw.whole e.castDuration ++
      Ability.optionalEntry "cooldown" Raw.whole e.cooldown)

end Effect

/-! ### Modifiers -/

/-- A modifier in its normal form. -/
structure Modifier where
  /-- The key, under which abilities record the modifier. -/
  key : String
  /-- The names under which texts mention the modifier, the key first. -/
  aliases : List String
  /-- Patterns for the keys of the abilities that may carry the modifier. -/
  targets : List String
  /-- What the modifier does. -/
  effect : Effect
  deriving DecidableEq

namespace Modifier

/-- Why a modifier cannot be built. -/
inductive BuildFault where
  /-- The key is blank. -/
  | blankKey
  deriving DecidableEq, Repr

/-- The fault in words. -/
def BuildFault.message : BuildFault → String
  | .blankKey => "ModifierDefinition.canonical_key 不能为空"

/-- Adds a name to a list of aliases unless it is blank or already there. -/
def addAlias (aliases : List String) (name : String) : List String :=
  match normalizeKey name with
  | none => aliases
  | some a => if a ∈ aliases then aliases else aliases ++ [a]

/-- The modifier with the given key, aliases and target patterns, all normalized. -/
def build (key : String) (aliases targets : List String) (effect : Effect) :
    Except BuildFault Modifier :=
  match normalizeKey key with
  | none => .error .blankKey
  | some k => .ok ⟨k, aliases.foldl addAlias [k], targets.filterMap normalizeKey, effect⟩

/-- Whether an ability may carry the modifier: its normalized key has the form of one of the
target patterns. -/
def accepts (m : Modifier) (ability : String) : Bool :=
  match normalizeKey ability with
  | none => false
  | some key => m.targets.any fun pattern => Wildcard.accepts pattern key

/-- The texts of the items of a raw list; any other value has none. -/
def textsOf : Raw → Except Fault (List String)
  | .list items => items.mapM (Raw.textOr "")
  | _ => .ok []

/-- The modifier with the given normalized key that a raw record describes. -/
def ofRaw (key : String) (r : Raw) : Except Fault Modifier := do
  let aliases ← textsOf (r.field "aliases" (.list []))
  let targets ← textsOf (r.field "targets" (.list []))
  let effect ← Effect.ofRaw (r.field "effect" (.record []))
  .ok ⟨key, aliases.foldl addAlias [key], targets.filterMap normalizeKey, effect⟩

/-- The record of a modifier, without its key. -/
def toRaw (m : Modifier) : Raw :=
  .record
    [(.text "aliases", .list (m.aliases.map Raw.text)),
     (.text "targets", .list (m.targets.map Raw.text)),
     (.text "effect", m.effect.toRaw)]

end Modifier

end AbilityRotation
