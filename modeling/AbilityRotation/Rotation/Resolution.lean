import AbilityRotation.Ability.Database
import AbilityRotation.Ability.Effective
import AbilityRotation.Modifier.Derivation
import AbilityRotation.Rotation.Basic

/-!
Resolving a rotation: the data that count for each occurrence of an ability.

The data of an occurrence are laid over each other in four layers: the database, the settings for
the ability, the effects of the modifiers and the settings of the occurrence.
* `Resolver.use` resolves one use of an ability.
* `Resolver.step` resolves all uses in a step, those in groups included.  Abilities that the
  database does not know are skipped, or with `strict` they are a fault; any other fault ends the
  resolving.
* `Resolver.notices` are the notices of the modifiers passed over.
-/

namespace AbilityRotation

/-- What the data of an occurrence depend on. -/
structure Resolver where
  /-- The known abilities. -/
  database : Database
  /-- The known modifiers. -/
  catalog : Catalog := Catalog.default
  /-- Settings for all occurrences of an ability; the entry of an ability may be without any. -/
  abilityOverrides : Table (Option Overrides) := Table.empty

namespace Resolver

/-- Why an alternative cannot be resolved. -/
inductive Fault where
  /-- The alternative is a marker. -/
  | isMarker
  /-- The alternative is a group. -/
  | isGroup
  /-- The database does not know the ability. -/
  | unknownAbility (key : String)
  /-- A number of the data cannot take effect. -/
  | number (fault : Number.Fault)
  deriving DecidableEq, Repr

/-- The fault in words. -/
def Fault.message : Fault → String
  | .isMarker => "resolve() needs a token alternative, got MarkerAlternative"
  | .isGroup => "resolve() needs a token alternative, got GroupAlternative"
  | .unknownAbility key => "unknown ability: " ++ Text.quoted key
  | .number _ => "a number of the ability cannot take effect"

/-- The overrides that the modifiers of a use give. -/
def modifierOverrides (r : Resolver) (use : AbilityUse) : Option Overrides :=
  r.catalog.derive (some use.key) (use.modifiers.map some)

/-- The settings for the ability of a use, if there are any. -/
def settings (r : Resolver) (use : AbilityUse) : Option Overrides :=
  (r.abilityOverrides.get? use.key).join

/-- The data of a use whose ability has the data `base`, as far as neither its modifiers nor its
own settings matter. -/
def common (r : Resolver) (use : AbilityUse) (base : Ability) :
    Except Number.Fault EffectiveAbility := do
  let start ← EffectiveAbility.ofAbility use.key base
  start.apply (r.settings use)

/-- The data of a use whose ability has the data `base`. -/
def layers (r : Resolver) (use : AbilityUse) (base : Ability) :
    Except Number.Fault EffectiveAbility := do
  let shared ← r.common use base
  let modified ← shared.apply (r.modifierOverrides use)
  modified.apply use.overrides

/-- The data of a use of an ability. -/
def use (r : Resolver) (use : AbilityUse) : Except Fault EffectiveAbility :=
  match r.database.lookup use.key with
  | none => .error (.unknownAbility use.key)
  | some base => (r.layers use base).mapError .number

/-- The data of an alternative, which must be the use of an ability. -/
def alternative (r : Resolver) : Alternative → Except Fault EffectiveAbility
  | .ability u => r.use u
  | .marker _ _ => .error .isMarker
  | .group _ _ => .error .isGroup

/-! ### Steps -/

mutual

/-- The data of all uses in an alternative. -/
def inAlternative (r : Resolver) (strict : Bool) :
    Alternative → Except Fault (List EffectiveAbility)
  | .ability u =>
      match r.use u with
      | .ok e => .ok [e]
      | .error (.unknownAbility key) => if strict then .error (.unknownAbility key) else .ok []
      | .error fault => .error fault
  | .marker _ _ => .ok []
  | .group steps _ => inSteps r strict steps

/-- The data of all uses in a term. -/
def inTerm (r : Resolver) (strict : Bool) :
    List Alternative → Except Fault (List EffectiveAbility)
  | [] => .ok []
  | a :: rest => do
      let first ← inAlternative r strict a
      let others ← inTerm r strict rest
      .ok (first ++ others)

/-- The data of all uses in a step. -/
def inStep (r : Resolver) (strict : Bool) :
    List (List Alternative) → Except Fault (List EffectiveAbility)
  | [] => .ok []
  | t :: rest => do
      let first ← inTerm r strict t
      let others ← inStep r strict rest
      .ok (first ++ others)

/-- The data of all uses in steps. -/
def inSteps (r : Resolver) (strict : Bool) :
    List (List (List Alternative)) → Except Fault (List EffectiveAbility)
  | [] => .ok []
  | s :: rest => do
      let first ← inStep r strict s
      let others ← inSteps r strict rest
      .ok (first ++ others)

end

/-- The data of all uses in a step, from left to right. -/
def step (r : Resolver) (strict : Bool) (s : Step) : Except Fault (List EffectiveAbility) :=
  r.inStep strict s

/-! ### Notices -/

/-- The notices of the modifiers that are passed over in one use; there are none if the ability is
not known, or if its data cannot take effect without the modifiers. -/
def useNotices (r : Resolver) (use : AbilityUse) : List Notice :=
  match r.database.lookup use.key with
  | none => []
  | some base =>
      match r.common use base with
      | .ok _ => r.catalog.deriveNotices (some use.key) (use.modifiers.map some)
      | .error _ => []

/-- Whether the resolving of a step goes on after a use. -/
def goesOnAfter (r : Resolver) (strict : Bool) (use : AbilityUse) : Bool :=
  match r.use use with
  | .ok _ => true
  | .error (.unknownAbility _) => !strict
  | .error _ => false

/-- The uses up to the one that ends the resolving of a step. -/
def reached (r : Resolver) (strict : Bool) : List AbilityUse → List AbilityUse
  | [] => []
  | u :: rest => u :: if r.goesOnAfter strict u then reached r strict rest else []

/-- The notices of the modifiers that are passed over in a step, as far as it is resolved. -/
def notices (r : Resolver) (strict : Bool) (s : Step) : List Notice :=
  (r.reached strict s.abilities).flatMap r.useNotices

end Resolver

end AbilityRotation
