import AbilityRotation.Ability.Overrides
import AbilityRotation.Table

/-!
Rotations: trees of steps, terms and alternatives.

A rotation is a sequence of steps.  A step is a list of terms that are carried out together, and a
term is a list of alternatives of which the first usable one is taken.  An alternative is the use
of an ability, a group with steps of its own, or a marker, which is only shown.
* `AbilityUse.build` makes the use of an ability; one with a blank key, or with modifiers and
  overrides at once, is refused.
* `Rotation.abilities` lists the uses of abilities from left to right, those in groups included.
* `Rotation.labels` and `Rotation.abilityKeys` collect the labels and keys that occur.
-/

namespace AbilityRotation

/-- One occurrence of an ability. -/
structure AbilityUse where
  /-- The key of the ability. -/
  key : String
  /-- The keys of the modifiers on this occurrence, in the order in which they were written. -/
  modifiers : List String := []
  /-- The settings of this occurrence. -/
  overrides : Option Overrides := none
  /-- The digits of its label. -/
  label : Option String := none
  deriving DecidableEq

namespace AbilityUse

/-- Why an ability cannot be used as asked. -/
inductive BuildFault where
  /-- The key is blank. -/
  | blankKey
  /-- There are both modifiers and settings, which would contradict each other. -/
  | modifiersWithOverrides
  deriving DecidableEq, Repr

/-- The fault in words. -/
def BuildFault.message : BuildFault → String
  | .blankKey => "TokenAlternative.key 不能为空"
  | .modifiersWithOverrides => "带修饰符的 token 不能同时携带单实例覆盖"

/-- The use of an ability, unless its parts contradict each other. -/
def build (key : String) (modifiers : List String) (overrides : Option Overrides)
    (label : Option String) : Except BuildFault AbilityUse :=
  if Text.isBlankText key then .error .blankKey
  else if !modifiers.isEmpty && overrides.isSome then .error .modifiersWithOverrides
  else .ok ⟨key, modifiers, overrides, label⟩

end AbilityUse

/-- One of the things that a term offers, or a marker beside them. -/
inductive Alternative where
  /-- The use of an ability. -/
  | ability (use : AbilityUse)
  /-- A text that is only shown; in rotation texts all of them are tooltips. -/
  | marker (text : String) (kind : String := "tooltip")
  /-- A group: a rotation of its own, given by its steps and its settings for abilities. -/
  | group (steps : List (List (List Alternative))) (abilityOverrides : Table (Option Overrides))

/-- Alternatives of which the first usable one is taken, with markers among them. -/
abbrev Term := List Alternative

/-- Terms that are carried out together. -/
abbrev Step := List Term

/-- A rotation. -/
structure Rotation where
  /-- The steps, in order. -/
  steps : List Step
  /-- Settings for all occurrences of an ability; the entry of an ability may be without any. -/
  abilityOverrides : Table (Option Overrides)

instance : Inhabited Alternative := ⟨.marker ""⟩

instance : Inhabited Rotation := ⟨⟨[], Table.empty⟩⟩

/-! ### Alternatives by kind -/

namespace Alternative

/-- Whether the alternative is the use of an ability. -/
def isAbility : Alternative → Bool
  | .ability _ => true
  | _ => false

/-- The text of a marker. -/
def markerText? : Alternative → Option String
  | .marker text _ => some text
  | _ => none

/-- Whether the alternative can be chosen: everything but a marker can. -/
def isChoice (a : Alternative) : Bool :=
  a.markerText?.isNone

end Alternative

/-- The alternatives of a term that can be chosen. -/
def Term.choices (t : Term) : List Alternative :=
  t.filter Alternative.isChoice

/-- The texts of the markers of a term. -/
def Term.markers (t : Term) : List String :=
  t.filterMap Alternative.markerText?

/-! ### The uses of abilities -/

mutual

/-- The uses of abilities in an alternative, from left to right. -/
def Alternative.abilities : Alternative → List AbilityUse
  | .ability use => [use]
  | .marker _ _ => []
  | .group steps _ => abilitiesOfSteps steps

/-- The uses of abilities in a term, from left to right. -/
def abilitiesOfTerm : List Alternative → List AbilityUse
  | [] => []
  | a :: rest => a.abilities ++ abilitiesOfTerm rest

/-- The uses of abilities in a step, from left to right. -/
def abilitiesOfStep : List (List Alternative) → List AbilityUse
  | [] => []
  | t :: rest => abilitiesOfTerm t ++ abilitiesOfStep rest

/-- The uses of abilities in steps, from left to right. -/
def abilitiesOfSteps : List (List (List Alternative)) → List AbilityUse
  | [] => []
  | s :: rest => abilitiesOfStep s ++ abilitiesOfSteps rest

end

/-- The uses of abilities in a step, from left to right. -/
def Step.abilities (s : Step) : List AbilityUse :=
  abilitiesOfStep s

namespace Rotation

/-- The step with an index; negative indices count from the end. -/
def step? (r : Rotation) (index : Int) : Option Step :=
  if 0 ≤ index then r.steps[index.toNat]?
  else if (-index).toNat ≤ r.steps.length then r.steps[r.steps.length - (-index).toNat]?
  else none

/-- The uses of abilities in a rotation, from left to right. -/
def abilities (r : Rotation) : List AbilityUse :=
  abilitiesOfSteps r.steps

/-- The labels that occur in a rotation, as often as they occur. -/
def labels (r : Rotation) : List String :=
  r.abilities.filterMap (·.label)

/-- The keys of abilities that occur in a rotation, as often as they occur. -/
def abilityKeys (r : Rotation) : List String :=
  r.abilities.map (·.key)

end Rotation

end AbilityRotation
