import AbilityRotation.Modifier.Catalog

/-!
What modifiers do to one ability.

Each modifier on an ability either contributes the overrides of its effect or is passed over with
a notice (`Catalog.contribution`); the contributions are laid over each other in order
(`Catalog.derive`).
-/

namespace AbilityRotation

namespace Catalog

/-- What the modifier with the given key or alias contributes to an ability, or why it is passed
over; where no ability is given no modifier applies. -/
def contribution (c : Catalog) (ability name : Option String) : Except Notice Overrides :=
  match (name.bind c.definition?).or (name.bind c.resolve) with
  | none => .error (.unknownModifier name ability)
  | some m =>
      if ability.any m.accepts then .ok m.effect.overrides
      else .error (.unsuitableModifier m.key ability)

/-- The overrides that modifiers give to an ability, the later ones laid over the earlier. -/
def derive (c : Catalog) (ability : Option String) (names : List (Option String)) :
    Option Overrides :=
  names.foldl
    (fun acc name =>
      match c.contribution ability name with
      | .ok o => Overrides.merge acc (some o)
      | .error _ => acc)
    none

/-- Which modifiers are passed over. -/
def deriveNotices (c : Catalog) (ability : Option String) (names : List (Option String)) :
    List Notice :=
  names.filterMap fun name =>
    match c.contribution ability name with
    | .ok _ => none
    | .error notice => some notice

end Catalog

end AbilityRotation
