import AbilityRotation.Number.Whole
import AbilityRotation.Rotation.Basic

/-!
Addresses of alternatives in a rotation.

An address leads from the whole rotation to one alternative: it names a step, a term and an
alternative, and inside a group again, as often as groups are nested.
* `Rotation.alternativeAt?` is the alternative with an address.
* `Address.text` is the path that shows an address.
-/

namespace AbilityRotation

/-- The place of an alternative: the indices of its step, of its term and of itself. -/
structure Place where
  /-- The index of the step. -/
  step : Nat
  /-- The index of the term in its step. -/
  term : Nat
  /-- The index of the alternative in its term. -/
  alternative : Nat
  deriving DecidableEq, Repr

/-- The places that lead to an alternative, from the outside to the inside; the empty address is
the whole rotation. -/
abbrev Address := List Place

namespace Address

/-- The path of a rotation as a whole. -/
def root : String := "$"

/-- A path continued by a fragment; the empty path is the root. -/
def join (base fragment : String) : String :=
  (if base.isEmpty then root else base) ++ fragment

/-- The path of a term or of an alternative below a path. -/
def placePath (base : String) (step term : Int) (alternative : Option Int) : String :=
  let path := join base (".steps[" ++ Number.wholeText step ++ "].terms[" ++
    Number.wholeText term ++ "]")
  match alternative with
  | none => path
  | some a => join path (".alternatives[" ++ Number.wholeText a ++ "]")

/-- The path below `base` that shows an address. -/
def textFrom (base : String) : Address → String
  | [] => base
  | [p] => placePath base p.step p.term (some p.alternative)
  | p :: rest =>
      textFrom (join (placePath base p.step p.term (some p.alternative)) ".definition") rest

/-- The path that shows an address. -/
def text (a : Address) : String :=
  textFrom root a

end Address

/-- The alternative with a place in steps. -/
def Place.lookup? (p : Place) (steps : List Step) : Option Alternative := do
  let step ← steps[p.step]?
  let term ← step[p.term]?
  term[p.alternative]?

/-- The alternative with an address below steps. -/
def alternativeAt? (steps : List Step) : Address → Option Alternative
  | [] => none
  | [p] => p.lookup? steps
  | p :: rest =>
      match p.lookup? steps with
      | some (.group inner _) => alternativeAt? inner rest
      | _ => none

/-- The alternative of a rotation with an address. -/
def Rotation.alternativeAt? (r : Rotation) (a : Address) : Option Alternative :=
  AbilityRotation.alternativeAt? r.steps a

end AbilityRotation
