import AbilityRotation.Raw.Basic

/-!
The order of raw values.

Numbers are ordered by size, with truth values as zero and one, texts by their characters, and
lists by their first items that differ.  All other pairs of values cannot be compared.
* `Raw.same` tells whether two values are equal as values, numbers across kinds.
* `Raw.isBelow` compares two values; it fails with the two kinds that cannot be compared.
* `Raw.clamp` brings a value between two bounds.
-/

namespace AbilityRotation

open Number

/-- Two kinds whose values cannot be compared. -/
structure Incomparable where
  /-- The kind of the first value. -/
  first : Kind
  /-- The kind of the second value. -/
  second : Kind
  deriving DecidableEq, Repr

namespace Scalar

/-- Whether a scalar is a number; truth values are. -/
def isNumber : Scalar → Bool
  | .flag _ => true
  | .whole _ => true
  | .real _ => true
  | _ => false

/-- Whether a number lies below another one; the number that is none is below nothing. -/
def isSmaller (a b : Scalar) : Bool :=
  match a.place?, b.place? with
  | some p, some q => p.isBelow q
  | _, _ => false

/-- Whether a scalar comes before another one. -/
def isBelow : Scalar → Scalar → Except Incomparable Bool
  | .text s, .text t => .ok (decide (s < t))
  | a, b =>
      if a.isNumber && b.isNumber then .ok (a.isSmaller b) else .error ⟨a.kind, b.kind⟩

end Scalar

namespace Raw

/-! ### Equality -/

mutual

/-- Whether two values are equal as values. -/
def same : Raw → Raw → Bool
  | .scalar a, .scalar b => a.sameKey b
  | .list as, .list bs => sameItems as bs
  | .record es, .record fs => es.length == fs.length && sameEntries es fs
  | _, _ => false

/-- Whether the items of two lists are equal one by one. -/
def sameItems : List Raw → List Raw → Bool
  | [], [] => true
  | a :: as, b :: bs => a.same b && sameItems as bs
  | _, _ => false

/-- Whether the entries of a record have equal ones under the same keys of another record. -/
def sameEntries : List (Scalar × Raw) → List (Scalar × Raw) → Bool
  | [], _ => true
  | (k, v) :: rest, fs =>
      match fs.find? fun f => f.1.sameKey k with
      | some f => v.same f.2 && sameEntries rest fs
      | none => false

end

/-! ### Comparison -/

mutual

/-- Whether a value comes before another one. -/
def isBelow : Raw → Raw → Except Incomparable Bool
  | .scalar a, .scalar b => a.isBelow b
  | .list as, .list bs => itemsBelow as bs
  | a, b => .error ⟨a.kind, b.kind⟩

/-- Whether a list comes before another one: the first items that differ decide, and a list comes
after those it continues. -/
def itemsBelow : List Raw → List Raw → Except Incomparable Bool
  | [], bs => .ok !bs.isEmpty
  | _ :: _, [] => .ok false
  | a :: as, b :: bs => if a.same b then itemsBelow as bs else a.isBelow b

end

/-! ### Bounds -/

/-- Why a value cannot be brought between two bounds. -/
inductive BoundFault where
  /-- The value cannot be compared with the lower bound. -/
  | lower (value bound : Kind)
  /-- The value cannot be compared with the upper bound. -/
  | upper (value bound : Kind)
  deriving DecidableEq, Repr

/-- A value brought between two bounds; a value that lies there stays what it is. -/
def clamp (low high r : Raw) : Except BoundFault Raw :=
  match r.isBelow low with
  | .error e => .error (.lower e.first e.second)
  | .ok true => .ok low
  | .ok false =>
      match high.isBelow r with
      | .error e => .error (.upper e.second e.first)
      | .ok true => .ok high
      | .ok false => .ok r

end Raw

end AbilityRotation
