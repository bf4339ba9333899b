import Mathlib.Tactic
import AbilityRotation.Ability.Overrides

/-!
Merging overrides.

Overrides without a field are the same as none, so what is merged is either none or has a field
(`Filled`).  On such overrides merging is a monoid with `none`.
* `getD_merge`: merged overrides are laid over each other.
* `merge_assoc`, `merge_none` and `none_merge`: the laws of a monoid.
* `merge_eq_none_iff`: what is merged is none only if nothing was there.
* `foldl_merge_eq`: merging one after the other fills one record; `foldl_merge_eq_none_iff`: when it
  stays empty.
-/

namespace AbilityRotation.Overrides

/-- Whether overrides, if there are any, have a field. -/
def Filled (x : Option Overrides) : Prop :=
  ∀ o ∈ x, o.isEmpty = false

variable {o : Overrides} {x y : Option Overrides}

lemma filled_none : Filled none := by
  simp [Filled]

lemma nonempty?_of_isEmpty (h : o.isEmpty = false) : o.nonempty? = some o := by
  rw [nonempty?, h]
  rfl

lemma filled_nonempty? (o : Overrides) : Filled o.nonempty? := by
  intro p hp
  rw [nonempty?] at hp
  split at hp
  · cases hp
  · next hempty =>
      cases hp
      simpa using hempty

/-- What is merged has a field. -/
lemma filled_merge (x y : Option Overrides) : Filled (merge x y) :=
  filled_nonempty? _

/-- Overrides that have a field, or are none, are found again in the record that they fill. -/
lemma nonempty?_getD (h : Filled x) : (x.getD empty).nonempty? = x := by
  cases x with
  | none => rfl
  | some o => exact nonempty?_of_isEmpty (h o rfl)

/-- Merged overrides are laid over each other. -/
@[simp] lemma getD_merge (x y : Option Overrides) :
    (merge x y).getD empty = (y.getD empty).laidOver (x.getD empty) :=
  getD_nonempty? _

/-- Of three sets of overrides it does not matter which two are merged first. -/
lemma merge_assoc (x y z : Option Overrides) : merge (merge x y) z = merge x (merge y z) := by
  rw [merge, getD_merge, merge, getD_merge, laidOver_assoc]

lemma merge_none (h : Filled x) : merge x none = x := by
  rw [merge, Option.getD_none, empty_laidOver, nonempty?_getD h]

lemma none_merge (h : Filled x) : merge none x = x := by
  rw [merge, Option.getD_none, laidOver_empty, nonempty?_getD h]

/-- Overrides laid over each other have a field if either of them has. -/
lemma isEmpty_laidOver (o p : Overrides) : (o.laidOver p).isEmpty = (o.isEmpty && p.isEmpty) := by
  simp only [isEmpty, laidOver, Option.isNone_or]
  ac_rfl

/-- Nothing is merged exactly if there is nothing on either side. -/
lemma merge_eq_none_iff (hx : Filled x) (hy : Filled y) :
    merge x y = none ↔ x = none ∧ y = none := by
  have hempty : ∀ {z : Option Overrides},
      Filled z → ((z.getD empty).isEmpty = true ↔ z = none) := by
    intro z hz
    cases z with
    | none => exact ⟨fun _ => rfl, fun _ => rfl⟩
    | some o => simp [hz o rfl]
  rw [merge, nonempty?, isEmpty_laidOver]
  simp [hempty hx, hempty hy, and_comm]

/-! ### Merging one after the other -/

/-- Merging lays overrides over each other. -/
lemma getD_foldl_merge (os : List Overrides) (x : Option Overrides) :
    (os.foldl (fun acc p => merge acc (some p)) x).getD empty =
      os.foldl (fun base p => p.laidOver base) (x.getD empty) := by
  induction os generalizing x with
  | nil => rfl
  | cons p os ih => rw [List.foldl_cons, List.foldl_cons, ih, getD_merge, Option.getD_some]

lemma filled_foldl_merge (os : List Overrides) (hx : Filled x) :
    Filled (os.foldl (fun acc p => merge acc (some p)) x) := by
  induction os generalizing x with
  | nil => exact hx
  | cons p os ih => exact ih (filled_merge x (some p))

/-- What is merged one after the other is laid over one another in one record, of which nothing is
left if no field was filled. -/
lemma foldl_merge_eq (os : List Overrides) :
    os.foldl (fun acc p => merge acc (some p)) none =
      (os.foldl (fun base p => p.laidOver base) empty).nonempty? := by
  rw [← nonempty?_getD (filled_foldl_merge os filled_none), getD_foldl_merge, Option.getD_none]

/-- Nothing is merged of several overrides exactly if there are none. -/
lemma foldl_merge_eq_none_iff {xs : List (Option Overrides)} (hx : Filled x)
    (hxs : ∀ y ∈ xs, Filled y) : xs.foldl merge x = none ↔ x = none ∧ ∀ y ∈ xs, y = none := by
  induction xs generalizing x with
  | nil => simp
  | cons y xs ih =>
      rw [List.foldl_cons, ih (filled_merge x y) fun z hz => hxs z (List.mem_cons_of_mem _ hz),
        merge_eq_none_iff hx (hxs y List.mem_cons_self), List.forall_mem_cons, and_assoc]

end AbilityRotation.Overrides
