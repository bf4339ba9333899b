import AbilityRotation.Modifier.Basic
import AbilityRotation.Proofs.Outcome
import AbilityRotation.Proofs.Text.Trimming

/-!
Fields of records that were written.

A record is written without the fields that have no value, and what is missing is read as the
default.  So a field gives back the value that was written, if that is what reading makes of values.
* `Raw.field_cons`, `Raw.field_optionalEntry`: what stands under a name.
* `Raw.text?_getD` and its siblings: written values are read as they were.
* `clamp_mem`, `Raw.trimmed_of_text?`, `Raw.isFinite_of_real?`: what reading can give.
-/

namespace AbilityRotation

open Number Text

/-! ### Trimmed texts -/

/-- Whether a text is neither blank nor has blanks around it. -/
def Text.Trimmed (s : String) : Prop :=
  isBlankText s = false ∧ trim s = s

/-- Trimmed texts are those that trimming leaves as they are. -/
lemma Text.trimmed?_eq_self_iff {s : String} : trimmed? s = some s ↔ Trimmed s := by
  constructor
  · intro h
    exact ⟨isBlankText_of_trimmed? h, (trimmed?_eq_some_iff.mp h).1⟩
  · rintro ⟨hblank, htrim⟩
    obtain ⟨t, ht⟩ := exists_trimmed? hblank
    rwa [← (trimmed?_eq_some_iff.mp ht).1, htrim] at ht

/-- What is left by trimming is trimmed. -/
lemma Text.trimmed_of_trimmed? {s t : String} (h : trimmed? s = some t) : Trimmed t := by
  refine ⟨isBlankText_of_trimmed? h, ?_⟩
  rw [← (trimmed?_eq_some_iff.mp h).1, trim, trim, String.toList_ofList,
    trimChars_eq_self (tight_trimChars _)]

/-- Something is left of a text exactly if it is not blank. -/
lemma Text.isSome_trimmed?_iff {s : String} :
    (trimmed? s).isSome = true ↔ isBlankText s = false := by
  rw [Option.isSome_iff_exists]
  refine ⟨fun h => ?_, exists_trimmed?⟩
  obtain ⟨t, ht⟩ := h
  obtain ⟨rfl, hne⟩ := trimmed?_eq_some_iff.mp ht
  rwa [trim, String.toList_ofList, Ne, trimChars_eq_nil_iff, ← List.all_eq_true, Bool.not_eq_true]
    at hne

/-! ### Bounds -/

section Bounds

variable {low high n : ℤ}

/-- A number that is clamped lies between the bounds. -/
lemma clamp_mem (h : low ≤ high) (n : ℤ) : low ≤ clamp low high n ∧ clamp low high n ≤ high := by
  rw [clamp]
  split_ifs <;> omega

/-- A number between the bounds stays as it is when it is clamped. -/
lemma clamp_eq_self (hlow : low ≤ n) (hhigh : n ≤ high) : clamp low high n = n := by
  rw [clamp, if_neg (not_lt.mpr hlow), if_neg (not_lt.mpr hhigh)]

end Bounds

namespace Raw

variable {α : Type} {key name : String} {r default : Raw} {es : List (Scalar × Raw)}

/-! ### What stands under a name -/

/-- Nothing stands in a record without entries. -/
@[simp] lemma field_nil : (Raw.record []).field name default = default := rfl

/-- Under a name stands the value of the first entry with this name. -/
lemma field_cons :
    (Raw.record ((.text key, r) :: es)).field name default =
      if key = name then r else (Raw.record es).field name default := by
  have hsame : (Scalar.text key).sameKey (.text name) = decide (key = name) := rfl
  rw [field, entries, List.find?_cons, hsame]
  by_cases h : key = name <;> simp [h, field, entries]

/-- The entry of a value that may be absent stands under its name only. -/
lemma field_optionalEntry (toRaw : α → Raw) (a : Option α) :
    (Raw.record (Ability.optionalEntry key toRaw a ++ es)).field name default =
      if key = name then (a.map toRaw).getD ((Raw.record es).field name default)
      else (Raw.record es).field name default := by
  cases a with
  | none => simp [Ability.optionalEntry]
  | some a => simp [Ability.optionalEntry, field_cons]

/-- The entry of a value that may be absent, where no other entries follow. -/
lemma field_optionalEntry_nil (toRaw : α → Raw) (a : Option α) :
    (Raw.record (Ability.optionalEntry key toRaw a)).field name default =
      if key = name then (a.map toRaw).getD default else default := by
  rw [← List.append_nil (Ability.optionalEntry key toRaw a), field_optionalEntry, field_nil]

/-! ### Written values -/

/-- A trimmed text that may be absent is read as it was written. -/
lemma text?_getD {a : Option String} (h : ∀ s ∈ a, Trimmed s) :
    ((a.map Raw.text).getD null).text? = .ok a := by
  cases a with
  | none => rfl
  | some s => exact congrArg Except.ok (trimmed?_eq_self_iff.mpr (h s rfl))

/-- A whole number that may be absent is read as it was written. -/
lemma integer?_getD (a : Option ℤ) : ((a.map Raw.whole).getD null).integer? = .ok a := by
  cases a <;> rfl

/-- A whole number is read as it was written. -/
lemma integerOr_whole (n default : ℤ) : (Raw.whole n).integerOr default = .ok n := rfl

/-- A finite floating-point number that may be absent is read as it was written. -/
lemma real?_getD {a : Option Binary64} (h : ∀ x ∈ a, x.isFinite = true) :
    ((a.map Raw.real).getD null).real? = .ok a := by
  cases a with
  | none => rfl
  | some x =>
      have hx := h x rfl
      simp only [Option.map_some, Option.getD_some, Raw.real, real?, toReal, Except.map, hx,
        if_true, orDefault]

/-- A truth value that may be absent is read as it was written. -/
lemma flag?_getD (a : Option Bool) : ((a.map Raw.flag).getD null).flag? = a := by
  cases a <;> rfl

/-- A truth value is read as it was written. -/
lemma flagOr_flag (b default : Bool) : (Raw.flag b).flagOr default = b := rfl

/-- A list of texts is read as it was written. -/
lemma textsOf_texts (texts : List String) :
    Modifier.textsOf (.list (texts.map Raw.text)) = .ok texts := by
  rw [Modifier.textsOf, mapM_eq_ok_iff, List.forall₂_map_left_iff, List.forall₂_same]
  exact fun _ _ => rfl

/-! ### What reading can give -/

/-- A text that is read is trimmed. -/
lemma trimmed_of_text? {x : Option String} (h : r.text? = .ok x) : ∀ s ∈ x, Trimmed s := by
  intro s hs
  rw [text?.eq_def] at h
  split at h
  · cases h
    cases hs
  · obtain ⟨t, -, ht⟩ := bind_eq_ok_iff.mp h
    have hx : trimmed? t = x := Except.ok.inj ht
    exact trimmed_of_trimmed? (hx.trans hs)

/-- What a conversion gives where it is not replaced by a default. -/
lemma orDefault_eq_ok_iff {d a : α} {x : Except Number.Fault α} :
    orDefault d x = .ok a ↔ x = .ok a ∨ (∃ f, x = .error f ∧ f ≠ .outOfRange) ∧ d = a := by
  cases x with
  | ok b => simp [orDefault]
  | error f => cases f <;> simp [orDefault]

/-- A floating-point number that is read is finite. -/
lemma isFinite_of_real? {x : Option Binary64} (h : r.real? = .ok x) :
    ∀ y ∈ x, y.isFinite = true := by
  intro y hy
  rw [real?.eq_def] at h
  split at h
  · cases h
    cases hy
  · cases h
    cases hy
  · rcases orDefault_eq_ok_iff.mp h with h | ⟨-, rfl⟩
    · obtain ⟨z, -, rfl⟩ := map_eq_ok_iff.mp h
      split at hy
      · next hz =>
          cases hy
          exact hz
      · cases hy
    · cases hy

end Raw

end AbilityRotation
