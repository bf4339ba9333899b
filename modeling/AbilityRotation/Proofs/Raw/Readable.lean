import AbilityRotation.Ability.Database
import AbilityRotation.Modifier.Catalog
import AbilityRotation.Proofs.Number.Range
import AbilityRotation.Proofs.Raw.Fields
import AbilityRotation.Proofs.Settings.Payload
import AbilityRotation.Timing.Profile

/-!
Which raw values can be read.

A malformed value is read as a default, whatever its kind.  What is left are numbers without an
image: an infinity has no whole number, a whole number of `2 ^ 1024 - 2 ^ 970` or more has no finite
floating-point number, and a whole number of more than `maxDigits` digits has no text, not even deep
inside a list or a record whose text is asked for.
* `Raw.exists_write_iff`: a value has a text exactly if every whole number in it has.
* `Raw.toInteger_eq_outOfRange_iff`, `Raw.toReal_eq_outOfRange_iff`: the failures of conversion.
* `Raw.Readable` says of a record that no field of it holds such a number, and the lemmas
  `exists_ofRaw_iff` that the records of abilities, overrides, effects and so on are read exactly if
  they are readable.
* `exists_ofRaw_iff_readable` puts the four readers together.
-/

namespace AbilityRotation

open Number Text

/-! ### Texts of values -/

namespace Scalar

/-- The whole numbers in a scalar. -/
def wholes : Scalar → List ℤ
  | .whole n => [n]
  | _ => []

/-- Whether the scalar has a text. -/
def Writable (s : Scalar) : Prop :=
  ∀ n ∈ s.wholes, Number.Writable n

lemma exists_shown_iff (s : Scalar) : (∃ t, s.shown = .ok t) ↔ s.Writable := by
  cases s <;> simp [shown, Writable, wholes, exists_writeWhole_iff]

lemma exists_write_iff (s : Scalar) : (∃ t, s.write = .ok t) ↔ s.Writable := by
  cases s <;> simp [write, shown, Writable, wholes, exists_writeWhole_iff]

end Scalar

namespace Raw

mutual

/-- The whole numbers in a value, at any depth. -/
def wholes : Raw → List ℤ
  | .scalar s => s.wholes
  | .list items => itemWholes items
  | .record es => entryWholes es

/-- The whole numbers in the items of a list. -/
def itemWholes : List Raw → List ℤ
  | [] => []
  | r :: rest => r.wholes ++ itemWholes rest

/-- The whole numbers in the keys and values of a record. -/
def entryWholes : List (Scalar × Raw) → List ℤ
  | [] => []
  | (k, v) :: rest => k.wholes ++ (v.wholes ++ entryWholes rest)

end

/-- Whether the value has a text. -/
def Writable (r : Raw) : Prop :=
  ∀ n ∈ r.wholes, Number.Writable n

mutual

/-- A value can be shown exactly if each whole number in it can be written. -/
lemma exists_shown_iff (r : Raw) : (∃ s, r.shown = .ok s) ↔ r.Writable := by
  cases r with
  | scalar s =>
      rw [shown]
      exact s.exists_shown_iff
  | list items =>
      simp only [shown, exists_bind_eq_ok_iff, Except.ok.injEq, exists_eq', and_true]
      exact exists_itemTexts_iff items
  | record es =>
      simp only [shown, exists_bind_eq_ok_iff, Except.ok.injEq, exists_eq', and_true]
      exact exists_entryTexts_iff es

lemma exists_itemTexts_iff (items : List Raw) :
    (∃ texts, itemTexts items = .ok texts) ↔ ∀ n ∈ itemWholes items, Number.Writable n := by
  cases items with
  | nil => simp [itemTexts, itemWholes]
  | cons r rest =>
      have hfirst := exists_shown_iff r
      have hrest := exists_itemTexts_iff rest
      simp only [itemTexts, exists_bind_eq_ok_iff, Except.ok.injEq, exists_eq', and_true,
        exists_and_right]
      rw [hfirst, hrest, itemWholes, List.forall_mem_append, Writable]

lemma exists_entryTexts_iff (es : List (Scalar × Raw)) :
    (∃ texts, entryTexts es = .ok texts) ↔ ∀ n ∈ entryWholes es, Number.Writable n := by
  cases es with
  | nil => simp [entryTexts, entryWholes]
  | cons e rest =>
      obtain ⟨k, v⟩ := e
      have hkey := k.exists_shown_iff
      have hvalue := exists_shown_iff v
      have hrest := exists_entryTexts_iff rest
      simp only [entryTexts, exists_bind_eq_ok_iff, Except.ok.injEq, exists_eq', and_true,
        exists_and_right]
      rw [hkey, hvalue, hrest, entryWholes, List.forall_mem_append, List.forall_mem_append,
        Writable, Scalar.Writable]

end

/-- A value has a text exactly if each whole number in it can be written. -/
lemma exists_write_iff (r : Raw) : (∃ s, r.write = .ok s) ↔ r.Writable := by
  cases r with
  | scalar s => exact s.exists_write_iff
  | list items => exact exists_shown_iff (.list items)
  | record es => exact exists_shown_iff (.record es)

lemma writable_null : Raw.null.Writable := by
  simp [null, Writable, wholes, Scalar.wholes]

lemma exists_textOr_iff (default : String) (r : Raw) :
    (∃ s, r.textOr default = .ok s) ↔ r.Writable := by
  rw [textOr.eq_def]
  split
  · exact iff_of_true ⟨_, rfl⟩ writable_null
  · exact exists_write_iff r

lemma exists_text?_iff (r : Raw) : (∃ x, r.text? = .ok x) ↔ r.Writable := by
  rw [text?.eq_def]
  split
  · exact iff_of_true ⟨_, rfl⟩ writable_null
  · simp only [exists_bind_eq_ok_iff, Except.ok.injEq, exists_eq', and_true]
    exact exists_textOr_iff "" r

/-! ### Numbers of values -/

/-- A conversion with a default fails exactly if the number is out of range. -/
lemma exists_orDefault_iff {α : Type} {d : α} {x : Except Number.Fault α} :
    (∃ a, orDefault d x = .ok a) ↔ x ≠ .error .outOfRange := by
  cases x with
  | ok a => simp [orDefault]
  | error f => cases f <;> simp [orDefault]

/-- Only infinities are out of the range of whole numbers. -/
lemma toInteger_eq_outOfRange_iff {r : Raw} :
    r.toInteger = .error .outOfRange ↔ ∃ negative, r = Raw.real (.infinite negative) := by
  cases r with
  | list items => simp [toInteger, real]
  | record es => simp [toInteger, real]
  | scalar s =>
      cases s with
      | null => simp [toInteger, real]
      | flag b => simp [toInteger, real]
      | whole n => simp [toInteger, real]
      | text t => cases h : whole? t.toList <;> simp [toInteger, real, h]
      | real x =>
          cases x with
          | nan => simp [toInteger, real, Binary64.toInt]
          | infinite negative => exact iff_of_true rfl ⟨negative, rfl⟩
          | finite negative significand scale hc =>
              exact iff_of_false (fun h => by cases h) (by simp [real])

/-- Only large whole numbers are out of the range of floating-point numbers. -/
lemma toReal_eq_outOfRange_iff {r : Raw} :
    r.toReal = .error .outOfRange ↔ ∃ n, r = Raw.whole n ∧ ¬Binary64.InRange n := by
  cases r with
  | list items => simp [toReal, whole]
  | record es => simp [toReal, whole]
  | scalar s =>
      cases s with
      | null => simp [toReal, whole]
      | flag b => simp [toReal, whole]
      | real x => simp [toReal, whole]
      | text t => cases h : Binary64.ofChars? t.toList <;> simp [toReal, whole, h]
      | whole n =>
          have hwhole : ∀ m : ℤ, Raw.scalar (.whole n) = Raw.whole m ↔ m = n := by
            simp [whole, eq_comm]
          simp only [toReal, Binary64.ofInt_eq_error_iff, hwhole, exists_eq_left]

lemma exists_wholeNumber?_iff {r : Raw} :
    (∃ x, r.wholeNumber? = .ok x) ↔ ∀ negative, r ≠ Raw.real (.infinite negative) := by
  rw [wholeNumber?, exists_orDefault_iff, Ne, map_eq_error_iff, toInteger_eq_outOfRange_iff,
    not_exists]

lemma exists_integer?_iff {r : Raw} :
    (∃ x, r.integer? = .ok x) ↔ ∀ negative, r ≠ Raw.real (.infinite negative) := by
  rw [integer?.eq_def]
  split
  · simp [real]
  · simp [real]
  · exact exists_wholeNumber?_iff

/-- Whether a whole number is replaced by one default or another, or by none, it can be read. -/
lemma exists_integerOr_field_iff {r : Raw} {name : String} {k default : ℤ} :
    (∃ n, (r.field name (Raw.whole k)).integerOr default = .ok n) ↔
      ∃ x, (r.field name Raw.null).integer? = .ok x := by
  have hread : ∀ v : Raw, (∃ n, v.integerOr default = .ok n) ↔ ∃ x, v.wholeNumber? = .ok x := by
    intro v
    simp only [integerOr, map_eq_ok_iff]
    exact exists_comm.trans (by simp)
  rw [hread, exists_wholeNumber?_iff, exists_integer?_iff, field, field]
  cases r.entries.find? fun e => e.1.sameKey (.text name) with
  | none => simp [null, whole, real]
  | some e => rfl

lemma exists_real?_iff {r : Raw} :
    (∃ x, r.real? = .ok x) ↔ ∀ n, r = Raw.whole n → Binary64.InRange n := by
  rw [real?.eq_def]
  split
  · simp [whole]
  · simp [whole]
  · rw [exists_orDefault_iff, Ne, map_eq_error_iff, toReal_eq_outOfRange_iff]
    simp

/-! ### Records -/

/-- Whether the fields of a record can be read: those asked for as `wholes` hold no infinity, those
asked for as `reals` no whole number beyond the range, and those asked for as `texts` only values
that have a text. -/
structure Readable (wholes reals texts : List String) (r : Raw) : Prop where
  /-- No infinity is asked for as a whole number. -/
  wholes : ∀ name ∈ wholes, ∀ negative, r.field name Raw.null ≠ Raw.real (.infinite negative)
  /-- No whole number beyond the range is asked for as a floating-point number. -/
  reals : ∀ name ∈ reals, ∀ n, r.field name Raw.null = Raw.whole n → Binary64.InRange n
  /-- What is asked for as a text has one. -/
  texts : ∀ name ∈ texts, (r.field name Raw.null).Writable

/-- A record is readable if the reading of each field succeeds. -/
lemma readable_iff {wholes reals texts : List String} {r : Raw} :
    r.Readable wholes reals texts ↔
      (∀ name ∈ wholes, ∃ x, (r.field name Raw.null).integer? = .ok x) ∧
      (∀ name ∈ reals, ∃ x, (r.field name Raw.null).real? = .ok x) ∧
      ∀ name ∈ texts, ∃ x, (r.field name Raw.null).text? = .ok x := by
  simp only [exists_integer?_iff, exists_real?_iff, exists_text?_iff]
  exact ⟨fun h => ⟨h.wholes, h.reals, h.texts⟩, fun h => ⟨h.1, h.2.1, h.2.2⟩⟩

end Raw

section Readers

variable (r : Raw)

/-- Whether a record can be read as an ability. -/
def Ability.Readable : Prop :=
  r.Readable ["level", "cast_duration", "cooldown"] ["detection_threshold"]
    ["common_name", "type", "mask"]

/-- The records that are read as an ability. -/
lemma Ability.exists_ofRaw_iff : (∃ a, Ability.ofRaw r = .ok a) ↔ Ability.Readable r := by
  simp only [ofRaw, Readable, exists_bind_eq_ok_iff, Except.ok.injEq, exists_eq', and_true,
    exists_and_right, Raw.exists_integerOr_field_iff, Raw.readable_iff, List.forall_mem_cons,
    List.not_mem_nil, false_imp_iff, implies_true]
  tauto

/-- The records that are read as overrides. -/
lemma Overrides.exists_ofRaw_iff :
    (∃ o, Overrides.ofRaw r = .ok o) ↔
      r.Readable ["level", "cast_duration", "cooldown"] ["detection_threshold"]
        ["type", "mask"] := by
  simp only [ofRaw, exists_bind_eq_ok_iff, Except.ok.injEq, exists_eq', and_true, exists_and_right,
    Raw.readable_iff, List.forall_mem_cons, List.not_mem_nil, false_imp_iff, implies_true]
  tauto

/-- The records that are read as the parameters of timing. -/
lemma TimingConfig.exists_ofRaw_iff :
    (∃ config, TimingConfig.ofRaw r = .ok config) ↔
      r.Readable ["tick_ms", "default_gcd_ticks"] [] [] := by
  simp only [ofRaw, exists_bind_eq_ok_iff, Except.ok.injEq, exists_eq', and_true,
    exists_and_right, Raw.exists_integerOr_field_iff, Raw.readable_iff, List.forall_mem_cons,
    List.not_mem_nil, false_imp_iff, implies_true]

/-- The records that are read as an effect. -/
lemma Effect.exists_ofRaw_iff :
    (∃ e, Effect.ofRaw r = .ok e) ↔ r.Readable ["cast_duration", "cooldown"] [] [] := by
  simp only [ofRaw, exists_bind_eq_ok_iff, Except.ok.injEq, exists_eq', and_true, exists_and_right,
    Raw.readable_iff, List.forall_mem_cons, List.not_mem_nil, false_imp_iff, implies_true]

/-- Whether a record can be read as a modifier: the names in its lists have a text, and its effect
is readable. -/
structure Modifier.Readable (r : Raw) : Prop where
  /-- The aliases and the target patterns have texts. -/
  names : ∀ name ∈ ["aliases", "targets"], ∀ items, r.field name Raw.null = .list items →
    ∀ item ∈ items, item.Writable
  /-- The effect can be read. -/
  effect : (r.field "effect" Raw.null).Readable ["cast_duration", "cooldown"] [] []

lemma Modifier.exists_textsOf_iff :
    (∃ texts, textsOf r = .ok texts) ↔
      ∀ items, r = .list items → ∀ item ∈ items, item.Writable := by
  cases r with
  | scalar s => simp [textsOf]
  | record es => simp [textsOf]
  | list items =>
      have hitems : (∃ texts, items.mapM (Raw.textOr "") = .ok texts) ↔
          ∀ item ∈ items, item.Writable :=
        exists_mapM_eq_ok_iff.trans
          (forall₂_congr fun item _ => Raw.exists_textOr_iff "" item)
      rw [textsOf, hitems]
      simp

/-- What reads two defaults alike reads fields with these defaults alike. -/
lemma Raw.apply_field {α : Type} {f : Raw → α} {d d' : Raw} (h : f d = f d') (name : String) :
    f (r.field name d) = f (r.field name d') := by
  rw [field, field]
  cases r.entries.find? fun e => e.1.sameKey (.text name) with
  | none => exact h
  | some e => rfl

/-- The records that are read as a modifier. -/
lemma Modifier.exists_ofRaw_iff (key : String) :
    (∃ m, Modifier.ofRaw key r = .ok m) ↔ Modifier.Readable r := by
  have hnames : ∀ name, textsOf (r.field name (.list [])) = textsOf (r.field name Raw.null) :=
    Raw.apply_field r rfl
  have hempty : Effect.ofRaw (.record []) = Effect.ofRaw Raw.null := rfl
  have heffect := Raw.apply_field r hempty "effect"
  simp only [ofRaw, exists_bind_eq_ok_iff, Except.ok.injEq, exists_eq', and_true, exists_and_right,
    hnames, heffect, exists_textsOf_iff, Effect.exists_ofRaw_iff]
  constructor
  · rintro ⟨haliases, htargets, heffect⟩
    exact ⟨by simpa using ⟨haliases, htargets⟩, heffect⟩
  · rintro ⟨hnames, heffect⟩
    exact ⟨hnames "aliases" (by simp), hnames "targets" (by simp), heffect⟩

end Readers

/-! ### Databases -/

/-- Whether a key of a record names an ability. -/
def Database.IsKey (k : Scalar) : Prop :=
  ∃ s, k = .text s ∧ isBlankText s = false

lemma Database.isSome_keyOf?_iff (k : Scalar) : (keyOf? k).isSome = true ↔ IsKey k := by
  cases k with
  | text s => simp [keyOf?, IsKey, isSome_trimmed?_iff]
  | _ => simp [keyOf?, IsKey]

/-- The entries that are read as a database. -/
lemma Database.exists_addRaw_iff (es : List (Scalar × Raw)) (db : Database) :
    (∃ db', db.addRaw es = .ok db') ↔ ∀ e ∈ es, IsKey e.1 → Ability.Readable e.2 := by
  induction es generalizing db with
  | nil => simp [addRaw]
  | cons e es ih =>
      obtain ⟨k, v⟩ := e
      have hnamed := isSome_keyOf?_iff k
      rw [List.forall_mem_cons, addRaw]
      cases hkey : keyOf? k with
      | none =>
          rw [hkey, Option.isSome_none] at hnamed
          simp only [ih, ← hnamed, Bool.false_eq_true, false_imp_iff, true_and]
      | some key =>
          rw [hkey, Option.isSome_some] at hnamed
          simp only [exists_bind_eq_ok_iff, ih, exists_and_right, Ability.exists_ofRaw_iff,
            ← hnamed, true_imp_iff]

/-! ### Catalogs -/

/-- Whether a key of a record names a modifier. -/
def Catalog.IsKey (k : Scalar) : Prop :=
  k ≠ .null ∧ ∀ s, k = .text s → isBlankText s = false

lemma Scalar.exists_normalizedKey?_iff (k : Scalar) :
    (∃ key, k.normalizedKey? = .ok key) ↔ k.Writable := by
  rw [normalizedKey?.eq_def]
  split
  · simp [Writable, wholes]
  · simp only [map_eq_ok_iff, ← exists_write_iff]
    exact exists_comm.trans (by simp)

/-- The text of a scalar that is no text itself is not blank. -/
lemma Scalar.isBlankText_of_write {k : Scalar} {text : String} (hk : ∀ s, k ≠ .text s)
    (h : k.write = .ok text) : isBlankText text = false := by
  cases k with
  | text s => exact absurd rfl (hk s)
  | null =>
      cases h
      decide
  | flag b =>
      cases h
      cases b <;> decide
  | whole n => exact (Settings.of_writeWhole h).1.isBlankText
  | real x =>
      cases h
      exact (Settings.of_text x).1.isBlankText

/-- A scalar that is written gives a name unless it is absent or blank. -/
lemma Scalar.isSome_normalizedKey? {k : Scalar} {key : Option String}
    (h : k.normalizedKey? = .ok key) : key.isSome = true ↔ Catalog.IsKey k := by
  rw [normalizedKey?.eq_def] at h
  split at h
  · cases h
    simp [Catalog.IsKey]
  · next hnull =>
      obtain ⟨text, htext, rfl⟩ := map_eq_ok_iff.mp h
      rw [normalizeKey, Option.isSome_map, isSome_trimmed?_iff]
      by_cases hk : ∃ s, k = .text s
      · obtain ⟨s, rfl⟩ := hk
        cases htext
        simp [Catalog.IsKey]
      · rw [not_exists] at hk
        exact iff_of_true (isBlankText_of_write hk htext)
          ⟨hnull, fun s hs => absurd hs (hk s)⟩

/-- The entries that are read as modifiers. -/
lemma Catalog.exists_modifiersOfRaw_iff (es : List (Scalar × Raw)) :
    (∃ x, modifiersOfRaw es = .ok x) ↔
      ∀ e ∈ es, e.1.Writable ∧ (IsKey e.1 → Modifier.Readable e.2) := by
  induction es with
  | nil => simp [modifiersOfRaw]
  | cons e es ih =>
      obtain ⟨k, v⟩ := e
      rw [List.forall_mem_cons, ← ih, ← k.exists_normalizedKey?_iff, modifiersOfRaw,
        exists_bind_eq_ok_iff]
      cases hkey : k.normalizedKey? with
      | error f => simp
      | ok key =>
          have hnamed := Scalar.isSome_normalizedKey? hkey
          simp only [Except.ok.injEq, exists_eq_left', exists_eq', true_and]
          cases key with
          | none =>
              rw [Option.isSome_none] at hnamed
              simp only [exists_bind_eq_ok_iff, Except.ok.injEq, exists_eq', and_true]
              simp only [← hnamed, Bool.false_eq_true, false_imp_iff, true_and]
          | some key =>
              rw [Option.isSome_some] at hnamed
              simp only [exists_bind_eq_ok_iff, Except.ok.injEq, exists_eq', and_true,
                exists_and_right, Modifier.exists_ofRaw_iff]
              simp only [← hnamed, true_imp_iff]

/-! ### The four readers -/

/-- **Which raw values can be read**, as a database, as overrides, as a catalog and as the
parameters of timing.  All but three kinds of numbers can stand anywhere: an infinity where a whole
number is asked for, a whole number beyond the range where a floating-point number is asked for, and
a whole number of too many digits where a text is asked for. -/
theorem exists_ofRaw_iff_readable (r : Raw) :
    ((∃ db, Database.ofRaw r = .ok db) ↔
      ∀ e ∈ r.entries, Database.IsKey e.1 → Ability.Readable e.2) ∧
    ((∃ o, Overrides.ofRaw r = .ok o) ↔
      r.Readable ["level", "cast_duration", "cooldown"] ["detection_threshold"]
        ["type", "mask"]) ∧
    ((∃ c, Catalog.ofRaw r = .ok c) ↔
      ∀ e ∈ r.entries, e.1.Writable ∧ (Catalog.IsKey e.1 → Modifier.Readable e.2)) ∧
    ((∃ config, TimingConfig.ofRaw r = .ok config) ↔
      r.Readable ["tick_ms", "default_gcd_ticks"] [] []) := by
  refine ⟨Database.exists_addRaw_iff r.entries _, Overrides.exists_ofRaw_iff r, ?_,
    TimingConfig.exists_ofRaw_iff r⟩
  rw [← Catalog.exists_modifiersOfRaw_iff]
  simp only [Catalog.ofRaw, exists_bind_eq_ok_iff, Except.ok.injEq, exists_eq', and_true]

/-- The parameters of timing cannot be read if a tick is to be infinitely long. -/
example : TimingConfig.ofRaw (.record [(.text "tick_ms", .real (.infinite false))]) =
    .error .outOfRange := by
  rfl

end AbilityRotation
