import Mathlib.Tactic
import AbilityRotation.Modifier.Catalog
import AbilityRotation.Proofs.Outcome
import AbilityRotation.Proofs.Text.LowerCase

/-!
Catalogs of built modifiers.

A catalog is `Built` if it was made of modifiers that `Modifier.build` gives, in any order and with
any repetitions.  Its aliases may lead to a modifier that a later one with the same key replaced,
but the key of what they lead to is always defined.
* `normalizeKey_idem`: a normalized name is its own normal form.
* `definition?_ofList`, `resolve_ofList`: keys and aliases lead to the last modifier with them.
* `Catalog.Sound` is what every addition keeps, and `Catalog.Built.isSome_definition?` what follows.
* `built_default` and `built_ofRaw`: the catalogs that there are.
-/

namespace AbilityRotation

open Number Text

/-! ### Normal names -/

/-- A normalized name is its own normal form. -/
theorem normalizeKey_idem {s k : String} (h : normalizeKey s = some k) :
    normalizeKey k = some k := by
  obtain ⟨t, ht, rfl⟩ := Option.map_eq_some_iff.mp h
  obtain ⟨htrim, hne⟩ := trimmed?_eq_some_iff.mp ht
  have htight : Tight (lowerCase t).toList := by
    rw [lowerCase, String.toList_ofList, ← htrim, trim, String.toList_ofList]
    exact tight_lowerCaseAfter (tight_trimChars _)
  have hfull : (lowerCase t).isEmpty = false := by
    refine isEmpty_eq_false ?_
    rw [lowerCase, String.toList_ofList]
    exact lowerCaseAfter_ne_nil hne
  have hkeep : trim (lowerCase t) = lowerCase t := by
    rw [trim, trimChars_eq_self htight, String.ofList_toList]
  rw [normalizeKey, trimmed?, hkeep, hfull, if_neg Bool.false_ne_true, Option.map_some,
    lowerCase_lowerCase]

/-! ### Built modifiers -/

/-- Whether there are texts of which the modifier is built. -/
def Modifier.Built (m : Modifier) : Prop :=
  ∃ key aliases targets effect, Modifier.build key aliases targets effect = .ok m

/-- The key of a built modifier is a normal name. -/
lemma Modifier.Built.normalizeKey_key {m : Modifier} (h : m.Built) :
    normalizeKey m.key = some m.key := by
  obtain ⟨key, aliases, targets, effect, hm⟩ := h
  rw [Modifier.build] at hm
  split at hm
  · cases hm
  · next k hk =>
      cases hm
      exact normalizeKey_idem hk

/-- A modifier whose key is a normal name already. -/
lemma Modifier.built_of_normalizeKey {key : String} (h : normalizeKey key = some key)
    (aliases targets : List String) (effect : Effect) :
    Modifier.Built ⟨key, aliases.foldl addAlias [key], targets.filterMap normalizeKey, effect⟩ :=
  ⟨key, aliases, targets, effect, by rw [Modifier.build, h]⟩

namespace Catalog

variable {c : Catalog} {m : Modifier} {name : String}

/-- What the additions to a catalog keep: the aliases lead to modifiers whose keys are normal names
and defined. -/
def Sound (c : Catalog) : Prop :=
  ∀ name m, c.aliases.get? name = some m →
    normalizeKey m.key = some m.key ∧ (c.definitions.get? m.key).isSome = true

/-- Behind a name is the modifier that claimed it, or what was there before. -/
lemma get?_foldl_insert (names : List String) (t : Table Modifier) (m : Modifier) (name : String) :
    (names.foldl (fun t a => t.insert a m) t).get? name =
      if name ∈ names then some m else t.get? name := by
  induction names generalizing t with
  | nil => simp
  | cons a names ih =>
      rw [List.foldl_cons, ih, Table.get?_insert]
      by_cases ha : name = a <;> by_cases hrest : name ∈ names <;> simp [ha, hrest]

/-- Behind an alias is the last of the added modifiers that claims it, or what was there before. -/
lemma get?_aliases_foldl_add (ms : List Modifier) (c : Catalog) (name : String) :
    (ms.foldl Catalog.add c).aliases.get? name =
      (ms.reverse.find? (name ∈ ·.aliases)).or (c.aliases.get? name) := by
  induction ms generalizing c with
  | nil => simp
  | cons m ms ih =>
      rw [List.foldl_cons, ih, Catalog.add, get?_foldl_insert, List.reverse_cons, List.find?_append,
        Option.or_assoc]
      congr 1
      by_cases h : name ∈ m.aliases <;> simp [h]

/-- Behind a key is the last of the added modifiers that has it, or what was there before. -/
lemma get?_definitions_foldl_add (ms : List Modifier) (c : Catalog) (name : String) :
    (ms.foldl Catalog.add c).definitions.get? name =
      (ms.reverse.find? (·.key = name)).or (c.definitions.get? name) := by
  induction ms generalizing c with
  | nil => simp
  | cons m ms ih =>
      rw [List.foldl_cons, ih, Catalog.add, Table.get?_insert, List.reverse_cons, List.find?_append,
        Option.or_assoc]
      congr 1
      by_cases h : name = m.key <;> simp [h, eq_comm]

/-- A key leads to the last modifier that has it. -/
theorem definition?_ofList (ms : List Modifier) (name : String) :
    (ofList ms).definition? name =
      (normalizeKey name).bind fun key => ms.reverse.find? (·.key = key) := by
  simp [definition?, ofList, get?_definitions_foldl_add, empty]

/-- An alias leads to the last modifier that claims it. -/
theorem resolve_ofList (ms : List Modifier) (name : String) :
    (ofList ms).resolve name =
      (normalizeKey name).bind fun a => ms.reverse.find? (a ∈ ·.aliases) := by
  simp [resolve, ofList, get?_aliases_foldl_add, empty]

/-- A name leads to one of the modifiers of a catalog. -/
lemma mem_of_resolve {ms : List Modifier} (h : (ofList ms).resolve name = some m) : m ∈ ms := by
  rw [resolve_ofList] at h
  obtain ⟨a, -, hfind⟩ := Option.bind_eq_some_iff.mp h
  exact List.mem_reverse.mp (List.mem_of_find?_eq_some hfind)

/-- A key leads to one of the modifiers of a catalog. -/
lemma mem_of_definition? {ms : List Modifier} (h : (ofList ms).definition? name = some m) :
    m ∈ ms := by
  rw [definition?_ofList] at h
  obtain ⟨key, -, hfind⟩ := Option.bind_eq_some_iff.mp h
  exact List.mem_reverse.mp (List.mem_of_find?_eq_some hfind)

/-- One more modifier is defined itself, and leaves all keys defined. -/
lemma Sound.add (h : c.Sound) (hm : normalizeKey m.key = some m.key) : (c.add m).Sound := by
  intro name old hold
  rw [Catalog.add, get?_foldl_insert] at hold
  rw [Catalog.add, Table.get?_insert]
  split at hold
  · cases hold
    exact ⟨hm, by rw [if_pos rfl]; rfl⟩
  · obtain ⟨hkey, hdefined⟩ := h name old hold
    refine ⟨hkey, ?_⟩
    split
    · rfl
    · exact hdefined

lemma sound_foldl_add {ms : List Modifier} (h : c.Sound)
    (hms : ∀ m ∈ ms, normalizeKey m.key = some m.key) : (ms.foldl Catalog.add c).Sound := by
  induction ms generalizing c with
  | nil => exact h
  | cons m ms ih =>
      exact ih (h.add (hms m List.mem_cons_self)) fun m' hm' => hms m' (List.mem_cons_of_mem _ hm')

/-- Whether the catalog is made of built modifiers. -/
def Built (c : Catalog) : Prop :=
  ∃ ms : List Modifier, (∀ m ∈ ms, m.Built) ∧ c = ofList ms

/-- The key of what an alias leads to is defined. -/
theorem Built.isSome_definition? (h : c.Built) (hm : c.resolve name = some m) :
    (c.definition? m.key).isSome = true := by
  obtain ⟨ms, hms, rfl⟩ := h
  have hempty : Catalog.empty.Sound := fun _ _ hnone => by cases hnone
  have hsound : (ofList ms).Sound := sound_foldl_add hempty fun m hm => (hms m hm).normalizeKey_key
  obtain ⟨key, -, hget⟩ := Option.bind_eq_some_iff.mp hm
  obtain ⟨hkey, hdefined⟩ := hsound key m hget
  rw [definition?, hkey]
  exact hdefined

/-- The modifiers of the default catalog are built. -/
lemma built_of_mem_default : ∀ m ∈ [graniteMaul, armadylBattlestaff], m.Built := by
  intro m hm
  simp only [List.mem_cons, List.not_mem_nil, or_false] at hm
  rcases hm with rfl | rfl
  · exact ⟨"gmaul", [], ["spec", "eofspec"], graniteMaul.effect, by decide⟩
  · exact ⟨"armadylbattlestaff", ["armabattlestaff"], ["spec", "eofspec"],
      armadylBattlestaff.effect, by decide⟩

/-- The default catalog is built. -/
theorem built_default : Catalog.default.Built :=
  ⟨_, built_of_mem_default, rfl⟩

/-- A name that a scalar gives is a normal name. -/
lemma normalizeKey_of_normalizedKey? {k : Scalar} {key : String}
    (h : k.normalizedKey? = .ok (some key)) : normalizeKey key = some key := by
  unfold Scalar.normalizedKey? at h
  split at h
  · cases h
  · obtain ⟨text, -, htext⟩ := map_eq_ok_iff.mp h
    exact normalizeKey_idem htext

/-- A modifier under the normalized name of an entry is built. -/
lemma built_of_normalizedKey? {k : Scalar} {key : String} {v : Raw}
    (hk : k.normalizedKey? = .ok (some key)) (hm : Modifier.ofRaw key v = .ok m) : m.Built := by
  have hkey := normalizeKey_of_normalizedKey? hk
  obtain ⟨aliases, -, h⟩ := bind_eq_ok_iff.mp hm
  obtain ⟨targets, -, h⟩ := bind_eq_ok_iff.mp h
  obtain ⟨effect, -, h⟩ := bind_eq_ok_iff.mp h
  cases h
  exact Modifier.built_of_normalizeKey hkey _ _ _

/-- What holds of each modifier that is read from an entry of a raw record holds of all modifiers
that are read from its entries. -/
lemma forall_of_modifiersOfRaw {P : Modifier → Prop} {es : List (Scalar × Raw)}
    {ms : List Modifier} {notices : List Notice}
    (hP : ∀ (k : Scalar) key v m,
      k.normalizedKey? = .ok (some key) → Modifier.ofRaw key v = .ok m → P m)
    (h : modifiersOfRaw es = .ok (ms, notices)) : ∀ m ∈ ms, P m := by
  induction es generalizing ms notices with
  | nil =>
      cases h
      simp
  | cons e es ih =>
      obtain ⟨k, v⟩ := e
      rw [modifiersOfRaw] at h
      obtain ⟨key?, hkey, h⟩ := bind_eq_ok_iff.mp h
      cases key? with
      | none =>
          obtain ⟨⟨rest, more⟩, hrest, h⟩ := bind_eq_ok_iff.mp h
          cases h
          exact ih hrest
      | some key =>
          obtain ⟨m, hm, h⟩ := bind_eq_ok_iff.mp h
          obtain ⟨⟨rest, more⟩, hrest, h⟩ := bind_eq_ok_iff.mp h
          cases h
          rw [List.forall_mem_cons]
          exact ⟨hP k key v m hkey hm, ih hrest⟩

/-- The catalog of a raw record consists of the modifiers of its entries. -/
lemma exists_of_ofRaw {P : Modifier → Prop} {r : Raw} {notices : List Notice}
    (hP : ∀ (k : Scalar) key v m,
      k.normalizedKey? = .ok (some key) → Modifier.ofRaw key v = .ok m → P m)
    (h : Catalog.ofRaw r = .ok (c, notices)) : ∃ ms, (∀ m ∈ ms, P m) ∧ c = ofList ms := by
  obtain ⟨⟨ms, before⟩, hms, hc⟩ := bind_eq_ok_iff.mp h
  cases hc
  exact ⟨ms, forall_of_modifiersOfRaw hP hms, rfl⟩

/-- The catalog of a raw record is built. -/
theorem built_ofRaw {r : Raw} {notices : List Notice} (h : Catalog.ofRaw r = .ok (c, notices)) :
    c.Built :=
  exists_of_ofRaw (fun _ _ _ _ => built_of_normalizedKey?) h

end Catalog

end AbilityRotation
