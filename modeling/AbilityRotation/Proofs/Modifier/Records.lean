import AbilityRotation.Proofs.Modifier.Replaced
import AbilityRotation.Proofs.Raw.Fields

/-!
Catalogs are read back from their records.

Reading a modifier normalizes its names and brings its ticks into range, and a modifier in this
normal form is read back as it was written.  The record of a catalog holds the modifiers under their
keys only, so the modifiers are read back, in their order, but not which of them claims an alias.
* `Modifier.Normal` says which modifiers reading gives (`normal_ofRaw`), and `Normal.ofRaw_toRaw`
  that such modifiers are read back.
* `Catalog.definitions_ofList`: the modifiers of a catalog are the table of what was added.
* `Catalog.Normal.exists_ofRaw`: the modifiers of a normal catalog are read back.
* `Catalog.pairwise_suitableFor`: modifiers are listed in the strict order of their keys.
* `Catalog.exists_ofRaw_toRaw` puts this together for the catalogs that are read.
-/

namespace AbilityRotation

open Number

/-! ### Effects -/

namespace Effect

variable {r : Raw} {e : Effect}

/-- Whether the ticks of an effect lie in their range. -/
structure Normal (e : Effect) : Prop where
  /-- The time for casting is a number of ticks. -/
  castDuration : ∀ n ∈ e.castDuration, 0 ≤ n ∧ n ≤ maxTicks
  /-- The cooldown is a number of ticks. -/
  cooldown : ∀ n ∈ e.cooldown, 0 ≤ n ∧ n ≤ maxTicks

/-- An effect that is read from a raw record is normal. -/
lemma normal_ofRaw (h : Effect.ofRaw r = .ok e) : e.Normal := by
  have hclamped : ∀ x : Option ℤ, ∀ n ∈ x.map (clamp 0 maxTicks), 0 ≤ n ∧ n ≤ maxTicks := by
    intro x n hn
    obtain ⟨m, -, rfl⟩ := Option.mem_map.mp hn
    exact clamp_mem (by decide) m
  rw [ofRaw] at h
  obtain ⟨castDuration, -, h⟩ := bind_eq_ok_iff.mp h
  obtain ⟨cooldown, -, h⟩ := bind_eq_ok_iff.mp h
  cases h
  exact ⟨hclamped castDuration, hclamped cooldown⟩

/-- A normal effect is read back from its record. -/
lemma Normal.ofRaw_toRaw (h : e.Normal) : Effect.ofRaw e.toRaw = .ok e := by
  have hclamp : ∀ {x : Option ℤ}, (∀ n ∈ x, 0 ≤ n ∧ n ≤ maxTicks) →
      x.map (clamp 0 maxTicks) = x := by
    intro x hx
    cases x with
    | none => rfl
    | some n => exact congrArg some (clamp_eq_self (hx n rfl).1 (hx n rfl).2)
  rw [ofRaw, toRaw]
  simp only [List.append_assoc, Raw.field_optionalEntry, Raw.field_optionalEntry_nil,
    String.reduceEq, if_true, if_false]
  rw [Raw.integer?_getD, Raw.integer?_getD, Raw.flag?_getD]
  change Except.ok _ = Except.ok e
  rw [hclamp h.castDuration, hclamp h.cooldown]

end Effect

/-! ### Modifiers -/

namespace Modifier

variable {r : Raw} {m : Modifier} {key : String} {names aliases : List String}

/-- Whether a modifier is in the form that reading gives. -/
structure Normal (m : Modifier) : Prop where
  /-- The key is the first alias. -/
  head? : m.aliases.head? = some m.key
  /-- No alias occurs twice. -/
  nodup : m.aliases.Nodup
  /-- The aliases are normal names. -/
  aliases : ∀ a ∈ m.aliases, normalizeKey a = some a
  /-- The target patterns are normal names. -/
  targets : ∀ t ∈ m.targets, normalizeKey t = some t
  /-- The ticks of the effect lie in their range. -/
  effect : m.effect.Normal

/-- The key of a normal modifier is a normal name. -/
lemma Normal.normalizeKey_key (h : m.Normal) : normalizeKey m.key = some m.key :=
  h.aliases m.key (List.mem_of_head? h.head?)

/-- Adding an alias keeps the first one. -/
lemma head?_addAlias {name : String} (h : aliases.head? = some key) :
    (addAlias aliases name).head? = some key := by
  rw [addAlias]
  split
  · exact h
  · split
    · exact h
    · rw [List.head?_append, h, Option.some_or]

/-- Adding an alias repeats none. -/
lemma nodup_addAlias {name : String} (h : aliases.Nodup) : (addAlias aliases name).Nodup := by
  rw [addAlias]
  split
  · exact h
  · next a _ =>
      split
      · exact h
      · next ha => exact List.nodup_append.mpr ⟨h, List.nodup_singleton a, by
          rintro b hb _ hc rfl
          exact ha (List.mem_singleton.mp hc ▸ hb)⟩

/-- A modifier that is read under a normal name is normal. -/
lemma normal_ofRaw (hkey : normalizeKey key = some key) (h : Modifier.ofRaw key r = .ok m) :
    m.Normal := by
  rw [ofRaw] at h
  obtain ⟨names, -, h⟩ := bind_eq_ok_iff.mp h
  obtain ⟨targets, -, h⟩ := bind_eq_ok_iff.mp h
  obtain ⟨effect, heffect, h⟩ := bind_eq_ok_iff.mp h
  cases h
  constructor
  case head? =>
    refine List.foldlRecOn names addAlias (motive := fun l => l.head? = some key) ?_
      fun l hl name _ => head?_addAlias hl
    rfl
  case nodup =>
    exact List.foldlRecOn names addAlias (motive := List.Nodup) (List.nodup_singleton key)
      fun l hl name _ => nodup_addAlias hl
  case aliases =>
    refine List.foldlRecOn names addAlias (motive := fun l => ∀ a ∈ l, normalizeKey a = some a)
      ?_ fun l hl name _ => forall_addAlias hl
    exact List.forall_mem_singleton.mpr hkey
  case targets =>
    intro t ht
    obtain ⟨s, -, hs⟩ := List.mem_filterMap.mp ht
    exact normalizeKey_idem hs
  case effect => exact Effect.normal_ofRaw heffect

/-- Normal names that are new are added as they are. -/
lemma foldl_addAlias_eq_append (hnames : ∀ a ∈ names, normalizeKey a = some a)
    (h : (aliases ++ names).Nodup) : names.foldl addAlias aliases = aliases ++ names := by
  induction names generalizing aliases with
  | nil => exact (List.append_nil aliases).symm
  | cons a names ih =>
      rw [List.forall_mem_cons] at hnames
      have hfresh : a ∉ aliases := fun ha => (List.nodup_append.mp h).2.2 a ha a (by simp) rfl
      have hadd : addAlias aliases a = aliases ++ [a] := by
        simp only [addAlias, hnames.1, if_neg hfresh]
      rw [List.foldl_cons, hadd, ih hnames.2 (by simpa using h), List.append_assoc,
        List.singleton_append]

/-- The aliases of a normal modifier are collected again as they are. -/
lemma Normal.foldl_addAlias (h : m.Normal) : m.aliases.foldl addAlias [m.key] = m.aliases := by
  obtain ⟨names, hnames⟩ : ∃ names, m.aliases = m.key :: names :=
    List.head?_eq_some_iff.mp h.head?
  have haliases := h.aliases
  have hnodup := h.nodup
  rw [hnames, List.forall_mem_cons] at haliases
  rw [hnames] at hnodup
  have hkey : addAlias [m.key] m.key = [m.key] := by
    simp only [addAlias, haliases.1, List.mem_singleton, if_true]
  rw [hnames, List.foldl_cons, hkey, foldl_addAlias_eq_append haliases.2 hnodup]
  rfl

/-- **A normal modifier is read back from its record.** -/
theorem Normal.ofRaw_toRaw (h : m.Normal) : Modifier.ofRaw m.key m.toRaw = .ok m := by
  have htargets : m.targets.filterMap normalizeKey = m.targets :=
    calc m.targets.filterMap normalizeKey = m.targets.filterMap some :=
          List.filterMap_congr fun t ht => h.targets t ht
      _ = m.targets := List.filterMap_some
  rw [ofRaw, toRaw]
  simp only [Raw.field_cons, String.reduceEq, if_true, if_false]
  rw [Raw.textsOf_texts, Raw.textsOf_texts, h.effect.ofRaw_toRaw]
  change Except.ok _ = Except.ok m
  rw [h.foldl_addAlias, htargets]

end Modifier

/-! ### Catalogs -/

namespace Catalog

variable {r : Raw} {c : Catalog} {notices : List Notice} {m : Modifier} {ms : List Modifier}
  {ability : Option String}

/-- The modifiers of a catalog, under their keys. -/
lemma definitions_ofList (ms : List Modifier) :
    (ofList ms).definitions = Table.ofList (ms.map fun m => (m.key, m)) := by
  have h : ∀ c : Catalog, (ms.foldl add c).definitions =
      (ms.map fun m => (m.key, m)).foldl (fun t e => t.insert e.1 e.2) c.definitions := by
    induction ms with
    | nil => exact fun _ => rfl
    | cons m ms ih => exact fun c => ih (c.add m)
  exact h empty

/-- Whether the modifiers of a catalog are normal and stand under their keys. -/
def Normal (c : Catalog) : Prop :=
  ∀ e ∈ c.definitions.entries, e.1 = e.2.key ∧ e.2.Normal

lemma normal_ofList (h : ∀ m ∈ ms, m.Normal) : (ofList ms).Normal := by
  rw [Normal, definitions_ofList]
  refine Table.forall_entries_foldl_insert (by simp [Table.empty]) fun e he => ?_
  obtain ⟨m, hm, rfl⟩ := List.mem_map.mp he
  exact ⟨rfl, h m hm⟩

/-- A catalog that is read from a raw record is built from normal modifiers. -/
lemma exists_normal_of_ofRaw (h : Catalog.ofRaw r = .ok (c, notices)) :
    ∃ ms, (∀ m ∈ ms, m.Normal) ∧ c = ofList ms :=
  exists_of_ofRaw
    (fun _ _ _ _ hkey hm => Modifier.normal_ofRaw (normalizeKey_of_normalizedKey? hkey) hm) h

/-- A catalog that is read from a raw record is normal. -/
lemma normal_ofRaw (h : Catalog.ofRaw r = .ok (c, notices)) : c.Normal := by
  obtain ⟨ms, hms, rfl⟩ := exists_normal_of_ofRaw h
  exact normal_ofList hms

/-- In a normal catalog the entries are given by the modifiers. -/
lemma Normal.map_values (h : c.Normal) :
    (c.definitions.values.map fun m => (m.key, m)) = c.definitions.entries := by
  rw [Table.values, List.map_map]
  calc c.definitions.entries.map ((fun m => (m.key, m)) ∘ Prod.snd)
      = c.definitions.entries.map id :=
        List.map_congr_left fun e he => Prod.ext (h e he).1.symm rfl
    _ = c.definitions.entries := List.map_id _

/-- In a normal catalog no two modifiers have the same key. -/
lemma Normal.nodup_keys (h : c.Normal) : (c.definitions.values.map (·.key)).Nodup := by
  have hkeys : c.definitions.values.map (·.key) = c.definitions.entries.map Prod.fst := by
    rw [← h.map_values, List.map_map]
    rfl
  exact hkeys ▸ c.definitions.nodup

/-- Normal modifiers are read back from the entries with their records. -/
lemma modifiersOfRaw_toRaw {entries : List (String × Modifier)}
    (h : ∀ e ∈ entries, e.1 = e.2.key ∧ e.2.Normal) :
    modifiersOfRaw (entries.map fun e => (.text e.1, e.2.toRaw)) =
      .ok (entries.map Prod.snd, []) := by
  induction entries with
  | nil => rfl
  | cons e entries ih =>
      obtain ⟨key, m⟩ := e
      rw [List.forall_mem_cons] at h
      obtain ⟨⟨hkey, hm⟩, hrest⟩ := h
      dsimp only at hkey hm
      subst hkey
      have hkey : (Scalar.text m.key).normalizedKey? = .ok (some m.key) :=
        congrArg Except.ok hm.normalizeKey_key
      rw [List.map_cons, modifiersOfRaw]
      refine bind_eq_ok_iff.mpr ⟨some m.key, hkey, bind_eq_ok_iff.mpr ⟨m, hm.ofRaw_toRaw, ?_⟩⟩
      exact bind_eq_ok_iff.mpr ⟨_, ih hrest, rfl⟩

/-- The modifiers of a normal catalog are read back from its record. -/
lemma Normal.exists_ofRaw (h : c.Normal) :
    ∃ c' notices, Catalog.ofRaw c.toRaw = .ok (c', notices) ∧ c'.definitions = c.definitions := by
  refine ⟨ofList c.definitions.values, empty.buildNotices c.definitions.values, ?_, ?_⟩
  · rw [ofRaw, toRaw, Raw.entries, modifiersOfRaw_toRaw h]
    rfl
  · rw [definitions_ofList, h.map_values, Table.ofList_entries]

/-- Listed for an ability are the modifiers that accept it. -/
lemma mem_suitableFor_iff :
    m ∈ c.suitableFor ability ↔ m ∈ c.definitions.values ∧ ability.any m.accepts = true := by
  rw [suitableFor, List.mem_mergeSort, List.mem_filter]

/-- Where no two modifiers have the same key, they are listed in the strict order of their keys. -/
lemma pairwise_suitableFor (h : (c.definitions.values.map (·.key)).Nodup) :
    ((c.suitableFor ability).map (·.key)).Pairwise (· < ·) := by
  have hsorted : (c.suitableFor ability).Pairwise fun m m' => m.key ≤ m'.key := by
    have hsort := @List.pairwise_mergeSort _ (fun m m' : Modifier => decide (m.key ≤ m'.key))
      (fun _ _ _ hab hbc =>
        decide_eq_true (String.le_trans (of_decide_eq_true hab) (of_decide_eq_true hbc)))
      (fun m m' => by simpa using String.le_total m.key m'.key)
      (c.definitions.values.filter fun m => ability.any m.accepts)
    simpa [suitableFor] using hsort
  -- sorting and choosing keep the keys distinct, so the order is strict
  have hperm : (c.suitableFor ability).Perm
      (c.definitions.values.filter fun m => ability.any m.accepts) :=
    List.mergeSort_perm _ _
  have hsublist : (c.definitions.values.filter fun m => ability.any m.accepts).Sublist
      c.definitions.values :=
    List.filter_sublist
  have hnodup : ((c.suitableFor ability).map (·.key)).Nodup :=
    (hperm.map (·.key)).nodup_iff.mpr ((hsublist.map (·.key)).nodup h)
  rw [List.pairwise_map]
  exact hsorted.imp₂
    (fun _ _ hle hne => String.not_le.mp fun hge => hne (String.le_antisymm hle hge))
    (List.pairwise_map.mp hnodup)

/-- **Catalogs are read back.**  A catalog that was read from a raw record is written as a record
from which the same modifiers are read, in the same order.  No two of its modifiers have the same
key, and for any ability, given or not, those that accept it are listed in the strict order of their
keys. -/
theorem exists_ofRaw_toRaw (h : Catalog.ofRaw r = .ok (c, notices)) :
    (∃ c' notices', Catalog.ofRaw c.toRaw = .ok (c', notices') ∧
        c'.definitions = c.definitions) ∧
      (c.definitions.values.map (·.key)).Nodup ∧
      ∀ ability, (∀ m, m ∈ c.suitableFor ability ↔
          m ∈ c.definitions.values ∧ ability.any m.accepts = true) ∧
        ((c.suitableFor ability).map (·.key)).Pairwise (· < ·) := by
  have hnormal := normal_ofRaw h
  exact ⟨hnormal.exists_ofRaw, hnormal.nodup_keys, fun ability =>
    ⟨fun m => mem_suitableFor_iff, pairwise_suitableFor hnormal.nodup_keys⟩⟩

/-- Two entries for `maul` under keys that differ in their spelling, one of them with aliases that
are no list, an entry without a key, and one under a truth value with an alias that is given twice
and a cooldown beyond its range. -/
theorem exists_ofRaw_toRaw_maul :
    let r : Raw := .record
      [(.text "Maul", .record [(.text "targets", .list [.text "Sp*", .null])]),
        (.null, .null),
        (.flag true, .record
          [(.text "aliases", .list [.text " Always", .text "always"]),
            (.text "effect", .record [(.text "cooldown", .whole 40000)])]),
        (.text " maul ", .record
          [(.text "aliases", .text "hammer"), (.text "targets", .list [.text " SPEC "])])]
    let c : Catalog := ofList
      [⟨"maul", ["maul"], ["sp*"], {}⟩,
        ⟨"true", ["true", "always"], [], { cooldown := some 32767 }⟩,
        ⟨"maul", ["maul"], ["spec"], {}⟩]
    Catalog.ofRaw r = .ok (c, [.modifierWithoutKey, .modifierReplaced "maul"]) ∧
      (∃ c' notices', Catalog.ofRaw c.toRaw = .ok (c', notices') ∧
        c'.definitions = c.definitions) ∧
      (c.definitions.values.map (·.key)).Nodup ∧
      ∀ ability, (∀ m, m ∈ c.suitableFor ability ↔
          m ∈ c.definitions.values ∧ ability.any m.accepts = true) ∧
        ((c.suitableFor ability).map (·.key)).Pairwise (· < ·) := by
  intro r c
  have hread : Catalog.ofRaw r = .ok (c, [.modifierWithoutKey, .modifierReplaced "maul"]) := by
    decide
  exact ⟨hread, exists_ofRaw_toRaw hread⟩

end Catalog

end AbilityRotation
