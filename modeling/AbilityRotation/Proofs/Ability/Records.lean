import AbilityRotation.Ability.Database
import AbilityRotation.Proofs.Raw.Fields

/-!
Databases are read back from their records.

Whatever stands in a raw record, reading it brings each datum of an ability into its range, and data
in range are read back as they were written.  So reading is a normalization: a second reading, of
the record of what the first one gave, changes nothing.
* `Ability.Regular` says which data reading gives (`regular_ofRaw`), and `Regular.ofRaw_toRaw` that
  such data are read back.
* `Database.exists_of_addRaw`: reading inserts the entries that have a key, in their order.
* `Database.exists_toRaw_of_ofRaw`: a database that was read is regular and is read back, with its
  keys in their order.
-/

namespace AbilityRotation

open Number Text

/-! ### Abilities -/

namespace Ability

variable {r : Raw} {a : Ability}

/-- Whether the data of an ability lie in their ranges. -/
structure Regular (a : Ability) : Prop where
  /-- The time for casting is a number of ticks. -/
  castDuration : 0 ≤ a.castDuration ∧ a.castDuration ≤ 32767
  /-- The cooldown is a number of ticks. -/
  cooldown : 0 ≤ a.cooldown ∧ a.cooldown ≤ 32767
  /-- A level is not negative. -/
  level : ∀ n ∈ a.level, 0 ≤ n
  /-- A threshold is a finite floating-point number. -/
  detectionThreshold : ∀ t ∈ a.detectionThreshold, ∃ x, t = .real x ∧ x.isFinite = true
  /-- A name is trimmed. -/
  commonName : ∀ s ∈ a.commonName, Trimmed s
  /-- A type is trimmed. -/
  type : ∀ s ∈ a.type, Trimmed s
  /-- A mask is trimmed. -/
  mask : ∀ s ∈ a.mask, Trimmed s

/-- An ability that is read from a raw record is regular. -/
lemma regular_ofRaw (h : Ability.ofRaw r = .ok a) : a.Regular := by
  rw [ofRaw] at h
  obtain ⟨level, -, h⟩ := bind_eq_ok_iff.mp h
  obtain ⟨castDuration, -, h⟩ := bind_eq_ok_iff.mp h
  obtain ⟨cooldown, -, h⟩ := bind_eq_ok_iff.mp h
  obtain ⟨commonName, hname, h⟩ := bind_eq_ok_iff.mp h
  obtain ⟨type, htype, h⟩ := bind_eq_ok_iff.mp h
  obtain ⟨threshold, hthreshold, h⟩ := bind_eq_ok_iff.mp h
  obtain ⟨mask, hmask, h⟩ := bind_eq_ok_iff.mp h
  cases h
  constructor
  case castDuration => exact clamp_mem (by decide) castDuration
  case cooldown => exact clamp_mem (by decide) cooldown
  case level =>
    intro n hn
    obtain ⟨k, -, rfl⟩ := Option.mem_map.mp hn
    exact le_max_left 0 k
  case detectionThreshold =>
    intro t ht
    obtain ⟨x, hx, rfl⟩ := Option.mem_map.mp ht
    exact ⟨x, rfl, Raw.isFinite_of_real? hthreshold x hx⟩
  case commonName => exact Raw.trimmed_of_text? hname
  case type => exact Raw.trimmed_of_text? htype
  case mask => exact Raw.trimmed_of_text? hmask

/-- The threshold of a regular ability is written as the number that it is. -/
lemma Regular.exists_threshold (h : a.Regular) :
    ∃ x : Option Binary64, a.detectionThreshold.mapM Threshold.toReal = .ok x ∧
      x.map .real = a.detectionThreshold ∧ ∀ y ∈ x, y.isFinite = true := by
  have hthreshold := h.detectionThreshold
  cases ht : a.detectionThreshold with
  | none => exact ⟨none, rfl, rfl, by simp⟩
  | some t =>
      obtain ⟨x, rfl, hx⟩ := hthreshold t ht
      exact ⟨some x, rfl, rfl, by simpa using hx⟩

/-- The level of a regular ability stays as it is when it is read again. -/
lemma Regular.map_atLeastZero (h : a.Regular) : a.level.map atLeastZero = a.level := by
  cases hl : a.level with
  | none => rfl
  | some n => exact congrArg some (max_eq_right (h.level n hl))

/-- **A regular ability is read back from its record.** -/
theorem Regular.ofRaw_toRaw (h : a.Regular) :
    ∃ raw, a.toRaw = .ok raw ∧ Ability.ofRaw raw = .ok a := by
  obtain ⟨threshold, hthreshold, hsame, hfinite⟩ := h.exists_threshold
  refine ⟨_, by rw [toRaw, hthreshold]; rfl, ?_⟩
  -- each field of the record leads to the value that was written under its name
  rw [ofRaw]
  simp only [List.cons_append, List.nil_append, List.append_assoc, Raw.field_cons,
    Raw.field_optionalEntry, Raw.field_optionalEntry_nil, String.reduceEq, if_true, if_false]
  rw [Raw.integer?_getD, Raw.integerOr_whole, Raw.integerOr_whole, Raw.text?_getD h.commonName,
    Raw.text?_getD h.type, Raw.real?_getD hfinite, Raw.text?_getD h.mask, Raw.flagOr_flag]
  change Except.ok _ = Except.ok a
  have hcast : clamp 0 maxTicks a.castDuration = a.castDuration :=
    clamp_eq_self h.castDuration.1 h.castDuration.2
  have hcooldown : clamp 0 maxTicks a.cooldown = a.cooldown :=
    clamp_eq_self h.cooldown.1 h.cooldown.2
  rw [hcast, hcooldown, h.map_atLeastZero, hsame]

end Ability

/-! ### Databases -/

namespace Database

variable {r : Raw} {db db' : Database}

/-- Whether the keys of a database are trimmed and its abilities regular. -/
def Regular (db : Database) : Prop :=
  ∀ e ∈ db.abilities.entries, Trimmed e.1 ∧ e.2.Regular

/-- Raw entries add the abilities of those among them that have a key. -/
lemma exists_of_addRaw {es : List (Scalar × Raw)} (h : db.addRaw es = .ok db') :
    ∃ entries : List (String × Ability),
      (∀ e ∈ entries, Trimmed e.1 ∧ ∃ raw, Ability.ofRaw raw = .ok e.2) ∧
      db'.abilities = entries.foldl (fun t e => t.insert e.1 e.2) db.abilities := by
  induction es generalizing db with
  | nil =>
      cases h
      exact ⟨[], by simp, rfl⟩
  | cons e es ih =>
      obtain ⟨k, v⟩ := e
      rw [addRaw] at h
      split at h
      · exact ih h
      · next key hkey =>
          obtain ⟨a, ha, h⟩ := bind_eq_ok_iff.mp h
          obtain ⟨entries, hentries, htable⟩ := ih h
          have htrim : Trimmed key := by
            unfold keyOf? at hkey
            split at hkey
            · exact trimmed_of_trimmed? hkey
            · cases hkey
          refine ⟨(key, a) :: entries, ?_, htable⟩
          rw [List.forall_mem_cons]
          exact ⟨⟨htrim, v, ha⟩, hentries⟩

/-- A database that is read from a raw record is regular. -/
lemma regular_ofRaw (h : Database.ofRaw r = .ok db) : db.Regular := by
  obtain ⟨entries, hentries, htable⟩ := exists_of_addRaw h
  rw [Regular, htable]
  refine Table.forall_entries_foldl_insert (by simp [Table.empty]) fun e he => ?_
  obtain ⟨hkey, raw, ha⟩ := hentries e he
  exact ⟨hkey, Ability.regular_ofRaw ha⟩

/-- What is looked up in a regular database is regular. -/
lemma Regular.of_lookup {key : String} {a : Ability} (h : db.Regular)
    (ha : db.lookup key = some a) : a.Regular := by
  rw [lookup] at ha
  split at ha
  · cases ha
  · exact (h _ (Table.mem_entries_of_get? ha)).2

/-- The records of regular abilities add these abilities. -/
lemma exists_entriesToRaw {entries : List (String × Ability)}
    (h : ∀ e ∈ entries, Trimmed e.1 ∧ e.2.Regular) :
    ∃ es, entriesToRaw entries = .ok es ∧ ∀ db : Database,
      db.addRaw es = .ok ⟨entries.foldl (fun t e => t.insert e.1 e.2) db.abilities⟩ := by
  induction entries with
  | nil => exact ⟨[], rfl, fun _ => rfl⟩
  | cons e entries ih =>
      obtain ⟨key, a⟩ := e
      rw [List.forall_mem_cons] at h
      obtain ⟨⟨hkey, ha⟩, hrest⟩ := h
      obtain ⟨es, hes, hadd⟩ := ih hrest
      obtain ⟨raw, hraw, hread⟩ := ha.ofRaw_toRaw
      have htrim : keyOf? (.text key) = some key := trimmed?_eq_self_iff.mpr hkey
      refine ⟨(.text key, raw) :: es, ?_, fun db => ?_⟩
      · rw [entriesToRaw, hraw, hes]
        rfl
      · rw [addRaw, htrim, hread]
        exact hadd _

/-- A regular database is read back from its record. -/
lemma Regular.exists_toRaw (h : db.Regular) :
    ∃ raw, db.toRaw = .ok raw ∧ Database.ofRaw raw = .ok db := by
  obtain ⟨es, hes, hadd⟩ := exists_entriesToRaw h
  refine ⟨.record es, by rw [toRaw, hes]; rfl, ?_⟩
  have htable : db.abilities.entries.foldl (fun t e => t.insert e.1 e.2) Table.empty =
      db.abilities := Table.ofList_entries db.abilities
  rw [ofRaw, Raw.entries, hadd, htable]

/-- **Databases are read back.**  A database that was read from a raw record is written as a record
from which the same database is read, with its keys in the same order; its keys are trimmed, and the
data of its abilities lie in their ranges. -/
theorem exists_toRaw_of_ofRaw (h : Database.ofRaw r = .ok db) :
    (∃ raw, db.toRaw = .ok raw ∧ Database.ofRaw raw = .ok db) ∧
      ∀ e ∈ db.abilities.entries, Trimmed e.1 ∧ e.2.Regular :=
  ⟨(regular_ofRaw h).exists_toRaw, regular_ofRaw h⟩

/-- Two entries for `surge` under keys that differ in their blanks, data of other kinds and beyond
their ranges, and an entry under a number. -/
theorem exists_toRaw_of_ofRaw_surge :
    let r : Raw := .record
      [(.text " surge ", .record [(.text "mask", .text "m")]),
        (.whole 5, .null),
        (.text "surge", .record
          [(.text "level", .whole (-3)), (.text "common_name", .text " Surge "),
            (.text "cast_duration", .flag true), (.text "cooldown", .text "40000"),
            (.text "detection_threshold", .real .nan)])]
    let db : Database := ⟨Table.ofList
      [("surge",
        { castDuration := 1
          cooldown := 32767
          commonName := some "Surge"
          level := some 0 })]⟩
    Database.ofRaw r = .ok db ∧ (∃ raw, db.toRaw = .ok raw ∧ Database.ofRaw raw = .ok db) ∧
      ∀ e ∈ db.abilities.entries, Trimmed e.1 ∧ e.2.Regular := by
  intro r db
  have hread : Database.ofRaw r = .ok db := by decide
  exact ⟨hread, exists_toRaw_of_ofRaw hread⟩

end Database

end AbilityRotation
