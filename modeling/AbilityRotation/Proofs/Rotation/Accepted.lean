import AbilityRotation.Proofs.Resolution.Steps
import AbilityRotation.Proofs.Rotation.Diagnostics
import AbilityRotation.Proofs.Rotation.Faults
import AbilityRotation.Proofs.Settings.Lines

/-!
Accepted rotations are those that can be resolved.

A text is accepted if it is read without an error among the diagnostics, and the only errors about a
rotation that was read are abilities that are not known.  These are what strict resolving stops at,
unless a threshold of the database cannot take effect; those that a text sets always can.
* `exists_compile`: every text is compiled.
* `isOk_compile_iff_known`: which texts are accepted.
* `forall_step_iff_of_parse`: when the steps of a rotation that was read are resolved.
* `resolved_iff_isOk_compile`: the steps of a text are resolved exactly if it is accepted and the
  database has no threshold out of range for it; their data are those of the uses in order.
* `isOk_compile_iff_of_ofRaw`: a database that was read from a raw record has no such threshold.
-/

namespace AbilityRotation

open Number

variable {options : ParseOptions} {db : Database} {text : String} {d : Rotation} {u : AbilityUse}

/-! ### Errors among the findings -/

lemma Finding.isError_diagnostic (f : Finding) (path : String) :
    (f.diagnostic path).isError = decide (f.severity = .error) := by
  cases f <;> rfl

/-- A compiled text is in order exactly if there is a rotation and no error among the findings. -/
lemma Compilation.isOk_iff (c : Compilation) :
    c.isOk = true ↔ c.rotation.isSome = true ∧ ∀ f ∈ c.findings, f.finding.severity ≠ .error := by
  simp [isOk, errors, diagnostics, LocatedFinding.diagnostic, Finding.isError_diagnostic]

/-- The only error about a use is that its ability is not known. -/
lemma CheckContext.forall_severity_findingsOfUse (c : CheckContext) (u : AbilityUse) :
    (∀ f ∈ c.findingsOfUse u, f.severity ≠ .error) ↔
      ∀ db ∈ c.database, ∃ base, db.lookup u.key = some base := by
  rw [findingsOfUse, List.forall_mem_append, List.forall_mem_append]
  -- the findings about the label and about the modifiers are no errors
  refine (and_iff_left ?_).trans ((and_iff_left ?_).trans ?_)
  · cases u.label with
    | none => simp
    | some l =>
        dsimp only
        split_ifs <;> simp [Finding.severity]
  · exact List.forall_mem_map.mpr fun key _ => by simp [Finding.severity]
  · cases c.database with
    | none => simp
    | some db => cases hbase : db.lookup u.key <;> simp [Finding.severity, hbase]

/-- The only errors about a rotation are abilities that are not known. -/
lemma forall_severity_findings (c : CheckContext) (d : Rotation) :
    (∀ f ∈ d.findings c, f.finding.severity ≠ .error) ↔
      ∀ u ∈ d.abilities, ∀ db ∈ c.database, ∃ base, db.lookup u.key = some base := by
  rw [CheckContext.findings_eq, List.forall_mem_append]
  refine (and_iff_left ?_).trans ?_
  · exact List.forall_mem_map.mpr fun key _ => by simp [Finding.severity]
  rw [← map_use_occurrences, List.forall_mem_flatMap, List.forall_mem_map]
  refine forall₂_congr fun o _ => ?_
  rw [← c.forall_severity_findingsOfUse, CheckContext.located, List.forall_mem_map]

/-- Every text is compiled: if it cannot be read it is malformed, which is a finding. -/
theorem exists_compile (options : ParseOptions) (database : Option Database) (text : String) :
    ∃ c, Rotation.compile options database text = .ok c := by
  cases h : Rotation.parse options text with
  | ok d => exact ⟨_, compile_of_parse database h⟩
  | error fault =>
      obtain ⟨f, rfl⟩ := exists_of_ofSplit_eq_error (plainLines_expression text) h
      exact ⟨_, by rw [Rotation.compile, h]⟩

/-- A text is accepted exactly if it is read and all of its abilities are known. -/
theorem isOk_compile_iff_known {c : Compilation}
    (hcompile : Rotation.compile options (some db) text = .ok c) :
    c.isOk = true ↔ ∃ d, Rotation.parse options text = .ok d ∧
      ∀ u ∈ d.abilities, ∃ base, db.lookup u.key = some base := by
  rw [Compilation.isOk_iff]
  cases h : Rotation.parse options text with
  | error fault =>
      obtain ⟨f, rfl⟩ := exists_of_ofSplit_eq_error (plainLines_expression text) h
      rw [Rotation.compile, h] at hcompile
      cases hcompile
      simp
  | ok d =>
      cases (compile_of_parse _ h).symm.trans hcompile
      rw [forall_severity_findings]
      simp

/-! ### Thresholds of a text -/

/-- The thresholds that a text sets can take effect. -/
lemma Overrides.Readable.inRange {o : Overrides} (h : o.Readable) :
    ∀ t ∈ o.detectionThreshold, t.InRange := by
  intro t ht
  obtain ⟨x, rfl, -⟩ := h.threshold t ht
  exact Threshold.inRange_real x

/-- The settings that a text has for something, or none, can be set by a payload. -/
lemma readable_of_soundTable {scope : SettingsScope} {t : Table Overrides} (ht : SoundTable scope t)
    (target : String) : ((t.get? target).getD Overrides.empty).Readable := by
  cases h : t.get? target with
  | none => exact Overrides.readable_empty
  | some o => exact (ht target o h).readable

/-- The settings for an ability that was read can be set by a payload. -/
lemma readable_settings_of_parse {c : Catalog} (h : Rotation.parse options text = .ok d)
    (u : AbilityUse) :
    ((Resolver.settings ⟨db, c, d.abilityOverrides⟩ u).getD Overrides.empty).Readable := by
  have hshared : d.abilityOverrides = (SplitText.ofText text).perAbility.map some :=
    (ofSplit_eq_ok_iff.mp h).1
  have hjoin : ∀ x : Option Overrides, (x.map some).join = x := by rintro (_ | _) <;> rfl
  rw [Resolver.settings, hshared, Table.get?_map, hjoin, perAbility_ofText]
  exact readable_of_soundTable (soundTable_settings .ability text.toList) u.key

/-- The settings of an occurrence that was read can be set by a payload. -/
lemma readable_overrides_of_parse (h : Rotation.parse options text = .ok d)
    (hu : u ∈ d.abilities) : (u.overrides.getD Overrides.empty).Readable := by
  rw [(forall_abilities_of_parse h u hu).overrides]
  split
  · cases u.label with
    | none => exact Overrides.readable_empty
    | some l =>
        rw [Option.bind_some, Rotation.rulesOf, perInstance_ofText]
        exact readable_of_soundTable (soundTable_settings .occurrence text.toList) l
  · exact Overrides.readable_empty

/-- The thresholds in the layers of a use that was read can take effect if that of the database
can. -/
lemma inRange_thresholds_of_parse {c : Catalog} (h : Rotation.parse options text = .ok d)
    (hu : u ∈ d.abilities) {base : Ability} (hbase : ∀ t ∈ base.detectionThreshold, t.InRange) :
    ∀ t ∈ Resolver.thresholds ⟨db, c, d.abilityOverrides⟩ u base, t.InRange := by
  intro t ht
  simp only [Resolver.thresholds, List.mem_append, Option.mem_toList] at ht
  rcases ht with (ht | ht) | ht
  · exact hbase t ht
  · exact (readable_settings_of_parse h u).inRange t ht
  · exact (readable_overrides_of_parse h hu).inRange t ht

/-! ### Accepted texts -/

/-- The steps of a rotation that was read are resolved exactly if its abilities are known and have
thresholds that can take effect. -/
lemma forall_step_iff_of_parse (h : Rotation.parse options text = .ok d) :
    (∀ s ∈ d.steps, ∃ es,
        Resolver.step ⟨db, options.catalog, d.abilityOverrides⟩ true s = .ok es) ↔
      ∀ u ∈ d.abilities, ∃ base, db.lookup u.key = some base ∧
        ∀ t ∈ base.detectionThreshold, t.InRange := by
  rw [Resolver.forall_step_strict_iff]
  refine forall₂_congr fun u hu => ?_
  rw [Resolver.exists_use_iff]
  refine exists_congr fun base => and_congr_right fun _ => ⟨fun hrange t ht => ?_,
    inRange_thresholds_of_parse h hu⟩
  exact hrange t (by simp [Resolver.thresholds, Option.mem_def.mp ht])

/-- **Accepted texts are those that can be resolved.**  Every text is compiled.  It is read as a
rotation of which strict resolving resolves every step exactly if it is accepted, and the database
has no threshold for its abilities that cannot take effect.  The data of all steps then have the
keys of the uses, in order. -/
theorem resolved_iff_isOk_compile (options : ParseOptions) (db : Database) (text : String) :
    (∃ c, Rotation.compile options (some db) text = .ok c ∧
      ((∃ d, Rotation.parse options text = .ok d ∧ ∀ s ∈ d.steps, ∃ es,
          Resolver.step ⟨db, options.catalog, d.abilityOverrides⟩ true s = .ok es) ↔
        c.isOk = true ∧
          ∀ d, Rotation.parse options text = .ok d → ∀ u ∈ d.abilities, ∀ base,
            db.lookup u.key = some base → ∀ t ∈ base.detectionThreshold, t.InRange)) ∧
      ∀ d, Rotation.parse options text = .ok d → ∀ ess,
        List.Forall₂ (fun s es =>
          Resolver.step ⟨db, options.catalog, d.abilityOverrides⟩ true s = .ok es) d.steps ess →
        ess.flatten.map (·.key) = d.abilityKeys := by
  refine ⟨?_, fun d _ ess hess => Resolver.keys_of_steps_strict hess⟩
  obtain ⟨c, hcompile⟩ := exists_compile options (some db) text
  refine ⟨c, hcompile, ?_⟩
  rw [isOk_compile_iff_known hcompile]
  constructor
  · rintro ⟨d, h, hsteps⟩
    have huses := (forall_step_iff_of_parse h).mp hsteps
    refine ⟨⟨d, h, fun u hu => (huses u hu).imp fun _ => And.left⟩, ?_⟩
    intro d' h' u hu base hbase
    obtain rfl := Except.ok.inj (h.symm.trans h')
    obtain ⟨base', hbase', hrange⟩ := huses u hu
    obtain rfl := Option.some.inj (hbase'.symm.trans hbase)
    exact hrange
  · rintro ⟨⟨d, h, hknown⟩, hrange⟩
    refine ⟨d, h, (forall_step_iff_of_parse h).mpr fun u hu => ?_⟩
    obtain ⟨base, hbase⟩ := hknown u hu
    exact ⟨base, hbase, hrange d h u hu base hbase⟩

/-- The database of `meteor` alone, with a threshold. -/
def meteorDatabase (t : Threshold) : Database :=
  Database.withAbility ⟨Table.empty⟩ "meteor" { detectionThreshold := some t }

/-- The text `meteor` is accepted with either database, but a threshold that no floating-point
number comes near keeps it from being resolved. -/
theorem resolved_iff_isOk_compile_meteor :
    let d : Rotation := ⟨[[[.ability { key := "meteor" }]]], Table.empty⟩
    let resolves (t : Threshold) : Prop := ∃ d, Rotation.parse {} "meteor" = .ok d ∧
      ∀ s ∈ d.steps, ∃ es,
        Resolver.step ⟨meteorDatabase t, Catalog.default, d.abilityOverrides⟩ true s = .ok es
    let accepted (t : Threshold) : Prop :=
      ∃ c, Rotation.compile {} (some (meteorDatabase t)) "meteor" = .ok c ∧ c.isOk = true
    Rotation.parse {} "meteor" = .ok d ∧ (accepted (.whole 1) ∧ resolves (.whole 1)) ∧
      accepted (.whole (2 ^ 1024)) ∧ ¬resolves (.whole (2 ^ 1024)) := by
  intro d resolves accepted
  have hparse : Rotation.parse {} "meteor" = .ok d := by
    refine ofSplit_alternative [⟨.word ⟨"meteor", none⟩, 0, false⟩] (by decide)
      (by decide +kernel) ?_ (by decide) (by decide)
    exact .between rfl (.plain rfl (by decide) (by decide)) rfl
  have habilities : d.abilities = [{ key := "meteor" }] := rfl
  have hlookup : ∀ t, (meteorDatabase t).lookup "meteor" =
      some { detectionThreshold := some t } := fun t => rfl
  have hok : ∀ {t c}, Rotation.compile {} (some (meteorDatabase t)) "meteor" = .ok c →
      c.isOk = true := by
    intro t c hcompile
    refine (isOk_compile_iff_known hcompile).mpr ⟨d, hparse, ?_⟩
    rw [habilities, List.forall_mem_singleton]
    exact ⟨_, hlookup t⟩
  have hsmall : (Threshold.whole 1).InRange :=
    (Threshold.inRange_whole_iff 1).mpr (by decide +kernel)
  have hlarge : ¬(Threshold.whole (2 ^ 1024)).InRange :=
    (Threshold.inRange_whole_iff _).not.mpr (by decide +kernel)
  obtain ⟨c, hcompile, hsmallIff⟩ :=
    (resolved_iff_isOk_compile {} (meteorDatabase (.whole 1)) "meteor").1
  obtain ⟨c', hcompile', hlargeIff⟩ :=
    (resolved_iff_isOk_compile {} (meteorDatabase (.whole (2 ^ 1024))) "meteor").1
  refine ⟨hparse, ⟨⟨c, hcompile, hok hcompile⟩, ?_⟩, ⟨c', hcompile', hok hcompile'⟩, ?_⟩
  · refine hsmallIff.mpr ⟨hok hcompile, ?_⟩
    intro d' h' u hu base hbase t ht
    obtain rfl := Except.ok.inj (hparse.symm.trans h')
    rw [habilities, List.mem_singleton] at hu
    subst hu
    obtain rfl := Option.some.inj ((hlookup _).symm.trans hbase)
    obtain rfl := Option.some.inj ht
    exact hsmall
  · intro h
    have hrange := (hlargeIff.mp h).2 d hparse
    rw [habilities, List.forall_mem_singleton] at hrange
    exact hlarge (hrange _ (hlookup _) _ rfl)

/-- With a database that was read from a raw record, nothing but an unknown ability stands between
a text that is read and its data. -/
theorem isOk_compile_iff_of_ofRaw {raw : Raw} (hdb : Database.ofRaw raw = .ok db) {c : Compilation}
    (hcompile : Rotation.compile options (some db) text = .ok c) :
    c.isOk = true ↔ ∃ d, Rotation.parse options text = .ok d ∧ ∀ s ∈ d.steps, ∃ es,
      Resolver.step ⟨db, options.catalog, d.abilityOverrides⟩ true s = .ok es := by
  rw [isOk_compile_iff_known hcompile]
  refine exists_congr fun d => and_congr_right fun h => ?_
  rw [forall_step_iff_of_parse h]
  exact forall₂_congr fun u _ => exists_congr fun base =>
    (and_iff_left_of_imp (Database.inRange_ofRaw hdb u.key base)).symm

end AbilityRotation
