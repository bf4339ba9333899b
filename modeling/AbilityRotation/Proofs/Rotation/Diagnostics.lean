import AbilityRotation.Proofs.Descent.Uses
import AbilityRotation.Proofs.Modifier.Built
import AbilityRotation.Proofs.Rotation.Occurrences
import AbilityRotation.Rotation.Diagnostic

/-!
The diagnostics of a rotation.

The findings are collected on a walk through the tree that keeps track of the address; they are
those of the occurrences, one after the other.
* `findingsOfSteps_eq`: the walk finds what there is to find about the occurrences in order.
* `modifiers_defined`: the modifiers of a rotation that was read are defined in the catalog.
* `diagnostics_compile`: the diagnostics of a text, one occurrence after the other, and what their
  paths lead to.
-/

namespace AbilityRotation

open Number

/-! ### The walk -/

namespace CheckContext

/-- What is found about an occurrence whose address is continued from `outside`. -/
def located (c : CheckContext) (outside : Address) (o : Occurrence) : List LocatedFinding :=
  (c.findingsOfUse o.use).map fun f => ⟨f, outside ++ o.address⟩

/-- Inside a group the addresses are continued from the place of the group. -/
lemma located_within (c : CheckContext) (outside : Address) (p : Place) (o : Occurrence) :
    c.located outside (o.within p) = c.located (outside ++ [p]) o := by
  simp [located, Occurrence.within]

mutual

lemma findingsOfAlternative_eq (c : CheckContext) (outside : Address) (p : Place) :
    ∀ a : Alternative, c.findingsOfAlternative outside p a =
      (occurrencesOfAlternative p a).flatMap (c.located outside)
  | .ability u => by
      rw [findingsOfAlternative, occurrencesOfAlternative, List.flatMap_singleton, located]
  | .marker _ _ => rfl
  | .group steps _ => by
      rw [findingsOfAlternative, occurrencesOfAlternative, List.flatMap_map,
        findingsOfSteps_eq c (outside ++ [p]) 0 steps]
      simp only [located_within]

lemma findingsOfTerm_eq (c : CheckContext) (outside : Address) (p : Place) :
    ∀ t : List Alternative, c.findingsOfTerm outside p t =
      (occurrencesOfTerm p t).flatMap (c.located outside)
  | [] => rfl
  | a :: rest => by
      rw [findingsOfTerm, occurrencesOfTerm, List.flatMap_append, findingsOfAlternative_eq,
        findingsOfTerm_eq c outside _ rest]

lemma findingsOfStep_eq (c : CheckContext) (outside : Address) (step term : ℕ) :
    ∀ s : List (List Alternative), c.findingsOfStep outside step term s =
      (occurrencesOfStep step term s).flatMap (c.located outside)
  | [] => rfl
  | t :: rest => by
      rw [findingsOfStep, occurrencesOfStep, List.flatMap_append, findingsOfTerm_eq,
        findingsOfStep_eq c outside step _ rest]

lemma findingsOfSteps_eq (c : CheckContext) (outside : Address) (step : ℕ) :
    ∀ ss : List (List (List Alternative)), c.findingsOfSteps outside step ss =
      (occurrencesOfSteps step ss).flatMap (c.located outside)
  | [] => rfl
  | s :: rest => by
      rw [findingsOfSteps, occurrencesOfSteps, List.flatMap_append, findingsOfStep_eq,
        findingsOfSteps_eq c outside _ rest]

end

/-- What is found about a rotation: what is found about its occurrences, and then the settings
without an ability. -/
lemma findings_eq (c : CheckContext) (d : Rotation) :
    d.findings c = d.occurrences.flatMap (c.located []) ++
      (d.abilityOverrides.keys.filter fun key => key ∉ d.abilityKeys).map
        fun key => ⟨.unusedSettings key, []⟩ := by
  rw [Rotation.findings, findingsOfSteps_eq, Rotation.occurrences]

end CheckContext

/-! ### Reports -/

/-- What is reported at a path about the key of a use. -/
def keyReport (database : Option Database) (path : String) (u : AbilityUse) : List Diagnostic :=
  match database with
  | none => []
  | some db =>
      if db.lookup u.key = none then
        [⟨"ability.unknown", .error, path, "引用了不存在的技能", u.key⟩]
      else []

/-- What is reported at a path about the label of a use, where `settings` are the settings of single
occurrences. -/
def labelReport (settings : Table Overrides) (path : String) (u : AbilityUse) : List Diagnostic :=
  match u.label with
  | none => []
  | some l =>
      if settings.get? l = none then
        [⟨"label.unused", .info, path, "标签没有对应的 #* 设置行", l⟩]
      else if u.modifiers = [] then []
      else [⟨"label.settings_dropped", .warning, path, "带修饰符的技能不接受单实例设置", l⟩]

/-- What is reported about the settings for abilities that do not occur. -/
def settingsReport (d : Rotation) : List Diagnostic :=
  (d.abilityOverrides.keys.filter fun key => key ∉ d.abilityKeys).map fun key =>
    ⟨"ability_settings.unused", .warning, "$", "#@ 设置行没有对应的技能", key⟩

lemma Diagnostic.make_of_ne {path : String} (hpath : path.isEmpty = false) (severity : Severity)
    (code message detail : String) :
    make severity code path message detail = ⟨code, severity, path, message, detail⟩ := by
  rw [make, hpath, if_neg Bool.false_ne_true]

lemma Address.isEmpty_text (a : Address) : a.text.isEmpty = false := by
  have hroot : root.toList ≠ [] := by decide
  refine isEmpty_eq_false ?_
  rw [text, toList_textFrom hroot]
  simp [hroot]

/-- What is found about a use with known modifiers, in words. -/
lemma map_diagnostic_findingsOfUse {c : CheckContext} {u : AbilityUse} {path : String}
    (hpath : path.isEmpty = false)
    (hu : ∀ key ∈ u.modifiers, (c.catalog.definition? key).isSome = true) :
    (c.findingsOfUse u).map (·.diagnostic path) =
      keyReport c.database path u ++ labelReport c.perInstance path u := by
  have hmodifiers : u.modifiers.filter (fun m => (c.catalog.definition? m).isNone) = [] :=
    List.filter_eq_nil_iff.mpr fun key hkey => by simp [Option.isSome_iff_ne_none.mp (hu key hkey)]
  rw [CheckContext.findingsOfUse, hmodifiers, List.map_append, List.map_append, List.map_nil,
    List.map_nil, List.append_nil]
  congr 1
  · cases hdb : c.database with
    | none => rfl
    | some db =>
        cases hkey : db.lookup u.key <;>
          simp [keyReport, hkey, Finding.diagnostic, Finding.severity, Diagnostic.make_of_ne hpath]
  · cases hl : u.label with
    | none => simp [labelReport, hl]
    | some l =>
        cases hget : c.perInstance.get? l <;> cases hm : u.modifiers <;>
          simp [labelReport, hl, hget, hm, Table.contains, Finding.diagnostic, Finding.severity,
            Diagnostic.make_of_ne hpath]

/-- The findings about a rotation whose modifiers are known, in words. -/
lemma map_diagnostic_findings {c : CheckContext} {d : Rotation}
    (h : ∀ u ∈ d.abilities, ∀ key ∈ u.modifiers, (c.catalog.definition? key).isSome = true) :
    (d.findings c).map LocatedFinding.diagnostic =
      d.occurrences.flatMap (fun o =>
        keyReport c.database o.address.text o.use ++
          labelReport c.perInstance o.address.text o.use) ++ settingsReport d := by
  have hlocated : ∀ o ∈ d.occurrences, (c.located [] o).map LocatedFinding.diagnostic =
      keyReport c.database o.address.text o.use ++
        labelReport c.perInstance o.address.text o.use := by
    intro o ho
    have hu : o.use ∈ d.abilities := map_use_occurrences d ▸ List.mem_map_of_mem ho
    rw [← map_diagnostic_findingsOfUse o.address.isEmpty_text (h o.use hu), CheckContext.located,
      List.map_map, List.nil_append]
    rfl
  rw [CheckContext.findings_eq, List.map_append, List.map_flatMap, List.flatMap_congr hlocated,
    List.map_map]
  rfl

/-! ### Compiled texts -/

/-- A text that can be read is compiled to its rotation and what is found about it. -/
lemma compile_of_parse {options : ParseOptions} {text : String} {d : Rotation}
    (database : Option Database) (h : Rotation.parse options text = .ok d) :
    Rotation.compile options database text = .ok ⟨some d, d.findings
      ⟨database, options.catalog, (SplitText.ofText text).perInstance⟩⟩ := by
  simp only [Rotation.compile, h]

/-- The modifiers of a rotation that was read are defined in the catalog. -/
lemma modifiers_defined {options : ParseOptions} {text : String} {d : Rotation}
    (hc : options.catalog.Built) (h : Rotation.parse options text = .ok d) :
    ∀ u ∈ d.abilities, ∀ key ∈ u.modifiers, (options.catalog.definition? key).isSome = true := by
  intro u hu key hkey
  obtain ⟨name, m, hm, rfl⟩ := (forall_abilities_of_parse h u hu).modifiers key hkey
  exact hc.isSome_definition? hm

/-- No report is about an unknown modifier. -/
lemma code_ne_of_mem_report {database : Option Database} {settings : Table Overrides}
    {path : String} {u : AbilityUse} {x : Diagnostic}
    (hx : x ∈ keyReport database path u ++ labelReport settings path u) :
    x.code ≠ "modifier.unknown" := by
  rcases List.mem_append.mp hx with hx | hx
  · rw [keyReport.eq_def] at hx
    split at hx
    · cases hx
    · split at hx
      · obtain rfl := List.mem_singleton.mp hx
        simp
      · cases hx
  · rw [labelReport.eq_def] at hx
    split at hx
    · cases hx
    · split at hx
      · obtain rfl := List.mem_singleton.mp hx
        simp
      · split at hx
        · cases hx
        · obtain rfl := List.mem_singleton.mp hx
          simp

/-- **The diagnostics of a text that is read.**  Such a text is compiled.  For every use of an
ability, from left to right, there is what is reported about its key and its label, and then there
are the settings without an ability; no modifier is unknown.  A path in the reports about a use is
the path of no address but that of the use, so that different uses have different paths. -/
theorem diagnostics_compile {options : ParseOptions} (hc : options.catalog.Built)
    (database : Option Database) {text : String} {d : Rotation}
    (h : Rotation.parse options text = .ok d) :
    ∃ compilation, Rotation.compile options database text = .ok compilation ∧
      compilation.diagnostics =
        d.occurrences.flatMap (fun o =>
          keyReport database o.address.text o.use ++
            labelReport (SplitText.ofText text).perInstance o.address.text o.use) ++
          settingsReport d ∧
      d.occurrences.map (·.use) = d.abilities ∧
      (∀ x ∈ compilation.diagnostics, x.code ≠ "modifier.unknown") ∧
      (∀ o ∈ d.occurrences, ∀ a : Address, a.text = o.address.text →
        d.alternativeAt? a = some (.ability o.use)) ∧
      (d.occurrences.map (·.address.text)).Nodup := by
  have hdiagnostics :
      (d.findings ⟨database, options.catalog, (SplitText.ofText text).perInstance⟩).map
          LocatedFinding.diagnostic =
        d.occurrences.flatMap (fun o =>
          keyReport database o.address.text o.use ++
            labelReport (SplitText.ofText text).perInstance o.address.text o.use) ++
          settingsReport d :=
    map_diagnostic_findings (modifiers_defined hc h)
  refine ⟨_, compile_of_parse database h, hdiagnostics, map_use_occurrences d, fun x hx => ?_,
    fun o ho a ha => ?_, ?_⟩
  · rw [Compilation.diagnostics, hdiagnostics, List.mem_append, List.mem_flatMap] at hx
    rcases hx with ⟨o, -, hx⟩ | hx
    · exact code_ne_of_mem_report hx
    · obtain ⟨key, -, rfl⟩ := List.mem_map.mp hx
      simp
  · rw [Address.text_injective ha]
    exact alternativeAt?_of_mem_occurrences ho
  · have hpaths := (nodup_address_occurrences d).map Address.text_injective
    rwa [List.map_map] at hpaths

open Descent in
/-- A group of `gmaul + spec[*1] → wait[*2]`, where the first label has settings: those of the label
are dropped, the other label has none, `wait` is unknown, and `meteor` does not occur. -/
theorem diagnostics_compile_wielded :
    let text := "(gmaul + spec[*1] → wait[*2])\n#*1 level=5\n#@meteor level=1"
    let d : Rotation :=
      ⟨[[[.group [[[.ability { key := "spec", modifiers := ["gmaul"], label := "1" }]],
          [[.ability { key := "wait", label := "2" }]]] Table.empty]]],
        Table.ofList [("meteor", some { level := some 1 })]⟩
    let within := "$.steps[0].terms[0].alternatives[0].definition"
    Catalog.default.Built ∧ Rotation.parse {} text = .ok d ∧
      ∃ c, Rotation.compile {} (some (Database.withAbility ⟨Table.empty⟩ "spec" {})) text = .ok c ∧
        c.diagnostics =
          [⟨"label.settings_dropped", .warning, within ++ ".steps[0].terms[0].alternatives[0]",
              "带修饰符的技能不接受单实例设置", "1"⟩,
            ⟨"ability.unknown", .error, within ++ ".steps[1].terms[0].alternatives[0]",
              "引用了不存在的技能", "wait"⟩,
            ⟨"label.unused", .info, within ++ ".steps[1].terms[0].alternatives[0]",
              "标签没有对应的 #* 设置行", "2"⟩,
            ⟨"ability_settings.unused", .warning, "$", "#@ 设置行没有对应的技能", "meteor"⟩] := by
  intro text d within
  let ts : List Token :=
    [⟨.opening, 0, false⟩, ⟨.word ⟨"gmaul", none⟩, 1, false⟩, ⟨.plus, 7, false⟩,
      ⟨.word ⟨"spec", some "1"⟩, 9, false⟩, ⟨.arrow, 18, false⟩,
      ⟨.word ⟨"wait", some "2"⟩, 20, false⟩, ⟨.closing, 28, false⟩]
  have hparse : Rotation.parse {} text = .ok d := by
    refine ofSplit_alternative ts (by decide) (by decide +kernel) ?_ (by decide)
      (by decide)
    let rules := Rotation.rulesOf {} (SplitText.ofText text).perInstance
    have hspec : Reads rules .terms (ts.drop 1)
        [[.ability { key := "spec", modifiers := ["gmaul"], label := "1" }]] (ts.drop 4) :=
      .lastTerm (.lastAlternative (.between rfl
        (.fused (f := ⟨["gmaul"], ⟨"spec", some "1"⟩, ts.drop 4⟩) rfl
          (by decide +kernel) (by decide)) rfl) (by decide)) (by decide)
    have hwait : Reads rules .expression (ts.drop 5)
        [[[.ability { key := "wait", label := "2" }]]] (ts.drop 6) :=
      .single (.between rfl (.plain rfl (by decide) (by decide)) rfl) (by decide)
        (.inr rfl)
    exact .between rfl (.group rfl (by decide) (.arrow hspec (by decide) rfl rfl hwait) rfl) rfl
  have hc : ({} : ParseOptions).catalog.Built := Catalog.built_default
  obtain ⟨c, hcompile, hdiagnostics, -⟩ := diagnostics_compile hc
    (some (Database.withAbility ⟨Table.empty⟩ "spec" {})) hparse
  refine ⟨hc, hparse, c, hcompile, ?_⟩
  rw [hdiagnostics]
  decide +kernel

end AbilityRotation
