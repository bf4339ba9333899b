import AbilityRotation.Proofs.Descent.Labelled
import AbilityRotation.Proofs.Settings.Lines

/-!
Reading a full export again.

A full export is the canonical text of a rotation with a settings line for each target that occurs
in it.
* `exists_exported`: what the lines of an export are and set (`Exported`).
* `exportFull_reread`: a full export is read as the rotation that was exported, settings included.
-/

namespace AbilityRotation

open Descent Text

/-! ### Settings of occurrences -/

/-- Settings that agree on the labels of uses are attached alike. -/
lemma attach_congr {p q : Table Overrides} {u : AbilityUse}
    (h : ∀ label ∈ u.label, p.get? label = q.get? label) :
    AbilityUse.attach p u = AbilityUse.attach q u := by
  obtain ⟨key, modifiers, overrides, _ | label⟩ := u
  · rfl
  · simp [AbilityUse.attach, h label rfl]

/-! ### The entries of an export -/

variable {t : Table Overrides}

/-- What is looked up in entries with distinct names. -/
lemma lookup_eq_some_iff {α : Type} {es : List (String × α)} (h : (es.map Prod.fst).Nodup)
    {key : String} {a : α} : es.lookup key = some a ↔ (key, a) ∈ es := by
  induction es with
  | nil => simp
  | cons e es ih =>
      obtain ⟨hfresh, hnodup⟩ := List.nodup_cons.mp h
      obtain ⟨k, b⟩ := e
      rw [List.lookup_cons, List.mem_cons]
      by_cases hkey : key = k
      · subst hkey
        have habsent : (key, a) ∉ es := fun hm =>
          hfresh (List.mem_map.mpr ⟨_, hm, rfl⟩)
        simp [habsent, eq_comm]
      · simp [hkey, beq_eq_false_iff_ne.mpr hkey, ih hnodup]

/-- Filtering and reordering entries keeps their names distinct. -/
lemma nodup_filter_of_perm {α : Type} {es us : List (String × α)} {keep : String × α → Bool}
    (h : (es.map Prod.fst).Nodup) (hp : us.Perm es) : ((us.filter keep).map Prod.fst).Nodup :=
  ((hp.map Prod.fst).nodup_iff.mpr h).sublist (List.filter_sublist.map _)

/-- Filtering and reordering entries keeps what is looked up under the names that are kept. -/
lemma lookup_filter_of_perm {α : Type} {es us : List (String × α)} {keep : String → Bool}
    (h : (es.map Prod.fst).Nodup) (hp : us.Perm es) (key : String) :
    (us.filter fun e => keep e.1).lookup key = if keep key then es.lookup key else none := by
  refine Option.ext fun a => ?_
  rw [lookup_eq_some_iff (nodup_filter_of_perm h hp), List.mem_filter, hp.mem_iff]
  split
  · next hkeep => simp [hkeep, lookup_eq_some_iff h]
  · next hkeep => simp [hkeep]

lemma sortedByKey_perm (t : Table Overrides) : (Rotation.sortedByKey t).Perm t.entries :=
  List.mergeSort_perm _ _

lemma sortedByLabel_perm {es : List (String × Overrides)}
    (h : Rotation.sortedByLabel t = .ok es) : es.Perm t.entries := by
  obtain ⟨ranked, hranked, h⟩ := bind_eq_ok_iff.mp h
  cases h
  have hentries : ∀ {us : List (String × Overrides)} {vs : List (Rotation.LabelRank × _)},
      (us.mapM fun e => (Rotation.rank e.1).map fun k => (k, e)) = .ok vs →
        vs.map Prod.snd = us := by
    intro us
    induction us with
    | nil =>
        intro vs hvs
        cases hvs
        rfl
    | cons e us ih =>
        intro vs hvs
        rw [List.mapM_cons] at hvs
        obtain ⟨first, hfirst, hvs⟩ := bind_eq_ok_iff.mp hvs
        obtain ⟨others, hothers, hvs⟩ := bind_eq_ok_iff.mp hvs
        cases hvs
        obtain ⟨k, -, rfl⟩ := map_eq_ok_iff.mp hfirst
        rw [List.map_cons, ih hothers]
  rw [← hentries hranked]
  exact (List.mergeSort_perm _ _).map _

/-- What lookups in the settings of an export find: settings for the targets that occur. -/
def restrict (t : Table Overrides) (targets : List String) (target : String) : Option Overrides :=
  if target ∈ targets then t.get? target else none

/-- Entries that are kept are looked up as in their table. -/
lemma lookup_filter {es : List (String × Overrides)} (keep : String → Bool) {targets : List String}
    (hp : es.Perm t.entries)
    (hkeep : ∀ target o, t.get? target = some o → (keep target = true ↔ target ∈ targets))
    (target : String) :
    (es.filter fun e => keep e.1).lookup target = restrict t targets target := by
  rw [lookup_filter_of_perm t.nodup hp, restrict]
  change (if keep target = true then t.get? target else none) = _
  cases ht : t.get? target with
  | none => simp
  | some o => simp [hkeep target o ht]

/-- The settings lines of an export, for the targets that occur in `d`. -/
structure Exported (d : Rotation) (p a : Table Overrides) (ls : List String) : Prop where
  /-- Each of them is a line. -/
  isLine : ∀ l ∈ ls, IsLine l
  /-- Without uses of abilities there are none. -/
  nil : d.abilities = [] → ls = []
  /-- They hold no expression. -/
  expression : SplitText.expressionLines (ls.map fun l => TextLine.ofChars l.toList) = []
  /-- They give the settings of the labels that occur. -/
  occurrence : ∀ label, (SplitText.settings .occurrence
    (ls.map fun l => TextLine.ofChars l.toList)).get? label = restrict p d.labels label
  /-- They give the settings of the abilities that occur. -/
  ability : ∀ key, (SplitText.settings .ability
    (ls.map fun l => TextLine.ofChars l.toList)).get? key = restrict a d.abilityKeys key

/-- Entries of settings are sound, in any order and selection. -/
lemma SoundTable.of_mem_filter {scope : SettingsScope} {es : List (String × Overrides)}
    (keep : String → Bool) (ht : SoundTable scope t) (hp : es.Perm t.entries) :
    ∀ e ∈ es.filter fun e => keep e.1, Sound scope e.1 e.2 := by
  intro e he
  refine ht e.1 e.2 ((lookup_eq_some_iff t.nodup).mpr ?_)
  exact hp.mem_iff.mp (List.mem_of_mem_filter he)

/-- The lines of a full export. -/
lemma exists_exported {d : Rotation} {p a : Table Overrides} {ls : List String}
    (hp : SoundTable .occurrence p) (ha : SoundTable .ability a)
    (h : d.exportLines p a = .ok ls) :
    ∃ more, ls = d.render true :: more ∧ Exported d p a more := by
  obtain ⟨abilityLines, hability, h⟩ := bind_eq_ok_iff.mp h
  obtain ⟨labelled, hlabelled, h⟩ := bind_eq_ok_iff.mp h
  obtain ⟨labelLines, hlabel, h⟩ := bind_eq_ok_iff.mp h
  cases h
  have hkeys := sortedByKey_perm a
  have hlabels := sortedByLabel_perm hlabelled
  have hability' := SoundTable.of_mem_filter (fun k => (d.abilityNotice? k).isNone) ha hkeys
  have hlabel' := SoundTable.of_mem_filter (fun k => (d.labelNotice? k).isNone) hp hlabels
  obtain ⟨hlines1, hsets1⟩ := sets_settingsLines hability' hability
  obtain ⟨hlines2, hsets2⟩ := sets_settingsLines hlabel' hlabel
  refine ⟨abilityLines ++ labelLines, rfl, ?_, ?_, ?_, ?_, ?_⟩
  · intro l hl
    exact (List.mem_append.mp hl).elim (hlines1 l) (hlines2 l)
  -- without abilities every target has a notice, and no line is written
  · intro hnone
    have hkeys : ((Rotation.sortedByKey a).filter fun e => (d.abilityNotice? e.1).isNone) = [] :=
      List.filter_eq_nil_iff.mpr fun e _ => by
        simp [Rotation.abilityNotice?, Rotation.abilityKeys, hnone]
    have hlabels : (labelled.filter fun e => (d.labelNotice? e.1).isNone) = [] :=
      List.filter_eq_nil_iff.mpr fun e _ => by
        simp [Rotation.labelNotice?, Rotation.labels, hnone]
    rw [hkeys] at hability
    rw [hlabels] at hlabel
    cases hability
    cases hlabel
    rfl
  · rw [List.map_append, SplitText.expressionLines, List.filterMap_append]
    exact congrArg₂ (· ++ ·) (expressionLines_sets hsets1) (expressionLines_sets hsets2)
  · intro label
    -- lines for abilities leave the settings of labels alone, and the other way round
    rw [List.map_append, settings_eq_foldl, List.foldl_append,
      foldl_addLine_other hsets1 (by decide),
      get?_foldl_addLine hsets2 (fun e he => (hlabel' e he).nonempty)
        (nodup_filter_of_perm p.nodup hlabels) (fun _ _ => rfl),
      lookup_filter (fun l => (d.labelNotice? l).isNone) hlabels]
    · exact Option.or_none
    · intro target o _
      simp [Rotation.labelNotice?]
  · intro key
    rw [List.map_append, settings_eq_foldl, List.foldl_append,
      foldl_addLine_other hsets2 (by decide),
      get?_foldl_addLine hsets1 (fun e he => (hability' e he).nonempty)
        (nodup_filter_of_perm a.nodup hkeys) (fun _ _ => rfl),
      lookup_filter (fun k => (d.abilityNotice? k).isNone) hkeys]
    · exact Option.or_none
    · intro target o ho
      simp [Rotation.abilityNotice?, (ha target o ho).target.solid.hasBlank]

/-! ### Reading an export -/

variable {names : List String} {behind : Bool} {d : Rotation} {p a : Table Overrides}
  {more : List String}

/-- The lines of an export are found again: the canonical text and the settings lines. -/
lemma linesOf_export (hlegible : Legible names behind d.symbols) (hne : d.symbols ≠ [])
    (hmore : ∀ l ∈ more, IsLine l) :
    SplitText.linesOf (joinLines (d.render true :: more)).toList =
      .expression (d.chars true) :: more.map fun l => TextLine.ofChars l.toList := by
  rw [Rotation.render, d.chars_eq_write]
  exact linesOf_write hne hlegible.written hmore

/-- An export is taken apart into the canonical text and the settings for what occurs. -/
lemma ofText_export (hlegible : Legible names behind d.symbols)
    (hempty : d.symbols = [] → d.abilities = []) (h : Exported d p a more) :
    (SplitText.ofText (joinLines (d.render true :: more))).expression = d.chars true ∧
      (∀ label, (SplitText.ofText (joinLines (d.render true :: more))).perInstance.get? label =
        restrict p d.labels label) ∧
      ∀ key, (SplitText.ofText (joinLines (d.render true :: more))).perAbility.get? key =
        restrict a d.abilityKeys key := by
  rw [expression_ofText, perInstance_ofText, perAbility_ofText]
  by_cases hne : d.symbols = []
  · have hmore := h.nil (hempty hne)
    subst hmore
    have hchars : d.chars true = [] := by
      rw [d.chars_eq_write, hne]
      rfl
    have hlines : SplitText.linesOf [] = [] := by decide
    rw [joinLines, String.toList_intercalate, List.map_singleton, List.intercalate_singleton,
      Rotation.render, String.toList_ofList, hchars, hlines]
    exact ⟨rfl, h.occurrence, h.ability⟩
  · rw [linesOf_export hlegible hne h.isLine]
    refine ⟨?_, h.occurrence, h.ability⟩
    have hexpression : SplitText.expressionLines (.expression (d.chars true) ::
        more.map fun l => TextLine.ofChars l.toList) = [d.chars true] :=
      congrArg (d.chars true :: ·) h.expression
    rw [hexpression, List.intercalate_singleton, d.chars_eq_write]
    exact trimChars_eq_self (tight_write hne hlegible.written)

lemma abilities_eq_nil {options : ParseOptions} {t : SplitText}
    (h : Rotation.ofSplit options t = .ok d) (hd : d.symbols = []) : d.abilities = [] := by
  obtain ⟨-, ⟨-, hsteps⟩ | ⟨-, ts, -, hsteps⟩⟩ := ofSplit_eq_ok_iff.mp h
  · rw [Rotation.abilities, hsteps]
    rfl
  · obtain ⟨s, ss, hs, -⟩ := (stepsOfTokens_eq_ok_iff.mp hsteps).exists_symbols
    exact absurd (hs.symm.trans hd) (List.cons_ne_nil s ss)

/-- The settings of labels that occur are enough for the steps. -/
lemma mapUses_attach_restrict {options : ParseOptions} {t : SplitText} {q : Table Overrides}
    (h : Rotation.ofSplit options t = .ok d)
    (hq : ∀ label, q.get? label = restrict t.perInstance d.labels label) :
    mapUsesOfSteps (AbilityUse.attach q) d.steps = d.steps := by
  have hcongr : mapUsesOfSteps (AbilityUse.attach q) d.steps =
      mapUsesOfSteps (AbilityUse.attach t.perInstance) d.steps := by
    refine mapUsesOfSteps_congr _ fun u hu => attach_congr fun label hlabel => ?_
    rw [hq, restrict, if_pos]
    exact List.mem_filterMap.mpr ⟨u, hu, hlabel⟩
  rw [hcongr]
  obtain ⟨-, ⟨-, hsteps⟩ | ⟨-, ts, -, hsteps⟩⟩ := ofSplit_eq_ok_iff.mp h
  · rw [hsteps]
    rfl
  · exact (stepsOfTokens_eq_ok_iff.mp hsteps).mapUses_attach

/-- **A full export is faithful.**  Whenever a text has a full export with the default catalog: if
no marker ends in a backslash, the export is read as the same steps, with the settings of single
occurrences, and with the settings for those abilities that occur in the steps. -/
theorem exportFull_reread {mode : AdjacentWords} {text s : String}
    (h : Rotation.exportFull Catalog.default mode text none none = .ok s) :
    ∃ d, Rotation.parse ⟨Catalog.default, mode, []⟩ text = .ok d ∧
      ((∀ m ∈ d.markerTexts, ¬ endsInBackslash m) →
        ∃ d', Rotation.parse ⟨Catalog.default, mode, []⟩ s = .ok d' ∧ d'.steps = d.steps ∧
          ∀ key, d'.abilityOverrides.get? key =
            if key ∈ d.abilityKeys then d.abilityOverrides.get? key else none) := by
  have hplain := plainLines_expression text
  have hoccurrence := soundTable_settings .occurrence text.toList
  have hability := soundTable_settings .ability text.toList
  rw [← perInstance_ofText] at hoccurrence
  rw [← perAbility_ofText] at hability
  rw [Rotation.exportFull] at h
  simp only [Rotation.parse] at h ⊢
  -- from here on only what is known of the split text matters
  generalize SplitText.ofText text = t at h hplain hoccurrence hability ⊢
  split at h
  · cases h
  · next d hd =>
      refine ⟨d, hd, fun hend => ?_⟩
      split at h
      · cases h
      · next ls hls =>
          cases h
          obtain ⟨more, rfl, hexported⟩ := exists_exported hoccurrence hability hls
          obtain ⟨hexpression, hp, ha⟩ := ofText_export (legible_of_ofSplit rfl hplain hd)
            (abilities_eq_nil hd) hexported
          generalize SplitText.ofText (joinLines (d.render true :: more)) = t'
            at hexpression hp ha ⊢
          refine ⟨_, ofSplit_of_expression rfl hplain hd hend hexpression,
            mapUses_attach_restrict hd hp, fun key => ?_⟩
          obtain ⟨hoverrides, -⟩ := ofSplit_eq_ok_iff.mp hd
          rw [hoverrides, SplitText.abilityOverrides, SplitText.abilityOverrides, Table.get?_map,
            Table.get?_map, ha, restrict]
          split <;> rfl

/-- The rotation of `assault[*1] (pool)` with settings for the label and for another ability. -/
def settled : Rotation :=
  ⟨[[[.ability ⟨"assault", [], some { level := some 5 }, some "1"⟩, .marker "pool"]]],
    Table.ofList [("meteor", some { level := some 1 })]⟩

/-- Of the settings that come with `assault[*1] (pool)`, those for `meteor` are lost. -/
theorem exportFull_reread_settled :
    Rotation.exportFull Catalog.default .steps
          "assault[*1] (pool)\n#*1 level=5\n#@meteor level=1" none none =
        .ok "assault[*1](pool)\n#*1 level=5" ∧
      ∃ d', Rotation.parse {} "assault[*1](pool)\n#*1 level=5" = .ok d' ∧
        d'.steps = settled.steps ∧
          ∀ key, d'.abilityOverrides.get? key =
            if key ∈ settled.abilityKeys then settled.abilityOverrides.get? key else none := by
  have hparse : Rotation.parse {} "assault[*1] (pool)\n#*1 level=5\n#@meteor level=1" =
      .ok settled := by
    let ts : List Token :=
      [⟨.word ⟨"assault", some "1"⟩, 0, false⟩, ⟨.tooltip "pool", 12, false⟩]
    refine ofSplit_alternative ts (by decide) (by decide +kernel) ?_ (by decide)
      (by decide)
    exact .between rfl (.plain rfl (by decide) (by decide)) rfl
  have hexport : Rotation.exportFull Catalog.default .steps
        "assault[*1] (pool)\n#*1 level=5\n#@meteor level=1" none none =
      .ok "assault[*1](pool)\n#*1 level=5" := by
    rw [Rotation.exportFull, hparse]
    decide +kernel
  obtain ⟨d, hd, hreread⟩ := exportFull_reread hexport
  obtain rfl : d = settled := Except.ok.inj (hd.symm.trans hparse)
  exact ⟨hexport, hreread (by decide)⟩

end AbilityRotation
