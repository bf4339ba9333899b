import AbilityRotation.Proofs.Descent.Stops
import AbilityRotation.Proofs.Descent.Uses

/-!
What the settings of single occurrences decide.

The settings under a label reach the uses with this label and decide nothing else.  Both ways in
which a rule can end are followed from one table of settings to another one.
* `Reads.attach`: with other settings a rule reads the same tree, with these settings attached.
* `Stops.with_perInstance`: with other settings a rule stops at the same place for the same reason.
* `stepsOfTokens_across_settings`: two tables of settings give two outcomes that differ in settings
  at most.
-/

namespace AbilityRotation

namespace Descent

variable {rules : Rules} {p : Phrase} {ts rest : List Token}

/-! ### Readings -/

/-- With other settings, the same tokens are read as the same tree with these settings attached. -/
theorem Reads.attach (q : Table Overrides) {v : p.Value} (h : Reads rules p ts v rest) :
    Reads { rules with perInstance := q } p ts (p.mapUses (AbilityUse.attach q) v) rest := by
  induction h with
  | lastStep _ ha hend ih =>
      exact .lastStep ih ((isAmbiguous_mapUsesOfStep _ _).trans ha) hend
  | arrow _ ha ht hstart _ ih1 ih2 =>
      exact .arrow ih1 ((isAmbiguous_mapUsesOfStep _ _).trans ha) ht hstart ih2
  | gap _ ha ht hmode _ ih1 ih2 =>
      exact .gap ih1 ((isAmbiguous_mapUsesOfStep _ _).trans ha) ht hmode ih2
  | lastTerm _ hnext ih => exact .lastTerm ih hnext
  | plus _ ht hstart _ ih1 ih2 => exact .plus ih1 ht hstart ih2
  | lastAlternative _ hnext ih => exact .lastAlternative ih hnext
  | slash _ ht hstart _ ih1 ih2 =>
      rw [Phrase.mapUses, mapUsesOfTerm_append]
      exact .slash ih1 ht hstart ih2
  | @alternative first ts a after _ ih =>
      obtain ⟨front, hfront, -⟩ := exists_markers ts
      obtain ⟨back, hback, -⟩ := exists_markers after
      rw [Phrase.mapUses, hfront, hback, mapUsesOfTerm_append, mapUsesOfTerm_markers,
        mapUsesOfTerm, mapUsesOfTerm_markers, ← hfront, ← hback]
      exact .alternative ih
  | @fused first t w rest f u ht hf hu =>
      -- modifiers leave no room for settings, so nothing is attached
      have hkeep : AbilityUse.attach q u = u := by
        obtain ⟨-, -, rfl⟩ := AbilityUse.build_eq_ok_iff.mp hu
        obtain ⟨chain, hne, hmodifiers, -⟩ := exists_chain_of_fusionAt? hf
        simp [AbilityUse.attach, hmodifiers, hne]
      rw [Phrase.mapUses, Alternative.mapUses, hkeep]
      exact .fused ht hf hu
  | plain ht hf hu =>
      obtain ⟨hnamed, -, rfl⟩ := AbilityUse.build_eq_ok_iff.mp hu
      exact .plain ht hf (AbilityUse.build_eq_ok_iff.mpr ⟨hnamed, .inl rfl, rfl⟩)
  | group ht hne _ hu ih => exact .group ht hne ih hu

/-- **Each occurrence has the settings of its label.**  Attaching the settings of labels changes
nothing in what was read with them. -/
theorem Reads.mapUses_attach {v : p.Value} (h : Reads rules p ts v rest) :
    p.mapUses (AbilityUse.attach rules.perInstance) v = v :=
  ((h.attach rules.perInstance).unique h).1

/-! ### Stops -/

/-- With other settings, a rule stops at the same place for the same reason. -/
theorem Stops.with_perInstance (q : Table Overrides) {e : Stop} (h : Stops rules p ts e) :
    Stops { rules with perInstance := q } p ts e := by
  induction h with
  | firstStep _ ih => exact .firstStep ih
  | ambiguous hs ha => exact .ambiguous (hs.attach q) ((isAmbiguous_mapUsesOfStep _ _).trans ha)
  | missingBehindArrow hs ha ht hstart =>
      exact .missingBehindArrow (hs.attach q) ((isAmbiguous_mapUsesOfStep _ _).trans ha) ht hstart
  | arrow hs ha ht hstart _ ih =>
      exact .arrow (hs.attach q) ((isAmbiguous_mapUsesOfStep _ _).trans ha) ht hstart ih
  | missingBefore hs ha ht =>
      exact .missingBefore (hs.attach q) ((isAmbiguous_mapUsesOfStep _ _).trans ha) ht
  | neighbour hs ha ht hmode =>
      exact .neighbour (hs.attach q) ((isAmbiguous_mapUsesOfStep _ _).trans ha) ht hmode
  | gap hs ha ht hmode _ ih =>
      exact .gap (hs.attach q) ((isAmbiguous_mapUsesOfStep _ _).trans ha) ht hmode ih
  | firstTerm _ ih => exact .firstTerm ih
  | missingBehindPlus ha ht hstart => exact .missingBehindPlus (ha.attach q) ht hstart
  | plus ha ht hstart _ ih => exact .plus (ha.attach q) ht hstart ih
  | firstAlternative _ ih => exact .firstAlternative ih
  | missingBehindSlash ha ht hstart => exact .missingBehindSlash (ha.attach q) ht hstart
  | slash ha ht hstart _ ih => exact .slash (ha.attach q) ht hstart ih
  | alternative _ ih => exact .alternative ih
  | missing hword hgroup => exact .missing hword hgroup
  | fused ht hf hu => exact .fused ht hf hu
  | plain ht hf hu => exact .plain ht hf (plainUse_eq_error_iff.mpr (plainUse_eq_error_iff.mp hu))
  | emptyGroup ht hclosing => exact .emptyGroup ht hclosing
  | group ht hne _ ih => exact .group ht hne ih
  | unterminated ht hne hss => exact .unterminated ht hne (hss.attach q)

/-! ### Two tables of settings -/

/-- With other settings, tokens that describe no steps describe none for the same reason. -/
lemma stepsOfTokens_error_with_perInstance (q : Table Overrides) {fault : Rotation.Fault}
    (h : Rotation.stepsOfTokens rules ts = .error fault) :
    Rotation.stepsOfTokens { rules with perInstance := q } ts = .error fault := by
  rw [stepsOfTokens_eq_error_iff] at h ⊢
  rcases h with ⟨e, he, hfault⟩ | ⟨ss, t, rest, hss, hfault⟩
  · exact .inl ⟨e, he.with_perInstance q, hfault⟩
  · exact .inr ⟨_, t, rest, hss.attach q, hfault⟩

/-- Tokens describe no steps since they are malformed, or since a word of them is blank. -/
lemma of_stepsOfTokens_eq_error {fault : Rotation.Fault}
    (h : Rotation.stepsOfTokens rules ts = .error fault) :
    (∃ f : ParseFault, fault = .parse f) ∨
      ¬ Named (Token.symbols ts) ∧ fault = .build .blankKey := by
  rcases stepsOfTokens_eq_error_iff.mp h with ⟨⟨reason, left⟩, he, rfl⟩ | ⟨ss, t, rest, -, rfl⟩
  · cases reason with
    | malformed cause => exact .inl ⟨_, rfl⟩
    | unbuildable fault =>
        obtain ⟨rfl, hblank⟩ := he.of_unbuildable rfl
        exact .inr ⟨hblank, rfl⟩
  · exact .inl ⟨_, rfl⟩

/-- Attached settings are forgotten with all others. -/
lemma withoutOverrides_mapUses_attach (q : Table Overrides) (ss : List Step) :
    withoutOverrides (mapUsesOfSteps (AbilityUse.attach q) ss) = withoutOverrides ss :=
  mapUsesOfSteps_mapUses _ _ ss

/-- **Settings of single occurrences decide nothing but the settings of these occurrences.**  With
two tables of settings, tokens are malformed in the same way, or they describe steps that are the
same without the settings, where each use has the settings of its label unless it has modifiers.
Blank words are set apart, since no ability can have a blank key: both runs may fail at one.  No
scanned word is blank (`named_of_ofChars`), so no text leads there. -/
theorem stepsOfTokens_across_settings (c : Catalog) (mode : AdjacentWords) (p q : Table Overrides)
    (ts : List Token) :
    (∃ fault : ParseFault,
      Rotation.stepsOfTokens ⟨c, mode, p⟩ ts = .error (.parse fault) ∧
        Rotation.stepsOfTokens ⟨c, mode, q⟩ ts = .error (.parse fault)) ∨
    (∃ ss ss' : List Step,
      Rotation.stepsOfTokens ⟨c, mode, p⟩ ts = .ok ss ∧
        Rotation.stepsOfTokens ⟨c, mode, q⟩ ts = .ok ss' ∧
          withoutOverrides ss = withoutOverrides ss' ∧
            ∀ u ∈ abilitiesOfSteps ss,
              u.overrides = if u.modifiers = [] then u.label.bind p.get? else none) ∨
    (¬ Named (Token.symbols ts) ∧
      Rotation.stepsOfTokens ⟨c, mode, p⟩ ts = .error (.build .blankKey) ∧
        Rotation.stepsOfTokens ⟨c, mode, q⟩ ts = .error (.build .blankKey)) := by
  cases h : Rotation.stepsOfTokens ⟨c, mode, p⟩ ts with
  | ok ss =>
      have hss : Reads ⟨c, mode, p⟩ .expression ts ss [] := stepsOfTokens_eq_ok_iff.mp h
      refine .inr (.inl ⟨ss, _, rfl, stepsOfTokens_eq_ok_iff.mpr (hss.attach q),
        (withoutOverrides_mapUses_attach q ss).symm, fun u hu => ?_⟩)
      simpa using (hss.forall_abilities u hu).overrides
  | error fault =>
      have hq : Rotation.stepsOfTokens ⟨c, mode, q⟩ ts = .error fault :=
        stepsOfTokens_error_with_perInstance q h
      rcases of_stepsOfTokens_eq_error h with ⟨f, rfl⟩ | ⟨hblank, rfl⟩
      · exact .inl ⟨f, rfl, hq⟩
      · exact .inr (.inr ⟨hblank, rfl, hq⟩)

/-- The tokens of `gmaul spec[*1] → cane[*2]`. -/
def fusedThenCane : List Token :=
  [.word ⟨"gmaul", none⟩, .word ⟨"spec", some "1"⟩, .arrow, .word ⟨"cane", some "2"⟩].map
    fun s => ⟨s, 0, false⟩

/-- Settings for both labels. -/
def settingsOfBoth : Table Overrides :=
  Table.ofList [("1", { level := some 5 }), ("2", { cooldown := some 7 })]

/-- In `gmaul spec[*1] → cane[*2]` only `cane` has the settings of its label, since `spec` has a
modifier; without settings the steps are the same otherwise. -/
theorem stepsOfTokens_across_settings_cane :
    ∃ ss ss' : List Step,
      Rotation.stepsOfTokens ⟨Catalog.default, .steps, settingsOfBoth⟩ fusedThenCane = .ok ss ∧
        Rotation.stepsOfTokens ⟨Catalog.default, .steps, Table.empty⟩ fusedThenCane = .ok ss' ∧
          withoutOverrides ss = withoutOverrides ss' ∧
            (abilitiesOfSteps ss).map (·.overrides) = [none, some { cooldown := some 7 }] := by
  have hspec : Reads ⟨Catalog.default, .steps, settingsOfBoth⟩ (.alternative true) fusedThenCane
      [.ability ⟨"spec", ["gmaul"], none, some "1"⟩] (fusedThenCane.drop 2) :=
    .between rfl (.fused (f := ⟨["gmaul"], ⟨"spec", some "1"⟩, fusedThenCane.drop 2⟩) rfl
      (by decide +kernel) (by decide)) rfl
  have hcane : Reads ⟨Catalog.default, .steps, settingsOfBoth⟩ .expression (fusedThenCane.drop 3)
      [[[.ability ⟨"cane", [], some { cooldown := some 7 }, some "2"⟩]]] [] :=
    .single (.between rfl (.plain rfl (by decide) (by decide)) rfl) (by decide) (.inl rfl)
  have hread : Rotation.stepsOfTokens ⟨Catalog.default, .steps, settingsOfBoth⟩ fusedThenCane =
      .ok [[[.ability ⟨"spec", ["gmaul"], none, some "1"⟩]],
        [[.ability ⟨"cane", [], some { cooldown := some 7 }, some "2"⟩]]] :=
    stepsOfTokens_eq_ok_iff.mpr (.arrow (.lastTerm (.lastAlternative hspec (by decide))
      (by decide)) (by decide) rfl rfl hcane)
  rcases stepsOfTokens_across_settings Catalog.default .steps settingsOfBoth Table.empty
      fusedThenCane with ⟨fault, h, -⟩ | ⟨ss, ss', h, h', hsame, hall⟩ | ⟨-, h, -⟩
  · cases hread.symm.trans h
  · cases hread.symm.trans h
    exact ⟨_, ss', h, h', hsame, rfl⟩
  · cases hread.symm.trans h

end Descent

end AbilityRotation
