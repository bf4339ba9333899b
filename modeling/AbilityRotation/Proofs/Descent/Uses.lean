import AbilityRotation.Proofs.Canonical.RoundTrip

/-!
The uses of abilities that are read.

A use that comes `FromText` has modifiers that the catalog knows and no settings, or it has no
modifiers and the settings of its label.
* `Reads.exists_operand_of_mem_abilities`: each use in what a rule reads was read as an operand.
* `Reads.exists_chain`, `Reads.overrides_eq`: the modifiers and the settings of such an operand.
* `Reads.forall_abilities`, `forall_abilities_of_parse`: the uses that a rule reads are of this
  kind, and so are those of a rotation that is read from its text.
-/

namespace AbilityRotation

open Descent

/-- Whether a name leads to the modifier with the key. -/
def Catalog.Resolves (c : Catalog) (key : String) : Prop :=
  ∃ name m, c.resolve name = some m ∧ m.key = key

/-! ### Readings -/

/-- What is known of a use that was read. -/
structure AbilityUse.FromText (rules : Rules) (u : AbilityUse) : Prop where
  /-- Its modifiers are keys to which names lead. -/
  modifiers : ∀ key ∈ u.modifiers, rules.catalog.Resolves key
  /-- It has the settings of its label unless it has modifiers. -/
  overrides : u.overrides =
    if u.modifiers.isEmpty then u.label.bind rules.perInstance.get? else none

@[simp] lemma abilitiesOfTerm_append (a b : List Alternative) :
    abilitiesOfTerm (a ++ b) = abilitiesOfTerm a ++ abilitiesOfTerm b := by
  induction a with
  | nil => rfl
  | cons x a ih => simp [abilitiesOfTerm, ih]

@[simp] lemma abilitiesOfTerm_markers (texts : List String) :
    abilitiesOfTerm (texts.map (.marker ·)) = [] := by
  induction texts with
  | nil => rfl
  | cons text texts ih => simpa [abilitiesOfTerm, Alternative.abilities] using ih

namespace Descent

/-- The uses of abilities in what a rule reads. -/
def Phrase.abilities : (p : Phrase) → p.Value → List AbilityUse
  | .expression, ss => abilitiesOfSteps ss
  | .terms, as => abilitiesOfStep as
  | .term _, a => abilitiesOfTerm a
  | .alternative _, a => abilitiesOfTerm a
  | .operand _, a => a.abilities

variable {rules : Rules} {ts rest : List Token}

/-- Each use in what a rule reads was read as an operand. -/
lemma Reads.exists_operand_of_mem_abilities {p : Phrase} {v : p.Value} {u : AbilityUse}
    (h : Reads rules p ts v rest) (hu : u ∈ p.abilities v) :
    ∃ first us after, Reads rules (.operand first) us (.ability u) after := by
  induction h with
  | lastStep _ _ _ ih => exact ih (by simpa [Phrase.abilities, abilitiesOfSteps] using hu)
  | arrow _ _ _ _ _ ih1 ih2 | gap _ _ _ _ _ ih1 ih2 | plus _ _ _ _ ih1 ih2 =>
      exact (List.mem_append.mp hu).elim ih1 ih2
  | lastTerm _ _ ih => exact ih (by simpa [Phrase.abilities, abilitiesOfStep] using hu)
  | lastAlternative _ _ ih => exact ih hu
  | slash _ _ _ _ ih1 ih2 =>
      rw [Phrase.abilities, abilitiesOfTerm_append] at hu
      exact (List.mem_append.mp hu).elim ih1 ih2
  | @alternative first ts a after _ ih =>
      obtain ⟨front, hfront, -⟩ := exists_markers ts
      obtain ⟨back, hback, -⟩ := exists_markers after
      rw [Phrase.abilities, hfront, hback, abilitiesOfTerm_append, abilitiesOfTerm_markers,
        abilitiesOfTerm, abilitiesOfTerm_markers, List.append_nil] at hu
      exact ih hu
  | fused ht hf hbuild =>
      rw [List.mem_singleton.mp hu]
      exact ⟨_, _, _, .fused ht hf hbuild⟩
  | plain ht hf hbuild =>
      rw [List.mem_singleton.mp hu]
      exact ⟨_, _, _, .plain ht hf hbuild⟩
  | group _ _ _ _ ih => exact ih hu

/-- The modifiers of an ability that is read are found by name, and accept the ability. -/
lemma Reads.exists_chain {first : Bool} {u : AbilityUse}
    (h : Reads rules (.operand first) ts (.ability u) rest) :
    ∃ chain : List Modifier, u.modifiers = chain.map (·.key) ∧
      ∀ m ∈ chain, rules.catalog.LeadsTo m ∧ m.accepts u.key = true := by
  cases h with
  | fused _ hf hu =>
      obtain ⟨-, -, rfl⟩ := AbilityUse.build_eq_ok_iff.mp hu
      obtain ⟨chain, -, hmodifiers, hchain⟩ := exists_chain_of_fusionAt? hf
      exact ⟨chain, hmodifiers, hchain⟩
  | plain _ _ hu =>
      obtain ⟨-, -, rfl⟩ := AbilityUse.build_eq_ok_iff.mp hu
      exact ⟨[], rfl, by simp⟩

/-- An ability that is read has the settings of its label unless it has modifiers. -/
lemma Reads.overrides_eq {first : Bool} {u : AbilityUse}
    (h : Reads rules (.operand first) ts (.ability u) rest) :
    u.overrides = if u.modifiers.isEmpty then u.label.bind rules.perInstance.get? else none := by
  cases h with
  | fused _ hf hu =>
      obtain ⟨-, -, rfl⟩ := AbilityUse.build_eq_ok_iff.mp hu
      obtain ⟨chain, hne, hmodifiers, -⟩ := exists_chain_of_fusionAt? hf
      simp [hmodifiers, hne]
  | plain _ _ hu =>
      obtain ⟨-, -, rfl⟩ := AbilityUse.build_eq_ok_iff.mp hu
      rfl

/-- The uses that a rule reads are fused with modifiers or have the settings of their labels. -/
theorem Reads.forall_abilities {p : Phrase} {v : p.Value} (h : Reads rules p ts v rest) :
    ∀ u ∈ p.abilities v, u.FromText rules := by
  intro u hu
  obtain ⟨first, us, after, hread⟩ := h.exists_operand_of_mem_abilities hu
  refine ⟨fun key hkey => ?_, hread.overrides_eq⟩
  obtain ⟨chain, hmodifiers, hchain⟩ := hread.exists_chain
  rw [hmodifiers] at hkey
  obtain ⟨m, hm, rfl⟩ := List.mem_map.mp hkey
  obtain ⟨name, hname⟩ := (hchain m hm).1
  exact ⟨name, m, hname, rfl⟩

end Descent

/-- Each use of a rotation that is read from its text was read as an operand. -/
theorem exists_operand_of_parse {options : ParseOptions} {text : String} {d : Rotation}
    {u : AbilityUse} (h : Rotation.parse options text = .ok d) (hu : u ∈ d.abilities) :
    ∃ first us after,
      Reads (Rotation.rulesOf options (SplitText.ofText text).perInstance) (.operand first) us
        (.ability u) after := by
  obtain ⟨-, ⟨-, hsteps⟩ | ⟨-, ts, -, hsteps⟩⟩ := ofSplit_eq_ok_iff.mp h
  · rw [Rotation.abilities, hsteps] at hu
    cases hu
  · exact (stepsOfTokens_eq_ok_iff.mp hsteps).exists_operand_of_mem_abilities hu

/-- The uses of a rotation that is read from its text. -/
theorem forall_abilities_of_parse {options : ParseOptions} {text : String} {d : Rotation}
    (h : Rotation.parse options text = .ok d) :
    ∀ u ∈ d.abilities,
      u.FromText (Rotation.rulesOf options (SplitText.ofText text).perInstance) := by
  intro u hu
  obtain ⟨first, us, after, hread⟩ := exists_operand_of_parse h hu
  exact hread.forall_abilities u (List.mem_singleton.mpr rfl)

end AbilityRotation
