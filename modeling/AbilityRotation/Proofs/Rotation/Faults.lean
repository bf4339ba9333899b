import AbilityRotation.Proofs.Descent.Labelled
import AbilityRotation.Proofs.Grammar.Recognition
import AbilityRotation.Proofs.Settings.Interleaving

/-!
Why texts cannot be read.

Words of a text are never blank and abilities with modifiers never get settings, so each ability of
a text can be used as asked, and a text that cannot be read is malformed.  Its settings lines are
not to blame for that.
* `expression_eq_filter`: the expression is made of the lines with neither mark.
* `ofSplit_eq_error_iff`: why a text that is taken apart is no rotation.
* `parse_eq_ok_or_malformed`: texts are read or malformed, and their settings do not matter.
-/

namespace AbilityRotation

open Text

/-- The expression of a text is made of the lines that begin with neither mark. -/
theorem expression_eq_filter (text : String) :
    (SplitText.ofText text).expression =
      trimChars (['\n'].intercalate
        ((lines (sanitize text.toList)).filter (IsExpressionLine <| String.ofList ·))) := by
  rw [expression_ofText, SplitText.linesOf, expressionLines_eq_filterMap, List.filterMap_map,
    ← List.filterMap_eq_filter]
  congr 2
  refine List.filterMap_congr fun l _ => ?_
  have hl := expression?_ofChars (String.ofList l)
  rw [String.toList_ofList] at hl
  rw [Function.comp_apply, hl]
  by_cases h : IsExpressionLine (String.ofList l) <;> simp [h, Option.guard]

variable {options : ParseOptions} {t : SplitText} {fault : Rotation.Fault}

/-- When a text that is taken apart is no rotation: the scan of its expression or the descent
through the tokens stops. -/
lemma ofSplit_eq_error_iff :
    Rotation.ofSplit options t = .error fault ↔
      t.expression ≠ [] ∧
        ((∃ f : ParseFault, Token.ofChars options.names t.expression = .error f ∧
            .parse f = fault) ∨
          ∃ ts, Token.ofChars options.names t.expression = .ok ts ∧
            Rotation.stepsOfTokens (Rotation.rulesOf options t.perInstance) ts =
              .error fault) := by
  rw [Rotation.ofSplit]
  by_cases hempty : t.expression = []
  · simp [hempty]
  · rw [if_neg (by simpa using hempty)]
    cases hts : Token.ofChars options.names t.expression with
    | error f => simp [hempty]
    | ok ts =>
        cases hsteps : Rotation.stepsOfTokens (Rotation.rulesOf options t.perInstance) ts with
        | error fault' => simp [hempty, hsteps]
        | ok steps => simp [hempty, hsteps]

/-- With other settings, an expression that is no rotation is none for the same reason. -/
lemma ofSplit_error_with_settings {cs : List Char} {p q : Table Overrides}
    (hexpression : t.expression = cs) :
    Rotation.ofSplit options t = .error fault ↔
      Rotation.ofSplit options ⟨cs, p, q⟩ = .error fault := by
  rw [ofSplit_eq_error_iff, ofSplit_eq_error_iff, hexpression]
  refine and_congr_right fun _ => or_congr_right <| exists_congr fun ts => and_congr_right fun _ =>
    ?_
  exact ⟨Descent.stepsOfTokens_error_with_perInstance p,
    Descent.stepsOfTokens_error_with_perInstance t.perInstance⟩

/-- An expression of plain lines that cannot be read is malformed. -/
lemma exists_of_ofSplit_eq_error (hplain : Lexeme.PlainLines t.expression)
    (h : Rotation.ofSplit options t = .error fault) : ∃ f : ParseFault, fault = .parse f := by
  obtain ⟨-, ⟨f, -, rfl⟩ | ⟨ts, hts, hsteps⟩⟩ := ofSplit_eq_error_iff.mp h
  · exact ⟨f, rfl⟩
  · exact (Descent.of_stepsOfTokens_eq_error hsteps).resolve_right fun hblank =>
      hblank.1 (named_of_ofChars hts hplain)

/-- **Texts are read or malformed.**  Whatever the text, the modifiers, the names and the treatment
of neighbours are, reading gives a rotation or a fault of the text, and never an ability that cannot
be used as asked.  The lines that begin with the mark of a scope have no part in that: however they
go on, the fault is that of the remaining lines with any settings at all. -/
theorem parse_eq_ok_or_malformed (options : ParseOptions) (text : String) :
    ((∃ d, Rotation.parse options text = .ok d) ∨
      ∃ f : ParseFault, Rotation.parse options text = .error (.parse f)) ∧
    ∀ (perInstance perAbility : Table Overrides) (fault : Rotation.Fault),
      Rotation.parse options text = .error fault ↔
        Rotation.ofSplit options
          ⟨trimChars (['\n'].intercalate
              ((lines (sanitize text.toList)).filter (IsExpressionLine <| String.ofList ·))),
            perInstance, perAbility⟩ = .error fault := by
  constructor
  · cases h : Rotation.parse options text with
    | ok d => exact .inl ⟨d, rfl⟩
    | error fault =>
        -- words of a text are not blank, which is all that building an ability asks
        obtain ⟨f, rfl⟩ := exists_of_ofSplit_eq_error (plainLines_expression text) h
        exact .inr ⟨f, rfl⟩
  · intro perInstance perAbility fault
    rw [Rotation.parse]
    exact ofSplit_error_with_settings (expression_eq_filter text)

end AbilityRotation
