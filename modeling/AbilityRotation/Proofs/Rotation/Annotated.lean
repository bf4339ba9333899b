import AbilityRotation.Proofs.Canonical.RoundTrip
import AbilityRotation.Proofs.Grammar.Annotation
import AbilityRotation.Proofs.Rotation.Faults
import AbilityRotation.Proofs.Settings.Insertion
import AbilityRotation.Proofs.Token.Insertion

/-!
Texts with one more tooltip.

Without modifiers, a tooltip that is inserted into a text in front of a word becomes a marker in
front of its ability, and nothing else changes.  Only in front of `spec` it cannot stand: a plus is
understood behind it, and the tooltip has no ability to belong to.
* `SplitText.annotated`: a text that is taken apart, with a tooltip in its expression.
* `exists_ofText_annotated`: the place in the text for the tooltip.
* `ofSplit_annotated` and `exists_ofSplit_annotated_eq_error`: what is read with the tooltip.
* `exists_parse_annotated`: the text with one more note.
-/

namespace AbilityRotation

open Lexeme Text Descent

variable {options : ParseOptions} {names : List String} {text note : String} {s : SplitText}
  {d : Rotation} {before after ts : List Token} {t : Token} {w : Word}

/-- A text that is taken apart, with a tooltip and a space in front of a place of its expression. -/
def SplitText.annotated (note : String) (pos : ℕ) (s : SplitText) : SplitText :=
  { s with
    expression := s.expression.take pos ++ (markerChars note ++ ' ' :: s.expression.drop pos) }

/-- Tooltips can be inserted, with a space behind them. -/
lemma insertable_tooltip (h : (Symbol.tooltip note).Written names) :
    Insertable (markerChars note ++ [' ']) where
  head := ⟨_, rfl⟩
  plain := by
    intro c hc
    rcases List.mem_append.mp hc with hc | hc
    · exact isPlain_of_mem_chars h hc
    · rw [List.mem_singleton.mp hc]
      decide

/-- A tooltip in front of a word that follows no operand is inserted into the text in front of the
character with which the word begins. -/
lemma exists_ofText_annotated
    (htokens : Token.ofChars names (SplitText.ofText text).expression = .ok (before ++ t :: after))
    (ht : t.symbol = .word w)
    (hbefore : ∀ x ∈ before.getLast?,
      x.symbol.endsOperand = false ∧ (x.symbol = .plus → x.implicit = false))
    (hnote : (Symbol.tooltip note).Written (names.map lowerCase)) (hend : ¬ endsInBackslash note) :
    ∃ p c q noted ts, text.toList = p ++ c :: q ∧
      noted.toList = p ++ (markerChars note ++ ' ' :: c :: q) ∧
      (SplitText.ofText text).expression[t.pos]? = some c ∧
      SplitText.ofText noted = (SplitText.ofText text).annotated note t.pos ∧
      Token.ofChars names ((SplitText.ofText text).annotated note t.pos).expression = .ok ts ∧
      Token.symbols ts = Token.symbols before ++ .tooltip note ::
        ((if Token.isSpec t.symbol then [.plus] else []) ++ t.symbol :: Token.symbols after) := by
  obtain ⟨cs₁, cs₂, ts, hsplit, hpos, ⟨c, rest, rfl, hc, -⟩, hts, hsymbols⟩ :=
    Token.exists_ofChars_inserted htokens ht hbefore hnote hend
  -- a tooltip has no line break or quote, so the text splits into the same lines
  obtain ⟨p, q, htext, hinserted⟩ := exists_ofText_inserted (insertable_tooltip hnote) hc hsplit
  have hexpression : ((SplitText.ofText text).annotated note t.pos).expression =
      cs₁ ++ (markerChars note ++ ' ' :: c :: rest) := by
    rw [SplitText.annotated, hsplit, hpos, List.take_left, List.drop_left]
  refine ⟨p, c, q, String.ofList (p ++ (markerChars note ++ ' ' :: c :: q)), ts, htext,
    String.toList_ofList, ?_, ?_, ?_, hsymbols⟩
  · rw [hsplit, hpos, List.getElem?_append_right le_rfl, Nat.sub_self]
    rfl
  · have hspace : ∀ rest, markerChars note ++ ' ' :: rest = markerChars note ++ [' '] ++ rest :=
      fun rest => List.append_cons _ _ _
    rw [hspace, hinserted, ← hspace, ← hexpression]
    rfl
  · rw [hexpression]
    exact hts

/-- The tokens of an expression, if there are any, give the steps of the rotation. -/
lemma stepsOfTokens_of_ofSplit (h : Rotation.ofSplit options s = .ok d)
    (hts : Token.ofChars options.names s.expression = .ok ts) (hne : ts ≠ []) :
    Rotation.stepsOfTokens (Rotation.rulesOf options s.perInstance) ts = .ok d.steps := by
  obtain ⟨-, ⟨hempty, -⟩ | ⟨-, us, hus, hsteps⟩⟩ := ofSplit_eq_ok_iff.mp h
  · have hnil : Token.ofChars options.names s.expression = .ok [] := by
      rw [hempty, Token.ofChars, Lexeme.ofChars, scan]
      rfl
    exact absurd (Except.ok.inj (hts.symm.trans hnil)) hne
  · obtain rfl := Except.ok.inj (hts.symm.trans hus)
    exact hsteps

lemma expression_annotated_ne_nil (note : String) (pos : ℕ) (s : SplitText) :
    (s.annotated note pos).expression ≠ [] := by
  simp [SplitText.annotated, markerChars]

section Read

variable {pos : ℕ} (hcatalog : options.catalog = Catalog.empty)
  (hmode : options.adjacentWords ≠ .join)
  (hbefore : ∀ x ∈ (Token.symbols before).getLast?, x.endsOperand = false)
  (hts : Token.ofChars options.names (s.annotated note pos).expression = .ok ts)

include hcatalog hmode hbefore hts

/-- If the tokens with a tooltip in front of a word differ in nothing else, then the steps differ in
a marker in front of the ability for which the word stands. -/
lemma ofSplit_annotated (h : Rotation.ofSplit options s = .ok d)
    (htokens : Token.ofChars options.names s.expression = .ok (before ++ t :: after))
    (ht : t.symbol = .word w)
    (hsymbols : Token.symbols ts =
      Token.symbols before ++ .tooltip note :: t.symbol :: Token.symbols after) :
    Rotation.ofSplit options (s.annotated note pos) =
        .ok ⟨annotateSteps note d.steps (wordsOf (Token.symbols before)).length,
          d.abilityOverrides⟩ ∧
      d.abilities[(wordsOf (Token.symbols before)).length]? =
        some (Derivation.useOf s.perInstance w) := by
  have hr : NamesNoModifier (Rotation.rulesOf options s.perInstance).catalog
      (Token.symbols (before ++ t :: after)) := by
    rw [Rotation.rulesOf, hcatalog]
    exact namesNoModifier_empty _
  obtain ⟨hsteps, hability⟩ := stepsOfTokens_annotated hr hmode
    (by rw [Token.symbols_append, Token.symbols_cons, ht]) hbefore (by rw [hsymbols, ht])
    (stepsOfTokens_of_ofSplit h htokens (by simp))
  exact ⟨ofSplit_eq_ok_iff.mpr ⟨(ofSplit_eq_ok_iff.mp h).1,
    .inr ⟨expression_annotated_ne_nil note pos s, ts, hts, hsteps⟩⟩, hability⟩

/-- Behind a tooltip that follows no operand, a plus cannot be read. -/
lemma exists_ofSplit_annotated_eq_error {ss : List Symbol}
    (hsymbols : Token.symbols ts = Token.symbols before ++ .tooltip note :: .plus :: ss) :
    ∃ fault, Rotation.ofSplit options (s.annotated note pos) = .error fault := by
  cases h : Rotation.ofSplit options (s.annotated note pos) with
  | error fault => exact ⟨fault, rfl⟩
  | ok d =>
      have hne : ts ≠ [] := by
        rintro rfl
        exact absurd hsymbols.symm (by simp)
      have hr : NamesNoModifier
          (Rotation.rulesOf options (s.annotated note pos).perInstance).catalog
          (Token.symbols ts) := by
        rw [Rotation.rulesOf, hcatalog]
        exact namesNoModifier_empty _
      exact absurd (stepsOfTokens_of_ofSplit h hts hne)
        (stepsOfTokens_ne_ok_of_plus hr hmode hbefore hsymbols)

end Read

/-- **A tooltip in front of a word becomes a marker in front of its ability.**  A text without
modifiers that is read with neighbours apart is read with any tooltip in front of a word that
follows no operand, as the same rotation with a marker; only in front of `spec` the text with the
tooltip is malformed. -/
theorem exists_parse_annotated (hcatalog : options.catalog = Catalog.empty)
    (hmode : options.adjacentWords ≠ .join) (h : Rotation.parse options text = .ok d)
    (htokens : Token.ofChars options.names (SplitText.ofText text).expression =
      .ok (before ++ t :: after))
    (ht : t.symbol = .word w)
    (hbefore : ∀ x ∈ before.getLast?,
      x.symbol.endsOperand = false ∧ (x.symbol = .plus → x.implicit = false))
    (hnote : (Symbol.tooltip note).Written (options.names.map lowerCase))
    (hend : ¬ endsInBackslash note) :
    ∃ p c q noted, text.toList = p ++ c :: q ∧
      noted.toList = p ++ (markerChars note ++ ' ' :: c :: q) ∧
      (SplitText.ofText text).expression[t.pos]? = some c ∧
      SplitText.ofText noted = (SplitText.ofText text).annotated note t.pos ∧
      if Token.isSpec t.symbol then
        ∃ fault : ParseFault, Rotation.parse options noted = .error (.parse fault)
      else
        Rotation.parse options noted =
            .ok ⟨annotateSteps note d.steps (wordsOf (Token.symbols before)).length,
              d.abilityOverrides⟩ ∧
          d.abilities[(wordsOf (Token.symbols before)).length]? =
            some (Derivation.useOf (SplitText.ofText text).perInstance w) := by
  obtain ⟨p, c, q, noted, ts, htext, hnoted, hplace, hinserted, hts, hsymbols⟩ :=
    exists_ofText_annotated htokens ht hbefore hnote hend
  have hlast : ∀ x ∈ (Token.symbols before).getLast?, x.endsOperand = false := by
    intro x hx
    rw [Token.symbols, List.getLast?_map, Option.mem_map] at hx
    obtain ⟨y, hy, rfl⟩ := hx
    exact (hbefore y hy).1
  refine ⟨p, c, q, noted, htext, hnoted, hplace, hinserted, ?_⟩
  rw [Rotation.parse, hinserted]
  split
  · next hspec =>
      rw [if_pos hspec] at hsymbols
      obtain ⟨fault, hfault⟩ :=
        exists_ofSplit_annotated_eq_error hcatalog hmode hlast hts hsymbols
      have hplain := plainLines_expression noted
      rw [hinserted] at hplain
      obtain ⟨f, rfl⟩ := exists_of_ofSplit_eq_error hplain hfault
      exact ⟨f, hfault⟩
  · next hspec =>
      rw [if_neg hspec] at hsymbols
      exact ofSplit_annotated hcatalog hmode hlast hts h htokens ht hsymbols

/-- **A note in front of a word changes nothing else.**  In a text that is read without modifiers,
`(note) ` can be inserted in front of each word that begins the expression or follows an arrow, a
plus of the text, a slash or an opening parenthesis: a marker is then read in front of its ability,
in otherwise the same steps.  The one exception is the word `spec`: with a note in front of it the
text is malformed. -/
theorem parse_with_note (h : Rotation.parse ⟨Catalog.empty, .steps, names⟩ text = .ok d)
    (htokens : Token.ofChars names (SplitText.ofText text).expression = .ok (before ++ t :: after))
    (ht : t.symbol = .word w)
    (hbefore : ∀ x ∈ before.getLast?,
      x.symbol.endsOperand = false ∧ (x.symbol = .plus → x.implicit = false))
    (hnote : "note" ∉ names.map lowerCase) :
    ∃ p c q noted, text.toList = p ++ c :: q ∧
      noted.toList = p ++ ("(note) ".toList ++ c :: q) ∧
      (SplitText.ofText text).expression[t.pos]? = some c ∧
      SplitText.ofText noted = (SplitText.ofText text).annotated "note" t.pos ∧
      if Token.isSpec t.symbol then
        ∃ fault : ParseFault,
          Rotation.parse ⟨Catalog.empty, .steps, names⟩ noted = .error (.parse fault)
      else
        Rotation.parse ⟨Catalog.empty, .steps, names⟩ noted =
            .ok ⟨annotateSteps "note" d.steps (wordsOf (Token.symbols before)).length,
              d.abilityOverrides⟩ ∧
          d.abilities[(wordsOf (Token.symbols before)).length]? =
            some (Derivation.useOf (SplitText.ofText text).perInstance w) := by
  have hlower : String.ofList (lowerCaseAfter false "note".toList) = "note" := by
    decide
  have hwritten : (Symbol.tooltip "note").Written (names.map lowerCase) := by
    refine ⟨by decide, ⟨by decide, by decide⟩, by decide, ?_,
      List.all_iff_forall_prop.mp (by decide)⟩
    rw [hlower]
    simpa using hnote
  have hmode : AdjacentWords.steps ≠ .join := by decide
  have hchars : markerChars "note" ++ [' '] = "(note) ".toList := by decide
  have hcatalog : (⟨Catalog.empty, .steps, names⟩ : ParseOptions).catalog = Catalog.empty := rfl
  obtain ⟨p, c, q, noted, htext, hnoted, hread⟩ :=
    exists_parse_annotated hcatalog hmode h htokens ht hbefore hwritten (by decide)
  refine ⟨p, c, q, noted, htext, ?_, hread⟩
  rw [hnoted, ← hchars, List.append_assoc]
  rfl

/-- In `(cane\nassault)`, where the line break is an arrow, a note in front of `assault`; and a note
in front of `spec`. -/
theorem parse_with_note_assault :
    let options : ParseOptions := ⟨Catalog.empty, .steps, []⟩
    let noted (marker : List Alternative) : Rotation :=
      ⟨[[[.group [[[.ability { key := "cane" }]], [marker ++ [.ability { key := "assault" }]]]
        Table.empty]]], Table.empty⟩
    (Rotation.parse options "(cane\nassault)" = .ok (noted []) ∧
      ∃ p c q s, "(cane\nassault)".toList = p ++ c :: q ∧
        s.toList = p ++ ("(note) ".toList ++ c :: q) ∧
        (SplitText.ofText s).expression = "(cane\n(note) assault)".toList ∧
        Rotation.parse options s = .ok (noted [.marker "note"])) ∧
      Rotation.parse options "spec" = .ok ⟨[[[.ability { key := "spec" }]]], Table.empty⟩ ∧
      ∃ p c q s, "spec".toList = p ++ c :: q ∧ s.toList = p ++ ("(note) ".toList ++ c :: q) ∧
        (SplitText.ofText s).expression = "(note) spec".toList ∧
        ∃ fault : ParseFault, Rotation.parse options s = .error (.parse fault) := by
  intro options noted
  let before : List Token := [⟨.opening, 0, false⟩, ⟨.word ⟨"cane", none⟩, 1, false⟩,
    ⟨.arrow, 5, true⟩]
  let assault : Token := ⟨.word ⟨"assault", none⟩, 6, false⟩
  let after : List Token := [⟨.closing, 13, false⟩]
  let spec : Token := ⟨.word ⟨"spec", none⟩, 0, false⟩
  have hgroup : Token.ofChars [] (SplitText.ofText "(cane\nassault)").expression =
      .ok (before ++ assault :: after) := by
    decide +kernel
  have hspec : Token.ofChars [] (SplitText.ofText "spec").expression = .ok ([] ++ spec :: []) := by
    decide +kernel
  have hparse : Rotation.parse options "(cane\nassault)" = .ok (noted []) := by
    let rules := Rotation.rulesOf options (SplitText.ofText "(cane\nassault)").perInstance
    have hcane : Reads rules .terms (before.drop 1 ++ assault :: after)
        [[.ability { key := "cane" }]] (before.drop 2 ++ assault :: after) :=
      .lastTerm (.lastAlternative (.between rfl
        (.plain rfl (by decide) (by decide)) rfl) (by decide)) (by decide)
    have hassault : Reads rules .expression (assault :: after)
        [[[.ability { key := "assault" }]]] after :=
      .single (.between rfl (.plain rfl (by decide) (by decide)) rfl) (by decide)
        (.inr rfl)
    refine ofSplit_alternative _ (by decide) hgroup ?_ (by decide) (by decide)
    exact .between rfl (.group rfl (by decide) (.arrow hcane (by decide) rfl rfl hassault) rfl) rfl
  have hparse' : Rotation.parse options "spec" =
      .ok ⟨[[[.ability { key := "spec" }]]], Table.empty⟩ := by
    refine ofSplit_alternative _ (by decide) hspec ?_ (by decide) (by decide)
    exact .between rfl (.plain rfl (by decide) (by decide)) rfl
  -- the line break is an arrow that nobody wrote, and the note goes behind it
  refine ⟨⟨hparse, ?_⟩, hparse', ?_⟩
  · obtain ⟨p, c, q, s, htext, hs, -, hsplit, hread⟩ :=
      parse_with_note hparse hgroup rfl (by decide) (by decide)
    refine ⟨p, c, q, s, htext, hs, ?_, ?_⟩
    · rw [hsplit]
      decide
    · rw [if_neg (by decide)] at hread
      exact hread.1
  · obtain ⟨p, c, q, s, htext, hs, -, hsplit, hread⟩ :=
      parse_with_note hparse' hspec rfl (by decide) (by decide)
    refine ⟨p, c, q, s, htext, hs, ?_, ?_⟩
    · rw [hsplit]
      decide
    · rw [if_pos (by decide)] at hread
      exact hread

end AbilityRotation
