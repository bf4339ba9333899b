import AbilityRotation.Proofs.Text.Words

/-!
Texts that are written line by line.

* `plainLines_expression`: the expression of any text has plain lines.
* `linesOf_intercalate`: plain lines are found again in the text that they make up, unless it begins
  with a quote.
-/

namespace AbilityRotation

open Text

/-! ### The expression of a text -/

lemma mem_of_mem_stripQuotes {cs : List Char} {c : Char} (h : c ∈ stripQuotes cs) : c ∈ cs := by
  rw [stripQuotes] at h
  split at h
  · next inside hinside =>
      refine mem_of_mem_trimChars ?_
      rw [insideQuotes?.eq_def] at hinside
      split at hinside
      · next rest heq =>
          split at hinside
          · cases hinside
            rw [heq]
            exact List.mem_cons_of_mem _ (List.mem_of_mem_dropLast (mem_of_mem_trimChars h))
          · cases hinside
      · cases hinside
  · exact h

/-- The lines of a text are plain. -/
lemma isPlain_of_mem_lines_sanitize {cs line : List Char} {c : Char}
    (hl : line ∈ lines (sanitize cs)) (hc : c ∈ line) : isPlain c = true := by
  obtain ⟨hmem, hend⟩ := of_mem_lines hl hc
  have hvisible := (List.mem_filter.mp (mem_of_mem_stripQuotes hmem)).2
  simpa [isPlain, hend] using hvisible

/-- The line of the expression that a line is, if it is one. -/
def TextLine.expression? : TextLine → Option (List Char)
  | .expression cs => some cs
  | _ => none

lemma expression?_settingOf {scope : SettingsScope} {inTarget : Char → Bool}
    {line after : List Char} :
    (TextLine.settingOf scope inTarget line after).expression? = none := by
  rw [TextLine.settingOf]
  split <;> rfl

lemma expressionLines_eq_filterMap (ls : List TextLine) :
    SplitText.expressionLines ls = ls.filterMap TextLine.expression? := by
  rw [SplitText.expressionLines]
  refine List.filterMap_congr fun l _ => ?_
  cases l <;> rfl

lemma mem_expressionLines {ls : List (List Char)} {l : List Char}
    (h : l ∈ SplitText.expressionLines (ls.map TextLine.ofChars)) : l ∈ ls := by
  rw [expressionLines_eq_filterMap, List.mem_filterMap] at h
  obtain ⟨line, hline, heq⟩ := h
  obtain ⟨cs, hcs, rfl⟩ := List.mem_map.mp hline
  rw [TextLine.ofChars] at heq
  split at heq
  · rw [expression?_settingOf] at heq
    cases heq
  · rw [expression?_settingOf] at heq
    cases heq
  · cases heq
    exact hcs

lemma mem_intercalate_newline {ls : List (List Char)} {c : Char}
    (h : c ∈ ['\n'].intercalate ls) : c = '\n' ∨ ∃ l ∈ ls, c ∈ l :=
  (mem_intercalate h).imp_left List.mem_singleton.mp

lemma expression_ofText (text : String) :
    (SplitText.ofText text).expression =
      trimChars
        (['\n'].intercalate (SplitText.expressionLines (SplitText.linesOf text.toList))) := by
  rw [SplitText.ofText]

lemma perInstance_ofText (text : String) :
    (SplitText.ofText text).perInstance =
      SplitText.settings .occurrence (SplitText.linesOf text.toList) := by
  rw [SplitText.ofText]

lemma perAbility_ofText (text : String) :
    (SplitText.ofText text).perAbility =
      SplitText.settings .ability (SplitText.linesOf text.toList) := by
  rw [SplitText.ofText]

/-- The expression of a text has plain lines. -/
theorem plainLines_expression (text : String) :
    Lexeme.PlainLines (SplitText.ofText text).expression := by
  intro c hc
  rw [expression_ofText, SplitText.linesOf] at hc
  rcases mem_intercalate_newline (mem_of_mem_trimChars hc) with rfl | ⟨l, hl, hcl⟩
  · exact .inl rfl
  · exact .inr (isPlain_of_mem_lines_sanitize (mem_expressionLines hl) hcl)

/-! ### The lines of a text -/

/-- Plain text has no invisible characters. -/
lemma removeInvisibles_eq_self {cs : List Char} (hplain : Lexeme.PlainLines cs) :
    removeInvisibles cs = cs := by
  rw [removeInvisibles, List.filter_eq_self]
  intro c hc
  rcases hplain c hc with rfl | h
  · decide
  · rw [isPlain, Bool.and_eq_true] at h
    exact h.2

/-- Plain text without quotes needs no cleaning. -/
lemma sanitize_of_unquoted {cs : List Char} (hplain : Lexeme.PlainLines cs) (hquote : '"' ∉ cs) :
    sanitize cs = cs := by
  have hinside : insideQuotes? (trimChars cs) = none := by
    cases htrim : trimChars cs with
    | nil => rfl
    | cons c rest =>
        rw [insideQuotes?]
        rintro _ ⟨⟩
        refine hquote (mem_of_mem_trimChars ?_)
        rw [htrim]
        exact List.mem_cons_self
  rw [sanitize, removeInvisibles_eq_self hplain, stripQuotes, hinside]

/-- Plain text that does not begin with a blank or a quote needs no cleaning. -/
lemma sanitize_eq_self {cs : List Char} (hplain : Lexeme.PlainLines cs)
    (hhead : ∀ c, cs.head? = some c → isBlank c = false ∧ c ≠ '"') : sanitize cs = cs := by
  rw [sanitize, removeInvisibles_eq_self hplain, stripQuotes]
  cases cs with
  | nil => rfl
  | cons c cs =>
      obtain ⟨hblank, hquote⟩ := hhead c rfl
      rw [trimChars_cons hblank, insideQuotes?]
      · simpa using hquote

/-- Plain lines are found again in the text that they make up, unless it begins with a blank or a
quote. -/
lemma linesOf_intercalate (ls : List (List Char))
    (h : ∀ l ∈ ls, l ≠ [] ∧ ∀ c ∈ l, isPlain c = true)
    (hhead : ∀ c, (['\n'].intercalate ls).head? = some c → isBlank c = false ∧ c ≠ '"') :
    SplitText.linesOf (['\n'].intercalate ls) = ls.map TextLine.ofChars := by
  have hplain : Lexeme.PlainLines (['\n'].intercalate ls) := by
    intro c hc
    exact (mem_intercalate_newline hc).imp_right fun ⟨l, hl, hcl⟩ => (h l hl).2 c hcl
  rw [SplitText.linesOf, sanitize_eq_self hplain hhead, lines_intercalate]
  intro l hl
  refine ⟨(h l hl).1, fun c hc => ?_⟩
  have := (h l hl).2 c hc
  simp only [isPlain, Bool.and_eq_true, Bool.not_eq_true'] at this
  exact this.1

end AbilityRotation
