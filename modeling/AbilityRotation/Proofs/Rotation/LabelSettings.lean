import AbilityRotation.Proofs.Canonical.Export
import AbilityRotation.Proofs.Descent.Neighbours
import AbilityRotation.Proofs.Descent.Shape

/-!
Settings for the labels that tokens have.

Three notions of number meet at a label: in the expression it is made of digit signs, in a settings
line of decimal digits, and among the lines of an export it stands at the place of its number, which
has limited length.
* `acceptsLabel_iff`: the labels that tokens have.
* `parse_settled` and `exportFull_settled`: what is read of a word with a settings line for its
  label, and what is exported.
* `rank_of_isDecimalDigit`: which labels have a place.
* `settings_kept_of_acceptsLabel`: settings for a label are kept exactly if it is made of decimal
  digits, and then they are exported unless there are too many digits.
-/

namespace AbilityRotation

open Descent Lexeme Text

/-- The text of a word with a label. -/
def labelled (key label : String) : String :=
  key ++ "[*" ++ label ++ "]"

/-- The rotation of a word alone. -/
def Rotation.ofWord (w : Word) (overrides : Option Overrides) : Rotation :=
  ⟨[[[.ability ⟨w.key, [], overrides, w.label⟩]]], Table.empty⟩

/-- Whether a text is accepted as the label of a token. -/
def AcceptsLabel (names : List String) (label : String) : Prop :=
  ∃ ts, Token.ofChars names (labelled "a" label).toList = .ok ts ∧
    Token.symbols ts = [.word ⟨"a", some label⟩]

variable {options : ParseOptions} {names : List String} {key label payload line : String} {w : Word}
  {o : Overrides} {overrides : Option Overrides}

lemma render_ofWord (key label : String) (overrides : Option Overrides) :
    (Rotation.ofWord ⟨key, some label⟩ overrides).render true = labelled key label := by
  rw [Rotation.render, ← String.toList_inj, String.toList_ofList]
  simp [labelled, Rotation.ofWord, Rotation.chars, charsOfSteps, charsOfStep, charsOfTerm,
    Alternative.chars, AbilityUse.chars, AbilityUse.nameChars, Alternative.isChoice,
    Alternative.markerText?, List.intercalate]

/-! ### The labels of tokens -/

lemma toList_labelled (key label : String) :
    (labelled key label).toList = write [.word ⟨key, some label⟩] := by
  simp [labelled, write, Symbol.chars, labelChars]

lemma written_labelled (h : IsLabel label) :
    (Symbol.word ⟨"a", some label⟩).Written names := by
  have hne : "a".toList ≠ [] := by decide
  have hkey : ∀ c ∈ "a".toList, isWordChar c = true ∧ isPlain c = true :=
    List.all_iff_forall_prop.mp (by decide)
  refine ⟨⟨hne, hkey⟩, ?_⟩
  rintro _ ⟨⟩
  refine ⟨by simpa using h.ne_empty, fun c hc => ?_⟩
  exact ⟨h.digit c hc, isPlain_of_isDigitSign (h.digit c hc)⟩

/-- A word alone is the only token. -/
lemma exists_token_of_written (names : List String)
    (hw : (Symbol.word w).Written (names.map lowerCase)) :
    ∃ t : Token, Token.ofChars names (write [.word w]) = .ok [t] ∧ t.symbol = .word w := by
  have hlegible : Legible (names.map lowerCase) false [.word w] :=
    (legible_word hw (by simp)).mpr trivial
  obtain ⟨ts, hts, hsymbols⟩ := ofChars_write hlegible fun _ h => absurd h List.not_mem_nil
  obtain ⟨t, rfl, ht⟩ := List.map_eq_singleton_iff.mp hsymbols
  exact ⟨t, hts, ht⟩

/-- The first token of characters that begin with a word is that word. -/
lemma exists_wordAt_of_ofChars {c : Char} {cs : List Char} {ts : List Token}
    (hc : isWordChar c = true) (ha : startsArrow (c :: cs) = false)
    (h : Token.ofChars names (c :: cs) = .ok ts) :
    ∃ w n, wordAt (c :: cs) = .ok (w, n) ∧ Token.first? ts = some (.word w) := by
  obtain ⟨ls, hls, rfl⟩ := map_eq_ok_iff.mp h
  rw [Lexeme.ofChars, scan, glyphAt_of_isWordChar hc ha] at hls
  cases hat : wordAt (c :: cs) with
  | error e =>
      rw [hat] at hls
      cases hls
  | ok r =>
      rw [hat] at hls
      obtain ⟨more, -, rfl⟩ := map_eq_ok_iff.mp hls
      refine ⟨r.1, r.2, rfl, ?_⟩
      show Token.first? (Token.insertPluses none (⟨.word r.1, 0, false⟩ :: _)) = _
      rw [Token.insertPluses, Option.any_none, Bool.and_false, if_neg Bool.false_ne_true,
        Token.first?_cons]

/-- **The labels that tokens have** are made of digit signs. -/
theorem acceptsLabel_iff : AcceptsLabel names label ↔ IsLabel label := by
  constructor
  · rintro ⟨ts, hts, hsymbols⟩
    obtain ⟨cs, hcs⟩ : ∃ cs, (labelled "a" label).toList = 'a' :: cs :=
      ⟨_, by rw [labelled, String.toList_append, String.toList_append]; rfl⟩
    rw [hcs] at hts
    have ha : startsArrow ('a' :: cs) = false := by simp [startsArrow]
    obtain ⟨w, n, hw, hfirst⟩ := exists_wordAt_of_ofChars (by decide) ha hts
    obtain ⟨t, rfl, ht⟩ := List.map_eq_singleton_iff.mp hsymbols
    obtain rfl : w = ⟨"a", some label⟩ :=
      Symbol.word.inj (Option.some.inj (hfirst.symm.trans (congrArg some ht)))
    obtain ⟨hne, hdigits⟩ := isDigitSign_of_wordAt hw label rfl
    exact ⟨by simpa using hne, hdigits⟩
  · intro h
    obtain ⟨t, hts, ht⟩ := exists_token_of_written names (written_labelled h)
    exact ⟨[t], by rwa [toList_labelled], congrArg (fun s => [s]) ht⟩

/-! ### A word with a settings line -/

/-- The text of a labelled word with a settings line for its label. -/
def settledText (key label payload : String) : String :=
  joinLines [labelled key label, lineText .occurrence label payload]

/-- A labelled word alone is the use of an ability with the settings of the label. -/
lemma reads_labelled {rules : Rules} {t : Token} (ht : t.symbol = .word ⟨key, some label⟩)
    (hkey : Text.isBlankText key = false) :
    Reads rules (.alternative true) [t]
      [.ability ⟨key, [], rules.perInstance.get? label, some label⟩] [] := by
  have hword : plainWord rules ⟨key, some label⟩ [] = (⟨key, some label⟩, []) :=
    plainWord_of_first? (by simp)
  have hfusion : fusionAt? rules true [t] = none := by
    simp [fusionAt?, Fusion.at?, ht, Fusion.modifierOf?]
  have hmarkers : markers [t] = ([], [t]) := markers_eq_self fun text => by simp [ht]
  have huse : plainUse rules (plainWord rules ⟨key, some label⟩ []).1 =
      .ok ⟨key, [], rules.perInstance.get? label, some label⟩ := by
    rw [hword]
    exact AbilityUse.build_eq_ok_iff.mpr ⟨hkey, .inl rfl, rfl⟩
  have hread : Reads rules (.operand true) [t] _ _ := .plain ht hfusion huse
  rw [hword] at hread
  exact .between hmarkers hread rfl

/-- A text whose expression is a labelled word is that word with the settings of its label. -/
lemma ofSplit_labelled {t : SplitText}
    (hw : (Symbol.word ⟨key, some label⟩).Written (options.names.map lowerCase))
    (hexpression : t.expression = write [.word ⟨key, some label⟩])
    (hability : t.perAbility = Table.empty) :
    Rotation.ofSplit options t =
      .ok (Rotation.ofWord ⟨key, some label⟩ (t.perInstance.get? label)) := by
  obtain ⟨u, hu, hsymbol⟩ := exists_token_of_written options.names hw
  obtain ⟨c, cs, hhead, -⟩ :=
    exists_head_write (List.cons_ne_nil _ _) (List.forall_mem_singleton.mpr hw)
  have hkey : Solid key.toList :=
    ⟨hw.1.1, fun c hc => isBlank_of_isWordChar (hw.1.2 c hc).1, fun c hc => (hw.1.2 c hc).2⟩
  refine ofSplit_alternative [u] ?_ (hexpression ▸ hu)
    (reads_labelled hsymbol hkey.isBlankText) rfl ?_
  · rw [hexpression, hhead]
    exact List.cons_ne_nil c cs
  · rw [SplitText.abilityOverrides, hability]
    rfl

/-- A labelled word is the expression of the text that it begins, and a line without expression
behind it may give settings. -/
lemma ofText_labelled (hw : (Symbol.word ⟨key, some label⟩).Written names) (hline : IsLine line)
    (hnone : (TextLine.ofChars line.toList).expression? = none) :
    SplitText.ofText (joinLines [labelled key label, line]) =
      ⟨write [.word ⟨key, some label⟩],
        addLine .occurrence Table.empty (TextLine.ofChars line.toList),
        addLine .ability Table.empty (TextLine.ofChars line.toList)⟩ := by
  have hwritten := List.forall_mem_singleton.mpr hw
  have htight := tight_write (List.cons_ne_nil _ _) hwritten
  have hlines := linesOf_write (List.cons_ne_nil _ _) hwritten (List.forall_mem_singleton.mpr hline)
  rw [← toList_labelled, String.ofList_toList] at hlines
  have hexpression : SplitText.expressionLines
      [.expression (write [.word ⟨key, some label⟩]), TextLine.ofChars line.toList] =
        [write [.word ⟨key, some label⟩]] := by
    rw [expressionLines_eq_filterMap, List.filterMap_cons_some (by rfl),
      List.filterMap_cons_none hnone, List.filterMap_nil]
  rw [SplitText.ofText, hlines, toList_labelled]
  simp only [List.map_cons, List.map_nil, hexpression, List.intercalate_singleton,
    trimChars_eq_self htight]
  rfl

/-- A settings line for a label of decimal digits gives its settings. -/
lemma ofText_settled (hw : (Symbol.word ⟨key, some label⟩).Written names)
    (hlabel : ∀ c ∈ label.toList, isDecimalDigit c = true) (ho : o.Readable)
    (hne : o.isEmpty = false) (hpayload : Settings.write (some o) = .ok payload) :
    SplitText.ofText (settledText key label payload) =
      ⟨write [.word ⟨key, some label⟩], Table.empty.insert label o, Table.empty⟩ := by
  obtain ⟨hlne, hsigns⟩ := hw.2 label rfl
  obtain ⟨hpne, htight, hplain⟩ := Settings.line_write ho hne hpayload
  have htarget : Target .occurrence label :=
    ⟨hlabel, hlne, fun c hc => isBlank_of_isDigitSign (hsigns c hc).1, fun c hc => (hsigns c hc).2⟩
  have hline := textLine_lineText htarget hpne htight
  rw [settledText, ofText_labelled hw (isLine_lineText htarget.solid.allowed hplain)
    (by rw [hline]; rfl), hline]
  congr 1
  exact addLine_sets (e := (label, o))
    ⟨_, _, rfl, Settings.read_write ho hne hpayload _⟩ hne rfl

/-- A settings line for any other label is passed over. -/
lemma ofText_settled_of_not_decimal {c : Char}
    (hw : (Symbol.word ⟨key, some label⟩).Written names) (hc : c ∈ label.toList)
    (hdecimal : isDecimalDigit c = false) (ho : o.Readable)
    (hne : o.isEmpty = false) (hpayload : Settings.write (some o) = .ok payload) :
    SplitText.ofText (settledText key label payload) =
      ⟨write [.word ⟨key, some label⟩], Table.empty, Table.empty⟩ := by
  obtain ⟨-, hsigns⟩ := hw.2 label rfl
  obtain ⟨hpne, htight, hplain⟩ := Settings.line_write ho hne hpayload
  have hline : TextLine.ofChars (lineText .occurrence label payload).toList =
      .malformed .occurrence _ :=
    textLine_lineText_of_not_inTarget (fun c hc => isBlank_of_isDigitSign (hsigns c hc).1)
      hc hdecimal hpne htight
  rw [settledText, ofText_labelled hw (isLine_lineText (fun c hc => (hsigns c hc).2) hplain)
    (by rw [hline]; rfl), hline]
  rfl

/-! ### Reading and exporting -/

/-- What is read of a word with a settings line for its label. -/
theorem parse_settled (options : ParseOptions)
    (hw : (Symbol.word ⟨key, some label⟩).Written names) (ho : o.Readable)
    (hne : o.isEmpty = false) (hpayload : Settings.write (some o) = .ok payload) :
    Rotation.parse options (settledText key label payload) =
      .ok (Rotation.ofWord ⟨key, some label⟩
        (if label.toList.all isDecimalDigit then some o else none)) := by
  rw [Rotation.parse]
  split
  · next hlabel =>
      rw [ofText_settled hw (List.all_eq_true.mp hlabel) ho hne hpayload,
        ofSplit_labelled hw rfl rfl, Table.get?_insert, if_pos rfl]
  · next hlabel =>
      obtain ⟨c, hc, hdecimal⟩ := List.all_eq_false.mp (Bool.eq_false_of_not_eq_true hlabel)
      rw [ofText_settled_of_not_decimal hw hc (Bool.eq_false_of_not_eq_true hdecimal) ho hne
        hpayload, ofSplit_labelled hw rfl rfl]
      rfl

/-- The place of a label of decimal digits is their number, if there are not too many of them. -/
theorem rank_of_isDecimalDigit (hne : label.toList ≠ [])
    (h : ∀ c ∈ label.toList, isDecimalDigit c = true) :
    Rotation.rank label =
      if label.toList.length ≤ Number.maxDigits then
        .ok (.number (Number.ofDigitChars (label.toList.map Number.plainChar)))
      else .error .malformed := by
  have hsigns : label.toList.all isDigitSign = true :=
    List.all_eq_true.mpr fun c hc => isDigitSign_of_isDecimalDigit (h c hc)
  rw [Rotation.rank, hsigns, List.isEmpty_eq_false_iff.mpr hne, if_pos (by rfl),
    Number.whole?_of_isDecimalDigit hne h]
  split_ifs <;> rfl

lemma sortedByLabel_empty : Rotation.sortedByLabel Table.empty = .ok [] := by
  have hentries : (Table.empty : Table Overrides).entries = [] := rfl
  simp [Rotation.sortedByLabel, hentries]

/-- Settings for one label are in order if the label has a place. -/
lemma sortedByLabel_singleton (label : String) (o : Overrides) :
    Rotation.sortedByLabel (Table.empty.insert label o) =
      (Rotation.rank label).map fun _ => [(label, o)] := by
  have hentries : (Table.empty.insert label o).entries = [(label, o)] := rfl
  rw [Rotation.sortedByLabel, hentries]
  cases hrank : Rotation.rank label with
  | error fault => simp [hrank]; rfl
  | ok k => simp [hrank]; rfl

lemma sortedByKey_empty : Rotation.sortedByKey Table.empty = [] :=
  (sortedByKey_perm Table.empty).eq_nil

/-- The lines of an export of a word with settings for its label. -/
lemma exportLines_settled (hpayload : Settings.write (some o) = .ok payload)
    (hne : payload.toList ≠ []) :
    (Rotation.ofWord ⟨key, some label⟩ overrides).exportLines (Table.empty.insert label o)
        Table.empty =
      (Rotation.rank label).map fun _ =>
        [labelled key label, lineText .occurrence label payload] := by
  have hlabels : (Rotation.ofWord ⟨key, some label⟩ overrides).labels = [label] := by rfl
  have hnotice : (Rotation.ofWord ⟨key, some label⟩ overrides).labelNotice? label = none := by
    rw [Rotation.labelNotice?, hlabels, if_pos (List.mem_singleton.mpr rfl)]
  have hline : Rotation.settingsLine SettingsScope.occurrence.mark (label, o) =
      .ok [lineText .occurrence label payload] := settingsLine_of_write hne hpayload
  have hlines : Rotation.settingsLines "#*" ([(label, o)].filter fun e =>
      ((Rotation.ofWord ⟨key, some label⟩ overrides).labelNotice? e.1).isNone) =
        .ok [lineText .occurrence label payload] := by
    rw [List.filter_cons_of_pos (by rw [hnotice]; rfl), List.filter_nil, Rotation.settingsLines]
    exact bind_eq_ok_iff.mpr ⟨_, hline, rfl⟩
  rw [Rotation.exportLines, sortedByKey_empty, sortedByLabel_singleton, render_ofWord]
  cases Rotation.rank label with
  | error fault => rfl
  | ok k =>
      refine bind_eq_ok_iff.mpr ⟨[], rfl, bind_eq_ok_iff.mpr ⟨_, rfl, ?_⟩⟩
      exact bind_eq_ok_iff.mpr ⟨_, hlines, rfl⟩

/-- What is exported of a word with a settings line for its label. -/
theorem exportFull_settled (c : Catalog) (mode : AdjacentWords)
    (hw : (Symbol.word ⟨key, some label⟩).Written names) (ho : o.Readable)
    (hne : o.isEmpty = false) (hpayload : Settings.write (some o) = .ok payload) :
    Rotation.exportFull c mode (settledText key label payload) none none =
      if label.toList.all isDecimalDigit then
        if label.toList.length ≤ Number.maxDigits then .ok (settledText key label payload)
        else .error (.number .malformed)
      else .ok (labelled key label) := by
  obtain ⟨hpne, -⟩ := Settings.line_write ho hne hpayload
  rw [Rotation.exportFull, parse_settled { catalog := c, adjacentWords := mode } hw ho hne hpayload]
  -- decimal digits are understood on a settings line, other digits of a label are not
  by_cases hlabel : label.toList.all isDecimalDigit = true
  · have hdecimal := List.all_eq_true.mp hlabel
    simp only [ofText_settled hw hdecimal ho hne hpayload, Option.getD_none,
      exportLines_settled hpayload hpne, rank_of_isDecimalDigit (hw.2 label rfl).1 hdecimal]
    rw [if_pos hlabel]
    split_ifs <;> rfl
  · obtain ⟨c, hc, hdecimal⟩ := List.all_eq_false.mp (Bool.eq_false_of_not_eq_true hlabel)
    rw [Bool.not_eq_true] at hdecimal
    rw [if_neg hlabel, if_neg hlabel]
    have hlines : (Rotation.ofWord ⟨key, some label⟩ none).exportLines Table.empty Table.empty =
        .ok [labelled key label] := by
      rw [Rotation.exportLines, sortedByKey_empty, sortedByLabel_empty, render_ofWord]
      rfl
    simp only [ofText_settled_of_not_decimal hw hc hdecimal ho hne hpayload, Option.getD_none,
      hlines]
    rw [joinLines, String.intercalate_singleton]

/-! ### The labels that keep their settings -/

lemma readable_cooldown {n : ℤ} (hn : 0 ≤ n ∧ n ≤ maxTicks) :
    Overrides.Readable { cooldown := some n } := by
  constructor <;> simp [hn]

/-- **A label keeps its settings exactly if it is made of decimal digits.**  The text of an ability
with such a label and of its settings is read as that ability with those settings, and is exported
as it stands unless the label has too many digits to be a number.  With any other label that tokens
can have the settings are passed over, and the ability alone is exported. -/
theorem settings_kept_of_acceptsLabel (options : ParseOptions) {label : String}
    (h : AcceptsLabel options.names label) :
    let text := joinLines ["a[*" ++ label ++ "]", "#*" ++ label ++ " cooldown=5"]
    ((∀ c ∈ label.toList, isDecimalDigit c = true) →
      Rotation.parse options text =
          .ok ⟨[[[.ability ⟨"a", [], some { cooldown := some 5 }, some label⟩]]], Table.empty⟩ ∧
        Rotation.exportFull options.catalog options.adjacentWords text none none =
          if label.toList.length ≤ Number.maxDigits then .ok text
          else .error (.number .malformed)) ∧
      ((∃ c ∈ label.toList, isDecimalDigit c = false) →
        Rotation.parse options text =
            .ok ⟨[[[.ability ⟨"a", [], none, some label⟩]]], Table.empty⟩ ∧
          Rotation.exportFull options.catalog options.adjacentWords text none none =
            .ok ("a[*" ++ label ++ "]")) := by
  have hw : (Symbol.word ⟨"a", some label⟩).Written [] :=
    written_labelled (acceptsLabel_iff.mp h)
  have hwrite : Settings.write (some { cooldown := some 5 }) = .ok "cooldown=5" := by
    decide +kernel
  have ho : Overrides.Readable { cooldown := some 5 } := readable_cooldown (by decide)
  have htext : joinLines ["a[*" ++ label ++ "]", "#*" ++ label ++ " cooldown=5"] =
      settledText "a" label "cooldown=5" := by
    rw [settledText, lineText, @String.append_assoc _ " " "cooldown=5"]
    rfl
  have hparse := parse_settled options hw ho rfl hwrite
  have hexport :=
    exportFull_settled options.catalog options.adjacentWords hw ho rfl hwrite
  rw [htext]
  constructor
  · intro hlabel
    rw [if_pos (List.all_eq_true.mpr hlabel)] at hparse hexport
    exact ⟨hparse, hexport⟩
  · rintro ⟨c, hc, hdecimal⟩
    have hlabel : label.toList.all isDecimalDigit = false :=
      List.all_eq_false.mpr ⟨c, hc, by rw [hdecimal]; exact Bool.false_ne_true⟩
    rw [hlabel, if_neg Bool.false_ne_true] at hparse hexport
    exact ⟨hparse, hexport⟩

/-- The settings for the label `7` are kept and those for `²` are not; with a label of too many
nines there is no export. -/
theorem settings_kept_of_acceptsLabel_seven :
    let exported (text : String) := Rotation.exportFull Catalog.default .steps text none none
    (AcceptsLabel [] "7" ∧ exported "a[*7]\n#*7 cooldown=5" = .ok "a[*7]\n#*7 cooldown=5") ∧
      (AcceptsLabel [] "²" ∧ exported "a[*²]\n#*² cooldown=5" = .ok "a[*²]") ∧
      ∃ nines, AcceptsLabel [] nines ∧
        exported (joinLines ["a[*" ++ nines ++ "]", "#*" ++ nines ++ " cooldown=5"]) =
          .error (.number .malformed) := by
  intro exported
  have hseven : AcceptsLabel [] "7" :=
    acceptsLabel_iff.mpr ⟨by decide, List.all_iff_forall_prop.mp (by decide)⟩
  have hsquare : AcceptsLabel [] "²" :=
    acceptsLabel_iff.mpr ⟨by decide, List.all_iff_forall_prop.mp (by decide)⟩
  let nines := String.ofList (List.replicate (Number.maxDigits + 1) '9')
  have hlist : nines.toList = List.replicate (Number.maxDigits + 1) '9' := String.toList_ofList
  have hdecimal : ∀ c ∈ nines.toList, isDecimalDigit c = true := by
    intro c hc
    rw [hlist] at hc
    rw [List.eq_of_mem_replicate hc]
    decide
  have hnines : AcceptsLabel [] nines := by
    refine acceptsLabel_iff.mpr
      ⟨fun hempty => ?_, fun c hc => isDigitSign_of_isDecimalDigit (hdecimal c hc)⟩
    rw [hempty] at hlist
    cases hlist
  obtain ⟨-, hkept⟩ :=
    (settings_kept_of_acceptsLabel {} hseven).1 (List.all_iff_forall_prop.mp (by decide))
  obtain ⟨-, hlost⟩ := (settings_kept_of_acceptsLabel {} hsquare).2 ⟨'²', by decide, by decide⟩
  obtain ⟨-, hrefused⟩ := (settings_kept_of_acceptsLabel {} hnines).1 hdecimal
  rw [if_pos (by decide)] at hkept
  rw [if_neg (by rw [hlist, List.length_replicate]; omega)] at hrefused
  exact ⟨⟨hseven, hkept⟩, ⟨hsquare, hlost⟩, nines, hnines, hrefused⟩

end AbilityRotation
