import AbilityRotation.Proofs.Settings.Joining

/-!
How lines stand between each other does not matter.

Each line of a text is one of the expression, a settings line for one target, or malformed.  The
expression depends on lines of the first kind alone, and the settings for a target on its own lines
alone.
* `settingFor?_eq_some_iff`: the settings lines for a target are those with that layout.
* `expression_joinLines`: the expression is made of the lines of the expression.
* `get?_settings`: the settings for a target are merged from what its lines say.
* `SplitText.interleaved_lines`: two texts with the same lines of each kind give the same.
-/

namespace AbilityRotation

open Text

variable {scope : SettingsScope} {cs payload : List Char} {target line : String}
  {t : Table Overrides}

/-! ### Kinds of lines -/

/-- Whether a line is one of the expression: it begins with neither mark. -/
def IsExpressionLine (l : String) : Prop :=
  ¬"#*".toList <+: trimChars l.toList ∧ ¬"#@".toList <+: trimChars l.toList

instance : DecidablePred IsExpressionLine :=
  fun _ => inferInstanceAs (Decidable (_ ∧ _))

/-- The payload for a target, if the line is a settings line for it. -/
def TextLine.payloadFor? (scope : SettingsScope) (target : String) : TextLine → Option (List Char)
  | .setting s t payload _ => if s = scope ∧ t = target then some payload else none
  | _ => none

/-- The payload of a line, if it is a settings line for the target. -/
def settingFor? (scope : SettingsScope) (target l : String) : Option (List Char) :=
  (TextLine.ofChars l.toList).payloadFor? scope target

/-- The settings lines for a target are those that are laid out as such. -/
theorem settingFor?_eq_some_iff {l : String} :
    settingFor? scope target l = some payload ↔ IsSetting scope target payload l.toList := by
  constructor
  · intro h
    rw [settingFor?, TextLine.payloadFor?.eq_def] at h
    split at h
    · next s name payload' line hl =>
        split at h
        · next heq =>
            cases h
            obtain ⟨rfl, rfl⟩ := heq
            exact isSetting_of_ofChars hl
        · cases h
    · cases h
  · intro h
    rw [settingFor?, h.ofChars, TextLine.payloadFor?, if_pos ⟨rfl, rfl⟩]

lemma isSome_settingFor? {s : SettingsScope} {name l : String}
    (h : TextLine.ofChars l.toList = .setting s name payload line) :
    (settingFor? scope target l).isSome = decide (s = scope ∧ name = target) := by
  rw [settingFor?, h, TextLine.payloadFor?]
  split
  · next heq => rw [decide_eq_true heq, Option.isSome_some]
  · next hne => rw [decide_eq_false hne, Option.isSome_none]

/-! ### The expression -/

lemma expression?_ofChars (l : String) :
    (TextLine.ofChars l.toList).expression? =
      if IsExpressionLine l then some l.toList else none := by
  by_cases h : IsExpressionLine l
  · have hmark : ∀ scope : SettingsScope, ¬scope.mark.toList <+: trimChars l.toList := by
      intro scope
      cases scope with
      | occurrence => exact h.1
      | ability => exact h.2
    rw [if_pos h, ofChars_of_no_mark hmark]
    rfl
  · have hmark : ∃ scope : SettingsScope, scope.mark.toList <+: trimChars l.toList := by
      by_cases hstar : "#*".toList <+: trimChars l.toList
      · exact ⟨.occurrence, hstar⟩
      · exact ⟨.ability, of_not_not fun hat => h ⟨hstar, hat⟩⟩
    obtain ⟨scope, after, hafter⟩ := hmark
    rw [if_neg h, ofChars_of_mark hafter.symm, expression?_settingOf]

/-! ### The settings -/

/-- What is looked up once settings for one target are added. -/
lemma SplitText.get?_addSettings {x : Option Overrides} {name : String}
    (ht : Overrides.Filled (t.get? name)) (hx : Overrides.Filled x) :
    (SplitText.addSettings t target x).get? name =
      if name = target then Overrides.merge (t.get? name) x else t.get? name := by
  cases x with
  | none =>
      rw [Overrides.merge_none ht, ite_self]
      rfl
  | some o =>
      have ho : o.isEmpty = false := hx o rfl
      rw [SplitText.addSettings_some ho, Table.get?_insert]
      refine ite_congr rfl (fun hname => ?_) fun _ => rfl
      rw [hname, Overrides.merge, Option.getD_some, Overrides.nonempty?_of_isEmpty]
      rw [Overrides.isEmpty_laidOver, ho, Bool.false_and]

/-- A line changes the settings for its own target alone. -/
lemma get?_addLine (ht : Overrides.Filled (t.get? target)) (l : TextLine) (line : String) :
    (addLine scope t l).get? target = (l.payloadFor? scope target).elim (t.get? target)
      fun payload => Overrides.merge (t.get? target) (Settings.read payload line) := by
  cases l with
  | expression cs => rfl
  | malformed s shown => rfl
  | setting s name payload shown =>
      rw [addLine, TextLine.payloadFor?]
      by_cases hs : s = scope
      · rw [if_pos hs, SplitText.get?_addSettings ht (Settings.filled_read payload shown),
          Settings.read_line payload shown line]
        by_cases hname : name = target
        · rw [if_pos hname.symm, if_pos ⟨hs, hname⟩]
          rfl
        · rw [if_neg (Ne.symm hname), if_neg fun h => hname h.2]
          rfl
      · rw [if_neg hs, if_neg fun h => hs h.1]
        rfl

/-- The lines change the settings for a target by the payloads for it alone, in their order. -/
lemma get?_foldl_payloads (ht : Overrides.Filled (t.get? target)) (ls : List TextLine)
    (line : String) : (ls.foldl (addLine scope) t).get? target =
      (ls.filterMap (·.payloadFor? scope target)).foldl
        (fun acc payload => Overrides.merge acc (Settings.read payload line)) (t.get? target) := by
  induction ls generalizing t with
  | nil => rfl
  | cons l ls ih =>
      have hl : (addLine scope t l).get? target = _ := get?_addLine ht l line
      rw [List.foldl_cons, List.filterMap_cons]
      cases hpayload : l.payloadFor? scope target with
      | none =>
          rw [hpayload] at hl
          rw [ih (hl ▸ ht), hl]
          rfl
      | some payload =>
          rw [hpayload] at hl
          rw [ih (hl ▸ Overrides.filled_merge _ _), hl]
          rfl

/-- The settings for a target are merged from what its lines say, in their order. -/
theorem get?_settings (ls : List TextLine) (line : String) :
    (SplitText.settings scope ls).get? target =
      (ls.filterMap (·.payloadFor? scope target)).foldl
        (fun acc payload => Overrides.merge acc (Settings.read payload line)) none :=
  get?_foldl_payloads (t := Table.empty) Overrides.filled_none ls line

/-- There are settings for a target exactly if a pair in one of the payloads is valid. -/
lemma foldl_payloads_ne_none_iff {payloads : List (List Char)} :
    payloads.foldl (fun acc payload => Overrides.merge acc (Settings.read payload line)) none ≠
        none ↔
      ∃ payload ∈ payloads, ∃ part ∈ words payload, ∃ o, Settings.readPair line part = .ok o := by
  have hfilled : ∀ x ∈ payloads.map (Settings.read · line), Overrides.Filled x := by
    intro x hx
    obtain ⟨payload, -, rfl⟩ := List.mem_map.mp hx
    exact Settings.filled_read payload line
  have hnotice : ∀ part, (¬∃ notice, Settings.readPair line part = .error notice) ↔
      ∃ o, Settings.readPair line part = .ok o := by
    intro part
    cases Settings.readPair line part with
    | ok o => simp
    | error notice => simp
  rw [← List.foldl_map (f := (Settings.read · line)) (g := Overrides.merge), ne_eq,
    Overrides.foldl_merge_eq_none_iff Overrides.filled_none hfilled]
  simp only [List.forall_mem_map, Settings.read_eq_none_iff, true_and, not_forall, hnotice,
    exists_prop]

/-! ### Texts of lines -/

/-- Whether a text can be one of the lines: it has no line ends, no invisible characters and no
quotes. -/
def IsBareLine (l : String) : Prop :=
  ∀ c ∈ l.toList, isPlain c = true ∧ c ≠ '"'

instance : DecidablePred IsBareLine := fun l =>
  decidable_of_iff (l.toList.all fun c => isPlain c && c != '"')
    (by simp only [IsBareLine, List.all_eq_true, Bool.and_eq_true, bne_iff_ne])

variable {ls ls' : List String}

/-- A text of such lines needs no cleaning. -/
lemma sanitize_joinLines (h : ∀ l ∈ ls, IsBareLine l) :
    sanitize (joinLines ls).toList = ['\n'].intercalate (ls.map String.toList) := by
  have htext : (joinLines ls).toList = ['\n'].intercalate (ls.map String.toList) :=
    String.toList_intercalate
  have hchars : ∀ c ∈ (joinLines ls).toList, c = '\n' ∨ isPlain c = true ∧ c ≠ '"' := by
    intro c hc
    rw [htext] at hc
    refine (mem_intercalate_newline hc).imp_right fun ⟨cs, hcs, hmc⟩ => ?_
    obtain ⟨l, hl, rfl⟩ := List.mem_map.mp hcs
    exact h l hl c hmc
  rw [sanitize_of_unquoted (fun c hc => (hchars c hc).imp_right And.left), htext]
  intro hquote
  rcases hchars _ hquote with hnewline | ⟨-, hne⟩
  · cases hnewline
  · exact hne rfl

/-- The lines of a text are found again, but for an empty one at the end. -/
lemma linesOf_joinLines (h : ∀ l ∈ ls, IsBareLine l) :
    let found := SplitText.linesOf (joinLines ls).toList
    found = ls.map (TextLine.ofChars ·.toList) ∨
      ls.map (TextLine.ofChars ·.toList) = found ++ [.expression []] := by
  intro found
  have hfound : found =
      (lines (['\n'].intercalate (ls.map String.toList))).map TextLine.ofChars := by
    rw [← sanitize_joinLines h]
    rfl
  have hmap : ls.map (TextLine.ofChars ·.toList) =
      (ls.map String.toList).map TextLine.ofChars := by
    rw [List.map_map]
    rfl
  have hline : ∀ cs ∈ ls.map String.toList, ∀ c ∈ cs, isLineEnd c = false := by
    intro cs hcs c hc
    obtain ⟨l, hl, rfl⟩ := List.mem_map.mp hcs
    have hplain := (h l hl c hc).1
    rw [isPlain, Bool.and_eq_true, Bool.not_eq_true'] at hplain
    exact hplain.1
  rw [hfound, hmap]
  refine (lines_intercalate_or hline).imp (congrArg _) fun hlast => ?_
  exact (congrArg (List.map TextLine.ofChars) hlast).trans List.map_append

lemma intercalate_concat_nil (cs : List Char) (css : List (List Char)) :
    ['\n'].intercalate (cs :: css ++ [[]]) = ['\n'].intercalate (cs :: css) ++ ['\n'] := by
  induction css generalizing cs with
  | nil => simp [List.intercalate_cons_cons]
  | cons ds css ih =>
      rw [List.cons_append, List.cons_append, List.intercalate_cons_cons, ← List.cons_append, ih,
        List.intercalate_cons_cons, List.append_assoc _ _ ['\n']]

/-- An empty line at the end is trimmed. -/
lemma trimChars_intercalate_concat (css : List (List Char)) :
    trimChars (['\n'].intercalate (css ++ [[]])) = trimChars (['\n'].intercalate css) := by
  cases css with
  | nil => rfl
  | cons cs css => rw [intercalate_concat_nil, trimChars_concat (by decide)]

/-- The expression of a text is made of those of its lines that are of the expression. -/
theorem expression_joinLines (h : ∀ l ∈ ls, IsBareLine l) :
    (SplitText.ofText (joinLines ls)).expression =
      trimChars (['\n'].intercalate ((ls.filter IsExpressionLine).map String.toList)) := by
  have hlines : SplitText.expressionLines (ls.map (TextLine.ofChars ·.toList)) =
      (ls.filter IsExpressionLine).map String.toList := by
    rw [expressionLines_eq_filterMap, List.filterMap_map, ← List.filterMap_eq_map,
      List.filterMap_filter]
    refine List.filterMap_congr fun l _ => ?_
    rw [Function.comp_apply, expression?_ofChars]
    by_cases hl : IsExpressionLine l <;> simp [hl]
  rw [expression_ofText, ← hlines]
  rcases linesOf_joinLines h with hfound | hfound
  · rw [hfound]
  · rw [hfound, expressionLines_eq_filterMap, expressionLines_eq_filterMap, List.filterMap_append]
    exact (trimChars_intercalate_concat _).symm

namespace SplitText

/-- The settings of one scope. -/
def table (t : SplitText) : SettingsScope → Table Overrides
  | .occurrence => t.perInstance
  | .ability => t.perAbility

/-- The settings of a text are those of its lines. -/
lemma table_joinLines (h : ∀ l ∈ ls, IsBareLine l) (scope : SettingsScope) :
    (ofText (joinLines ls)).table scope =
      settings scope (ls.map (TextLine.ofChars ·.toList)) := by
  have htable : (ofText (joinLines ls)).table scope =
      settings scope (linesOf (joinLines ls).toList) := by
    cases scope with
    | occurrence => exact perInstance_ofText _
    | ability => exact perAbility_ofText _
  rw [htable]
  rcases linesOf_joinLines h with hfound | hfound
  · rw [hfound]
  · have hempty : ∀ t : Table Overrides, addLine scope t (.expression []) = t := fun _ => rfl
    rw [hfound, settings_eq_foldl, settings_eq_foldl, List.foldl_concat, hempty]

/-- The settings of a text for a target are merged from its lines for it, in their order. -/
lemma get?_table_joinLines (h : ∀ l ∈ ls, IsBareLine l) (scope : SettingsScope)
    (target line : String) :
    ((ofText (joinLines ls)).table scope).get? target =
      (ls.filterMap (settingFor? scope target)).foldl
        (fun acc payload => Overrides.merge acc (Settings.read payload line)) none := by
  rw [table_joinLines h, get?_settings _ line, List.filterMap_map]
  rfl

/-- Lines that say nothing for a target can be left out. -/
lemma filterMap_settingFor? (scope : SettingsScope) (target : String) (ls : List String) :
    (ls.filter fun l => (settingFor? scope target l).isSome).filterMap (settingFor? scope target) =
      ls.filterMap (settingFor? scope target) := by
  rw [List.filterMap_filter]
  refine List.filterMap_congr fun l _ => ?_
  cases settingFor? scope target l with
  | none => rfl
  | some payload => rfl

/-- **How lines stand between each other does not matter.**  Two texts of lines that have the same
lines of the expression, and for each target the same settings lines, each in the same order, have
the same expression and the same settings for each target, wherever the lines stand between each
other and whatever malformed lines stand among them.  The settings for a target are merged from the
payloads of its lines in their order, and there are none exactly if no pair in them is valid. -/
theorem interleaved_lines (h : ∀ l ∈ ls, IsBareLine l) (h' : ∀ l ∈ ls', IsBareLine l)
    (hexpression : ls.filter IsExpressionLine = ls'.filter IsExpressionLine)
    (hsettings : ∀ scope target, (ls.filter fun l => (settingFor? scope target l).isSome) =
      ls'.filter fun l => (settingFor? scope target l).isSome) :
    (ofText (joinLines ls)).expression = (ofText (joinLines ls')).expression ∧
      ∀ scope target line,
        ((ofText (joinLines ls)).table scope).get? target =
          ((ofText (joinLines ls')).table scope).get? target ∧
        ((ofText (joinLines ls)).table scope).get? target =
          (ls.filterMap (settingFor? scope target)).foldl
            (fun acc payload => Overrides.merge acc (Settings.read payload line)) none ∧
        (((ofText (joinLines ls)).table scope).contains target = true ↔
          ∃ payload ∈ ls.filterMap (settingFor? scope target), ∃ part ∈ words payload,
            ∃ o, Settings.readPair line part = .ok o) := by
  refine ⟨?_, fun scope target line => ⟨?_, get?_table_joinLines h scope target line, ?_⟩⟩
  · rw [expression_joinLines h, expression_joinLines h', hexpression]
  · rw [get?_table_joinLines h scope target line, get?_table_joinLines h' scope target line,
      ← filterMap_settingFor?, hsettings, filterMap_settingFor?]
  · rw [Table.contains, Option.isSome_iff_ne_none, get?_table_joinLines h scope target line,
      foldl_payloads_ne_none_iff]

/-- Settings lines in front of the expression and a malformed line among them do not change what is
split off; of the two lines for an ability the later one adds its mask. -/
theorem interleaved_lines_moved :
    let ls := ["a", "#@a level=5", "#*1 cooldown=3", "#@a level=x mask=m"]
    let ls' := ["#*1 cooldown=3", "#* level=4", "#@a level=5", "#@a level=x mask=m", "a"]
    ((∀ l ∈ ls, IsBareLine l) ∧ (∀ l ∈ ls', IsBareLine l) ∧
      ls.filter IsExpressionLine = ls'.filter IsExpressionLine ∧
      ∀ scope target, (ls.filter fun l => (settingFor? scope target l).isSome) =
        ls'.filter fun l => (settingFor? scope target l).isSome) ∧
    (ofText (joinLines ls)).expression = (ofText (joinLines ls')).expression ∧
      ((ofText (joinLines ls')).table .ability).get? "a" =
        some { level := some 5, mask := some "m" } := by
  intro ls ls'
  have hbare : ∀ l ∈ ls, IsBareLine l := by decide
  have hbare' : ∀ l ∈ ls', IsBareLine l := by decide
  have hexpression : ls.filter IsExpressionLine = ls'.filter IsExpressionLine := by decide
  have hsettings : ∀ scope target, (ls.filter fun l => (settingFor? scope target l).isSome) =
      ls'.filter fun l => (settingFor? scope target l).isSome := by
    intro scope target
    have hlevel : (settingFor? scope target "#@a level=5").isSome =
        decide (.ability = scope ∧ "a" = target) :=
      isSome_settingFor? (show TextLine.ofChars "#@a level=5".toList =
        .setting .ability "a" "level=5".toList "#@a level=5" by decide)
    have hmask : (settingFor? scope target "#@a level=x mask=m").isSome =
        decide (.ability = scope ∧ "a" = target) :=
      isSome_settingFor? (show TextLine.ofChars "#@a level=x mask=m".toList =
        .setting .ability "a" "level=x mask=m".toList "#@a level=x mask=m" by decide)
    have hcooldown : (settingFor? scope target "#*1 cooldown=3").isSome =
        decide (.occurrence = scope ∧ "1" = target) :=
      isSome_settingFor? (show TextLine.ofChars "#*1 cooldown=3".toList =
        .setting .occurrence "1" "cooldown=3".toList "#*1 cooldown=3" by decide)
    have hplain : (settingFor? scope target "a").isSome = false := rfl
    have hmalformed : (settingFor? scope target "#* level=4").isSome = false := rfl
    simp only [ls, ls', List.filter_cons, List.filter_nil, hlevel, hmask, hcooldown, hplain,
      hmalformed, decide_eq_true_eq, Bool.false_eq_true, if_false]
    split_ifs with hability hoccurrence
    · exact absurd (hability.1.trans hoccurrence.1.symm) (by decide)
    · rfl
    · rfl
    · rfl
  obtain ⟨hsame, htables⟩ := interleaved_lines hbare hbare' hexpression hsettings
  obtain ⟨hequal, hmerged, -⟩ := htables .ability "a" ""
  refine ⟨⟨hbare, hbare', hexpression, hsettings⟩, hsame, ?_⟩
  rw [← hequal, hmerged]
  decide

end SplitText

end AbilityRotation
