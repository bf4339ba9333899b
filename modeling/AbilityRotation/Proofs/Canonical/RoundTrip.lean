import AbilityRotation.Proofs.Canonical.Rereading
import AbilityRotation.Proofs.Canonical.Scanning
import AbilityRotation.Proofs.Settings.Splitting

/-!
Reading a canonical text again.

What is written for legible symbols is one plain line, which is its own expression.
* `ofSplit_of_expression`: a text whose expression is the canonical text of a rotation is read as
  that rotation, up to settings.
* `parse_render_iff`: the canonical text of a rotation gives its steps back exactly if no marker
  ends in a backslash.
-/

namespace AbilityRotation

open Descent Lexeme Text

variable {names : List String} {behind : Bool} {s : Symbol} {ss : List Symbol} {c : Char}

/-! ### The characters of written symbols -/

lemma Legible.written (h : Legible names behind ss) : ∀ s ∈ ss, s.Written names :=
  Arranged.forall_mem (fun _ _ _ hs => hs.written) h

lemma mem_of_mem_escape {cs : List Char} (h : c ∈ escape cs) : c = '\\' ∨ c ∈ cs := by
  obtain ⟨d, hd, hc⟩ := List.mem_flatMap.mp h
  split at hc
  · rw [List.mem_cons, List.mem_singleton] at hc
    rcases hc with rfl | rfl
    · exact .inl rfl
    · exact .inr hd
  · rw [List.mem_singleton] at hc
    exact .inr (hc ▸ hd)

/-- Symbols are written with plain characters. -/
lemma isPlain_of_mem_chars (h : s.Written names) (hc : c ∈ s.chars) : isPlain c = true := by
  cases s with
  | word w =>
      obtain ⟨key, label⟩ := w
      rcases List.mem_append.mp hc with hc | hc
      · exact (h.1.2 c hc).2
      · cases label with
        | none => cases hc
        | some label =>
            simp only [labelChars, List.cons_append, List.mem_cons, List.mem_append,
              List.not_mem_nil, or_false] at hc
            rcases hc with rfl | rfl | hc | rfl
            · decide
            · decide
            · exact ((h.2 label rfl).2 c hc).2
            · decide
  | tooltip text =>
      simp only [Symbol.chars, markerChars, List.cons_append, List.mem_cons, List.mem_append,
        List.not_mem_nil, or_false] at hc
      rcases hc with rfl | hc | rfl
      · decide
      · rcases mem_of_mem_escape hc with rfl | hc
        · decide
        · exact h.2.2.2.2 c hc
      · decide
  | _ =>
      rw [Symbol.chars, List.mem_singleton] at hc
      rw [hc]
      decide

/-- No symbol begins with a blank, or as settings lines and quoted texts do. -/
lemma exists_head_chars (h : s.Written names) :
    ∃ c cs, s.chars = c :: cs ∧ isBlank c = false ∧ c ≠ '#' ∧ c ≠ '"' := by
  cases s with
  | word w =>
      obtain ⟨c, cs, hkey⟩ := List.exists_cons_of_ne_nil h.1.1
      have hc : isWordChar c = true := (h.1.2 c (hkey ▸ List.mem_cons_self)).1
      refine ⟨c, cs ++ labelChars w.label, ?_, isBlank_of_isWordChar hc,
        ne_of_isWordChar hc (by decide), ne_of_isWordChar hc (by decide)⟩
      rw [Symbol.chars, hkey, List.cons_append]
  | _ => exact ⟨_, _, rfl, by decide⟩

/-- No symbol ends in a blank. -/
lemma exists_last_chars (h : s.Written names) :
    ∃ cs c, s.chars = cs ++ [c] ∧ isBlank c = false := by
  cases s with
  | word w =>
      obtain ⟨key, _ | label⟩ := w
      · obtain ⟨cs, c, hkey⟩ := (List.eq_nil_or_concat key.toList).resolve_left h.1.1
        have hc : isWordChar c = true := (h.1.2 c (by rw [hkey]; simp)).1
        exact ⟨cs, c, by simp [Symbol.chars, labelChars, hkey], isBlank_of_isWordChar hc⟩
      · exact ⟨key.toList ++ '[' :: '*' :: label.toList, ']', by simp [Symbol.chars, labelChars],
          by decide⟩
  | tooltip text =>
      exact ⟨'(' :: escape text.toList, ')', rfl, by decide⟩
  | _ => exact ⟨[], _, rfl, by decide⟩

lemma isPlain_of_mem_write (h : ∀ s ∈ ss, s.Written names) (hc : c ∈ write ss) :
    isPlain c = true := by
  induction ss with
  | nil => cases hc
  | cons s ss ih =>
      rw [write, List.mem_append, List.mem_append] at hc
      rcases hc with (hc | hc) | hc
      · exact isPlain_of_mem_chars (h s List.mem_cons_self) hc
      · split at hc
        · rw [List.mem_singleton.mp hc]
          decide
        · cases hc
      · exact ih (fun t ht => h t (List.mem_cons_of_mem _ ht)) hc

lemma exists_head_write (hne : ss ≠ []) (h : ∀ s ∈ ss, s.Written names) :
    ∃ c cs, write ss = c :: cs ∧ isBlank c = false ∧ c ≠ '#' ∧ c ≠ '"' := by
  obtain ⟨s, ss, rfl⟩ := List.exists_cons_of_ne_nil hne
  obtain ⟨c, cs, hs, hc⟩ := exists_head_chars (h s List.mem_cons_self)
  exact ⟨c, _, by rw [write, hs, List.cons_append, List.cons_append], hc⟩

lemma exists_last_write (hne : ss ≠ []) (h : ∀ s ∈ ss, s.Written names) :
    ∃ cs c, write ss = cs ++ [c] ∧ isBlank c = false := by
  induction ss with
  | nil => exact absurd rfl hne
  | cons s ss ih =>
      cases ss with
      | nil =>
          obtain ⟨cs, c, hs, hc⟩ := exists_last_chars (h s List.mem_cons_self)
          exact ⟨cs, c, by simp [write, hs], hc⟩
      | cons t ss =>
          obtain ⟨cs, c, heq, hc⟩ :=
            ih (List.cons_ne_nil _ _) fun u hu => h u (List.mem_cons_of_mem _ hu)
          exact ⟨_, c, by rw [write, heq, ← List.append_assoc], hc⟩

/-- Written symbols do not begin or end with a blank. -/
lemma tight_write (hne : ss ≠ []) (h : ∀ s ∈ ss, s.Written names) : Tight (write ss) := by
  obtain ⟨c, cs, hhead, hc, -⟩ := exists_head_write hne h
  obtain ⟨ds, d, hlast, hd⟩ := exists_last_write hne h
  constructor
  · rw [hhead]
    exact hc
  · rw [hlast, List.getLast?_append_cons]
    exact hd

/-- Written symbols are a line of an expression. -/
lemma textLine_write (hne : ss ≠ []) (h : ∀ s ∈ ss, s.Written names) :
    TextLine.ofChars (write ss) = .expression (write ss) := by
  obtain ⟨c, cs, hhead, -, hc, -⟩ := exists_head_write hne h
  rw [TextLine.ofChars, trimChars_eq_self (tight_write hne h), hhead]
  split
  · next heq =>
      cases heq
      exact absurd rfl hc
  · next heq =>
      cases heq
      exact absurd rfl hc
  · rfl

/-- Written symbols are a line of the text that begins with them. -/
lemma linesOf_write {more : List String} (hne : ss ≠ []) (h : ∀ s ∈ ss, s.Written names)
    (hmore : ∀ l ∈ more, l.toList ≠ [] ∧ ∀ c ∈ l.toList, isPlain c = true) :
    SplitText.linesOf (joinLines (String.ofList (write ss) :: more)).toList =
      .expression (write ss) :: more.map fun l => TextLine.ofChars l.toList := by
  obtain ⟨c, cs, hhead, hblank, -, hquote⟩ := exists_head_write hne h
  have hjoin : (joinLines (String.ofList (write ss) :: more)).toList =
      ['\n'].intercalate (write ss :: more.map String.toList) := by
    rw [joinLines, String.toList_intercalate, List.map_cons, @String.toList_ofList (write ss)]
    rfl
  rw [hjoin, linesOf_intercalate, List.map_cons, textLine_write hne h, List.map_map]
  · rfl
  · intro l hl
    rcases List.mem_cons.mp hl with rfl | hl
    · exact ⟨by rw [hhead]; exact List.cons_ne_nil _ _, fun e he => isPlain_of_mem_write h he⟩
    · obtain ⟨m, hm, rfl⟩ := List.mem_map.mp hl
      exact hmore m hm
  · intro e he
    cases more with
    | nil =>
        rw [List.map_nil, List.intercalate_singleton, hhead] at he
        cases he
        exact ⟨hblank, hquote⟩
    | cons m more =>
        rw [List.map_cons, List.intercalate_cons_cons, hhead] at he
        cases he
        exact ⟨hblank, hquote⟩

/-- A text of written symbols is its own expression. -/
lemma ofText_write (hne : ss ≠ []) (h : ∀ s ∈ ss, s.Written names) :
    SplitText.ofText (String.ofList (write ss)) = ⟨write ss, Table.empty, Table.empty⟩ := by
  have hlines : SplitText.linesOf (String.ofList (write ss)).toList =
      [.expression (write ss)] := by
    have hfirst := linesOf_write hne h (List.forall_mem_nil _)
    rwa [joinLines, String.intercalate_singleton] at hfirst
  rw [SplitText.ofText, hlines]
  simp [SplitText.expressionLines, SplitText.settings, List.intercalate,
    trimChars_eq_self (tight_write hne h)]

/-! ### Reading a text -/

/-- When a text that is taken apart is a rotation. -/
lemma ofSplit_eq_ok_iff {options : ParseOptions} {t : SplitText} {d : Rotation} :
    Rotation.ofSplit options t = .ok d ↔
      d.abilityOverrides = t.abilityOverrides ∧
        (t.expression = [] ∧ d.steps = [] ∨
          t.expression ≠ [] ∧ ∃ ts, Token.ofChars options.names t.expression = .ok ts ∧
            Rotation.stepsOfTokens (Rotation.rulesOf options t.perInstance) ts = .ok d.steps) := by
  obtain ⟨steps, overrides⟩ := d
  rw [Rotation.ofSplit]
  by_cases hempty : t.expression = []
  · simp [hempty, and_comm, eq_comm]
  · rw [if_neg (by simpa using hempty)]
    cases hts : Token.ofChars options.names t.expression with
    | error fault => simp [hempty]
    | ok ts =>
        cases hsteps : Rotation.stepsOfTokens (Rotation.rulesOf options t.perInstance) ts with
        | error fault => simp [hempty, hsteps]
        | ok steps' => simp [hempty, hsteps, and_comm, eq_comm]

variable {options : ParseOptions} {d : Rotation} {t t' : SplitText}

/-- A text of one alternative is a rotation of one step. -/
lemma ofSplit_alternative (ts : List Token) {a : Term} {overrides : Table (Option Overrides)}
    (hne : t.expression ≠ []) (hts : Token.ofChars options.names t.expression = .ok ts)
    (hread : Reads (Rotation.rulesOf options t.perInstance) (.alternative true) ts a [])
    (ha : isAmbiguous [a] = false) (hoverrides : t.abilityOverrides = overrides) :
    Rotation.ofSplit options t = .ok ⟨[[a]], overrides⟩ :=
  ofSplit_eq_ok_iff.mpr ⟨hoverrides.symm, .inr ⟨hne, ts, hts,
    stepsOfTokens_eq_ok_iff.mpr (hread.single ha (.inl rfl))⟩⟩

/-- Two alternatives with a plus between are read as a step. -/
lemma ofSplit_plus (ts : List Token) {a b : Term} {u : Token} {us : List Token}
    (hts : Token.ofChars options.names t.expression = .ok ts)
    (hne : t.expression ≠ [])
    (ha : Reads (Rotation.rulesOf options t.perInstance) (.alternative true) ts a (u :: us))
    (hu : u.symbol = .plus)
    (hb : Reads (Rotation.rulesOf options t.perInstance) (.alternative true) us b [])
    (hstart : Token.startsOperand us = true) (hempty : t.abilityOverrides = Table.empty) :
    Rotation.ofSplit options t = .ok ⟨[[a, b]], Table.empty⟩ := by
  have hfirst : Reads (Rotation.rulesOf options t.perInstance) (.term true) ts a (u :: us) :=
    .lastAlternative ha (by simp [hu])
  have hsecond : Reads (Rotation.rulesOf options t.perInstance) .terms us [b] [] :=
    .lastTerm (.lastAlternative hb (by simp)) (by simp)
  exact ofSplit_eq_ok_iff.mpr ⟨hempty.symm, .inr ⟨hne, ts, hts, stepsOfTokens_eq_ok_iff.mpr
    (.lastStep (.plus hfirst hu hstart hsecond) rfl (.inl rfl))⟩⟩

/-- The canonical symbols of what a text is read as are legible. -/
lemma legible_of_ofSplit (hc : options.catalog = Catalog.default) (hp : PlainLines t.expression)
    (h : Rotation.ofSplit options t = .ok d) :
    Legible (options.names.map lowerCase) false d.symbols := by
  obtain ⟨-, ⟨-, hsteps⟩ | ⟨-, ts, hts, hsteps⟩⟩ := ofSplit_eq_ok_iff.mp h
  · rw [Rotation.symbols, hsteps]
    trivial
  · have hlegible : Legible (options.names.map lowerCase) false
        (Phrase.expression.symbols d.steps ++ []) :=
      (stepsOfTokens_eq_ok_iff.mp hsteps).legible hc (arranged_ofChars hts hp) ⟨rfl, by simp⟩
        ⟨trivial, by simp⟩
    rwa [List.append_nil] at hlegible

/-- **Canonical text is read again.**  If no marker ends in a backslash, a text whose expression is
the canonical text of a rotation is read as that rotation, with its own settings. -/
theorem ofSplit_of_expression (hc : options.catalog = Catalog.default)
    (hp : PlainLines t.expression) (h : Rotation.ofSplit options t = .ok d)
    (hend : ∀ m ∈ d.markerTexts, ¬ endsInBackslash m) (ht : t'.expression = d.chars true) :
    Rotation.ofSplit options t' =
      .ok ⟨mapUsesOfSteps (AbilityUse.attach t'.perInstance) d.steps, t'.abilityOverrides⟩ := by
  have hlegible := legible_of_ofSplit hc hp h
  rw [d.chars_eq_write] at ht
  refine ofSplit_eq_ok_iff.mpr ⟨rfl, ?_⟩
  obtain ⟨-, ⟨-, hsteps⟩ | ⟨-, ts, hts, hsteps⟩⟩ := ofSplit_eq_ok_iff.mp h
  · left
    rw [ht, Rotation.symbols, hsteps]
    exact ⟨rfl, rfl⟩
  · right
    -- the tokens of the rendering have the symbols of the rotation, and those are read back
    have hread := stepsOfTokens_eq_ok_iff.mp hsteps
    have hne : d.symbols ≠ [] := by
      obtain ⟨s, ss, hs, -⟩ := hread.exists_symbols
      exact fun heq => List.cons_ne_nil s ss (hs.symm.trans heq)
    obtain ⟨c, cs, hhead, -⟩ := exists_head_write hne hlegible.written
    obtain ⟨us, hus, hsymbols⟩ := ofChars_write hlegible (by rwa [d.tooltips_symbols])
    refine ⟨by rw [ht, hhead]; exact List.cons_ne_nil _ _, us, by rw [ht, hus], ?_⟩
    have hmode : (Rotation.rulesOf options t'.perInstance).adjacentWords =
        (Rotation.rulesOf options t.perInstance).adjacentWords := rfl
    have hreread : Reads (Rotation.rulesOf options t'.perInstance) .expression
        (ofSymbols d.symbols) (mapUsesOfSteps (AbilityUse.attach t'.perInstance) d.steps) [] :=
      reread_steps hc hc hmode hread (arranged_ofChars hts hp)
    have hsame : Token.symbols us = Token.symbols (ofSymbols d.symbols) := by
      rw [symbols_ofSymbols, hsymbols]
    exact stepsOfTokens_eq_ok_iff.mpr (hreread.all_of_symbols hsame)

/-- A text whose expression is the canonical text of a rotation gives back the markers only if none
of them ends in a backslash. -/
theorem not_endsInBackslash_of_ofSplit (hc : options.catalog = Catalog.default)
    (hp : PlainLines t.expression) (h : Rotation.ofSplit options t = .ok d) {d' : Rotation}
    (h' : Rotation.ofSplit options t' = .ok d') (ht : t'.expression = d.chars true)
    (hmarkers : d'.markerTexts = d.markerTexts) : ∀ m ∈ d.markerTexts, ¬ endsInBackslash m := by
  have hlegible := legible_of_ofSplit hc hp h
  rw [d.chars_eq_write] at ht
  rw [← d.tooltips_symbols]
  obtain ⟨-, ⟨hnil, -⟩ | ⟨-, ts, hts, hsteps⟩⟩ := ofSplit_eq_ok_iff.mp h'
  · have hsymbols : d.symbols = [] := by
      by_contra hne
      obtain ⟨c, cs, hhead, -⟩ := exists_head_write hne hlegible.written
      exact List.cons_ne_nil c cs <|
        calc c :: cs = write d.symbols := hhead.symm
          _ = t'.expression := ht.symm
          _ = [] := hnil
    rw [hsymbols]
    exact fun m hm => absurd hm List.not_mem_nil
  · rw [ht] at hts
    refine not_endsInBackslash_of_ofChars_write hlegible hts ?_
    rw [tooltips_of_stepsOfTokens hsteps, d.tooltips_symbols]
    exact hmarkers

/-! ### Canonical texts -/

/-- Canonical text is its own expression. -/
lemma ofText_render (h : Legible names behind d.symbols) :
    SplitText.ofText (d.render true) = ⟨d.chars true, Table.empty, Table.empty⟩ := by
  rw [Rotation.render, d.chars_eq_write]
  by_cases hne : d.symbols = []
  · have hlines : SplitText.linesOf [] = [] := by decide
    rw [hne, write_nil, SplitText.ofText, String.toList_ofList, hlines]
    rfl
  · exact ofText_write hne h.written

lemma attach_empty : AbilityUse.attach Table.empty = fun u => { u with overrides := none } := by
  funext u
  obtain ⟨key, modifiers, overrides, _ | label⟩ := u <;> simp [AbilityUse.attach]

/-- **Canonical text is faithful but for backslashes.**  Whatever text has been read as a rotation
with the default catalog: its canonical text is read as the same steps without the settings of
single occurrences, exactly if no marker of the rotation ends in a backslash. -/
theorem parse_render_iff {mode : AdjacentWords} {names : List String} {text : String}
    {d : Rotation} (h : Rotation.parse ⟨Catalog.default, mode, names⟩ text = .ok d) :
    (∃ d', Rotation.parse ⟨Catalog.default, mode, names⟩ (d.render true) = .ok d' ∧
        d'.steps = withoutOverrides d.steps) ↔
      ∀ m ∈ d.markerTexts, ¬ endsInBackslash m := by
  have hplain := plainLines_expression text
  rw [Rotation.parse] at h ⊢
  rw [ofText_render (legible_of_ofSplit rfl hplain h)]
  constructor
  · rintro ⟨d', h', hsteps⟩
    refine not_endsInBackslash_of_ofSplit rfl hplain h h' rfl ?_
    rw [Rotation.markerTexts, hsteps]
    exact markerTextsOfSteps_mapUses _ _
  · intro hend
    refine ⟨_, ofSplit_of_expression rfl hplain h hend rfl, ?_⟩
    rw [withoutOverrides, ← attach_empty]

/-- The rotation of `assault[*1] (pool)`, where the label has settings. -/
def pooled : Rotation :=
  ⟨[[[.ability ⟨"assault", [], some { level := some 5 }, some "1"⟩, .marker "pool"]]], Table.empty⟩

/-- The rotation of `assault (\ )`. -/
def backslashed : Rotation :=
  ⟨[[[.ability ⟨"assault", [], none, none⟩, .marker "\\"]]], Table.empty⟩

/-- The canonical text of `assault[*1] (pool)` gives its steps back, and that of `assault (\ )` does
not. -/
theorem parse_render_pooled_backslashed :
    (Rotation.parse {} "assault[*1] (pool)\n#*1 level=5" = .ok pooled ∧
      ∃ d', Rotation.parse {} (pooled.render true) = .ok d' ∧
        d'.steps = withoutOverrides pooled.steps) ∧
    Rotation.parse {} "assault (\\ )" = .ok backslashed ∧
      ¬ ∃ d', Rotation.parse {} (backslashed.render true) = .ok d' ∧
        d'.steps = withoutOverrides backslashed.steps := by
  have hpooled : Rotation.parse {} "assault[*1] (pool)\n#*1 level=5" = .ok pooled := by
    let ts : List Token :=
      [⟨.word ⟨"assault", some "1"⟩, 0, false⟩, ⟨.tooltip "pool", 12, false⟩]
    refine ofSplit_alternative ts (by decide) (by decide +kernel) ?_ (by decide)
      (by decide)
    exact .between rfl (.plain rfl (by decide) (by decide)) rfl
  have hbackslashed : Rotation.parse {} "assault (\\ )" = .ok backslashed := by
    let ts : List Token :=
      [⟨.word ⟨"assault", none⟩, 0, false⟩, ⟨.tooltip "\\", 8, false⟩]
    refine ofSplit_alternative ts (by decide) (by decide +kernel) ?_ (by decide)
      (by decide)
    exact .between rfl (.plain rfl (by decide) (by decide)) rfl
  exact ⟨⟨hpooled, (parse_render_iff hpooled).mpr (by decide)⟩, hbackslashed,
    fun h => absurd ((parse_render_iff hbackslashed).mp h) (by decide)⟩

end AbilityRotation
