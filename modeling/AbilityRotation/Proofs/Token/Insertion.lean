import AbilityRotation.Proofs.Token.Passages

/-!
The tokens of a text with one more tooltip.

In front of a word that follows no operand, a tooltip can be inserted into a text: it is read as a
tooltip, and everything else is read as before, line breaks and understood signs included.  Only
`spec` then follows an operand, so that a plus is understood between the two.
* `exists_scan_inserted`: the lexemes of the text with the tooltip.
* `exists_of_ofLexemes_eq`: a word among tokens is one of the lexemes, and line breaks around it do
  not depend on which operand it is.
* `insertPluses_append`, `exists_of_insertPluses`: pluses are understood one by one.
* `exists_ofChars_inserted`: the tokens of the text with the tooltip.
-/

namespace AbilityRotation

open Lexeme Text

variable {names : List String} {t t' : Bool} {c : Char} {cs rest after : List Char} {pos n : ℕ}
  {text : String} {w : Word}

/-! ### Lexemes -/

/-- From another index on, the same symbols are read. -/
lemma exists_scan_at {ls : List Lexeme} (h : scan names t pos cs = .ok ls) (pos' : ℕ) :
    ∃ ls', scan names t pos' cs = .ok ls' ∧ ls'.map (·.symbol) = ls.map (·.symbol) := by
  induction t, pos, cs using scan.induct names generalizing ls pos' with
  | case1 t pos =>
      rw [scan] at h
      cases h
      exact ⟨[], by rw [scan], rfl⟩
  | case2 t pos c rest cause offset hg =>
      rw [scan, hg] at h
      cases h
  | case3 t pos c rest g n hg ih =>
      rw [scan, hg] at h
      obtain ⟨more, hmore, rfl⟩ := map_eq_ok_iff.mp h
      obtain ⟨more', hmore', hsymbols⟩ := ih hmore (pos' + n + 1)
      refine ⟨(ofGlyph? pos' (pos' + n + 1) g).toList ++ more', ?_, ?_⟩
      · rw [scan, hg]
        exact map_eq_ok_iff.mpr ⟨more', hmore', rfl⟩
      · rw [List.map_append, List.map_append, map_symbol_ofGlyph?, map_symbol_ofGlyph?, hsymbols]

/-- What is read as a word begins like one, whether it touches something or not. -/
lemma of_glyphAt_word (h : glyphAt names t c rest = .ok (.symbol (.word w), n)) :
    BeginsWord (c :: rest) ∧ ∀ t', glyphAt names t' c rest = .ok (.symbol (.word w), n) := by
  cases isGlyph_of_glyphAt h with
  | word hc ha hw =>
      refine ⟨⟨c, rest, rfl, hc, ha⟩, fun t' => ?_⟩
      rw [glyphAt_of_isWordChar hc ha, hw]
      rfl
  | single _ _ hword _ => exact absurd rfl (hword w)

lemma wordFollows_of_beginsWord (h : BeginsWord cs) : wordFollows cs = true := by
  obtain ⟨c, rest, rfl, hc, ha⟩ := h
  rw [wordFollows, List.dropWhile_cons_of_neg (by simp [isSpace_of_isWordChar hc])]
  simp only [hc, ha, Bool.not_false, Bool.and_self]

/-- In front of a word, an inserted tooltip is read before the same lexemes. -/
lemma exists_scan_tooltip {l : Lexeme} {back : List Lexeme}
    (hglyph : glyphAt names false c rest = .ok (.symbol (.word w), n))
    (hscan : scan names false pos (c :: rest) = .ok (l :: back))
    (htext : (Symbol.tooltip text).Written names) (hend : ¬ endsInBackslash text) (pos' : ℕ) :
    ∃ ls, scan names false pos' ('(' :: (escape text.toList ++ ')' :: ' ' :: c :: rest)) = .ok ls ∧
      ls.map (·.symbol) = some (.tooltip text) :: l.symbol :: back.map (·.symbol) := by
  obtain ⟨hbegins, hany⟩ := of_glyphAt_word hglyph
  rw [scan_of_glyphAt pos hglyph] at hscan
  obtain ⟨behind, hbehind, heq⟩ := map_eq_ok_iff.mp hscan
  obtain ⟨rfl, rfl⟩ := List.cons.inj heq
  have hfollows : wordFollows (' ' :: c :: rest) = true :=
    (wordFollows_of_beginsWord hbegins : wordFollows (c :: rest) = true)
  have hslice : tooltip? names false (escape text.toList ++ ')' :: ' ' :: c :: rest) = _ :=
    tooltip?_escape htext hend (.inr hfollows)
  have hdrop : (escape text.toList ++ ')' :: ' ' :: c :: rest).drop
      ((escape text.toList).length + 1) = ' ' :: c :: rest := by
    rw [List.append_cons, List.drop_left' (by simp)]
  rw [scan_of_glyphAt pos' (glyphAt_tooltip hslice), hdrop, scan_space _ rfl,
    scan_of_glyphAt _ (hany _)]
  obtain ⟨behind', hbehind', hsymbols⟩ := exists_scan_at hbehind
    (pos' + ((escape text.toList).length + 1) + 1 + 1 + n + 1)
  refine ⟨_, map_eq_ok_iff.mpr ⟨_, map_eq_ok_iff.mpr ⟨behind', hbehind', rfl⟩, rfl⟩, ?_⟩
  rw [List.map_cons, List.map_cons, hsymbols]

/-- **A tooltip can be inserted in front of a word.**  Where no operand stands right in front of a
word, the lexemes of the text with a tooltip there are those of the text, with the tooltip. -/
theorem exists_scan_inserted {front back : List Lexeme} {l : Lexeme}
    (h : scan names false pos cs = .ok (front ++ l :: back)) (hl : l.symbol = some (.word w))
    (hfront : ∀ s, some s ∈ (front.map (·.symbol)).getLast? → s.endsOperand = false)
    (htext : (Symbol.tooltip text).Written names) (hend : ¬ endsInBackslash text) :
    ∃ cs₁ cs₂ ls, cs = cs₁ ++ cs₂ ∧ l.start = pos + cs₁.length ∧ BeginsWord cs₂ ∧
      scan names false pos (cs₁ ++ (markerChars text ++ ' ' :: cs₂)) = .ok ls ∧
      ls.map (·.symbol) =
        front.map (·.symbol) ++ some (.tooltip text) :: l.symbol :: back.map (·.symbol) := by
  obtain ⟨cs₁, c, rest, t', n, rfl, hstart, hpasses, hglyph, hscan⟩ := exists_passes h rfl hl
  obtain rfl : t' = false := by
    by_contra ht'
    rcases hpasses.exists_of_touching (by simpa using ht') with ⟨-, htouching⟩ | ⟨s, hs, hends⟩
    · cases htouching
    · cases (hfront s hs).symm.trans hends
  obtain ⟨found, hfound, hsymbols⟩ :=
    exists_scan_tooltip hglyph hscan htext hend (pos + cs₁.length)
  have hbegins := (of_glyphAt_word hglyph).1
  obtain ⟨front', hfront', hall⟩ := (hpasses.in_front hbegins rfl _).scan hfound
  refine ⟨cs₁, c :: rest, front' ++ found, rfl, hstart, hbegins, ?_, ?_⟩
  · rw [← hall, markerChars, List.cons_append, List.cons_append, List.append_assoc]
    rfl
  · rw [List.map_append, hfront', hsymbols]

namespace Token

/-! ### Line breaks -/

variable {b : Option Symbol} {before after : List Token} {u : Token}

lemma nextSymbol?_congr {ls ls' : List Lexeme} (h : ls.map (·.symbol) = ls'.map (·.symbol)) :
    nextSymbol? ls = nextSymbol? ls' := by
  induction ls generalizing ls' with
  | nil =>
      cases ls' with
      | nil => rfl
      | cons l' ls' => cases h
  | cons l ls ih =>
      cases ls' with
      | nil => cases h
      | cons l' ls' =>
          obtain ⟨s, start, stop⟩ := l
          obtain ⟨s', start', stop'⟩ := l'
          obtain ⟨hs, hrest⟩ := List.cons.inj h
          obtain rfl : s = s' := hs
          cases s with
          | none =>
              rw [nextSymbol?, nextSymbol?]
              exact ih hrest
          | some s => rfl

/-- The symbols of the tokens depend on the symbols of the lexemes alone, not on their places. -/
lemma symbols_ofLexemes_congr {ls ls' : List Lexeme}
    (h : ls.map (·.symbol) = ls'.map (·.symbol)) (b : Option Symbol) :
    symbols (ofLexemes b ls) = symbols (ofLexemes b ls') := by
  induction ls generalizing ls' b with
  | nil =>
      cases ls' with
      | nil => rfl
      | cons l' ls' => cases h
  | cons l ls ih =>
      cases ls' with
      | nil => cases h
      | cons l' ls' =>
          obtain ⟨s, start, stop⟩ := l
          obtain ⟨s', start', stop'⟩ := l'
          obtain ⟨hs, hrest⟩ := List.cons.inj h
          obtain rfl : s = s' := hs
          cases s with
          | none =>
              rw [ofLexemes, ofLexemes, nextSymbol?_congr hrest]
              split
              · rw [symbols_cons, symbols_cons, ih hrest]
              · exact ih hrest b
          | some s => rw [ofLexemes, ofLexemes, symbols_cons, symbols_cons, ih hrest]

/-- Whether an operand begins behind line breaks does not depend on which operand it is. -/
lemma any_nextSymbol? {front back : List Lexeme} {l : Lexeme} {s : Symbol}
    (hl : l.symbol.any Symbol.startsOperand = true) (hs : s.startsOperand = true) (start stop : ℕ)
    (back' : List Lexeme) :
    (nextSymbol? (front ++ l :: back)).any Symbol.startsOperand =
      (nextSymbol? (front ++ ⟨some s, start, stop⟩ :: back')).any Symbol.startsOperand := by
  induction front with
  | nil =>
      obtain ⟨_ | s', start', stop'⟩ := l
      · cases hl
      · exact hl.trans hs.symm
  | cons l' front ih =>
      obtain ⟨_ | s', start', stop'⟩ := l'
      · exact ih
      · rfl

/-- How the tokens `before` come of the lexemes `front`, behind which an operand begins. -/
structure ComeOf (b : Option Symbol) (front : List Lexeme) (before : List Token) : Prop where
  /-- They are the same in front of each operand. -/
  eq : ∀ (s : Symbol) (start stop : ℕ) (back : List Lexeme), s.startsOperand = true →
    ofLexemes b (front ++ ⟨some s, start, stop⟩ :: back) =
      before ++ ⟨s, start, false⟩ :: ofLexemes (some s) back
  /-- The last symbol of the lexemes is that of the last token. -/
  last : ∀ s, some s ∈ (front.map (·.symbol)).getLast? → s ∈ (symbols before).getLast?

lemma ComeOf.nil (b : Option Symbol) : ComeOf b [] [] :=
  ⟨fun _ _ _ _ _ => rfl, fun _ h => by cases h⟩

lemma ComeOf.eq_nil (h : ComeOf b [] before) : before = [] := by
  have heq := congrArg List.length (h.eq .opening 0 0 [] rfl)
  simp only [List.nil_append, ofLexemes, List.length_append, List.length_cons, List.length_nil]
    at heq
  exact List.eq_nil_of_length_eq_zero (by omega)

/-- A symbol in front comes as it is. -/
lemma ComeOf.symbol {front : List Lexeme} {s : Symbol} (h : ComeOf (some s) front before)
    (b : Option Symbol) (start stop : ℕ) :
    ComeOf b (⟨some s, start, stop⟩ :: front) (⟨s, start, false⟩ :: before) where
  eq s' start' stop' back hs' := by
    rw [List.cons_append, ofLexemes, h.eq s' start' stop' back hs', List.cons_append]
  last s' hs' := by
    cases front with
    | nil =>
        obtain rfl := h.eq_nil
        exact congrArg _ (Option.some.inj (Option.some.inj hs'))
    | cons l front => exact List.mem_getLast?_cons (h.last s' hs')

/-- A line break in front of which an operand ends comes as an arrow. -/
lemma ComeOf.arrow {front back : List Lexeme} {l : Lexeme}
    (h : ComeOf (some .arrow) front before) (hl : l.symbol.any Symbol.startsOperand = true)
    (hb : (b.any Symbol.endsOperand &&
      (nextSymbol? (front ++ l :: back)).any Symbol.startsOperand) = true) (start stop : ℕ) :
    ComeOf b (⟨none, start, stop⟩ :: front) (⟨.arrow, start, true⟩ :: before) where
  eq s' start' stop' back' hs' := by
    rw [any_nextSymbol? hl hs' start' stop' back'] at hb
    rw [List.cons_append, ofLexemes, if_pos hb, h.eq s' start' stop' back' hs', List.cons_append]
  last s' hs' := by
    cases front with
    | nil => cases hs'
    | cons l front => exact List.mem_getLast?_cons (h.last s' hs')

/-- Any other line break vanishes. -/
lemma ComeOf.vanishing {front back : List Lexeme} {l : Lexeme}
    (h : ComeOf b front before) (hl : l.symbol.any Symbol.startsOperand = true)
    (hb : ¬(b.any Symbol.endsOperand &&
      (nextSymbol? (front ++ l :: back)).any Symbol.startsOperand) = true) (start stop : ℕ) :
    ComeOf b (⟨none, start, stop⟩ :: front) before where
  eq s' start' stop' back' hs' := by
    rw [any_nextSymbol? hl hs' start' stop' back'] at hb
    rw [List.cons_append, ofLexemes, if_neg hb, h.eq s' start' stop' back' hs']
  last s' hs' := by
    cases front with
    | nil => cases hs'
    | cons l front => exact h.last s' hs'

/-- An operand among the tokens is one of the lexemes. -/
lemma exists_of_ofLexemes_eq {ls : List Lexeme} (h : ofLexemes b ls = before ++ u :: after)
    (hu : u.symbol.startsOperand = true) :
    ∃ front l back, ls = front ++ l :: back ∧ l.symbol = some u.symbol ∧ l.start = u.pos ∧
      after = ofLexemes (some u.symbol) back ∧ ComeOf b front before := by
  induction ls generalizing b before with
  | nil => cases before <;> cases h
  | cons l ls ih =>
      obtain ⟨_ | s, start, stop⟩ := l
      · rw [ofLexemes] at h
        split at h
        · next hb =>
            cases before with
            | nil =>
                obtain ⟨rfl, -⟩ := List.cons.inj h
                cases hu
            | cons u' before =>
                obtain ⟨rfl, hrest⟩ := List.cons.inj h
                obtain ⟨front, l, back, rfl, hl, hstart, hafter, hcome⟩ := ih hrest
                exact ⟨⟨none, start, stop⟩ :: front, l, back, rfl, hl, hstart, hafter,
                  hcome.arrow (by simp [hl, hu]) hb start stop⟩
        · next hb =>
            obtain ⟨front, l, back, rfl, hl, hstart, hafter, hcome⟩ := ih h
            exact ⟨⟨none, start, stop⟩ :: front, l, back, rfl, hl, hstart, hafter,
              hcome.vanishing (by simp [hl, hu]) hb start stop⟩
      · rw [ofLexemes] at h
        cases before with
        | nil =>
            obtain ⟨rfl, rfl⟩ := List.cons.inj h
            exact ⟨[], _, ls, rfl, rfl, rfl, rfl, .nil b⟩
        | cons u' before =>
            obtain ⟨rfl, hrest⟩ := List.cons.inj h
            obtain ⟨front, l, back, rfl, hl, hstart, hafter, hcome⟩ := ih hrest
            exact ⟨⟨some s, start, stop⟩ :: front, l, back, rfl, hl, hstart, hafter,
              hcome.symbol b start stop⟩

/-! ### Understood pluses -/

lemma symbols_insertPluses_congr {ts ts' : List Token} (h : symbols ts = symbols ts')
    (b : Option Symbol) : symbols (insertPluses b ts) = symbols (insertPluses b ts') := by
  induction ts generalizing ts' b with
  | nil =>
      cases ts' with
      | nil => rfl
      | cons t' ts' => cases h
  | cons t ts ih =>
      cases ts' with
      | nil => cases h
      | cons t' ts' =>
          rw [symbols_cons, symbols_cons] at h
          obtain ⟨hs, hrest⟩ := List.cons.inj h
          rw [insertPluses, insertPluses, hs]
          split <;> simp only [symbols_cons, hs, ih hrest]

/-- The plus that is understood in front of a token, if any; `b` is the symbol before the token. -/
def understoodPlus (b : Option Symbol) (t : Token) : List Token :=
  if isSpec t.symbol && b.any Symbol.endsOperand then [⟨.plus, t.pos, true⟩] else []

lemma insertPluses_cons (b : Option Symbol) (t : Token) (ts : List Token) :
    insertPluses b (t :: ts) =
      understoodPlus b t ++ t :: insertPluses (some t.symbol) ts := by
  rw [insertPluses, understoodPlus]
  split <;> rfl

/-- The symbol before the tokens behind a token is that of the last one of them all. -/
lemma getLast?_symbols_cons_or (b : Option Symbol) (t : Token) (ts : List Token) :
    (symbols (t :: ts)).getLast?.or b = (symbols ts).getLast?.or (some t.symbol) := by
  rw [symbols_cons, List.getLast?_cons]
  cases (symbols ts).getLast? <;> rfl

/-- Pluses are understood one by one, each by the token in front of it. -/
lemma insertPluses_append (b : Option Symbol) (ts ts' : List Token) :
    insertPluses b (ts ++ ts') =
      insertPluses b ts ++ insertPluses ((symbols ts).getLast?.or b) ts' := by
  induction ts generalizing b with
  | nil => rfl
  | cons t ts ih =>
      rw [List.cons_append, insertPluses_cons, insertPluses_cons, getLast?_symbols_cons_or, ih,
        List.append_assoc, List.cons_append]

/-- A plus is never understood behind the last token. -/
lemma getLast?_insertPluses (b : Option Symbol) (ts : List Token) :
    (insertPluses b ts).getLast? = ts.getLast? := by
  induction ts generalizing b with
  | nil => rfl
  | cons t ts ih =>
      rw [insertPluses, List.getLast?_cons, ← ih (some t.symbol)]
      split <;> simp [List.getLast?_cons]

/-- What stands among tokens with the understood pluses is one of the tokens, or a plus in front of
one. -/
lemma exists_of_insertPluses {ts : List Token} (h : insertPluses b ts = before ++ u :: after) :
    ∃ front t back, ts = front ++ t :: back ∧
      (u = t ∧
          before = insertPluses b front ++ understoodPlus ((symbols front).getLast?.or b) t ∧
            after = insertPluses (some t.symbol) back ∨
        understoodPlus ((symbols front).getLast?.or b) t = [u] ∧ before = insertPluses b front ∧
          after = t :: insertPluses (some t.symbol) back) := by
  induction ts generalizing b before with
  | nil => cases before <;> cases h
  | cons t ts ih =>
      rw [insertPluses_cons] at h
      -- the place is in front of the first token, at this token, or behind it
      rcases exists_of_append_eq_append_cons h with ⟨behind, hplus, rfl⟩ | ⟨c, hc, rfl⟩
      · -- the plus in front of the first token
        have hlength := congrArg List.length hplus
        have hle : (understoodPlus b t).length ≤ 1 := by
          rw [understoodPlus]
          split <;> simp
        simp only [List.length_append, List.length_cons] at hlength
        obtain rfl := List.eq_nil_of_length_eq_zero (show before.length = 0 by omega)
        obtain rfl := List.eq_nil_of_length_eq_zero (show behind.length = 0 by omega)
        exact ⟨[], t, ts, rfl, .inr ⟨hplus, rfl, rfl⟩⟩
      · cases c with
        | nil =>
            obtain ⟨rfl, rfl⟩ := List.cons.inj hc
            exact ⟨[], t, ts, rfl, .inl ⟨rfl, (List.append_nil _).trans rfl, rfl⟩⟩
        | cons t' c =>
            obtain ⟨rfl, hrest⟩ := List.cons.inj hc
            obtain ⟨front, t', back, rfl, hplace⟩ := ih hrest
            refine ⟨t :: front, t', back, rfl, ?_⟩
            rw [getLast?_symbols_cons_or, insertPluses_cons]
            rcases hplace with ⟨hu, rfl, hafter⟩ | ⟨hplus, rfl, hafter⟩
            · exact .inl ⟨hu, by simp, hafter⟩
            · exact .inr ⟨hplus, rfl, hafter⟩

/-- A word in front of which no plus is understood is one of the tokens without the understood
pluses. -/
lemma exists_of_insertPluses_eq {ts : List Token} (h : insertPluses b ts = before ++ u :: after)
    (hu : u.symbol = .word w)
    (hbefore : ∀ x ∈ before.getLast?, x.symbol = .plus → x.implicit = false) :
    ∃ front back, ts = front ++ u :: back ∧ before = insertPluses b front ∧
      after = insertPluses (some u.symbol) back := by
  obtain ⟨front, t, back, rfl, ⟨rfl, rfl, hafter⟩ | ⟨hplus, -, -⟩⟩ := exists_of_insertPluses h
  · refine ⟨front, back, rfl, ?_, hafter⟩
    rw [understoodPlus] at hbefore ⊢
    split at hbefore
    · cases hbefore _ List.getLast?_concat rfl
    · next hspec => rw [if_neg hspec, List.append_nil]
  · rw [understoodPlus] at hplus
    split at hplus
    · obtain rfl := List.singleton_inj.mp hplus
      cases hu
    · cases hplus

/-! ### Texts -/

/-- **A tooltip can be inserted into a text.**  In front of a word that follows no operand and no
understood plus, a text with an inserted tooltip has the tokens of the text, with the tooltip; only
between the tooltip and `spec` a plus is understood. -/
theorem exists_ofChars_inserted (h : ofChars names cs = .ok (before ++ u :: after))
    (hu : u.symbol = .word w)
    (hbefore : ∀ x ∈ before.getLast?,
      x.symbol.endsOperand = false ∧ (x.symbol = .plus → x.implicit = false))
    (htext : (Symbol.tooltip text).Written (names.map lowerCase))
    (hend : ¬ endsInBackslash text) :
    ∃ cs₁ cs₂ ts, cs = cs₁ ++ cs₂ ∧ u.pos = cs₁.length ∧ BeginsWord cs₂ ∧
      ofChars names (cs₁ ++ (markerChars text ++ ' ' :: cs₂)) = .ok ts ∧
      symbols ts = symbols before ++ .tooltip text ::
        ((if isSpec u.symbol then [.plus] else []) ++ u.symbol :: symbols after) := by
  obtain ⟨ls, hls, hts⟩ := map_eq_ok_iff.mp h
  obtain ⟨front', back', hfront', rfl, rfl⟩ :=
    exists_of_insertPluses_eq hts hu fun x hx => (hbefore x hx).2
  obtain ⟨front, l, back, rfl, hl, hstart, rfl, hcome⟩ :=
    exists_of_ofLexemes_eq hfront' (by rw [hu]; rfl)
  -- what ends no operand among the tokens ends none among the lexemes they come of
  have hlast : ∀ s, some s ∈ (front.map (·.symbol)).getLast? → s.endsOperand = false := by
    intro s hs
    have hmem := hcome.last s hs
    rw [symbols, List.getLast?_map, ← getLast?_insertPluses none, Option.mem_map] at hmem
    obtain ⟨x, hx, rfl⟩ := hmem
    exact (hbefore x hx).1
  obtain ⟨cs₁, cs₂, ls, rfl, hstart', hbegins, hscan, hsymbols⟩ :=
    exists_scan_inserted hls (hl.trans (congrArg some hu)) hlast htext hend
  refine ⟨cs₁, cs₂, insertPluses none (ofLexemes none ls), rfl, by omega, hbegins,
    map_eq_ok_iff.mpr ⟨ls, hscan, rfl⟩, ?_⟩
  have hlexemes : ofLexemes none (front ++ ⟨some (.tooltip text), 0, 0⟩ :: l :: back) =
      front' ++ ⟨.tooltip text, 0, false⟩ :: ⟨u.symbol, l.start, false⟩ ::
        ofLexemes (some u.symbol) back := by
    obtain ⟨s, start, stop⟩ := l
    obtain rfl : s = some u.symbol := hl
    exact hcome.eq (.tooltip text) 0 0 _ rfl
  have hcongr : symbols (ofLexemes none ls) = symbols (front' ++ ⟨.tooltip text, 0, false⟩ ::
      ⟨u.symbol, l.start, false⟩ :: ofLexemes (some u.symbol) back) := by
    rw [← hlexemes]
    refine symbols_ofLexemes_congr ?_ none
    rw [hsymbols, List.map_append, List.map_cons, List.map_cons]
  rw [symbols_insertPluses_congr hcongr, insertPluses_append, insertPluses,
    if_neg (by simp [isSpec]), insertPluses]
  -- behind the tooltip, which ends an operand, a plus is understood before `spec`
  by_cases hspec : isSpec u.symbol = true
  · rw [if_pos (by simp [hspec, Symbol.endsOperand]), if_pos hspec]
    simp [symbols]
  · rw [if_neg (by simp [hspec]), if_neg hspec]
    simp [symbols]

end Token

end AbilityRotation
