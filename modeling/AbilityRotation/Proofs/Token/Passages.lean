import AbilityRotation.Proofs.Canonical.Scanning

/-!
Reading in front of other characters.

What is read at one place depends on the characters behind it, some of them far away: a parenthesis
begins a tooltip if a closing one is found.  In front of a word that touches nothing on its left, a
parenthesis changes nothing of this.
* `Lexeme.Passes`: characters that are read glyph by glyph, in front of others.
* `exists_passes`: the characters in front of a lexeme are passed.
* `Passes.scan`: what is read behind passed characters is read behind their lexemes.
* `glyphAt_in_front`: one glyph is the same in front of a word and of a parenthesis.
* `Passes.in_front`: so are all glyphs of characters that are passed.
-/

namespace AbilityRotation

/-- What a glyph gives to read: a symbol, or none where a line ends. -/
def Glyph.symbols : Glyph → List (Option Symbol)
  | .symbol s => [some s]
  | .lineBreak => [none]
  | _ => []

namespace Lexeme

open Text

variable {names : List String} {t t' : Bool} {c d : Char}
  {cs ds more slice after after' : List Char} {pos n : ℕ} {g : Glyph}

/-! ### Characters that are passed -/

/-- In front of the characters `after`, others are read glyph by glyph.  A parenthesis in front of
them touches something if `t` is true, and one behind them if `t'` is. -/
inductive Passes (names : List String) (after : List Char) :
    (t : Bool) → List Char → (t' : Bool) → List (Option Symbol) → Prop
  /-- No characters are passed. -/
  | nil {t : Bool} : Passes names after t [] t []
  /-- The characters `cs` behind `c` belong to the first glyph. -/
  | cons {t t' : Bool} {c : Char} {cs more : List Char} {g : Glyph} {ss : List (Option Symbol)}
      (h : glyphAt names t c (cs ++ (more ++ after)) = .ok (g, cs.length))
      (hmore : Passes names after (touchesAfter t g) more t' ss) :
      Passes names after t (c :: cs ++ more) t' (g.symbols ++ ss)

lemma map_symbol_ofGlyph? (start stop : ℕ) (g : Glyph) :
    (ofGlyph? start stop g).toList.map (·.symbol) = g.symbols := by
  cases g <;> rfl

/-- What is read behind passed characters is read behind their lexemes. -/
lemma Passes.scan {ss : List (Option Symbol)} {ls : List Lexeme}
    (h : Passes names after t cs t' ss)
    (hls : Lexeme.scan names t' (pos + cs.length) after = .ok ls) :
    ∃ front, front.map (·.symbol) = ss ∧
      Lexeme.scan names t pos (cs ++ after) = .ok (front ++ ls) := by
  induction h generalizing pos with
  | nil => exact ⟨[], rfl, hls⟩
  | @cons t t' c cs more g ss h _ ih =>
      rw [List.length_append, List.length_cons, Nat.add_assoc, ← Nat.add_assoc] at hls
      obtain ⟨front, rfl, hfront⟩ := @ih (pos + cs.length + 1) (by
        rw [← hls]
        congr 1
        omega)
      refine ⟨(ofGlyph? pos (pos + cs.length + 1) g).toList ++ front, ?_, ?_⟩
      · rw [List.map_append, map_symbol_ofGlyph?]
      · rw [List.cons_append, List.cons_append, List.append_assoc, Lexeme.scan, h]
        simp only [List.drop_left, hfront, Except.map, List.append_assoc]

/-- Among the characters `cs`, from `pos` on, the lexeme `l` of the symbol `s` is read behind others
that are passed, whose symbols are `ss`, and in front of the lexemes `back`. -/
def StandsBehind (names : List String) (t : Bool) (pos : ℕ) (cs : List Char)
    (ss : List (Option Symbol)) (l : Lexeme) (s : Symbol) (back : List Lexeme) : Prop :=
  ∃ cs₁ c rest t' n, cs = cs₁ ++ c :: rest ∧ l.start = pos + cs₁.length ∧
    Passes names (c :: rest) t cs₁ t' ss ∧
    glyphAt names t' c rest = .ok (.symbol s, n) ∧
    Lexeme.scan names t' l.start (c :: rest) = .ok (l :: back)

/-- A glyph in front is one more that is passed. -/
lemma StandsBehind.cons {rest : List Char} {ss : List (Option Symbol)} {l : Lexeme} {s : Symbol}
    {back : List Lexeme} (hg : glyphAt names t c rest = .ok (g, n))
    (h : StandsBehind names (touchesAfter t g) (pos + n + 1) (rest.drop n) ss l s back) :
    StandsBehind names t pos (c :: rest) (g.symbols ++ ss) l s back := by
  obtain ⟨cs₁, c', rest', t', n', hrest, hstart, hpasses, hglyph, hscan⟩ := h
  have hle : n ≤ rest.length := by
    by_contra hlt
    rw [List.drop_eq_nil_of_le (by omega)] at hrest
    cases cs₁ <;> cases hrest
  have hlength : (rest.take n).length = n := List.length_take_of_le hle
  have hsplit : rest = rest.take n ++ (cs₁ ++ c' :: rest') := by
    rw [← hrest, List.take_append_drop]
  refine ⟨c :: rest.take n ++ cs₁, c', rest', t', n', ?_, ?_, .cons ?_ hpasses, hglyph, hscan⟩
  · rw [List.cons_append, List.cons_append, List.append_assoc, ← hsplit]
  · rw [hstart, List.length_append, List.length_cons, hlength]
    omega
  · rw [← hsplit, hlength]
    exact hg

/-- The characters in front of a lexeme are passed, and it is read behind them. -/
lemma exists_passes {ls front back : List Lexeme} {l : Lexeme} {s : Symbol}
    (h : Lexeme.scan names t pos cs = .ok ls) (hls : ls = front ++ l :: back)
    (hs : l.symbol = some s) :
    StandsBehind names t pos cs (front.map (·.symbol)) l s back := by
  -- the induction follows the scan, with one glyph passed in each step
  induction t, pos, cs using Lexeme.scan.induct names generalizing ls front with
  | case1 t pos =>
      rw [Lexeme.scan] at h
      cases h
      cases front <;> cases hls
  | case2 t pos c rest cause offset hg =>
      rw [Lexeme.scan, hg] at h
      cases h
  | case3 t pos c rest g n hg ih =>
      have hall := h
      rw [Lexeme.scan, hg] at h
      obtain ⟨found, hfound, rfl⟩ := map_eq_ok_iff.mp h
      cases g with
      | space | gap => exact .cons hg (ih hfound hls)
      | lineBreak =>
          cases front with
          | nil =>
              obtain ⟨rfl, -⟩ := List.cons.inj hls
              cases hs
          | cons l' front =>
              obtain ⟨rfl, hfront⟩ := List.cons.inj hls
              exact .cons hg (ih hfound hfront)
      | symbol s' =>
          cases front with
          | nil =>
              obtain ⟨rfl, rfl⟩ := List.cons.inj hls
              cases hs
              exact ⟨[], c, rest, t, n, rfl, rfl, .nil, hg, hall⟩
          | cons l' front =>
              obtain ⟨rfl, hfront⟩ := List.cons.inj hls
              exact .cons hg (ih hfound hfront)

/-! ### Tooltip slices -/

/-- What stands in front of a parenthesis begins in the same way whatever stands behind it. -/
lemma head?_append_cons {x y : List Char} (h : cs ++ c :: x = d :: y) (x' : List Char) :
    (cs ++ c :: x').head? = some d := by
  cases cs with
  | nil => exact congrArg some (List.cons.inj h).1
  | cons e cs => exact congrArg some (List.cons.inj h).1

/-- An ordinary character in front of a tooltip slice belongs to it. -/
lemma tooltipSlice?_ordinary {e : Char} (hesc : ¬(d = '\\' ∧ (e = '(' ∨ e = ')')))
    (hstop : ¬(d = '(' ∨ d = '\n')) (hd : d ≠ ')') (hhead : cs.head? = some e) :
    tooltipSlice? (d :: cs) = (tooltipSlice? cs).map (d :: ·) := by
  obtain ⟨cs, rfl⟩ := List.head?_eq_some_iff.mp hhead
  rw [tooltipSlice?, if_neg hesc, if_neg hstop, if_neg hd]

/-- A tooltip slice stands in front of a closing parenthesis and depends on nothing behind it. -/
lemma exists_of_tooltipSlice? (h : tooltipSlice? cs = some slice) :
    ∃ rest, cs = slice ++ ')' :: rest ∧
      ∀ rest', tooltipSlice? (slice ++ ')' :: rest') = some slice := by
  -- what is behind the closing parenthesis is never looked at, in no step of the search
  induction cs using tooltipSlice?.induct generalizing slice with
  | case1 => cases h
  | case2 =>
      cases h
      exact ⟨[], rfl, tooltipSlice?_closing⟩
  | case3 d hd =>
      rw [tooltipSlice?, if_neg hd] at h
      cases h
  | case4 d e rest hesc ih =>
      rw [tooltipSlice?, if_pos hesc] at h
      obtain ⟨inner, hinner, rfl⟩ := Option.map_eq_some_iff.mp h
      obtain ⟨behind, rfl, hany⟩ := ih hinner
      refine ⟨behind, rfl, fun rest' => ?_⟩
      rw [List.cons_append, List.cons_append, tooltipSlice?, if_pos hesc, hany]
      rfl
  | case5 d e rest _ hstop =>
      rw [tooltipSlice?, if_neg ‹_›, if_pos hstop] at h
      cases h
  | case6 e rest _ _ =>
      rw [tooltipSlice?, if_neg ‹_›, if_neg ‹_›, if_pos rfl] at h
      cases h
      exact ⟨e :: rest, rfl, tooltipSlice?_closing⟩
  | case7 d e rest hesc hstop hd ih =>
      rw [tooltipSlice?, if_neg hesc, if_neg hstop, if_neg hd] at h
      obtain ⟨inner, hinner, rfl⟩ := Option.map_eq_some_iff.mp h
      obtain ⟨behind, hbehind, hany⟩ := ih hinner
      refine ⟨behind, congrArg (d :: ·) hbehind, fun rest' => ?_⟩
      rw [List.cons_append, tooltipSlice?_ordinary hesc hstop hd
        (head?_append_cons hbehind.symm rest'), hany]
      rfl

/-- What is read as a tooltip are the characters of a slice and the closing parenthesis. -/
lemma exists_of_tooltip? {text : String}
    (h : tooltip? names t (cs ++ after) = some (text, cs.length)) :
    ∃ slice, cs = slice ++ [')'] ∧ ∀ rest, tooltipSlice? (slice ++ ')' :: rest) = some slice := by
  obtain ⟨slice, hslice, hlength, -⟩ := tooltip?_eq_some_iff.mp h
  obtain ⟨rest, hrest, hany⟩ := exists_of_tooltipSlice? hslice
  rw [List.append_cons] at hrest
  exact ⟨slice, (List.append_inj hrest (by simpa using hlength)).1, hany⟩

/-- Behind a slice only what follows decides whether it is a tooltip. -/
lemma tooltip?_congr {rest rest' : List Char}
    (h : ∀ rest, tooltipSlice? (slice ++ ')' :: rest) = some slice)
    (hfollows : wordFollows rest = wordFollows rest') :
    tooltip? names t (slice ++ ')' :: rest) = tooltip? names t (slice ++ ')' :: rest') := by
  have hdrop : ∀ rest : List Char, (slice ++ ')' :: rest).drop (slice.length + 1) = rest := by
    intro rest
    rw [List.append_cons, List.drop_left' (by simp)]
  simp only [tooltip?, h, hdrop, hfollows]

/-- Characters in front of an opening parenthesis close a tooltip, whatever stands behind them, or
nothing closes it. -/
lemma tooltipSlice?_in_front (hlast : cs.getLast? ≠ some '\\') :
    (∃ slice rest, cs = slice ++ ')' :: rest ∧
      ∀ rest', tooltipSlice? (slice ++ ')' :: rest') = some slice) ∨
    ∀ rest, tooltipSlice? (cs ++ '(' :: rest) = none := by
  -- the search ends within the text, or at the parenthesis behind it
  induction cs using tooltipSlice?.induct with
  | case1 => exact .inr tooltipSlice?_opening
  | case2 => exact .inl ⟨[], [], rfl, tooltipSlice?_closing⟩
  | case3 d hd =>
      refine .inr fun rest => ?_
      rw [List.cons_append, List.nil_append, tooltipSlice?, if_neg (by simpa using hlast)]
      rw [tooltipSlice?_opening]
      simp [hd]
  | case4 d e rest hesc ih =>
      rcases ih fun h => hlast (List.mem_getLast?_cons (List.mem_getLast?_cons h)) with
        ⟨slice, behind, rfl, hany⟩ | hnone
      · refine .inl ⟨d :: e :: slice, behind, rfl, fun rest' => ?_⟩
        rw [List.cons_append, List.cons_append, tooltipSlice?, if_pos hesc, hany]
        rfl
      · refine .inr fun rest' => ?_
        rw [List.cons_append, List.cons_append, tooltipSlice?, if_pos hesc, hnone]
        rfl
  | case5 d e rest hesc hstop =>
      refine .inr fun rest' => ?_
      rw [List.cons_append, List.cons_append, tooltipSlice?, if_neg hesc, if_pos hstop]
  | case6 e rest hesc hstop => exact .inl ⟨[], e :: rest, rfl, tooltipSlice?_closing⟩
  | case7 d e rest hesc hstop hd ih =>
      rcases ih fun h => hlast (List.mem_getLast?_cons h) with
        ⟨slice, behind, hbehind, hany⟩ | hnone
      · refine .inl ⟨d :: slice, behind, congrArg (d :: ·) hbehind, fun rest' => ?_⟩
        rw [List.cons_append, tooltipSlice?_ordinary hesc hstop hd
          (head?_append_cons hbehind.symm rest'), hany]
        rfl
      · refine .inr fun rest' => ?_
        rw [List.cons_append, tooltipSlice?_ordinary hesc hstop hd rfl, hnone]
        rfl

/-! ### Glyphs and their characters -/

/-- How a glyph begins with the character `c` and goes on with the first `n` of those behind. -/
inductive IsGlyph (names : List String) (t : Bool) (c : Char) (rest : List Char) :
    Glyph → ℕ → Prop
  /-- A parenthesis with what is read behind it as a tooltip. -/
  | tooltip {text : String} {n : ℕ} (hc : c = '(') (h : tooltip? names t rest = some (text, n)) :
      IsGlyph names t c rest (.symbol (.tooltip text)) n
  /-- A parenthesis behind which no tooltip is read. -/
  | opening (hc : c = '(') (h : tooltip? names t rest = none) :
      IsGlyph names t c rest (.symbol .opening) 0
  /-- A word with its label. -/
  | word {w : Word} {n : ℕ} (hc : isWordChar c = true) (ha : startsArrow (c :: rest) = false)
      (h : wordAt (c :: rest) = .ok (w, n + 1)) : IsGlyph names t c rest (.symbol (.word w)) n
  /-- An arrow of two characters. -/
  | arrow (h : startsArrow (c :: rest) = true) : IsGlyph names t c rest (.symbol .arrow) 1
  /-- A character that is the same glyph, and no word, whatever stands behind it. -/
  | single {g : Glyph} (hc : c ≠ '(') (hclosing : c = ')' → g = .symbol .closing)
      (hword : ∀ w, g ≠ .symbol (.word w)) (h : ∀ rest', glyphAt names t c rest' = .ok (g, 0)) :
      IsGlyph names t c rest g 0

lemma eq_of_startsArrow {rest : List Char} (h : startsArrow (c :: rest) = true) :
    c = '-' ∧ ∃ rest', rest = '>' :: rest' := by
  rw [startsArrow.eq_def] at h
  split at h
  · next heq =>
      cases heq
      exact ⟨rfl, _, rfl⟩
  · cases h

lemma pos_of_wordAt {rest : List Char} {w : Word} (hc : isWordChar c = true)
    (ha : startsArrow (c :: rest) = false) (h : wordAt (c :: rest) = .ok (w, n)) : 0 < n := by
  have hrun : 0 < (wordRun (c :: rest)).length := by
    rw [wordRun, hc, ha]
    exact Nat.succ_pos _
  rw [wordAt] at h
  split at h
  · split at h <;> cases h
    omega
  · cases h
    exact hrun

/-- What is read is a glyph of one of these kinds. -/
theorem isGlyph_of_glyphAt {rest : List Char} (h : glyphAt names t c rest = .ok (g, n)) :
    IsGlyph names t c rest g n := by
  by_cases hopening : c = '('
  · subst hopening
    cases htip : tooltip? names t rest with
    | none =>
        rw [glyphAt_opening htip] at h
        cases h
        exact .opening rfl htip
    | some r =>
        rw [glyphAt_tooltip htip] at h
        cases h
        exact .tooltip rfl htip
  by_cases ha : startsArrow (c :: rest) = true
  · obtain ⟨rfl, rest', rfl⟩ := eq_of_startsArrow ha
    have hblank : isBlank '-' = false := by decide
    have harrow : glyphAt names t '-' ('>' :: rest') = .ok (.symbol .arrow, 1) := by
      simp [glyphAt, isSpace, startsArrow, hblank]
    rw [harrow] at h
    cases h
    exact .arrow ha
  by_cases hc : isWordChar c = true
  · have harrow : startsArrow (c :: rest) = false := by simpa using ha
    rw [glyphAt_of_isWordChar hc harrow] at h
    obtain ⟨⟨w, m⟩, hw, heq⟩ := map_eq_ok_iff.mp h
    cases heq
    have hpos := pos_of_wordAt hc harrow hw
    exact .word hc harrow (by rwa [Nat.sub_add_cancel hpos])
  -- any other character decides by itself, whatever comes behind it
  · have hhyphen : c ≠ '-' := by
      rintro rfl
      exact hc (by decide)
    have harrow : ∀ rest', startsArrow (c :: rest') = false := fun rest' =>
      Bool.eq_false_iff.mpr fun h => hhyphen (eq_of_startsArrow h).1
    have hsame : ∀ rest', glyphAt names t c rest' = glyphAt names t c rest := by
      intro rest'
      simp only [glyphAt, harrow, hopening, hc, if_false, Bool.false_eq_true]
    obtain ⟨rfl, hword⟩ : n = 0 ∧ ∀ w, g ≠ .symbol (.word w) := by
      simp only [glyphAt, harrow, hopening, hc, if_false, Bool.false_eq_true] at h
      split_ifs at h <;> cases h <;> simp
    refine .single hopening ?_ hword fun rest' => (hsame rest').trans h
    rintro rfl
    have hblank : isBlank ')' = false := by decide
    have hclosing : glyphAt names t ')' rest = .ok (.symbol .closing, 0) := by
      simp [glyphAt, isSpace, startsArrow, hblank]
    cases hclosing.symm.trans h
    rfl

/-- A closing parenthesis in a glyph touches a parenthesis behind it. -/
lemma touchesAfter_of_closing (h : glyphAt names t c (cs ++ after) = .ok (g, cs.length))
    (hclosing : ')' ∈ c :: cs) : touchesAfter t g = true := by
  obtain ⟨n, hn⟩ : ∃ n, cs.length = n := ⟨_, rfl⟩
  rw [hn] at h
  cases isGlyph_of_glyphAt h with
  | tooltip _ _ => rfl
  | opening hc _ =>
      rw [hc, List.eq_nil_of_length_eq_zero hn] at hclosing
      cases List.mem_singleton.mp hclosing
  | word _ _ _ => rfl
  | arrow ha =>
      obtain ⟨rfl, rest, hrest⟩ := eq_of_startsArrow ha
      obtain ⟨d, rfl⟩ := List.length_eq_one_iff.mp hn
      cases hrest
      exact absurd hclosing (by decide)
  | single _ hg _ _ =>
      rw [List.eq_nil_of_length_eq_zero hn, List.mem_singleton] at hclosing
      rw [hg hclosing.symm]
      rfl

/-- A glyph does not end in a backslash. -/
lemma getLast?_ne_of_glyphAt (h : glyphAt names t c (cs ++ after) = .ok (g, cs.length)) :
    (c :: cs).getLast? ≠ some '\\' := by
  intro hlast
  by_cases hc : c = '('
  · subst hc
    obtain ⟨n, hn⟩ : ∃ n, cs.length = n := ⟨_, rfl⟩
    rw [hn] at h
    cases isGlyph_of_glyphAt h with
    | tooltip _ htip =>
        rw [← hn] at htip
        obtain ⟨slice, rfl, -⟩ := exists_of_tooltip? htip
        rw [← List.cons_append, List.getLast?_concat] at hlast
        cases hlast
    | opening _ _ =>
        rw [List.eq_nil_of_length_eq_zero hn] at hlast
        cases hlast
    | word hword _ _ => exact absurd hword (by decide)
    | arrow ha => cases (eq_of_startsArrow ha).1
    | single hne _ _ _ => exact absurd rfl hne
  · have hcs : '\\' ∉ cs := by
      have htake := not_mem_take_glyphAt h hc
      rwa [List.take_left] at htake
    obtain rfl : '\\' = c := (List.mem_cons.mp (List.mem_of_getLast? hlast)).resolve_right hcs
    have hblank : isBlank '\\' = false ∧ isWordChar '\\' = false := by
      decide
    rw [glyphAt, hblank.1, hblank.2] at h
    cases h

/-! ### The same in front of a word and of a parenthesis -/

/-- Whether a word begins with the characters. -/
def BeginsWord (cs : List Char) : Prop :=
  ∃ c rest, cs = c :: rest ∧ isWordChar c = true ∧ startsArrow cs = false

/-- Two characters decide whether an arrow begins. -/
lemma startsArrow_cons_cons (c d : Char) (cs : List Char) :
    startsArrow (c :: d :: cs) = decide (c = '-' ∧ d = '>') := by
  rw [startsArrow.eq_def]
  split
  · next heq =>
      cases heq
      rfl
  · next hne =>
      refine (decide_eq_false ?_).symm
      rintro ⟨rfl, rfl⟩
      exact hne cs rfl

/-- No arrow begins in front of a word or of a parenthesis and goes on in it. -/
lemma startsArrow_in_front (hne : more ≠ []) (h : BeginsWord after) :
    startsArrow (more ++ after) = startsArrow (more ++ '(' :: after') := by
  obtain ⟨c, rest, rfl, hc, -⟩ := h
  cases more with
  | nil => exact absurd rfl hne
  | cons d more =>
      cases more with
      | nil =>
          have hword : startsArrow (d :: c :: rest) = false :=
            startsArrow_eq_false (by simpa using ne_of_isWordChar hc (by decide))
          have hopening : startsArrow (d :: '(' :: after') = false :=
            startsArrow_eq_false (by simp)
          exact hword.trans hopening.symm
      | cons e more => exact (startsArrow_cons_cons d e _).trans (startsArrow_cons_cons d e _).symm

/-- What follows in front of a word follows in front of a parenthesis, if it is not all spaces. -/
lemma wordFollows_in_front (hmore : ¬∀ d ∈ more, isSpace d = true) (h : BeginsWord after) :
    wordFollows (more ++ after) = wordFollows (more ++ '(' :: after') := by
  have hne : more.dropWhile isSpace ≠ [] := by
    rwa [ne_eq, List.dropWhile_eq_nil_iff]
  have hdrop : ∀ x, (more ++ x).dropWhile isSpace = more.dropWhile isSpace ++ x := by
    intro x
    rw [List.dropWhile_append, if_neg (by simpa using hne)]
  have harrow : startsArrow (more.dropWhile isSpace ++ after) =
      startsArrow (more.dropWhile isSpace ++ '(' :: after') :=
    startsArrow_in_front hne h
  obtain ⟨e, rest, hrest⟩ := List.exists_cons_of_ne_nil hne
  rw [hrest] at harrow
  rw [wordFollows, wordFollows, hdrop, hdrop, hrest]
  exact congrArg (isWordChar e && !·) harrow

/-- Whether an arrow begins depends on the next character alone. -/
lemma startsArrow_congr (h : after.head? = after'.head?) :
    startsArrow (c :: after) = startsArrow (c :: after') := by
  cases after with
  | nil =>
      cases after' with
      | nil => rfl
      | cons d after' => cases h
  | cons d after =>
      cases after' with
      | nil => cases h
      | cons d' after' =>
          obtain rfl : d = d' := Option.some.inj h
          rw [startsArrow_cons_cons, startsArrow_cons_cons]

lemma head?_append_congr (h : after.head? = after'.head?) (cs : List Char) :
    (cs ++ after).head? = (cs ++ after').head? := by
  cases cs with
  | nil => exact h
  | cons c cs => rfl

/-- Characters are a word in front of all others that begin alike. -/
lemma wordRun_congr (hhead : after.head? = after'.head?)
    (harrow : startsArrow after = startsArrow after') (h : wordRun (cs ++ after) = cs) :
    wordRun (cs ++ after') = cs := by
  induction cs with
  | nil =>
      cases after with
      | nil =>
          cases after' with
          | nil => rfl
          | cons d after' => cases hhead
      | cons d after =>
          cases after' with
          | nil => rfl
          | cons d' after' =>
              obtain rfl : d = d' := Option.some.inj hhead
              rw [List.nil_append, wordRun] at h ⊢
              rw [← harrow]
              split at h
              · cases h
              · next hd => rw [if_neg hd]
  | cons c cs ih =>
      have hstart : startsArrow (c :: (cs ++ after)) = startsArrow (c :: (cs ++ after')) :=
        startsArrow_congr (head?_append_congr hhead cs)
      rw [List.cons_append, wordRun] at h ⊢
      split at h
      · next hc =>
          rw [if_pos (hstart ▸ hc), ih (List.cons.inj h).2]
      · cases h

/-- A word with its label is read alike in front of all characters that begin alike. -/
lemma wordAt_congr {w : Word} (hhead : after.head? = after'.head?)
    (harrow : startsArrow after = startsArrow after')
    (h : wordAt (cs ++ after) = .ok (w, cs.length)) :
    wordAt (cs ++ after') = .ok (w, cs.length) := by
  obtain ⟨more, hmore⟩ := wordRun_isPrefix (cs ++ after)
  rw [wordAt] at h
  generalize hrun : wordRun (cs ++ after) = run at h hmore
  rw [← hmore, List.drop_left] at h
  split at h
  · next rest =>
      split at h
      · next digits hdigits =>
          obtain ⟨rest, rfl⟩ := eq_append_of_label? hdigits
          obtain ⟨hne, hall⟩ := label?_eq_some hdigits
          obtain ⟨rfl, hlength⟩ := Prod.mk.inj (Except.ok.inj h)
          have hsplit : run ++ '[' :: '*' :: digits ++ [']'] ++ rest = cs ++ after := by
            simpa using hmore
          obtain ⟨rfl, rfl⟩ := List.append_inj hsplit (by simp; omega)
          have hbracket : run ++ '[' :: '*' :: digits ++ [']'] ++ after' =
              run ++ '[' :: ('*' :: (digits ++ ']' :: after')) := by
            simp
          have hrun' : wordRun (run ++ '[' :: ('*' :: (digits ++ ']' :: after'))) = run := by
            have hbefore : wordRun (run ++ '[' :: '*' :: (digits ++ ']' :: rest)) = run := by
              rw [← List.cons_append, hmore, hrun]
            refine wordRun_congr ?_ ?_ hbefore
            · rfl
            · exact (startsArrow_cons_cons _ _ _).trans (startsArrow_cons_cons _ _ _).symm
          rw [hbracket, wordAt, hrun', List.drop_left]
          simp only [label?_append hne hall]
          rw [← hlength]
      · cases h
  · next hne =>
      obtain ⟨rfl, hlength⟩ := Prod.mk.inj (Except.ok.inj h)
      obtain ⟨rfl, rfl⟩ := List.append_inj hmore hlength
      rw [wordAt, wordRun_congr hhead harrow hrun, List.drop_left]
      split
      · next rest =>
          obtain ⟨rest', rfl⟩ := List.head?_eq_some_iff.mp (hhead.trans rfl)
          exact absurd rfl (hne rest')
      · rfl

namespace Passes

variable {ss : List (Option Symbol)}

/-- Across spaces nothing changes. -/
lemma of_spaces (h : Passes names after t cs t' ss) (hcs : ∀ d ∈ cs, isSpace d = true) :
    t' = t := by
  induction h with
  | nil => rfl
  | @cons t t' c cs more g ss h _ ih =>
      have hc : isSpace c = true := hcs c (by simp)
      have hnewline : c ≠ '\n' := by
        rintro rfl
        cases hc
      rw [glyphAt, if_neg hnewline, if_pos hc] at h
      obtain ⟨rfl, -⟩ := Prod.mk.inj (Except.ok.inj h)
      exact ih fun d hd => hcs d (by simp [hd])

/-- Behind a closing parenthesis and spaces, a parenthesis touches something. -/
lemma of_closing {front rest : List Char} (h : Passes names after t cs t' ss)
    (hcs : cs = front ++ ')' :: rest) (hrest : ∀ d ∈ rest, isSpace d = true) : t' = true := by
  induction h generalizing front with
  | nil => cases front <;> cases hcs
  | @cons t t' c cs more g ss h hmore ih =>
      rcases exists_of_append_eq_append_cons hcs with ⟨behind, hc, rfl⟩ | ⟨front', hfront, -⟩
      · rw [hmore.of_spaces fun d hd => hrest d (by simp [hd])]
        exact touchesAfter_of_closing h (by simp [hc])
      · exact ih hfront

/-- Where a parenthesis touches something behind passed characters, an operand ends there, or
nothing stands there and it touches something in front of them. -/
lemma exists_of_touching (h : Passes names after t cs t' ss) (ht' : t' = true) :
    ss = [] ∧ t = true ∨ ∃ s, some s ∈ ss.getLast? ∧ s.endsOperand = true := by
  induction h with
  | nil => exact .inl ⟨rfl, ht'⟩
  | @cons t t' c cs more g ss h _ ih =>
      rcases ih ht' with ⟨rfl, htouches⟩ | ⟨s, hs, hends⟩
      · cases g with
        | space => exact .inl ⟨rfl, htouches⟩
        | gap | lineBreak => cases htouches
        | symbol s => exact .inr ⟨s, rfl, htouches⟩
      · exact .inr ⟨s, List.mem_getLast?_append_of_mem_getLast? hs, hends⟩

/-- Passed characters do not end in a backslash. -/
lemma getLast?_ne (h : Passes names after t cs t' ss) : cs.getLast? ≠ some '\\' := by
  induction h with
  | nil => simp
  | @cons t t' c cs more g ss h _ ih =>
      cases more with
      | nil =>
          rw [List.append_nil]
          exact getLast?_ne_of_glyphAt h
      | cons d more => rwa [List.getLast?_append_of_ne_nil _ (List.cons_ne_nil d more)]

end Passes

/-- One glyph is the same in front of a word and of a parenthesis that touches nothing. -/
theorem glyphAt_in_front {ss : List (Option Symbol)} (hafter : BeginsWord after)
    (h : glyphAt names t c (cs ++ (more ++ after)) = .ok (g, cs.length))
    (hmore : Passes names after (touchesAfter t g) more false ss) (after' : List Char) :
    glyphAt names t c (cs ++ (more ++ '(' :: after')) = .ok (g, cs.length) := by
  obtain ⟨n, hn⟩ : ∃ n, cs.length = n := ⟨_, rfl⟩
  have hglyph := isGlyph_of_glyphAt h
  rw [hn] at hglyph ⊢
  -- each glyph looks ahead in its own way, and what it looks for is there before `after`
  cases hglyph with
  | tooltip hc htip =>
      subst hc
      rw [← hn] at htip
      obtain ⟨slice, rfl, hany⟩ := exists_of_tooltip? htip
      have hfollows : wordFollows (more ++ after) = wordFollows (more ++ '(' :: after') := by
        refine wordFollows_in_front (fun hall => ?_) hafter
        cases hmore.of_spaces hall
      rw [← hn]
      refine glyphAt_tooltip ?_
      rw [← List.append_cons] at htip ⊢
      rw [← tooltip?_congr hany hfollows, htip]
  | opening hc htip =>
      subst hc
      obtain rfl := List.eq_nil_of_length_eq_zero hn
      refine glyphAt_opening ?_
      rw [List.nil_append] at htip ⊢
      rcases tooltipSlice?_in_front hmore.getLast?_ne with ⟨slice, rest, rfl, hany⟩ | hnone
      · have hfollows : wordFollows (rest ++ after) = wordFollows (rest ++ '(' :: after') := by
          refine wordFollows_in_front (fun hall => ?_) hafter
          cases hmore.of_closing rfl hall
        rw [List.append_assoc, List.cons_append] at htip ⊢
        rw [← tooltip?_congr hany hfollows, htip]
      · rw [tooltip?, hnone]
  | @word w n hc ha hw =>
      have hne : more ≠ [] := by
        rintro rfl
        cases hmore
      have hhead : (more ++ after).head? = (more ++ '(' :: after').head? := by
        cases more with
        | nil => exact absurd rfl hne
        | cons d more => rfl
      have hstart : startsArrow (c :: (cs ++ (more ++ '(' :: after'))) = false := by
        rw [← ha]
        exact startsArrow_congr (head?_append_congr hhead cs).symm
      have hword : wordAt (c :: cs ++ (more ++ '(' :: after')) = .ok (w, (c :: cs).length) := by
        refine wordAt_congr hhead (startsArrow_in_front hne hafter) ?_
        rw [List.cons_append, hw, List.length_cons, hn]
      rw [glyphAt_of_isWordChar hc hstart, ← List.cons_append, hword, List.length_cons, hn]
      rfl
  | arrow ha =>
      obtain ⟨rfl, rest, hrest⟩ := eq_of_startsArrow ha
      obtain ⟨d, rfl⟩ := List.length_eq_one_iff.mp hn
      cases hrest
      have hblank : isBlank '-' = false := by decide
      simp [glyphAt, isSpace, startsArrow, hblank]
  | single _ _ _ hall => exact hall _

/-- **A parenthesis that touches nothing changes nothing in front of it.**  Characters that are
passed in front of a word, where a parenthesis would touch nothing, are passed in front of a
parenthesis in the same way. -/
theorem Passes.in_front {ss : List (Option Symbol)} (hafter : BeginsWord after)
    (h : Passes names after t cs t' ss) (ht' : t' = false) (after' : List Char) :
    Passes names ('(' :: after') t cs t' ss := by
  induction h with
  | nil => exact .nil
  | cons h hmore ih =>
      subst ht'
      exact .cons (glyphAt_in_front hafter h hmore after') (ih rfl)

end Lexeme

end AbilityRotation
