import AbilityRotation.Proofs.Descent.Reads
import AbilityRotation.Proofs.Outcome
import AbilityRotation.Proofs.Text.Trimming

/-!
How the symbols of a text are arranged.

What a text can give as a word, label or tooltip is limited (`Symbol.Written`), and so are the
places at which symbols can stand: a tooltip touches an operand on its left or a word on its right,
and a plus stands in front of `spec` behind an operand.
* `Arranged` says of each symbol that it suits its place: whether an operand ends before it, and
  what comes after it.
* `arranged_ofChars`: the symbols of the tokens of a text are arranged as in texts.
-/

namespace AbilityRotation

open Text

/-! ### Characters -/

/-- Whether the character is neither invisible nor the end of a line. -/
def isPlain (c : Char) : Bool :=
  !isLineEnd c && !invisibles.contains c

namespace Lexeme

/-- Characters that stand between words, mark labels, tooltips and settings, or are operators. -/
def separators : List Char :=
  [' ', '\t', '\n', '→', '>', '+', '/', '(', ')', '[', '*', ']', '\\', '#', '"']

/-- Separators are no part of a word and no digit signs. -/
lemma of_mem_separators :
    ∀ c ∈ separators, isWordChar c = false ∧ isDigitSign c = false :=
  List.all_iff_forall_prop.mp (by decide +kernel)

lemma isWordChar_separator {c : Char} (h : c ∈ separators) : isWordChar c = false :=
  (of_mem_separators c h).1

lemma isDigitSign_separator {c : Char} (h : c ∈ separators) : isDigitSign c = false :=
  (of_mem_separators c h).2

lemma ne_of_isWordChar {c d : Char} (hc : isWordChar c = true) (hd : d ∈ separators) : c ≠ d := by
  rintro rfl
  rw [isWordChar_separator hd] at hc
  cases hc

lemma ne_of_isDigitSign {c d : Char} (hc : isDigitSign c = true) (hd : d ∈ separators) :
    c ≠ d := by
  rintro rfl
  rw [isDigitSign_separator hd] at hc
  cases hc

/-- Digit signs are plain. -/
lemma isPlain_of_isDigitSign {c : Char} (h : isDigitSign c = true) : isPlain c = true := by
  have hall : ∀ c ∈ lineEnds ++ invisibles, isDigitSign c = false :=
    List.all_iff_forall_prop.mp (by decide)
  by_contra hp
  rw [isPlain, Bool.and_eq_true, Bool.not_eq_true', Bool.not_eq_true', isLineEnd,
    List.contains_eq_mem, List.contains_eq_mem, decide_eq_false_iff_not, decide_eq_false_iff_not,
    ← not_or, not_not, ← List.mem_append] at hp
  rw [hall c hp] at h
  cases h

/-- Word characters are not blank. -/
lemma isBlank_of_isWordChar {c : Char} (h : isWordChar c = true) : isBlank c = false := by
  have hcodes : ∀ n ∈ CodeRange.codes blankRuns,
      CodeRange.coverCode alphanumericRuns n = false ∧ n ∉ [95, 45, 39, 46] := by
    decide +kernel
  by_contra hb
  rw [Bool.not_eq_false] at hb
  obtain ⟨ha, hs⟩ := hcodes _ (CodeRange.mem_codes hb)
  simp only [isWordChar, isAlphanumeric, CodeRange.cover, ha, Bool.or_eq_true, decide_eq_true_eq,
    Bool.false_eq_true, false_or] at h
  rcases h with ((rfl | rfl) | rfl) | rfl <;> exact absurd (by decide) hs

lemma isSpace_of_isWordChar {c : Char} (hc : isWordChar c = true) : isSpace c = false := by
  simp [isSpace, ne_of_isWordChar hc (by decide : ' ' ∈ separators),
    ne_of_isWordChar hc (by decide : '\t' ∈ separators)]

/-- A word character does not begin an arrow if another word character, or nothing that could
complete the arrow, follows. -/
lemma startsArrow_eq_false {c : Char} {cs : List Char} (h : cs.head? ≠ some '>') :
    startsArrow (c :: cs) = false := by
  rw [startsArrow.eq_def]
  split
  · next heq =>
      simp only [List.cons.injEq] at heq
      obtain ⟨rfl, rfl⟩ := heq
      exact absurd rfl h
  · rfl

lemma isWordChar_of_mem_wordRun {cs : List Char} {c : Char} (h : c ∈ wordRun cs) :
    isWordChar c = true ∧ c ∈ cs := by
  induction cs with
  | nil => cases h
  | cons d cs ih =>
      rw [wordRun] at h
      split at h
      · next hd =>
          rw [Bool.and_eq_true] at hd
          rcases List.mem_cons.mp h with rfl | h
          · exact ⟨hd.1, List.mem_cons_self⟩
          · exact ⟨(ih h).1, List.mem_cons_of_mem _ (ih h).2⟩
      · cases h

lemma label?_eq_some {cs ds : List Char} (h : label? cs = some ds) :
    ds ≠ [] ∧ ∀ c ∈ ds, isDigitSign c = true := by
  rw [label?] at h
  split at h
  · split at h
    · next hd =>
        cases h
        simpa only [Bool.and_eq_true, Bool.not_eq_true', List.isEmpty_eq_false_iff,
          List.all_eq_true] using hd
    · cases h
  · cases h

/-- The characters of a tooltip are those of the text, and it is all on one line. -/
lemma mem_of_mem_tooltipSlice {cs slice : List Char} (h : tooltipSlice? cs = some slice) {c : Char}
    (hc : c ∈ slice) : c ∈ cs ∧ c ≠ '\n' := by
  induction cs using tooltipSlice?.induct generalizing slice with
  | case1 => cases h
  | case2 => cases h; cases hc
  | case3 d hd =>
      rw [tooltipSlice?, if_neg hd] at h
      cases h
  | case4 d e rest hesc ih =>
      rw [tooltipSlice?, if_pos hesc] at h
      obtain ⟨more, hmore, rfl⟩ := Option.map_eq_some_iff.mp h
      obtain ⟨rfl, he⟩ := hesc
      rcases List.mem_cons.mp hc with rfl | hc
      · exact ⟨List.mem_cons_self, by decide⟩
      · rcases List.mem_cons.mp hc with rfl | hc
        · exact ⟨by simp, by rcases he with rfl | rfl <;> decide⟩
        · have := ih hmore hc
          exact ⟨by simp [this.1], this.2⟩
  | case5 d e rest _ hstop =>
      rw [tooltipSlice?, if_neg ‹_›, if_pos hstop] at h
      cases h
  | case6 e rest _ _ =>
      rw [tooltipSlice?, if_neg ‹_›, if_neg ‹_›, if_pos rfl] at h
      cases h
      cases hc
  | case7 d e rest _ hstop hd ih =>
      rw [tooltipSlice?, if_neg ‹_›, if_neg hstop, if_neg hd] at h
      obtain ⟨more, hmore, rfl⟩ := Option.map_eq_some_iff.mp h
      rcases List.mem_cons.mp hc with rfl | hc
      · exact ⟨List.mem_cons_self, fun h => hstop (.inr h)⟩
      · have := ih hmore hc
        exact ⟨List.mem_cons_of_mem _ this.1, this.2⟩

lemma mem_of_mem_unescape {cs : List Char} {c : Char} (h : c ∈ unescape cs) : c ∈ cs := by
  induction cs using unescape.induct with
  | case1 => cases h
  | case2 d => exact h
  | case3 d e rest hesc ih =>
      rw [unescape, if_pos hesc] at h
      rcases List.mem_cons.mp h with rfl | h
      · simp
      · simp [ih h]
  | case4 d e rest hesc ih =>
      rw [unescape, if_neg hesc] at h
      rcases List.mem_cons.mp h with rfl | h
      · simp
      · exact List.mem_cons_of_mem _ (ih h)

end Lexeme

/-! ### What symbols a text gives -/

open Lexeme

/-- What the words and tooltips of texts look like, where the given texts are names in lower
case. -/
def Symbol.Written (names : List String) : Symbol → Prop
  | .word w =>
      (w.key.toList ≠ [] ∧ ∀ c ∈ w.key.toList, isWordChar c = true ∧ isPlain c = true) ∧
        ∀ label ∈ w.label,
          label.toList ≠ [] ∧ ∀ c ∈ label.toList, isDigitSign c = true ∧ isPlain c = true
  | .tooltip text =>
      text.toList ≠ [] ∧ Tight text.toList ∧ hasOperator text.toList = false ∧
        names.contains (String.ofList (lowerCaseAfter false text.toList)) = false ∧
        ∀ c ∈ text.toList, isPlain c = true
  | _ => True

namespace Lexeme

variable {names : List String} {touching : Bool} {c : Char} {cs rest : List Char} {n : ℕ}

/-- Characters of the expression of a text: on its lines they are plain. -/
def PlainLines (cs : List Char) : Prop :=
  ∀ c ∈ cs, c = '\n' ∨ isPlain c = true

lemma PlainLines.of_subset {ds : List Char} (h : PlainLines cs) (hd : ∀ c ∈ ds, c ∈ cs) :
    PlainLines ds :=
  fun c hc => h c (hd c hc)

lemma isPlain_of_isWordChar (hp : PlainLines cs) (hc : c ∈ cs) (hw : isWordChar c = true) :
    isPlain c = true :=
  (hp c hc).resolve_left (ne_of_isWordChar hw (by decide))

/-- The key of a word is the run of word characters. -/
lemma key_of_wordAt {w : Word} (h : wordAt cs = .ok (w, n)) : w.key.toList = wordRun cs := by
  rw [wordAt] at h
  split at h
  · split at h
    · cases h
      exact String.toList_ofList
    · cases h
  · cases h
    exact String.toList_ofList

/-- The label of a word is made of digit signs. -/
lemma isDigitSign_of_wordAt {w : Word} (h : wordAt cs = .ok (w, n)) :
    ∀ label ∈ w.label, label.toList ≠ [] ∧ ∀ c ∈ label.toList, isDigitSign c = true := by
  intro label hlabel
  rw [wordAt] at h
  split at h
  · split at h
    · next digits hdigits =>
        cases h
        cases hlabel
        rw [String.toList_ofList]
        exact label?_eq_some hdigits
    · cases h
  · cases h
    cases hlabel

lemma written_wordAt {w : Word} (h : wordAt (c :: rest) = .ok (w, n)) (hp : PlainLines (c :: rest))
    (hc : isWordChar c = true) (ha : startsArrow (c :: rest) = false) :
    (Symbol.word w).Written names := by
  have hrun : wordRun (c :: rest) ≠ [] := by
    rw [wordRun, hc, ha]
    simp
  refine ⟨⟨by rwa [key_of_wordAt h], fun d hd => ?_⟩, fun label hlabel => ?_⟩
  · rw [key_of_wordAt h] at hd
    obtain ⟨hword, hmem⟩ := isWordChar_of_mem_wordRun hd
    exact ⟨hword, isPlain_of_isWordChar hp hmem hword⟩
  · obtain ⟨hne, hdigits⟩ := isDigitSign_of_wordAt h label hlabel
    exact ⟨hne, fun d hd => ⟨hdigits d hd, isPlain_of_isDigitSign (hdigits d hd)⟩⟩

/-- What is read as a tooltip is the text before the closing parenthesis, without escapes and
blanks around it, if it is a text for a tooltip and the parentheses touch something. -/
lemma tooltip?_eq_some_iff {text : String} :
    tooltip? names touching cs = some (text, n) ↔
      ∃ slice, tooltipSlice? cs = some slice ∧ n = slice.length + 1 ∧
        text.toList = trimChars (unescape slice) ∧ text.toList ≠ [] ∧
          hasOperator text.toList = false ∧ lowerCase text ∉ names ∧
            (touching = true ∨ wordFollows (cs.drop n) = true) := by
  rw [tooltip?]
  cases hslice : tooltipSlice? cs with
  | none => simp
  | some slice =>
      simp only [Option.ite_none_right_eq_some, Option.some.injEq, Prod.mk.injEq,
        Bool.and_eq_true, Bool.or_eq_true, Bool.not_eq_true', List.isEmpty_eq_false_iff,
        List.contains_eq_mem, decide_eq_false_iff_not, exists_eq_left']
      constructor
      · rintro ⟨⟨⟨⟨hne, hop⟩, hname⟩, htouch⟩, rfl, rfl⟩
        refine ⟨rfl, String.toList_ofList, ?_⟩
        rw [lowerCase, String.toList_ofList]
        exact ⟨hne, hop, hname, htouch⟩
      · rintro ⟨rfl, htext, hne, hop, hname, htouch⟩
        rw [← htext, String.ofList_toList]
        exact ⟨⟨⟨⟨hne, hop⟩, hname⟩, htouch⟩, rfl, rfl⟩

lemma written_tooltip? {text : String} (h : tooltip? names touching rest = some (text, n))
    (hp : PlainLines rest) :
    (Symbol.tooltip text).Written names ∧
      (touching = true ∨ wordFollows (rest.drop n) = true) := by
  obtain ⟨slice, hslice, -, htext, hne, hop, hname, htouch⟩ := tooltip?_eq_some_iff.mp h
  refine ⟨⟨hne, htext ▸ tight_trimChars _, hop, by simpa [lowerCase] using hname,
    fun d hd => ?_⟩, htouch⟩
  rw [htext] at hd
  have hd := mem_of_mem_tooltipSlice hslice (mem_of_mem_unescape (mem_of_mem_trimChars hd))
  exact (hp d hd.1).resolve_left hd.2

/-- What is read as a symbol looks like one, and a tooltip touches something. -/
lemma written_glyphAt {s : Symbol} (h : glyphAt names touching c rest = .ok (.symbol s, n))
    (hp : PlainLines (c :: rest)) :
    s.Written names ∧
      ∀ text, s = .tooltip text → touching = true ∨ wordFollows (rest.drop n) = true := by
  rw [glyphAt] at h
  iterate 4 (split at h; · cases h <;> exact ⟨trivial, by simp⟩)
  split at h
  · cases h
    exact ⟨trivial, by simp⟩
  · next harrow =>
      iterate 3 (split at h; · cases h; exact ⟨trivial, by simp⟩)
      split at h
      · split at h
        · next ht =>
            cases h
            obtain ⟨hw, htouch⟩ :=
              written_tooltip? ht (hp.of_subset fun d hd => List.mem_cons_of_mem _ hd)
            exact ⟨hw, fun _ _ => htouch⟩
        · cases h
          exact ⟨trivial, by simp⟩
      · split at h
        · next hc =>
            obtain ⟨r, hw, heq⟩ := map_eq_ok_iff.mp h
            cases heq
            exact ⟨written_wordAt hw hp hc (by simpa using harrow), by simp⟩
        · cases h

/-! ### The lexemes of a text -/

/-- How lexemes of a text are arranged; `behind` says whether an operand ends before them. -/
def ArrangedLexemes (names : List String) : (behind : Bool) → List Lexeme → Prop
  | _, [] => True
  | _, ⟨none, _, _⟩ :: rest => ArrangedLexemes names false rest
  | behind, ⟨some s, _, _⟩ :: rest =>
      s.Written names ∧
        (∀ text, s = .tooltip text →
          behind = true ∨ ∃ w, (rest.head?.bind (·.symbol)) = some (.word w)) ∧
        ArrangedLexemes names s.endsOperand rest

/-- A space yields no lexeme and keeps what touches what. -/
lemma scan_space (pos : ℕ) (hc : isSpace c = true) :
    scan names touching pos (c :: rest) = scan names touching (pos + 1) rest := by
  have hnl : c ≠ '\n' := by
    rintro rfl
    cases hc
  rw [scan, glyphAt, if_neg hnl, if_pos hc]
  simp only [touchesAfter, ofGlyph?, Option.toList_none, List.nil_append, List.drop_zero,
    Nat.add_zero]
  cases scan names touching (pos + 1) rest <;> rfl

/-- A character that begins a word is read as a word, if it can be read. -/
lemma glyphAt_of_isWordChar (hc : isWordChar c = true) (ha : startsArrow (c :: rest) = false) :
    glyphAt names touching c rest =
      (wordAt (c :: rest)).map fun (word, n) => (.symbol (.word word), n - 1) := by
  rw [glyphAt, if_neg (ne_of_isWordChar hc (by decide)), isSpace_of_isWordChar hc,
    isBlank_of_isWordChar hc, ha, hc]
  simp [ne_of_isWordChar hc (by decide : '→' ∈ separators),
    ne_of_isWordChar hc (by decide : '+' ∈ separators),
    ne_of_isWordChar hc (by decide : '/' ∈ separators),
    ne_of_isWordChar hc (by decide : ')' ∈ separators),
    ne_of_isWordChar hc (by decide : '(' ∈ separators)]

/-- Where a word begins after spaces, a word is the next lexeme. -/
lemma head_of_wordFollows {pos : ℕ} {ls : List Lexeme} (hw : wordFollows cs = true)
    (h : scan names touching pos cs = .ok ls) :
    ∃ w, (ls.head?.bind (·.symbol)) = some (.word w) := by
  induction cs generalizing pos with
  | nil => cases hw
  | cons c cs ih =>
      by_cases hc : isSpace c = true
      · rw [scan_space pos hc] at h
        refine ih ?_ h
        rwa [wordFollows, List.dropWhile_cons_of_pos hc, ← wordFollows] at hw
      · rw [wordFollows, List.dropWhile_cons_of_neg hc] at hw
        simp only [Bool.and_eq_true, Bool.not_eq_true'] at hw
        rw [scan, glyphAt_of_isWordChar hw.1 hw.2] at h
        cases hat : wordAt (c :: cs) with
        | error e =>
            rw [hat] at h
            cases h
        | ok r =>
            rw [hat] at h
            obtain ⟨more, -, rfl⟩ := map_eq_ok_iff.mp h
            exact ⟨r.1, rfl⟩

/-- The lexemes of a text are arranged as they have to be. -/
lemma arrangedLexemes_scan {pos : ℕ} {ls : List Lexeme} {behind : Bool}
    (h : scan names touching pos cs = .ok ls) (hp : PlainLines cs)
    (hb : touching = true → behind = true) : ArrangedLexemes names behind ls := by
  induction touching, pos, cs using scan.induct names generalizing ls behind with
  | case1 touching pos =>
      rw [scan] at h
      cases h
      trivial
  | case2 touching pos c rest cause offset hg =>
      rw [scan, hg] at h
      cases h
  | case3 touching pos c rest glyph n hg ih =>
      rw [scan, hg] at h
      simp only at h
      have hrest : PlainLines (rest.drop n) :=
        hp.of_subset fun d hd => List.mem_cons_of_mem _ ((List.drop_sublist n rest).subset hd)
      obtain ⟨more, hs, rfl⟩ := map_eq_ok_iff.mp h
      -- a tooltip touches what is right before it, blanks aside, so it stands behind an operand
      cases glyph with
      | space => exact ih hs hrest hb
      | gap => exact ih hs hrest (by simp [touchesAfter])
      | lineBreak => exact @ih more false hs hrest (by simp [touchesAfter])
      | symbol s =>
          obtain ⟨hw, htouch⟩ := written_glyphAt hg hp
          refine ⟨hw, fun text ht => ?_, ih hs hrest id⟩
          rcases htouch text ht with ht | ht
          · exact .inl (hb ht)
          · exact .inr (head_of_wordFollows ht hs)

end Lexeme

/-! ### The tokens of a text -/

/-- Whether each symbol suits its place, where an operand may end before the first of them. -/
def Arranged (suits : (behind : Bool) → Symbol → (next : Option Symbol) → Prop) :
    (behind : Bool) → List Symbol → Prop
  | _, [] => True
  | behind, s :: rest => suits behind s rest.head? ∧ Arranged suits s.endsOperand rest

/-- What suits its place anywhere has a property of its own, if that follows wherever it is. -/
lemma Arranged.forall_mem {suits : Bool → Symbol → Option Symbol → Prop} {property : Symbol → Prop}
    (hsuits : ∀ behind s next, suits behind s next → property s) {behind : Bool}
    {ss : List Symbol} (h : Arranged suits behind ss) : ∀ s ∈ ss, property s := by
  induction ss generalizing behind with
  | nil => exact fun s hs => absurd hs List.not_mem_nil
  | cons s ss ih =>
      intro t ht
      rcases List.mem_cons.mp ht with rfl | ht
      · exact hsuits _ _ _ h.1
      · exact ih h.2 t ht

/-- Whether a symbol suits its place among the tokens of a text: `spec` does not follow an operand,
and a tooltip follows an operand or has a word behind it, perhaps with a plus between. -/
structure SuitsText (names : List String) (behind : Bool) (s : Symbol) (next : Option Symbol) :
    Prop where
  /-- The symbol looks like one that is written. -/
  written : s.Written names
  /-- The word `spec` has a plus in front of it. -/
  spec : behind = true → Token.isSpec s = false
  /-- A tooltip touches something. -/
  tooltip : ∀ text, s = .tooltip text →
    behind = true ∨ next = some .plus ∨ ∃ w, next = some (.word w)

lemma suitsText_arrow {names : List String} {behind : Bool} {next : Option Symbol} :
    SuitsText names behind .arrow next :=
  ⟨trivial, fun _ => rfl, by simp⟩

lemma suitsText_plus {names : List String} {behind : Bool} {next : Option Symbol} :
    SuitsText names behind .plus next :=
  ⟨trivial, fun _ => rfl, by simp⟩

/-- In front of the next token there may be a plus, if the next lexeme is a word. -/
lemma head?_insertPluses {ls : List Lexeme} (before : Option Symbol) {w : Word}
    (h : (ls.head?.bind (·.symbol)) = some (.word w)) :
    (Token.symbols (Token.insertPluses before (Token.ofLexemes before ls))).head? = some .plus ∨
      (Token.symbols (Token.insertPluses before (Token.ofLexemes before ls))).head? =
        some (.word w) := by
  cases ls with
  | nil => cases h
  | cons l ls =>
      obtain ⟨_ | s, start, stop⟩ := l
      · cases h
      · cases h
        rw [Token.ofLexemes, Token.insertPluses]
        split
        · exact .inl rfl
        · exact .inr rfl

lemma arranged_insertPluses {names : List String} {ls : List Lexeme} {behind : Bool}
    {before : Option Symbol} (h : Lexeme.ArrangedLexemes names behind ls)
    (hb : behind = true → before.any Symbol.endsOperand = true) :
    Arranged (SuitsText names) (before.any Symbol.endsOperand)
      (Token.symbols (Token.insertPluses before (Token.ofLexemes before ls))) := by
  induction ls generalizing behind before with
  | nil => trivial
  | cons l ls ih =>
      obtain ⟨_ | s, start, stop⟩ := l
      · rw [Token.ofLexemes]
        split
        · exact ⟨suitsText_arrow, @ih _ (some .arrow) h (by simp)⟩
        · exact ih h (by simp)
      · obtain ⟨hw, htip, hrest⟩ := h
        have hih := @ih _ (some s) hrest id
        rw [Token.ofLexemes, Token.insertPluses]
        split
        · next hspec =>
            -- a plus is put in front, so that nothing ends right before the word
            have hs : ∀ text, s ≠ .tooltip text := by
              rintro text rfl
              simp [Token.isSpec] at hspec
            exact ⟨suitsText_plus, ⟨hw, by simp [Symbol.endsOperand],
              fun text ht => absurd ht (hs text)⟩, hih⟩
        · next hspec =>
            refine ⟨⟨hw, fun hbefore => by simpa [hbefore] using hspec, fun text ht => ?_⟩, hih⟩
            rcases htip text ht with hbehind | ⟨w, hnext⟩
            · exact .inl (hb hbehind)
            · rcases head?_insertPluses (some s) hnext with hn | hn
              · exact .inr (.inl hn)
              · exact .inr (.inr ⟨w, hn⟩)

/-- **The tokens of a text are arranged.**  Their words, labels and tooltips are such as texts give
them, `spec` never follows an operand, and a tooltip that follows no operand has a word behind
it. -/
theorem arranged_ofChars {names : List String} {cs : List Char} {ts : List Token}
    (h : Token.ofChars names cs = .ok ts) (hp : Lexeme.PlainLines cs) :
    Arranged (SuitsText (names.map lowerCase)) false (Token.symbols ts) := by
  obtain ⟨ls, hs, rfl⟩ := map_eq_ok_iff.mp h
  have hls : Lexeme.ArrangedLexemes (names.map lowerCase) false ls :=
    Lexeme.arrangedLexemes_scan hs hp id
  exact @arranged_insertPluses _ _ false none hls (by simp)

end AbilityRotation
