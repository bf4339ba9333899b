import AbilityRotation.Proofs.Settings.Interleaving

/-!
Insertions into texts.

The expression of a text is what remains of it: invisible characters, quotes, blanks and settings
lines are taken away.  What is inserted into the expression in front of a word can therefore be
inserted into the text, and nothing else changes.
* `Insertable`: what can be inserted, plain characters that begin with a parenthesis.
* `Locates`: a cleaning of characters that commutes with insertions in front of word characters.
* `locates_sanitize` and `exists_of_lines_eq`: the cleaning of texts and their lines.
* `exists_ofText_inserted`: the insertion into a text.
-/

namespace AbilityRotation

open Text Lexeme

variable {cs a b x : List Char} {c : Char}

/-! ### Characters that are inserted -/

/-- What can be inserted in front of words: plain characters that begin with a parenthesis. -/
structure Insertable (x : List Char) : Prop where
  /-- It begins with a parenthesis. -/
  head : ∃ y, x = '(' :: y
  /-- It has no line ends and no invisible characters. -/
  plain : ∀ c ∈ x, isPlain c = true

/-- Whether what is inserted into the result, in front of a word character, can be inserted before
into what the result is made of. -/
def Locates (x : List Char) (f : List Char → List Char) : Prop :=
  ∀ ⦃cs a c b⦄, isWordChar c = true → f cs = a ++ c :: b →
    ∃ p q, cs = p ++ c :: q ∧ f (p ++ (x ++ c :: q)) = a ++ (x ++ c :: b)

lemma Locates.comp {f g : List Char → List Char} (hf : Locates x f) (hg : Locates x g) :
    Locates x (f ∘ g) := by
  intro cs a c b hc h
  obtain ⟨p, q, hpq, hinserted⟩ := hf hc h
  obtain ⟨p', q', rfl, hinserted'⟩ := hg hc hpq
  exact ⟨p', q', rfl, by rw [Function.comp_apply, hinserted', hinserted]⟩

/-! ### Cleaning -/

lemma locates_removeInvisibles (hx : Insertable x) : Locates x removeInvisibles := by
  intro cs a c b _ h
  have hkept : removeInvisibles x = x := removeInvisibles_eq_self fun d hd => .inr (hx.plain d hd)
  obtain ⟨p, rest, rfl, rfl, hrest⟩ := List.filter_eq_append_iff.mp h
  obtain ⟨dropped, q, rfl, hdropped, hc, rfl⟩ := List.filter_eq_cons_iff.mp hrest
  have hnil : removeInvisibles dropped = [] := List.filter_eq_nil_iff.mpr hdropped
  have happend : ∀ y z : List Char,
      removeInvisibles (y ++ z) = removeInvisibles y ++ removeInvisibles z :=
    fun y z => List.filter_append y z
  have hword : removeInvisibles (c :: q) = c :: removeInvisibles q := List.filter_cons_of_pos hc
  refine ⟨p ++ dropped, q, by simp, ?_⟩
  rw [happend, happend, happend, hnil, hkept, hword, List.append_nil]
  rfl

/-- Blanks around characters are trimmed away. -/
lemma exists_blanks_trimChars (cs : List Char) :
    ∃ front back, cs = front ++ trimChars cs ++ back ∧ (∀ d ∈ front, isBlank d = true) ∧
      ∀ d ∈ back, isBlank d = true := by
  refine ⟨cs.takeWhile isBlank, ((trimFront cs).reverse.takeWhile isBlank).reverse, ?_,
    fun d hd => List.mem_takeWhile_imp hd, fun d hd => ?_⟩
  · rw [List.append_assoc, trimChars, trimBack, ← List.reverse_append,
      List.takeWhile_append_dropWhile, List.reverse_reverse, trimFront,
      List.takeWhile_append_dropWhile]
  · exact List.mem_takeWhile_imp (List.mem_reverse.mp hd)

lemma trimChars_append_blanks {back : List Char} (h : ∀ d ∈ back, isBlank d = true) :
    trimChars (cs ++ back) = trimChars cs := by
  induction back using List.reverseRecOn with
  | nil => rw [List.append_nil]
  | append_singleton back d ih =>
      rw [← List.append_assoc, trimChars_concat (h d (by simp)), ih fun e he => h e (by simp [he])]

lemma trimChars_blanks_append {front : List Char} (h : ∀ d ∈ front, isBlank d = true) :
    trimChars (front ++ cs) = trimChars cs := by
  rw [trimChars, trimFront, List.dropWhile_append_of_pos h]
  rfl

/-- Around a character that is not blank, the two sides are trimmed. -/
lemma trimChars_append_cons (hc : isBlank c = false) :
    trimChars (a ++ c :: b) = trimFront a ++ c :: trimBack b := by
  have hfront : trimFront (a ++ c :: b) = trimFront a ++ c :: b := by
    rw [trimFront, List.dropWhile_append]
    split
    · next hnil =>
        rw [List.dropWhile_cons_of_neg (by simp [hc]), trimFront, List.isEmpty_iff.mp hnil]
        rfl
    · rfl
  rw [trimChars, hfront, trimBack_append_cons hc]

/-- Around what is inserted in front of a word, the two sides are trimmed. -/
lemma trimChars_inserted (hx : Insertable x) (hc : isWordChar c = true) :
    trimChars (a ++ (x ++ c :: b)) = trimFront a ++ (x ++ c :: trimBack b) := by
  obtain ⟨y, rfl⟩ := hx.head
  rw [List.cons_append, trimChars_append_cons (by decide),
    trimBack_append_cons (isBlank_of_isWordChar hc), List.cons_append]

lemma locates_trimChars (hx : Insertable x) : Locates x trimChars := by
  intro cs a c b hc h
  obtain ⟨front, back, hcs, hfront, hback⟩ := exists_blanks_trimChars cs
  have htrimmed : trimFront a ++ c :: trimBack b = a ++ c :: b := by
    rw [← trimChars_append_cons (isBlank_of_isWordChar hc), ← h,
      trimChars_eq_self (tight_trimChars cs)]
  -- nothing is trimmed on either side, since nothing is on both
  have hshort : (trimFront a).length ≤ a.length ∧ (trimBack b).length ≤ b.length := by
    refine ⟨(List.dropWhile_sublist _).length_le, ?_⟩
    rw [trimBack, List.length_reverse]
    exact (List.dropWhile_sublist _).length_le.trans_eq List.length_reverse
  have hlength := congrArg List.length htrimmed
  simp only [List.length_append, List.length_cons] at hlength
  obtain ⟨ha, hb⟩ := List.append_inj htrimmed (by omega)
  refine ⟨front ++ a, b ++ back, by rw [hcs, h]; simp, ?_⟩
  have hparts : front ++ a ++ (x ++ c :: (b ++ back)) = front ++ (a ++ (x ++ c :: b) ++ back) := by
    simp
  rw [hparts, trimChars_blanks_append hfront, trimChars_append_blanks hback,
    trimChars_inserted hx hc, ha, (List.cons.inj hb).2]

/-- What stands inside of quotes. -/
lemma insideQuotes?_eq_some_iff {inside : List Char} :
    insideQuotes? cs = some inside ↔ cs = '"' :: (inside ++ ['"']) := by
  constructor
  · intro h
    rw [insideQuotes?.eq_def] at h
    split at h
    · next rest =>
        split at h
        · next hlast =>
            obtain rfl := Option.some.inj h
            rw [List.dropLast_append_getLast? _ hlast]
        · cases h
    · cases h
  · rintro rfl
    rw [insideQuotes?, if_pos List.getLast?_concat, List.dropLast_concat]

/-- Characters in quotes, with blanks around them, lose their quotes. -/
lemma stripQuotes_quoted {front inside back : List Char} (hfront : ∀ d ∈ front, isBlank d = true)
    (hback : ∀ d ∈ back, isBlank d = true) :
    stripQuotes (front ++ ('"' :: (inside ++ ['"'])) ++ back) = trimChars inside := by
  have hquote : isBlank '"' = false := by decide
  have htight : Tight ('"' :: (inside ++ ['"'])) := by
    refine ⟨hquote, ?_⟩
    rw [← List.cons_append, List.getLast?_concat]
    exact hquote
  rw [stripQuotes, trimChars_append_blanks hback, trimChars_blanks_append hfront,
    trimChars_eq_self htight, insideQuotes?_eq_some_iff.mpr rfl]

/-- Characters that are not in quotes are not in quotes with an insertion either. -/
lemma insideQuotes?_inserted (hx : Insertable x) (hc : isWordChar c = true)
    (h : insideQuotes? (trimChars (a ++ c :: b)) = none) :
    insideQuotes? (trimChars (a ++ (x ++ c :: b))) = none := by
  rw [Option.eq_none_iff_forall_ne_some] at h ⊢
  intro inside hinside
  rw [insideQuotes?_eq_some_iff, trimChars_inserted hx hc] at hinside
  obtain ⟨y, rfl⟩ := hx.head
  -- the opening quote stands in front of the insertion, which begins with a parenthesis
  cases hfront : trimFront a with
  | nil =>
      rw [hfront] at hinside
      cases hinside
  | cons d front =>
      rw [hfront] at hinside
      obtain ⟨rfl, hrest⟩ := List.cons.inj hinside
      have hsplit : (front ++ '(' :: y) ++ c :: trimBack b = inside ++ ['"'] :=
        (List.append_assoc _ _ _).trans hrest
      -- the closing quote stands behind `c`, so both are there without the insertion as well
      rcases List.eq_nil_or_concat (trimBack b) with hback | ⟨back, e, hback⟩
      · rw [hback] at hsplit
        exact ne_of_isWordChar hc (by decide) (List.cons.inj (List.append_inj' hsplit rfl).2).1
      · rw [hback, List.concat_eq_append, ← List.cons_append, ← List.append_assoc] at hsplit
        obtain rfl := (List.cons.inj (List.append_inj' hsplit rfl).2).1
        refine h (front ++ c :: back) (insideQuotes?_eq_some_iff.mpr ?_)
        rw [trimChars_append_cons (isBlank_of_isWordChar hc), hfront, hback]
        simp

lemma locates_stripQuotes (hx : Insertable x) : Locates x stripQuotes := by
  intro cs a c b hc h
  obtain ⟨front, back, hcs, hfront, hback⟩ := exists_blanks_trimChars cs
  cases hinside : insideQuotes? (trimChars cs) with
  | some inside =>
      rw [stripQuotes, hinside] at h
      obtain ⟨p, q, rfl, hinserted⟩ := locates_trimChars hx hc h
      rw [insideQuotes?_eq_some_iff.mp hinside] at hcs
      refine ⟨front ++ '"' :: p, q ++ '"' :: back, by rw [hcs]; simp, ?_⟩
      have hparts : front ++ '"' :: p ++ (x ++ c :: (q ++ '"' :: back)) =
          front ++ ('"' :: (p ++ (x ++ c :: q) ++ ['"'])) ++ back := by
        simp
      rw [hparts, stripQuotes_quoted hfront hback, hinserted]
  | none =>
      rw [stripQuotes, hinside] at h
      refine ⟨a, b, h, ?_⟩
      rw [stripQuotes, insideQuotes?_inserted hx hc (by rw [← h, hinside])]

lemma locates_sanitize (hx : Insertable x) : Locates x sanitize :=
  (locates_stripQuotes hx).comp (locates_removeInvisibles hx)

/-! ### Lines -/

/-- A character that ends no line stands in front of the first line. -/
lemma lines_cons {line : List Char} {more : List (List Char)} (hc : isLineEnd c = false)
    (h : lines cs = line :: more) : lines (c :: cs) = (c :: line) :: more := by
  have hreturn : c ≠ '\r' := by
    rintro rfl
    cases hc
  rw [lines, if_neg (by simp [hc]), h]
  rintro rest rfl
  exact absurd rfl hreturn

lemma lines_append {line : List Char} {more : List (List Char)}
    (hx : ∀ d ∈ x, isLineEnd d = false) (h : lines cs = line :: more) :
    lines (x ++ cs) = (x ++ line) :: more := by
  induction x with
  | nil => exact h
  | cons d x ih =>
      exact lines_cons (hx d List.mem_cons_self) (ih fun e he => hx e (List.mem_cons_of_mem _ he))

/-- A line end ends a line in front of all characters that begin alike. -/
lemma lines_cons_end {cs' : List Char} (hc : isLineEnd c = true)
    (hne : ∀ rest, c = '\r' → cs' = '\n' :: rest → False) : lines (c :: cs') = [] :: lines cs' := by
  rw [lines, if_pos hc]
  exact hne

/-- A character of a line is one of the text, and what is inserted in front of it without line ends
is inserted into its line. -/
lemma exists_of_lines_eq {u v : List Char} {ls ls' : List (List Char)}
    (h : lines cs = ls ++ (u ++ c :: v) :: ls') (hx : ∀ d ∈ x, isLineEnd d = false) :
    ∃ p q, cs = p ++ c :: q ∧ lines (p ++ (x ++ c :: q)) = ls ++ (u ++ (x ++ c :: v)) :: ls' := by
  -- by induction on the text: `u` is what the line of `c` begins with, if it is the first line
  induction cs using lines.induct generalizing ls u with
  | case1 => cases ls <;> cases h
  | case2 rest ih =>
      rw [lines] at h
      cases ls with
      | nil => exact absurd (List.cons.inj h).1.symm (by simp)
      | cons l ls =>
          obtain ⟨rfl, hrest⟩ := List.cons.inj h
          obtain ⟨p, q, rfl, hinserted⟩ := ih hrest
          refine ⟨'\r' :: '\n' :: p, q, rfl, ?_⟩
          rw [List.cons_append, List.cons_append, lines, hinserted]
          rfl
  | case3 d rest hne hd ih =>
      rw [lines_cons_end hd hne] at h
      cases ls with
      | nil => exact absurd (List.cons.inj h).1.symm (by simp)
      | cons l ls =>
          obtain ⟨rfl, hrest⟩ := List.cons.inj h
          obtain ⟨p, q, rfl, hinserted⟩ := ih hrest
          refine ⟨d :: p, q, rfl, ?_⟩
          rw [List.cons_append, lines_cons_end hd, hinserted, List.cons_append]
          -- what begins behind the line end is no line feed with the insertion either
          intro rest' hreturn hnewline
          cases p with
          | cons e p => exact hne _ hreturn (congrArg (· :: _) (List.cons.inj hnewline).1)
          | nil =>
              cases x with
              | nil => exact hne _ hreturn hnewline
              | cons e x =>
                  have he := hx e List.mem_cons_self
                  rw [(List.cons.inj hnewline).1] at he
                  cases he
  | case4 d rest hne hd hnil ih =>
      -- the text ends with `d`, so this is `c`
      have hline : lines (d :: rest) = [[d]] := by
        rw [lines, if_neg hd, hnil]
        exact hne
      obtain ⟨rfl, rfl, rfl, rfl, rfl⟩ : ls = [] ∧ ls' = [] ∧ u = [] ∧ c = d ∧ v = [] := by
        rw [hline] at h
        cases ls <;> cases u <;> simp_all
      have hinserted := lines_append hx hline
      exact ⟨[], rest, rfl, hinserted⟩
  | case5 d rest hne hd first more heq ih =>
      have hd' : isLineEnd d = false := by simpa using hd
      have hline : lines (d :: rest) = (d :: first) :: more := lines_cons hd' heq
      rw [hline] at h
      cases ls with
      | nil =>
          obtain ⟨hfirst, rfl⟩ := List.cons.inj h
          -- `c` is on the first line: it is `d`, or it comes behind `d`
          cases u with
          | nil =>
              obtain ⟨rfl, rfl⟩ := List.cons.inj hfirst
              have hinserted := lines_append hx hline
              exact ⟨[], rest, rfl, hinserted⟩
          | cons e u =>
              obtain ⟨rfl, rfl⟩ := List.cons.inj hfirst
              have heq' : lines rest = [] ++ (u ++ c :: v) :: more := heq
              obtain ⟨p, q, rfl, hinserted⟩ := ih heq'
              exact ⟨d :: p, q, rfl, lines_cons hd' hinserted⟩
      | cons l ls =>
          -- `c` is on a later line, and `d` stays in front of the first one
          obtain ⟨rfl, hmore⟩ := List.cons.inj h
          have heq' : lines rest = first :: ls ++ (u ++ c :: v) :: ls' :=
            heq.trans (congrArg _ hmore)
          obtain ⟨p, q, rfl, hinserted⟩ := ih heq'
          exact ⟨d :: p, q, rfl, lines_cons hd' hinserted⟩

/-! ### The lines of the expression -/

/-- A prefix without opening parentheses ends in front of them. -/
lemma prefix_of_append_opening {mark u v : List Char} (h : mark <+: u ++ '(' :: v)
    (hmark : '(' ∉ mark) : mark <+: u := by
  rcases List.prefix_or_prefix_of_prefix h (List.prefix_append u ('(' :: v)) with hpre | ⟨rest, rfl⟩
  · exact hpre
  · cases rest with
    | nil => rw [List.append_nil]
    | cons d rest =>
        rw [List.prefix_append_right_inj, List.cons_prefix_cons] at h
        exact absurd (by simp [h.1]) hmark

/-- A line of the expression stays one with an insertion. -/
lemma ofChars_inserted {u v l : List Char} (hx : Insertable x) (hc : isWordChar c = true)
    (h : TextLine.ofChars (u ++ c :: v) = .expression l) :
    TextLine.ofChars (u ++ (x ++ c :: v)) = .expression (u ++ (x ++ c :: v)) := by
  refine ofChars_of_no_mark fun scope hmark => ?_
  obtain ⟨y, rfl⟩ := hx.head
  rw [trimChars_inserted hx hc] at hmark
  have hopening : '(' ∉ scope.mark.toList := by
    cases scope <;> decide
  obtain ⟨after, hafter⟩ := prefix_of_append_opening hmark hopening
  have hbefore : trimChars (u ++ c :: v) = scope.mark.toList ++ (after ++ c :: trimBack v) := by
    rw [trimChars_append_cons (isBlank_of_isWordChar hc), ← hafter, List.append_assoc]
  have hnone : (TextLine.ofChars (u ++ c :: v)).expression? = none := by
    rw [ofChars_of_mark hbefore, expression?_settingOf]
  rw [h] at hnone
  cases hnone

lemma intercalate_cons {ls : List (List Char)} (l : List Char) (hne : ls ≠ []) :
    ['\n'].intercalate (l :: ls) = l ++ '\n' :: ['\n'].intercalate ls := by
  obtain ⟨m, ls, rfl⟩ := List.exists_cons_of_ne_nil hne
  rw [List.intercalate_cons_cons, List.append_assoc, List.singleton_append]

/-- A character of joined lines is one of a line, and what is inserted in front of it is inserted
into this line. -/
lemma exists_of_intercalate_eq {ls : List (List Char)} (hc : c ≠ '\n')
    (h : ['\n'].intercalate ls = a ++ c :: b) (x : List Char) :
    ∃ ls₁ u v ls₂, ls = ls₁ ++ (u ++ c :: v) :: ls₂ ∧
      ['\n'].intercalate (ls₁ ++ (u ++ (x ++ c :: v)) :: ls₂) = a ++ (x ++ c :: b) := by
  induction ls generalizing a with
  | nil => exact absurd h.symm (by simp)
  | cons l ls ih =>
      by_cases hne : ls = []
      · subst hne
        rw [List.intercalate_singleton] at h
        exact ⟨[], a, b, [], by rw [h]; rfl, List.intercalate_singleton⟩
      · rw [intercalate_cons l hne] at h
        rcases exists_of_append_cons_eq_append_cons (Ne.symm hc) h with
          ⟨v, rfl, rfl⟩ | ⟨w, hw, rfl⟩
        · refine ⟨[], a, v, ls, rfl, ?_⟩
          rw [List.nil_append, intercalate_cons _ hne]
          simp
        · obtain ⟨ls₁, u, v, ls₂, rfl, hinserted⟩ := ih hw
          refine ⟨l :: ls₁, u, v, ls₂, rfl, ?_⟩
          rw [List.cons_append, intercalate_cons l (by simp), hinserted]
          simp

/-- A line of the expression is a line as it stands. -/
lemma ofChars_eq_of_expression? {l l' : List Char}
    (h : (TextLine.ofChars l).expression? = some l') :
    l' = l ∧ TextLine.ofChars l = .expression l := by
  have heq := expression?_ofChars (String.ofList l)
  rw [String.toList_ofList, h] at heq
  split at heq
  · obtain rfl := Option.some.inj heq
    cases hl : TextLine.ofChars l' with
    | expression cs =>
        rw [hl] at h
        exact ⟨rfl, congrArg _ (Option.some.inj h)⟩
    | setting scope target payload line =>
        rw [hl] at h
        cases h
    | malformed scope line =>
        rw [hl] at h
        cases h
  · cases heq

/-- The lines of the expression and the settings with an insertion into one of the lines. -/
lemma exists_of_expressionLines_eq {ls ls₁ ls₂ : List (List Char)} {u v : List Char}
    (hx : Insertable x) (hc : isWordChar c = true)
    (h : SplitText.expressionLines (ls.map TextLine.ofChars) = ls₁ ++ (u ++ c :: v) :: ls₂) :
    ∃ front back, ls = front ++ (u ++ c :: v) :: back ∧
      SplitText.expressionLines ((front ++ (u ++ (x ++ c :: v)) :: back).map TextLine.ofChars) =
        ls₁ ++ (u ++ (x ++ c :: v)) :: ls₂ ∧
      ∀ scope, SplitText.settings scope
          ((front ++ (u ++ (x ++ c :: v)) :: back).map TextLine.ofChars) =
        SplitText.settings scope (ls.map TextLine.ofChars) := by
  rw [expressionLines_eq_filterMap, List.filterMap_map] at h
  obtain ⟨front, rest, rfl, hfront, hrest⟩ := List.filterMap_eq_append_iff.mp h
  obtain ⟨passed, l, back, rfl, hpassed, hl, hback⟩ := List.filterMap_eq_cons_iff.mp hrest
  obtain ⟨rfl, hline⟩ := ofChars_eq_of_expression? hl
  have hline' := ofChars_inserted hx hc hline
  refine ⟨front ++ passed, back, by simp, ?_, fun scope => ?_⟩
  · have hpassed' : passed.filterMap (TextLine.expression? ∘ TextLine.ofChars) = [] :=
      List.filterMap_eq_nil_iff.mpr hpassed
    have hinserted : (TextLine.expression? ∘ TextLine.ofChars) (u ++ (x ++ c :: v)) =
        some (u ++ (x ++ c :: v)) := by
      rw [Function.comp_apply, hline']
      rfl
    rw [expressionLines_eq_filterMap, List.filterMap_map, List.filterMap_append,
      List.filterMap_append, hpassed', List.append_nil, List.filterMap_cons_some hinserted, hfront,
      hback]
  · have hsame : ∀ (t : Table Overrides) l, addLine scope t (.expression l) = t := fun _ _ => rfl
    simp only [settings_eq_foldl, List.map_append, List.map_cons, List.foldl_append,
      List.foldl_cons, hline, hline', hsame]

/-! ### Texts -/

/-- **Insertions into an expression are insertions into the text.**  What is inserted in front of a
word of the expression of a text can be inserted into the text, in front of the same character;
the settings stay the same. -/
theorem exists_ofText_inserted {text : String} (hx : Insertable x) (hc : isWordChar c = true)
    (h : (SplitText.ofText text).expression = a ++ c :: b) :
    ∃ p q, text.toList = p ++ c :: q ∧
      SplitText.ofText (String.ofList (p ++ (x ++ c :: q))) =
        { SplitText.ofText text with expression := a ++ (x ++ c :: b) } := by
  have hline : ∀ d ∈ x, isLineEnd d = false := by
    intro d hd
    have hplain := hx.plain d hd
    rw [isPlain, Bool.and_eq_true, Bool.not_eq_true'] at hplain
    exact hplain.1
  -- the place of `c` is followed back: through trimming, joining, sorting, cutting and cleaning
  rw [expression_ofText, SplitText.linesOf] at h
  obtain ⟨a₁, b₁, hjoined, htrimmed⟩ := locates_trimChars hx hc h
  obtain ⟨ls₁, u, v, ls₂, hls, hinserted⟩ :=
    exists_of_intercalate_eq (ne_of_isWordChar hc (by decide)) hjoined x
  obtain ⟨front, back, hlines, hexpression, hsettings⟩ := exists_of_expressionLines_eq hx hc hls
  obtain ⟨p₁, q₁, hsanitized, hfound⟩ := exists_of_lines_eq hlines hline
  obtain ⟨p, q, htext, hcleaned⟩ := locates_sanitize hx hc hsanitized
  refine ⟨p, q, htext, ?_⟩
  have hlinesOf : SplitText.linesOf (p ++ (x ++ c :: q)) =
      (front ++ (u ++ (x ++ c :: v)) :: back).map TextLine.ofChars := by
    rw [SplitText.linesOf, hcleaned, hfound]
  have hnew : SplitText.expressionLines (SplitText.linesOf (p ++ (x ++ c :: q))) =
      ls₁ ++ (u ++ (x ++ c :: v)) :: ls₂ := by
    rw [hlinesOf, hexpression]
  have hsame : ∀ scope, SplitText.settings scope (SplitText.linesOf (p ++ (x ++ c :: q))) =
      SplitText.settings scope (SplitText.linesOf text.toList) := by
    intro scope
    rw [hlinesOf, hsettings scope]
    rfl
  rw [SplitText.ofText, SplitText.ofText, String.toList_ofList, hnew, hsame, hsame, hinserted,
    htrimmed]

end AbilityRotation
