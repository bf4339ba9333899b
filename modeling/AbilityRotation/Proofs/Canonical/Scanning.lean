import AbilityRotation.Proofs.Canonical.Legible

/-!
Scanning canonical text.

Legible symbols are recognized one by one when they are written, unless the text of a tooltip ends
in a backslash: that backslash takes the closing parenthesis into the tooltip.
* `tooltip?_escape_iff`: which texts are recognized between parentheses, with their own ones
  escaped.
* `scan_write_cons`: a symbol is recognized in front of others.
* `scan_write`: all symbols are recognized if no tooltip ends in a backslash.
* `not_endsInBackslash_of_scan_write`: if scanning finds the tooltips that were written, then none
  of them ends in a backslash.
-/

namespace AbilityRotation

open Lexeme Text

variable {names : List String} {behind : Bool} {s : Symbol} {ss : List Symbol}
  {cs ds rest : List Char} {c : Char} {pos n : ℕ}

/-! ### One symbol -/

/-- A glyph that is a symbol yields its lexeme. -/
lemma scan_of_glyphAt (pos : ℕ) (h : glyphAt names behind c cs = .ok (.symbol s, n)) :
    scan names behind pos (c :: cs) =
      (scan names s.endsOperand (pos + n + 1) (cs.drop n)).map
        (⟨some s, pos, pos + n + 1⟩ :: ·) := by
  rw [scan, h]
  rfl

/-- A parenthesis is a tooltip if one is read behind it. -/
lemma glyphAt_tooltip {text : String} (h : tooltip? names behind cs = some (text, n)) :
    glyphAt names behind '(' cs = .ok (.symbol (.tooltip text), n) := by
  have hblank : isBlank '(' = false := by decide
  simp [glyphAt, isSpace, startsArrow, hblank, h]

/-- A parenthesis opens a group if no tooltip is read behind it. -/
lemma glyphAt_opening (h : tooltip? names behind cs = none) :
    glyphAt names behind '(' cs = .ok (.symbol .opening, 0) := by
  have hblank : isBlank '(' = false := by decide
  simp [glyphAt, isSpace, startsArrow, hblank, h]

/-- The characters with which operators and parentheses begin. -/
def signs : List Char :=
  ['(', ')', '→', '+', '/']

lemma head_write_of_not_word (h : ∀ w, ss.head? ≠ some (.word w)) :
    ∀ c, (write ss).head? = some c → c ∈ signs := by
  intro c hc
  cases ss with
  | nil => cases hc
  | cons s ss =>
      cases s with
      | word w => exact absurd rfl (h w)
      | _ =>
          rw [write_cons_of_not_isWord rfl] at hc
          simp only [Symbol.chars, markerChars, List.cons_append, List.head?_cons,
            Option.some.injEq] at hc
          rw [← hc]
          decide

/-- Word characters do not begin an arrow if nothing behind them completes it. -/
lemma startsArrow_append (hcs : ∀ c ∈ cs, isWordChar c = true) (hrest : rest.head? ≠ some '>') :
    startsArrow (c :: (cs ++ rest)) = false := by
  refine startsArrow_eq_false ?_
  cases cs with
  | nil => exact hrest
  | cons d cs =>
      intro heq
      cases heq
      exact ne_of_isWordChar (hcs '>' List.mem_cons_self) (by decide) rfl

/-- A word is read up to a character that is none of a word and does not complete an arrow. -/
lemma wordRun_append (hcs : ∀ c ∈ cs, isWordChar c = true)
    (hrest : ∀ c, rest.head? = some c → isWordChar c = false ∧ c ≠ '>') :
    wordRun (cs ++ rest) = cs := by
  induction cs with
  | nil =>
      cases rest with
      | nil => rfl
      | cons c rest =>
          rw [List.nil_append, wordRun, (hrest c rfl).1]
          rfl
  | cons c cs ih =>
      have htail : ∀ d ∈ cs, isWordChar d = true := fun d hd => hcs d (List.mem_cons_of_mem _ hd)
      have harrow : startsArrow (c :: (cs ++ rest)) = false :=
        startsArrow_append htail fun heq => (hrest _ heq).2 rfl
      rw [List.cons_append, wordRun, hcs c List.mem_cons_self, harrow]
      simp [ih htail]

lemma label?_append (hne : ds ≠ []) (hds : ∀ d ∈ ds, isDigitSign d = true) :
    label? ('*' :: (ds ++ ']' :: rest)) = some ds := by
  have hbracket : ∀ d ∈ '*' :: ds, (d != ']') = true := by
    intro d hd
    rw [bne_iff_ne]
    rcases List.mem_cons.mp hd with rfl | hd
    · decide
    · exact ne_of_isDigitSign (hds d hd) (by decide)
  have htake : ('*' :: (ds ++ ']' :: rest)).takeWhile (· != ']') = '*' :: ds := by
    rw [← List.cons_append, List.takeWhile_append_of_pos hbracket]
    simp
  have hdrop : ('*' :: (ds ++ ']' :: rest)).dropWhile (· != ']') = ']' :: rest := by
    rw [← List.cons_append, List.dropWhile_append_of_pos hbracket]
    simp
  rw [label?, htake, hdrop]
  simp only [Bool.and_eq_true, Bool.not_eq_true', List.isEmpty_eq_false_iff, List.all_eq_true]
  rw [if_pos ⟨hne, hds⟩]

/-- A written word is read with its label. -/
lemma wordAt_append {w : Word} (hw : (Symbol.word w).Written names)
    (hrest : ∀ c, rest.head? = some c → isWordChar c = false ∧ c ≠ '>' ∧ c ≠ '[') :
    wordAt (w.key.toList ++ labelChars w.label ++ rest) =
      .ok (w, (w.key.toList ++ labelChars w.label).length) := by
  obtain ⟨key, label⟩ := w
  obtain ⟨⟨hne, hkey⟩, hlabel⟩ := hw
  cases label with
  | none =>
      have hrun : wordRun (key.toList ++ rest) = key.toList :=
        wordRun_append (fun c hc => (hkey c hc).1) fun c hc => ⟨(hrest c hc).1, (hrest c hc).2.1⟩
      rw [labelChars, List.append_nil, wordAt, hrun, List.drop_left]
      split
      · next after =>
          exact absurd rfl (hrest '[' rfl).2.2
      · simp
  | some label =>
      obtain ⟨hlne, hldigits⟩ := hlabel label rfl
      have hrun : wordRun (key.toList ++ ('[' :: ('*' :: (label.toList ++ ']' :: rest)))) =
          key.toList := by
        refine wordRun_append (fun c hc => (hkey c hc).1) fun c hc => ?_
        cases hc
        exact ⟨isWordChar_separator (by decide), by decide⟩
      have happend : key.toList ++ labelChars (some label) ++ rest =
          key.toList ++ ('[' :: ('*' :: (label.toList ++ ']' :: rest))) := by
        simp [labelChars]
      rw [happend, wordAt, hrun, List.drop_left]
      simp only [label?_append hlne fun d hd => (hldigits d hd).1, labelChars,
        String.ofList_toList, List.length_append, List.length_cons, List.length_nil]
      rw [Nat.add_assoc]

/-! ### Escaped texts -/

lemma escape_cons (c : Char) (cs : List Char) :
    escape (c :: cs) = (if c = '(' ∨ c = ')' then ['\\', c] else [c]) ++ escape cs :=
  List.flatMap_cons

/-- An escaped text does not begin with a parenthesis. -/
lemma head_escape {d : Char} (h : (escape cs).head? = some d) : d ≠ '(' ∧ d ≠ ')' := by
  cases cs with
  | nil => cases h
  | cons c cs =>
      rw [escape_cons] at h
      split at h
      · cases h
        decide
      · next hc =>
          cases h
          exact not_or.mp hc

/-- What may stand behind an escaped text: no parenthesis, if the text ends in a backslash. -/
def Separate (cs rest : List Char) : Prop :=
  cs.getLast? ≠ some '\\' ∨ ∀ d, rest.head? = some d → d ≠ '(' ∧ d ≠ ')'

lemma Separate.tail (h : Separate (c :: cs) rest) : Separate cs rest := by
  cases cs with
  | nil => exact .inl (by simp)
  | cons d cs => simpa [Separate] using h

/-- A backslash within an escaped text takes no parenthesis behind it. -/
lemma Separate.head (h : Separate (c :: cs) rest) :
    c ≠ '\\' ∨ ∀ d, (escape cs ++ rest).head? = some d → d ≠ '(' ∧ d ≠ ')' := by
  cases cs with
  | nil => simpa [Separate, escape] using h
  | cons d cs =>
      refine .inr fun e he => ?_
      apply @head_escape (d :: cs)
      rw [escape_cons] at he ⊢
      split at he <;> simpa [*] using he

lemma unescape_cons (hc : c ≠ '\\' ∨ ∀ d, cs.head? = some d → d ≠ '(' ∧ d ≠ ')') :
    unescape (c :: cs) = c :: unescape cs := by
  cases cs with
  | nil => simp [unescape]
  | cons d cs =>
      rw [unescape, if_neg]
      rintro ⟨rfl, hd⟩
      rcases hc with hc | hc
      · exact hc rfl
      · rcases hd with rfl | rfl
        · exact (hc _ rfl).1 rfl
        · exact (hc _ rfl).2 rfl

/-- Escaping is undone. -/
lemma unescape_escape_append (h : Separate cs rest) :
    unescape (escape cs ++ rest) = cs ++ unescape rest := by
  induction cs with
  | nil => rfl
  | cons c cs ih =>
      rw [escape_cons]
      split
      · next hc =>
          rw [List.cons_append, List.singleton_append, List.cons_append, List.cons_append,
            unescape, if_pos ⟨rfl, hc⟩, ih h.tail]
          rfl
      · rw [List.singleton_append, List.cons_append, unescape_cons h.head, ih h.tail]
        rfl

/-- An ordinary character in front of a tooltip slice belongs to it. -/
lemma tooltipSlice?_cons (hc : c ≠ '(' ∧ c ≠ ')' ∧ c ≠ '\n')
    (hbackslash : c ≠ '\\' ∨ ∀ d, cs.head? = some d → d ≠ '(' ∧ d ≠ ')') :
    tooltipSlice? (c :: cs) = (tooltipSlice? cs).map (c :: ·) := by
  cases cs with
  | nil => simp [tooltipSlice?, hc]
  | cons d cs =>
      rw [tooltipSlice?, if_neg, if_neg (by simp [hc]), if_neg hc.2.1]
      rintro ⟨rfl, hd⟩
      rcases hbackslash with hb | hb
      · exact hb rfl
      · rcases hd with rfl | rfl
        · exact (hb _ rfl).1 rfl
        · exact (hb _ rfl).2 rfl

/-- An escaped text in front of a tooltip slice belongs to it. -/
lemma tooltipSlice?_escape_append (hnl : '\n' ∉ cs) (h : Separate cs rest) :
    tooltipSlice? (escape cs ++ rest) = (tooltipSlice? rest).map (escape cs ++ ·) := by
  induction cs with
  | nil =>
      show tooltipSlice? rest = (tooltipSlice? rest).map fun slice => slice
      simp
  | cons c cs ih =>
      have hih := ih (fun hm => hnl (List.mem_cons_of_mem _ hm)) h.tail
      rw [escape_cons]
      split
      · next hc =>
          rw [List.cons_append, List.singleton_append, List.cons_append, List.cons_append,
            tooltipSlice?, if_pos ⟨rfl, hc⟩, hih]
          simp [Function.comp_def]
      · next hc =>
          obtain ⟨h1, h2⟩ := not_or.mp hc
          have hne : c ≠ '\n' := fun heq => hnl (heq ▸ List.mem_cons_self)
          rw [List.singleton_append, List.cons_append, tooltipSlice?_cons ⟨h1, h2, hne⟩ h.head, hih]
          simp [Function.comp_def]

/-- Plain characters are on one line. -/
lemma newline_not_mem {cs : List Char} (h : ∀ c ∈ cs, isPlain c = true) : '\n' ∉ cs := by
  intro hm
  have hplain := h _ hm
  revert hplain
  decide

/-- Whether the text ends in a backslash. -/
def endsInBackslash (text : String) : Prop :=
  text.toList.getLast? = some '\\'

instance (text : String) : Decidable (endsInBackslash text) :=
  inferInstanceAs (Decidable (text.toList.getLast? = some '\\'))

/-- What is read in front of a closing parenthesis that a backslash takes into the tooltip. -/
lemma tooltipSlice?_escape_backslash (hnl : '\n' ∉ cs) :
    tooltipSlice? (escape cs ++ '\\' :: ')' :: rest) =
      (tooltipSlice? rest).map (escape cs ++ '\\' :: ')' :: ·) := by
  have hseparate : Separate cs ('\\' :: ')' :: rest) := by
    refine .inr ?_
    rintro d ⟨⟩
    decide
  rw [tooltipSlice?_escape_append hnl hseparate, tooltipSlice?, if_pos ⟨rfl, .inr rfl⟩,
    Option.map_map]
  rfl

/-- **An escaped text is read again** exactly if it is a text for a tooltip that does not end in a
backslash, and the parentheses touch something. -/
theorem tooltip?_escape_iff {text : String} :
    tooltip? names behind (escape text.toList ++ ')' :: rest) =
        some (text, (escape text.toList).length + 1) ↔
      text.toList ≠ [] ∧ Tight text.toList ∧ '\n' ∉ text.toList ∧
        hasOperator text.toList = false ∧ ¬ endsInBackslash text ∧ lowerCase text ∉ names ∧
          (behind = true ∨ wordFollows rest = true) := by
  have hdrop : (escape text.toList ++ ')' :: rest).drop ((escape text.toList).length + 1) =
      rest := by
    rw [← List.drop_drop, List.drop_left]
    rfl
  rw [tooltip?_eq_some_iff, hdrop]
  constructor
  · rintro ⟨slice, hslice, hlength, htext, hne, hop, hname, htouch⟩
    have hnl : '\n' ∉ text.toList := by
      intro hm
      rw [htext] at hm
      exact (mem_of_mem_tooltipSlice hslice (mem_of_mem_unescape (mem_of_mem_trimChars hm))).2 rfl
    refine ⟨hne, htext ▸ tight_trimChars _, hnl, hop, fun hend => ?_, hname, htouch⟩
    -- a backslash at the end takes the parenthesis into the tooltip, which ends further on
    obtain ⟨us, hus⟩ := List.getLast?_eq_some_iff.mp hend
    rw [hus, List.mem_append, not_or] at hnl
    have hescape : escape (us ++ ['\\']) = escape us ++ ['\\'] := by
      simp [escape]
    rw [hus, hescape, List.append_assoc, List.singleton_append,
      tooltipSlice?_escape_backslash hnl.1] at hslice
    obtain ⟨more, -, rfl⟩ := Option.map_eq_some_iff.mp hslice
    rw [hus, hescape] at hlength
    simp at hlength
  · rintro ⟨hne, htight, hnl, hop, hend, hname, htouch⟩
    have hslice : tooltipSlice? (escape text.toList ++ ')' :: rest) =
        some (escape text.toList) := by
      rw [tooltipSlice?_escape_append hnl (.inl hend)]
      cases rest <;> simp [tooltipSlice?]
    have hunescape : unescape (escape text.toList) = text.toList := by
      have hseparate : Separate text.toList [] := .inr (by simp)
      simpa [unescape] using unescape_escape_append hseparate
    exact ⟨_, hslice, rfl, by rw [hunescape, trimChars_eq_self htight], hne, hop, hname, htouch⟩

/-- A written tooltip is read as such where it touches something, if it does not end in a
backslash. -/
lemma tooltip?_escape {text : String} (hw : (Symbol.tooltip text).Written names)
    (hend : ¬ endsInBackslash text) (h : behind = true ∨ wordFollows rest = true) :
    tooltip? names behind (escape text.toList ++ ')' :: rest) =
      some (text, (escape text.toList).length + 1) := by
  obtain ⟨hne, htight, hop, hname, hplain⟩ := hw
  exact tooltip?_escape_iff.mpr ⟨hne, htight, newline_not_mem hplain, hop, hend,
    by simpa [lowerCase] using hname, h⟩

/-! ### Groups -/

/-- Characters that neither open nor close nor escape belong to a tooltip slice. -/
lemma tooltipSlice?_append (hcs : ∀ c ∈ cs, c ∉ ['(', ')', '\n', '\\']) :
    tooltipSlice? (cs ++ rest) = (tooltipSlice? rest).map (cs ++ ·) := by
  induction cs with
  | nil => simp
  | cons c cs ih =>
      have hc := hcs c List.mem_cons_self
      simp only [List.mem_cons, List.not_mem_nil, or_false, not_or] at hc
      rw [List.cons_append, tooltipSlice?_cons ⟨hc.1, hc.2.1, hc.2.2.1⟩ (.inl hc.2.2.2),
        ih fun d hd => hcs d (List.mem_cons_of_mem _ hd)]
      simp [Function.comp_def]

lemma tooltipSlice?_opening (cs : List Char) : tooltipSlice? ('(' :: cs) = none := by
  cases cs <;> simp [tooltipSlice?]

lemma tooltipSlice?_closing (cs : List Char) : tooltipSlice? (')' :: cs) = some [] := by
  cases cs <;> simp [tooltipSlice?]

/-- No word begins where a sign stands. -/
lemma wordFollows_of_signs (h : ∀ c, cs.head? = some c → c ∈ signs) : wordFollows cs = false := by
  cases cs with
  | nil => rfl
  | cons c cs =>
      have hsigns : ∀ c ∈ signs, isSpace c = false ∧ c ∈ separators :=
        List.all_iff_forall_prop.mp (by decide)
      obtain ⟨hspace, hc⟩ := hsigns c (h c rfl)
      have hword := isWordChar_separator hc
      rw [wordFollows, List.dropWhile_cons_of_neg (by simp [hspace])]
      simp only [hword, Bool.false_and]

/-- The characters of a word and its label neither open nor close nor escape. -/
lemma not_mem_of_written {w : Word} (hw : (Symbol.word w).Written names) :
    ∀ c ∈ w.key.toList ++ labelChars w.label, c ∉ ['(', ')', '\n', '\\'] := by
  have hspecial : ∀ c ∈ ['(', ')', '\n', '\\'], c ∈ separators ∧ c ∉ ['[', '*', ']'] :=
    List.all_iff_forall_prop.mp (by decide)
  intro c hc hmem
  obtain ⟨hseparator, hbracket⟩ := hspecial c hmem
  rcases List.mem_append.mp hc with hc | hc
  · exact ne_of_isWordChar (hw.1.2 c hc).1 hseparator rfl
  · obtain ⟨key, _ | label⟩ := w
    · cases hc
    · have hl := (hw.2 label rfl).2
      simp only [labelChars, List.cons_append, List.mem_cons, List.mem_append,
        List.not_mem_nil, or_false] at hc hbracket
      rcases hc with rfl | rfl | hc | rfl
      · exact hbracket (.inl rfl)
      · exact hbracket (.inr (.inl rfl))
      · exact ne_of_isDigitSign (hl c hc).1 hseparator rfl
      · exact hbracket (.inr (.inr rfl))

/-- A parenthesis in front of legible symbols is no tooltip of its own account: where it is closed
before another one opens, no word follows. -/
lemma wordFollows_of_tooltipSlice? {slice : List Char} (h : Legible names behind ss)
    (hs : tooltipSlice? (write ss) = some slice) :
    wordFollows ((write ss).drop (slice.length + 1)) = false := by
  -- up to the parenthesis that closes, the symbols shown belong to the would-be tooltip
  induction ss generalizing behind slice with
  | nil => cases hs
  | cons s ss ih =>
      have hinside : ∀ cs : List Char, (∀ c ∈ cs, c ∉ ['(', ')', '\n', '\\']) →
          write (s :: ss) = cs ++ write ss →
            wordFollows ((write (s :: ss)).drop (slice.length + 1)) = false := by
        intro cs hcs heq
        rw [heq] at hs ⊢
        rw [tooltipSlice?_append hcs] at hs
        obtain ⟨slice, hslice, rfl⟩ := Option.map_eq_some_iff.mp hs
        rw [List.length_append, Nat.add_assoc, ← List.drop_drop, List.drop_left]
        exact ih h.2 hslice
      cases s with
      | word w =>
          have hw := h.1.written
          by_cases hnext : ss.head?.any Symbol.isWord = true
          · refine hinside (w.key.toList ++ labelChars w.label ++ [' ']) ?_
              (by simp [write, hnext, Symbol.chars])
            intro c hc
            rcases List.mem_append.mp hc with hc | hc
            · exact not_mem_of_written hw c hc
            · rw [List.mem_singleton.mp hc]
              decide
          · refine hinside _ (not_mem_of_written hw) ?_
            rw [write_cons_of_next (by simpa using hnext), Symbol.chars]
      | arrow => exact hinside ['→'] (by simp) (write_cons_of_not_isWord rfl _)
      | plus => exact hinside ['+'] (by simp) (write_cons_of_not_isWord rfl _)
      | slash => exact hinside ['/'] (by simp) (write_cons_of_not_isWord rfl _)
      | tooltip text =>
          rw [write_cons_of_not_isWord rfl, Symbol.chars, markerChars, List.cons_append,
            List.cons_append, tooltipSlice?_opening] at hs
          cases hs
      | opening =>
          rw [write_cons_of_not_isWord rfl, Symbol.chars, List.singleton_append,
            tooltipSlice?_opening] at hs
          cases hs
      | closing =>
          rw [write_cons_of_not_isWord rfl, Symbol.chars, List.singleton_append] at hs ⊢
          rw [tooltipSlice?_closing] at hs
          cases hs
          exact wordFollows_of_signs (head_write_of_not_word (h.1.closing rfl))

/-! ### Recognizing symbols -/

/-- What stands behind a written word is no part of it. -/
lemma head_behind_word (h : ∀ w, ss.head? ≠ some (.word w)) :
    ∀ c, (write ss).head? = some c → isWordChar c = false ∧ c ≠ '>' ∧ c ≠ '[' := by
  have hsigns : ∀ c ∈ signs, c ∈ separators ∧ c ≠ '>' ∧ c ≠ '[' :=
    List.all_iff_forall_prop.mp (by decide)
  intro c hc
  obtain ⟨hseparator, hne⟩ := hsigns c (head_write_of_not_word h c hc)
  exact ⟨isWordChar_separator hseparator, hne⟩

/-- A written word begins a word, whatever stands behind it that is no part of it. -/
lemma exists_head_word {w : Word} (hw : (Symbol.word w).Written names)
    (hrest : ∀ c, rest.head? = some c → isWordChar c = false ∧ c ≠ '>' ∧ c ≠ '[') :
    ∃ c cs, w.key.toList ++ labelChars w.label ++ rest = c :: cs ∧ isWordChar c = true ∧
      startsArrow (c :: cs) = false := by
  obtain ⟨c, cs, hkey⟩ := List.exists_cons_of_ne_nil hw.1.1
  have hchars := hw.1.2
  rw [hkey] at hchars ⊢
  refine ⟨c, cs ++ (labelChars w.label ++ rest), by simp, (hchars c List.mem_cons_self).1,
    startsArrow_append (fun d hd => (hchars d (List.mem_cons_of_mem _ hd)).1) fun heq => ?_⟩
  cases hl : w.label with
  | none =>
      rw [hl, labelChars, List.nil_append] at heq
      exact (hrest _ heq).2.1 rfl
  | some label =>
      rw [hl] at heq
      cases heq

/-- A word in front of other symbols is separated from them. -/
lemma exists_write_word (names : List String) (w : Word) (ss : List Symbol) :
    ∃ gap, write (.word w :: ss) = w.key.toList ++ labelChars w.label ++ (gap ++ write ss) ∧
      (∀ c, (gap ++ write ss).head? = some c → isWordChar c = false ∧ c ≠ '>' ∧ c ≠ '[') ∧
      ∀ pos, ∃ next, scan names true pos (gap ++ write ss) = scan names true next (write ss) := by
  by_cases hnext : ss.head?.any Symbol.isWord = true
  · refine ⟨[' '], by simp [write, hnext, Symbol.chars], ?_, fun pos => ⟨pos + 1, ?_⟩⟩
    · rintro c ⟨⟩
      exact ⟨isWordChar_separator (by decide), by decide⟩
    · exact scan_space pos rfl
  · refine ⟨[], ?_, ?_, fun pos => ⟨pos, rfl⟩⟩
    · rw [write_cons_of_next (by simpa using hnext)]
      rfl
    · refine head_behind_word fun v hv => hnext ?_
      rw [hv]
      rfl

/-- A parenthesis in front of legible symbols begins a group if nothing touches it. -/
lemma tooltip?_write (h : Legible names behind ss) : tooltip? names false (write ss) = none := by
  rw [tooltip?]
  split
  · rfl
  · next slice hslice =>
      simp only [wordFollows_of_tooltipSlice? h hslice, Bool.or_false, Bool.and_false,
        Bool.false_eq_true, if_false]

/-- Behind a parenthesis, a written word follows. -/
lemma wordFollows_write {w : Word} (hw : (Symbol.word w).Written names) (ss : List Symbol) :
    wordFollows (write (.word w :: ss)) = true := by
  obtain ⟨gap, hwrite, hgap, -⟩ := exists_write_word names w ss
  obtain ⟨c, cs, heq, hword, harrow⟩ := exists_head_word hw hgap
  rw [hwrite, heq, wordFollows, List.dropWhile_cons_of_neg]
  · simp [hword, harrow]
  · rw [isSpace_of_isWordChar hword]
    exact Bool.false_ne_true

/-- A tooltip that touches something is recognized if its text does not end in a backslash. -/
lemma scan_write_tooltip {text : String} (hw : (Symbol.tooltip text).Written names)
    (hend : ¬ endsInBackslash text) (htouch : behind = true ∨ wordFollows (write ss) = true)
    (pos : ℕ) :
    ∃ stop next, scan names behind pos (write (.tooltip text :: ss)) =
      (scan names true next (write ss)).map (⟨some (.tooltip text), pos, stop⟩ :: ·) := by
  have hwrite : write (.tooltip text :: ss) = '(' :: (escape text.toList ++ ')' :: write ss) := by
    rw [write_cons_of_not_isWord rfl]
    simp [Symbol.chars, markerChars]
  have hscan := scan_of_glyphAt pos (glyphAt_tooltip (tooltip?_escape hw hend htouch))
  rw [← List.drop_drop, List.drop_left] at hscan
  rw [hwrite]
  exact ⟨_, _, hscan⟩

/-- A word is recognized with its label. -/
lemma scan_write_word {w : Word} (hw : (Symbol.word w).Written names) (ss : List Symbol)
    (pos : ℕ) :
    ∃ stop next, scan names behind pos (write (.word w :: ss)) =
      (scan names true next (write ss)).map (⟨some (.word w), pos, stop⟩ :: ·) := by
  obtain ⟨gap, hwrite, hgap, hscan⟩ := exists_write_word names w ss
  obtain ⟨c, cs, heq, hword, harrow⟩ := exists_head_word hw hgap
  have hat := wordAt_append hw hgap
  rw [heq] at hat
  have hglyph : glyphAt names behind c cs =
      .ok (.symbol (.word w), (w.key.toList ++ labelChars w.label).length - 1) := by
    rw [glyphAt_of_isWordChar hword harrow, hat]
    rfl
  have hdrop : cs.drop ((w.key.toList ++ labelChars w.label).length - 1) = gap ++ write ss := by
    obtain ⟨n, hn⟩ := Nat.exists_eq_add_one.mpr (List.length_pos_iff.mpr
      (List.append_ne_nil_of_left_ne_nil hw.1.1 (labelChars w.label)))
    rw [hn, Nat.add_sub_cancel, ← List.drop_succ_cons (a := c), ← heq, ← hn, List.drop_left]
  have hstep := scan_of_glyphAt pos hglyph
  rw [hdrop] at hstep
  obtain ⟨next, hnext⟩ := hscan (pos + ((w.key.toList ++ labelChars w.label).length - 1) + 1)
  rw [hwrite, heq, hstep, Symbol.endsOperand, hnext]
  exact ⟨_, _, rfl⟩

/-- A legible symbol is recognized in front of others, unless it is a tooltip whose text ends in a
backslash. -/
lemma scan_write_cons (h : Legible names behind (s :: ss))
    (hend : ∀ text, s = .tooltip text → ¬ endsInBackslash text) (pos : ℕ) :
    ∃ stop next, scan names behind pos (write (s :: ss)) =
      (scan names s.endsOperand next (write ss)).map (⟨some s, pos, stop⟩ :: ·) := by
  obtain ⟨⟨hw, -, htip, hopen, -⟩, hss⟩ := h
  cases s with
  | arrow | plus | slash | closing =>
      rw [write_cons_of_not_isWord rfl]
      exact ⟨_, _, scan_of_glyphAt (n := 0) pos rfl⟩
  | opening =>
      -- a parenthesis behind an operand would be read as a tooltip
      have hbehind : behind = false := hopen rfl
      subst hbehind
      rw [write_cons_of_not_isWord rfl]
      exact ⟨_, _, scan_of_glyphAt pos (glyphAt_opening (tooltip?_write hss))⟩
  | tooltip text =>
      refine scan_write_tooltip hw (hend text rfl) ((htip text rfl).imp_right ?_) pos
      rintro ⟨w, hnext⟩
      obtain ⟨ss, rfl⟩ := List.head?_eq_some_iff.mp hnext
      exact wordFollows_write hss.1.written ss
  | word w => exact scan_write_word hw ss pos

/-- Legible symbols are recognized when they are written, if no tooltip ends in a backslash. -/
lemma scan_write (h : Legible names behind ss)
    (hend : ∀ text ∈ tooltips ss, ¬ endsInBackslash text) (pos : ℕ) :
    ∃ ls, scan names behind pos (write ss) = .ok ls ∧ ls.map (·.symbol) = ss.map some := by
  induction ss generalizing behind pos with
  | nil => exact ⟨[], by rw [write_nil, scan], rfl⟩
  | cons s ss ih =>
      have hhead : ∀ text, s = .tooltip text → ¬ endsInBackslash text := by
        rintro text rfl
        exact hend text List.mem_cons_self
      have htail : ∀ text ∈ tooltips ss, ¬ endsInBackslash text := by
        intro text htext
        refine hend text ?_
        rw [tooltips_cons]
        exact List.mem_append_right _ htext
      obtain ⟨stop, next, hscan⟩ := scan_write_cons h hhead pos
      obtain ⟨ls, hls, hsymbols⟩ := ih h.2 htail next
      refine ⟨⟨some s, pos, stop⟩ :: ls, ?_, ?_⟩
      · rw [hscan, hls]
        rfl
      · rw [List.map_cons, List.map_cons, hsymbols]

/-! ### Texts that end in a backslash -/

/-- What is read as a label stands behind the bracket, with what closes it. -/
lemma eq_append_of_label? (h : label? cs = some ds) : ∃ more, cs = '*' :: ds ++ ']' :: more := by
  rw [label?] at h
  split at h
  · next digits e more htake hdrop =>
      split at h
      · cases h
        have he : e = ']' := by
          have hhead := List.head?_dropWhile_not (· != ']') cs
          rw [hdrop] at hhead
          simpa using hhead
        refine ⟨more, ?_⟩
        rw [← List.takeWhile_append_dropWhile (p := (· != ']')) (l := cs), htake, hdrop, he]
      · cases h
  · cases h

lemma wordRun_isPrefix (cs : List Char) : wordRun cs <+: cs := by
  induction cs with
  | nil => exact List.prefix_rfl
  | cons c cs ih =>
      rw [wordRun]
      split
      · exact List.cons_prefix_cons.mpr ⟨rfl, ih⟩
      · exact List.nil_prefix

/-- What is read as a word are the characters of the word and its label; a word without a label
stands in front of no bracket. -/
lemma exists_of_wordAt {w : Word} (h : wordAt cs = .ok (w, n)) :
    ∃ back, cs = w.key.toList ++ labelChars w.label ++ back ∧
      n = (w.key.toList ++ labelChars w.label).length ∧
        (w.label = none → back.head? ≠ some '[') := by
  obtain ⟨after, hafter⟩ := wordRun_isPrefix cs
  rw [wordAt] at h
  generalize wordRun cs = run at h hafter
  subst hafter
  rw [List.drop_left] at h
  split at h
  · next rest =>
      split at h
      · next digits hdigits =>
          cases h
          obtain ⟨more, rfl⟩ := eq_append_of_label? hdigits
          exact ⟨more, by simp [labelChars], by simp [labelChars]; omega, by simp⟩
      · cases h
  · next hbracket =>
      cases h
      refine ⟨after, by simp [labelChars], by simp [labelChars], fun _ hhead => ?_⟩
      obtain ⟨rest, rfl⟩ := List.head?_eq_some_iff.mp hhead
      exact hbracket rest rfl

lemma take_of_wordAt {w : Word} (h : wordAt cs = .ok (w, n)) :
    cs.take n = w.key.toList ++ labelChars w.label := by
  obtain ⟨back, rfl, rfl, -⟩ := exists_of_wordAt h
  exact List.take_left

/-- What is read as a word holds no backslash. -/
lemma not_mem_take_wordAt {w : Word} (h : wordAt cs = .ok (w, n)) : '\\' ∉ cs.take n := by
  have hword := of_mem_separators '\\' (by decide)
  intro hm
  have hchars := take_of_wordAt h
  rw [wordAt] at h
  split at h
  · next rest _ =>
      split at h
      · next digits hdigits =>
          cases h
          rw [hchars] at hm
          simp only [labelChars, String.toList_ofList, List.mem_append, List.mem_cons,
            List.cons_append, List.not_mem_nil, or_false] at hm
          rcases hm with hm | hm | hm | hm | hm
          · exact Bool.false_ne_true (hword.1.symm.trans (isWordChar_of_mem_wordRun hm).1)
          · revert hm
            decide
          · revert hm
            decide
          · exact Bool.false_ne_true (hword.2.symm.trans ((label?_eq_some hdigits).2 _ hm))
          · revert hm
            decide
      · cases h
  · cases h
    rw [hchars] at hm
    simp only [labelChars, String.toList_ofList, List.append_nil] at hm
    exact Bool.false_ne_true (hword.1.symm.trans (isWordChar_of_mem_wordRun hm).1)

/-- A glyph other than a tooltip takes no backslash with it. -/
lemma not_mem_take_glyphAt {g : Glyph} (h : glyphAt names behind c cs = .ok (g, n))
    (hc : c ≠ '(') : '\\' ∉ cs.take n := by
  rw [glyphAt] at h
  iterate 4 (split at h; · cases h; simp)
  split at h
  · next harrow =>
      cases h
      rw [startsArrow.eq_def] at harrow
      split at harrow
      · next heq =>
          cases heq
          simp
      · cases harrow
  · iterate 3 (split at h; · cases h; simp)
    split at h
    · obtain ⟨r, hat, heq⟩ := map_eq_ok_iff.mp h
      cases heq
      have hm := not_mem_take_wordAt hat
      cases hr : r.2 with
      | zero => simp
      | succ n =>
          rw [hr, List.take_succ_cons] at hm
          exact fun hmem => hm (List.mem_cons_of_mem _ hmem)
    · cases h

/-- A backslash in front of which nothing opens cannot be read. -/
lemma scan_ne_ok_of_backslash {xs ys : List Char} (hcs : cs = xs ++ '\\' :: ys) (hxs : '(' ∉ xs)
    (ls : List Lexeme) : scan names behind pos cs ≠ .ok ls := by
  intro h
  induction behind, pos, cs using scan.induct names generalizing xs ls with
  | case1 behind pos => cases xs <;> cases hcs
  | case2 behind pos c rest cause offset hg =>
      rw [scan, hg] at h
      cases h
  | case3 behind pos c rest glyph n hg ih =>
      cases xs with
      | nil =>
          cases hcs
          -- a backslash outside of tooltips is no symbol
          have herror : glyphAt names behind '\\' ys = .error (.unknownOperator '\\', 0) := by
            have hblank : isBlank '\\' = false ∧ isWordChar '\\' = false := by
              decide
            rw [glyphAt, hblank.1, hblank.2]
            rfl
          rw [herror] at hg
          cases hg
      | cons d xs =>
          rw [List.cons_append, List.cons.injEq] at hcs
          obtain ⟨rfl, rfl⟩ := hcs
          rw [List.mem_cons, not_or] at hxs
          -- no glyph in front reaches past the backslash
          have hle : n ≤ xs.length := by
            by_contra hlt
            refine not_mem_take_glyphAt hg (Ne.symm hxs.1) ?_
            rw [List.take_append, List.mem_append]
            right
            obtain ⟨k, hk⟩ := Nat.exists_eq_add_of_lt (Nat.lt_of_not_le hlt)
            rw [hk, show xs.length + k + 1 - xs.length = k + 1 by omega, List.take_succ_cons]
            exact List.mem_cons_self
          rw [scan, hg] at h
          obtain ⟨more, hs, -⟩ := map_eq_ok_iff.mp h
          exact ih (List.drop_append_of_le_length hle)
            (fun hm => hxs.2 ((List.drop_sublist n xs).subset hm)) more hs

/-- In front of the first backslash of an escaped text nothing opens. -/
lemma exists_first_backslash (cs rest : List Char) :
    ∃ xs ys, escape cs ++ '\\' :: rest = xs ++ '\\' :: ys ∧ '(' ∉ xs := by
  induction cs with
  | nil => exact ⟨[], rest, rfl, List.not_mem_nil⟩
  | cons c cs ih =>
      rw [escape_cons]
      split
      · exact ⟨[], c :: (escape cs ++ '\\' :: rest), rfl, List.not_mem_nil⟩
      · next hc =>
          obtain ⟨xs, ys, heq, hxs⟩ := ih
          refine ⟨c :: xs, ys, ?_, ?_⟩
          · rw [List.singleton_append, List.cons_append, heq]
            rfl
          · rw [List.mem_cons, not_or]
            exact ⟨fun h => hc (.inl h.symm), hxs⟩

/-- A text that goes on with a parenthesis is not trimmed to one with a backslash there. -/
lemma trimChars_ne {us : List Char} (vs : List Char) (h : Tight (us ++ ['\\'])) :
    trimChars (us ++ ')' :: vs) ≠ us ++ ['\\'] := by
  have hfront : (us ++ ')' :: vs).head?.any isBlank = false := by
    cases us with
    | nil => exact (by decide : isBlank ')' = false)
    | cons c us => exact h.1
  intro heq
  rw [trimChars, trimFront, dropWhile_isBlank_eq_self hfront,
    trimBack_append_cons (by decide)] at heq
  cases List.append_cancel_left heq

/-- Where a text that ends in a backslash is written as a tooltip, another text is read. -/
lemma tooltip?_ne {text : String} {us : List Char} (htext : text.toList = us ++ ['\\'])
    (hw : (Symbol.tooltip text).Written names) (n : ℕ) :
    tooltip? names behind (escape us ++ '\\' :: ')' :: rest) ≠ some (text, n) := by
  obtain ⟨-, htight, -, -, hplain⟩ := hw
  rw [htext] at htight hplain
  have hnl : '\n' ∉ us := newline_not_mem fun c hc => hplain c (List.mem_append_left _ hc)
  intro heq
  obtain ⟨slice, hslice, -, hcontent, -⟩ := tooltip?_eq_some_iff.mp heq
  rw [tooltipSlice?_escape_backslash hnl] at hslice
  obtain ⟨more, -, rfl⟩ := Option.map_eq_some_iff.mp hslice
  have hseparate : Separate us ('\\' :: ')' :: more) := by
    refine .inr ?_
    rintro d ⟨⟩
    decide
  rw [htext, unescape_escape_append hseparate, unescape, if_pos ⟨rfl, .inr rfl⟩] at hcontent
  exact trimChars_ne (unescape more) htight hcontent.symm

/-- A text that ends in a backslash is not found again where it is written as a tooltip. -/
lemma not_endsInBackslash_of_scan {text : String} (hw : (Symbol.tooltip text).Written names)
    {ls : List Lexeme} (hs : scan names behind pos (write (.tooltip text :: ss)) = .ok ls)
    (htips : (tooltips (ls.filterMap (·.symbol))).head? = some text) : ¬ endsInBackslash text := by
  intro hend
  obtain ⟨us, htext⟩ := List.getLast?_eq_some_iff.mp hend
  have hwrite : write (.tooltip text :: ss) =
      '(' :: (escape us ++ '\\' :: ')' :: write ss) := by
    rw [write_cons_of_not_isWord rfl, Symbol.chars, markerChars, htext]
    simp [escape]
  rw [hwrite] at hs
  cases htip : tooltip? names behind (escape us ++ '\\' :: ')' :: write ss) with
  | some r =>
      -- what is read instead is another tooltip
      obtain ⟨other, n⟩ := r
      rw [scan_of_glyphAt pos (glyphAt_tooltip htip)] at hs
      obtain ⟨more, -, rfl⟩ := map_eq_ok_iff.mp hs
      cases htips
      exact tooltip?_ne htext hw n htip
  | none =>
      -- a group is read, in which the backslash stands in front of all that opens
      rw [scan_of_glyphAt pos (glyphAt_opening htip), List.drop_zero] at hs
      obtain ⟨more, hmore, -⟩ := map_eq_ok_iff.mp hs
      obtain ⟨xs, ys, heq, hxs⟩ := exists_first_backslash us (')' :: write ss)
      exact scan_ne_ok_of_backslash heq hxs more hmore

lemma tooltips_lexemes_cons (s : Symbol) (start stop : ℕ) (ls : List Lexeme) :
    tooltips ((⟨some s, start, stop⟩ :: ls : List Lexeme).filterMap (·.symbol)) =
      s.tooltip?.toList ++ tooltips (ls.filterMap (·.symbol)) :=
  tooltips_cons s _

/-- If the tooltips that were written are found again, none of them ends in a backslash. -/
lemma not_endsInBackslash_of_scan_write {ls : List Lexeme} (h : Legible names behind ss)
    (hs : scan names behind pos (write ss) = .ok ls)
    (htips : tooltips (ls.filterMap (·.symbol)) = tooltips ss) :
    ∀ text ∈ tooltips ss, ¬ endsInBackslash text := by
  induction ss generalizing behind pos ls with
  | nil => exact fun text htext => absurd htext List.not_mem_nil
  | cons s ss ih =>
      have hhead : ∀ text, s = .tooltip text → ¬ endsInBackslash text := by
        rintro text rfl
        refine not_endsInBackslash_of_scan h.1.written hs ?_
        rw [htips]
        rfl
      obtain ⟨stop, next, hscan⟩ := scan_write_cons h hhead pos
      obtain ⟨more, hmore, rfl⟩ := map_eq_ok_iff.mp (hscan.symm.trans hs)
      rw [tooltips_lexemes_cons, tooltips_cons] at htips
      have htail := ih h.2 hmore (List.append_cancel_left htips)
      intro text htext
      rw [tooltips_cons, List.mem_append, Option.mem_toList] at htext
      rcases htext with htext | htext
      · cases s with
        | tooltip other =>
            cases htext
            exact hhead _ rfl
        | _ => cases htext
      · exact htail text htext

/-! ### The tokens of written symbols -/

/-- Line breaks bring no tooltips. -/
lemma tooltips_ofLexemes (before : Option Symbol) (ls : List Lexeme) :
    tooltips (Token.symbols (Token.ofLexemes before ls)) =
      tooltips (ls.filterMap (·.symbol)) := by
  induction ls generalizing before with
  | nil => rfl
  | cons l ls ih =>
      obtain ⟨_ | s, start, stop⟩ := l
      · rw [Token.ofLexemes]
        split
        · exact ih (some .arrow)
        · exact ih before
      · rw [Token.ofLexemes, Token.symbols_cons, tooltips_lexemes_cons, tooltips_cons, ih]

/-- Pluses bring no tooltips. -/
lemma tooltips_insertPluses (before : Option Symbol) (ts : List Token) :
    tooltips (Token.symbols (Token.insertPluses before ts)) = tooltips (Token.symbols ts) := by
  induction ts generalizing before with
  | nil => rfl
  | cons t ts ih =>
      rw [Token.insertPluses]
      split
      · rw [Token.symbols_cons, Token.symbols_cons, Token.symbols_cons, tooltips_cons,
          tooltips_cons, tooltips_cons, ih]
        rfl
      · rw [Token.symbols_cons, Token.symbols_cons, tooltips_cons, tooltips_cons, ih]

/-- Without line breaks the tokens are the lexemes. -/
lemma symbols_ofLexemes {ls : List Lexeme} (before : Option Symbol)
    (h : ls.map (·.symbol) = ss.map some) :
    Token.symbols (Token.ofLexemes before ls) = ss := by
  induction ls generalizing before ss with
  | nil =>
      cases ss with
      | nil => rfl
      | cons s ss => cases h
  | cons l ls ih =>
      cases ss with
      | nil => cases h
      | cons s ss =>
          obtain ⟨symbol, start, stop⟩ := l
          rw [List.map_cons, List.map_cons, List.cons.injEq] at h
          obtain ⟨rfl, h⟩ := h
          rw [Token.ofLexemes, Token.symbols_cons, ih (some s) h]

/-- Among legible symbols no plus is understood. -/
lemma insertPluses_of_legible {ts : List Token} {before : Option Symbol}
    (h : Legible names (before.any Symbol.endsOperand) (Token.symbols ts)) :
    Token.insertPluses before ts = ts := by
  induction ts generalizing before with
  | nil => rfl
  | cons t ts ih =>
      obtain ⟨hsuits, hrest⟩ := h
      rw [Token.insertPluses, @ih (some t.symbol) hrest, if_neg]
      rw [Bool.and_eq_true, not_and]
      intro hspec hbehind
      rw [hsuits.spec hbehind] at hspec
      cases hspec

/-- **Legible symbols are read again.**  Where no tooltip ends in a backslash, the tokens of what
is written for legible symbols are those symbols. -/
theorem ofChars_write (h : Legible (names.map lowerCase) false ss)
    (hend : ∀ text ∈ tooltips ss, ¬ endsInBackslash text) :
    ∃ ts, Token.ofChars names (write ss) = .ok ts ∧ Token.symbols ts = ss := by
  obtain ⟨ls, hls, hsymbols⟩ := scan_write h hend 0
  have hts := symbols_ofLexemes none hsymbols
  refine ⟨_, map_eq_ok_iff.mpr ⟨ls, hls, rfl⟩, ?_⟩
  have hlegible : Legible (names.map lowerCase) ((none : Option Symbol).any Symbol.endsOperand)
      (Token.symbols (Token.ofLexemes none ls)) := by
    rw [hts]
    exact h
  rw [insertPluses_of_legible hlegible, hts]

/-- **A tooltip that ends in a backslash is not read again.** -/
theorem not_endsInBackslash_of_ofChars_write {ts : List Token}
    (h : Legible (names.map lowerCase) false ss)
    (hts : Token.ofChars names (write ss) = .ok ts)
    (htips : tooltips (Token.symbols ts) = tooltips ss) :
    ∀ text ∈ tooltips ss, ¬ endsInBackslash text := by
  obtain ⟨ls, hls, rfl⟩ := map_eq_ok_iff.mp hts
  rw [tooltips_insertPluses, tooltips_ofLexemes] at htips
  exact not_endsInBackslash_of_scan_write h hls htips

end AbilityRotation
