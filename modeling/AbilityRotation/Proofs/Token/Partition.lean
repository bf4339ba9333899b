import AbilityRotation.Proofs.Token.Passages

/-!
The lexemes of a text and its characters.

The ranges of the lexemes divide a text: they follow one another, and what lies outside them is
white space other than line feeds.
* `Lexeme.Spells`: how the characters of a lexeme look, between those on both sides.
* `Lexeme.LaidOut`: characters as spelled lexemes with white space between, after others.
* `laidOut_of_scan`: what is scanned is laid out.
* `LaidOut.partition` says the same with indices, and `partition_of_ofChars` says it of a text.
-/

namespace AbilityRotation

namespace Lexeme

open Text

variable {names : List String} {t : Bool} {c : Char} {g : Glyph} {s : Option Symbol}
  {cs front slice back rest : List Char} {ls : List Lexeme} {pos n : ℕ}

/-! ### How lexemes are spelled -/

/-- A maximal run of word characters, cut before any arrow. -/
structure IsWordRun (front run back : List Char) : Prop where
  /-- There is a character. -/
  ne_nil : run ≠ []
  /-- All of them are word characters. -/
  wordChars : ∀ c ∈ run, isWordChar c = true
  /-- No arrow begins with one of them. -/
  inside : ∀ x y, run = x ++ y → y ≠ [] → startsArrow (y ++ back) = false
  /-- In front of them there is no word character. -/
  before : ∀ c ∈ front.getLast?, isWordChar c = false
  /-- Behind them there is none either, or an arrow begins. -/
  after : ∀ c ∈ back.head?, isWordChar c = true → startsArrow back = true

/-- How the characters `slice` spell a symbol, or a line break, between `front` and `back`. -/
def Spells (front slice back : List Char) : Option Symbol → Prop
  | some (.word w) =>
      slice = w.key.toList ++ labelChars w.label ∧
        IsWordRun front w.key.toList (labelChars w.label ++ back) ∧
          (w.label = none → back.head? ≠ some '[')
  | some (.tooltip text) =>
      ∃ inner, slice = '(' :: inner ++ [')'] ∧ trimChars (unescape inner) = text.toList
  | some .arrow => slice = ['→'] ∨ slice = ['-', '>']
  | some .plus => slice = ['+']
  | some .slash => slice = ['/']
  | some .opening => slice = ['(']
  | some .closing => slice = [')']
  | none => slice = ['\n']

/-- Whether no run of word characters is torn apart between the two. -/
def Apart (front back : List Char) : Prop :=
  (∀ c ∈ front.getLast?, isWordChar c = false) ∨ ¬BeginsWord back

lemma Apart.concat (hc : isWordChar c = false) (front back : List Char) :
    Apart (front ++ [c]) back := by
  refine .inl fun d hd => ?_
  rw [List.getLast?_concat] at hd
  rwa [← Option.some.inj hd]

lemma labelChars_some (label : String) :
    labelChars (some label) = ('[' :: '*' :: label.toList) ++ [']'] := rfl

lemma Spells.ne_nil (h : Spells front slice back s) : slice ≠ [] := by
  rintro rfl
  cases s with
  | none => cases h
  | some s =>
      cases s with
      | word w => exact h.2.1.ne_nil (List.append_eq_nil_iff.mp h.1.symm).1
      | tooltip text =>
          obtain ⟨inner, hinner, -⟩ := h
          cases hinner
      | arrow => rcases h with h | h <;> cases h
      | _ => cases h

/-- No run of word characters is torn apart behind a lexeme. -/
lemma Spells.apart (h : Spells front slice back s) : Apart (front ++ slice) back := by
  -- all but a word without a label end in a character that no word has
  cases s with
  | none =>
      obtain rfl : slice = ['\n'] := h
      exact .concat (isWordChar_separator (by decide)) front back
  | some s =>
      cases s with
      | word w =>
          obtain ⟨rfl, hrun, -⟩ := h
          cases hl : w.label with
          | some label =>
              rw [labelChars_some, ← List.append_assoc, ← List.append_assoc]
              exact .concat (isWordChar_separator (by decide)) _ back
          | none =>
              have hafter := hrun.after
              rw [hl] at hafter
              refine .inr ?_
              rintro ⟨c, rest, rfl, hc, harrow⟩
              exact Bool.false_ne_true (harrow.symm.trans (hafter c rfl hc))
      | tooltip text =>
          obtain ⟨inner, rfl, -⟩ := h
          rw [← List.append_assoc]
          exact .concat (isWordChar_separator (by decide)) _ back
      | arrow =>
          rcases h with rfl | rfl
          · exact .concat (isWordChar_separator (by decide)) front back
          · rw [← List.singleton_append, ← List.append_assoc]
            exact .concat (isWordChar_separator (by decide)) _ back
      | plus | slash | opening | closing =>
          obtain rfl : slice = _ := h
          exact .concat (isWordChar_separator (by decide)) front back

/-! ### Glyphs are spelled -/

/-- What stands in the place of a glyph: a blank, or what spells its lexeme. -/
def Covers (front slice back : List Char) : Glyph → Prop
  | .symbol s => Spells front slice back (some s)
  | .lineBreak => Spells front slice back none
  | .space => ∃ c, slice = [c] ∧ isSpace c = true
  | .gap => ∃ c, slice = [c] ∧ isBlank c = true ∧ isSpace c = false ∧ c ≠ '\n'

/-- A word at the beginning of characters is a run that no arrow and no word character continues. -/
lemma exists_of_wordRun (cs : List Char) :
    ∃ back, cs = wordRun cs ++ back ∧
      (∀ x y, wordRun cs = x ++ y → y ≠ [] → startsArrow (y ++ back) = false) ∧
        ∀ c ∈ back.head?, isWordChar c = true → startsArrow back = true := by
  induction cs with
  | nil => exact ⟨[], rfl, by simp [wordRun], by simp⟩
  | cons c cs ih =>
      rw [wordRun]
      split
      · next hc =>
          rw [Bool.and_eq_true, Bool.not_eq_true'] at hc
          obtain ⟨back, hback, hinside, hafter⟩ := ih
          refine ⟨back, by rw [List.cons_append, ← hback], fun x y hxy hy => ?_, hafter⟩
          -- an arrow inside would begin at the first character, or in the rest of the run
          cases x with
          | nil =>
              obtain rfl : y = c :: wordRun cs := hxy.symm
              rw [List.cons_append, ← hback]
              exact hc.2
          | cons d x => exact hinside x y (List.cons.inj hxy).2 hy
      · next hc =>
          refine ⟨c :: cs, rfl, ?_, ?_⟩
          · rintro x y hxy hy
            exact absurd (List.append_eq_nil_iff.mp hxy.symm).2 hy
          · rintro _ ⟨⟩ hword
            simpa [hword] using hc

lemma covers_of_wordAt {w : Word} (hc : isWordChar c = true)
    (ha : startsArrow (c :: rest) = false) (h : wordAt (c :: rest) = .ok (w, n + 1))
    (hfront : ∀ c ∈ front.getLast?, isWordChar c = false) :
    ∃ more back, rest = more ++ back ∧ more.length = n ∧
      Spells front (c :: more) back (some (.word w)) := by
  obtain ⟨back, hback, hlength, hbracket⟩ := exists_of_wordAt h
  obtain ⟨after, hafter, hinside, hstop⟩ := exists_of_wordRun (c :: rest)
  rw [← key_of_wordAt h] at hafter hinside
  have hne : w.key.toList ≠ [] := by
    rw [key_of_wordAt h, wordRun, hc, ha]
    exact List.cons_ne_nil _ _
  have hword : ∀ d ∈ w.key.toList, isWordChar d = true := by
    rw [key_of_wordAt h]
    exact fun d hd => (isWordChar_of_mem_wordRun hd).1
  -- the characters of the word and its label begin with `c`
  obtain ⟨more, hmore⟩ : ∃ more, w.key.toList ++ labelChars w.label = c :: more := by
    obtain ⟨d, key, hkey⟩ := List.exists_cons_of_ne_nil hne
    rw [hkey, List.cons_append, List.cons_append] at hback
    rw [hkey, (List.cons.inj hback).1, List.cons_append]
    exact ⟨_, rfl⟩
  rw [hmore, List.length_cons] at hlength
  rw [hback, List.append_assoc] at hafter
  obtain rfl := List.append_cancel_left hafter
  rw [hmore, List.cons_append] at hback
  exact ⟨more, back, (List.cons.inj hback).2, by omega, hmore.symm,
    ⟨hne, hword, hinside, hfront, hstop⟩, hbracket⟩

lemma covers_of_tooltip? {text : String} (h : tooltip? names t rest = some (text, n))
    (front : List Char) :
    ∃ more back, rest = more ++ back ∧ more.length = n ∧
      Spells front ('(' :: more) back (some (.tooltip text)) := by
  obtain ⟨inner, hinner, rfl, htext, -⟩ := tooltip?_eq_some_iff.mp h
  obtain ⟨back, rfl, -⟩ := exists_of_tooltipSlice? hinner
  exact ⟨inner ++ [')'], back, by simp, by simp, inner, rfl, htext.symm⟩

/-- A character that is a glyph on its own spells it. -/
lemma covers_singleton (hopening : c ≠ '(') (hword : ∀ w, g ≠ .symbol (.word w))
    (h : glyphAt names t c [] = .ok (g, 0)) (front back : List Char) : Covers front [c] back g := by
  rw [glyphAt] at h
  split_ifs at h with hnewline hspace hblank harrow hascii hplus hslash hclosing hchar
  · cases h
    subst hnewline
    rfl
  · cases h
    exact ⟨c, rfl, hspace⟩
  · cases h
    exact ⟨c, rfl, hblank, by simpa using hspace, hnewline⟩
  · cases h
    subst harrow
    exact .inl rfl
  · cases h
  · cases h
    subst hplus
    rfl
  · cases h
    subst hslash
    rfl
  · cases h
    subst hclosing
    rfl
  · obtain ⟨⟨w, n⟩, -, heq⟩ := map_eq_ok_iff.mp h
    exact absurd (congrArg Prod.fst heq).symm (hword w)

/-- The characters of a glyph spell it. -/
theorem covers_of_glyphAt (hfront : Apart front (c :: rest))
    (h : glyphAt names t c rest = .ok (g, n)) :
    ∃ more back, rest = more ++ back ∧ more.length = n ∧ Covers front (c :: more) back g := by
  cases isGlyph_of_glyphAt h with
  | tooltip hc htip =>
      subst hc
      exact covers_of_tooltip? htip front
  | opening hc _ => exact ⟨[], rest, rfl, rfl, congrArg (fun d => [d]) hc⟩
  | word hc ha hw =>
      have hbegins : BeginsWord (c :: rest) := ⟨c, rest, rfl, hc, ha⟩
      exact covers_of_wordAt hc ha hw (hfront.resolve_right (not_not_intro hbegins))
  | arrow ha =>
      obtain ⟨rfl, rest, rfl⟩ := eq_of_startsArrow ha
      exact ⟨['>'], rest, rfl, rfl, .inr rfl⟩
  | single hopening _ hword hsame =>
      exact ⟨[], rest, rfl, rfl, covers_singleton hopening hword (hsame []) front rest⟩

lemma isBlank_of_isSpace (h : isSpace c = true) : isBlank c = true ∧ c ≠ '\n' := by
  rw [isSpace, Bool.or_eq_true, decide_eq_true_eq, decide_eq_true_eq] at h
  rcases h with rfl | rfl <;> decide

/-! ### Texts -/

/-- Characters as spelled lexemes with white space between, after the characters `front`. -/
inductive LaidOut : (front : List Char) → List Char → List Lexeme → Prop
  /-- No characters. -/
  | nil {front : List Char} : LaidOut front [] []
  /-- White space. -/
  | blank {front back : List Char} {c : Char} {ls : List Lexeme} (hc : isBlank c = true)
      (hnewline : c ≠ '\n') (h : LaidOut (front ++ [c]) back ls) : LaidOut front (c :: back) ls
  /-- A lexeme. -/
  | lexeme {front slice back : List Char} {s : Option Symbol} {ls : List Lexeme}
      (hs : Spells front slice back s) (h : LaidOut (front ++ slice) back ls) :
      LaidOut front (slice ++ back) (⟨s, front.length, front.length + slice.length⟩ :: ls)

/-- What a glyph covers is laid out in front of what comes behind it. -/
lemma LaidOut.of_covers (h : LaidOut (front ++ slice) back ls) (hg : Covers front slice back g) :
    LaidOut front (slice ++ back)
      ((ofGlyph? front.length (front.length + slice.length) g).toList ++ ls) := by
  cases g with
  | symbol s => exact .lexeme hg h
  | lineBreak => exact .lexeme hg h
  | space =>
      obtain ⟨c, rfl, hc⟩ := hg
      obtain ⟨hblank, hnewline⟩ := isBlank_of_isSpace hc
      exact .blank hblank hnewline h
  | gap =>
      obtain ⟨c, rfl, hblank, -, hnewline⟩ := hg
      exact .blank hblank hnewline h

lemma Covers.apart (h : Covers front slice back g) : Apart (front ++ slice) back := by
  have hblank : ∀ {c : Char}, isBlank c = true → isWordChar c = false := fun hc =>
    Bool.eq_false_iff.mpr fun hword =>
      Bool.false_ne_true ((isBlank_of_isWordChar hword).symm.trans hc)
  cases g with
  | symbol s => exact Spells.apart h
  | lineBreak => exact Spells.apart (s := none) h
  | space =>
      obtain ⟨c, rfl, hc⟩ := h
      exact .concat (hblank (isBlank_of_isSpace hc).1) front back
  | gap =>
      obtain ⟨c, rfl, hc, -⟩ := h
      exact .concat (hblank hc) front back

/-- What is scanned is laid out. -/
theorem laidOut_of_scan (h : scan names t pos cs = .ok ls) (hpos : pos = front.length)
    (hfront : Apart front cs) : LaidOut front cs ls := by
  induction t, pos, cs using scan.induct names generalizing front ls with
  | case1 t pos =>
      rw [scan] at h
      cases h
      exact .nil
  | case2 t pos c rest cause offset hg =>
      rw [scan, hg] at h
      cases h
  | case3 t pos c rest g n hg ih =>
      subst hpos
      obtain ⟨more, back, rfl, rfl, hcovers⟩ := covers_of_glyphAt hfront hg
      rw [scan, hg] at h
      obtain ⟨behind, hbehind, rfl⟩ := map_eq_ok_iff.mp h
      rw [List.drop_left] at ih hbehind
      have hlaid : LaidOut (front ++ c :: more) back behind :=
        ih hbehind (by simp [Nat.add_assoc]) hcovers.apart
      exact hlaid.of_covers hcovers

namespace LaidOut

lemma bounds (h : LaidOut front cs ls) :
    ∀ l ∈ ls, front.length ≤ l.start ∧ l.start < l.stop ∧ l.stop ≤ (front ++ cs).length := by
  induction h with
  | nil => simp
  | @blank front back c ls _ _ _ ih =>
      intro l hl
      obtain ⟨hstart, hlt, hstop⟩ := ih l hl
      simp only [List.length_append, List.length_cons, List.length_nil] at hstart hstop ⊢
      omega
  | @lexeme front slice back s ls hs _ ih =>
      have hpos := List.length_pos_of_ne_nil hs.ne_nil
      intro l hl
      simp only [List.length_append] at ih ⊢
      rcases List.mem_cons.mp hl with rfl | hl
      · dsimp only
        omega
      · have hl := ih l hl
        omega

lemma ordered (h : LaidOut front cs ls) : ls.Pairwise fun l l' => l.stop ≤ l'.start := by
  induction h with
  | nil => exact .nil
  | blank _ _ _ ih => exact ih
  | @lexeme front slice back s ls _ h ih =>
      refine .cons (fun l hl => ?_) ih
      have hstart := (h.bounds l hl).1
      rwa [List.length_append] at hstart

lemma outside (h : LaidOut front cs ls) (hi : front.length ≤ n)
    (hc : (front ++ cs)[n]? = some c) (hout : ∀ l ∈ ls, n < l.start ∨ l.stop ≤ n) :
    isBlank c = true ∧ c ≠ '\n' := by
  induction h with
  | nil =>
      rw [List.append_nil, List.getElem?_eq_none hi] at hc
      cases hc
  | @blank front back d ls hd hnewline _ ih =>
      rcases hi.eq_or_lt with rfl | hlt
      · rw [List.getElem?_append_right le_rfl, Nat.sub_self] at hc
        cases hc
        exact ⟨hd, hnewline⟩
      · refine ih ?_ ?_ hout
        · rw [List.length_append]
          exact hlt
        · rwa [List.append_assoc]
  | @lexeme front slice back s ls _ _ ih =>
      rw [List.forall_mem_cons] at hout
      refine ih ?_ ?_ hout.2
      · rw [List.length_append]
        exact hout.1.resolve_left (Nat.not_lt.mpr hi)
      · rwa [List.append_assoc]

lemma spelled (h : LaidOut front cs ls) :
    ∀ l ∈ ls, Spells ((front ++ cs).take l.start)
      (((front ++ cs).drop l.start).take (l.stop - l.start)) ((front ++ cs).drop l.stop)
        l.symbol := by
  induction h with
  | nil => simp
  | @blank front back c ls _ _ _ ih =>
      rw [List.append_cons]
      exact ih
  | @lexeme front slice back s ls hs _ ih =>
      rw [← List.append_assoc]
      refine List.forall_mem_cons.mpr ⟨?_, ih⟩
      rw [← List.length_append, List.drop_left, List.append_assoc, List.take_left, List.drop_left,
        List.length_append, Nat.add_sub_cancel_left, List.take_left]
      exact hs

end LaidOut

/-- How lexemes divide the characters of a text. -/
structure Partition (cs : List Char) (ls : List Lexeme) : Prop where
  /-- Each range holds characters of the text. -/
  bounds : ∀ l ∈ ls, l.start < l.stop ∧ l.stop ≤ cs.length
  /-- A range ends before the next ones begin. -/
  ordered : ls.Pairwise fun l l' => l.stop ≤ l'.start
  /-- What lies outside all ranges is white space, and not the end of a line. -/
  outside : ∀ i c, cs[i]? = some c → (∀ l ∈ ls, i < l.start ∨ l.stop ≤ i) →
    isBlank c = true ∧ c ≠ '\n'
  /-- The characters in a range spell the lexeme. -/
  spelled : ∀ l ∈ ls, Spells (cs.take l.start) ((cs.drop l.start).take (l.stop - l.start))
    (cs.drop l.stop) l.symbol

/-- **Lexemes divide a text.**  Each lexeme has the range of the characters that spell it, the
ranges follow one another, and nothing but white space lies outside them. -/
theorem partition_of_ofChars (h : ofChars names cs = .ok ls) : Partition cs ls := by
  have hlaid : LaidOut [] cs ls := laidOut_of_scan h rfl (.inl (by simp))
  exact ⟨fun l hl => (hlaid.bounds l hl).2, hlaid.ordered,
    fun i c hc hout => hlaid.outside (Nat.zero_le i) hc hout, hlaid.spelled⟩

/-- The text `cane->`, a line feed, a tab and `ice[*2] (max\(3\) )` is divided into five ranges: two
characters of white space lie outside them, and a third one inside the tooltip. -/
theorem partition_of_ofChars_ice :
    let text := "cane->\n\tice[*2] (max\\(3\\) )".toList
    let lexemes : List Lexeme :=
      [⟨some (.word ⟨"cane", none⟩), 0, 4⟩, ⟨some .arrow, 4, 6⟩, ⟨none, 6, 7⟩,
        ⟨some (.word ⟨"ice", some "2"⟩), 8, 15⟩, ⟨some (.tooltip "max(3)"), 16, 27⟩]
    ofChars ["cane"] text = .ok lexemes ∧ Partition text lexemes := by
  intro text lexemes
  have hlexemes : ofChars ["cane"] text = .ok lexemes := by
    decide +kernel
  exact ⟨hlexemes, partition_of_ofChars hlexemes⟩

end Lexeme

end AbilityRotation
