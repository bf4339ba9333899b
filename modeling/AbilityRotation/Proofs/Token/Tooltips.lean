import AbilityRotation.Proofs.Token.Partition

/-!
Where tooltips are read.

Whether an opening parenthesis begins a tooltip depends on the whole text: on what it touches on its
left, across spaces and tabs, and on the characters behind it.
* `Lexeme.tooltipAt?`: the tooltip that begins at an index of a text.
* `Passes.touchesBehind_eq`: while a text is scanned, it is known at each place what a parenthesis
  would touch there; so each parenthesis of a text is read as `tooltipAt?` says
  (`lexeme_at_opening`).
* `hasOperator_eq_false_iff`: a text without operators.
* `tooltipAt?_escape_iff`: which texts are read again behind a word, when they are written between
  parentheses with their own parentheses escaped.
-/

namespace AbilityRotation

namespace Lexeme

open Text

variable {names : List String} {t t' : Bool} {g : Glyph} {ss : List (Option Symbol)}
  {cs front slice back after : List Char} {ls : List Lexeme} {l : Lexeme}

/-! ### What a parenthesis touches -/

/-- Whether a parenthesis behind the characters touches something: in front of spaces and tabs
stands a word character, a closing parenthesis or a closing bracket. -/
def touchesBehind (front : List Char) : Bool :=
  (front.reverse.dropWhile isSpace).head?.any fun c => isWordChar c || c = ')' || c = ']'

/-- The tooltip that begins with the parenthesis at an index of a text, with the index behind it. -/
def tooltipAt? (names : List String) (cs : List Char) (i : ℕ) : Option (String × ℕ) :=
  (tooltip? names (touchesBehind (cs.take i)) (cs.drop (i + 1))).map fun (text, n) =>
    (text, i + 1 + n)

lemma touchesBehind_concat_space {c : Char} (hc : isSpace c = true) (front : List Char) :
    touchesBehind (front ++ [c]) = touchesBehind front := by
  rw [touchesBehind, List.reverse_append, List.reverse_singleton, List.singleton_append,
    List.dropWhile_cons_of_pos hc, touchesBehind]

lemma touchesBehind_concat {c : Char} (hc : isSpace c = false) (front : List Char) :
    touchesBehind (front ++ [c]) = (isWordChar c || c = ')' || c = ']') := by
  rw [touchesBehind, List.reverse_append, List.reverse_singleton, List.singleton_append,
    List.dropWhile_cons_of_neg (by simp [hc])]
  rfl

lemma touchesBehind_concat_sign {c : Char} (hspace : isSpace c = false) (hc : c ∈ separators)
    (front : List Char) : touchesBehind (front ++ [c]) = (c = ')' || c = ']') := by
  rw [touchesBehind_concat hspace, isWordChar_separator hc, Bool.false_or]

/-- Behind a symbol, a parenthesis touches something exactly if an operand ends there. -/
lemma Spells.touchesBehind_eq {s : Symbol} (h : Spells front slice back (some s)) :
    touchesBehind (front ++ slice) = s.endsOperand := by
  cases s with
  | word w =>
      obtain ⟨rfl, hrun, -⟩ := h
      cases hl : w.label with
      | some label =>
          rw [labelChars_some, ← List.append_assoc, ← List.append_assoc]
          exact touchesBehind_concat_sign (by decide) (by decide) _
      | none =>
          obtain ⟨key, c, hkey⟩ := w.key.toList.eq_nil_or_concat'.resolve_left hrun.ne_nil
          have hc : isWordChar c = true := hrun.wordChars c (by simp [hkey])
          rw [labelChars, List.append_nil, hkey, ← List.append_assoc,
            touchesBehind_concat (isSpace_of_isWordChar hc), hc]
          rfl
  | tooltip text =>
      obtain ⟨inner, rfl, -⟩ := h
      rw [← List.append_assoc]
      exact touchesBehind_concat_sign (by decide) (by decide) _
  | arrow =>
      rcases h with rfl | rfl
      · exact touchesBehind_concat_sign (by decide) (by decide) front
      · rw [← List.singleton_append, ← List.append_assoc]
        exact touchesBehind_concat_sign (by decide) (by decide) _
  | plus | slash | opening | closing =>
      obtain rfl : slice = _ := h
      exact touchesBehind_concat_sign (by decide) (by decide) front

/-- What a glyph changes about what a parenthesis behind it touches. -/
lemma Covers.touchesBehind_eq (h : Covers front slice back g) :
    touchesBehind (front ++ slice) = touchesAfter (touchesBehind front) g := by
  cases g with
  | symbol s => exact Spells.touchesBehind_eq h
  | lineBreak =>
      obtain rfl : slice = ['\n'] := h
      exact touchesBehind_concat_sign (by decide) (by decide) front
  | space =>
      obtain ⟨c, rfl, hc⟩ := h
      exact touchesBehind_concat_space hc front
  | gap =>
      obtain ⟨c, rfl, hblank, hspace, -⟩ := h
      have hne : ∀ d, isBlank d = false → c ≠ d := by
        rintro d hd rfl
        exact Bool.false_ne_true (hd.symm.trans hblank)
      have hword : isWordChar c = false := Bool.eq_false_iff.mpr fun hc =>
        hne c (isBlank_of_isWordChar hc) rfl
      rw [touchesBehind_concat hspace, hword]
      simp [hne ')' (by decide), hne ']' (by decide), touchesAfter]

/-- The scanner knows what a parenthesis touches: behind characters that are passed it is what
stands there. -/
lemma Passes.touchesBehind_eq (h : Passes names after t cs t' ss) (ht : t = touchesBehind front)
    (hfront : Apart front (cs ++ after)) : t' = touchesBehind (front ++ cs) := by
  induction h generalizing front with
  | nil => rw [ht, List.append_nil]
  | @cons t t' c cs more g ss h _ ih =>
      subst ht
      rw [List.append_assoc] at hfront
      obtain ⟨slice, back, hsplit, hlength, hcovers⟩ := covers_of_glyphAt hfront h
      obtain ⟨rfl, rfl⟩ := List.append_inj hsplit hlength.symm
      rw [ih hcovers.touchesBehind_eq.symm hcovers.apart, List.append_assoc]

lemma tooltipAt?_append (names : List String) (front rest : List Char) :
    tooltipAt? names (front ++ '(' :: rest) front.length =
      (tooltip? names (touchesBehind front) rest).map fun (text, n) =>
        (text, front.length + 1 + n) := by
  rw [tooltipAt?, List.take_left, ← List.drop_drop, List.drop_left, List.drop_one, List.tail_cons]

/-- **Parentheses are read as the text has them.**  Where a lexeme of a text begins with an opening
parenthesis, it is the tooltip that begins at this index, and the beginning of a group if there is
none. -/
theorem lexeme_at_opening (h : ofChars names cs = .ok ls) (hl : l ∈ ls)
    (hc : cs[l.start]? = some '(') :
    (∃ text, tooltipAt? names cs l.start = some (text, l.stop) ∧
      l.symbol = some (.tooltip text)) ∨
      tooltipAt? names cs l.start = none ∧ l.symbol = some .opening := by
  obtain ⟨front, back, hls⟩ := List.append_of_mem hl
  cases hs : l.symbol with
  | none =>
      have hspelled := (partition_of_ofChars h).spelled l hl
      rw [hs] at hspelled
      have hhead := congrArg List.head? hspelled
      rw [List.head?_take, List.head?_drop, hc] at hhead
      split at hhead <;> cases hhead
  | some s =>
      obtain ⟨cs₁, c, rest, t, n, rfl, hstart, hpasses, hglyph, hscan⟩ := exists_passes h hls hs
      rw [Nat.zero_add] at hstart
      rw [hstart, List.getElem?_append_right le_rfl, Nat.sub_self] at hc
      obtain rfl : c = '(' := Option.some.inj hc
      -- the scan knows at this place what a look back at the text finds
      have ht : t = touchesBehind ([] ++ cs₁) :=
        hpasses.touchesBehind_eq rfl (.inl (by simp))
      rw [List.nil_append] at ht
      rw [scan_of_glyphAt l.start hglyph] at hscan
      obtain ⟨_, -, hcons⟩ := map_eq_ok_iff.mp hscan
      have hstop : l.stop = l.start + n + 1 := congrArg stop (List.cons.inj hcons).1.symm
      rw [hstart, tooltipAt?_append, ← ht]
      cases htip : tooltip? names t rest with
      | none =>
          rw [glyphAt_opening htip] at hglyph
          cases hglyph
          exact .inr ⟨rfl, rfl⟩
      | some r =>
          obtain ⟨text, m⟩ := r
          rw [glyphAt_tooltip htip] at hglyph
          cases hglyph
          refine .inl ⟨text, ?_, rfl⟩
          rw [hstop, hstart, Option.map_some, Nat.add_right_comm]

/-! ### Operators -/

/-- The operators, as they are written. -/
def operators : List (List Char) :=
  [['→'], ['-', '>'], ['+'], ['/']]

lemma startsArrow_iff : startsArrow cs = true ↔ ['-', '>'] <+: cs := by
  constructor
  · intro h
    cases cs with
    | nil => cases h
    | cons c cs =>
        obtain ⟨rfl, rest, rfl⟩ := eq_of_startsArrow h
        exact ⟨rest, rfl⟩
  · rintro ⟨rest, rfl⟩
    rfl

/-- A text holds an operator exactly if one of them stands somewhere in it. -/
lemma hasOperator_iff : hasOperator cs = true ↔ ∃ op ∈ operators, op <:+: cs := by
  induction cs with
  | nil => simp [hasOperator, operators]
  | cons c cs ih =>
      have hhere : (∃ op ∈ operators, op <+: c :: cs) ↔
          c = '→' ∨ c = '+' ∨ c = '/' ∨ startsArrow (c :: cs) = true := by
        rw [startsArrow_iff]
        simp only [operators, List.mem_cons, List.not_mem_nil, or_false, exists_eq_or_imp,
          exists_eq_left, List.cons_prefix_cons, List.nil_prefix, and_true, @eq_comm _ _ c]
        tauto
      simp only [List.infix_cons_iff, and_or_left, exists_or, ← ih, hhere]
      rw [hasOperator]
      simp only [Bool.or_eq_true, decide_eq_true_eq]
      tauto

/-- **Which texts are read again as tooltips.**  Behind a word character, a text that is written
between parentheses, with a backslash in front of each of its own parentheses, is read again exactly
if it is not empty, has no white space around it, is on one line, holds no operator, does not end in
a backslash and is no name, whatever the case of its letters. -/
theorem tooltipAt?_escape_iff (names : List String) {p : List Char}
    (hp : ∃ d ∈ p.getLast?, isWordChar d = true) (text : String) (s : List Char) :
    tooltipAt? (names.map lowerCase) (p ++ '(' :: (escape text.toList ++ ')' :: s)) p.length =
        some (text, p.length + 1 + (escape text.toList).length + 1) ↔
      text.toList ≠ [] ∧ Tight text.toList ∧ '\n' ∉ text.toList ∧
        (∀ op ∈ operators, ¬op <:+: text.toList) ∧ text.toList.getLast? ≠ some '\\' ∧
          lowerCase text ∉ names.map lowerCase := by
  have htouches : touchesBehind p = true := by
    obtain ⟨d, hd, hword⟩ := hp
    obtain ⟨front, rfl⟩ := List.getLast?_eq_some_iff.mp hd
    rw [touchesBehind_concat (isSpace_of_isWordChar hword), hword]
    rfl
  have hoperators : (∀ op ∈ operators, ¬op <:+: text.toList) ↔
      hasOperator text.toList = false := by
    rw [← Bool.not_eq_true, hasOperator_iff]
    simp
  have hindex : ∀ r : Option (String × ℕ), (r.map fun (text, n) => (text, p.length + 1 + n)) =
      some (text, p.length + 1 + (escape text.toList).length + 1) ↔
        r = some (text, (escape text.toList).length + 1) := by
    rintro (_ | ⟨text', n⟩)
    · simp
    · simp only [Option.map_some, Option.some.injEq, Prod.mk.injEq]
      exact and_congr_right fun _ => ⟨fun h => by omega, fun h => by omega⟩
  rw [tooltipAt?_append, hindex, tooltip?_escape_iff, htouches, hoperators]
  simp [endsInBackslash]

/-- Behind `slow`, the text `a\(b)` is read again, though a backslash of its own stands in front of
the one that escapes its parenthesis. -/
theorem tooltipAt?_escape_iff_backslash :
    (∃ d ∈ "slow".toList.getLast?, isWordChar d = true) ∧
      tooltipAt? (["Cane"].map lowerCase) "slow(a\\\\(b\\))!".toList 4 = some ("a\\(b)", 13) := by
  have hslow : ∃ d ∈ "slow".toList.getLast?, isWordChar d = true :=
    ⟨'w', rfl, by decide⟩
  refine ⟨hslow, (tooltipAt?_escape_iff ["Cane"] hslow "a\\(b)" "!".toList).mpr ?_⟩
  exact ⟨by decide, ⟨by decide, by decide⟩, by decide, by decide, by decide, by decide⟩

end Lexeme

end AbilityRotation
