import Mathlib.Data.Bool.AllAny
import Mathlib.Data.List.TakeWhile
import Mathlib.Tactic
import AbilityRotation.Text.Blank
import AbilityRotation.Text.Digit
import AbilityRotation.Text.Lines

/-!
Trimming and lines.

* `Text.Tight` says that characters do not begin or end with a blank: trimming makes them so
  (`tight_trimChars`) and leaves them alone then (`trimChars_eq_self`).
* `exists_of_append_eq_append_cons`: in which of two lists a member of both in a row stands.
* `trimmed?_eq_some_iff` and `exists_trimmed?`: something is left of a text that is not blank.
* `lines_intercalate`: lines that are joined by line feeds are found again, and `of_mem_lines`: what
  is found has no line ends.  An empty line at the end is lost (`lines_intercalate_or`).
-/

namespace AbilityRotation

/-- The code points of runs. -/
def CodeRange.codes (runs : List CodeRange) : List ℕ :=
  runs.flatMap fun r => List.range' r.first (r.last + 1 - r.first)

/-- A code point that is covered by runs is one of theirs. -/
lemma CodeRange.mem_codes {runs : List CodeRange} {n : ℕ}
    (h : CodeRange.coverCode runs n = true) : n ∈ CodeRange.codes runs := by
  induction runs with
  | nil => cases h
  | cons r runs ih =>
      rw [CodeRange.codes, List.flatMap_cons, List.mem_append]
      rw [CodeRange.coverCode] at h
      split at h
      · cases h
      · split at h
        · exact .inl (List.mem_range'_1.mpr (by omega))
        · exact .inr (ih h)

lemma Text.isDigitSign_of_isDecimalDigit {c : Char} (h : isDecimalDigit c = true) :
    isDigitSign c = true :=
  Bool.or_eq_true_iff.mpr (.inl h)

/-- No digit sign is blank. -/
lemma Text.isBlank_of_isDigitSign {c : Char} (h : isDigitSign c = true) : isBlank c = false := by
  have hall : ∀ n ∈ CodeRange.codes blankRuns,
      decimalZeros.find?
          (fun start => decide (start ≤ n) && decide (n < start + 10)) = none ∧
        CodeRange.coverCode loneFigureRuns n = false := by
    decide
  by_contra hb
  rw [Bool.not_eq_false] at hb
  obtain ⟨hdecimal, hlone⟩ := hall _ (CodeRange.mem_codes hb)
  rw [isDigitSign, isDecimalDigit, decimalDigit?, hdecimal, CodeRange.cover, hlone] at h
  cases h

lemma isEmpty_eq_false {s : String} (h : s.toList ≠ []) : s.isEmpty = false := by
  rw [← Bool.not_eq_true, String.isEmpty_iff]
  rintro rfl
  exact h rfl

/-! ### Parts of lists -/

section Parts

variable {α : Type*} {x y a b : List α} {s s' : α}

/-- A member of two lists in a row belongs to the first or to the second of them. -/
lemma exists_of_append_eq_append_cons (h : x ++ y = a ++ s :: b) :
    (∃ c, x = a ++ s :: c ∧ b = c ++ y) ∨ ∃ c, y = c ++ s :: b ∧ a = x ++ c := by
  rcases List.append_eq_append_iff.mp h with ⟨c, rfl, hy⟩ | ⟨c, rfl, hsb⟩
  · exact .inr ⟨c, hy, rfl⟩
  · cases c with
    | nil => exact .inr ⟨[], hsb.symm, by simp⟩
    | cons s' c =>
        obtain ⟨rfl, rfl⟩ := List.cons.inj hsb
        exact .inl ⟨c, rfl, rfl⟩

/-- A member that differs from the first one stands behind it. -/
lemma exists_of_cons_eq_append_cons (hne : s' ≠ s) (h : s' :: x = a ++ s :: b) :
    ∃ c, x = c ++ s :: b ∧ a = s' :: c := by
  cases a with
  | nil => exact absurd (List.cons.inj h).1 hne
  | cons s'' c =>
      obtain ⟨rfl, rfl⟩ := List.cons.inj h
      exact ⟨c, rfl, rfl⟩

/-- A member of two lists with another one between stands before it or behind it. -/
lemma exists_of_append_cons_eq_append_cons (hne : s' ≠ s) (h : x ++ s' :: y = a ++ s :: b) :
    (∃ c, x = a ++ s :: c ∧ b = c ++ s' :: y) ∨ ∃ c, y = c ++ s :: b ∧ a = x ++ s' :: c := by
  rcases exists_of_append_eq_append_cons h with hfirst | ⟨c, hc, rfl⟩
  · exact .inl hfirst
  · obtain ⟨c', hc', rfl⟩ := exists_of_cons_eq_append_cons hne hc
    exact .inr ⟨c', hc', rfl⟩

end Parts

namespace Text

/-! ### Trimming -/

/-- Neither the first nor the last of the characters is blank. -/
def Tight (cs : List Char) : Prop :=
  cs.head?.any isBlank = false ∧ cs.getLast?.any isBlank = false

lemma head?_dropWhile_isBlank (cs : List Char) :
    (cs.dropWhile isBlank).head?.any isBlank = false := by
  induction cs with
  | nil => rfl
  | cons c cs ih =>
      rw [List.dropWhile_cons]
      split
      · exact ih
      · next hc => simpa using hc

lemma dropWhile_isBlank_eq_self {cs : List Char} (h : cs.head?.any isBlank = false) :
    cs.dropWhile isBlank = cs := by
  cases cs with
  | nil => rfl
  | cons c cs => rw [List.dropWhile_cons_of_neg (by simpa using h)]

/-- Characters that are tight are not changed by trimming. -/
lemma trimChars_eq_self {cs : List Char} (h : Tight cs) : trimChars cs = cs := by
  have hback : cs.reverse.dropWhile isBlank = cs.reverse :=
    dropWhile_isBlank_eq_self (by rw [List.head?_reverse]; exact h.2)
  rw [trimChars, trimFront, dropWhile_isBlank_eq_self h.1, trimBack, hback, List.reverse_reverse]

lemma trimBack_append_dropped (cs : List Char) :
    ∃ blanks, cs = trimBack cs ++ blanks := by
  refine ⟨(cs.reverse.takeWhile isBlank).reverse, ?_⟩
  rw [trimBack, ← List.reverse_append, List.takeWhile_append_dropWhile, List.reverse_reverse]

/-- Trimmed characters are tight. -/
lemma tight_trimChars (cs : List Char) : Tight (trimChars cs) := by
  constructor
  · obtain ⟨blanks, hb⟩ := trimBack_append_dropped (trimFront cs)
    have hfront := head?_dropWhile_isBlank cs
    change (trimFront cs).head?.any isBlank = false at hfront
    rw [trimChars]
    cases ht : trimBack (trimFront cs) with
    | nil => rfl
    | cons c ds =>
        rw [hb, ht] at hfront
        simpa using hfront
  · rw [trimChars, trimBack, List.getLast?_reverse]
    exact head?_dropWhile_isBlank _

/-- Trimming adds no characters. -/
lemma mem_of_mem_trimChars {cs : List Char} {c : Char} (h : c ∈ trimChars cs) : c ∈ cs := by
  rw [trimChars, trimBack, List.mem_reverse] at h
  have h1 := (List.dropWhile_sublist _).subset h
  rw [List.mem_reverse] at h1
  exact (List.dropWhile_sublist _).subset h1

/-- Behind a character that is not blank, trimming the end stays behind it. -/
lemma trimBack_append_cons {cs ds : List Char} {c : Char} (hc : isBlank c = false) :
    trimBack (cs ++ c :: ds) = cs ++ c :: trimBack ds := by
  have hrev : (cs ++ c :: ds).reverse = ds.reverse ++ c :: cs.reverse := by
    simp
  rw [trimBack, hrev, List.dropWhile_append]
  split
  · next hempty =>
      rw [List.isEmpty_iff] at hempty
      rw [List.dropWhile_cons_of_neg (by simp [hc]), trimBack, hempty]
      simp
  · simp [trimBack]

/-- Characters that do not begin with a blank keep their first one. -/
lemma trimChars_cons {cs : List Char} {c : Char} (hc : isBlank c = false) :
    trimChars (c :: cs) = c :: trimBack cs := by
  have hfront : (c :: cs).dropWhile isBlank = c :: cs := dropWhile_isBlank_eq_self hc
  have hback : trimBack ([] ++ c :: cs) = [] ++ c :: trimBack cs := trimBack_append_cons hc
  rw [trimChars, trimFront, hfront]
  exact hback

/-- Nothing is left of blanks, and only of blanks. -/
lemma trimChars_eq_nil_iff {cs : List Char} : trimChars cs = [] ↔ ∀ c ∈ cs, isBlank c = true := by
  have hback : ∀ ds : List Char, trimBack ds = [] ↔ ∀ c ∈ ds, isBlank c = true := by
    intro ds
    rw [trimBack, List.reverse_eq_nil_iff, List.dropWhile_eq_nil_iff]
    simp only [List.mem_reverse]
  rw [trimChars, hback, trimFront]
  constructor
  · intro h c hc
    -- what is dropped in front is blank, and so is what is left
    rw [← List.takeWhile_append_dropWhile (p := isBlank) (l := cs), List.mem_append] at hc
    exact hc.elim List.mem_takeWhile_imp (h c)
  · exact fun h c hc => h c ((List.dropWhile_sublist _).subset hc)

/-- A blank at the end is trimmed. -/
lemma trimChars_concat {cs : List Char} {c : Char} (hc : isBlank c = true) :
    trimChars (cs ++ [c]) = trimChars cs := by
  have hback : ∀ ds : List Char, trimBack (ds ++ [c]) = trimBack ds := by
    intro ds
    rw [trimBack, List.reverse_concat, List.dropWhile_cons_of_pos hc, trimBack]
  rw [trimChars, trimChars, trimFront, trimFront, List.dropWhile_append]
  split
  · next hnil => rw [List.isEmpty_iff.mp hnil, List.dropWhile_cons_of_pos hc, List.dropWhile_nil]
  · rw [hback]

/-- What is left of a text by trimming, if anything is. -/
lemma trimmed?_eq_some_iff {s t : String} : trimmed? s = some t ↔ trim s = t ∧ t.toList ≠ [] := by
  rw [trimmed?]
  split
  · next hempty =>
      rw [String.isEmpty_iff] at hempty
      rw [hempty]
      exact ⟨fun h => (Option.some_ne_none t h.symm).elim, fun h => absurd (h.1 ▸ rfl) h.2⟩
  · next hempty =>
      rw [Option.some_inj]
      refine ⟨fun h => ⟨h, fun hnil => hempty ?_⟩, And.left⟩
      rw [String.isEmpty_iff, h, ← String.toList_eq_nil_iff, hnil]

/-- Something is left of a text that is not blank. -/
lemma exists_trimmed? {s : String} (h : isBlankText s = false) : ∃ t, trimmed? s = some t := by
  refine ⟨trim s, trimmed?_eq_some_iff.mpr ⟨rfl, fun hnil => ?_⟩⟩
  rw [trim, String.toList_ofList, trimChars_eq_nil_iff, ← List.all_eq_true] at hnil
  rw [isBlankText, hnil] at h
  cases h

/-- What is left by trimming is not blank. -/
lemma isBlankText_of_trimmed? {s t : String} (h : trimmed? s = some t) : isBlankText t = false := by
  obtain ⟨rfl, hne⟩ := trimmed?_eq_some_iff.mp h
  have htight : Tight (trim s).toList := by
    rw [trim, String.toList_ofList]
    exact tight_trimChars _
  rwa [← Bool.not_eq_true, isBlankText, List.all_eq_true, ← trimChars_eq_nil_iff,
    trimChars_eq_self htight]

/-! ### Lines -/

/-- A line feed ends a line. -/
lemma lines_append_newline {cs : List Char} (h : ∀ c ∈ cs, isLineEnd c = false)
    (rest : List Char) : lines (cs ++ '\n' :: rest) = cs :: lines rest := by
  induction cs with
  | nil => exact lines_newline_cons rest
  | cons c cs ih =>
      have hc := h c List.mem_cons_self
      have hcr : c ≠ '\r' := by
        rintro rfl
        cases hc
      rw [List.cons_append, lines]
      · rw [hc, ih fun d hd => h d (List.mem_cons_of_mem _ hd)]
        rfl
      · rintro more rfl
        exact absurd rfl hcr

/-- Characters without line ends are one line. -/
lemma lines_eq_singleton {cs : List Char} (hne : cs ≠ []) (h : ∀ c ∈ cs, isLineEnd c = false) :
    lines cs = [cs] := by
  induction cs with
  | nil => exact absurd rfl hne
  | cons c cs ih =>
      have hc := h c List.mem_cons_self
      have hcr : c ≠ '\r' := by
        rintro rfl
        cases hc
      rw [lines]
      · rw [hc]
        cases cs with
        | nil => rfl
        | cons d cs =>
            rw [ih (List.cons_ne_nil _ _) fun e he => h e (List.mem_cons_of_mem _ he)]
            rfl
      · rintro rest rfl
        exact absurd rfl hcr

/-- Lines joined by line feeds are found again. -/
lemma lines_intercalate {ls : List (List Char)}
    (h : ∀ l ∈ ls, l ≠ [] ∧ ∀ c ∈ l, isLineEnd c = false) :
    lines (['\n'].intercalate ls) = ls := by
  induction ls with
  | nil => rfl
  | cons l ls ih =>
      obtain ⟨hne, hl⟩ := h l List.mem_cons_self
      have hls : ∀ m ∈ ls, m ≠ [] ∧ ∀ c ∈ m, isLineEnd c = false :=
        fun m hm => h m (List.mem_cons_of_mem _ hm)
      cases ls with
      | nil =>
          rw [show ['\n'].intercalate [l] = l by simp [List.intercalate]]
          exact lines_eq_singleton hne hl
      | cons m ls =>
          rw [List.intercalate_cons_cons, List.append_assoc, List.singleton_append,
            lines_append_newline hl, ih hls]

/-- Lines joined by line feeds are found again, but for an empty line at the end. -/
lemma lines_intercalate_or {ls : List (List Char)} (h : ∀ l ∈ ls, ∀ c ∈ l, isLineEnd c = false) :
    lines (['\n'].intercalate ls) = ls ∨ ls = lines (['\n'].intercalate ls) ++ [[]] := by
  induction ls with
  | nil => exact .inl rfl
  | cons l ls ih =>
      have hl := h l List.mem_cons_self
      cases ls with
      | nil =>
          rw [List.intercalate_singleton]
          cases l with
          | nil => exact .inr rfl
          | cons c cs => exact .inl (lines_eq_singleton (List.cons_ne_nil _ _) hl)
      | cons m ls =>
          rw [List.intercalate_cons_cons, List.append_assoc, List.singleton_append,
            lines_append_newline hl, List.cons_append, List.cons_inj_right, List.cons_inj_right]
          exact ih fun m hm => h m (List.mem_cons_of_mem _ hm)

/-- The lines of a text have no line ends, and their characters are those of the text. -/
lemma of_mem_lines {cs line : List Char} {c : Char} (hl : line ∈ lines cs) (hc : c ∈ line) :
    c ∈ cs ∧ isLineEnd c = false := by
  induction cs using lines.induct generalizing line with
  | case1 => simp [lines] at hl
  | case2 rest ih =>
      rw [lines, List.mem_cons] at hl
      rcases hl with rfl | hl
      · cases hc
      · have := ih hl hc
        exact ⟨by simp [this.1], this.2⟩
  | case3 d rest hne hd ih =>
      rw [lines, if_pos hd, List.mem_cons] at hl
      · rcases hl with rfl | hl
        · cases hc
        · have := ih hl hc
          exact ⟨by simp [this.1], this.2⟩
      · exact hne
  | case4 d rest hne hd hnil ih =>
      rw [lines, if_neg hd, hnil] at hl
      · rw [List.mem_singleton.mp hl, List.mem_singleton] at hc
        subst hc
        exact ⟨List.mem_cons_self, by simpa using hd⟩
      · exact hne
  | case5 d rest hne hd first more heq ih =>
      rw [lines, if_neg hd, heq] at hl
      · rcases List.mem_cons.mp hl with rfl | hl
        · rcases List.mem_cons.mp hc with rfl | hc
          · exact ⟨List.mem_cons_self, by simpa using hd⟩
          · have := ih (heq ▸ List.mem_cons_self) hc
            exact ⟨List.mem_cons_of_mem _ this.1, this.2⟩
        · have := ih (heq ▸ List.mem_cons_of_mem _ hl) hc
          exact ⟨List.mem_cons_of_mem _ this.1, this.2⟩
      · exact hne

end Text

end AbilityRotation
