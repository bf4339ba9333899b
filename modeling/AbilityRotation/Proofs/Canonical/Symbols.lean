import AbilityRotation.Proofs.Descent.Operands
import AbilityRotation.Rotation.Render

/-!
The canonical text as a list of symbols.

The canonical text of a rotation is made of symbols, written one after the other with a space
between two words.  `Rotation.symbols` are the symbols of a rotation, and `write` writes symbols.
* `chars_eq_write`: the canonical text is its symbols, written.
* `Phrase.symbols` are the symbols of what a rule of the grammar reads.
-/

namespace AbilityRotation

/-! ### Writing symbols -/

/-- The characters of a label with its brackets. -/
def labelChars : Option String → List Char
  | some label => '[' :: '*' :: label.toList ++ [']']
  | none => []

namespace Symbol

/-- The characters of a symbol. -/
def chars : Symbol → List Char
  | .word w => w.key.toList ++ labelChars w.label
  | .tooltip text => markerChars text
  | .arrow => ['→']
  | .plus => ['+']
  | .slash => ['/']
  | .opening => ['(']
  | .closing => [')']

/-- Whether the symbol is a word. -/
def isWord : Symbol → Bool
  | .word _ => true
  | _ => false

@[simp] lemma isWord_word (w : Word) : isWord (.word w) = true := rfl

end Symbol

/-- The characters of symbols, with a space between two words. -/
def write : List Symbol → List Char
  | [] => []
  | s :: rest =>
      s.chars ++ (if s.isWord && rest.head?.any Symbol.isWord then [' '] else []) ++ write rest

@[simp] lemma write_nil : write [] = [] := rfl

lemma write_cons_of_not_isWord {s : Symbol} (hs : s.isWord = false) (rest : List Symbol) :
    write (s :: rest) = s.chars ++ write rest := by
  simp [write, hs]

lemma write_cons_of_next {s : Symbol} {rest : List Symbol}
    (hrest : rest.head?.any Symbol.isWord = false) :
    write (s :: rest) = s.chars ++ write rest := by
  simp [write, hrest]

/-- Symbols are written one after the other, unless a word follows a word. -/
lemma write_append {a b : List Symbol}
    (h : a.getLast?.any Symbol.isWord = false ∨ b.head?.any Symbol.isWord = false) :
    write (a ++ b) = write a ++ write b := by
  induction a with
  | nil => rfl
  | cons s a ih =>
      cases a with
      | nil =>
          have hgap : (s.isWord && b.head?.any Symbol.isWord) = false := by
            rcases h with h | h
            · rw [show s.isWord = false by simpa using h, Bool.false_and]
            · rw [h, Bool.and_false]
          simp [write, hgap]
      | cons t a =>
          have ih : write (t :: (a ++ b)) = write (t :: a) ++ write b := ih (by simpa using h)
          show s.chars ++ _ ++ write (t :: (a ++ b)) = s.chars ++ _ ++ write (t :: a) ++ write b
          rw [ih, List.append_assoc, List.append_assoc, List.append_assoc]
          rfl

/-- An operator has no space around it. -/
lemma write_append_cons {a b : List Symbol} {s : Symbol} (hs : s.isWord = false) :
    write (a ++ s :: b) = write a ++ s.chars ++ write b := by
  rw [write_append (.inr (by simpa using hs)), write_cons_of_not_isWord hs, List.append_assoc]

/-- Lists of symbols with an operator between are written with the sign of the operator between. -/
lemma write_intercalate {s : Symbol} (hs : s.isWord = false) (parts : List (List Symbol)) :
    write ([s].intercalate parts) = s.chars.intercalate (parts.map write) := by
  induction parts with
  | nil => rfl
  | cons a parts ih =>
      cases parts with
      | nil => simp [List.intercalate]
      | cons b parts =>
          rw [List.intercalate_cons_cons, List.append_assoc, List.singleton_append,
            write_append_cons hs, ih]
          simp [List.intercalate_cons_cons]

/-! ### The symbols of a rotation -/

/-- The symbols of the use of an ability: its modifiers with a plus after each, and the words of its
key, the label on the last of them. -/
def AbilityUse.symbols (u : AbilityUse) : List Symbol :=
  u.modifiers.flatMap (fun m => [.word ⟨m, none⟩, .plus]) ++
    (⟨u.key, u.label⟩ : Word).pieces.map .word

mutual

/-- The symbols of an alternative. -/
def Alternative.symbols : Alternative → List Symbol
  | .ability u => u.symbols
  | .marker text _ => [.tooltip text]
  | .group steps _ => .opening :: [.arrow].intercalate (symbolsOfSteps steps) ++ [.closing]

/-- The symbols of a term; `slash` says whether a slash stands before its first choice. -/
def symbolsOfTerm (slash : Bool) : List Alternative → List Symbol
  | [] => []
  | a :: rest =>
      if a.isChoice then (if slash then [.slash] else []) ++ a.symbols ++ symbolsOfTerm true rest
      else a.symbols ++ symbolsOfTerm slash rest

/-- The symbols of each term of a step. -/
def symbolsOfStep : List (List Alternative) → List (List Symbol)
  | [] => []
  | t :: rest => symbolsOfTerm false t :: symbolsOfStep rest

/-- The symbols of each step. -/
def symbolsOfSteps : List (List (List Alternative)) → List (List Symbol)
  | [] => []
  | s :: rest => [.plus].intercalate (symbolsOfStep s) :: symbolsOfSteps rest

end

/-- The symbols of a rotation in its canonical text. -/
def Rotation.symbols (r : Rotation) : List Symbol :=
  [.arrow].intercalate (symbolsOfSteps r.steps)

/-- The symbols of what a rule of the grammar reads. -/
def Descent.Phrase.symbols : (p : Descent.Phrase) → p.Value → List Symbol
  | .expression, ss => [.arrow].intercalate (symbolsOfSteps ss)
  | .terms, as => [.plus].intercalate (symbolsOfStep as)
  | .term _, a => symbolsOfTerm false a
  | .alternative _, a => symbolsOfTerm false a
  | .operand _, a => a.symbols

lemma symbols_expression_cons (s : Step) {ss : List Step} (h : ss ≠ []) :
    Descent.Phrase.symbols .expression (s :: ss) =
      Descent.Phrase.symbols .terms s ++ .arrow :: Descent.Phrase.symbols .expression ss := by
  obtain ⟨t, ts, rfl⟩ := List.exists_cons_of_ne_nil h
  simp [Descent.Phrase.symbols, symbolsOfSteps, List.intercalate_cons_cons]

lemma symbols_terms_cons (t : Term) {s : Step} (h : s ≠ []) :
    Descent.Phrase.symbols .terms (t :: s) =
      symbolsOfTerm false t ++ .plus :: Descent.Phrase.symbols .terms s := by
  obtain ⟨u, us, rfl⟩ := List.exists_cons_of_ne_nil h
  simp [Descent.Phrase.symbols, symbolsOfStep, List.intercalate_cons_cons]

/-! ### The canonical text is made of the symbols -/

lemma labelLast_ne_nil (label : Option String) {pieces : List (List Char)} (h : pieces ≠ []) :
    labelLast label pieces ≠ [] := by
  match pieces with
  | [_] => simp [labelLast]
  | _ :: _ :: _ => simp [labelLast]

lemma Word.pieces_ne_nil (w : Word) : w.pieces ≠ [] :=
  labelLast_ne_nil _ (List.splitOn_ne_nil _ _)

/-- Words are written with spaces between. -/
lemma write_labelLast (label : Option String) {pieces : List (List Char)} (h : pieces ≠ []) :
    write ((labelLast label pieces).map .word) =
      [' '].intercalate pieces ++ labelChars label := by
  induction pieces with
  | nil => exact absurd rfl h
  | cons cs pieces ih =>
      cases pieces with
      | nil => simp [labelLast, write, Symbol.chars]
      | cons ds pieces =>
          have ih := ih (List.cons_ne_nil _ _)
          obtain ⟨w, ws, hw⟩ := List.exists_cons_of_ne_nil
            (labelLast_ne_nil label (List.cons_ne_nil ds pieces))
          rw [labelLast, List.map_cons, write, ih, hw]
          simp [Symbol.chars, labelChars, List.intercalate_cons_cons]

/-- A word is written as its pieces. -/
lemma write_pieces (w : Word) :
    write (w.pieces.map .word) = w.key.toList ++ labelChars w.label := by
  rw [Word.pieces, write_labelLast _ (List.splitOn_ne_nil _ _), List.intercalate_splitOn]

/-- Behind an alternative of a term there is a slash, a tooltip or nothing. -/
lemma head?_symbolsOfTerm_true (t : List Alternative) :
    (symbolsOfTerm true t).head?.any Symbol.isWord = false := by
  cases t with
  | nil => rfl
  | cons a t =>
      cases a <;>
        simp [symbolsOfTerm, Alternative.isChoice, Alternative.markerText?, Alternative.symbols,
          Symbol.isWord]

lemma AbilityUse.chars_eq_write (u : AbilityUse) : u.chars true = write u.symbols := by
  have hname : u.nameChars true = write ((⟨u.key, u.label⟩ : Word).pieces.map .word) := by
    rw [write_pieces]
    obtain ⟨key, modifiers, overrides, _ | label⟩ := u <;>
      simp [AbilityUse.nameChars, labelChars]
  rw [AbilityUse.chars, AbilityUse.symbols, hname]
  induction u.modifiers with
  | nil => simp [List.intercalate]
  | cons m ms ih =>
      rw [List.map_cons, List.cons_append, List.flatMap_cons, List.append_assoc, List.cons_append,
        List.singleton_append]
      rw [write_cons_of_next (by rfl), write_cons_of_not_isWord (by rfl), ← ih]
      obtain ⟨x, xs, hx⟩ : ∃ x xs, ms.map String.toList ++
          [write ((⟨u.key, u.label⟩ : Word).pieces.map .word)] = x :: xs :=
        List.exists_cons_of_ne_nil (by simp)
      rw [hx, List.intercalate_cons_cons]
      simp [Symbol.chars, labelChars]

mutual

lemma Alternative.chars_eq_write : ∀ a : Alternative, a.chars true = write a.symbols
  | .ability u => by
      rw [Alternative.chars, Alternative.symbols, u.chars_eq_write]
  | .marker text _ => by
      simp [Alternative.chars, Alternative.symbols, write, Symbol.chars]
  | .group steps _ => by
      rw [Alternative.chars, Alternative.symbols, charsOfSteps_eq_write,
        write_append_cons (by rfl), write_cons_of_not_isWord (by rfl),
        write_intercalate (by rfl)]
      simp [Symbol.chars]

lemma charsOfTerm_eq_write (slash : Bool) :
    ∀ t : List Alternative, charsOfTerm true slash t = write (symbolsOfTerm slash t)
  | [] => by simp [charsOfTerm, symbolsOfTerm]
  | a :: rest => by
      rw [charsOfTerm, symbolsOfTerm]
      split
      · rw [write_append (.inr (head?_symbolsOfTerm_true rest)),
          write_append (.inl (by cases slash <;> rfl)), a.chars_eq_write,
          charsOfTerm_eq_write true rest]
        cases slash <;> rfl
      · next ha =>
          have hlast : a.symbols.getLast?.any Symbol.isWord = false := by
            cases a with
            | marker text kind => simp [Alternative.symbols, Symbol.isWord]
            | _ => exact absurd rfl ha
          rw [write_append (.inl hlast), a.chars_eq_write, charsOfTerm_eq_write slash rest]

lemma charsOfStep_eq_write :
    ∀ s : List (List Alternative), charsOfStep true s = (symbolsOfStep s).map write
  | [] => by simp [charsOfStep, symbolsOfStep]
  | t :: rest => by
      rw [charsOfStep, symbolsOfStep, List.map_cons, charsOfTerm_eq_write, charsOfStep_eq_write]

lemma charsOfSteps_eq_write :
    ∀ ss : List (List (List Alternative)), charsOfSteps true ss = (symbolsOfSteps ss).map write
  | [] => by simp [charsOfSteps, symbolsOfSteps]
  | s :: rest => by
      rw [charsOfSteps, symbolsOfSteps, List.map_cons, charsOfStep_eq_write,
        charsOfSteps_eq_write, write_intercalate (by rfl)]
      rfl

end

/-- The canonical text of a rotation is made of its symbols. -/
theorem Rotation.chars_eq_write (r : Rotation) : r.chars true = write r.symbols := by
  rw [Rotation.chars, Rotation.symbols, charsOfSteps_eq_write, write_intercalate (by rfl)]
  rfl

end AbilityRotation
