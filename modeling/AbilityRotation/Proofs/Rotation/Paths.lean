import Mathlib.Tactic
import AbilityRotation.Proofs.Number.Whole
import AbilityRotation.Proofs.Text.Trimming
import AbilityRotation.Rotation.Address

/-!
Paths determine addresses.

The path of an address is a root followed by the writing of its places.  The indices of a place are
closed by brackets, so that its writing determines it and where it ends.
* `place_append_inj`: the writing of a place determines the place and the rest.
* `Address.text_injective`: different addresses have different paths.
-/

namespace AbilityRotation

open Number

/-- The number in front of a closing bracket is determined, and so is what follows. -/
lemma digitChars_append_inj {m n : ℕ} {x y : List Char}
    (h : digitChars m ++ ']' :: x = digitChars n ++ ']' :: y) : m = n ∧ x = y := by
  have hspan : ∀ (n : ℕ) (z : List Char),
      (digitChars n ++ ']' :: z).takeWhile Char.isDigit = digitChars n ∧
        (digitChars n ++ ']' :: z).dropWhile Char.isDigit = ']' :: z := by
    intro n z
    have hdigits : ∀ c ∈ digitChars n, c.isDigit = true := fun c hc => (of_mem_digitChars hc).1
    rw [List.takeWhile_append_of_pos hdigits, List.dropWhile_append_of_pos hdigits]
    exact ⟨by simp, by simp⟩
  obtain ⟨htake, hdrop⟩ := hspan m x
  rw [h] at htake hdrop
  have hdigits := (hspan n y).1.symm.trans htake
  have hrest := (hspan n y).2.symm.trans hdrop
  refine ⟨?_, (List.cons.inj hrest).2.symm⟩
  rw [← ofDigitChars_digitChars m, ← hdigits, ofDigitChars_digitChars]

/-! ### Places -/

/-- A name with an index in brackets. -/
def indexChars (name : String) (n : ℕ) : List Char :=
  name.toList ++ '[' :: (digitChars n ++ [']'])

/-- The writing of an index determines it and what follows. -/
lemma indexChars_append_inj {name : String} {m n : ℕ} {x y : List Char}
    (h : indexChars name m ++ x = indexChars name n ++ y) : m = n ∧ x = y := by
  simp only [indexChars, List.append_assoc, List.cons_append, List.nil_append,
    List.append_cancel_left_eq, List.cons.injEq, true_and] at h
  exact digitChars_append_inj h

/-- The characters that lead to a place. -/
def Place.chars (p : Place) : List Char :=
  indexChars ".steps" p.step ++
    (indexChars ".terms" p.term ++ indexChars ".alternatives" p.alternative)

/-- The writing of a place determines the place and what follows. -/
lemma place_append_inj {p q : Place} {x y : List Char} (h : p.chars ++ x = q.chars ++ y) :
    p = q ∧ x = y := by
  simp only [Place.chars, List.append_assoc] at h
  obtain ⟨hstep, h⟩ := indexChars_append_inj h
  obtain ⟨hterm, h⟩ := indexChars_append_inj h
  obtain ⟨halternative, hrest⟩ := indexChars_append_inj h
  refine ⟨?_, hrest⟩
  cases p
  cases q
  simp_all

/-! ### Addresses -/

namespace Address

/-- The characters of a path behind its root. -/
def chars : Address → List Char
  | [] => []
  | [p] => p.chars
  | p :: q :: rest => p.chars ++ (".definition".toList ++ chars (q :: rest))

lemma toList_join {base : String} (hb : base.toList ≠ []) (fragment : String) :
    (join base fragment).toList = base.toList ++ fragment.toList := by
  rw [join, isEmpty_eq_false hb, if_neg Bool.false_ne_true, String.toList_append]

lemma toList_placePath {base : String} (hb : base.toList ≠ []) (p : Place) :
    (placePath base p.step p.term (some p.alternative)).toList = base.toList ++ p.chars := by
  simp only [placePath]
  rw [toList_join (by rw [toList_join hb]; simp [hb]), toList_join hb]
  simp [Place.chars, indexChars, wholeText, wholeChars]

/-- A path continues its base. -/
lemma toList_textFrom {base : String} (hb : base.toList ≠ []) (a : Address) :
    (textFrom base a).toList = base.toList ++ a.chars := by
  induction a generalizing base with
  | nil => simp [textFrom, chars]
  | cons p rest ih =>
      have hpath := toList_placePath hb p
      cases rest with
      | nil => rw [textFrom, hpath, chars]
      | cons q rest =>
          have hfull : (placePath base p.step p.term (some p.alternative)).toList ≠ [] := by
            simp [hpath, hb]
          have hbelow : (join (placePath base p.step p.term (some p.alternative))
              ".definition").toList ≠ [] := by
            simp [toList_join hfull, hfull]
          rw [textFrom, ih hbelow, toList_join hfull, hpath, chars, List.append_assoc,
            List.append_assoc]
          simp

lemma chars_ne_nil (p : Place) (rest : Address) : chars (p :: rest) ≠ [] := by
  cases rest <;> simp [chars, Place.chars, indexChars]

lemma chars_injective {a b : Address} (h : a.chars = b.chars) : a = b := by
  induction a generalizing b with
  | nil =>
      cases b with
      | nil => rfl
      | cons q rest => exact absurd h.symm (chars_ne_nil q rest)
  | cons p rest ih =>
      cases b with
      | nil => exact absurd h (chars_ne_nil p rest)
      | cons q rest' =>
          -- what stands behind a place begins with the mark of a group, if there is anything
          have hbehind : ∀ (p : Place) (rest : Address), chars (p :: rest) = p.chars ++
              (if rest = [] then [] else ".definition".toList ++ chars rest) := by
            intro p rest
            cases rest <;> simp [chars]
          rw [hbehind, hbehind] at h
          obtain ⟨rfl, h⟩ := place_append_inj h
          cases rest with
          | nil =>
              cases rest' with
              | nil => rfl
              | cons q rest' => simp at h
          | cons q rest =>
              cases rest' with
              | nil => simp at h
              | cons q' rest' =>
                  simp only [reduceCtorEq, if_false, List.append_cancel_left_eq] at h
                  rw [ih h]

/-- **Paths determine addresses.** -/
theorem text_injective : Function.Injective Address.text := by
  intro a b h
  have hroot : root.toList ≠ [] := by decide
  have hchars : root.toList ++ a.chars = root.toList ++ b.chars := by
    rw [← toList_textFrom hroot, ← toList_textFrom hroot]
    exact congrArg String.toList h
  exact chars_injective (List.append_cancel_left hchars)

end Address

end AbilityRotation
