import Mathlib.Data.Bool.AllAny
import Mathlib.Tactic
import AbilityRotation.Number.Whole
import AbilityRotation.Proofs.Text.Trimming

/-!
Whole numbers are read back from their texts.

Numbers are written with few characters (`numerals`), which reading leaves as they are: they need no
plain form, and no underscores group them.
* `plainForm_eq_self` and `withoutGrouping?_eq_some`: written numbers need no preparation.
* `Writable` says which whole numbers can be written.
* `ofDigitChars_digitChars`: the digits of a number are read as the number.
* `whole?_wholeChars`: a whole number is read back unless it has too many digits.
* `whole?_of_isDecimalDigit`: digits of any script write a whole number.
-/

namespace AbilityRotation.Number

variable {cs ds : List Char} {c : Char} {n : ℕ}

/-! ### Digits -/

lemma digits_ne_nil (n : ℕ) : digits n ≠ [] := by
  rw [digits]
  split
  · exact List.cons_ne_nil _ _
  · exact List.append_ne_nil_of_right_ne_nil _ (List.cons_ne_nil _ _)

lemma digitChars_ne_nil (n : ℕ) : digitChars n ≠ [] :=
  fun h => digits_ne_nil n (List.map_eq_nil_iff.mp h)

@[simp] lemma length_digitChars (n : ℕ) : (digitChars n).length = (digits n).length :=
  List.length_map _

lemma lt_pow_length_digits (n : ℕ) : n < 10 ^ (digits n).length := by
  fun_induction digits n with
  | case1 n h => simpa using h
  | case2 n h ih =>
      rw [List.length_append, List.length_singleton, Nat.pow_succ]
      omega

lemma pow_length_digits_le (hn : n ≠ 0) : 10 ^ ((digits n).length - 1) ≤ n := by
  fun_induction digits n with
  | case1 n h =>
      rw [List.length_singleton, Nat.sub_self, Nat.pow_zero]
      omega
  | case2 n h ih =>
      have ih := ih (by omega)
      have hlength : (digits (n / 10)).length ≠ 0 := fun h0 =>
        digits_ne_nil _ (List.length_eq_zero_iff.mp h0)
      obtain ⟨k, hk⟩ := Nat.exists_eq_succ_of_ne_zero hlength
      rw [List.length_append, List.length_singleton, hk, Nat.add_sub_cancel]
      rw [hk, Nat.succ_sub_one] at ih
      rw [Nat.succ_eq_add_one, Nat.pow_succ]
      omega

/-- A number below a power of ten has no more digits than that. -/
lemma length_digits_le {k : ℕ} (h : n < 10 ^ k) (hk : 0 < k) : (digits n).length ≤ k := by
  by_cases hn : n = 0
  · rw [hn, digits, if_pos (by decide)]
    exact hk
  · have hlt : 10 ^ ((digits n).length - 1) < 10 ^ k :=
      calc 10 ^ ((digits n).length - 1) ≤ n := pow_length_digits_le hn
        _ < 10 ^ k := h
    have hlength : (digits n).length - 1 < k := (Nat.pow_lt_pow_iff_right (by decide)).mp hlt
    omega

/-- The characters with which numbers are written. -/
def numerals : List Char :=
  "0123456789-+.e".toList

/-- A written digit is a digit. -/
lemma of_mem_digitChars (h : c ∈ digitChars n) : c.isDigit = true ∧ c ∈ numerals := by
  have hall : ∀ d < 10, (digitChar d).isDigit = true ∧ digitChar d ∈ numerals := by
    decide
  obtain ⟨d, hd, rfl⟩ := List.mem_map.mp h
  exact hall d (lt_ten_of_mem_digits hd)

/-- The digits of a number are read as the number. -/
lemma ofDigitChars_digitChars (n : ℕ) : ofDigitChars (digitChars n) = n := by
  have hall : ∀ d < 10, (digitChar d).toNat - '0'.toNat = d := by
    decide
  have hvalues : (digitChars n).map (fun c => c.toNat - '0'.toNat) = digits n :=
    calc (digitChars n).map (fun c => c.toNat - '0'.toNat)
        = (digits n).map fun d => (digitChar d).toNat - '0'.toNat := List.map_map
      _ = (digits n).map id := List.map_congr_left fun d hd => hall d (lt_ten_of_mem_digits hd)
      _ = digits n := List.map_id _
  rw [ofDigitChars, hvalues, ofDigits_digits]

/-! ### Writing -/

/-- Whether a whole number has few enough digits to be written. -/
def Writable (n : ℤ) : Prop :=
  n.natAbs < 10 ^ maxDigits

lemma writable_iff_length {n : ℤ} : Writable n ↔ (digits n.natAbs).length ≤ maxDigits := by
  rw [Writable]
  constructor
  · exact fun h => length_digits_le h (by decide)
  · intro h
    calc n.natAbs < 10 ^ (digits n.natAbs).length := lt_pow_length_digits n.natAbs
      _ ≤ 10 ^ maxDigits := Nat.pow_le_pow_right (by decide) h

/-- Small numbers can be written. -/
lemma writable_of_lt {n : ℤ} (h : n.natAbs < 10 ^ 5) : Writable n :=
  h.trans_le (Nat.pow_le_pow_right (by decide) (by decide))

/-- When a whole number is written. -/
lemma writeWhole_eq_ok_iff {n : ℤ} {s : String} :
    writeWhole n = .ok s ↔ Writable n ∧ wholeText n = s := by
  rw [writeWhole, writable_iff_length]
  split
  · next h => simp [h]
  · next h => simp [h]

/-- The whole numbers that can be written. -/
lemma exists_writeWhole_iff {n : ℤ} : (∃ s, writeWhole n = .ok s) ↔ Writable n := by
  simp only [writeWhole_eq_ok_iff, exists_and_left, exists_eq', and_true]

/-! ### Preparation -/

lemma dropWhile_isPadding_eq_self (h : ∀ c ∈ cs, isPadding c = false) :
    cs.dropWhile isPadding = cs := by
  cases cs with
  | nil => rfl
  | cons c cs => rw [List.dropWhile_cons_of_neg (by simp [h c List.mem_cons_self])]

/-- The plain form of characters that are no blanks. -/
lemma plainForm_eq_map (h : ∀ c ∈ cs, isPadding (plainChar c) = false) :
    plainForm cs = cs.map plainChar := by
  have hpadding : ∀ c ∈ cs.map plainChar, isPadding c = false := by
    intro c hc
    obtain ⟨d, hd, rfl⟩ := List.mem_map.mp hc
    exact h d hd
  rw [plainForm, dropWhile_isPadding_eq_self hpadding, dropWhile_isPadding_eq_self,
    List.reverse_reverse]
  exact fun c hc => hpadding c (List.mem_reverse.mp hc)

/-- Written numbers are their own plain form. -/
lemma plainForm_eq_self (h : ∀ c ∈ cs, c ∈ numerals) : plainForm cs = cs := by
  have hall : ∀ c ∈ numerals, isPadding (plainChar c) = false ∧ plainChar c = c :=
    List.all_iff_forall_prop.mp (by decide)
  calc plainForm cs = cs.map plainChar := plainForm_eq_map fun c hc => (hall c (h c hc)).1
    _ = cs.map id := List.map_congr_left fun c hc => (hall c (h c hc)).2
    _ = cs := List.map_id _

/-- Without underscores nothing is left out. -/
lemma withoutGrouping?_eq_some (h : '_' ∉ cs) (afterDigit : Bool) :
    withoutGrouping? afterDigit cs = some cs := by
  induction cs generalizing afterDigit with
  | nil => rfl
  | cons c cs ih =>
      rw [List.mem_cons, not_or] at h
      rw [withoutGrouping?, ih h.2]
      · rfl
      · rintro rfl
        exact absurd rfl h.1
      · rintro d rest rfl
        exact absurd rfl h.1

/-- A written number is read as it stands. -/
lemma withoutGrouping?_plainForm (h : ∀ c ∈ cs, c ∈ numerals) :
    withoutGrouping? false (plainForm cs) = some cs := by
  rw [plainForm_eq_self h]
  refine withoutGrouping?_eq_some (fun hm => ?_) false
  have hmem := h _ hm
  revert hmem
  decide

/-- In front of digits there is no sign. -/
lemma splitSign_eq_false (hne : cs ≠ []) (h : ∀ c, cs.head? = some c → c.isDigit = true) :
    splitSign cs = (false, cs) := by
  obtain ⟨c, cs, rfl⟩ := List.exists_cons_of_ne_nil hne
  have hc := h c rfl
  rw [splitSign]
  · rintro rest ⟨⟩
    cases hc
  · rintro rest ⟨⟩
    cases hc

/-! ### Reading back -/

lemma mem_numerals_of_mem_wholeChars {n : ℤ} (h : c ∈ wholeChars n) : c ∈ numerals := by
  cases n with
  | ofNat n => exact (of_mem_digitChars h).2
  | negSucc n =>
      rcases List.mem_cons.mp h with rfl | h
      · decide
      · exact (of_mem_digitChars h).2

/-- A whole number is read back from its characters unless it has too many digits. -/
theorem whole?_wholeChars {n : ℤ} (hn : Writable n) : whole? (wholeChars n) = some n := by
  have h := writable_iff_length.mp hn
  have hdigits : ∀ m : ℕ, (digitChars m).all Char.isDigit = true := fun m =>
    List.all_eq_true.mpr fun c hc => (of_mem_digitChars hc).1
  have hempty : ∀ m : ℕ, (digitChars m).isEmpty = false := fun m =>
    List.isEmpty_eq_false_iff.mpr (digitChars_ne_nil m)
  rw [whole?, withoutGrouping?_plainForm fun c hc => mem_numerals_of_mem_wholeChars hc]
  cases n with
  | ofNat n =>
      have hsign : splitSign (wholeChars (.ofNat n)) = (false, digitChars n) :=
        splitSign_eq_false (digitChars_ne_nil n) fun c hc =>
          (of_mem_digitChars (List.mem_of_head? hc)).1
      simp only [Option.bind_eq_bind, Option.bind_some, hsign, hempty, hdigits, length_digitChars,
        ofDigitChars_digitChars]
      rw [if_pos (by simpa using h)]
      rfl
  | negSucc n =>
      have hsign : splitSign (wholeChars (.negSucc n)) = (true, digitChars (n + 1)) := rfl
      simp only [Option.bind_eq_bind, Option.bind_some, hsign, hempty, hdigits, length_digitChars,
        ofDigitChars_digitChars]
      rw [if_pos (by simpa using h)]
      rfl

/-! ### Digits of all scripts -/

/-- The plain form of a digit is one of the ten in ASCII. -/
lemma isDigit_plainChar (h : Text.isDecimalDigit c = true) : (plainChar c).isDigit = true := by
  obtain ⟨d, hd⟩ := Option.isSome_iff_exists.mp h
  rw [plainChar]
  split
  · next hascii =>
      have hzeros : ∀ start ∈ Text.decimalZeros, start < 127 → start = 48 := by decide
      obtain ⟨start, hstart, -⟩ := Option.map_eq_some_iff.mp hd
      have hspan := List.find?_some hstart
      rw [Bool.and_eq_true, decide_eq_true_eq, decide_eq_true_eq] at hspan
      have hfirst := hzeros start (List.mem_of_find?_eq_some hstart) (by omega)
      rw [Char.isDigit_iff_toNat]
      change 48 ≤ c.toNat ∧ c.toNat ≤ 57
      omega
  · have hall : ∀ d < 10, (digitChar d).isDigit = true := by decide
    rw [Text.isBlank_of_isDigitSign (Text.isDigitSign_of_isDecimalDigit h), hd]
    exact hall d (Text.decimalDigit?_lt hd)

lemma isPadding_of_isDigit (h : c.isDigit = true) : isPadding c = false := by
  by_contra hp
  rw [Bool.not_eq_false] at hp
  simp only [isPadding, Bool.or_eq_true, decide_eq_true_eq, or_assoc] at hp
  rcases hp with rfl | rfl | rfl | rfl | rfl | rfl <;> cases h

/-- Digits of any script write a whole number unless there are too many of them. -/
theorem whole?_of_isDecimalDigit (hne : cs ≠ [])
    (h : ∀ c ∈ cs, Text.isDecimalDigit c = true) :
    whole? cs =
      if cs.length ≤ maxDigits then some (ofDigitChars (cs.map plainChar) : ℤ) else none := by
  have hdigits : ∀ c ∈ cs.map plainChar, c.isDigit = true := by
    intro c hc
    obtain ⟨d, hd, rfl⟩ := List.mem_map.mp hc
    exact isDigit_plainChar (h d hd)
  have hplain : plainForm cs = cs.map plainChar :=
    plainForm_eq_map fun c hc => isPadding_of_isDigit (isDigit_plainChar (h c hc))
  have hgrouping : withoutGrouping? false (cs.map plainChar) = some (cs.map plainChar) :=
    withoutGrouping?_eq_some (fun hm => Bool.false_ne_true (hdigits _ hm)) false
  have hsign : splitSign (cs.map plainChar) = (false, cs.map plainChar) :=
    splitSign_eq_false (by simpa using hne) fun c hc => hdigits c (List.mem_of_head? hc)
  have hall : (cs.map plainChar).all Char.isDigit = true := List.all_eq_true.mpr hdigits
  rw [whole?, hplain, hgrouping]
  simp only [Option.bind_eq_bind, Option.bind_some, hsign, hall, List.isEmpty_map,
    List.isEmpty_eq_false_iff.mpr hne, List.length_map]
  simp

end AbilityRotation.Number
