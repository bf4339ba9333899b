import AbilityRotation.Proofs.Number.Rounding

/-!
Floating-point numbers are read back from their texts.

However a decimal is laid out, it begins with a digit, consists of numerals and is read as a decimal
of the same value (`Written`).
* `writesValue_layout`: every layout is of that kind (`WritesValue`).
* `Binary64.ofChars?_chars`: a finite number is read back from its characters.
* `Binary64.ofChars?_wholeChars`: a whole number is read as the number nearest to it.
-/

namespace AbilityRotation.Number

/-! ### Digits -/

/-- Written digits. -/
def Digits (cs : List Char) : Prop :=
  ∀ c ∈ cs, c.isDigit = true ∧ c ∈ numerals

variable {cs ds front fraction power : List Char} {p : ℤ} {d : Decimal}

lemma digits_digitChars (n : ℕ) : Digits (digitChars n) :=
  fun _ hc => of_mem_digitChars hc

lemma Digits.append (hcs : Digits cs) (hds : Digits ds) : Digits (cs ++ ds) :=
  fun c hc => (List.mem_append.mp hc).elim (hcs c) (hds c)

lemma Digits.of_subset (h : Digits cs) (hds : ds ⊆ cs) : Digits ds :=
  fun c hc => h c (hds hc)

lemma digits_zeros (n : ℕ) : Digits (Binary64.zeros n) := by
  intro c hc
  rw [List.eq_of_mem_replicate hc]
  decide

lemma Digits.all (h : Digits cs) : cs.all Char.isDigit = true :=
  List.all_eq_true.mpr fun c hc => (h c hc).1

/-- Digits are read up to a character that is none. -/
lemma Digits.takeWhile_append (h : Digits cs)
    (hds : ∀ c, ds.head? = some c → c.isDigit = false) :
    (cs ++ ds).takeWhile Char.isDigit = cs ∧ (cs ++ ds).dropWhile Char.isDigit = ds := by
  have hcs : ∀ c ∈ cs, c.isDigit = true := fun c hc => (h c hc).1
  rw [List.takeWhile_append_of_pos hcs, List.dropWhile_append_of_pos hcs]
  cases ds with
  | nil => simp
  | cons c ds => simp [hds c rfl]

lemma foldl_digits (ds : List ℕ) (n : ℕ) :
    ds.foldl (fun n d => 10 * n + d) n = n * 10 ^ ds.length + ofDigits ds := by
  induction ds generalizing n with
  | nil => simp [ofDigits]
  | cons d ds ih =>
      have hcons : ofDigits (d :: ds) = d * 10 ^ ds.length + ofDigits ds := by
        rw [ofDigits, List.foldl_cons, ih, Nat.mul_zero, Nat.zero_add]
      rw [List.foldl_cons, ih, hcons, List.length_cons, Nat.pow_succ]
      ring

/-- Digits behind others. -/
lemma ofDigitChars_append (cs ds : List Char) :
    ofDigitChars (cs ++ ds) = ofDigitChars cs * 10 ^ ds.length + ofDigitChars ds := by
  rw [ofDigitChars, List.map_append, ofDigits, List.foldl_append, foldl_digits, List.length_map]
  rfl

lemma ofDigitChars_zeros (n : ℕ) : ofDigitChars (Binary64.zeros n) = 0 := by
  induction n with
  | zero => rfl
  | succ n ih =>
      rw [Binary64.zeros, List.replicate_succ', ofDigitChars_append]
      rw [Binary64.zeros] at ih
      rw [ih]
      rfl

/-- Zeros in front do not count. -/
lemma ofDigitChars_zeros_append (n : ℕ) (cs : List Char) :
    ofDigitChars (Binary64.zeros n ++ cs) = ofDigitChars cs := by
  rw [ofDigitChars_append, ofDigitChars_zeros, Nat.zero_mul, Nat.zero_add]

namespace Binary64

/-! ### Reading what is laid out -/

/-- Characters of a number: they begin with a digit, are numerals and are read as the decimal. -/
structure Written (cs : List Char) (d : Decimal) : Prop where
  /-- There is no sign in front. -/
  head : ∀ c, cs.head? = some c → c.isDigit = true
  /-- The characters are those of numbers. -/
  numerals : ∀ c ∈ cs, c ∈ numerals
  /-- The decimal is read. -/
  read : decimal? cs = some d

/-- An exponent, if there is one. -/
structure Power (cs : List Char) (p : ℤ) : Prop where
  /-- The exponent begins with its letter. -/
  head : ∀ c, cs.head? = some c → c = 'e'
  /-- The characters are those of numbers. -/
  numerals : ∀ c ∈ cs, c ∈ numerals
  /-- The exponent is read. -/
  read : exponent? cs = some p

lemma power_nil : Power [] 0 :=
  ⟨by simp, by simp, rfl⟩

/-- A written exponent is read, with zeros in front of its digits. -/
lemma power_place (zeros : ℕ) (place : ℤ) :
    Power ('e' :: (if place < 0 then '-' else '+') ::
      (Binary64.zeros zeros ++ digitChars place.natAbs)) place := by
  have hdigits : Digits (Binary64.zeros zeros ++ digitChars place.natAbs) :=
    (digits_zeros zeros).append (digits_digitChars _)
  have hempty : (Binary64.zeros zeros ++ digitChars place.natAbs).isEmpty = false := by
    rw [List.isEmpty_eq_false_iff]
    exact List.append_ne_nil_of_right_ne_nil _ (digitChars_ne_nil _)
  have hvalue : ofDigitChars (Binary64.zeros zeros ++ digitChars place.natAbs) = place.natAbs := by
    rw [ofDigitChars_zeros_append, ofDigitChars_digitChars]
  refine ⟨by simp, ?_, ?_⟩
  · intro c hc
    rcases List.mem_cons.mp hc with rfl | hc
    · decide
    · rcases List.mem_cons.mp hc with rfl | hc
      · split <;> decide
      · exact (hdigits c hc).2
  · have hsign : splitSign ((if place < 0 then '-' else '+') ::
        (Binary64.zeros zeros ++ digitChars place.natAbs)) =
          (decide (place < 0), Binary64.zeros zeros ++ digitChars place.natAbs) := by
      split
      · next hneg => simp [splitSign, hneg]
      · next hneg => simp [splitSign, hneg]
    rw [exponent?, hsign]
    dsimp only
    rw [hempty, hdigits.all, hvalue, if_pos (by decide), Option.some.injEq]
    split
    · next hneg =>
        have hneg := of_decide_eq_true hneg
        omega
    · next hneg =>
        have hneg : ¬ place < 0 := fun h => hneg (decide_eq_true h)
        omega

/-- A number with a point is read. -/
lemma written_point (hne : front ≠ []) (hfront : Digits front) (hfraction : Digits fraction)
    (hpower : Power power p) :
    Written (front ++ '.' :: (fraction ++ power))
      ⟨ofDigitChars (front ++ fraction), p - fraction.length⟩ := by
  obtain ⟨c, cs, rfl⟩ := List.exists_cons_of_ne_nil hne
  have hletter : ∀ d, power.head? = some d → d.isDigit = false := by
    intro d hd
    rw [hpower.head d hd]
    decide
  have hpoint : ∀ d, ('.' :: (fraction ++ power)).head? = some d → d.isDigit = false := by
    rintro d ⟨⟩
    decide
  obtain ⟨htake, hdrop⟩ := hfront.takeWhile_append hpoint
  obtain ⟨htake', hdrop'⟩ := hfraction.takeWhile_append hletter
  -- it begins with a digit, has numerals only, and is read in three parts
  refine ⟨?_, ?_, ?_⟩
  · rintro d ⟨⟩
    exact (hfront _ List.mem_cons_self).1
  · intro d hd
    rcases List.mem_append.mp hd with hd | hd
    · exact (hfront d hd).2
    · rcases List.mem_cons.mp hd with rfl | hd
      · decide
      · rcases List.mem_append.mp hd with hd | hd
        · exact (hfraction d hd).2
        · exact hpower.numerals d hd
  · rw [decimal?, htake, hdrop, splitFraction, htake', hdrop']
    dsimp only
    rw [hpower.read]
    simp

/-- A number without a point is read. -/
lemma written_whole (hne : front ≠ []) (hfront : Digits front) (hpower : Power power p) :
    Written (front ++ power) ⟨ofDigitChars front, p⟩ := by
  obtain ⟨c, cs, rfl⟩ := List.exists_cons_of_ne_nil hne
  have hletter : ∀ d, power.head? = some d → d.isDigit = false := by
    intro d hd
    rw [hpower.head d hd]
    decide
  obtain ⟨htake, hdrop⟩ := hfront.takeWhile_append hletter
  have hpoint : splitFraction power = ([], power) := by
    rw [splitFraction]
    rintro rest rfl
    have := hpower.head '.' rfl
    revert this
    decide
  refine ⟨?_, ?_, ?_⟩
  · rintro d ⟨⟩
    exact (hfront _ List.mem_cons_self).1
  · intro d hd
    rcases List.mem_append.mp hd with hd | hd
    · exact (hfront d hd).2
    · exact hpower.numerals d hd
  · rw [decimal?, htake, hdrop, hpoint]
    dsimp only
    rw [hpower.read]
    simp

/-! ### Layouts -/

/-- Whether characters are read as a decimal of the same value. -/
def WritesValue (cs : List Char) (d : Decimal) : Prop :=
  ∃ d', Written cs d' ∧ ∀ negative, ofDecimal negative d' = ofDecimal negative d

/-- The digits of a decimal, of which so many would stand in front of the point. -/
structure DigitsOf (ds : List Char) (top : ℤ) (c : ℕ) (e : ℤ) : Prop where
  /-- There is a digit. -/
  ne_nil : ds ≠ []
  /-- There are only digits. -/
  digits : Digits ds
  /-- They write the coefficient. -/
  value : ofDigitChars ds = c
  /-- The number of them in front of the point. -/
  top : top = ds.length + e

lemma digitsOf_digitChars (d : Decimal) :
    DigitsOf (digitChars d.coefficient) d.top d.coefficient d.exponent :=
  ⟨digitChars_ne_nil _, digits_digitChars _, ofDigitChars_digitChars _,
    by rw [Decimal.top, length_digitChars]⟩

variable {c : ℕ} {e top : ℤ}

/-- The digits stand behind the point. -/
lemma DigitsOf.behind_point (h : DigitsOf ds top c e) (hsmall : top ≤ 0) :
    WritesValue ('0' :: '.' :: zeros (-top).toNat ++ ds) ⟨c, e⟩ := by
  obtain ⟨-, hdigits, hvalue, htop⟩ := h
  have hzero : Digits ['0'] := digits_zeros 1
  have hread := written_point (List.cons_ne_nil _ _) hzero
    ((digits_zeros (-top).toNat).append hdigits) power_nil
  rw [List.append_nil] at hread
  refine ⟨_, hread, fun negative => ?_⟩
  have hcoefficient : ofDigitChars (['0'] ++ (zeros (-top).toNat ++ ds)) = c :=
    calc ofDigitChars (zeros 1 ++ (zeros (-top).toNat ++ ds))
        = ofDigitChars (zeros (-top).toNat ++ ds) := ofDigitChars_zeros_append _ _
      _ = ofDigitChars ds := ofDigitChars_zeros_append _ _
      _ = c := hvalue
  have hexponent : 0 - ((zeros (-top).toNat ++ ds).length : ℤ) = e := by
    rw [List.length_append, zeros, List.length_replicate]
    omega
  rw [hcoefficient, hexponent]

/-- The digits stand in front of the point, perhaps with zeros behind them. -/
lemma DigitsOf.before_point (h : DigitsOf ds top c e) (hwhole : (ds.length : ℤ) ≤ top) :
    WritesValue (ds ++ zeros (top - ds.length).toNat ++ ['.', '0']) ⟨c, e⟩ := by
  obtain ⟨hne, hdigits, hvalue, htop⟩ := h
  obtain ⟨k, hk⟩ : ∃ k : ℕ, top - ds.length = k := ⟨(top - ds.length).toNat, by omega⟩
  have hzero : Digits ['0'] := digits_zeros 1
  have hread := written_point (List.append_ne_nil_of_left_ne_nil hne (zeros k))
    (hdigits.append (digits_zeros k)) hzero power_nil
  rw [hk, Int.toNat_natCast]
  refine ⟨_, hread, fun negative => ?_⟩
  have hzeros : zeros k ++ ['0'] = zeros (k + 1) := List.replicate_succ'.symm
  have hcoefficient : ofDigitChars (ds ++ zeros k ++ ['0']) = c * 10 ^ (k + 1) :=
    calc ofDigitChars (ds ++ zeros k ++ ['0'])
        = ofDigitChars (ds ++ zeros (k + 1)) := by rw [List.append_assoc, hzeros]
      _ = ofDigitChars ds * 10 ^ (zeros (k + 1)).length + ofDigitChars (zeros (k + 1)) :=
          ofDigitChars_append _ _
      _ = c * 10 ^ (k + 1) := by
          rw [ofDigitChars_zeros, hvalue, zeros, List.length_replicate, Nat.add_zero]
  have hexponent : 0 - (['0'].length : ℤ) = e - (k + 1 : ℕ) := by
    rw [List.length_singleton]
    omega
  rw [hcoefficient, hexponent, ofDecimal_mul_pow]

/-- The point stands within the digits. -/
lemma DigitsOf.around_point (h : DigitsOf ds top c e) (hlarge : 0 < top)
    (hwhole : ¬ (ds.length : ℤ) ≤ top) :
    WritesValue (ds.take top.toNat ++ '.' :: ds.drop top.toNat) ⟨c, e⟩ := by
  obtain ⟨hne, hdigits, hvalue, htop⟩ := h
  have hfront : ds.take top.toNat ≠ [] := by
    rw [Ne, List.take_eq_nil_iff, not_or]
    exact ⟨by omega, hne⟩
  have hread := written_point hfront (hdigits.of_subset (List.take_subset _ _))
    (hdigits.of_subset (List.drop_subset top.toNat _)) power_nil
  rw [List.append_nil] at hread
  refine ⟨_, hread, fun negative => ?_⟩
  have hexponent : 0 - ((ds.drop top.toNat).length : ℤ) = e := by
    rw [List.length_drop]
    omega
  rw [List.take_append_drop, hvalue, hexponent]

/-- A single digit stands in front of the exponent. -/
lemma DigitsOf.single (h : DigitsOf ds top c e) (hone : ds.length ≤ 1)
    (hpower : Power power (top - 1)) : WritesValue (ds ++ power) ⟨c, e⟩ := by
  obtain ⟨hne, hdigits, hvalue, htop⟩ := h
  refine ⟨_, written_whole hne hdigits hpower, fun negative => ?_⟩
  have hlength : 0 < ds.length := List.length_pos_iff.mpr hne
  have hexponent : top - 1 = e := by omega
  rw [hvalue, hexponent]

/-- The point stands behind the first digit, in front of the exponent. -/
lemma DigitsOf.several (h : DigitsOf ds top c e) (hmany : ¬ ds.length ≤ 1)
    (hpower : Power power (top - 1)) :
    WritesValue (ds.take 1 ++ '.' :: (ds.drop 1 ++ power)) ⟨c, e⟩ := by
  obtain ⟨hne, hdigits, hvalue, htop⟩ := h
  have hfront : ds.take 1 ≠ [] := by
    rw [Ne, List.take_eq_nil_iff, not_or]
    exact ⟨Nat.one_ne_zero, hne⟩
  have hread := written_point hfront (hdigits.of_subset (List.take_subset _ _))
    (hdigits.of_subset (List.drop_subset 1 _)) hpower
  refine ⟨_, hread, fun negative => ?_⟩
  have hexponent : top - 1 - ((ds.drop 1).length : ℤ) = e := by
    rw [List.length_drop]
    omega
  rw [List.take_append_drop, hvalue, hexponent]

/-- However a decimal is laid out, it is read as a decimal of the same value. -/
lemma writesValue_layout (style : DecimalStyle) (d : Decimal) :
    WritesValue (layout style d) d := by
  have h := digitsOf_digitChars d
  rw [layout]
  dsimp only
  generalize d.top = top at h ⊢
  generalize digitChars d.coefficient = ds at h ⊢
  split
  · split
    · next hsmall => exact h.behind_point hsmall
    · next hlarge =>
        split
        · next hwhole => exact h.before_point hwhole
        · next hwhole => exact h.around_point (Int.not_le.mp hlarge) hwhole
  · have hpower := power_place (style.exponentDigits - (digitChars (top - 1).natAbs).length)
      (top - 1)
    split
    · next hone =>
        rw [List.take_of_length_le hone, List.append_nil, List.append_assoc]
        exact h.single hone hpower
    · next hmany =>
        rw [List.append_assoc, List.append_assoc]
        exact h.several hmany hpower

lemma Written.ne_nil (h : Written cs d) : cs ≠ [] := by
  rintro rfl
  cases h.read

/-- A written number is no name of a number. -/
lemma Written.ne_name (h : Written cs d) {name : List Char}
    (hname : name.head? = some 'i' ∨ name.head? = some 'n') : asciiLower cs ≠ name := by
  have hletters : ∀ c ∈ Number.numerals, c.isDigit = true → c.toLower ≠ 'i' ∧ c.toLower ≠ 'n' :=
    List.all_iff_forall_prop.mp (by decide)
  obtain ⟨c, cs, rfl⟩ := List.exists_cons_of_ne_nil h.ne_nil
  obtain ⟨hi, hn⟩ := hletters c (h.numerals c List.mem_cons_self) (h.head c rfl)
  rintro rfl
  rcases hname with heq | heq
  · exact hi (Option.some.inj heq)
  · exact hn (Option.some.inj heq)

/-- A written number is read with its sign. -/
lemma Written.ofChars? (h : Written cs d) (negative : Bool) :
    ofChars? ((if negative then ['-'] else []) ++ cs) = some (ofDecimal negative d) := by
  have hnumerals : ∀ c ∈ (if negative then ['-'] else []) ++ cs, c ∈ Number.numerals := by
    intro c hc
    rcases List.mem_append.mp hc with hc | hc
    · split at hc
      · rw [List.mem_singleton.mp hc]
        decide
      · cases hc
    · exact h.numerals c hc
  have hsign : splitSign ((if negative then ['-'] else []) ++ cs) = (negative, cs) := by
    cases negative with
    | true => rfl
    | false => exact splitSign_eq_false h.ne_nil h.head
  rw [Binary64.ofChars?, withoutGrouping?_plainForm hnumerals]
  simp only [Option.bind_eq_bind, Option.bind_some, hsign, h.read, Option.map_some]
  rw [if_neg, if_neg]
  · exact h.ne_name (.inr rfl)
  · simp only [Bool.or_eq_true, decide_eq_true_eq, not_or]
    exact ⟨h.ne_name (.inl rfl), h.ne_name (.inl rfl)⟩

/-- **Floating-point numbers are read back.**  The characters of a finite number are read as that
number. -/
theorem ofChars?_chars {x : Binary64} (hx : x.isFinite = true) : ofChars? x.chars = some x := by
  cases x with
  | nan => cases hx
  | infinite negative => cases hx
  | finite negative significand scale h =>
      obtain ⟨d, hwritten, hvalue⟩ := writesValue_layout plainStyle (shortest significand scale)
      rw [chars, hwritten.ofChars?, hvalue, ofDecimal_sign h (ofDecimal_shortest h)]

/-- The digits of a whole number are those of a decimal without a fraction. -/
lemma written_digitChars (m : ℕ) : Written (digitChars m) ⟨m, 0⟩ := by
  have h := written_whole (digitChars_ne_nil m) (digits_digitChars m) power_nil
  rwa [List.append_nil, ofDigitChars_digitChars] at h

lemma wholeChars_eq (n : ℤ) :
    wholeChars n = (if decide (n < 0) then ['-'] else []) ++ digitChars n.natAbs := by
  cases n with
  | ofNat m => rfl
  | negSucc m =>
      rw [decide_eq_true (Int.negSucc_lt_zero m)]
      rfl

/-- A whole number is read as the floating-point number nearest to it. -/
theorem ofChars?_wholeChars (n : ℤ) :
    ofChars? (wholeChars n) = some (ofRatio (decide (n < 0)) n.natAbs 1) := by
  rw [wholeChars_eq, (written_digitChars n.natAbs).ofChars?, ofDecimal_whole]

/-- The characters of a finite number are those of numbers. -/
lemma mem_numerals_of_mem_chars {x : Binary64} (hx : x.isFinite = true) {c : Char}
    (hc : c ∈ x.chars) : c ∈ Number.numerals := by
  cases x with
  | nan => cases hx
  | infinite negative => cases hx
  | finite negative significand scale h =>
      obtain ⟨d, hwritten, -⟩ := writesValue_layout plainStyle (shortest significand scale)
      rw [chars, List.mem_append] at hc
      rcases hc with hc | hc
      · split at hc
        · rw [List.mem_singleton.mp hc]
          decide
        · cases hc
      · exact hwritten.numerals c hc

end Binary64

end AbilityRotation.Number
