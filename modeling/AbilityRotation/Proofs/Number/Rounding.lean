import AbilityRotation.Number.Decimal
import AbilityRotation.Proofs.Number.Whole

/-!
Rounding the decimals of floating-point numbers.

A decimal is rounded by its value alone, and the exact decimal of a finite number is rounded to that
number.  So the shortest decimal of a number, which is the exact one if no shorter one was found, is
rounded to it.
* `ofDecimal_mul_pow`: zeros at the end of the digits do not count.
* `ofRatio_exact`: a quotient that is a finite number is rounded to it.
* `ofDecimal_shortest`: the shortest decimal of a finite number is rounded to it.
* `ofDecimal_whole`: a decimal without a fraction is rounded like a whole number.
-/

namespace AbilityRotation.Number

variable {n : ℕ} {d : Decimal}

/-! ### The number of digits -/

lemma digits_mul_ten (hn : n ≠ 0) : digits (n * 10) = digits n ++ [0] := by
  rw [digits, if_neg (by omega), Nat.mul_div_cancel _ (by decide), Nat.mul_mod_left]

namespace Binary64

variable {negative : Bool} {num den significand scale : ℕ}

/-! ### Decimals of one value -/

/-- With one more zero at the end of the digits, numerator and denominator are the same or ten times
as large. -/
lemma exists_factor (c : ℕ) (e : ℤ) :
    ∃ k, 0 < k ∧ Decimal.num ⟨c * 10, e - 1⟩ = k * Decimal.num ⟨c, e⟩ ∧
      Decimal.den ⟨c * 10, e - 1⟩ = k * Decimal.den ⟨c, e⟩ := by
  by_cases he : 1 ≤ e
  · obtain ⟨k, rfl⟩ : ∃ k : ℕ, e = k + 1 := ⟨(e - 1).toNat, by omega⟩
    refine ⟨1, by decide, ?_, ?_⟩
    · rw [Decimal.num, Decimal.num]
      dsimp only
      rw [show ((k : ℤ) + 1 - 1).toNat = k by omega, show ((k : ℤ) + 1).toNat = k + 1 by omega,
        Nat.pow_succ]
      ring
    · rw [Decimal.den, Decimal.den]
      dsimp only
      rw [show (-((k : ℤ) + 1 - 1)).toNat = 0 by omega, show (-((k : ℤ) + 1)).toNat = 0 by omega,
        Nat.one_mul]
  · obtain ⟨k, rfl⟩ : ∃ k : ℕ, e = -k := ⟨(-e).toNat, by omega⟩
    refine ⟨10, by decide, ?_, ?_⟩
    · rw [Decimal.num, Decimal.num]
      dsimp only
      rw [show (-(k : ℤ) - 1).toNat = 0 by omega, show (-(k : ℤ)).toNat = 0 by omega]
      ring
    · rw [Decimal.den, Decimal.den]
      dsimp only
      rw [show (-(-(k : ℤ) - 1)).toNat = k + 1 by omega, show (-(-(k : ℤ))).toNat = k by omega,
        Nat.pow_succ]
      ring

/-- One more zero at the end of the digits does not count. -/
lemma ofDecimal_mul_ten (negative : Bool) (c : ℕ) (e : ℤ) :
    ofDecimal negative ⟨c * 10, e - 1⟩ = ofDecimal negative ⟨c, e⟩ := by
  by_cases hc : c = 0
  · simp [ofDecimal, hc]
  · have htop : Decimal.top ⟨c * 10, e - 1⟩ = Decimal.top ⟨c, e⟩ := by
      rw [Decimal.top, Decimal.top, digits_mul_ten hc]
      simp
    have hzero : c * 10 = 0 ↔ c = 0 := by omega
    obtain ⟨k, hk, hnum, hden⟩ := exists_factor c e
    simp only [ofDecimal, htop, hzero, hnum, hden, Nat.gcd_mul_left,
      Nat.mul_div_mul_left _ _ hk]

/-- Zeros at the end of the digits do not count. -/
lemma ofDecimal_mul_pow (negative : Bool) (c : ℕ) (e : ℤ) (k : ℕ) :
    ofDecimal negative ⟨c * 10 ^ k, e - k⟩ = ofDecimal negative ⟨c, e⟩ := by
  induction k with
  | zero => simp
  | succ k ih =>
      have hcoefficient : c * 10 ^ (k + 1) = c * 10 ^ k * 10 := by
        rw [Nat.pow_succ, Nat.mul_assoc]
      have hexponent : e - (k + 1 : ℕ) = e - k - 1 := by omega
      calc ofDecimal negative ⟨c * 10 ^ (k + 1), e - (k + 1 : ℕ)⟩
          = ofDecimal negative ⟨c * 10 ^ k * 10, e - k - 1⟩ := by rw [hcoefficient, hexponent]
        _ = ofDecimal negative ⟨c * 10 ^ k, e - k⟩ := ofDecimal_mul_ten negative _ _
        _ = ofDecimal negative ⟨c, e⟩ := ih

/-- A decimal without its zeros has the same value. -/
lemma ofDecimal_normal (negative : Bool) (d : Decimal) :
    ofDecimal negative d.normal = ofDecimal negative d := by
  fun_induction Decimal.normal d with
  | case1 d h ih =>
      rw [ih, ← ofDecimal_mul_ten, Int.add_sub_cancel, Nat.div_mul_cancel]
      exact Nat.dvd_of_mod_eq_zero h.2
  | case2 d h => rfl

/-! ### Exact quotients -/

lemma ofParts_eq_finite (h : Canonical significand scale) :
    ofParts negative significand scale = .finite negative significand scale h := by
  rw [ofParts, dif_pos h]

/-- The scale of a finite number is found again. -/
lemma scaleOf_mul_pow (h : Canonical significand scale) (hs : significand ≠ 0) :
    scaleOf (significand * 2 ^ scale) = scale := by
  obtain ⟨hlt, -, hle | rfl⟩ := h
  · have hlog : Nat.log2 (significand * 2 ^ scale) = 52 + scale := by
      refine (Nat.log2_eq_iff (by positivity)).mpr ⟨?_, ?_⟩
      · rw [Nat.pow_add]
        exact Nat.mul_le_mul_right _ hle
      · rw [show 52 + scale + 1 = 53 + scale by omega, Nat.pow_add]
        exact Nat.mul_lt_mul_of_pos_right hlt (by positivity)
    rw [scaleOf, hlog, Nat.add_sub_cancel_left]
  · have hlog : Nat.log2 significand < 53 := (Nat.log2_lt hs).mpr hlt
    rw [scaleOf, Nat.pow_zero, Nat.mul_one]
    omega

/-- A quotient that is a finite number is rounded to it. -/
lemma ofRatio_exact (h : Canonical significand scale) (hs : significand ≠ 0) (hden : den ≠ 0)
    (heq : num * 2 ^ unitBits = significand * 2 ^ scale * den) :
    ofRatio negative num den = .finite negative significand scale h := by
  have hquotient : num * 2 ^ unitBits / den = significand * 2 ^ scale := by
    rw [heq, Nat.mul_div_cancel _ (Nat.pos_of_ne_zero hden)]
  have hpos : 0 < den * 2 ^ scale := Nat.mul_pos (Nat.pos_of_ne_zero hden) (by positivity)
  have hround : roundQuotient (num * 2 ^ unitBits) (den * 2 ^ scale) = significand := by
    have hmul : num * 2 ^ unitBits = significand * (den * 2 ^ scale) := by
      rw [heq]
      ring
    rw [roundQuotient, hmul, Nat.mul_div_cancel _ hpos, Nat.mul_mod_left]
    exact if_pos hpos
  rw [ofRatio]
  simp only [hquotient, scaleOf_mul_pow h hs, hround]
  rw [if_neg (Nat.ne_of_lt h.1), ofParts_eq_finite h]

/-! ### The exact decimal -/

/-- The exact decimal of a number is the number. -/
lemma exactDecimal_value (significand scale : ℕ) :
    (exactDecimal significand scale).num * 2 ^ unitBits =
      significand * 2 ^ scale * (exactDecimal significand scale).den := by
  rw [exactDecimal]
  split
  · next hlt =>
      obtain ⟨k, hk⟩ := Nat.exists_eq_add_of_lt hlt
      have hsub : unitBits - scale = k + 1 := by omega
      have hpower : ((scale : ℤ) - unitBits).toNat = 0 := by omega
      have hneg : (-((scale : ℤ) - unitBits)).toNat = k + 1 := by omega
      rw [Decimal.num, Decimal.den]
      dsimp only
      rw [hsub, hpower, hneg, hk, Nat.pow_zero, Nat.mul_one, Nat.add_assoc, Nat.pow_add 2 scale,
        show (10 : ℕ) = 5 * 2 by rfl, Nat.mul_pow]
      ring
  · next hle =>
      obtain ⟨k, rfl⟩ := Nat.exists_eq_add_of_le (Nat.le_of_not_lt hle)
      rw [Decimal.num, Decimal.den, Nat.add_sub_cancel_left, Nat.pow_add]
      simp only [Int.toNat_zero, neg_zero, Nat.pow_zero, Nat.mul_one]
      ring

lemma den_ne_zero (d : Decimal) : d.den ≠ 0 := by
  rw [Decimal.den]
  positivity

/-- The exact decimals of finite numbers are not too large for them. -/
lemma top_exactDecimal_le (h : Canonical significand scale) :
    (exactDecimal significand scale).top ≤ 310 := by
  obtain ⟨hlt, hscale, -⟩ := h
  rw [exactDecimal]
  split
  · next hpoint =>
      have hbound : significand * 5 ^ (unitBits - scale) < 10 ^ (16 + (unitBits - scale)) :=
        calc significand * 5 ^ (unitBits - scale)
            < 2 ^ 53 * 5 ^ (unitBits - scale) := Nat.mul_lt_mul_of_pos_right hlt (by positivity)
          _ ≤ 10 ^ 16 * 10 ^ (unitBits - scale) :=
              Nat.mul_le_mul (by decide) (Nat.pow_le_pow_left (by decide) _)
          _ = 10 ^ (16 + (unitBits - scale)) := (Nat.pow_add 10 _ _).symm
      have hlength := length_digits_le hbound (by omega)
      rw [Decimal.top]
      dsimp only
      omega
  · next hwhole =>
      have hbound : significand * 2 ^ (scale - unitBits) < 10 ^ 309 :=
        calc significand * 2 ^ (scale - unitBits)
            < 2 ^ 53 * 2 ^ (scale - unitBits) := Nat.mul_lt_mul_of_pos_right hlt (by positivity)
          _ ≤ 2 ^ 53 * 2 ^ 971 :=
              Nat.mul_le_mul_left _ (Nat.pow_le_pow_right (by decide) (by
                rw [unitBits]
                omega))
          _ ≤ 10 ^ 309 := by decide +kernel
      have hlength := length_digits_le hbound (by decide)
      rw [Decimal.top]
      dsimp only
      omega

/-- Fives that have few digits have many twos beside them. -/
lemma pow_lt_two_pow {m k len : ℕ} (h : 5 ^ k < 10 ^ len) (hlen : len + m ≤ k) :
    10 ^ m < 2 ^ k := by
  have hmul : 5 ^ k * 10 ^ m < 5 ^ k * 2 ^ k :=
    calc 5 ^ k * 10 ^ m < 10 ^ len * 10 ^ m := Nat.mul_lt_mul_of_pos_right h (by positivity)
      _ = 10 ^ (len + m) := (Nat.pow_add 10 _ _).symm
      _ ≤ 10 ^ k := Nat.pow_le_pow_right (by decide) hlen
      _ = 5 ^ k * 2 ^ k := by rw [← Nat.mul_pow]
  exact Nat.lt_of_mul_lt_mul_left hmul

/-- The exact decimals of finite numbers are not too small for them. -/
lemma le_top_exactDecimal (scale : ℕ) (hs : significand ≠ 0) :
    -330 ≤ (exactDecimal significand scale).top := by
  rw [exactDecimal]
  split
  · next hpoint =>
      have hdigits := lt_pow_length_digits (significand * 5 ^ (unitBits - scale))
      have hbits : unitBits - scale ≤ unitBits := Nat.sub_le _ _
      rw [Decimal.top]
      dsimp only
      generalize (digits (significand * 5 ^ (unitBits - scale))).length = len at hdigits ⊢
      obtain ⟨k, hk⟩ : ∃ k, unitBits - scale = k := ⟨_, rfl⟩
      rw [hk] at hdigits hbits
      -- so small a number would need more binary places than there are
      by_contra hlow
      have hlen : len + 331 ≤ k := by omega
      have hfive : 5 ^ k < 10 ^ len :=
        calc 5 ^ k ≤ significand * 5 ^ k := Nat.le_mul_of_pos_left _ (Nat.pos_of_ne_zero hs)
          _ < 10 ^ len := hdigits
      have hlt : 10 ^ 331 < 10 ^ 331 :=
        calc 10 ^ 331 < 2 ^ k := pow_lt_two_pow hfive hlen
          _ ≤ 2 ^ unitBits := Nat.pow_le_pow_right (by decide) hbits
          _ ≤ 10 ^ 331 := by decide +kernel
      exact Nat.lt_irrefl _ hlt
  · rw [Decimal.top]
    dsimp only
    omega

/-- The exact decimal of a finite number is rounded to that number. -/
lemma ofDecimal_exactDecimal (h : Canonical significand scale) :
    ofDecimal false (exactDecimal significand scale) = .finite false significand scale h := by
  by_cases hs : significand = 0
  · obtain ⟨-, -, hle | rfl⟩ := id h
    · rw [hs] at hle
      exact absurd hle (by decide)
    · have hcoefficient : (exactDecimal significand 0).coefficient = 0 := by
        rw [exactDecimal, hs]
        split <;> exact Nat.zero_mul _
      subst hs
      rw [ofDecimal, if_pos (.inl hcoefficient)]
      exact ofParts_eq_finite h
  · have hzero : (exactDecimal significand scale).coefficient ≠ 0 := by
      rw [exactDecimal]
      split <;> positivity
    have hlow := le_top_exactDecimal scale hs
    have hhigh := top_exactDecimal_le h
    have hden := den_ne_zero (exactDecimal significand scale)
    have hvalue := exactDecimal_value significand scale
    generalize exactDecimal significand scale = d at hzero hlow hhigh hden hvalue ⊢
    rw [ofDecimal, if_neg (by omega), if_neg (by omega)]
    -- the quotient in lowest terms has the same value, which is that of the parts
    have hgcd : 0 < Nat.gcd d.num d.den := Nat.gcd_pos_of_pos_right _ (Nat.pos_of_ne_zero hden)
    obtain ⟨a, ha⟩ := Nat.gcd_dvd_left d.num d.den
    obtain ⟨b, hb⟩ := Nat.gcd_dvd_right d.num d.den
    dsimp only
    generalize Nat.gcd d.num d.den = g at ha hb hgcd ⊢
    rw [ha, hb] at hvalue
    rw [ha, hb, Nat.mul_div_cancel_left _ hgcd, Nat.mul_div_cancel_left _ hgcd]
    refine ofRatio_exact h hs ?_ (Nat.eq_of_mul_eq_mul_left hgcd ?_)
    · rintro rfl
      exact hden hb
    · calc g * (a * 2 ^ unitBits) = g * a * 2 ^ unitBits := by ring
        _ = significand * 2 ^ scale * (g * b) := hvalue
        _ = g * (significand * 2 ^ scale * b) := by ring

/-! ### The shortest decimal -/

lemma ofDecimal_of_readsBack? {x : Binary64} {place : ℤ}
    (h : readsBack? x num den place = some d) : ofDecimal false d = x := by
  have htried : ∀ a b : Decimal, (if ofDecimal false a = x then some a
      else if ofDecimal false b = x then some b else none) = some d → ofDecimal false d = x := by
    intro a b h
    split at h
    · next heq =>
        cases h
        exact heq
    · split at h
      · next heq =>
          cases h
          exact heq
      · cases h
  exact htried _ _ h

/-- The shortest decimal of a finite number is rounded to that number. -/
theorem ofDecimal_shortest (h : Canonical significand scale) :
    ofDecimal false (shortest significand scale) = .finite false significand scale h := by
  rw [shortest, ofDecimal_normal]
  generalize hfound : (List.range 17).findSome? _ = found
  cases found with
  | none => exact ofDecimal_exactDecimal h
  | some d =>
      obtain ⟨k, -, hk⟩ := List.exists_of_findSome?_eq_some hfound
      exact (ofDecimal_of_readsBack? hk).trans (ofParts_eq_finite h)

lemma ofParts_sign {a b : ℕ} (h : Canonical significand scale)
    (hp : ofParts false a b = .finite false significand scale h) (negative : Bool) :
    ofParts negative a b = .finite negative significand scale h := by
  rw [ofParts] at hp ⊢
  split at hp
  · next hc =>
      cases hp
      exact dif_pos hc
  · cases hp

/-- The sign of a decimal is that of its number. -/
lemma ofDecimal_sign (h : Canonical significand scale)
    (hd : ofDecimal false d = .finite false significand scale h) (negative : Bool) :
    ofDecimal negative d = .finite negative significand scale h := by
  rw [ofDecimal] at hd ⊢
  split at hd
  · next hzero =>
      rw [if_pos hzero]
      exact ofParts_sign h hd negative
  · next hzero =>
      rw [if_neg hzero]
      split at hd
      · cases hd
      · next hlarge =>
          rw [if_neg hlarge]
          rw [ofRatio] at hd ⊢
          split at hd
          · next hcarry =>
              rw [if_pos hcarry]
              exact ofParts_sign h hd negative
          · next hcarry =>
              rw [if_neg hcarry]
              exact ofParts_sign h hd negative

/-! ### Whole numbers -/

lemma ofDigits_lt {ds : List ℕ} (h : ∀ d ∈ ds, d < 10) : ofDigits ds < 10 ^ ds.length := by
  induction ds using List.reverseRecOn with
  | nil => decide
  | append_singleton ds d ih =>
      have hds := ih fun e he => h e (List.mem_append_left _ he)
      have hd := h d (List.mem_append_right _ List.mem_cons_self)
      rw [ofDigits] at hds ⊢
      rw [List.foldl_append, List.foldl_cons, List.foldl_nil, List.length_append,
        List.length_singleton, pow_succ]
      omega

/-- A whole number that is read can be written. -/
lemma writable_of_whole? {cs : List Char} {k : ℤ} (h : whole? cs = some k) : Writable k := by
  obtain ⟨plain, -, h⟩ := Option.bind_eq_some_iff.mp h
  dsimp only at h
  generalize (splitSign plain).2 = body at h
  split at h
  · next hbody =>
      simp only [Bool.and_eq_true, decide_eq_true_eq, List.all_eq_true] at hbody
      obtain ⟨⟨-, hdigits⟩, hlength⟩ := hbody
      have hten : ∀ d ∈ body.map fun c => c.toNat - '0'.toNat, d < 10 := by
        intro d hd
        obtain ⟨c, hc, rfl⟩ := List.mem_map.mp hd
        have hle : c.toNat ≤ 57 := (Char.isDigit_iff_toNat.mp (hdigits c hc)).2
        rw [show '0'.toNat = 48 from rfl]
        omega
      have hlt := ofDigits_lt hten
      rw [List.length_map] at hlt
      have habs : k.natAbs = ofDigitChars body := by
        cases h
        split <;> simp
      rw [Writable, habs]
      exact hlt.trans_le (Nat.pow_le_pow_right (by decide) hlength)
  · cases h

/-- Parts with a scale beyond the largest one are those of an infinity. -/
lemma ofParts_eq_infinite {significand scale : ℕ} (h : 2045 < scale) :
    ofParts negative significand scale = .infinite negative := by
  rw [ofParts, dif_neg]
  rintro ⟨-, hle, -⟩
  omega

/-- A whole number with more digits than any finite number has is rounded to an infinity. -/
lemma ofRatio_eq_infinite (h : 10 ^ 310 ≤ num) : ofRatio negative num 1 = .infinite negative := by
  have hunits : 2 ^ (1024 + unitBits) ≤ num * 2 ^ unitBits :=
    calc 2 ^ (1024 + unitBits) = 2 ^ 1024 * 2 ^ unitBits := pow_add 2 1024 unitBits
      _ ≤ num * 2 ^ unitBits := Nat.mul_le_mul_right _ (le_trans (by decide +kernel) h)
  have hne : num * 2 ^ unitBits ≠ 0 := Nat.ne_of_gt (lt_of_lt_of_le (by positivity) hunits)
  have hlog : 1024 + unitBits ≤ Nat.log2 (num * 2 ^ unitBits) := (Nat.le_log2 hne).mpr hunits
  have hscale : 2045 < scaleOf (num * 2 ^ unitBits / 1) := by
    rw [Nat.div_one, scaleOf]
    rw [show 1024 + unitBits = 2098 from rfl] at hlog
    omega
  rw [ofRatio]
  split
  · exact ofParts_eq_infinite (by omega)
  · exact ofParts_eq_infinite hscale

/-- A decimal without a fraction is rounded like the whole number that it is. -/
lemma ofDecimal_whole (negative : Bool) (n : ℕ) :
    ofDecimal negative ⟨n, 0⟩ = ofRatio negative n 1 := by
  by_cases hn : n = 0
  · rw [hn, ofDecimal, if_pos (.inl rfl)]
    simp [ofRatio, scaleOf, roundQuotient]
  · have htop : Decimal.top ⟨n, 0⟩ = (digits n).length := Int.add_zero _
    have hnum : Decimal.num ⟨n, 0⟩ = n := Nat.mul_one n
    have hden : Decimal.den ⟨n, 0⟩ = 1 := rfl
    rw [ofDecimal, if_neg]
    · split
      · next hlarge =>
          have hlength : 310 ≤ (digits n).length - 1 := by omega
          have hpow : 10 ^ 310 ≤ 10 ^ ((digits n).length - 1) :=
            pow_le_pow_right₀ (by decide) hlength
          exact (ofRatio_eq_infinite (hpow.trans (pow_length_digits_le hn))).symm
      · rw [hnum, hden, Nat.gcd_one_right]
        dsimp only
        rw [Nat.div_one, Nat.div_one]
    · rw [htop]
      rintro (h | h)
      · exact hn h
      · omega

end Binary64

end AbilityRotation.Number
