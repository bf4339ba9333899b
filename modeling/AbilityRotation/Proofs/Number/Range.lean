import AbilityRotation.Proofs.Number.Rounding
import AbilityRotation.Proofs.Number.UnitInterval

/-!
The range of floating-point numbers.

The largest finite number is `2 ^ 1024 - 2 ^ 971`, and what lies less than half a step above it is
still rounded to it.  So the whole numbers that can be converted are those below
`2 ^ 1024 - 2 ^ 970`.
* `roundQuotient_mul_right`, `roundQuotient_eq_top_iff`: when a quotient is rounded up to the bound
  of all significands.
* `isFinite_ofParts_iff`, `isFinite_ofRatio_iff`: when rounding a whole number gives a finite one.
* `exists_ofInt_iff`: which whole numbers can be converted.
* `Threshold.inRange_real`, `Threshold.inRange_whole_iff`: which thresholds can take effect.
-/

namespace AbilityRotation.Number.Binary64

variable {negative : Bool} {significand scale num a b c p : ℕ}

/-! ### Rounding to the bound of all significands -/

/-- A common factor does not count when a quotient is rounded. -/
lemma roundQuotient_mul_right (a b : ℕ) (hc : 0 < c) :
    roundQuotient (a * c) (b * c) = roundQuotient a b := by
  have hlow : 2 * (a % b * c) < b * c ↔ 2 * (a % b) < b := by
    rw [← mul_assoc, Nat.mul_lt_mul_right hc]
  have hhigh : b * c < 2 * (a % b * c) ↔ b < 2 * (a % b) := by
    rw [← mul_assoc, Nat.mul_lt_mul_right hc]
  simp only [roundQuotient, Nat.mul_div_mul_right _ _ hc, Nat.mul_mod_mul_right, hlow, hhigh]

/-- A rounded quotient is the quotient without its fraction or the next number. -/
lemma roundQuotient_mem (a b : ℕ) : a / b ≤ roundQuotient a b ∧ roundQuotient a b ≤ a / b + 1 := by
  rw [roundQuotient]
  split_ifs <;> omega

/-- A quotient below `2 ^ 53` is rounded up to it from the middle of the last step on. -/
lemma roundQuotient_eq_top_iff (hp : 0 < p) (ha : a < 2 ^ 54 * p) :
    roundQuotient a (2 * p) = 2 ^ 53 ↔ 2 ^ 54 * p - p ≤ a := by
  have hsplit : 2 * p * (a / (2 * p)) + a % (2 * p) = a := Nat.div_add_mod a (2 * p)
  have hrest : a % (2 * p) < 2 * p := Nat.mod_lt a (by omega)
  have hquotient : a / (2 * p) < 2 ^ 53 := Nat.div_lt_of_lt_mul (by omega)
  by_cases hlast : a / (2 * p) = 2 ^ 53 - 1
  · -- the last step below the bound, where a tie goes up because the quotient is odd
    have hodd : ¬(2 ^ 53 - 1) % 2 = 0 := by decide
    rw [hlast] at hsplit
    rw [roundQuotient, hlast, if_neg hodd]
    split_ifs <;> omega
  · have hle : 2 * p * (a / (2 * p)) ≤ 2 * p * (2 ^ 53 - 2) := Nat.mul_le_mul_left _ (by omega)
    have hround := (roundQuotient_mem a (2 * p)).2
    omega

/-! ### The range of whole numbers -/

lemma isFinite_ofParts_iff :
    (ofParts negative significand scale).isFinite = true ↔ Canonical significand scale := by
  rw [ofParts]
  split
  · next h => exact ⟨fun _ => h, fun _ => rfl⟩
  · next h => exact ⟨fun hfinite => absurd hfinite Bool.false_ne_true, fun hc => absurd hc h⟩

/-- A whole number of the given bits is rounded to a significand of 53 bits, or to the bound of all
significands. -/
lemma roundQuotient_units {bits : ℕ} (hlow : 2 ^ bits ≤ num) (hhigh : num < 2 ^ (bits + 1)) :
    2 ^ 52 ≤ roundQuotient (num * 2 ^ unitBits) (2 ^ (bits + 1022)) ∧
      roundQuotient (num * 2 ^ unitBits) (2 ^ (bits + 1022)) ≤ 2 ^ 53 := by
  have hpos : 0 < 2 ^ (bits + 1022) := by positivity
  have hunit : unitBits = 1074 := rfl
  have hfirst : 52 + (bits + 1022) = bits + unitBits := by omega
  have hlast : bits + 1 + unitBits = 53 + (bits + 1022) := by omega
  have hle : 2 ^ 52 ≤ num * 2 ^ unitBits / 2 ^ (bits + 1022) := by
    rw [Nat.le_div_iff_mul_le hpos]
    calc 2 ^ 52 * 2 ^ (bits + 1022) = 2 ^ bits * 2 ^ unitBits := by
          rw [← Nat.pow_add, ← Nat.pow_add, hfirst]
      _ ≤ num * 2 ^ unitBits := Nat.mul_le_mul_right _ hlow
  have hlt : num * 2 ^ unitBits / 2 ^ (bits + 1022) < 2 ^ 53 := by
    rw [Nat.div_lt_iff_lt_mul hpos]
    calc num * 2 ^ unitBits < 2 ^ (bits + 1) * 2 ^ unitBits :=
          Nat.mul_lt_mul_of_pos_right hhigh (by positivity)
      _ = 2 ^ 53 * 2 ^ (bits + 1022) := by
          rw [← Nat.pow_add, ← Nat.pow_add, hlast]
  -- the quotient lies between both powers, and rounding adds one at most
  have hround := roundQuotient_mem (num * 2 ^ unitBits) (2 ^ (bits + 1022))
  omega

/-- The scale of a whole number is given by its bits. -/
lemma scaleOf_units {bits : ℕ} (hlow : 2 ^ bits ≤ num) (hhigh : num < 2 ^ (bits + 1)) :
    scaleOf (num * 2 ^ unitBits) = bits + 1022 := by
  have hne : num * 2 ^ unitBits ≠ 0 :=
    Nat.ne_of_gt (Nat.mul_pos (lt_of_lt_of_le (by positivity) hlow) (by positivity))
  have hlog : Nat.log2 (num * 2 ^ unitBits) = bits + unitBits := by
    refine (Nat.log2_eq_iff hne).mpr ⟨?_, ?_⟩
    · rw [Nat.pow_add]
      exact Nat.mul_le_mul_right _ hlow
    · rw [show bits + unitBits + 1 = bits + 1 + unitBits by omega, Nat.pow_add]
      exact Nat.mul_lt_mul_of_pos_right hhigh (by positivity)
  rw [scaleOf, hlog, unitBits]
  omega

/-- Rounding to the bound of all significands takes the next scale, which the largest one lacks. -/
lemma isFinite_ofRatio_of_bits {bits : ℕ} (hlow : 2 ^ bits ≤ num) (hhigh : num < 2 ^ (bits + 1)) :
    (ofRatio negative num 1).isFinite = true ↔
      bits ≤ 1022 ∨
        bits = 1023 ∧ roundQuotient (num * 2 ^ unitBits) (2 ^ (bits + 1022)) ≠ 2 ^ 53 := by
  have hbounds := roundQuotient_units hlow hhigh
  rw [ofRatio, Nat.div_one, Nat.one_mul, scaleOf_units hlow hhigh]
  generalize roundQuotient (num * 2 ^ unitBits) (2 ^ (bits + 1022)) = s at hbounds ⊢
  split
  · next htop =>
      rw [isFinite_ofParts_iff, Canonical]
      omega
  · next htop =>
      rw [isFinite_ofParts_iff, Canonical]
      omega

/-- The numbers of `54 + k` bits that are rounded to the bound of all significands. -/
lemma roundQuotient_units_eq_top_iff {k : ℕ} (h : num < 2 ^ (54 + k)) :
    roundQuotient (num * 2 ^ unitBits) (2 ^ (k + 1 + unitBits)) = 2 ^ 53 ↔
      2 ^ (54 + k) - 2 ^ k ≤ num := by
  have hden : 2 ^ (k + 1 + unitBits) = 2 * 2 ^ k * 2 ^ unitBits := by
    rw [← Nat.pow_succ', ← Nat.pow_add]
  rw [Nat.pow_add 2 54 k] at h ⊢
  rw [hden, roundQuotient_mul_right _ _ (Nat.two_pow_pos unitBits),
    roundQuotient_eq_top_iff (Nat.two_pow_pos k) h]

/-- Rounding gives a finite number below the middle of the last step.  The largest scale is the one
of numbers of `54 + k` bits. -/
lemma isFinite_ofRatio_iff_lt {k : ℕ} (hk : 53 + k = 1023) :
    (ofRatio negative num 1).isFinite = true ↔ num < 2 ^ (54 + k) - 2 ^ k := by
  have hmono : ∀ {i j : ℕ}, i ≤ j → 2 ^ i ≤ 2 ^ j := fun h => Nat.pow_le_pow_right Nat.two_pos h
  have hdouble : 2 ^ (54 + k) = 2 ^ (53 + k) * 2 := by
    rw [← Nat.pow_succ, Nat.succ_eq_add_one, Nat.add_right_comm]
  have hstep : 2 ^ k ≤ 2 ^ (53 + k) := hmono (Nat.le_add_left k 53)
  have hpos : 0 < 2 ^ k := Nat.two_pow_pos k
  by_cases hzero : num = 0
  · have hparts : ofRatio negative 0 1 = ofParts negative 0 0 := by
      simp [ofRatio, scaleOf, roundQuotient]
    rw [hzero, hparts, isFinite_ofParts_iff]
    exact iff_of_true (by decide) (by omega)
  have hlow : 2 ^ num.log2 ≤ num := Nat.log2_self_le hzero
  have hhigh : num < 2 ^ (num.log2 + 1) := Nat.lt_log2_self
  have hfinite : (ofRatio negative num 1).isFinite = true ↔ _ :=
    isFinite_ofRatio_of_bits hlow hhigh
  generalize num.log2 = bits at hlow hhigh hfinite
  rw [hfinite]
  -- only in the top binade rounding can lead out of the range, half a unit below the next one
  rcases Nat.lt_trichotomy bits (53 + k) with hbits | rfl | hbits
  · have hle : 2 ^ (bits + 1) ≤ 2 ^ (53 + k) := hmono hbits
    exact iff_of_true (.inl (by omega)) (by omega)
  · have hscale : 53 + k + 1022 = k + 1 + unitBits := by
      rw [unitBits]
      omega
    have htop : num < 2 ^ (54 + k) := by rwa [Nat.add_right_comm] at hhigh
    rw [hscale, Ne, roundQuotient_units_eq_top_iff htop]
    omega
  · have hle : 2 ^ (54 + k) ≤ 2 ^ bits := hmono (by omega)
    exact iff_of_false (by omega) (by omega)

/-- **The range of whole numbers.**  A whole number is rounded to a finite number exactly if it lies
below the middle between the largest finite number and the next power of two. -/
theorem isFinite_ofRatio_iff (negative : Bool) (num : ℕ) :
    (ofRatio negative num 1).isFinite = true ↔ num < 2 ^ 1024 - 2 ^ 970 := by
  have h : (ofRatio negative num 1).isFinite = true ↔ num < 2 ^ (54 + 970) - 2 ^ 970 :=
    isFinite_ofRatio_iff_lt (by decide)
  rwa [show 54 + 970 = 1024 by decide] at h

/-- What is finite can be handed on. -/
lemma exists_whenFinite_iff {x : Binary64} : (∃ y, x.whenFinite = .ok y) ↔ x.isFinite = true := by
  cases x <;> simp [whenFinite, isFinite]

/-- Whether a whole number lies in the range of floating-point numbers. -/
def InRange (n : ℤ) : Prop :=
  n.natAbs < 2 ^ 1024 - 2 ^ 970

instance (n : ℤ) : Decidable (InRange n) :=
  inferInstanceAs (Decidable (_ < _))

/-- The whole numbers that can be converted to floating-point numbers. -/
theorem exists_ofInt_iff (n : ℤ) : (∃ x, Binary64.ofInt n = .ok x) ↔ InRange n := by
  rw [ofInt, exists_whenFinite_iff, isFinite_ofRatio_iff, InRange]

/-- The whole numbers whose conversion fails. -/
lemma ofInt_eq_error_iff (n : ℤ) : Binary64.ofInt n = .error .outOfRange ↔ ¬InRange n := by
  rw [← exists_ofInt_iff]
  cases h : Binary64.ofInt n with
  | ok x => simp
  | error f =>
      obtain rfl := eq_outOfRange_of_whenFinite h
      simp

end AbilityRotation.Number.Binary64

namespace AbilityRotation.Threshold

open Number

lemma inRange_real (x : Binary64) : (Threshold.real x).InRange :=
  ⟨x, rfl⟩

/-- A whole number can take effect as a threshold exactly if it lies in the range. -/
lemma inRange_whole_iff (n : ℤ) : (Threshold.whole n).InRange ↔ Binary64.InRange n :=
  Binary64.exists_ofInt_iff n

end AbilityRotation.Threshold
