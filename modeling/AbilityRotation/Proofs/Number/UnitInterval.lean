import Mathlib.Tactic
import AbilityRotation.Ability.Threshold
import AbilityRotation.Proofs.Outcome

/-!
Numbers brought between 0 and 1.

A floating-point number is compared by its place, the number of units of `2 ^ (-1074)` that it is
made of.
* `Binary64.place?_inUnitInterval`: a finite number is brought between 0 and 1 by its place.
* `Threshold.TakesEffect` says what is left of a threshold that takes effect, and
  `takesEffect_of_effective` that this is what is computed.  Only a whole number can fail to take
  effect (`of_effective_eq_error`).
-/

namespace AbilityRotation

namespace Number.Binary64

/-- Whether a number lies between 0 and 1. -/
def InUnit (x : Binary64) : Prop :=
  ∃ units, x.place? = some ⟨0, units⟩ ∧ 0 ≤ units ∧ units ≤ 2 ^ unitBits

variable {x y : Binary64}

/-- A number that is not finite has no place between 0 and 1. -/
lemma inUnitInterval_eq_none_iff : x.inUnitInterval = none ↔ x.isFinite = false := by
  cases x with
  | nan => exact ⟨fun _ => rfl, fun _ => rfl⟩
  | infinite negative => exact ⟨fun _ => rfl, fun _ => rfl⟩
  | finite negative significand scale h =>
      rw [inUnitInterval]
      split
      · simp [isFinite]
      · split <;> simp [isFinite]

/-- A finite number is brought between 0 and 1 by its place. -/
lemma place?_inUnitInterval (h : x.inUnitInterval = some y) :
    ∃ units, x.place? = some ⟨0, units⟩ ∧
      y.place? = some ⟨0, max 0 (min units (2 ^ unitBits))⟩ := by
  cases x with
  | nan => cases h
  | infinite negative => cases h
  | finite negative significand scale hc =>
      have hpos : (0 : ℤ) < 2 ^ unitBits := by positivity
      have hzero : zero.place? = some ⟨0, 0⟩ := by decide
      have hone : one.place? = some ⟨0, 2 ^ unitBits⟩ := by decide +kernel
      refine ⟨_, rfl, ?_⟩
      rw [inUnitInterval] at h
      split at h
      · next hsign =>
          cases h
          have hle : (if negative then -((significand * 2 ^ scale : ℕ) : ℤ)
              else ((significand * 2 ^ scale : ℕ) : ℤ)) ≤ 0 := by
            cases negative with
            | true => simp
            | false => simp_all
          rw [hzero, min_eq_left (hle.trans hpos.le), max_eq_left hle]
      · next hsign =>
          have hneg : negative = false := by
            cases negative <;> simp_all
          subst hneg
          split at h
          · next hlarge =>
              cases h
              have hle : (2 : ℤ) ^ unitBits ≤ (significand * 2 ^ scale : ℕ) := by
                exact_mod_cast hlarge
              simp only [Bool.false_eq_true, if_false]
              rw [hone, min_eq_right hle, max_eq_right hpos.le]
          · next hsmall =>
              cases h
              have hle : ((significand * 2 ^ scale : ℕ) : ℤ) ≤ 2 ^ unitBits := by
                exact_mod_cast (Nat.lt_of_not_le hsmall).le
              simp only [place?, Bool.false_eq_true, if_false]
              rw [min_eq_left hle, max_eq_right (Int.natCast_nonneg _)]

/-- What is not finite is out of range, and nothing else is. -/
lemma eq_outOfRange_of_whenFinite {f : Fault} (h : x.whenFinite = .error f) : f = .outOfRange := by
  cases x with
  | finite negative significand scale hc => simp [whenFinite] at h
  | nan => simpa [whenFinite, eq_comm] using h
  | infinite negative => simpa [whenFinite, eq_comm] using h

end Number.Binary64

namespace Threshold

open Number

/-- Whether a threshold is a floating-point number, or a whole number in their range. -/
def InRange (t : Threshold) : Prop :=
  ∃ x, t.toReal = .ok x

/-- What is left of a threshold that takes effect: nothing of one that is not finite, and otherwise
the number that is brought between 0 and 1. -/
def TakesEffect (t : Threshold) (y : Option Binary64) : Prop :=
  ∃ x, t.toReal = .ok x ∧
    ((x.isFinite = false ∧ y = none) ∨
      ∃ units z, x.place? = some ⟨0, units⟩ ∧ y = some z ∧
        z.place? = some ⟨0, max 0 (min units (2 ^ Binary64.unitBits))⟩)

variable {t : Threshold} {y : Option Binary64}

lemma takesEffect_of_effective (h : t.effective = .ok y) : t.TakesEffect y := by
  obtain ⟨x, hx, rfl⟩ := map_eq_ok_iff.mp h
  refine ⟨x, hx, ?_⟩
  cases hy : x.inUnitInterval with
  | none => exact .inl ⟨Binary64.inUnitInterval_eq_none_iff.mp hy, rfl⟩
  | some z =>
      obtain ⟨units, hunits, hz⟩ := Binary64.place?_inUnitInterval hy
      exact .inr ⟨units, z, hunits, rfl, hz⟩

/-- What takes effect lies between 0 and 1. -/
lemma TakesEffect.inUnit (h : t.TakesEffect y) : ∀ x ∈ y, x.InUnit := by
  obtain ⟨x, -, ⟨-, rfl⟩ | ⟨units, z, -, rfl, hz⟩⟩ := h
  · simp
  · rintro z' ⟨⟩
    have hpos : (0 : ℤ) < 2 ^ Binary64.unitBits := by positivity
    exact ⟨_, hz, le_max_left _ _, max_le hpos.le (min_le_right _ _)⟩

/-- What is left of a threshold shows that it could take effect. -/
lemma TakesEffect.inRange (h : t.TakesEffect y) : t.InRange := by
  obtain ⟨x, hx, -⟩ := h
  exact ⟨x, hx⟩

/-- The one reason why a threshold cannot take effect. -/
lemma of_effective_eq_error {f : Fault} (h : t.effective = .error f) :
    f = .outOfRange ∧ ¬t.InRange := by
  rw [effective] at h
  cases hx : t.toReal with
  | ok x => simp [hx, Except.map] at h
  | error e =>
      obtain rfl : e = f := by simpa [hx, Except.map] using h
      refine ⟨?_, fun ⟨x, h'⟩ => by simp [hx] at h'⟩
      cases t with
      | real x => cases hx
      | whole n => exact Binary64.eq_outOfRange_of_whenFinite hx

end Threshold

end AbilityRotation
