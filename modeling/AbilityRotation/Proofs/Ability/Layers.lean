import AbilityRotation.Proofs.Raw.Fields
import AbilityRotation.Proofs.Resolution.Precedence
import AbilityRotation.Proofs.Settings.Payload

/-!
Taking up overrides one after the other, or merged.

Each time overrides are taken up their values are brought into range.  That this is done for every
layer does not change what comes out in the end (`Acts`), but for one case: a threshold that cannot
take effect is a fault where its layer is taken up, and none where a later layer hides it (`Hides`).
* `UncheckedAbility`: data that were put together by hand, with ticks and a threshold that may be
  out of range.
* `UncheckedAbility.acts_apply`: taking up overrides is an action of merging on such data.
* `Acts.of_commutes`: an action restricts to data that are among others.
* `Overrides.apply_merge`: effective abilities are such data.
-/

namespace AbilityRotation

open Number

variable {γ δ : Type} {a b : Option Overrides}

namespace Overrides

/-- Whether the texts of overrides, if there are any, are not blank. -/
structure Worded (a : Option Overrides) : Prop where
  /-- The kind is not blank. -/
  type : ∀ o ∈ a, ∀ s ∈ o.type, Text.isBlankText s = false
  /-- The mask is not blank. -/
  mask : ∀ o ∈ a, ∀ s ∈ o.mask, Text.isBlankText s = false

/-- Whether `b` hides a threshold of `a` that could not take effect. -/
def Hides (b a : Option Overrides) : Prop :=
  (∃ t ∈ (a.getD empty).detectionThreshold, ¬t.InRange) ∧
    ∃ t ∈ (b.getD empty).detectionThreshold, t.InRange

/-- Whether overrides can be taken up merged as well as one after the other, unless the later ones
hide a threshold that is a fault.  Only the later ones must not have blank texts: these would hide
earlier texts if they are merged, and are passed over if they are taken up. -/
def Acts (apply : γ → Option Overrides → Except Fault γ) : Prop :=
  ∀ c a b, (Worded b → ¬Hides b a → apply c (merge a b) = (apply c a).bind (apply · b)) ∧
    (Hides b a → apply c a = .error .outOfRange ∧ ∃ x, apply c (merge a b) = .ok x)

/-- An action restricts to data that are among others. -/
lemma Acts.of_commutes {apply : γ → Option Overrides → Except Fault γ}
    {apply' : δ → Option Overrides → Except Fault δ} {f : γ → δ} (hf : Function.Injective f)
    (hcomm : ∀ c o, apply' (f c) o = (apply c o).map f) (h : Acts apply') : Acts apply := by
  intro c a b
  obtain ⟨hmerged, hhidden⟩ := h (f c) a b
  have hbind : (apply' (f c) a).bind (apply' · b) = ((apply c a).bind (apply · b)).map f := by
    rw [hcomm]
    cases apply c a with
    | error e => rfl
    | ok x => exact hcomm x b
  rw [hcomm, hbind] at hmerged
  rw [hcomm, hcomm] at hhidden
  refine ⟨fun hb hnot => map_injective hf (hmerged hb hnot), fun hhides => ?_⟩
  obtain ⟨herror, y, hy⟩ := hhidden hhides
  obtain ⟨x, hx, -⟩ := map_eq_ok_iff.mp hy
  exact ⟨map_eq_error_iff.mp herror, x, hx⟩

/-! ### Where texts are not blank -/

lemma Worded.getD_empty (h : Worded a) : Worded (some (a.getD empty)) := by
  cases a with
  | none => exact ⟨by simp [empty], by simp [empty]⟩
  | some o => exact h

/-- Payloads set no blank texts. -/
lemma worded_read (payload : List Char) (line : String) : Worded (Settings.read payload line) := by
  have hsettable : ∀ o ∈ Settings.read payload line, o.SettableBy fun _ => True :=
    fun o ho => (Settings.settable_read (fun _ _ => trivial) ho).1
  exact ⟨fun o ho s hs => ((hsettable o ho).type s hs).isBlankText,
    fun o ho s hs => ((hsettable o ho).mask s hs).isBlankText⟩

/-- Raw records describe no blank texts. -/
lemma worded_ofRaw {r : Raw} {o : Overrides} (h : ofRaw r = .ok o) : Worded (some o) := by
  rw [ofRaw] at h
  obtain ⟨type, htype, h⟩ := bind_eq_ok_iff.mp h
  obtain ⟨level, -, h⟩ := bind_eq_ok_iff.mp h
  obtain ⟨castDuration, -, h⟩ := bind_eq_ok_iff.mp h
  obtain ⟨cooldown, -, h⟩ := bind_eq_ok_iff.mp h
  obtain ⟨threshold, -, h⟩ := bind_eq_ok_iff.mp h
  obtain ⟨mask, hmask, h⟩ := bind_eq_ok_iff.mp h
  cases h
  constructor
  · rintro _ ⟨⟩
    exact fun s hs => (Raw.trimmed_of_text? htype s hs).1
  · rintro _ ⟨⟩
    exact fun s hs => (Raw.trimmed_of_text? hmask s hs).1

/-- Modifiers set no texts. -/
lemma worded_overrides (e : Effect) : Worded (some e.overrides) :=
  ⟨by simp [Effect.overrides], by simp [Effect.overrides]⟩

/-- Of two texts that are not blank the later one counts, trimmed or not. -/
lemma bind_trimmed?_or {x y : Option String} (h : ∀ s ∈ y, Text.isBlankText s = false)
    (z : Option String) :
    (y.bind Text.trimmed?).or ((x.bind Text.trimmed?).or z) =
      ((y.or x).bind Text.trimmed?).or z := by
  cases y with
  | none => rfl
  | some s =>
      obtain ⟨t, ht⟩ := Text.exists_trimmed? (h s rfl)
      rw [Option.bind_some, Option.some_or, Option.bind_some, ht, Option.some_or, Option.some_or]

end Overrides

/-! ### Data that were put together by hand -/

/-- Data of an ability that nobody has brought into range. -/
structure UncheckedAbility where
  /-- The key of the ability. -/
  key : String
  /-- Whether the ability triggers the global cooldown. -/
  triggersGcd : Bool
  /-- How long casting or channelling takes, in ticks. -/
  castDuration : Int
  /-- The cooldown of the ability itself, in ticks. -/
  cooldown : Int
  /-- The kind of the ability. -/
  type : Option String := none
  /-- The level the ability needs. -/
  level : Option Int := none
  /-- How sure a detection of the ability must be. -/
  detectionThreshold : Option Threshold := none
  /-- The mask that a detection uses. -/
  mask : Option String := none
  deriving DecidableEq

namespace UncheckedAbility

/-- The threshold once another one is set, or is not. -/
def thresholdAfter (old new : Option Threshold) : Except Fault (Option Threshold) :=
  match new with
  | none => .ok old
  | some t => t.effective.map (Option.map .real)

/-- The data with one set of overrides taken up and the threshold `y`. -/
def overlaid (c : UncheckedAbility) (o : Overrides) (y : Option Threshold) : UncheckedAbility where
  key := c.key
  triggersGcd := o.triggersGcd.getD c.triggersGcd
  castDuration := atLeastZero (o.castDuration.getD c.castDuration)
  cooldown := atLeastZero (o.cooldown.getD c.cooldown)
  type := (o.type.bind Text.trimmed?).or c.type
  level := (o.level.map atLeastZero).or c.level
  detectionThreshold := y
  mask := (o.mask.bind Text.trimmed?).or c.mask

/-- The data with one set of overrides taken up. -/
def withOverrides (c : UncheckedAbility) (o : Overrides) : Except Fault UncheckedAbility :=
  (thresholdAfter c.detectionThreshold o.detectionThreshold).map (c.overlaid o)

/-- The data with overrides taken up; without overrides they stay as they are, also where they are
out of range. -/
def apply (c : UncheckedAbility) (a : Option Overrides) : Except Fault UncheckedAbility :=
  let o := a.getD .empty
  if o.isEmpty then .ok c else c.withOverrides o

variable {c : UncheckedAbility} {o p : Overrides}

lemma atLeastZero_getD (x : Option ℤ) (n : ℤ) :
    atLeastZero (x.getD (atLeastZero n)) = atLeastZero (x.getD n) := by
  cases x with
  | none => exact max_eq_right (le_max_left 0 n)
  | some m => rfl

/-- Values that are brought into range between two layers do not change what comes out. -/
lemma overlaid_overlaid (hp : Overrides.Worded (some p)) (y z : Option Threshold) :
    (c.overlaid o y).overlaid p z = c.overlaid (p.laidOver o) z := by
  simp only [overlaid, Overrides.laidOver, atLeastZero_getD, Option.getD_or, Option.map_or,
    Option.or_assoc, Overrides.bind_trimmed?_or (hp.type p rfl),
    Overrides.bind_trimmed?_or (hp.mask p rfl)]

/-- A threshold that can take effect is no fault. -/
lemma exists_thresholdAfter {new : Option Threshold} (old : Option Threshold)
    (h : ∀ t ∈ new, t.InRange) :
    ∃ y, thresholdAfter old new = .ok y := by
  cases new with
  | none => exact ⟨old, rfl⟩
  | some t =>
      obtain ⟨x, hx⟩ := h t rfl
      exact ⟨_, by rw [thresholdAfter, Threshold.effective, hx]; rfl⟩

/-- A threshold that cannot take effect is a fault. -/
lemma thresholdAfter_of_not_inRange {old : Option Threshold} {t : Threshold} (h : ¬t.InRange) :
    thresholdAfter old (some t) = .error .outOfRange := by
  rw [thresholdAfter]
  cases heff : t.effective with
  | ok y => exact absurd (Threshold.takesEffect_of_effective heff).inRange h
  | error f =>
      obtain ⟨rfl, -⟩ := Threshold.of_effective_eq_error heff
      rfl

/-- The threshold that is left by two layers is that of the merged ones, unless the later one hides
a fault. -/
lemma thresholdAfter_or {old x y : Option Threshold}
    (h : (∃ t ∈ x, ¬t.InRange) → ∀ t ∈ y, ¬t.InRange) :
    thresholdAfter old (y.or x) = (thresholdAfter old x).bind (thresholdAfter · y) := by
  cases y with
  | none =>
      rw [Option.none_or]
      cases thresholdAfter old x with
      | error e => rfl
      | ok z => rfl
  | some u =>
      rw [Option.some_or]
      by_cases hx : ∃ t ∈ x, ¬t.InRange
      · obtain ⟨t, rfl, ht⟩ := hx
        rw [thresholdAfter_of_not_inRange ht, thresholdAfter_of_not_inRange (h ⟨t, rfl, ht⟩ u rfl)]
        rfl
      · obtain ⟨z, hz⟩ := exists_thresholdAfter old (by simpa using hx)
        rw [hz]
        rfl

/-- Overrides are taken up laid over each other as well as one after the other, unless the later
ones hide a fault. -/
lemma withOverrides_laidOver (hp : Overrides.Worded (some p))
    (h : (∃ t ∈ o.detectionThreshold, ¬t.InRange) → ∀ t ∈ p.detectionThreshold, ¬t.InRange) :
    c.withOverrides (p.laidOver o) = (c.withOverrides o).bind (·.withOverrides p) := by
  have hlaid : (p.laidOver o).detectionThreshold = p.detectionThreshold.or o.detectionThreshold :=
    rfl
  simp only [withOverrides, hlaid, thresholdAfter_or h]
  cases thresholdAfter c.detectionThreshold o.detectionThreshold with
  | error e => rfl
  | ok y =>
      have hfields : c.overlaid (p.laidOver o) = (c.overlaid o y).overlaid p :=
        funext fun z => (overlaid_overlaid hp y z).symm
      rw [hfields]
      rfl

lemma isEmpty_of_threshold {t : Threshold} (h : t ∈ o.detectionThreshold) : o.isEmpty = false := by
  simp [Overrides.isEmpty, Option.mem_def.mp h]

lemma apply_of_isEmpty (ha : (a.getD .empty).isEmpty = true) : c.apply a = .ok c := by
  rw [apply, if_pos ha]

lemma apply_of_not_isEmpty (ha : (a.getD .empty).isEmpty = false) :
    c.apply a = c.withOverrides (a.getD .empty) := by
  rw [apply, ha, if_neg Bool.false_ne_true]

/-- Overrides with the same fields are taken up alike. -/
lemma apply_congr (h : a.getD .empty = b.getD .empty) : c.apply a = c.apply b := by
  rw [apply, apply, h]

/-- Overrides without a field add nothing to later ones. -/
lemma apply_merge_of_isEmpty_left (ha : (a.getD .empty).isEmpty = true) :
    c.apply (Overrides.merge a b) = c.apply b := by
  refine apply_congr ?_
  rw [Overrides.getD_merge, (Overrides.isEmpty_iff _).mp ha, Overrides.laidOver_empty]

/-- Overrides without a field add nothing to earlier ones. -/
lemma apply_merge_of_isEmpty_right (hb : (b.getD .empty).isEmpty = true) :
    c.apply (Overrides.merge a b) = c.apply a := by
  refine apply_congr ?_
  rw [Overrides.getD_merge, (Overrides.isEmpty_iff _).mp hb, Overrides.empty_laidOver]

/-- Merged overrides are taken up as well as one after the other, unless the later ones hide a
fault. -/
lemma apply_merge_of_not_hides (hb : Overrides.Worded b) (h : ¬Overrides.Hides b a) :
    c.apply (Overrides.merge a b) = (c.apply a).bind (·.apply b) := by
  cases ha : (a.getD .empty).isEmpty with
  | true =>
      rw [apply_merge_of_isEmpty_left ha, apply_of_isEmpty ha]
      rfl
  | false =>
      cases hbe : (b.getD .empty).isEmpty with
      | true =>
          have hlast : (fun x : UncheckedAbility => x.apply b) = .ok :=
            funext fun x => apply_of_isEmpty hbe
          rw [apply_merge_of_isEmpty_right hbe, hlast]
          cases c.apply a with
          | error e => rfl
          | ok x => rfl
      | false =>
          have hlast : (fun x : UncheckedAbility => x.apply b) =
              fun x => x.withOverrides (b.getD .empty) :=
            funext fun x => apply_of_not_isEmpty hbe
          rw [apply_of_not_isEmpty, apply_of_not_isEmpty ha, hlast, Overrides.getD_merge]
          · exact withOverrides_laidOver hb.getD_empty fun hx u hu hrange =>
              h ⟨hx, u, hu, hrange⟩
          · rw [Overrides.getD_merge, Overrides.isEmpty_laidOver, hbe, Bool.false_and]

/-- A threshold that is hidden is a fault of its own layer alone. -/
lemma of_hides (h : Overrides.Hides b a) :
    c.apply a = .error .outOfRange ∧ ∃ x, c.apply (Overrides.merge a b) = .ok x := by
  obtain ⟨⟨t, ht, hrange⟩, u, hu, hurange⟩ := h
  have hmerged : u ∈ ((Overrides.merge a b).getD .empty).detectionThreshold := by
    rw [Overrides.getD_merge, Overrides.laidOver, Option.mem_def.mp hu]
    rfl
  have hlate : ∀ t ∈ some u, t.InRange := by
    rintro _ ⟨⟩
    exact hurange
  obtain ⟨y, hy⟩ := exists_thresholdAfter c.detectionThreshold hlate
  rw [apply_of_not_isEmpty (isEmpty_of_threshold ht),
    apply_of_not_isEmpty (isEmpty_of_threshold hmerged), withOverrides, withOverrides,
    Option.mem_def.mp ht, Option.mem_def.mp hmerged, thresholdAfter_of_not_inRange hrange, hy]
  exact ⟨rfl, _, rfl⟩

/-- Taking up overrides is an action of merging. -/
lemma acts_apply : Overrides.Acts apply :=
  fun _ _ _ => ⟨apply_merge_of_not_hides, of_hides⟩

end UncheckedAbility

/-! ### Effective abilities -/

namespace EffectiveAbility

variable {e : EffectiveAbility}

/-- The data without the knowledge that they are in range. -/
def unchecked (e : EffectiveAbility) : UncheckedAbility where
  key := e.key
  triggersGcd := e.triggersGcd
  castDuration := e.castDuration
  cooldown := e.cooldown
  type := e.type
  level := e.level
  detectionThreshold := e.detectionThreshold.map .real
  mask := e.mask

lemma unchecked_injective : Function.Injective unchecked := by
  intro x y h
  have hreal : Function.Injective Threshold.real := fun _ _ h => Threshold.real.inj h
  obtain ⟨key, gcd, cast, cooldown, type, level, threshold, mask⟩ := x
  obtain ⟨key', gcd', cast', cooldown', type', level', threshold', mask'⟩ := y
  simpa [unchecked, (Option.map_injective hreal).eq_iff] using h

lemma unchecked_overlaid (o : Overrides) (y : Option Binary64) :
    (e.overlaid o y).unchecked = e.unchecked.overlaid o (y.map .real) := by
  have hticks : ∀ (x : Option ℤ) (n : ℕ),
      (((x.map Int.toNat).getD n : ℕ) : ℤ) = atLeastZero (x.getD n) := by
    intro x n
    cases x with
    | none => exact (max_eq_right (Int.natCast_nonneg n)).symm
    | some m => exact (Int.toNat_eq_max m).trans (max_comm m 0)
  simp only [unchecked, overlaid, UncheckedAbility.overlaid, hticks]

/-- Effective abilities take up overrides as such data do. -/
lemma apply_unchecked (e : EffectiveAbility) (a : Option Overrides) :
    e.unchecked.apply a = (e.apply a).map unchecked := by
  rw [apply_eq]
  cases ha : (a.getD .empty).isEmpty with
  | true =>
      rw [UncheckedAbility.apply_of_isEmpty ha, (Overrides.isEmpty_iff _).mp ha,
        withOverrides_empty]
      rfl
  | false =>
      have hthreshold : ∀ new, UncheckedAbility.thresholdAfter e.unchecked.detectionThreshold new =
          (thresholdAfter e.detectionThreshold new).map (Option.map .real) := by
        intro new
        cases new with
        | none => rfl
        | some t => rfl
      rw [UncheckedAbility.apply_of_not_isEmpty ha, UncheckedAbility.withOverrides, hthreshold,
        withOverrides_eq]
      cases thresholdAfter e.detectionThreshold (a.getD .empty).detectionThreshold with
      | error f => rfl
      | ok y => exact congrArg Except.ok (unchecked_overlaid _ y).symm

/-- Effective abilities take up merged overrides as such data do. -/
lemma acts_apply : Overrides.Acts apply :=
  UncheckedAbility.acts_apply.of_commutes unchecked_injective apply_unchecked

end EffectiveAbility

/-- **Taking up overrides is an action of merging.**  Of three sets of overrides it does not matter
which two are merged first.  Overrides whose texts are not blank, as are all that payloads, raw
records and modifiers give, are taken up merged as well as one after the other, by effective
abilities and by data that are out of range.  The one exception is a threshold beyond the range of
floating-point numbers that a later one hides: its layer is a fault, and the merged layers are
none. -/
theorem Overrides.apply_merge (a b d : Option Overrides) (c : UncheckedAbility)
    (e : EffectiveAbility) :
    merge (merge a b) d = merge a (merge b d) ∧
      (Worded b → ¬Hides b a →
        c.apply (merge a b) = (c.apply a).bind (·.apply b) ∧
        e.apply (merge a b) = (e.apply a).bind (·.apply b)) ∧
      (Hides b a →
        (c.apply a = .error .outOfRange ∧ ∃ x, c.apply (merge a b) = .ok x) ∧
        e.apply a = .error .outOfRange ∧ ∃ x, e.apply (merge a b) = .ok x) ∧
      (∀ payload line, Worded (Settings.read payload line)) ∧
      (∀ r o, ofRaw r = .ok o → Worded (some o)) ∧ ∀ m : Effect, Worded (some m.overrides) :=
  ⟨merge_assoc a b d,
    fun hb hnot => ⟨(UncheckedAbility.acts_apply c a b).1 hb hnot,
      (EffectiveAbility.acts_apply e a b).1 hb hnot⟩,
    fun hhides => ⟨(UncheckedAbility.acts_apply c a b).2 hhides,
      (EffectiveAbility.acts_apply e a b).2 hhides⟩,
    worded_read, fun _ _ => worded_ofRaw, worded_overrides⟩

/-- A time for casting below zero is taken up as well before a mask as together with it.  A
threshold that no floating-point number comes near is a fault, also where a later one would
count. -/
theorem Overrides.apply_merge_hidden :
    let c : UncheckedAbility :=
      { key := "a", triggersGcd := true, castDuration := -1, cooldown := -2 }
    let e : EffectiveAbility :=
      { key := "a", triggersGcd := true, castDuration := 0, cooldown := 0 }
    let early : Overrides := { castDuration := some (-3), mask := some " " }
    let late : Overrides := { type := some "ranged", mask := some " slow " }
    let sharp : Overrides := { detectionThreshold := some (.whole (2 ^ 1024)) }
    let eased : Overrides := { detectionThreshold := some (.real Binary64.zero) }
    (Worded (some late) ∧ ¬Hides (some late) (some early) ∧
      c.apply (merge (some early) (some late)) =
        (c.apply (some early)).bind (·.apply (some late))) ∧
    Hides (some eased) (some sharp) ∧ e.apply (some sharp) = .error .outOfRange ∧
      ∃ x, e.apply (merge (some sharp) (some eased)) = .ok x := by
  intro c e early late sharp eased
  have hlate : Worded (some late) := by
    constructor
    · rintro _ ⟨⟩ _ ⟨⟩
      decide
    · rintro _ ⟨⟩ _ ⟨⟩
      decide
  have hnot : ¬Hides (some late) (some early) := by
    rintro ⟨⟨_, ⟨⟩, -⟩, -⟩
  have hrange : ¬(Threshold.whole (2 ^ 1024)).InRange :=
    (Threshold.inRange_whole_iff _).not.mpr (by decide +kernel)
  have hhides : Hides (some eased) (some sharp) :=
    ⟨⟨_, rfl, hrange⟩, _, rfl, Binary64.zero, rfl⟩
  obtain ⟨-, hmerged, -⟩ := apply_merge (some early) (some late) none c e
  obtain ⟨-, -, hhidden, -⟩ := apply_merge (some sharp) (some eased) none c e
  exact ⟨⟨hlate, hnot, (hmerged hlate hnot).1⟩, hhides, (hhidden hhides).2⟩

end AbilityRotation
