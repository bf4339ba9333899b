import Mathlib.Tactic
import AbilityRotation.Proofs.Number.Range
import AbilityRotation.Rotation.Resolution

/-!
Which layer decides each datum of an occurrence.

The settings of the occurrence come before the effects of its modifiers, these before the settings
for the ability, and the database comes last.  A datum is decided by the first of these layers that
sets it, whatever the others say.
* `Catalog.lastEffect` is what the last of several modifiers sets that applies and sets anything;
  `getD_derive` says that the overrides derived from modifiers consist of that.
* `Resolver.decided` says for each datum which layer decides it.
* `use_precedence`: a use with a known ability is resolved in this way, unless one of the thresholds
  in the layers is a whole number beyond the range of floating-point numbers.
-/

namespace AbilityRotation

open Number

/-! ### The effects of modifiers -/

namespace Catalog

/-- The modifier with the given key, or else the one with the given alias. -/
def named? (c : Catalog) (name : String) : Option Modifier :=
  (c.definition? name).or (c.resolve name)

/-- The effect that the modifier with the given key or alias has on an ability, if it applies. -/
def effect? (c : Catalog) (ability name : String) : Option Effect :=
  ((c.named? name).filter (·.accepts ability)).map (·.effect)

/-- The field that the last of the given modifiers sets, of those that apply to the ability and set
it at all. -/
def lastEffect {α : Type} (c : Catalog) (ability : String) (names : List String)
    (field : Effect → Option α) : Option α :=
  names.reverse.findSome? fun name => (c.effect? ability name).bind field

variable {α : Type} {c : Catalog} {ability name : String} {names : List String}

lemma lastEffect_concat (field : Effect → Option α) :
    c.lastEffect ability (names ++ [name]) field =
      ((c.effect? ability name).bind field).or (c.lastEffect ability names field) := by
  rw [lastEffect, List.reverse_append, List.reverse_singleton, List.singleton_append,
    List.findSome?_cons]
  cases (c.effect? ability name).bind field with
  | none => rfl
  | some a => rfl

/-- A modifier contributes its effect if it applies, and nothing otherwise. -/
lemma contribution_eq (c : Catalog) (ability name : String) :
    (c.contribution (some ability) (some name)).toOption =
      (c.effect? ability name).map (·.overrides) := by
  simp only [contribution, effect?, named?, Option.bind_some]
  cases (c.definition? name).or (c.resolve name) with
  | none => rfl
  | some m =>
      rw [Option.filter_some]
      cases hm : m.accepts ability with
      | false => simp [hm, Except.toOption]
      | true => simp [hm, Except.toOption]

/-- One more modifier lays its effect over those of the modifiers before it. -/
lemma getD_derive_concat :
    (c.derive (some ability) ((names ++ [name]).map some)).getD Overrides.empty =
      (((c.effect? ability name).map (·.overrides)).getD Overrides.empty).laidOver
        ((c.derive (some ability) (names.map some)).getD Overrides.empty) := by
  rw [← contribution_eq, derive, List.map_append, List.foldl_append, ← derive]
  simp only [List.map_cons, List.map_nil, List.foldl_cons, List.foldl_nil]
  cases c.contribution (some ability) (some name) with
  | error notice => simp [Except.toOption]
  | ok o => simp [Except.toOption, Overrides.merge]

/-- The overrides derived from modifiers: each field is set by the last modifier that sets it. -/
lemma getD_derive (c : Catalog) (ability : String) (names : List String) :
    (c.derive (some ability) (names.map some)).getD Overrides.empty =
      Effect.overrides
        { triggersGcd := c.lastEffect ability names (·.triggersGcd)
          castDuration := c.lastEffect ability names (·.castDuration)
          cooldown := c.lastEffect ability names (·.cooldown) } := by
  induction names using List.reverseRecOn with
  | nil => rfl
  | append_singleton names name ih =>
      simp only [getD_derive_concat, ih, lastEffect_concat]
      cases c.effect? ability name with
      | none => simp
      | some e => simp [Effect.overrides, Overrides.laidOver]

end Catalog

/-! ### Overrides one after the other -/

namespace EffectiveAbility

/-- No overrides are the same as overrides without a field. -/
lemma apply_eq (x : EffectiveAbility) (o : Option Overrides) :
    x.apply o = x.withOverrides (o.getD Overrides.empty) := by
  cases o with
  | none => exact (withOverrides_empty x).symm
  | some o => rfl

/-- The data of the database with the threshold `y`. -/
def start (key : String) (base : Ability) (y : Option Binary64) : EffectiveAbility where
  key := key
  triggersGcd := base.triggersGcd
  castDuration := base.castDuration.toNat
  cooldown := base.cooldown.toNat
  type := base.type
  level := base.level
  detectionThreshold := y
  mask := base.mask

/-- The data with one set of overrides taken up and the threshold `y`. -/
def overlaid (x : EffectiveAbility) (o : Overrides) (y : Option Binary64) : EffectiveAbility where
  key := x.key
  triggersGcd := o.triggersGcd.getD x.triggersGcd
  castDuration := (o.castDuration.map Int.toNat).getD x.castDuration
  cooldown := (o.cooldown.map Int.toNat).getD x.cooldown
  type := (o.type.bind Text.trimmed?).or x.type
  level := (o.level.map atLeastZero).or x.level
  detectionThreshold := y
  mask := (o.mask.bind Text.trimmed?).or x.mask

lemma start_detectionThreshold (key : String) (base : Ability) (y : Option Binary64) :
    (start key base y).detectionThreshold = y := rfl

lemma overlaid_detectionThreshold (x : EffectiveAbility) (o : Overrides) (y : Option Binary64) :
    (x.overlaid o y).detectionThreshold = y := rfl

lemma thresholdAfter_none (old : Option Binary64) : thresholdAfter old none = .ok old := rfl

lemma ofAbility_eq (key : String) (base : Ability) :
    ofAbility key base = (thresholdAfter none base.detectionThreshold).map (start key base) := rfl

lemma withOverrides_eq (x : EffectiveAbility) (o : Overrides) :
    x.withOverrides o =
      (thresholdAfter x.detectionThreshold o.detectionThreshold).map (x.overlaid o) := rfl

end EffectiveAbility

namespace Threshold

/-- The threshold `y` is what takes effect of the deciding threshold `t?`, if there is one. -/
def Leaves (t? : Option Threshold) (y : Option Binary64) : Prop :=
  match t? with
  | none => y = none
  | some t => t.TakesEffect y

variable {before t? : Option Threshold} {y z : Option Binary64}

lemma Leaves.inUnit (h : Leaves t? y) : ∀ x ∈ y, x.InUnit := by
  cases t? with
  | none => simp [show y = none from h]
  | some t => exact TakesEffect.inUnit h

/-- A threshold that is set decides, and one that is not leaves the decision to those before. -/
lemma Leaves.after (h : Leaves before y) (hz : EffectiveAbility.thresholdAfter y t? = .ok z) :
    Leaves (t?.or before) z := by
  cases t? with
  | none =>
      cases hz
      exact h
  | some t => exact takesEffect_of_effective hz

lemma inRange_of_thresholdAfter (h : EffectiveAbility.thresholdAfter y t? = .ok z) :
    ∀ t ∈ t?, t.InRange := by
  cases t? with
  | none => simp
  | some t =>
      rintro t' ⟨⟩
      exact (takesEffect_of_effective h).inRange

lemma of_thresholdAfter_eq_error {f : Fault} (h : EffectiveAbility.thresholdAfter y t? = .error f) :
    f = .outOfRange ∧ ∃ t ∈ t?, ¬t.InRange := by
  cases t? with
  | none => cases h
  | some t =>
      obtain ⟨rfl, ht⟩ := of_effective_eq_error h
      exact ⟨rfl, t, rfl, ht⟩

end Threshold

/-! ### The layers of an occurrence -/

namespace Resolver

/-- What the settings of the occurrence set for a field. -/
def own? {α : Type} (u : AbilityUse) (field : Overrides → Option α) : Option α :=
  field (u.overrides.getD Overrides.empty)

/-- What the modifiers of the occurrence set for a field. -/
def modified? {α : Type} (r : Resolver) (u : AbilityUse) (field : Effect → Option α) : Option α :=
  r.catalog.lastEffect u.key u.modifiers field

/-- What the settings for the ability set for a field. -/
def shared? {α : Type} (r : Resolver) (u : AbilityUse) (field : Overrides → Option α) : Option α :=
  field ((r.settings u).getD Overrides.empty)

/-- The thresholds that are set in any of the layers. -/
def thresholds (r : Resolver) (u : AbilityUse) (base : Ability) : List Threshold :=
  base.detectionThreshold.toList ++ (r.shared? u (·.detectionThreshold)).toList ++
    (own? u (·.detectionThreshold)).toList

/-- The threshold of a use, taken through the layers that can set it. -/
def threshold (r : Resolver) (u : AbilityUse) (base : Ability) :
    Except Number.Fault (Option Binary64) := do
  let first ← EffectiveAbility.thresholdAfter none base.detectionThreshold
  let second ← EffectiveAbility.thresholdAfter first (r.shared? u (·.detectionThreshold))
  EffectiveAbility.thresholdAfter second (own? u (·.detectionThreshold))

/-- The data of a use whose ability has the data `base`, with the threshold `y`: each of the others
is decided by the first layer that sets it. -/
def decided (r : Resolver) (u : AbilityUse) (base : Ability) (y : Option Binary64) :
    EffectiveAbility where
  key := u.key
  triggersGcd := (((own? u (·.triggersGcd)).or (r.modified? u (·.triggersGcd))).or
    (r.shared? u (·.triggersGcd))).getD base.triggersGcd
  castDuration := ((((own? u (·.castDuration)).or (r.modified? u (·.castDuration))).or
    (r.shared? u (·.castDuration))).getD base.castDuration).toNat
  cooldown := ((((own? u (·.cooldown)).or (r.modified? u (·.cooldown))).or
    (r.shared? u (·.cooldown))).getD base.cooldown).toNat
  type := (((own? u (·.type)).bind Text.trimmed?).or
    ((r.shared? u (·.type)).bind Text.trimmed?)).or base.type
  level := (((own? u (·.level)).or (r.shared? u (·.level))).map (max 0)).or base.level
  detectionThreshold := y
  mask := (((own? u (·.mask)).bind Text.trimmed?).or
    ((r.shared? u (·.mask)).bind Text.trimmed?)).or base.mask

variable {r : Resolver} {u : AbilityUse} {base : Ability}

/-- The layers laid over each other decide every datum but the threshold. -/
lemma overlaid_eq_decided (r : Resolver) (u : AbilityUse) (base : Ability)
    (y₁ y₂ y₃ y₄ : Option Binary64) :
    (((EffectiveAbility.start u.key base y₁).overlaid
        ((r.settings u).getD Overrides.empty) y₂).overlaid
          ((r.modifierOverrides u).getD Overrides.empty) y₃).overlaid
            (u.overrides.getD Overrides.empty) y₄ = r.decided u base y₄ := by
  rw [modifierOverrides, Catalog.getD_derive]
  simp [decided, own?, shared?, modified?, EffectiveAbility.overlaid, EffectiveAbility.start,
    Effect.overrides, Option.getD_or, Option.getD_map, Option.or_assoc, Option.map_or]
  rfl

/-- Nothing but the threshold can fail in the layers. -/
lemma layers_eq (r : Resolver) (u : AbilityUse) (base : Ability) :
    r.layers u base = (r.threshold u base).map (r.decided u base) := by
  have hM : ((r.modifierOverrides u).getD Overrides.empty).detectionThreshold = none := by
    rw [modifierOverrides, Catalog.getD_derive]
    rfl
  simp only [layers, common, EffectiveAbility.apply_eq, EffectiveAbility.ofAbility_eq,
    EffectiveAbility.withOverrides_eq, threshold, shared?, own?]
  cases EffectiveAbility.thresholdAfter none base.detectionThreshold with
  | error fault => rfl
  | ok first =>
      simp only [Except.map, bind, Except.bind, EffectiveAbility.start_detectionThreshold]
      cases EffectiveAbility.thresholdAfter first
          ((r.settings u).getD Overrides.empty).detectionThreshold with
      | error fault => rfl
      | ok second =>
          simp only [EffectiveAbility.overlaid_detectionThreshold, hM,
            EffectiveAbility.thresholdAfter_none, overlaid_eq_decided]

/-- A threshold that the layers leave shows that all of theirs could take effect. -/
lemma of_threshold_eq_ok {y : Option Binary64} (h : r.threshold u base = .ok y) :
    (∀ t ∈ r.thresholds u base, t.InRange) ∧
      Threshold.Leaves (((own? u (·.detectionThreshold)).or
        (r.shared? u (·.detectionThreshold))).or base.detectionThreshold) y := by
  obtain ⟨first, h₁, h⟩ := bind_eq_ok_iff.mp h
  obtain ⟨second, h₂, h₃⟩ := bind_eq_ok_iff.mp h
  constructor
  · intro t ht
    simp only [thresholds, List.mem_append, Option.mem_toList] at ht
    rcases ht with (ht | ht) | ht
    · exact Threshold.inRange_of_thresholdAfter h₁ t ht
    · exact Threshold.inRange_of_thresholdAfter h₂ t ht
    · exact Threshold.inRange_of_thresholdAfter h₃ t ht
  · have hnone : Threshold.Leaves none none := rfl
    have hthird := ((hnone.after h₁).after h₂).after h₃
    rwa [Option.or_none, ← Option.or_assoc] at hthird

/-- The layers fail only where one of their thresholds cannot take effect. -/
lemma of_threshold_eq_error {f : Number.Fault} (h : r.threshold u base = .error f) :
    f = .outOfRange ∧ ∃ t ∈ r.thresholds u base, ¬t.InRange := by
  simp only [thresholds, List.mem_append, Option.mem_toList]
  rcases bind_eq_error_iff.mp h with h | ⟨first, -, h⟩
  · obtain ⟨hf, t, ht, hrange⟩ := Threshold.of_thresholdAfter_eq_error h
    exact ⟨hf, t, .inl (.inl ht), hrange⟩
  · rcases bind_eq_error_iff.mp h with h | ⟨second, -, h⟩
    · obtain ⟨hf, t, ht, hrange⟩ := Threshold.of_thresholdAfter_eq_error h
      exact ⟨hf, t, .inl (.inr ht), hrange⟩
    · obtain ⟨hf, t, ht, hrange⟩ := Threshold.of_thresholdAfter_eq_error h
      exact ⟨hf, t, .inr ht, hrange⟩

/-- A use with a known ability is resolved to what is decided once it has a threshold. -/
lemma use_of_lookup (h : r.database.lookup u.key = some base) :
    r.use u = ((r.threshold u base).map (r.decided u base)).mapError .number := by
  rw [use, h, ← layers_eq]

/-- **Precedence.**  The data of a use with a known ability are those that the layers decide, and
its threshold is what takes effect of the one in the first layer that sets any; it is none or lies
between 0 and 1.  The only fault is a threshold, in whatever layer, that is a whole number beyond
the range of floating-point numbers. -/
theorem use_precedence (r : Resolver) (u : AbilityUse) (base : Ability)
    (h : r.database.lookup u.key = some base) :
    ((∀ t ∈ r.thresholds u base, t.InRange) ∧
      ∃ y, r.use u = .ok (r.decided u base y) ∧
        Threshold.Leaves (((own? u (·.detectionThreshold)).or
          (r.shared? u (·.detectionThreshold))).or base.detectionThreshold) y ∧
        ∀ x ∈ y, x.InUnit) ∨
    ((∃ t ∈ r.thresholds u base, ¬t.InRange) ∧ r.use u = .error (.number .outOfRange)) := by
  have huse := use_of_lookup h
  cases hy : r.threshold u base with
  | ok y =>
      obtain ⟨hrange, hleaves⟩ := of_threshold_eq_ok hy
      rw [hy] at huse
      exact .inl ⟨hrange, y, huse, hleaves, hleaves.inUnit⟩
  | error f =>
      obtain ⟨rfl, hrange⟩ := of_threshold_eq_error hy
      rw [hy] at huse
      exact .inr ⟨hrange, huse⟩

/-- A resolver that knows the default modifiers and one ability, a special attack. -/
def ofSpec (base : Ability) : Resolver :=
  { database := Database.withAbility ⟨Table.empty⟩ "spec" base }

/-- Two modifiers come before the settings for the ability, and the later of them counts; a
threshold of two is as good as one.  One that no floating-point number comes near is a fault even
under settings that replace it. -/
theorem use_precedence_spec :
    let slow : Ability :=
      { castDuration := 3, cooldown := -1, detectionThreshold := some (.whole 2) }
    let sharp : Ability := { detectionThreshold := some (.whole (2 ^ 1024)) }
    let armed : AbilityUse :=
      { key := "spec", modifiers := ["armadylbattlestaff", "unknown", "gmaul"] }
    let eased : AbilityUse :=
      { key := "spec", overrides := some { detectionThreshold := some (.real Binary64.zero) } }
    ((ofSpec slow).database.lookup "spec" = some slow ∧
      (ofSpec slow).use armed = .ok
        { key := "spec", triggersGcd := false, castDuration := 5, cooldown := 0,
          detectionThreshold := some Binary64.one }) ∧
    (ofSpec sharp).database.lookup "spec" = some sharp ∧
      (ofSpec sharp).use eased = .error (.number .outOfRange) := by
  intro slow sharp armed eased
  have hslow : (ofSpec slow).database.lookup "spec" = some slow := by decide
  have hsharp : (ofSpec sharp).database.lookup "spec" = some sharp := by decide +kernel
  refine ⟨⟨hslow, ?_⟩, hsharp, ?_⟩
  · rcases use_precedence (ofSpec slow) armed slow hslow with
      ⟨-, y, huse, -, -⟩ | ⟨-, hfault⟩
    · have hy : ((ofSpec slow).use armed).toOption.bind (·.detectionThreshold) =
          some Binary64.one := by decide +kernel
      rw [huse] at hy ⊢
      obtain rfl : y = some Binary64.one := hy
      decide +kernel
    · exact absurd hfault (by decide +kernel)
  · rcases use_precedence (ofSpec sharp) eased sharp hsharp with ⟨hrange, -⟩ | ⟨-, hfault⟩
    · have hlarge := hrange (.whole (2 ^ 1024)) (by decide +kernel)
      exact absurd ((Threshold.inRange_whole_iff _).mp hlarge) (by decide +kernel)
    · exact hfault

end Resolver

end AbilityRotation
