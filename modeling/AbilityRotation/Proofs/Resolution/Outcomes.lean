import AbilityRotation.Proofs.Resolution.Steps

/-!
What can come of resolving a step.

Without `strict`, a step is resolved to the data of the uses in it whose abilities are known.  With
`strict` it is resolved to the same data if all of them are known, and otherwise fails at the first
one that is not.  Both can only be prevented by a threshold that cannot take effect.
* `Resolver.knows`, `Resolver.InRange`: what a use needs to be resolved.
* `use_eq_error_iff`: why a use is not resolved.
* `step_lenient_eq_error_iff`, `step_strict_eq_ok_iff`, `step_strict_eq_error_iff`: what prevents a
  step from being resolved, and when `strict` makes no difference.
* `step_outcomes`: all that can come of a step.
-/

namespace AbilityRotation

open Number

namespace Resolver

variable {r : Resolver} {u : AbilityUse} {s : Step} {f : Fault}

/-! ### Uses -/

/-- Whether the database knows the ability of a use. -/
def knows (r : Resolver) (u : AbilityUse) : Bool :=
  (r.database.lookup u.key).isSome

/-- Whether the thresholds in all layers of a use can take effect, as far as its ability is
known. -/
def InRange (r : Resolver) (u : AbilityUse) : Prop :=
  ∀ base, r.database.lookup u.key = some base → ∀ t ∈ r.thresholds u base, t.InRange

/-- A use is resolved exactly if its ability is known and its thresholds can take effect. -/
lemma exists_use_iff_knows : (∃ e, r.use u = .ok e) ↔ r.knows u = true ∧ r.InRange u := by
  rw [exists_use_iff, knows, Option.isSome_iff_exists]
  constructor
  · rintro ⟨base, hbase, hrange⟩
    refine ⟨⟨base, hbase⟩, fun base' hbase' => ?_⟩
    obtain rfl := Option.some.inj (hbase.symm.trans hbase')
    exact hrange
  · rintro ⟨⟨base, hbase⟩, hrange⟩
    exact ⟨base, hbase, hrange base hbase⟩

lemma knows_of_not_inRange (h : ¬r.InRange u) : r.knows u = true := by
  rw [InRange] at h
  push Not at h
  obtain ⟨base, hbase, -⟩ := h
  rw [knows, hbase, Option.isSome_some]

/-- A use fails if its ability is not known, or if one of its thresholds cannot take effect. -/
lemma use_eq_error_iff : r.use u = .error f ↔
    r.knows u = false ∧ f = .unknownAbility u.key ∨
      ¬r.InRange u ∧ f = .number .outOfRange := by
  cases hbase : r.database.lookup u.key with
  | none =>
      have hknows : r.knows u = false := by rw [knows, hbase, Option.isSome_none]
      have hrange : r.InRange u := fun base h => by
        rw [hbase] at h
        cases h
      simp [use, hbase, hknows, hrange, eq_comm]
  | some base =>
      have hknows : r.knows u = true := by rw [knows, hbase, Option.isSome_some]
      rcases use_precedence r u base hbase with ⟨hall, y, huse, -⟩ | ⟨⟨t, ht, hout⟩, huse⟩
      · have hrange : r.InRange u := fun base' hbase' => by
          obtain rfl := Option.some.inj (hbase.symm.trans hbase')
          exact hall
        simp [huse, hknows, hrange]
      · have hrange : ¬r.InRange u := fun h => hout (h base hbase t ht)
        simp [huse, hknows, hrange, eq_comm]

/-! ### Steps -/

/-- Without `strict`, the data of a step are those of the uses in it whose abilities are known. -/
lemma step_lenient_eq (r : Resolver) (s : Step) :
    r.step false s = (s.abilities.filter r.knows).mapM r.use :=
  step_eq r false s

/-- Without `strict`, only a threshold can prevent a step from being resolved. -/
lemma step_lenient_eq_error_iff : r.step false s = .error f ↔
    f = .number .outOfRange ∧ ∃ u ∈ s.abilities, ¬r.InRange u := by
  -- abilities that are not known are left out, so only the range can be at fault
  have hfault : ∀ f, r.step false s = .error f →
      f = .number .outOfRange ∧ ∃ u ∈ s.abilities, ¬r.InRange u := by
    intro f h
    rw [step_lenient_eq, mapM_eq_error_iff] at h
    obtain ⟨before, u, after, heq, -, hu⟩ := h
    have hmem : u ∈ s.abilities.filter r.knows := by
      rw [heq]
      exact List.mem_append_right _ List.mem_cons_self
    obtain ⟨hmem, hknows⟩ := List.mem_filter.mp hmem
    rcases use_eq_error_iff.mp hu with ⟨hunknown, -⟩ | ⟨hrange, hf⟩
    · rw [hknows] at hunknown
      cases hunknown
    · exact ⟨hf, u, hmem, hrange⟩
  refine ⟨hfault f, ?_⟩
  rintro ⟨rfl, u, hu, hrange⟩
  cases hstep : r.step false s with
  | error f => rw [(hfault f hstep).1]
  | ok es =>
      rw [step_lenient_eq] at hstep
      have hknown := List.mem_filter.mpr ⟨hu, knows_of_not_inRange hrange⟩
      exact absurd (exists_use_iff_knows.mp (exists_mapM_eq_ok_iff.mp ⟨es, hstep⟩ u hknown)).2
        hrange

/-- With `strict`, a step is resolved if it is without, provided that all its abilities are
known. -/
lemma step_strict_eq_ok_iff {es : List EffectiveAbility} : r.step true s = .ok es ↔
    (∀ u ∈ s.abilities, r.knows u = true) ∧ r.step false s = .ok es := by
  have hsame : (∀ u ∈ s.abilities, r.knows u = true) → r.step true s = r.step false s := by
    intro hknown
    rw [step_strict_eq, step_lenient_eq, List.filter_eq_self.mpr hknown]
  constructor
  · intro h
    have hknown : ∀ u ∈ s.abilities, r.knows u = true := by
      rw [step_strict_eq] at h
      exact fun u hu => (exists_use_iff_knows.mp (exists_mapM_eq_ok_iff.mp ⟨es, h⟩ u hu)).1
    exact ⟨hknown, (hsame hknown).symm.trans h⟩
  · rintro ⟨hknown, h⟩
    exact (hsame hknown).trans h

/-- With `strict`, a step fails at the first use that cannot be resolved. -/
lemma step_strict_eq_error_iff : r.step true s = .error f ↔
    ∃ before u after, s.abilities = before ++ u :: after ∧
      (∀ v ∈ before, r.knows v = true ∧ r.InRange v) ∧
      (r.knows u = false ∧ f = .unknownAbility u.key ∨
        ¬r.InRange u ∧ f = .number .outOfRange) := by
  rw [step_strict_eq, mapM_eq_error_iff]
  simp only [exists_use_iff_knows, use_eq_error_iff]

/-- **What can come of a step.**  Without `strict` it is resolved to the data of the uses in it
whose abilities are known, in order, unless a threshold of one of them cannot take effect.  With
`strict` it is resolved to the same data if all of its abilities are known.  Otherwise it fails at
the first use whose ability is not known, and reports this ability, unless an earlier use has a
threshold that cannot take effect. -/
theorem step_outcomes (r : Resolver) (s : Step) :
    (∀ es, r.step false s = .ok es ↔
      List.Forall₂ (fun u e => r.use u = .ok e) (s.abilities.filter r.knows) es) ∧
    (∀ f, r.step false s = .error f ↔
      f = .number .outOfRange ∧ ∃ u ∈ s.abilities, ¬r.InRange u) ∧
    (∀ es, r.step true s = .ok es ↔
      (∀ u ∈ s.abilities, r.knows u = true) ∧ r.step false s = .ok es) ∧
    ∀ f, r.step true s = .error f ↔ ∃ before u after, s.abilities = before ++ u :: after ∧
      (∀ v ∈ before, r.knows v = true ∧ r.InRange v) ∧
      (r.knows u = false ∧ f = .unknownAbility u.key ∨
        ¬r.InRange u ∧ f = .number .outOfRange) := by
  refine ⟨fun es => ?_, fun f => step_lenient_eq_error_iff, fun es => step_strict_eq_ok_iff,
    fun f => step_strict_eq_error_iff⟩
  rw [step_lenient_eq, mapM_eq_ok_iff]

/-- With `strict`, `hail` in a group is reported as not known, and without it is passed over; but a
threshold of `spec` that no floating-point number comes near is a fault before `hail` is reached. -/
theorem step_outcomes_spec :
    let r (t : Threshold) : Resolver := ofSpec { detectionThreshold := some t }
    let spec : AbilityUse := { key := "spec" }
    let hail : AbilityUse := { key := "hail" }
    let s : Step := [[.ability spec], [.marker "note", .group [[[.ability hail]]] Table.empty]]
    (r (.whole 1)).step true s = .error (.unknownAbility "hail") ∧
      (∃ e, (r (.whole 1)).use spec = .ok e ∧ (r (.whole 1)).step false s = .ok [e]) ∧
      (r (.whole (2 ^ 1024))).step true s = .error (.number .outOfRange) := by
  intro r spec hail s
  have hknown : ∀ t, (r t).knows spec = true := fun t => rfl
  have hunknown : ∀ t, (r t).knows hail = false := fun t => rfl
  have hrange : ∀ t : Threshold, (r t).InRange spec ↔ t.InRange := by
    intro t
    have hlookup : (r t).database.lookup "spec" = some { detectionThreshold := some t } := rfl
    have hthresholds : (r t).thresholds spec { detectionThreshold := some t } = [t] := rfl
    simp [InRange, spec, hlookup, hthresholds]
  have hsmall : (Threshold.whole 1).InRange :=
    (Threshold.inRange_whole_iff 1).mpr (by decide +kernel)
  have hlarge : ¬(Threshold.whole (2 ^ 1024)).InRange :=
    (Threshold.inRange_whole_iff _).not.mpr (by decide +kernel)
  obtain ⟨hlenient, -, -, hstrict⟩ := step_outcomes (r (.whole 1)) s
  refine ⟨(hstrict _).mpr ⟨[spec], hail, [], rfl, ?_, .inl ⟨hunknown _, rfl⟩⟩, ?_, ?_⟩
  · rw [List.forall_mem_singleton]
    exact ⟨hknown _, (hrange _).mpr hsmall⟩
  · obtain ⟨e, he⟩ := exists_use_iff_knows.mpr ⟨hknown _, (hrange (.whole 1)).mpr hsmall⟩
    exact ⟨e, he, (hlenient [e]).mpr (.cons he .nil)⟩
  · exact ((step_outcomes (r (.whole (2 ^ 1024))) s).2.2.2 _).mpr
      ⟨[], spec, [hail], rfl, List.forall_mem_nil _, .inr ⟨fun h => hlarge ((hrange _).mp h), rfl⟩⟩

end Resolver

end AbilityRotation
