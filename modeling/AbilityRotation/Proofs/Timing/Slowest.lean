import AbilityRotation.Proofs.Resolution.Outcomes
import AbilityRotation.Proofs.Timing.Duration

/-!
A step lasts as long as the slowest of its abilities.

Which abilities there are in a step is all that counts for its length; their order, how often they
occur and how they are grouped does not matter, nor do markers.
* `TimingProfile.isGreatest_largestTicks`: what is taken over some profiles is their largest number
  of ticks.
* `Resolver.busyTicks`: the ticks of the uses that are resolved, and zero.
* `stepDuration_of_inRange`, `stepDuration_of_not_inRange`: how long a step lasts.
* `stepDuration_of_abilities`: how long steps last, compared with each other.
-/

namespace AbilityRotation

open Number

/-! ### The largest number of ticks -/

namespace TimingProfile

variable {gcd : ℤ}

/-- The largest number of ticks is that of one of the profiles, or zero. -/
lemma isGreatest_largestTicks (gcd : ℤ) (ps : List TimingProfile) :
    IsGreatest (insert 0 {n | ∃ p ∈ ps, p.effectiveTicks gcd = n}) (largestTicks gcd ps) := by
  induction ps using List.reverseRecOn with
  | nil => simp [largestTicks]
  | append_singleton ps p ih =>
      have hmax : largestTicks gcd (ps ++ [p]) =
          max (p.effectiveTicks gcd) (largestTicks gcd ps) := by
        rw [largestTicks, List.foldl_append, max_comm]
        rfl
      have hset : (insert 0 {n | ∃ q ∈ ps ++ [p], q.effectiveTicks gcd = n} : Set ℕ) =
          insert (p.effectiveTicks gcd) (insert 0 {n | ∃ q ∈ ps, q.effectiveTicks gcd = n}) := by
        ext n
        simp only [List.mem_append, List.mem_singleton, Set.mem_insert_iff, Set.mem_ofPred_eq]
        constructor
        · rintro (rfl | ⟨q, hq | rfl, rfl⟩)
          · exact .inr (.inl rfl)
          · exact .inr (.inr ⟨q, hq, rfl⟩)
          · exact .inl rfl
        · rintro (rfl | rfl | ⟨q, hq, rfl⟩)
          · exact .inr ⟨p, .inr rfl, rfl⟩
          · exact .inl rfl
          · exact .inr ⟨q, .inl hq, rfl⟩
      rw [hmax, hset]
      exact ih.insert _

end TimingProfile

/-! ### The ticks of a step -/

namespace Resolver

variable {r : Resolver} {transform : TimingProfile → Option TimingProfile} {gcd : ℤ} {s : Step}
  {us us' : List AbilityUse}

/-- The ticks for which those of the uses that are resolved keep their step busy, and zero. -/
def busyTicks (r : Resolver) (transform : TimingProfile → Option TimingProfile) (gcd : ℤ)
    (us : List AbilityUse) : Set ℕ :=
  insert 0 {n | ∃ u ∈ us, ∃ e, r.use u = .ok e ∧
    (transformed transform (.ofEffective e)).effectiveTicks gcd = n}

lemma busyTicks_mono (h : us ⊆ us') :
    r.busyTicks transform gcd us ⊆ r.busyTicks transform gcd us' := by
  refine Set.insert_subset_insert ?_
  rintro n ⟨u, hu, hn⟩
  exact ⟨u, h hu, hn⟩

/-- The ticks of a step that is resolved are the largest of those of its uses. -/
lemma isGreatest_of_step {es : List EffectiveAbility} (h : r.step false s = .ok es) :
    IsGreatest (r.busyTicks transform gcd s.abilities) (TimingProfile.largestTicks gcd
      (es.map fun e => transformed transform (.ofEffective e))) := by
  rw [step_lenient_eq] at h
  have hset : r.busyTicks transform gcd s.abilities =
      insert 0 {n | ∃ p ∈ es.map fun e => transformed transform (.ofEffective e),
        p.effectiveTicks gcd = n} := by
    refine congrArg (insert 0) (Set.ext fun n => ?_)
    simp only [List.mem_map, Set.mem_ofPred_eq]
    constructor
    · rintro ⟨u, hu, e, he, hn⟩
      have hknown := List.mem_filter.mpr ⟨hu, (exists_use_iff_knows.mp ⟨e, he⟩).1⟩
      obtain ⟨e', hmem, he'⟩ := exists_mem_of_mapM h hknown
      obtain rfl := Except.ok.inj (he.symm.trans he')
      exact ⟨_, ⟨e, hmem, rfl⟩, hn⟩
    · rintro ⟨_, ⟨e, he, rfl⟩, hn⟩
      obtain ⟨u, hu, hue⟩ := exists_of_mem_mapM h he
      exact ⟨u, (List.mem_filter.mp hu).1, e, hue, hn⟩
  rw [hset]
  exact TimingProfile.isGreatest_largestTicks gcd _

/-- A step that is resolved has as many ticks as the slowest of its uses. -/
lemma exists_stepTicks (hrange : ∀ u ∈ s.abilities, r.InRange u) :
    ∃ n, IsGreatest (r.busyTicks transform gcd s.abilities) n ∧
      r.stepTicks transform gcd s = .ok n := by
  cases hstep : r.step false s with
  | error f =>
      obtain ⟨-, u, hu, hout⟩ := step_lenient_eq_error_iff.mp hstep
      exact absurd (hrange u hu) hout
  | ok es =>
      refine ⟨_, isGreatest_of_step hstep, ?_⟩
      rw [stepTicks, profiles, hstep]
      rfl

end Resolver

/-! ### Lengths -/

namespace StepTimer

variable (t : StepTimer) {r : Resolver} (transform : TimingProfile → Option TimingProfile)
  {s : Step}

/-- A step lasts as long as the slowest of its uses, if all thresholds in it can take effect. -/
lemma stepDuration_of_inRange (hrange : ∀ u ∈ s.abilities, r.InRange u) :
    ∃ n : ℕ, IsGreatest (r.busyTicks transform t.config.defaultGcdTicks s.abilities) n ∧
      t.stepDuration r transform s = .ok (n * t.config.tickMs) := by
  obtain ⟨n, hn, hticks⟩ := Resolver.exists_stepTicks hrange
  refine ⟨n, hn, ?_⟩
  rw [stepDuration, hticks]
  rfl

/-- A step has no length if one of the thresholds in it cannot take effect. -/
lemma stepDuration_of_not_inRange (hout : ∃ u ∈ s.abilities, ¬r.InRange u) :
    t.stepDuration r transform s = .error (.number .outOfRange) := by
  have hstep := Resolver.step_lenient_eq_error_iff.mpr ⟨rfl, hout⟩
  rw [stepDuration, Resolver.stepTicks, Resolver.profiles, hstep]
  rfl

variable {t transform} in
/-- The thresholds in a step that has a length can take effect. -/
lemma inRange_of_stepDuration {ms : ℤ} (h : t.stepDuration r transform s = .ok ms) :
    ∀ u ∈ s.abilities, r.InRange u := by
  by_contra! hout
  rw [stepDuration_of_not_inRange t transform hout] at h
  cases h

/-- **The slowest ability decides.**  A step lasts for the largest number of ticks for which one of
its known abilities, with its timing transformed, keeps it busy, and for none if there is no such
ability; only a threshold that cannot take effect leaves it without a length.  So steps with the
same uses last equally long, and a step with more uses does not last less. -/
theorem stepDuration_of_abilities (t : StepTimer) (r : Resolver)
    (transform : TimingProfile → Option TimingProfile) :
    (∀ s : Step, (∀ u ∈ s.abilities, r.InRange u) →
      ∃ n : ℕ, IsGreatest (r.busyTicks transform t.config.defaultGcdTicks s.abilities) n ∧
        t.stepDuration r transform s = .ok (n * t.config.tickMs)) ∧
    (∀ s : Step, (∃ u ∈ s.abilities, ¬r.InRange u) →
      t.stepDuration r transform s = .error (.number .outOfRange)) ∧
    (∀ s s' : Step, (∀ u, u ∈ s.abilities ↔ u ∈ s'.abilities) →
      t.stepDuration r transform s = t.stepDuration r transform s') ∧
    (0 ≤ t.config.tickMs → ∀ s s' : Step, s.abilities ⊆ s'.abilities →
      ∀ ms', t.stepDuration r transform s' = .ok ms' →
        ∃ ms, t.stepDuration r transform s = .ok ms ∧ ms ≤ ms') := by
  refine ⟨fun s => stepDuration_of_inRange t transform,
    fun s => stepDuration_of_not_inRange t transform, fun s s' hsame => ?_,
    fun htick s s' hsub ms' h' => ?_⟩
  · by_cases hrange : ∀ u ∈ s.abilities, r.InRange u
    · have hrange' : ∀ u ∈ s'.abilities, r.InRange u := fun u hu => hrange u ((hsame u).mpr hu)
      obtain ⟨n, hn, h⟩ := stepDuration_of_inRange t transform hrange
      obtain ⟨n', hn', h'⟩ := stepDuration_of_inRange t transform hrange'
      have hticks : r.busyTicks transform t.config.defaultGcdTicks s.abilities =
          r.busyTicks transform t.config.defaultGcdTicks s'.abilities :=
        (Resolver.busyTicks_mono fun u => (hsame u).mp).antisymm
          (Resolver.busyTicks_mono fun u => (hsame u).mpr)
      rw [hticks] at hn
      rw [h, h', hn.unique hn']
    · push Not at hrange
      have hrange' : ∃ u ∈ s'.abilities, ¬r.InRange u :=
        hrange.imp fun u hu => ⟨(hsame u).mp hu.1, hu.2⟩
      rw [stepDuration_of_not_inRange t transform hrange,
        stepDuration_of_not_inRange t transform hrange']
  -- fewer abilities have no more ticks, and the longer step has shown that all are in range
  · have hrange' := inRange_of_stepDuration h'
    obtain ⟨n', hn', heq'⟩ := stepDuration_of_inRange t transform hrange'
    obtain ⟨n, hn, heq⟩ := stepDuration_of_inRange t transform fun u hu => hrange' u (hsub hu)
    obtain rfl := Except.ok.inj (h'.symm.trans heq')
    have hle : n ≤ n' := hn'.2 (Resolver.busyTicks_mono hsub hn.1)
    exact ⟨n * t.config.tickMs, heq, mul_le_mul_of_nonneg_right (by exact_mod_cast hle) htick⟩

/-- Two uses of abilities, one of them cast for five ticks. -/
def healOrStab : Resolver where
  database := Database.withAbility
    (Database.withAbility ⟨Table.empty⟩ "heal" { castDuration := 5 }) "stab" {}

/-- While `stab` takes nine ticks, both steps with `heal` and `stab` last for these, though one of
them has the two in a group and one of them twice; `heal` alone lasts for five. -/
theorem stepDuration_of_abilities_stab :
    let t : StepTimer := {}
    let slow (p : TimingProfile) : Option TimingProfile :=
      if p.key = "stab" then some (p.withGcdOverride (some 9)) else none
    let heal : Alternative := .ability { key := "heal" }
    let stab : Alternative := .ability { key := "stab" }
    let plain : Step := [[heal], [stab]]
    let grouped : Step := [[.group [[[stab, .marker "twice"]], [[heal, stab]]] Table.empty]]
    t.stepDuration healOrStab slow plain = .ok 5400 ∧
      (∃ n : ℕ, IsGreatest (healOrStab.busyTicks slow 3 plain.abilities) n ∧ n = 9) ∧
      (∀ u, u ∈ plain.abilities ↔ u ∈ grouped.abilities) ∧
      t.stepDuration healOrStab slow plain = t.stepDuration healOrStab slow grouped ∧
      Step.abilities [[heal]] ⊆ plain.abilities ∧
      ∃ ms, t.stepDuration healOrStab slow [[heal]] = .ok ms ∧ ms ≤ 5400 := by
  intro t slow heal stab plain grouped
  have hplain : t.stepDuration healOrStab slow plain = .ok 5400 := by decide
  have huses : plain.abilities = [{ key := "heal" }, { key := "stab" }] := rfl
  have hgrouped : grouped.abilities =
      [{ key := "stab" }, { key := "heal" }, { key := "stab" }] := rfl
  have hsame : ∀ u, u ∈ plain.abilities ↔ u ∈ grouped.abilities := by
    intro u
    rw [huses, hgrouped]
    simp only [List.mem_cons, List.not_mem_nil, or_false]
    tauto
  have hsub : Step.abilities [[heal]] ⊆ plain.abilities := by
    rw [huses]
    exact List.cons_subset.mpr ⟨List.mem_cons_self, List.nil_subset _⟩
  obtain ⟨hlength, -, hcongr, hmono⟩ := stepDuration_of_abilities t healOrStab slow
  obtain ⟨n, hn, hticks⟩ := hlength plain (inRange_of_stepDuration hplain)
  have hnine : (n : ℤ) * 600 = 5400 := Except.ok.inj (hticks.symm.trans hplain)
  exact ⟨hplain, ⟨n, hn, by omega⟩, hsame, hcongr plain grouped hsame, hsub,
    hmono (by decide) [[heal]] plain hsub 5400 hplain⟩

end StepTimer

end AbilityRotation
