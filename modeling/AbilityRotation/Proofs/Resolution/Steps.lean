import AbilityRotation.Proofs.Ability.Records
import AbilityRotation.Proofs.Resolution.Precedence

/-!
Resolving whole steps.

A step is resolved use by use, from left to right; without `strict`, uses of unknown abilities are
passed over.  A use is resolved exactly if its ability is known and all thresholds in its layers can
take effect.
* `step_eq`, `step_strict_eq`: the data of a step are those of its uses in order.
* `exists_use_iff`: when a use is resolved.
* `forall_step_strict_iff`: all steps are resolved exactly if all uses in them are.
* `keys_of_steps_strict`: the data of resolved steps have the keys of the uses in order.
-/

namespace AbilityRotation

open Number

namespace Resolver

/-! ### Steps use by use -/

/-- Whether a use counts when its step is resolved: with `strict` each of them does, and otherwise
those whose abilities the database knows. -/
def considers (r : Resolver) (strict : Bool) (u : AbilityUse) : Bool :=
  strict || (r.database.lookup u.key).isSome

mutual

lemma inAlternative_eq (r : Resolver) (strict : Bool) : ∀ a : Alternative,
    r.inAlternative strict a = (a.abilities.filter (r.considers strict)).mapM r.use
  | .ability u => by
      rw [inAlternative, Alternative.abilities, List.filter_singleton, considers]
      cases hbase : r.database.lookup u.key with
      | none =>
          have huse : r.use u = .error (.unknownAbility u.key) := by rw [use, hbase]
          rw [huse]
          cases strict with
          | false => rfl
          | true => simp [huse, bind, Except.bind]
      | some base =>
          rw [Option.isSome_some, Bool.or_true, cond_true, List.mapM_cons, List.mapM_nil, use,
            hbase]
          cases hlayers : r.layers u base <;> simp [hlayers, Except.mapError]
  | .marker _ _ => rfl
  | .group steps _ => by
      rw [inAlternative, Alternative.abilities, inSteps_eq r strict steps]

lemma inTerm_eq (r : Resolver) (strict : Bool) : ∀ t : List Alternative,
    r.inTerm strict t = ((abilitiesOfTerm t).filter (r.considers strict)).mapM r.use
  | [] => rfl
  | a :: rest => by
      rw [inTerm, abilitiesOfTerm, List.filter_append, List.mapM_append, inAlternative_eq,
        inTerm_eq r strict rest]
      rfl

lemma inStep_eq (r : Resolver) (strict : Bool) : ∀ s : List (List Alternative),
    r.inStep strict s = ((abilitiesOfStep s).filter (r.considers strict)).mapM r.use
  | [] => rfl
  | t :: rest => by
      rw [inStep, abilitiesOfStep, List.filter_append, List.mapM_append, inTerm_eq,
        inStep_eq r strict rest]
      rfl

lemma inSteps_eq (r : Resolver) (strict : Bool) : ∀ ss : List (List (List Alternative)),
    r.inSteps strict ss = ((abilitiesOfSteps ss).filter (r.considers strict)).mapM r.use
  | [] => rfl
  | s :: rest => by
      rw [inSteps, abilitiesOfSteps, List.filter_append, List.mapM_append, inStep_eq,
        inSteps_eq r strict rest]
      rfl

end

/-- The data of a step are those of the uses in it that count, from left to right. -/
theorem step_eq (r : Resolver) (strict : Bool) (s : Step) :
    r.step strict s = (s.abilities.filter (r.considers strict)).mapM r.use :=
  inStep_eq r strict s

variable {r : Resolver} {u : AbilityUse}

/-- With `strict`, the data of a step are those of all its uses, from left to right. -/
theorem step_strict_eq (r : Resolver) (s : Step) : r.step true s = s.abilities.mapM r.use := by
  have hall : s.abilities.filter (r.considers true) = s.abilities :=
    List.filter_eq_self.mpr fun _ _ => rfl
  rw [step_eq, hall]

/-! ### Uses -/

/-- What a use that is resolved comes from. -/
lemma of_use_eq_ok {e : EffectiveAbility} (h : r.use u = .ok e) :
    ∃ base y, r.database.lookup u.key = some base ∧ r.threshold u base = .ok y ∧
      e = r.decided u base y := by
  cases hbase : r.database.lookup u.key with
  | none => simp [use, hbase] at h
  | some base =>
      rw [use_of_lookup hbase] at h
      cases hy : r.threshold u base with
      | error fault => simp [hy, Except.map, Except.mapError] at h
      | ok y =>
          rw [hy] at h
          cases h
          exact ⟨base, y, rfl, hy, rfl⟩

/-- The data of a use have its key. -/
lemma key_of_use_eq_ok {e : EffectiveAbility} (h : r.use u = .ok e) : e.key = u.key := by
  obtain ⟨base, y, -, -, rfl⟩ := of_use_eq_ok h
  rfl

/-- A use is resolved exactly if its ability is known and its thresholds can take effect. -/
theorem exists_use_iff : (∃ e, r.use u = .ok e) ↔
    ∃ base, r.database.lookup u.key = some base ∧ ∀ t ∈ r.thresholds u base, t.InRange := by
  constructor
  · rintro ⟨e, he⟩
    obtain ⟨base, y, hbase, hy, -⟩ := of_use_eq_ok he
    exact ⟨base, hbase, (of_threshold_eq_ok hy).1⟩
  · rintro ⟨base, hbase, hrange⟩
    cases hy : r.threshold u base with
    | ok y => exact ⟨r.decided u base y, by rw [use_of_lookup hbase, hy]; rfl⟩
    | error fault =>
        obtain ⟨-, t, ht, hout⟩ := of_threshold_eq_error hy
        exact absurd (hrange t ht) hout

/-! ### All steps -/

/-- All steps are resolved exactly if all uses in them are. -/
theorem forall_step_strict_iff {ss : List Step} :
    (∀ s ∈ ss, ∃ es, r.step true s = .ok es) ↔ ∀ u ∈ abilitiesOfSteps ss, ∃ e, r.use u = .ok e := by
  induction ss with
  | nil => simp [abilitiesOfSteps]
  | cons s ss ih =>
      rw [List.forall_mem_cons, ih, abilitiesOfSteps, List.forall_mem_append, step_strict_eq,
        exists_mapM_eq_ok_iff]
      rfl

/-- The data of resolved uses have their keys in order. -/
lemma keys_of_uses {us : List AbilityUse} {es : List EffectiveAbility}
    (h : List.Forall₂ (fun u e => r.use u = .ok e) us es) : es.map (·.key) = us.map (·.key) := by
  induction h with
  | nil => rfl
  | cons he _ ih => rw [List.map_cons, List.map_cons, key_of_use_eq_ok he, ih]

/-- The data of resolved steps have the keys of the uses in order. -/
theorem keys_of_steps_strict {ss : List Step} {ess : List (List EffectiveAbility)}
    (h : List.Forall₂ (fun s es => r.step true s = .ok es) ss ess) :
    ess.flatten.map (·.key) = (abilitiesOfSteps ss).map (·.key) := by
  induction h with
  | nil => rfl
  | cons hes _ ih =>
      rw [step_strict_eq, mapM_eq_ok_iff] at hes
      rw [List.flatten_cons, List.map_append, abilitiesOfSteps, List.map_append, keys_of_uses hes,
        ih]
      rfl

end Resolver

/-! ### Databases in range -/

/-- Whether all thresholds in the database can take effect. -/
def Database.InRange (db : Database) : Prop :=
  ∀ key base, db.lookup key = some base → ∀ t ∈ base.detectionThreshold, t.InRange

/-- All thresholds in a database that is read from a raw record can take effect. -/
theorem Database.inRange_ofRaw {db : Database} {raw : Raw} (h : Database.ofRaw raw = .ok db) :
    db.InRange := by
  intro key base hbase t ht
  obtain ⟨x, rfl, -⟩ := ((regular_ofRaw h).of_lookup hbase).detectionThreshold t ht
  exact Threshold.inRange_real x

end AbilityRotation
