import Mathlib.Tactic
import AbilityRotation.Proofs.Rotation.Paths

/-!
The occurrences of abilities in a rotation, with their addresses.

An occurrence is a use of an ability together with the address at which it stands.  The occurrences
are listed from left to right, those in groups included.
* `map_use_occurrences`: the uses are those that the rotation lists.
* `alternativeAt?_of_mem_occurrences`: at the address of an occurrence stands its use.
* `nodup_address_occurrences`: no two occurrences have the same address.

An address in an alternative begins with the place of that alternative, and the places of different
alternatives are different; this carries the last result through the lists.
-/

namespace AbilityRotation

/-- A use of an ability with the address at which it stands. -/
structure Occurrence where
  /-- Where it stands. -/
  address : Address
  /-- The use that stands there. -/
  use : AbilityUse

/-- An occurrence in the group at a place, seen from outside the group. -/
def Occurrence.within (p : Place) (o : Occurrence) : Occurrence :=
  ⟨p :: o.address, o.use⟩

/-! ### Listing occurrences -/

mutual

/-- The occurrences in an alternative that has the place `p`. -/
def occurrencesOfAlternative (p : Place) : Alternative → List Occurrence
  | .ability u => [⟨[p], u⟩]
  | .marker _ _ => []
  | .group steps _ => (occurrencesOfSteps 0 steps).map (·.within p)

/-- The occurrences in alternatives, the first of which has the place `p`. -/
def occurrencesOfTerm (p : Place) : List Alternative → List Occurrence
  | [] => []
  | a :: rest =>
      occurrencesOfAlternative p a ++ occurrencesOfTerm ⟨p.step, p.term, p.alternative + 1⟩ rest

/-- The occurrences in the terms of the step `step`, the first of which has the index `term`. -/
def occurrencesOfStep (step term : ℕ) : List (List Alternative) → List Occurrence
  | [] => []
  | t :: rest => occurrencesOfTerm ⟨step, term, 0⟩ t ++ occurrencesOfStep step (term + 1) rest

/-- The occurrences in steps, the first of which has the index `step`. -/
def occurrencesOfSteps (step : ℕ) : List (List (List Alternative)) → List Occurrence
  | [] => []
  | s :: rest => occurrencesOfStep step 0 s ++ occurrencesOfSteps (step + 1) rest

end

/-- The occurrences in a rotation, from left to right. -/
def Rotation.occurrences (r : Rotation) : List Occurrence :=
  occurrencesOfSteps 0 r.steps

mutual

lemma map_use_occurrencesOfAlternative (p : Place) :
    ∀ a : Alternative, (occurrencesOfAlternative p a).map (·.use) = a.abilities
  | .ability _ => rfl
  | .marker _ _ => rfl
  | .group steps _ => by
      rw [occurrencesOfAlternative, List.map_map, Alternative.abilities,
        ← map_use_occurrencesOfSteps 0 steps]
      rfl

lemma map_use_occurrencesOfTerm (p : Place) :
    ∀ t : List Alternative, (occurrencesOfTerm p t).map (·.use) = abilitiesOfTerm t
  | [] => rfl
  | a :: rest => by
      rw [occurrencesOfTerm, abilitiesOfTerm, List.map_append,
        map_use_occurrencesOfAlternative, map_use_occurrencesOfTerm _ rest]

lemma map_use_occurrencesOfStep (step term : ℕ) :
    ∀ s : List (List Alternative), (occurrencesOfStep step term s).map (·.use) = abilitiesOfStep s
  | [] => rfl
  | t :: rest => by
      rw [occurrencesOfStep, abilitiesOfStep, List.map_append, map_use_occurrencesOfTerm,
        map_use_occurrencesOfStep _ _ rest]

lemma map_use_occurrencesOfSteps (step : ℕ) :
    ∀ ss : List (List (List Alternative)),
      (occurrencesOfSteps step ss).map (·.use) = abilitiesOfSteps ss
  | [] => rfl
  | s :: rest => by
      rw [occurrencesOfSteps, abilitiesOfSteps, List.map_append, map_use_occurrencesOfStep,
        map_use_occurrencesOfSteps _ rest]

end

/-- The uses that occur are those that the rotation lists. -/
theorem map_use_occurrences (r : Rotation) : r.occurrences.map (·.use) = r.abilities :=
  map_use_occurrencesOfSteps _ _

/-! ### Where addresses begin -/

/-- An address begins with a place of which `P` is true. -/
def Address.StartsAt (P : Place → Prop) (a : Address) : Prop :=
  ∃ p rest, a = p :: rest ∧ P p

lemma Address.StartsAt.imp {P Q : Place → Prop} {a : Address} (h : a.StartsAt P)
    (hPQ : ∀ p, P p → Q p) : a.StartsAt Q := by
  obtain ⟨p, rest, rfl, hp⟩ := h
  exact ⟨p, rest, rfl, hPQ p hp⟩

variable {o : Occurrence}

lemma startsAt_alternative {p : Place} {a : Alternative}
    (ho : o ∈ occurrencesOfAlternative p a) : o.address.StartsAt (· = p) := by
  cases a with
  | ability u =>
      obtain rfl := List.mem_singleton.mp ho
      exact ⟨p, [], rfl, rfl⟩
  | marker text kind => cases ho
  | group steps overrides =>
      obtain ⟨o', -, rfl⟩ := List.mem_map.mp ho
      exact ⟨p, o'.address, rfl, rfl⟩

lemma startsAt_term {p : Place} {t : List Alternative} (ho : o ∈ occurrencesOfTerm p t) :
    o.address.StartsAt fun q =>
      q.step = p.step ∧ q.term = p.term ∧ p.alternative ≤ q.alternative := by
  induction t generalizing p with
  | nil => cases ho
  | cons a t ih =>
      rcases List.mem_append.mp ho with ho | ho
      · exact (startsAt_alternative ho).imp fun q hq => by simp [hq]
      · exact (ih ho).imp fun q hq => ⟨hq.1, hq.2.1, Nat.le_of_succ_le hq.2.2⟩

lemma startsAt_step {step term : ℕ} {s : List (List Alternative)}
    (ho : o ∈ occurrencesOfStep step term s) :
    o.address.StartsAt fun q => q.step = step ∧ term ≤ q.term := by
  induction s generalizing term with
  | nil => cases ho
  | cons t s ih =>
      rcases List.mem_append.mp ho with ho | ho
      · exact (startsAt_term ho).imp fun q hq => ⟨hq.1, hq.2.1.ge⟩
      · exact (ih ho).imp fun q hq => ⟨hq.1, Nat.le_of_succ_le hq.2⟩

lemma startsAt_steps {step : ℕ} {ss : List (List (List Alternative))}
    (ho : o ∈ occurrencesOfSteps step ss) : o.address.StartsAt fun q => step ≤ q.step := by
  induction ss generalizing step with
  | nil => cases ho
  | cons s ss ih =>
      rcases List.mem_append.mp ho with ho | ho
      · exact (startsAt_step ho).imp fun q hq => hq.1.ge
      · exact (ih ho).imp fun q hq => Nat.le_of_succ_le hq

/-- Occurrences whose addresses begin at different places are different. -/
lemma nodup_append_of_startsAt {os os' : List Occurrence} {P Q : Place → Prop}
    (hos : (os.map (·.address)).Nodup) (hos' : (os'.map (·.address)).Nodup)
    (hP : ∀ o ∈ os, o.address.StartsAt P) (hQ : ∀ o ∈ os', o.address.StartsAt Q)
    (h : ∀ p, P p → ¬Q p) : ((os ++ os').map (·.address)).Nodup := by
  rw [List.map_append]
  refine hos.append hos' (List.disjoint_left.mpr fun a ha ha' => ?_)
  obtain ⟨o, ho, rfl⟩ := List.mem_map.mp ha
  obtain ⟨o', ho', heq⟩ := List.mem_map.mp ha'
  obtain ⟨p, rest, hp, hPp⟩ := hP o ho
  obtain ⟨q, rest', hq, hQq⟩ := hQ o' ho'
  obtain ⟨rfl, -⟩ := List.cons.inj (hq.symm.trans (heq.trans hp))
  exact h q hPp hQq

mutual

lemma nodup_address_alternative (p : Place) :
    ∀ a : Alternative, ((occurrencesOfAlternative p a).map (·.address)).Nodup
  | .ability _ => List.nodup_singleton _
  | .marker _ _ => List.nodup_nil
  | .group steps _ => by
      have hinner := (nodup_address_steps 0 steps).map (List.cons_injective (a := p))
      rw [List.map_map] at hinner
      rw [occurrencesOfAlternative, List.map_map]
      exact hinner

lemma nodup_address_term (p : Place) :
    ∀ t : List Alternative, ((occurrencesOfTerm p t).map (·.address)).Nodup
  | [] => List.nodup_nil
  | a :: rest =>
      nodup_append_of_startsAt (nodup_address_alternative p a) (nodup_address_term _ rest)
        (fun _ ho => startsAt_alternative ho) (fun _ ho => startsAt_term ho)
        fun q hq hlater => by
          subst hq
          exact Nat.not_succ_le_self _ hlater.2.2

lemma nodup_address_step (step term : ℕ) :
    ∀ s : List (List Alternative), ((occurrencesOfStep step term s).map (·.address)).Nodup
  | [] => List.nodup_nil
  | t :: rest =>
      nodup_append_of_startsAt (nodup_address_term _ t) (nodup_address_step step _ rest)
        (fun _ ho => startsAt_term ho) (fun _ ho => startsAt_step ho)
        fun _ hq hlater => Nat.not_succ_le_self _ (hq.2.1 ▸ hlater.2)

lemma nodup_address_steps (step : ℕ) :
    ∀ ss : List (List (List Alternative)), ((occurrencesOfSteps step ss).map (·.address)).Nodup
  | [] => List.nodup_nil
  | s :: rest =>
      nodup_append_of_startsAt (nodup_address_step _ _ s) (nodup_address_steps _ rest)
        (fun _ ho => startsAt_step ho) (fun _ ho => startsAt_steps ho)
        fun _ hq hlater => Nat.not_succ_le_self _ (hq.1 ▸ hlater)

end

/-- No two occurrences have the same address. -/
theorem nodup_address_occurrences (r : Rotation) : (r.occurrences.map (·.address)).Nodup :=
  nodup_address_steps _ _

/-! ### What stands at an address -/

/-- The use of an occurrence stands at its address. -/
def Occurrence.StandsIn (steps : List Step) (o : Occurrence) : Prop :=
  alternativeAt? steps o.address = some (.ability o.use)

mutual

lemma standsIn_alternative {steps : List Step} {p : Place} :
    ∀ a : Alternative, p.lookup? steps = some a →
      ∀ o ∈ occurrencesOfAlternative p a, o.StandsIn steps
  | .ability _, h, o, ho => by
      obtain rfl := List.mem_singleton.mp ho
      exact h
  | .marker _ _, _, o, ho => by cases ho
  | .group inner _, h, o, ho => by
      obtain ⟨o', ho', rfl⟩ := List.mem_map.mp ho
      -- inside the group the places begin anew, behind the place of the group itself
      have hinner : o'.StandsIn inner :=
        standsIn_steps inner (fun k j i => by simp [Place.lookup?]) o' ho'
      obtain ⟨q, rest, hq, -⟩ := startsAt_steps ho'
      rw [Occurrence.StandsIn, hq] at hinner
      rw [Occurrence.StandsIn, Occurrence.within, hq, alternativeAt?, h]
      · exact hinner
      · simp
  termination_by structural a => a

lemma standsIn_term {steps : List Step} {p : Place} :
    ∀ t : List Alternative,
      (∀ i, Place.lookup? ⟨p.step, p.term, p.alternative + i⟩ steps = t[i]?) →
        ∀ o ∈ occurrencesOfTerm p t, o.StandsIn steps
  | [], _, o, ho => by cases ho
  | a :: rest, h, o, ho => by
      rcases List.mem_append.mp ho with ho | ho
      · exact standsIn_alternative a (h 0) o ho
      · refine standsIn_term rest (fun i => ?_) o ho
        rw [Nat.add_assoc, Nat.add_comm 1 i]
        exact h (i + 1)
  termination_by structural t => t

lemma standsIn_step {steps : List Step} {step term : ℕ} :
    ∀ s : List (List Alternative),
      (∀ j i, Place.lookup? ⟨step, term + j, i⟩ steps = s[j]?.bind (·[i]?)) →
        ∀ o ∈ occurrencesOfStep step term s, o.StandsIn steps
  | [], _, o, ho => by cases ho
  | t :: rest, h, o, ho => by
      rcases List.mem_append.mp ho with ho | ho
      · refine standsIn_term t (fun i => ?_) o ho
        rw [Nat.zero_add]
        exact h 0 i
      · refine standsIn_step rest (fun j i => ?_) o ho
        rw [Nat.add_assoc, Nat.add_comm 1 j]
        exact h (j + 1) i
  termination_by structural s => s

lemma standsIn_steps {steps : List Step} {step : ℕ} :
    ∀ ss : List (List (List Alternative)),
      (∀ k j i, Place.lookup? ⟨step + k, j, i⟩ steps =
        ss[k]?.bind fun s => s[j]?.bind (·[i]?)) →
        ∀ o ∈ occurrencesOfSteps step ss, o.StandsIn steps
  | [], _, o, ho => by cases ho
  | s :: rest, h, o, ho => by
      rcases List.mem_append.mp ho with ho | ho
      · refine standsIn_step s (fun j i => ?_) o ho
        rw [Nat.zero_add]
        exact h 0 j i
      · refine standsIn_steps rest (fun k j i => ?_) o ho
        rw [Nat.add_assoc, Nat.add_comm 1 k]
        exact h (k + 1) j i
  termination_by structural ss => ss

end

/-- At the address of an occurrence stands its use. -/
theorem alternativeAt?_of_mem_occurrences {r : Rotation} (ho : o ∈ r.occurrences) :
    r.alternativeAt? o.address = some (.ability o.use) :=
  standsIn_steps r.steps (fun k j i => by simp [Place.lookup?]) o ho

end AbilityRotation
