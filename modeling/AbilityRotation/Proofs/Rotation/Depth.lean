import AbilityRotation.Proofs.Canonical.Trees

/-!
The steps of a rotation at every depth.

A group has steps of its own, and the terms of these may have groups again.  `Rotation.everyStep`
lists the steps of a rotation and those of all groups in it.
* `exists_of_mem_abilitiesOfSteps`: each use of an ability stands in a listed step.
* `stepsWithin_mapUses`: changing uses changes the listed steps one by one.
-/

namespace AbilityRotation

mutual

/-- The steps inside an alternative, at every depth. -/
def Alternative.innerSteps : Alternative → List (List (List Alternative))
  | .ability _ => []
  | .marker _ _ => []
  | .group steps _ => stepsWithin steps

/-- The steps inside the alternatives of a term, at every depth. -/
def stepsInTerm : List Alternative → List (List (List Alternative))
  | [] => []
  | a :: rest => a.innerSteps ++ stepsInTerm rest

/-- The steps inside the terms of a step, at every depth. -/
def stepsInStep : List (List Alternative) → List (List (List Alternative))
  | [] => []
  | t :: rest => stepsInTerm t ++ stepsInStep rest

/-- Steps with the steps inside them, at every depth. -/
def stepsWithin : List (List (List Alternative)) → List (List (List Alternative))
  | [] => []
  | s :: rest => s :: (stepsInStep s ++ stepsWithin rest)

end

/-- The steps of a rotation and of all groups in it, from left to right. -/
def Rotation.everyStep (r : Rotation) : List Step :=
  stepsWithin r.steps

/-! ### Uses -/

mutual

lemma exists_of_mem_abilities {u : AbilityUse} :
    ∀ a : Alternative, u ∈ a.abilities →
      a = .ability u ∨ ∃ s ∈ a.innerSteps, ∃ t ∈ s, .ability u ∈ t
  | .ability _, h => .inl (by rw [List.mem_singleton.mp h])
  | .marker _ _, h => by cases h
  | .group steps _, h => .inr (exists_of_mem_abilitiesOfSteps steps h)

lemma exists_of_mem_abilitiesOfTerm {u : AbilityUse} :
    ∀ t : List Alternative, u ∈ abilitiesOfTerm t →
      .ability u ∈ t ∨ ∃ s ∈ stepsInTerm t, ∃ t' ∈ s, .ability u ∈ t'
  | [], h => by cases h
  | a :: rest, h => by
      rw [stepsInTerm]
      rcases List.mem_append.mp h with h | h
      · rcases exists_of_mem_abilities a h with rfl | ⟨s, hs, hu⟩
        · exact .inl List.mem_cons_self
        · exact .inr ⟨s, List.mem_append_left _ hs, hu⟩
      · rcases exists_of_mem_abilitiesOfTerm rest h with hu | ⟨s, hs, hu⟩
        · exact .inl (List.mem_cons_of_mem _ hu)
        · exact .inr ⟨s, List.mem_append_right _ hs, hu⟩

lemma exists_of_mem_abilitiesOfStep {u : AbilityUse} :
    ∀ s : List (List Alternative), u ∈ abilitiesOfStep s →
      (∃ t ∈ s, .ability u ∈ t) ∨ ∃ s' ∈ stepsInStep s, ∃ t ∈ s', .ability u ∈ t
  | [], h => by cases h
  | t :: rest, h => by
      rw [stepsInStep]
      rcases List.mem_append.mp h with h | h
      · rcases exists_of_mem_abilitiesOfTerm t h with hu | ⟨s, hs, hu⟩
        · exact .inl ⟨t, List.mem_cons_self, hu⟩
        · exact .inr ⟨s, List.mem_append_left _ hs, hu⟩
      · rcases exists_of_mem_abilitiesOfStep rest h with ⟨t', ht', hu⟩ | ⟨s, hs, hu⟩
        · exact .inl ⟨t', List.mem_cons_of_mem _ ht', hu⟩
        · exact .inr ⟨s, List.mem_append_right _ hs, hu⟩

/-- Each use of an ability is an alternative of a term of a listed step. -/
lemma exists_of_mem_abilitiesOfSteps {u : AbilityUse} :
    ∀ ss : List (List (List Alternative)), u ∈ abilitiesOfSteps ss →
      ∃ s ∈ stepsWithin ss, ∃ t ∈ s, .ability u ∈ t
  | [], h => by cases h
  | s :: rest, h => by
      rw [stepsWithin]
      rcases List.mem_append.mp h with h | h
      · rcases exists_of_mem_abilitiesOfStep s h with hu | ⟨s', hs', hu⟩
        · exact ⟨s, List.mem_cons_self, hu⟩
        · exact ⟨s', List.mem_cons_of_mem _ (List.mem_append_left _ hs'), hu⟩
      · obtain ⟨s', hs', hu⟩ := exists_of_mem_abilitiesOfSteps rest h
        exact ⟨s', List.mem_cons_of_mem _ (List.mem_append_right _ hs'), hu⟩

end

/-! ### Terms put together -/

@[simp] lemma stepsInTerm_append (a b : List Alternative) :
    stepsInTerm (a ++ b) = stepsInTerm a ++ stepsInTerm b := by
  induction a with
  | nil => rfl
  | cons x a ih => simp [stepsInTerm, ih]

@[simp] lemma stepsInTerm_markers (texts : List String) :
    stepsInTerm (texts.map (.marker ·)) = [] := by
  induction texts with
  | nil => rfl
  | cons text texts ih => simpa [stepsInTerm, Alternative.innerSteps] using ih

/-- Tooltips on both sides of an alternative hold no steps. -/
lemma stepsInTerm_between (front back : List String) (a : Alternative) :
    stepsInTerm (front.map (.marker ·) ++ a :: back.map (.marker ·)) = a.innerSteps := by
  rw [stepsInTerm_append, stepsInTerm_markers, stepsInTerm, stepsInTerm_markers, List.append_nil,
    List.nil_append]

/-! ### Changing uses -/

mutual

lemma innerSteps_mapUses (f : AbilityUse → AbilityUse) :
    ∀ a : Alternative, (a.mapUses f).innerSteps = a.innerSteps.map (mapUsesOfStep f)
  | .ability _ => rfl
  | .marker _ _ => rfl
  | .group steps _ => stepsWithin_mapUses f steps

lemma stepsInTerm_mapUses (f : AbilityUse → AbilityUse) :
    ∀ t : List Alternative, stepsInTerm (mapUsesOfTerm f t) = (stepsInTerm t).map (mapUsesOfStep f)
  | [] => rfl
  | a :: rest => by
      rw [mapUsesOfTerm, stepsInTerm, stepsInTerm, List.map_append, innerSteps_mapUses f a,
        stepsInTerm_mapUses f rest]

lemma stepsInStep_mapUses (f : AbilityUse → AbilityUse) :
    ∀ s : List (List Alternative),
      stepsInStep (mapUsesOfStep f s) = (stepsInStep s).map (mapUsesOfStep f)
  | [] => rfl
  | t :: rest => by
      rw [mapUsesOfStep, stepsInStep, stepsInStep, List.map_append, stepsInTerm_mapUses f t,
        stepsInStep_mapUses f rest]

/-- The steps at every depth are changed as the steps are. -/
lemma stepsWithin_mapUses (f : AbilityUse → AbilityUse) :
    ∀ ss : List (List (List Alternative)),
      stepsWithin (mapUsesOfSteps f ss) = (stepsWithin ss).map (mapUsesOfStep f)
  | [] => rfl
  | s :: rest => by
      rw [mapUsesOfSteps, stepsWithin, stepsWithin, List.map_cons, List.map_append,
        stepsInStep_mapUses f s, stepsWithin_mapUses f rest]

end

end AbilityRotation
