import AbilityRotation.Proofs.Canonical.Symbols

/-!
Changing the uses of abilities in a rotation, and collecting its markers.

* `mapUsesOfSteps` changes every use of an ability in steps, those in groups included;
  `withoutOverrides` takes their settings away and `attach` gives them those of their labels.
* `Rotation.markerTexts` are the texts of all markers, from left to right; they are the tooltips
  among the symbols of the rotation (`tooltips_symbols`), and those among the tokens that it is read
  from (`tooltips_of_stepsOfTokens`).
-/

namespace AbilityRotation

/-! ### Changing uses -/

mutual

/-- An alternative with its uses of abilities changed. -/
def Alternative.mapUses (f : AbilityUse → AbilityUse) : Alternative → Alternative
  | .ability u => .ability (f u)
  | .marker text kind => .marker text kind
  | .group steps abilityOverrides => .group (mapUsesOfSteps f steps) abilityOverrides

/-- A term with its uses of abilities changed. -/
def mapUsesOfTerm (f : AbilityUse → AbilityUse) : List Alternative → List Alternative
  | [] => []
  | a :: rest => a.mapUses f :: mapUsesOfTerm f rest

/-- A step with its uses of abilities changed. -/
def mapUsesOfStep (f : AbilityUse → AbilityUse) :
    List (List Alternative) → List (List Alternative)
  | [] => []
  | t :: rest => mapUsesOfTerm f t :: mapUsesOfStep f rest

/-- Steps with their uses of abilities changed. -/
def mapUsesOfSteps (f : AbilityUse → AbilityUse) :
    List (List (List Alternative)) → List (List (List Alternative))
  | [] => []
  | s :: rest => mapUsesOfStep f s :: mapUsesOfSteps f rest

end

/-- Steps without the settings of single occurrences. -/
def withoutOverrides (steps : List Step) : List Step :=
  mapUsesOfSteps (fun u => { u with overrides := none }) steps

/-- The use of an ability with the settings of its label, which count only without modifiers. -/
def AbilityUse.attach (perInstance : Table Overrides) (u : AbilityUse) : AbilityUse :=
  { u with overrides := if u.modifiers.isEmpty then u.label.bind perInstance.get? else none }

@[simp] lemma mapUsesOfTerm_append (f : AbilityUse → AbilityUse) (a b : List Alternative) :
    mapUsesOfTerm f (a ++ b) = mapUsesOfTerm f a ++ mapUsesOfTerm f b := by
  induction a with
  | nil => rfl
  | cons x a ih => simp [mapUsesOfTerm, ih]

/-- Markers stay as they are. -/
@[simp] lemma mapUsesOfTerm_markers (f : AbilityUse → AbilityUse) (texts : List String) :
    mapUsesOfTerm f (texts.map (.marker ·)) = texts.map (.marker ·) := by
  induction texts with
  | nil => rfl
  | cons text texts ih => simp [mapUsesOfTerm, Alternative.mapUses, ih]

mutual

lemma mapUses_congr {f g : AbilityUse → AbilityUse} :
    ∀ a : Alternative, (∀ u ∈ a.abilities, f u = g u) → a.mapUses f = a.mapUses g
  | .ability u, h => by
      rw [Alternative.mapUses, Alternative.mapUses, h u (List.mem_singleton.mpr rfl)]
  | .marker _ _, _ => rfl
  | .group steps _, h => by
      rw [Alternative.mapUses, Alternative.mapUses, mapUsesOfSteps_congr steps h]

lemma mapUsesOfTerm_congr {f g : AbilityUse → AbilityUse} :
    ∀ t : List Alternative, (∀ u ∈ abilitiesOfTerm t, f u = g u) →
      mapUsesOfTerm f t = mapUsesOfTerm g t
  | [], _ => rfl
  | a :: rest, h => by
      rw [mapUsesOfTerm, mapUsesOfTerm,
        mapUses_congr a fun u hu => h u (List.mem_append_left _ hu),
        mapUsesOfTerm_congr rest fun u hu => h u (List.mem_append_right _ hu)]

lemma mapUsesOfStep_congr {f g : AbilityUse → AbilityUse} :
    ∀ s : List (List Alternative), (∀ u ∈ abilitiesOfStep s, f u = g u) →
      mapUsesOfStep f s = mapUsesOfStep g s
  | [], _ => rfl
  | t :: rest, h => by
      rw [mapUsesOfStep, mapUsesOfStep,
        mapUsesOfTerm_congr t fun u hu => h u (List.mem_append_left _ hu),
        mapUsesOfStep_congr rest fun u hu => h u (List.mem_append_right _ hu)]

/-- Steps are changed as their uses of abilities are. -/
lemma mapUsesOfSteps_congr {f g : AbilityUse → AbilityUse} :
    ∀ ss : List (List (List Alternative)), (∀ u ∈ abilitiesOfSteps ss, f u = g u) →
      mapUsesOfSteps f ss = mapUsesOfSteps g ss
  | [], _ => rfl
  | s :: rest, h => by
      rw [mapUsesOfSteps, mapUsesOfSteps,
        mapUsesOfStep_congr s fun u hu => h u (List.mem_append_left _ hu),
        mapUsesOfSteps_congr rest fun u hu => h u (List.mem_append_right _ hu)]

end

mutual

lemma mapUses_mapUses (f g : AbilityUse → AbilityUse) :
    ∀ a : Alternative, (a.mapUses g).mapUses f = a.mapUses (f ∘ g)
  | .ability _ => rfl
  | .marker _ _ => rfl
  | .group steps _ => by
      rw [Alternative.mapUses, Alternative.mapUses, Alternative.mapUses, mapUsesOfSteps_mapUses]

lemma mapUsesOfTerm_mapUses (f g : AbilityUse → AbilityUse) :
    ∀ t : List Alternative, mapUsesOfTerm f (mapUsesOfTerm g t) = mapUsesOfTerm (f ∘ g) t
  | [] => rfl
  | a :: rest => by
      rw [mapUsesOfTerm, mapUsesOfTerm, mapUsesOfTerm, mapUses_mapUses, mapUsesOfTerm_mapUses]

lemma mapUsesOfStep_mapUses (f g : AbilityUse → AbilityUse) :
    ∀ s : List (List Alternative), mapUsesOfStep f (mapUsesOfStep g s) = mapUsesOfStep (f ∘ g) s
  | [] => rfl
  | t :: rest => by
      rw [mapUsesOfStep, mapUsesOfStep, mapUsesOfStep, mapUsesOfTerm_mapUses,
        mapUsesOfStep_mapUses]

/-- Uses are changed one change after the other. -/
lemma mapUsesOfSteps_mapUses (f g : AbilityUse → AbilityUse) :
    ∀ ss : List (List (List Alternative)),
      mapUsesOfSteps f (mapUsesOfSteps g ss) = mapUsesOfSteps (f ∘ g) ss
  | [] => rfl
  | s :: rest => by
      rw [mapUsesOfSteps, mapUsesOfSteps, mapUsesOfSteps, mapUsesOfStep_mapUses,
        mapUsesOfSteps_mapUses]

end

/-- What a rule reads with the uses of abilities changed. -/
def Descent.Phrase.mapUses (f : AbilityUse → AbilityUse) : (p : Descent.Phrase) → p.Value → p.Value
  | .expression, ss => mapUsesOfSteps f ss
  | .terms, as => mapUsesOfStep f as
  | .term _, a => mapUsesOfTerm f a
  | .alternative _, a => mapUsesOfTerm f a
  | .operand _, a => a.mapUses f

/-! ### Markers -/

mutual

/-- The texts of the markers in an alternative, from left to right. -/
def Alternative.markerTexts : Alternative → List String
  | .ability _ => []
  | .marker text _ => [text]
  | .group steps _ => markerTextsOfSteps steps

/-- The texts of the markers in a term, from left to right. -/
def markerTextsOfTerm : List Alternative → List String
  | [] => []
  | a :: rest => a.markerTexts ++ markerTextsOfTerm rest

/-- The texts of the markers in a step, from left to right. -/
def markerTextsOfStep : List (List Alternative) → List String
  | [] => []
  | t :: rest => markerTextsOfTerm t ++ markerTextsOfStep rest

/-- The texts of the markers in steps, from left to right. -/
def markerTextsOfSteps : List (List (List Alternative)) → List String
  | [] => []
  | s :: rest => markerTextsOfStep s ++ markerTextsOfSteps rest

end

/-- The texts of the markers of a rotation, those in groups included, from left to right. -/
def Rotation.markerTexts (r : Rotation) : List String :=
  markerTextsOfSteps r.steps

mutual

lemma markerTexts_mapUses (f : AbilityUse → AbilityUse) :
    ∀ a : Alternative, (a.mapUses f).markerTexts = a.markerTexts
  | .ability _ => rfl
  | .marker _ _ => rfl
  | .group steps _ => markerTextsOfSteps_mapUses f steps

lemma markerTextsOfTerm_mapUses (f : AbilityUse → AbilityUse) :
    ∀ t : List Alternative, markerTextsOfTerm (mapUsesOfTerm f t) = markerTextsOfTerm t
  | [] => rfl
  | a :: rest => by
      rw [mapUsesOfTerm, markerTextsOfTerm, markerTextsOfTerm, markerTexts_mapUses f a,
        markerTextsOfTerm_mapUses f rest]

lemma markerTextsOfStep_mapUses (f : AbilityUse → AbilityUse) :
    ∀ s : List (List Alternative), markerTextsOfStep (mapUsesOfStep f s) = markerTextsOfStep s
  | [] => rfl
  | t :: rest => by
      rw [mapUsesOfStep, markerTextsOfStep, markerTextsOfStep, markerTextsOfTerm_mapUses f t,
        markerTextsOfStep_mapUses f rest]

/-- Changing uses leaves the markers as they are. -/
lemma markerTextsOfSteps_mapUses (f : AbilityUse → AbilityUse) :
    ∀ ss : List (List (List Alternative)),
      markerTextsOfSteps (mapUsesOfSteps f ss) = markerTextsOfSteps ss
  | [] => rfl
  | s :: rest => by
      rw [mapUsesOfSteps, markerTextsOfSteps, markerTextsOfSteps, markerTextsOfStep_mapUses f s,
        markerTextsOfSteps_mapUses f rest]

end

/-! ### Markers among symbols -/

/-- The text of a tooltip. -/
def Symbol.tooltip? : Symbol → Option String
  | .tooltip text => some text
  | _ => none

/-- The texts of the tooltips among symbols. -/
def tooltips (ss : List Symbol) : List String :=
  ss.filterMap Symbol.tooltip?

@[simp] lemma tooltips_nil : tooltips [] = [] := rfl

@[simp] lemma tooltips_append (ss rest : List Symbol) :
    tooltips (ss ++ rest) = tooltips ss ++ tooltips rest :=
  List.filterMap_append

lemma tooltips_cons (s : Symbol) (ss : List Symbol) :
    tooltips (s :: ss) = s.tooltip?.toList ++ tooltips ss := by
  cases s <;> rfl

/-- Operators have no tooltips. -/
lemma tooltips_intercalate {s : Symbol} (hs : s.tooltip? = none) (parts : List (List Symbol)) :
    tooltips ([s].intercalate parts) = parts.flatMap tooltips := by
  induction parts with
  | nil => rfl
  | cons a parts ih =>
      cases parts with
      | nil => simp [List.intercalate]
      | cons b parts =>
          rw [List.intercalate_cons_cons, tooltips_append, tooltips_append, ih, tooltips_cons, hs]
          simp

lemma tooltips_abilityUse (u : AbilityUse) : tooltips u.symbols = [] := by
  rw [tooltips, List.filterMap_eq_nil_iff]
  intro s hs
  simp only [AbilityUse.symbols, List.mem_append, List.mem_flatMap, List.mem_map,
    List.mem_cons, List.not_mem_nil, or_false] at hs
  rcases hs with ⟨m, -, rfl | rfl⟩ | ⟨w, -, rfl⟩ <;> rfl

mutual

lemma tooltips_alternative : ∀ a : Alternative, tooltips a.symbols = a.markerTexts
  | .ability u => by
      rw [Alternative.symbols, Alternative.markerTexts, tooltips_abilityUse]
  | .marker text _ => rfl
  | .group steps _ => by
      rw [Alternative.symbols, Alternative.markerTexts, tooltips_append, tooltips_cons,
        tooltips_intercalate (by rfl), tooltips_ofSteps]
      simp [Symbol.tooltip?, tooltips]

lemma tooltips_ofTerm (slash : Bool) : ∀ t : List Alternative,
    tooltips (symbolsOfTerm slash t) = markerTextsOfTerm t
  | [] => rfl
  | a :: rest => by
      have hslash : tooltips (if slash then [Symbol.slash] else []) = [] := by
        cases slash <;> rfl
      rw [symbolsOfTerm, markerTextsOfTerm, ← tooltips_alternative a]
      split
      · rw [tooltips_append, tooltips_append, hslash, tooltips_ofTerm true rest]
        rfl
      · rw [tooltips_append, tooltips_ofTerm slash rest]

lemma tooltips_ofStep : ∀ s : List (List Alternative),
    (symbolsOfStep s).flatMap tooltips = markerTextsOfStep s
  | [] => rfl
  | t :: rest => by
      rw [symbolsOfStep, markerTextsOfStep, List.flatMap_cons, tooltips_ofTerm false t,
        tooltips_ofStep rest]

lemma tooltips_ofSteps : ∀ ss : List (List (List Alternative)),
    (symbolsOfSteps ss).flatMap tooltips = markerTextsOfSteps ss
  | [] => rfl
  | s :: rest => by
      rw [symbolsOfSteps, markerTextsOfSteps, List.flatMap_cons, tooltips_intercalate (by rfl),
        tooltips_ofStep s, tooltips_ofSteps rest]

end

/-- The markers of a rotation are the tooltips among its symbols. -/
theorem Rotation.tooltips_symbols (r : Rotation) : tooltips r.symbols = r.markerTexts := by
  rw [Rotation.symbols, tooltips_intercalate (by rfl), tooltips_ofSteps]
  rfl

/-! ### Markers among operands -/

/-- The text of an operand that is a tooltip. -/
def Operand.tooltip? : Operand → Option String
  | .tooltip text => some text
  | _ => none

lemma tooltips_operands_abilityUse (mode : AdjacentWords) (u : AbilityUse) :
    (u.operands mode).filterMap Operand.tooltip? = [] := by
  rw [List.filterMap_eq_nil_iff]
  intro o ho
  rw [AbilityUse.operands] at ho
  split at ho
  · simp only [Operand.spread] at ho
    split at ho
    · obtain ⟨w, -, rfl⟩ := List.mem_map.mp ho
      rfl
    · rw [List.mem_singleton.mp ho]
      rfl
  · simp only [List.mem_append, List.mem_map, List.mem_singleton] at ho
    rcases ho with ⟨m, -, rfl⟩ | rfl <;> rfl

mutual

lemma tooltips_operands_alternative (mode : AdjacentWords) : ∀ a : Alternative,
    (a.operands mode).filterMap Operand.tooltip? = a.markerTexts
  | .ability u => tooltips_operands_abilityUse mode u
  | .marker _ _ => rfl
  | .group steps _ => tooltips_operandsOfSteps mode steps

lemma tooltips_operandsOfTerm (mode : AdjacentWords) : ∀ t : List Alternative,
    (operandsOfTerm mode t).filterMap Operand.tooltip? = markerTextsOfTerm t
  | [] => rfl
  | a :: rest => by
      rw [operandsOfTerm, markerTextsOfTerm, List.filterMap_append,
        tooltips_operands_alternative mode a, tooltips_operandsOfTerm mode rest]

lemma tooltips_operandsOfStep (mode : AdjacentWords) : ∀ s : List (List Alternative),
    (operandsOfStep mode s).filterMap Operand.tooltip? = markerTextsOfStep s
  | [] => rfl
  | t :: rest => by
      rw [operandsOfStep, markerTextsOfStep, List.filterMap_append, tooltips_operandsOfTerm mode t,
        tooltips_operandsOfStep mode rest]

/-- The markers of steps are the tooltips among their operands. -/
lemma tooltips_operandsOfSteps (mode : AdjacentWords) : ∀ ss : List (List (List Alternative)),
    (operandsOfSteps mode ss).filterMap Operand.tooltip? = markerTextsOfSteps ss
  | [] => rfl
  | s :: rest => by
      rw [operandsOfSteps, markerTextsOfSteps, List.filterMap_append,
        tooltips_operandsOfStep mode s, tooltips_operandsOfSteps mode rest]

end

lemma tooltips_operands (ts : List Token) :
    tooltips (Token.operands ts) = tooltips (Token.symbols ts) := by
  rw [tooltips, Token.operands, List.filterMap_filter, tooltips]
  refine List.filterMap_congr fun s _ => ?_
  cases s <;> rfl

/-- What becomes of tokens has their tooltips. -/
lemma tooltips_consumed {c : Catalog} {mode : AdjacentWords} {used : List Symbol}
    {ops : List Operand} (h : List.Forall₂ (Consumed c) used ops) :
    tooltips used = (ops.flatMap (Operand.spread mode)).filterMap Operand.tooltip? := by
  induction h with
  | nil => rfl
  | @cons s o used ops hs _ ih =>
      rw [tooltips_cons, List.flatMap_cons, List.filterMap_append, ih]
      congr 1
      cases hs with
      | ability w =>
          rw [Operand.spread]
          split
          · refine (List.filterMap_eq_nil_iff.mpr fun o ho => ?_).symm
            obtain ⟨v, -, rfl⟩ := List.mem_map.mp ho
            rfl
          · rfl
      | _ => rfl

/-- The markers of a rotation are the tooltips among the tokens that it is read from. -/
theorem tooltips_of_stepsOfTokens {rules : Rules} {ts : List Token} {steps : List Step}
    (h : Rotation.stepsOfTokens rules ts = .ok steps) :
    tooltips (Token.symbols ts) = markerTextsOfSteps steps := by
  obtain ⟨⟨used, ops, hused, hops, heq⟩, -⟩ := (Descent.stepsOfTokens_eq_ok_iff.mp h).accounts
  rw [Token.operands_nil, List.append_nil] at hused
  change operandsOfSteps rules.adjacentWords steps = _ at heq
  calc tooltips (Token.symbols ts)
      = tooltips used := by rw [← tooltips_operands, hused]
    _ = (operandsOfSteps rules.adjacentWords steps).filterMap Operand.tooltip? := by
        rw [heq, tooltips_consumed hops]
    _ = markerTextsOfSteps steps := tooltips_operandsOfSteps _ _

end AbilityRotation
