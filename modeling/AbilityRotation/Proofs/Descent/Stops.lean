import AbilityRotation.Proofs.Descent.Fusions
import AbilityRotation.Proofs.Grammar.Recognition

/-!
Where the descent stops, as a relation.

`Descent.Stops` relates a rule of the grammar, the tokens at which the rule starts and the stop in
which it ends.  It has one constructor for each way in which a rule can fail: either a part of it
stops, or it was read up to a point where it cannot go on.
* `expression_eq_error_iff`, `terms_eq_error_iff`, `term_eq_error_iff`, `group_eq_error_iff`: how a
  function can fail behind what it has read.
* `reads_or_stops`: a rule reads or stops, whatever the tokens.
* `stops_iff`: the relation holds exactly of the stops of the functions, so a statement about all
  failures is an induction over `Stops`.
* `stepsOfTokens_eq_error_iff`: why a whole list of tokens describes no steps.
-/

namespace AbilityRotation

namespace Descent

/-- The readings that fail: the rule `p` that starts at the tokens ends in the stop. -/
inductive Stops (rules : Rules) : (p : Phrase) → List Token → Stop → Prop
  /-- The first step of an expression stops. -/
  | firstStep {ts e} (hs : Stops rules .terms ts e) : Stops rules .expression ts e
  /-- The first step of an expression is ambiguous. -/
  | ambiguous {ts s rest} (hs : Reads rules .terms ts s rest) (ha : isAmbiguous s = true) :
      Stops rules .expression ts ⟨.malformed .ambiguous, rest⟩
  /-- There is nothing to carry out behind an arrow. -/
  | missingBehindArrow {ts s t rest} (hs : Reads rules .terms ts s (t :: rest))
      (ha : isAmbiguous s = false) (ht : t.symbol = .arrow)
      (hstart : Token.startsOperand rest = false) :
      Stops rules .expression ts ⟨.malformed (.operandMissingAfter "→"), rest⟩
  /-- The steps behind an arrow stop. -/
  | arrow {ts s t rest e} (hs : Reads rules .terms ts s (t :: rest)) (ha : isAmbiguous s = false)
      (ht : t.symbol = .arrow) (hstart : Token.startsOperand rest = true)
      (hss : Stops rules .expression rest e) : Stops rules .expression ts e
  /-- There is nothing to carry out before an operator. -/
  | missingBefore {ts s t rest} (hs : Reads rules .terms ts s (t :: rest))
      (ha : isAmbiguous s = false) (ht : t.symbol = .plus ∨ t.symbol = .slash) :
      Stops rules .expression ts ⟨.malformed (.operandMissingBefore t.symbol.text), t :: rest⟩
  /-- Neighbours are a fault. -/
  | neighbour {ts s t rest} (hs : Reads rules .terms ts s (t :: rest)) (ha : isAmbiguous s = false)
      (ht : t.symbol.startsOperand = true) (hmode : rules.adjacentWords = .error) :
      Stops rules .expression ts ⟨.malformed (.operatorMissing t.symbol.text), t :: rest⟩
  /-- The steps right behind a step stop. -/
  | gap {ts s t rest e} (hs : Reads rules .terms ts s (t :: rest)) (ha : isAmbiguous s = false)
      (ht : t.symbol.startsOperand = true) (hmode : rules.adjacentWords ≠ .error)
      (hss : Stops rules .expression (t :: rest) e) : Stops rules .expression ts e
  /-- The first term of a step stops. -/
  | firstTerm {ts e} (ha : Stops rules (.term true) ts e) : Stops rules .terms ts e
  /-- There is nothing to carry out behind a plus. -/
  | missingBehindPlus {ts a t rest} (ha : Reads rules (.term true) ts a (t :: rest))
      (ht : t.symbol = .plus) (hstart : Token.startsOperand rest = false) :
      Stops rules .terms ts ⟨.malformed (.operandMissingAfter "+"), rest⟩
  /-- The terms behind a plus stop. -/
  | plus {ts a t rest e} (ha : Reads rules (.term true) ts a (t :: rest)) (ht : t.symbol = .plus)
      (hstart : Token.startsOperand rest = true) (has : Stops rules .terms rest e) :
      Stops rules .terms ts e
  /-- The first alternative of a term stops. -/
  | firstAlternative {first ts e} (ha : Stops rules (.alternative first) ts e) :
      Stops rules (.term first) ts e
  /-- There is nothing to carry out behind a slash. -/
  | missingBehindSlash {first ts a t rest} (ha : Reads rules (.alternative first) ts a (t :: rest))
      (ht : t.symbol = .slash) (hstart : Token.startsOperand rest = false) :
      Stops rules (.term first) ts ⟨.malformed (.operandMissingAfter "/"), rest⟩
  /-- The alternatives behind a slash stop. -/
  | slash {first ts a t rest e} (ha : Reads rules (.alternative first) ts a (t :: rest))
      (ht : t.symbol = .slash) (hstart : Token.startsOperand rest = true)
      (has : Stops rules (.term false) rest e) : Stops rules (.term first) ts e
  /-- The operand between the tooltips around it stops. -/
  | alternative {first ts e} (ha : Stops rules (.operand first) (markers ts).2 e) :
      Stops rules (.alternative first) ts e
  /-- There is neither a word nor a group. -/
  | missing {first ts} (hword : ∀ w, Token.first? ts ≠ some (.word w))
      (hgroup : Token.first? ts ≠ some .opening) :
      Stops rules (.operand first) ts ⟨.malformed .operandMissing, ts⟩
  /-- What modifiers are fused onto cannot be used. -/
  | fused {first t w rest f fault} (ht : t.symbol = .word w)
      (hf : fusionAt? rules first (t :: rest) = some f)
      (hu : AbilityUse.build f.target.key f.modifiers none f.target.label = .error fault) :
      Stops rules (.operand first) (t :: rest) ⟨.unbuildable fault, f.rest⟩
  /-- A word, or several joined ones, cannot be used. -/
  | plain {first t w rest fault} (ht : t.symbol = .word w)
      (hf : fusionAt? rules first (t :: rest) = none)
      (hu : plainUse rules (plainWord rules w rest).1 = .error fault) :
      Stops rules (.operand first) (t :: rest) ⟨.unbuildable fault, (plainWord rules w rest).2⟩
  /-- A group is empty. -/
  | emptyGroup {first t rest} (ht : t.symbol = .opening)
      (hclosing : Token.first? rest = some .closing) :
      Stops rules (.operand first) (t :: rest) ⟨.malformed .emptyGroup, rest⟩
  /-- The steps of a group stop. -/
  | group {first t rest e} (ht : t.symbol = .opening) (hne : Token.first? rest ≠ some .closing)
      (hss : Stops rules .expression rest e) : Stops rules (.operand first) (t :: rest) e
  /-- A group is not closed. -/
  | unterminated {first t rest ss} (ht : t.symbol = .opening)
      (hne : Token.first? rest ≠ some .closing) (hss : Reads rules .expression rest ss []) :
      Stops rules (.operand first) (t :: rest) ⟨.malformed .unterminatedGroup, []⟩

variable {rules : Rules} {first : Bool} {p : Phrase} {ts rest : List Token} {t : Token} {e : Stop}

lemma EndsExpression.symbol_eq (h : EndsExpression (t :: rest)) : t.symbol = .closing := by
  rcases h with h | h
  · cases h
  · simpa using h

/-- An expression ends before a closing parenthesis or at the end. -/
lemma Reads.endsExpression {ss : List Step} (h : Reads rules .expression ts ss rest) :
    EndsExpression rest := by
  induction hn : ts.length using Nat.strong_induction_on generalizing ts ss with
  | _ n ih =>
      subst hn
      cases h with
      | lastStep _ _ hend => exact hend
      | arrow hs _ _ _ hss =>
          have hlt := hs.length_lt
          rw [List.length_cons] at hlt
          exact ih _ (by omega) hss rfl
      | gap hs _ _ _ hss => exact ih _ hs.length_lt hss rfl

/-! ### Stops are what the functions return -/

lemma operand_word {w : Word} (ht : t.symbol = .word w) :
    operand rules first (t :: rest) = ability rules first t w rest := by
  rw [operand, ht]

lemma operand_opening (ht : t.symbol = .opening) :
    operand rules first (t :: rest) = Descent.group rules t rest := by
  rw [operand, ht]

lemma ability_of_fused {w : Word} {f : Fusion} {fault : AbilityUse.BuildFault}
    (hf : fusionAt? rules first (t :: rest) = some f)
    (hu : AbilityUse.build f.target.key f.modifiers none f.target.label = .error fault) :
    ability rules first t w rest = .error ⟨.unbuildable fault, f.rest⟩ := by
  rw [ability]
  split
  · next g hg =>
      obtain rfl : g = f := Option.some.inj (hg.symm.trans hf)
      rw [hu, build]
  · next hg => cases hg.symm.trans hf

lemma ability_of_plain {w : Word} {fault : AbilityUse.BuildFault}
    (hf : fusionAt? rules first (t :: rest) = none)
    (hu : plainUse rules (plainWord rules w rest).1 = .error fault) :
    ability rules first t w rest = .error ⟨.unbuildable fault, (plainWord rules w rest).2⟩ := by
  rw [ability]
  split
  · next g hg => cases hg.symm.trans hf
  · cases hm : rules.adjacentWords <;>
      (simp only [plainWord, hm] at hu ⊢; rw [hu, build])

lemma alternative_of_operand (h : operand rules first (markers ts).2 = .error e) :
    alternative rules first ts = .error e := by
  rw [alternative]
  split
  · next front hm =>
      rw [hm, operand, stop] at h
      cases h
      rfl
  · next front t rest hm =>
      rw [hm, operand] at h
      simp only
      split
      · next e' he => exact congrArg Except.error (Except.error.inj (he.symm.trans h))
      · next he => cases he.symm.trans h

lemma operand_of_missing (hword : ∀ w, Token.first? ts ≠ some (.word w))
    (hgroup : Token.first? ts ≠ some .opening) :
    operand rules first ts = .error ⟨.malformed .operandMissing, ts⟩ := by
  cases ts with
  | nil => rfl
  | cons t ts =>
      rw [operand]
      split
      · next w ht => exact absurd (by rw [Token.first?_cons, ht]) (hword w)
      · next ht => exact absurd (by rw [Token.first?_cons, ht]) hgroup
      · rfl

/-- How a group can fail behind its opening parenthesis. -/
lemma group_eq_error_iff :
    Descent.group rules t rest = .error e ↔
      if Token.first? rest = some .closing then e = ⟨.malformed .emptyGroup, rest⟩
      else expression rules rest = .error e ∨
        ∃ ss, Reads rules .expression rest ss [] ∧ e = ⟨.malformed .unterminatedGroup, []⟩ := by
  have hopen (ss : List Step) :
      Reads rules .expression rest ss [] ↔ Returns (expression rules rest) ss [] := reads_iff
  rw [Descent.group, ← Token.first?]
  split
  · simp [stop, eq_comm]
  · simp only [hopen]
    rcases he : expression rules rest with e' | ⟨ss, _ | ⟨u, us⟩, h⟩
    · simp
    · simp [stop, eq_comm]
    · have hss : Reads rules .expression rest ss (u :: us) := reads_iff.mpr ⟨h, he⟩
      simp [hss.endsExpression.symbol_eq]

/-- How a term can fail behind an alternative. -/
lemma term_eq_error_iff {a : Term} (ha : Reads rules (.alternative first) ts a (t :: rest)) :
    term rules first ts = .error e ↔
      t.symbol = .slash ∧
        if Token.startsOperand rest then term rules false rest = .error e
        else e = ⟨.malformed (.operandMissingAfter "/"), rest⟩ := by
  obtain ⟨hl, hok⟩ := ha.returns
  rw [term, show alternative rules first ts = .ok ⟨a, t :: rest, hl⟩ from hok]
  by_cases ht : t.symbol = .slash
  · cases hstart : Token.startsOperand rest <;> cases hr : term rules false rest <;>
      simp [ht, hstart, hr, stop, eq_comm]
  · simp [ht]

/-- How a step can fail behind a term. -/
lemma terms_eq_error_iff {a : Term} (ha : Reads rules (.term true) ts a (t :: rest)) :
    terms rules ts = .error e ↔
      t.symbol = .plus ∧
        if Token.startsOperand rest then terms rules rest = .error e
        else e = ⟨.malformed (.operandMissingAfter "+"), rest⟩ := by
  obtain ⟨hl, hok⟩ := ha.returns
  rw [terms, show term rules true ts = .ok ⟨a, t :: rest, hl⟩ from hok]
  by_cases ht : t.symbol = .plus
  · cases hstart : Token.startsOperand rest <;> cases hr : terms rules rest <;>
      simp [ht, hstart, hr, stop, eq_comm]
  · simp [ht]

/-- How an expression can fail behind a step. -/
lemma expression_eq_error_iff {s : Step} (hs : Reads rules .terms ts s (t :: rest))
    (ha : isAmbiguous s = false) :
    expression rules ts = .error e ↔
      match t.symbol with
      | .closing => False
      | .arrow =>
          if Token.startsOperand rest then expression rules rest = .error e
          else e = ⟨.malformed (.operandMissingAfter "→"), rest⟩
      | .plus | .slash => e = ⟨.malformed (.operandMissingBefore t.symbol.text), t :: rest⟩
      | _ =>
          if rules.adjacentWords = .error then
            e = ⟨.malformed (.operatorMissing t.symbol.text), t :: rest⟩
          else expression rules (t :: rest) = .error e := by
  obtain ⟨hl, hok⟩ := returns_step.mpr ⟨hs.returns, ha⟩
  rw [expression, hok]
  cases hsym : t.symbol with
  | closing => simp [hsym]
  | arrow =>
      simp only [hsym]
      cases hstart : Token.startsOperand rest <;> cases hr : expression rules rest <;>
        simp [stop, eq_comm]
  | plus | slash => simp only [hsym, stop, Except.error.injEq, eq_comm]
  | word | tooltip | opening =>
      simp only [hsym]
      cases hm : rules.adjacentWords <;> cases hr : expression rules (t :: rest) <;>
        simp [stop, eq_comm]

/-- In each stop of the relation, the function of the rule stops. -/
lemma Stops.run_eq (h : Stops rules p ts e) : p.run rules ts = .error e := by
  induction h with
  | @firstStep ts e _ ih =>
      change terms rules ts = _ at ih
      change expression rules ts = _
      rw [expression, step, ih]
  | @ambiguous ts s rest hs ha =>
      obtain ⟨hl, hterms⟩ := hs.returns
      change terms rules ts = _ at hterms
      change expression rules ts = _
      rw [expression, step, hterms]
      simp [ha, stop]
  | missingBehindArrow hs ha ht hstart =>
      exact (expression_eq_error_iff hs ha).mpr (by simp [ht, hstart])
  | arrow hs ha ht hstart _ ih =>
      exact (expression_eq_error_iff hs ha).mpr (by simpa [ht, hstart, Phrase.run] using ih)
  | missingBefore hs ha ht =>
      refine (expression_eq_error_iff hs ha).mpr ?_
      rcases ht with ht | ht <;> simp [ht]
  | neighbour hs ha ht hmode =>
      refine (expression_eq_error_iff hs ha).mpr ?_
      split <;> simp_all [Symbol.startsOperand]
  | gap hs ha ht hmode _ ih =>
      refine (expression_eq_error_iff hs ha).mpr ?_
      split <;> simp_all [Symbol.startsOperand, Phrase.run]
  | @firstTerm ts e _ ih =>
      change term rules true ts = _ at ih
      change terms rules ts = _
      rw [terms, ih]
  | missingBehindPlus ha ht hstart => exact (terms_eq_error_iff ha).mpr (by simp [ht, hstart])
  | plus ha ht hstart _ ih =>
      exact (terms_eq_error_iff ha).mpr (by simpa [ht, hstart, Phrase.run] using ih)
  | @firstAlternative first ts e _ ih =>
      change Descent.alternative rules first ts = _ at ih
      change term rules first ts = _
      rw [term, ih]
  | missingBehindSlash ha ht hstart => exact (term_eq_error_iff ha).mpr (by simp [ht, hstart])
  | slash ha ht hstart _ ih =>
      exact (term_eq_error_iff ha).mpr (by simpa [ht, hstart, Phrase.run] using ih)
  | alternative _ ih => exact alternative_of_operand ih
  | missing hword hgroup => exact operand_of_missing hword hgroup
  | fused ht hf hu => exact (operand_word ht).trans (ability_of_fused hf hu)
  | plain ht hf hu => exact (operand_word ht).trans (ability_of_plain hf hu)
  | emptyGroup ht hclosing =>
      exact (operand_opening ht).trans (group_eq_error_iff.mpr (by simp [hclosing]))
  | group ht hne _ ih =>
      refine (operand_opening ht).trans (group_eq_error_iff.mpr ?_)
      rw [if_neg hne]
      exact .inl ih
  | unterminated ht hne hss =>
      refine (operand_opening ht).trans (group_eq_error_iff.mpr ?_)
      rw [if_neg hne]
      exact .inr ⟨_, hss, rfl⟩

/-! ### Nothing lies between reading and stopping -/

/-- The rule reads at the tokens, or it stops there. -/
def Settled (rules : Rules) (p : Phrase) (ts : List Token) : Prop :=
  (∃ v rest, Reads rules p ts v rest) ∨ ∃ e, Stops rules p ts e

lemma Settled.operand (ih : ∀ us, us.length < ts.length → Settled rules .expression us) :
    Settled rules (.operand first) ts := by
  by_cases hword : ∃ w, Token.first? ts = some (.word w)
  · obtain ⟨w, hw⟩ := hword
    obtain ⟨t, us, rfl, ht⟩ := Token.exists_of_first? hw
    cases hf : fusionAt? rules first (t :: us) with
    | some f =>
        cases hu : AbilityUse.build f.target.key f.modifiers none f.target.label with
        | ok u => exact .inl ⟨_, _, .fused ht hf hu⟩
        | error fault => exact .inr ⟨_, .fused ht hf hu⟩
    | none =>
        cases hu : plainUse rules (plainWord rules w us).1 with
        | ok u => exact .inl ⟨_, _, .plain ht hf hu⟩
        | error fault => exact .inr ⟨_, .plain ht hf hu⟩
  · by_cases hgroup : Token.first? ts = some .opening
    · obtain ⟨t, us, rfl, ht⟩ := Token.exists_of_first? hgroup
      by_cases hclosing : Token.first? us = some .closing
      · exact .inr ⟨_, .emptyGroup ht hclosing⟩
      · obtain ⟨ss, rest, hss⟩ | ⟨e, he⟩ := ih us (by simp)
        · cases rest with
          | nil => exact .inr ⟨_, .unterminated ht hclosing hss⟩
          | cons u after =>
              exact .inl ⟨_, _, .group ht hclosing hss hss.endsExpression.symbol_eq⟩
        · exact .inr ⟨_, .group ht hclosing he⟩
    · exact .inr ⟨_, .missing (fun w hw => hword ⟨w, hw⟩) hgroup⟩

lemma Settled.alternative (h : Settled rules (.operand first) (markers ts).2) :
    Settled rules (.alternative first) ts := by
  obtain ⟨a, after, ha⟩ | ⟨e, he⟩ := h
  · exact .inl ⟨_, _, .alternative ha⟩
  · exact .inr ⟨_, .alternative he⟩

lemma Settled.term (h : Settled rules (.alternative first) ts)
    (ih : ∀ us, us.length < ts.length → Settled rules (.term false) us) :
    Settled rules (.term first) ts := by
  obtain ⟨a, rest, ha⟩ | ⟨e, he⟩ := h
  · by_cases hnext : Token.first? rest = some .slash
    · obtain ⟨t, rest, rfl, ht⟩ := Token.exists_of_first? hnext
      have hlt := ha.length_lt
      rw [List.length_cons] at hlt
      cases hstart : Token.startsOperand rest with
      | false => exact .inr ⟨_, .missingBehindSlash ha ht hstart⟩
      | true =>
          obtain ⟨as, after, has⟩ | ⟨e, he⟩ := ih rest (by omega)
          · exact .inl ⟨_, _, .slash ha ht hstart has⟩
          · exact .inr ⟨_, .slash ha ht hstart he⟩
    · exact .inl ⟨_, _, .lastAlternative ha hnext⟩
  · exact .inr ⟨_, .firstAlternative he⟩

lemma Settled.terms (h : Settled rules (.term true) ts)
    (ih : ∀ us, us.length < ts.length → Settled rules .terms us) : Settled rules .terms ts := by
  obtain ⟨a, rest, ha⟩ | ⟨e, he⟩ := h
  · by_cases hnext : Token.first? rest = some .plus
    · obtain ⟨t, rest, rfl, ht⟩ := Token.exists_of_first? hnext
      have hlt := ha.length_lt
      rw [List.length_cons] at hlt
      cases hstart : Token.startsOperand rest with
      | false => exact .inr ⟨_, .missingBehindPlus ha ht hstart⟩
      | true =>
          obtain ⟨as, after, has⟩ | ⟨e, he⟩ := ih rest (by omega)
          · exact .inl ⟨_, _, .plus ha ht hstart has⟩
          · exact .inr ⟨_, .plus ha ht hstart he⟩
    · exact .inl ⟨_, _, .lastTerm ha hnext⟩
  · exact .inr ⟨_, .firstTerm he⟩

lemma Settled.expression (h : Settled rules .terms ts)
    (ih : ∀ us, us.length < ts.length → Settled rules .expression us) :
    Settled rules .expression ts := by
  obtain ⟨s, rest, hs⟩ | ⟨e, he⟩ := h
  · cases ha : isAmbiguous s with
    | true => exact .inr ⟨_, .ambiguous hs ha⟩
    | false =>
        cases rest with
        | nil => exact .inl ⟨_, _, .lastStep hs ha (.inl rfl)⟩
        | cons t rest =>
            have hlt := hs.length_lt
            have hgap (ht : t.symbol.startsOperand = true) : Settled rules .expression ts := by
              by_cases hmode : rules.adjacentWords = .error
              · exact .inr ⟨_, .neighbour hs ha ht hmode⟩
              · obtain ⟨ss, after, hss⟩ | ⟨e, he⟩ := ih _ hlt
                · exact .inl ⟨_, _, .gap hs ha ht hmode hss⟩
                · exact .inr ⟨_, .gap hs ha ht hmode he⟩
            cases ht : t.symbol with
            | word w | tooltip text | opening => exact hgap (by rw [ht]; rfl)
            | plus => exact .inr ⟨_, .missingBefore hs ha (.inl ht)⟩
            | slash => exact .inr ⟨_, .missingBefore hs ha (.inr ht)⟩
            | closing => exact .inl ⟨_, _, .lastStep hs ha (.inr (by rw [Token.first?_cons, ht]))⟩
            | arrow =>
                rw [List.length_cons] at hlt
                cases hstart : Token.startsOperand rest with
                | false => exact .inr ⟨_, .missingBehindArrow hs ha ht hstart⟩
                | true =>
                    obtain ⟨ss, after, hss⟩ | ⟨e, he⟩ := ih rest (by omega)
                    · exact .inl ⟨_, _, .arrow hs ha ht hstart hss⟩
                    · exact .inr ⟨_, .arrow hs ha ht hstart he⟩
  · exact .inr ⟨_, .firstStep he⟩

/-- A rule reads or stops, whatever the tokens. -/
theorem reads_or_stops (rules : Rules) (p : Phrase) (ts : List Token) : Settled rules p ts := by
  induction p, ts using descent_induction with
  | expression ts ihs ih => exact .expression ihs ih
  | terms ts iha ih => exact .terms iha ih
  | term first ts iha ih => exact .term iha ih
  | alternative first ts iha => exact .alternative iha
  | operand first ts ih => exact .operand ih

/-- A rule stops exactly where its function does. -/
theorem stops_iff : Stops rules p ts e ↔ p.run rules ts = .error e := by
  refine ⟨Stops.run_eq, fun he => ?_⟩
  obtain ⟨v, rest, h⟩ | ⟨e', h⟩ := reads_or_stops rules p ts
  · obtain ⟨_, hok⟩ := h.returns
    cases hok.symm.trans he
  · cases h.run_eq.symm.trans he
    exact h

/-- Why tokens describe no steps: an expression stops among them, or a closing parenthesis stands
behind one. -/
theorem stepsOfTokens_eq_error_iff {fault : Rotation.Fault} :
    Rotation.stepsOfTokens rules ts = .error fault ↔
      (∃ e, Stops rules .expression ts e ∧ fault = Rotation.faultOfStop ts e) ∨
      ∃ ss t rest, Reads rules .expression ts ss (t :: rest) ∧
        fault = .parse ⟨.unexpectedClosing, ts.length - (t :: rest).length⟩ := by
  -- a stop is passed on, and a reading that does not end with the tokens is a fault of its own
  have hstop {e : Stop} (h : Stops rules .expression ts e) :
      Rotation.stepsOfTokens rules ts = .error (Rotation.faultOfStop ts e) := by
    rw [Rotation.stepsOfTokens, all, show expression rules ts = .error e from h.run_eq]
  have hclosing {ss : List Step} {t : Token} {rest : List Token}
      (h : Reads rules .expression ts ss (t :: rest)) :
      Rotation.stepsOfTokens rules ts =
        .error (.parse ⟨.unexpectedClosing, ts.length - (t :: rest).length⟩) := by
    obtain ⟨hl, hok⟩ := h.returns
    have ht := h.endsExpression.symbol_eq
    rw [Rotation.stepsOfTokens, all, show expression rules ts = .ok ⟨ss, t :: rest, hl⟩ from hok]
    simp only [ht]
    rfl
  constructor
  · intro h
    obtain ⟨ss, rest, hss⟩ | ⟨e, he⟩ := reads_or_stops rules .expression ts
    · cases rest with
      | nil => cases (stepsOfTokens_eq_ok_iff.mpr hss).symm.trans h
      | cons t rest =>
          cases (hclosing hss).symm.trans h
          exact .inr ⟨ss, t, rest, hss, rfl⟩
    · cases (hstop he).symm.trans h
      exact .inl ⟨e, he, rfl⟩
  · rintro (⟨e, he, rfl⟩ | ⟨ss, t, rest, hss, rfl⟩)
    · exact hstop he
    · exact hclosing hss

/-! ### What cannot be used -/

/-- Only blank words are joined into a blank one. -/
lemma isBlankText_of_joinWords {w : Word}
    (h : Text.isBlankText (joinWords w ts).1.key = true) : Text.isBlankText w.key = true := by
  induction ts generalizing w with
  | nil => exact h
  | cons t ts ih =>
      rw [joinWords] at h
      split at h
      · have hjoined := ih h
        simp only [Text.isBlankText, String.toList_append, List.all_append, Bool.and_eq_true]
          at hjoined ⊢
        exact hjoined.1.1
      · exact h

lemma isBlankText_of_plainWord {w : Word}
    (h : Text.isBlankText (plainWord rules w ts).1.key = true) :
    Text.isBlankText w.key = true := by
  rw [plainWord] at h
  split at h
  · exact isBlankText_of_joinWords h
  · exact h

/-- A word without modifiers cannot be used only if it is blank. -/
lemma plainUse_eq_error_iff {w : Word} {fault : AbilityUse.BuildFault} :
    plainUse rules w = .error fault ↔ Text.isBlankText w.key = true ∧ fault = .blankKey := by
  rw [plainUse, AbilityUse.build]
  cases Text.isBlankText w.key <;> simp [eq_comm]

/-- Onto what is fused, modifiers can be used. -/
lemma build_ne_error_of_fusionAt? {f : Fusion} {fault : AbilityUse.BuildFault}
    (hf : fusionAt? rules first ts = some f) :
    AbilityUse.build f.target.key f.modifiers none f.target.label ≠ .error fault := by
  obtain ⟨t, us, w, m, rfl, -, -, hchain⟩ := exists_of_fusionAt?_eq_some hf
  rw [AbilityUse.build, (Fusion.target_of_afterChain? (by simp) hchain).1]
  simp

/-- An ability cannot be used only where a word of the tokens is blank. -/
lemma Stops.of_unbuildable {fault : AbilityUse.BuildFault}
    (h : Stops rules p ts e) (he : e.reason = .unbuildable fault) :
    fault = .blankKey ∧ ¬ Named (Token.symbols ts) := by
  have hbehind {us vs : List Token} (hsuffix : us <:+ vs)
      (hus : fault = .blankKey ∧ ¬ Named (Token.symbols us)) :
      fault = .blankKey ∧ ¬ Named (Token.symbols vs) := by
    refine ⟨hus.1, fun hvs => hus.2 fun w hw => hvs w ?_⟩
    exact List.map_subset _ hsuffix.subset hw
  induction h with
  | firstStep _ ih | firstTerm _ ih | firstAlternative _ ih => exact ih he
  | arrow hs _ _ _ _ ih | plus hs _ _ _ ih | slash hs _ _ _ ih =>
      exact hbehind hs.suffix_behind (ih he)
  | gap hs _ _ _ _ ih => exact hbehind hs.suffix (ih he)
  | alternative _ ih => exact hbehind (markers_suffix _) (ih he)
  | group _ _ _ ih => exact hbehind (List.suffix_cons _ _) (ih he)
  | fused _ hf hu => exact absurd hu (build_ne_error_of_fusionAt? hf)
  | @plain _ _ w _ _ ht _ hu =>
      cases he
      obtain ⟨hblank, rfl⟩ := plainUse_eq_error_iff.mp hu
      have hw := isBlankText_of_plainWord hblank
      refine ⟨rfl, fun hnamed => ?_⟩
      rw [hnamed w (by simp [ht])] at hw
      cases hw
  | _ => cases he

end Descent

end AbilityRotation
