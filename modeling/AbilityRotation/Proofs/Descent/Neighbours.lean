import AbilityRotation.Proofs.Descent.Stops

/-!
The three treatments of neighbours.

Neighbouring abilities without an operator are two steps, one ability, or a fault.  Where they are a
fault, nothing is read that would be read differently elsewhere, and their being a fault is the only
reason not to read what is read as steps.
* `Reads.without_neighbours`: what is read where neighbours are a fault is read everywhere, in front
  of tokens that do not begin with a word.
* `Descent.LacksOperator`: a rule stops since an operator is missing.  A part that does so makes the
  whole do so, wherever the part stands.
* `Reads.or_lacksOperator`: what is read where neighbours are two steps is read where they are a
  fault, or an operator is missing.
* `stepsOfTokens_across_treatments`: both for all tokens.
-/

namespace AbilityRotation

namespace Descent

variable {rules : Rules} {ts rest : List Token}

/-! ### From the strictest treatment to the others -/

/-- No word follows the tooltips behind an operand if none follows the operand. -/
lemma first?_ne_word_of_markers {w : Word}
    (h : ∀ w, Token.first? (markers ts).2 ≠ some (.word w)) : Token.first? ts ≠ some (.word w) := by
  intro hts
  cases ts with
  | nil => cases hts
  | cons t ts =>
      rw [Token.first?_cons, Option.some.injEq] at hts
      refine h w ?_
      rw [markers, hts, Token.first?_cons, hts]

/-- A word that no word follows stands for itself, however neighbours are treated. -/
lemma plainWord_of_first? {w : Word} (h : ∀ v, Token.first? ts ≠ some (.word v)) :
    plainWord rules w ts = (w, ts) := by
  rw [plainWord]
  split
  · cases ts with
    | nil => rfl
    | cons t ts =>
        rw [joinWords]
        split
        · next v ht _ => exact absurd (by rw [Token.first?_cons, ht]) (h v)
        · rfl
  · rfl

/-- What is read where neighbours are a fault is read however they are treated, in front of tokens
that do not begin with a word. -/
theorem Reads.without_neighbours (hmode : rules.adjacentWords = .error) (mode : AdjacentWords)
    {p : Phrase} {v : p.Value} (h : Reads rules p ts v rest)
    (hrest : ∀ w, Token.first? rest ≠ some (.word w)) :
    Reads { rules with adjacentWords := mode } p ts v rest := by
  induction h with
  | lastStep _ ha hend ih => exact .lastStep (ih hrest) ha hend
  | arrow _ ha ht hstart _ ih1 ih2 =>
      exact .arrow (ih1 (by simp [ht])) ha ht hstart (ih2 hrest)
  -- the mode excludes gaps, and without them no word follows another directly
  | gap _ _ _ hm _ _ _ => exact absurd hmode hm
  | lastTerm _ hnext ih => exact .lastTerm (ih hrest) hnext
  | plus _ ht hstart _ ih1 ih2 => exact .plus (ih1 (by simp [ht])) ht hstart (ih2 hrest)
  | lastAlternative _ hnext ih => exact .lastAlternative (ih hrest) hnext
  | slash _ ht hstart _ ih1 ih2 => exact .slash (ih1 (by simp [ht])) ht hstart (ih2 hrest)
  | alternative _ ih => exact .alternative (ih fun _ => first?_ne_word_of_markers hrest)
  | fused ht hf hu => exact .fused ht hf hu
  | @plain first t w rest u ht hf hu =>
      have hsame : plainWord rules w rest = (w, rest) := by rw [plainWord, hmode]
      rw [hsame] at hu hrest ⊢
      have hsame' : plainWord { rules with adjacentWords := mode } w rest = (w, rest) :=
        plainWord_of_first? hrest
      have hplain : Reads { rules with adjacentWords := mode } (.operand first) (t :: rest)
          (.ability u) (plainWord { rules with adjacentWords := mode } w rest).2 :=
        .plain ht hf (by rw [hsame']; exact hu)
      rwa [hsame'] at hplain
  | group ht hne _ hu ih => exact .group ht hne (ih (by simp [hu])) hu

/-! ### Missing operators -/

/-- A rule stops since an operator is missing. -/
def LacksOperator (rules : Rules) (p : Phrase) (ts : List Token) : Prop :=
  ∃ token us, p.run rules ts = .error ⟨.malformed (.operatorMissing token), us⟩

namespace LacksOperator

variable {p q : Phrase} {t : Token} {s : Step}

/-- What stops wherever a part of it stops lacks an operator if the part does. -/
lemma through {us : List Token} (h : LacksOperator rules p us)
    (hstops : ∀ e, Stops rules p us e → Stops rules q ts e) : LacksOperator rules q ts := by
  obtain ⟨token, left, h⟩ := h
  exact ⟨token, left, (hstops _ (stops_iff.mpr h)).run_eq⟩

/-- Where neighbours are a fault, an operand behind a step is one. -/
lemma of_gap (hmode : rules.adjacentWords = .error) (hs : Reads rules .terms ts s (t :: rest))
    (ha : isAmbiguous s = false) (ht : t.symbol.startsOperand = true) :
    LacksOperator rules .expression ts :=
  ⟨t.symbol.text, t :: rest, (Stops.neighbour hs ha ht hmode).run_eq⟩

end LacksOperator

/-- What is read where neighbours are two steps is read where they are a fault, unless an operator
is missing there. -/
theorem Reads.or_lacksOperator (hsteps : rules.adjacentWords = .steps) {p : Phrase} {v : p.Value}
    (h : Reads rules p ts v rest) :
    Reads { rules with adjacentWords := .error } p ts v rest ∨
      LacksOperator { rules with adjacentWords := .error } p ts := by
  -- the first gap is where the other mode stops; up to it both read the same
  induction h with
  | lastStep _ ha hend ih =>
      exact ih.imp (.lastStep · ha hend) (·.through fun _ => .firstStep)
  | arrow _ ha ht hstart _ ih1 ih2 =>
      rcases ih1 with h1 | h1
      · exact ih2.imp (.arrow h1 ha ht hstart ·) (·.through fun _ => .arrow h1 ha ht hstart)
      · exact .inr (h1.through fun _ => .firstStep)
  | gap _ ha ht _ _ ih1 _ =>
      rcases ih1 with h1 | h1
      · exact .inr (.of_gap rfl h1 ha ht)
      · exact .inr (h1.through fun _ => .firstStep)
  | lastTerm _ hnext ih => exact ih.imp (.lastTerm · hnext) (·.through fun _ => .firstTerm)
  | plus _ ht hstart _ ih1 ih2 =>
      rcases ih1 with h1 | h1
      · exact ih2.imp (.plus h1 ht hstart ·) (·.through fun _ => .plus h1 ht hstart)
      · exact .inr (h1.through fun _ => .firstTerm)
  | lastAlternative _ hnext ih =>
      exact ih.imp (.lastAlternative · hnext) (·.through fun _ => .firstAlternative)
  | slash _ ht hstart _ ih1 ih2 =>
      rcases ih1 with h1 | h1
      · exact ih2.imp (.slash h1 ht hstart ·) (·.through fun _ => .slash h1 ht hstart)
      · exact .inr (h1.through fun _ => .firstAlternative)
  | alternative _ ih => exact ih.imp .alternative (·.through fun _ => .alternative)
  | fused ht hf hu => exact .inl (.fused ht hf hu)
  | @plain first t w rest u ht hf hu =>
      have hsame : plainWord rules w rest =
          plainWord { rules with adjacentWords := .error } w rest := by
        rw [plainWord, hsteps, plainWord]
      rw [hsame] at hu ⊢
      exact .inl (.plain ht hf hu)
  | group ht hne _ hu ih =>
      exact ih.imp (.group ht hne · hu) (·.through fun _ => .group ht hne)

end Descent

open Descent

/-- **The treatments of neighbours agree as far as they can.**  Steps that are read where neighbours
are a fault are read in the same way where they are two steps and where they are joined.  Steps that
are read where neighbours are two steps are read in the same way where they are a fault, unless an
operator is missing there. -/
theorem stepsOfTokens_across_treatments (c : Catalog) (perInstance : Table Overrides)
    (ts : List Token) (steps : List Step) :
    (Rotation.stepsOfTokens ⟨c, .error, perInstance⟩ ts = .ok steps →
      Rotation.stepsOfTokens ⟨c, .steps, perInstance⟩ ts = .ok steps ∧
        Rotation.stepsOfTokens ⟨c, .join, perInstance⟩ ts = .ok steps) ∧
    (Rotation.stepsOfTokens ⟨c, .steps, perInstance⟩ ts = .ok steps →
      Rotation.stepsOfTokens ⟨c, .error, perInstance⟩ ts = .ok steps ∨
        ∃ fault : ParseFault,
          Rotation.stepsOfTokens ⟨c, .error, perInstance⟩ ts = .error (.parse fault) ∧
            fault.cause.code = "parse.operator.missing") := by
  constructor
  · intro h
    have hread := stepsOfTokens_eq_ok_iff.mp h
    have hsteps : Reads ⟨c, .steps, perInstance⟩ .expression ts steps [] :=
      hread.without_neighbours rfl _ (by simp)
    have hjoin : Reads ⟨c, .join, perInstance⟩ .expression ts steps [] :=
      hread.without_neighbours rfl _ (by simp)
    exact ⟨stepsOfTokens_eq_ok_iff.mpr hsteps, stepsOfTokens_eq_ok_iff.mpr hjoin⟩
  · intro h
    have hread := stepsOfTokens_eq_ok_iff.mp h
    have herror : Reads ⟨c, .error, perInstance⟩ .expression ts steps [] ∨
        LacksOperator ⟨c, .error, perInstance⟩ .expression ts :=
      hread.or_lacksOperator rfl
    -- the place of the fault is told by what the descent left
    rcases herror with h' | ⟨token, us, h'⟩
    · exact .inl (stepsOfTokens_eq_ok_iff.mpr h')
    · change expression _ ts = _ at h'
      refine .inr ⟨⟨.operatorMissing token, ts.length - us.length⟩, ?_, rfl⟩
      rw [Rotation.stepsOfTokens, all, h']
      rfl

/-- The tokens of `gmaul spec → chain`. -/
def fusedThenChain : List Token :=
  [.word ⟨"gmaul", none⟩, .word ⟨"spec", none⟩, .arrow, .word ⟨"chain", none⟩].map
    fun s => ⟨s, 0, false⟩

/-- The tokens of `assault chain`. -/
def assaultChain : List Token :=
  [.word ⟨"assault", none⟩, .word ⟨"chain", none⟩].map fun s => ⟨s, 0, false⟩

/-- The words of `gmaul spec → chain` are no neighbours once the first two are fused, and those of
`assault chain` are. -/
theorem stepsOfTokens_across_fusion :
    (Rotation.stepsOfTokens ⟨Catalog.default, .error, Table.empty⟩ fusedThenChain =
        .ok [[[.ability { key := "spec", modifiers := ["gmaul"] }]],
          [[.ability { key := "chain" }]]] ∧
      Rotation.stepsOfTokens ⟨Catalog.default, .steps, Table.empty⟩ fusedThenChain =
        .ok [[[.ability { key := "spec", modifiers := ["gmaul"] }]],
          [[.ability { key := "chain" }]]]) ∧
    Rotation.stepsOfTokens ⟨Catalog.default, .steps, Table.empty⟩ assaultChain =
        .ok [[[.ability { key := "assault" }]], [[.ability { key := "chain" }]]] ∧
      ∃ fault : ParseFault,
        Rotation.stepsOfTokens ⟨Catalog.default, .error, Table.empty⟩ assaultChain =
            .error (.parse fault) ∧ fault.cause.code = "parse.operator.missing" := by
  have hchain : ∀ mode, Reads ⟨Catalog.default, mode, Table.empty⟩ .expression
      (assaultChain.drop 1) [[[.ability { key := "chain" }]]] [] := by
    intro mode
    have hword : Reads ⟨Catalog.default, mode, Table.empty⟩ (.operand true) (assaultChain.drop 1)
        (.ability { key := "chain" }) [] := by
      cases mode with
      | steps | error | join => exact .plain rfl (by decide) (by decide)
    exact .single (.between rfl hword rfl) (by decide) (.inl rfl)
  have hspec : Reads ⟨Catalog.default, .error, Table.empty⟩ (.alternative true) fusedThenChain
      [.ability { key := "spec", modifiers := ["gmaul"] }] (fusedThenChain.drop 2) :=
    .between rfl (.fused (f := ⟨["gmaul"], ⟨"spec", none⟩, fusedThenChain.drop 2⟩) rfl
      (by decide +kernel) (by decide)) rfl
  have hassault : ∀ mode, mode ≠ .join → Reads ⟨Catalog.default, mode, Table.empty⟩ .terms
      assaultChain [[.ability { key := "assault" }]] (assaultChain.drop 1) := by
    intro mode hmode
    have hword : Reads ⟨Catalog.default, mode, Table.empty⟩ (.operand true) assaultChain
        (.ability { key := "assault" }) (assaultChain.drop 1) := by
      cases mode with
      | steps | error => exact .plain rfl (by decide) (by decide)
      | join => exact absurd rfl hmode
    exact .lastTerm (.lastAlternative (.between rfl hword rfl) (by decide)) (by decide)
  have hfused : Rotation.stepsOfTokens ⟨Catalog.default, .error, Table.empty⟩ fusedThenChain =
      .ok [[[.ability { key := "spec", modifiers := ["gmaul"] }]],
        [[.ability { key := "chain" }]]] :=
    stepsOfTokens_eq_ok_iff.mpr (.arrow (.lastTerm (.lastAlternative hspec (by decide))
      (by decide)) (by decide) rfl rfl (hchain .error))
  have hgap : Rotation.stepsOfTokens ⟨Catalog.default, .steps, Table.empty⟩ assaultChain =
      .ok [[[.ability { key := "assault" }]], [[.ability { key := "chain" }]]] :=
    stepsOfTokens_eq_ok_iff.mpr (.gap (hassault .steps (by decide)) (by decide) rfl (by decide)
      (hchain .steps))
  refine ⟨⟨hfused, ((stepsOfTokens_across_treatments _ _ _ _).1 hfused).1⟩, hgap, ?_⟩
  refine ((stepsOfTokens_across_treatments _ _ _ _).2 hgap).resolve_left fun herror => ?_
  obtain ⟨_, hread⟩ := (stepsOfTokens_eq_ok_iff.mp herror).returns
  obtain ⟨_, _, hlacks⟩ := LacksOperator.of_gap rfl (hassault .error (by decide)) (by decide) rfl
  cases hread.symm.trans hlacks

end AbilityRotation
