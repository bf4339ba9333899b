import AbilityRotation.Proofs.Canonical.Legible
import AbilityRotation.Proofs.Grammar.Recognition

/-!
Reading the canonical symbols of what was read.

With the default catalog, the canonical symbols of what a rule reads are read by the same rule, and
what is read is the same but for the settings of single occurrences, which come from other labels.
* `NoMoreFused`: in front of some tokens no modifiers are fused that are not fused in front of
  others.  Fusion looks beyond the tokens of an ability, so the induction has to carry this along.
* `Rereadable`: what the induction shows of each phrase, with a lemma for each way to read one.
* `Reads.rereadable`: the induction.
* `reread_steps`: the result for all tokens.
-/

namespace AbilityRotation

open Descent

/-- Tokens with the given symbols, whose places play no part. -/
def ofSymbols (ss : List Symbol) : List Token :=
  ss.map fun s => ⟨s, 0, false⟩

@[simp] lemma ofSymbols_nil : ofSymbols [] = [] := rfl

@[simp] lemma ofSymbols_cons (s : Symbol) (ss : List Symbol) :
    ofSymbols (s :: ss) = ⟨s, 0, false⟩ :: ofSymbols ss := rfl

@[simp] lemma ofSymbols_append (ss rest : List Symbol) :
    ofSymbols (ss ++ rest) = ofSymbols ss ++ ofSymbols rest :=
  List.map_append

@[simp] lemma symbols_ofSymbols (ss : List Symbol) : Token.symbols (ofSymbols ss) = ss := by
  simp [Token.symbols, ofSymbols, Function.comp_def]

/-! ### Fusion in front of tokens -/

/-- In front of the tokens `rest'` no chain of modifiers is fused that is not fused in front of
`rest`, and a slash follows in both or in none of them. -/
structure NoMoreFused (rest rest' : List Token) : Prop where
  /-- A slash follows in both or in none. -/
  slash : Fusion.slashFollows rest' = Fusion.slashFollows rest
  /-- Where nothing is fused before, nothing is fused after. -/
  chain : ∀ (ms : List Modifier) (mayPlus : Bool), ms ≠ [] → (∀ m ∈ ms, Catalog.Known m) →
    Fusion.afterChain? Catalog.default ms mayPlus rest = none →
      Fusion.afterChain? Catalog.default ms mayPlus rest' = none

namespace NoMoreFused

variable {rest rest' ts : List Token} {t t' : Token}

lemma of_symbols (h : NoMoreFused rest rest') (hts : Token.symbols ts = Token.symbols rest) :
    NoMoreFused ts rest' := by
  refine ⟨h.slash.trans (slashFollows_of_symbols hts).symm, fun ms mayPlus hne hms hnone => ?_⟩
  refine h.chain ms mayPlus hne hms ?_
  have hmap := afterChain?_of_symbols Catalog.default ms mayPlus hts
  rw [hnone] at hmap
  exact Option.map_eq_none_iff.mp hmap.symm

/-- Equal symbols in front change nothing. -/
lemma cons (h : NoMoreFused rest rest') (ht : t'.symbol = t.symbol) :
    NoMoreFused (t :: rest) (t' :: rest') := by
  constructor
  · rw [Fusion.slashFollows, Fusion.slashFollows, ht]
    split
    · exact h.slash
    · rfl
    · rfl
  · intro ms mayPlus hne hms hnone
    rw [Fusion.afterChain?] at hnone ⊢
    rw [ht]
    cases hs : t.symbol with
    | plus =>
        rw [hs] at hnone
        cases mayPlus with
        | true => exact h.chain ms false hne hms hnone
        | false => rfl
    | word w =>
        rw [hs] at hnone
        simp only at hnone ⊢
        split at hnone
        · next ha =>
            rw [if_pos ha, h.slash]
            split at hnone
            · next hslash => rw [if_pos hslash]
            · cases hnone
        · next ha =>
            rw [if_neg ha]
            cases hm : Fusion.modifierOf? Catalog.default w with
            | none => rfl
            | some m =>
                rw [hm] at hnone
                have hknown := (Fusion.known_of_modifierOf? hm).2.1
                exact h.chain _ true (by simp)
                  (by simpa [or_imp, forall_and] using ⟨hms, hknown⟩) hnone
    | _ => rfl

lemma append {ss : List Symbol} (h : NoMoreFused rest rest')
    (hts : Token.symbols ts = ss ++ Token.symbols rest) :
    NoMoreFused ts (ofSymbols ss ++ rest') := by
  induction ss generalizing ts with
  | nil => exact h.of_symbols hts
  | cons s ss ih =>
      obtain ⟨t, ts, rfl, ht, hts⟩ := Token.symbols_eq_cons hts
      exact (ih hts).cons ht.symm

/-- Nothing is fused in front of an operator other than a plus, or of a group. -/
lemma of_first? (hslash : Fusion.slashFollows rest' = Fusion.slashFollows rest)
    (hword : ∀ w, Token.first? rest' ≠ some (.word w))
    (hplus : Token.first? rest' ≠ some .plus) : NoMoreFused rest rest' := by
  refine ⟨hslash, fun ms mayPlus _ _ _ => ?_⟩
  cases rest' with
  | nil => rfl
  | cons t rest' =>
      rw [Fusion.afterChain?]
      split
      · next hs => exact absurd (by rw [Token.first?_cons, hs]) hplus
      · next w hs => exact absurd (by rw [Token.first?_cons, hs]) (hword w)
      · rfl

/-- Where nothing is fused at a word, nothing is fused at the same word in front of other tokens. -/
lemma fusionAt?_eq_none {rules rules' : Rules} (hc : rules.catalog = Catalog.default)
    (hc' : rules'.catalog = Catalog.default) (h : NoMoreFused rest rest') {first : Bool}
    (ht : t'.symbol = t.symbol) (hnone : fusionAt? rules first (t :: rest) = none) :
    fusionAt? rules' first (t' :: rest') = none := by
  cases first with
  | false => rfl
  | true =>
      rw [fusionAt?, if_pos rfl, hc, Fusion.at?] at hnone
      rw [fusionAt?, if_pos rfl, hc', Fusion.at?, ht]
      split
      · next w hs =>
          simp only [hs] at hnone
          cases hm : Fusion.modifierOf? Catalog.default w with
          | none => rfl
          | some m =>
              rw [hm] at hnone
              have hknown := (Fusion.known_of_modifierOf? hm).2.1
              exact h.chain [m] true (by simp) (by simpa using hknown) hnone
      · rfl

/-- Where an ability carries modifiers, a chain of modifiers in front of them is fused as well. -/
lemma of_fusionAt? {rules : Rules} (hc : rules.catalog = Catalog.default) {first : Bool}
    {f : Fusion} {w w' : Word} (ht : t.symbol = .word w) (ht' : t'.symbol = .word w')
    (hf : fusionAt? rules first (t :: rest) = some f) :
    NoMoreFused (t :: rest) (t' :: rest') := by
  constructor
  · rw [Fusion.slashFollows, Fusion.slashFollows, ht, ht']
  · intro ms mayPlus hne hms hnone
    -- the chain that is read here would also be found with more modifiers in front
    exfalso
    cases first with
    | false => cases hf
    | true =>
        rw [fusionAt?, if_pos rfl, hc, Fusion.at?, ht] at hf
        obtain ⟨m, hm, hchain⟩ := Option.bind_eq_some_iff.mp hf
        obtain ⟨-, hknown, hresolve⟩ := Fusion.known_of_modifierOf? hm
        have haccepts : ms.all (·.accepts w.key) = false := by
          rw [Catalog.all_accepts hne hms, Catalog.accepts_of_resolve (.inl rfl) hresolve]
        rw [Fusion.afterChain?, ht] at hnone
        simp only [haccepts, Bool.false_eq_true, if_false, hm] at hnone
        have hmore : ∀ m' ∈ ms ++ [m], Catalog.Known m' := by
          simpa [or_imp, forall_and] using ⟨hms, hknown⟩
        have hone : ∀ m' ∈ [m], Catalog.Known m' := by simpa using hknown
        have hsome := Fusion.isSome_afterChain?_congr (by simp) hmore (by simp) hone true rest
        rw [hnone, hchain] at hsome
        cases hsome

end NoMoreFused

/-! ### Parts of the canonical symbols -/

variable {names : List String} {behind : Bool} {rules rules' : Rules} {ts rest rest' : List Token}

/-- Tooltips in front of tokens are the first markers of them. -/
lemma markers_ofSymbols_append (texts : List String) (ts : List Token) :
    markers (ofSymbols (texts.map .tooltip) ++ ts) =
      (texts.map (.marker ·) ++ (markers ts).1, (markers ts).2) := by
  induction texts with
  | nil => rfl
  | cons text texts ih =>
      rw [List.map_cons, ofSymbols_cons, List.cons_append, markers]
      simp [ih]

lemma markers_eq_self (h : ∀ text, Token.first? ts ≠ some (.tooltip text)) :
    markers ts = ([], ts) :=
  @markers_append [] [] _ rfl h

lemma HasChoice.exists_symbols {t : Term} (h : HasChoice t) :
    ∃ s ss, symbolsOfTerm false t = s :: ss ∧ s.startsOperand = true := by
  obtain ⟨texts, a, back, rfl, ha⟩ := h
  obtain ⟨s, ss, hs, hstart⟩ := exists_symbols_choice ha
  rw [symbolsOfTerm_markers_append, symbolsOfTerm_choice _ ha, hs]
  cases texts with
  | nil => exact ⟨s, _, rfl, by rcases hstart with rfl | ⟨w, rfl⟩ <;> rfl⟩
  | cons text texts => exact ⟨_, _, rfl, rfl⟩

/-- The canonical symbols of a phrase begin with an operand. -/
lemma Descent.Reads.exists_symbols {p : Phrase} {v : p.Value} (h : Reads rules p ts v rest) :
    ∃ s ss, p.symbols v = s :: ss ∧ s.startsOperand = true := by
  induction h with
  | lastStep _ _ _ ih => simpa [Phrase.symbols, symbolsOfSteps, List.intercalate] using ih
  | arrow _ _ _ _ hss ih _ | gap _ _ _ _ hss ih _ =>
      obtain ⟨s, ss, hs, hstart⟩ := ih
      rw [symbols_expression_cons _ hss.steps_ne_nil, hs]
      exact ⟨s, _, rfl, hstart⟩
  | lastTerm _ _ ih => simpa [Phrase.symbols, symbolsOfStep, List.intercalate] using ih
  | plus _ _ _ has ih _ =>
      obtain ⟨s, ss, hs, hstart⟩ := ih
      rw [symbols_terms_cons _ has.terms_ne_nil]
      exact ⟨s, _, by rw [show symbolsOfTerm false _ = s :: ss from hs]; rfl, hstart⟩
  | lastAlternative ha _ _ => exact ha.hasChoice_alternative.exists_symbols
  | slash ha _ _ _ _ _ => exact (ha.hasChoice_alternative.append _).exists_symbols
  | alternative ha _ => exact (Reads.alternative ha).hasChoice_alternative.exists_symbols
  | fused ht hf hu =>
      obtain ⟨s, ss, hs, hstart⟩ := exists_symbols_choice (Reads.fused ht hf hu).isChoice
      exact ⟨s, ss, hs, by rcases hstart with rfl | ⟨w, rfl⟩ <;> rfl⟩
  | plain ht hf hu =>
      obtain ⟨s, ss, hs, hstart⟩ := exists_symbols_choice (Reads.plain ht hf hu).isChoice
      exact ⟨s, ss, hs, by rcases hstart with rfl | ⟨w, rfl⟩ <;> rfl⟩
  | group _ _ _ _ _ =>
      exact ⟨.opening, _, by rw [Phrase.symbols, Alternative.symbols, List.cons_append], rfl⟩

lemma startsOperand_ofSymbols {ss : List Symbol}
    (h : ∃ s rest, ss = s :: rest ∧ s.startsOperand = true) (ts : List Token) :
    Token.startsOperand (ofSymbols ss ++ ts) = true := by
  obtain ⟨s, rest, rfl, hs⟩ := h
  exact hs

/-- Changing uses keeps choices. -/
lemma isChoice_mapUses (f : AbilityUse → AbilityUse) (a : Alternative) :
    (a.mapUses f).isChoice = a.isChoice := by
  cases a <;> rfl

lemma length_choices_mapUsesOfTerm (f : AbilityUse → AbilityUse) (t : List Alternative) :
    (Term.choices (mapUsesOfTerm f t)).length = (Term.choices t).length := by
  induction t with
  | nil => rfl
  | cons a t ih =>
      rw [mapUsesOfTerm, Term.choices, Term.choices, List.filter_cons, List.filter_cons,
        isChoice_mapUses]
      split
      · simpa [Term.choices] using ih
      · exact ih

/-- Changing uses keeps whether a step is ambiguous. -/
lemma isAmbiguous_mapUsesOfStep (f : AbilityUse → AbilityUse) (s : Step) :
    isAmbiguous (mapUsesOfStep f s) = isAmbiguous s := by
  have hlengths : (mapUsesOfStep f s).map (fun t => (Term.choices t).length) =
      s.map fun t => (Term.choices t).length := by
    induction s with
    | nil => rfl
    | cons t s ih =>
        rw [mapUsesOfStep, List.map_cons, List.map_cons, ih, length_choices_mapUsesOfTerm]
  have hiff : isAmbiguous (mapUsesOfStep f s) = false ↔ isAmbiguous s = false := by
    rw [isAmbiguous_eq_false, isAmbiguous_eq_false]
    exact Iff.of_eq (congrArg Derivation.SingleBetween hlengths)
  cases h : isAmbiguous s <;> simp_all

/-- A term is read behind its first tooltips. -/
lemma Descent.Reads.drop_tooltips {first : Bool} {texts : List String} {v : Term}
    (h : Reads rules (.term first) (ofSymbols (texts.map .tooltip) ++ ts)
      (texts.map (.marker ·) ++ v) rest)
    (hts : ∀ text, Token.first? ts ≠ some (.tooltip text)) :
    Reads rules (.term first) ts v rest := by
  have halternative : ∀ {a : Term} {after : List Token},
      Reads rules (.alternative first) (ofSymbols (texts.map .tooltip) ++ ts) a after →
        ∃ a', a = texts.map (.marker ·) ++ a' ∧ Reads rules (.alternative first) ts a' after := by
    intro a after ha
    cases ha with
    | @alternative _ _ o after ho =>
        rw [markers_ofSymbols_append, markers_eq_self hts] at ho ⊢
        exact ⟨o :: (markers after).1, by simp, .between (markers_eq_self hts) ho rfl⟩
  generalize hv : texts.map (Alternative.marker ·) ++ v = v' at h
  cases h with
  | lastAlternative ha hnext =>
      obtain ⟨a', rfl, ha'⟩ := halternative ha
      rw [List.append_cancel_left hv]
      exact .lastAlternative ha' hnext
  | @slash _ _ a t after as _ ha ht hstart has =>
      obtain ⟨a', rfl, ha'⟩ := halternative ha
      rw [List.append_assoc] at hv
      rw [List.append_cancel_left hv]
      exact .slash ha' ht hstart has

/-! ### The modifiers of an ability -/

/-- A chain of modifiers with a plus after each is fused onto an ability that accepts them. -/
lemma afterChain?_modifiers {chain ms : List Modifier} {target : Word} (hne : chain ≠ [])
    (hchain : ∀ m ∈ chain, Catalog.Known m) (hms : ∀ m ∈ ms, Catalog.Known m)
    (ha : Catalog.graniteMaul.accepts target.key = true)
    (hslash : Fusion.slashFollows rest' = false) :
    Fusion.afterChain? Catalog.default chain true
        (⟨.plus, 0, false⟩ :: (ofSymbols ((ms.map (·.key)).flatMap fun m =>
          [.word ⟨m, none⟩, .plus]) ++ ⟨.word target, 0, false⟩ :: rest')) =
      some ⟨(chain ++ ms).map (·.key), target, rest'⟩ := by
  -- each modifier is refused as a target and found by its key, so the chain grows by it
  induction ms generalizing chain with
  | nil =>
      rw [Fusion.afterChain?, if_pos rfl, List.map_nil, List.flatMap_nil, ofSymbols_nil,
        List.nil_append, Fusion.afterChain?]
      simp only [Catalog.all_accepts hne hchain, ha, hslash, if_true, Bool.false_eq_true, if_false,
        List.append_nil]
  | cons m ms ih =>
      have hm := hms m List.mem_cons_self
      have hmodifier : Fusion.modifierOf? Catalog.default ⟨m.key, none⟩ = some m := by
        rw [Fusion.modifierOf?, Option.isNone_none, if_pos rfl, Catalog.resolve_key hm]
      have haccepts : chain.all (·.accepts m.key) = false := by
        rw [Catalog.all_accepts hne hchain,
          Catalog.accepts_of_resolve (.inl rfl) (Catalog.resolve_key hm)]
      have hmore : ∀ m' ∈ chain ++ [m], Catalog.Known m' := by
        simpa [or_imp, forall_and] using ⟨hchain, hm⟩
      have hih := ih (by simp) hmore fun m' hm' => hms m' (List.mem_cons_of_mem _ hm')
      rw [Fusion.afterChain?, if_pos rfl, List.map_cons, List.flatMap_cons, List.cons_append,
        List.cons_append, List.nil_append, ofSymbols_cons, ofSymbols_cons, List.cons_append,
        Fusion.afterChain?]
      simp only [haccepts, Bool.false_eq_true, if_false, hmodifier]
      rw [List.cons_append, hih, List.append_assoc, List.singleton_append]

/-- Modifiers in front of an ability that accepts them are fused onto it. -/
lemma fusionAt?_modifiers (hc : rules.catalog = Catalog.default) {ms : List Modifier}
    {target : Word} (hne : ms ≠ []) (hms : ∀ m ∈ ms, Catalog.Known m)
    (ha : Catalog.graniteMaul.accepts target.key = true)
    (hslash : Fusion.slashFollows rest' = false) :
    fusionAt? rules true
        (ofSymbols ((ms.map (·.key)).flatMap fun m => [.word ⟨m, none⟩, .plus]) ++
          ⟨.word target, 0, false⟩ :: rest') =
      some ⟨ms.map (·.key), target, rest'⟩ := by
  obtain ⟨m, ms, rfl⟩ := List.exists_cons_of_ne_nil hne
  have hm := hms m List.mem_cons_self
  have hmodifier : Fusion.modifierOf? Catalog.default ⟨m.key, none⟩ = some m := by
    rw [Fusion.modifierOf?, Option.isNone_none, if_pos rfl, Catalog.resolve_key hm]
  rw [fusionAt?, if_pos rfl, hc, List.map_cons, List.flatMap_cons, List.cons_append,
    ofSymbols_cons, List.cons_append, Fusion.at?]
  simp only [hmodifier, Option.bind_some]
  have hone : ∀ m' ∈ [m], Catalog.Known m' := by simpa using hm
  exact afterChain?_modifiers (by simp) hone (fun m' hm' => hms m' (List.mem_cons_of_mem _ hm')) ha
    hslash

lemma slashFollows_tooltips (texts : List String) (ts : List Token) :
    Fusion.slashFollows (ofSymbols (texts.map .tooltip) ++ ⟨.slash, 0, false⟩ :: ts) = true := by
  induction texts with
  | nil => rfl
  | cons text texts ih =>
      rw [List.map_cons, ofSymbols_cons, List.cons_append, Fusion.slashFollows]
      exact ih

/-! ### Reading again -/

/-- That a phrase is read again from `ts'`, in front of tokens `rest'` that end it.  An alternative
also takes in the tooltips with which these begin. -/
def Descent.Phrase.Rereads (rules : Rules) (ts' rest' : List Token) : (p : Phrase) → p.Value → Prop
  | .alternative first, a =>
      Reads rules (.alternative first) ts' (a ++ (markers rest').1) (markers rest').2
  | .expression, ss =>
      Phrase.expression.StopsBefore (Token.first? rest') → Reads rules .expression ts' ss rest'
  | .terms, s => Phrase.terms.StopsBefore (Token.first? rest') → Reads rules .terms ts' s rest'
  | .term first, a =>
      (Phrase.term first).StopsBefore (Token.first? rest') → Reads rules (.term first) ts' a rest'
  | .operand first, a => Reads rules (.operand first) ts' a rest'

/-- What was read of a phrase is read again from its canonical symbols, with the settings of other
labels, in front of any tokens in front of which no more is fused; and in front of these symbols no
more is fused than in front of the tokens of the phrase. -/
def Rereadable (rules : Rules) (p : Phrase) (ts : List Token) (v : p.Value) (rest : List Token) :
    Prop :=
  ∀ rest', NoMoreFused rest rest' → (∀ w, Token.first? rest' ≠ some (.word w)) →
    NoMoreFused ts (ofSymbols (p.symbols v) ++ rest') ∧
      p.Rereads rules (ofSymbols (p.symbols v) ++ rest') rest'
        (p.mapUses (AbilityUse.attach rules.perInstance) v)

namespace Rereadable

variable {after : List Token} {t : Token} {w : Word} {first : Bool}

lemma lastStep {s : Step} (h : Rereadable rules' .terms ts s rest) (ha : isAmbiguous s = false) :
    Rereadable rules' .expression ts [s] rest := by
  intro rest' hrest hword
  obtain ⟨hfuse, hread⟩ := h rest' hrest hword
  have hsymbols : Phrase.expression.symbols [s] = Phrase.terms.symbols s := by
    simp [Phrase.symbols, symbolsOfSteps, List.intercalate]
  rw [hsymbols]
  refine ⟨hfuse, fun hstop => ?_⟩
  have hterms : Phrase.terms.StopsBefore (Token.first? rest') := by
    rcases hstop with hn | hn <;> simp [Phrase.StopsBefore, hn]
  exact .lastStep (hread hterms) ((isAmbiguous_mapUsesOfStep _ s).trans ha) hstop

/-- However a step was separated from those behind it, it is read again with an arrow between. -/
lemma cons_step {s : Step} {ss : List Step} {inner : List Token}
    (hs : Rereadable rules' .terms ts s rest) (ha : isAmbiguous s = false)
    (hss : Rereadable rules' .expression inner ss after)
    (hr : Reads rules .expression inner ss after)
    (harrow : ∀ us, NoMoreFused inner us → NoMoreFused rest (⟨.arrow, 0, false⟩ :: us)) :
    Rereadable rules' .expression ts (s :: ss) after := by
  intro rest' hrest hword
  obtain ⟨hfuse2, hread2⟩ := hss rest' hrest hword
  obtain ⟨hfuse1, hread1⟩ := hs _ (harrow _ hfuse2) (by simp)
  rw [symbols_expression_cons _ hr.steps_ne_nil, ofSymbols_append, List.append_assoc]
  refine ⟨hfuse1, fun hstop => ?_⟩
  exact .arrow (hread1 (by simp [Phrase.StopsBefore])) ((isAmbiguous_mapUsesOfStep _ s).trans ha)
    rfl (startsOperand_ofSymbols hr.exists_symbols rest') (hread2 hstop)

/-- Neither an arrow nor the operand behind a gap is a slash. -/
lemma noMoreFused_gap (ht : t.symbol.startsOperand = true)
    (htip : ∀ text, Token.first? (t :: rest) ≠ some (.tooltip text)) (us : List Token) :
    NoMoreFused (t :: rest) (⟨.arrow, 0, false⟩ :: us) := by
  have hslash : Fusion.slashFollows (t :: rest) = false := by
    rw [Fusion.slashFollows]
    cases hsym : t.symbol with
    | tooltip text => exact absurd (by rw [Token.first?_cons, hsym]) (htip text)
    | slash =>
        rw [hsym] at ht
        cases ht
    | _ => rfl
  exact .of_first? hslash.symm (by simp) (by simp)

lemma lastTerm {a : Term} (h : Rereadable rules' (.term true) ts a rest) :
    Rereadable rules' .terms ts [a] rest := by
  intro rest' hrest hword
  obtain ⟨hfuse, hread⟩ := h rest' hrest hword
  have hsymbols : Phrase.terms.symbols [a] = (Phrase.term true).symbols a := by
    simp [Phrase.symbols, symbolsOfStep, List.intercalate]
  rw [hsymbols]
  exact ⟨hfuse, fun hstop => .lastTerm (hread hstop.2) hstop.1⟩

lemma plus {a : Term} {as : Step} (ha : Rereadable rules' (.term true) ts a (t :: rest))
    (ht : t.symbol = .plus) (has : Rereadable rules' .terms rest as after)
    (hr : Reads rules .terms rest as after) : Rereadable rules' .terms ts (a :: as) after := by
  intro rest' hrest hword
  obtain ⟨hfuse2, hread2⟩ := has rest' hrest hword
  have hfuse : NoMoreFused (t :: rest)
      (⟨.plus, 0, false⟩ :: (ofSymbols (Phrase.terms.symbols as) ++ rest')) :=
    hfuse2.cons ht.symm
  obtain ⟨hfuse1, hread1⟩ := ha _ hfuse (by simp)
  rw [symbols_terms_cons _ hr.terms_ne_nil, ofSymbols_append, List.append_assoc]
  refine ⟨hfuse1, fun hstop => ?_⟩
  exact .plus (hread1 (by simp [Phrase.StopsBefore])) rfl
    (startsOperand_ofSymbols hr.exists_symbols rest') (hread2 hstop)

lemma lastAlternative {a : Term} (h : Rereadable rules' (.alternative first) ts a rest) :
    Rereadable rules' (.term first) ts a rest := by
  intro rest' hrest hword
  obtain ⟨hfuse, hread⟩ := h rest' hrest hword
  refine ⟨hfuse, fun hstop => .lastAlternative ?_ hstop.1⟩
  change Reads _ _ _ (_ ++ (markers rest').1) (markers rest').2 at hread
  rw [markers_eq_self hstop.2, List.append_nil] at hread
  exact hread

/-- The tooltips in front of the next choice come to stand in front of the slash. -/
lemma slash {a as : Term} (ha : Rereadable rules' (.alternative first) ts a (t :: rest))
    (hr : Reads rules (.alternative first) ts a (t :: rest)) (ht : t.symbol = .slash)
    (has : Rereadable rules' (.term false) rest as after)
    (hr' : Reads rules (.term false) rest as after) :
    Rereadable rules' (.term first) ts (a ++ as) after := by
  intro rest' hrest hword
  obtain ⟨-, hread2⟩ := has rest' hrest hword
  obtain ⟨texts, c, back, has', hc⟩ := hr'.hasChoice
  obtain ⟨x, xs, hx, hxstart⟩ := exists_symbols_choice hc
  have hfalse : symbolsOfTerm false as =
      texts.map .tooltip ++ symbolsOfTerm false (c :: back) := by
    rw [has', symbolsOfTerm_markers_append]
  -- the slash is written behind the tooltips in front of the next choice
  have htrue : symbolsOfTerm true as =
      texts.map .tooltip ++ .slash :: symbolsOfTerm false (c :: back) := by
    rw [has', symbolsOfTerm_markers_append, symbolsOfTerm_choice true hc,
      symbolsOfTerm_choice false hc]
    rfl
  have hsymbols : (Phrase.term first).symbols (a ++ as) =
      (Phrase.alternative first).symbols a ++ (texts.map .tooltip ++
        .slash :: symbolsOfTerm false (c :: back)) := by
    show symbolsOfTerm false (a ++ as) = symbolsOfTerm false a ++ _
    rw [symbolsOfTerm_append, hr.hasChoice_alternative.any, Bool.false_or, htrue]
  have hnext : ∀ text, Token.first? (ofSymbols (symbolsOfTerm false (c :: back)) ++ rest') ≠
      some (.tooltip text) := by
    intro text
    rw [symbolsOfTerm_choice false hc, hx]
    rcases hxstart with rfl | ⟨w, rfl⟩ <;> simp
  have hstart : Token.startsOperand
      (ofSymbols (symbolsOfTerm false (c :: back)) ++ rest') = true := by
    refine startsOperand_ofSymbols ⟨x, _, by rw [symbolsOfTerm_choice false hc, hx]; rfl, ?_⟩ rest'
    rcases hxstart with rfl | ⟨w, rfl⟩ <;> rfl
  -- what follows is no word in both lists, and the slash is seen through the tooltips
  have hfuse : NoMoreFused (t :: rest) (ofSymbols (texts.map .tooltip) ++
      ⟨.slash, 0, false⟩ :: (ofSymbols (symbolsOfTerm false (c :: back)) ++ rest')) :=
    .of_first? (by rw [slashFollows_tooltips, Fusion.slashFollows, ht])
      (by cases texts <;> simp) (by cases texts <;> simp)
  obtain ⟨hfuse1, hread1⟩ := ha _ hfuse (by cases texts <;> simp)
  change Reads _ _ _ (_ ++ (markers _).1) (markers _).2 at hread1
  rw [markers_ofSymbols_append, markers_eq_self (by simp), List.append_nil] at hread1
  rw [hsymbols, ofSymbols_append, ofSymbols_append, ofSymbols_cons, List.append_assoc,
    List.append_assoc, List.cons_append]
  -- the tooltips are read with the alternative before the slash, not with the next one
  refine ⟨hfuse1, fun hstop => ?_⟩
  have hread2 : Reads rules' (.term false) (ofSymbols (symbolsOfTerm false as) ++ rest')
      (mapUsesOfTerm (AbilityUse.attach rules'.perInstance) as) rest' := hread2 hstop
  rw [hfalse, ofSymbols_append, List.append_assoc, has', mapUsesOfTerm_append,
    mapUsesOfTerm_markers] at hread2
  have hslash := Reads.slash hread1 rfl hstart (hread2.drop_tooltips hnext)
  show Reads rules' (.term first) _ (mapUsesOfTerm _ (a ++ as)) _
  rw [has', mapUsesOfTerm_append, mapUsesOfTerm_append, mapUsesOfTerm_markers,
    ← List.append_assoc (mapUsesOfTerm _ a)]
  exact hslash

lemma alternative {a : Alternative}
    (h : Rereadable rules' (.operand first) (markers ts).2 a after)
    (hr : Reads rules (.operand first) (markers ts).2 a after) :
    Rereadable rules' (.alternative first) ts ((markers ts).1 ++ a :: (markers after).1)
      (markers after).2 := by
  intro rest' hrest hword
  obtain ⟨front, hfront, hts⟩ := exists_markers ts
  obtain ⟨back, hback, hafter⟩ := exists_markers after
  have hnoword : ∀ w, Token.first? (ofSymbols (back.map .tooltip) ++ rest') ≠ some (.word w) := by
    cases back with
    | nil => exact hword
    | cons text back => simp
  obtain ⟨hfuse, hread⟩ := h _ (hrest.append hafter) hnoword
  have hsymbols : (Phrase.alternative first).symbols ((markers ts).1 ++ a :: (markers after).1) =
      front.map .tooltip ++ ((Phrase.operand first).symbols a ++ back.map .tooltip) := by
    show symbolsOfTerm false _ = _ ++ (a.symbols ++ _)
    rw [hfront, hback, symbolsOfTerm_markers_append, symbolsOfTerm_choice _ hr.isChoice,
      symbolsOfTerm_markers]
    rfl
  rw [hsymbols, ofSymbols_append, ofSymbols_append, List.append_assoc, List.append_assoc]
  refine ⟨hfuse.append hts, ?_⟩
  obtain ⟨x, xs, hx, hxstart⟩ := exists_symbols_choice hr.isChoice
  have hnext : ∀ text, Token.first? (ofSymbols ((Phrase.operand first).symbols a) ++
      (ofSymbols (back.map .tooltip) ++ rest')) ≠ some (.tooltip text) := by
    intro text
    rw [show (Phrase.operand first).symbols a = x :: xs from hx]
    rcases hxstart with rfl | ⟨w, rfl⟩ <;> simp
  have hmarkers : markers (ofSymbols (front.map .tooltip) ++
      (ofSymbols ((Phrase.operand first).symbols a) ++
        (ofSymbols (back.map .tooltip) ++ rest'))) =
      (front.map (.marker ·), ofSymbols ((Phrase.operand first).symbols a) ++
        (ofSymbols (back.map .tooltip) ++ rest')) := by
    rw [markers_ofSymbols_append, markers_eq_self hnext, List.append_nil]
  have halternative := Reads.between hmarkers hread (markers_ofSymbols_append back rest')
  show Reads rules' (.alternative first) _
    (mapUsesOfTerm _ ((markers ts).1 ++ a :: (markers after).1) ++ _) _
  rw [hfront, hback, mapUsesOfTerm_append, mapUsesOfTerm_markers, mapUsesOfTerm,
    mapUsesOfTerm_markers, List.append_assoc, List.cons_append]
  exact halternative

lemma fused (hc : rules.catalog = Catalog.default) (hc' : rules'.catalog = Catalog.default)
    (h : Arranged (SuitsText names) behind (Token.symbols (t :: rest))) (ht : t.symbol = .word w)
    {f : Fusion} {u : AbilityUse} (hf : fusionAt? rules first (t :: rest) = some f)
    (hu : AbilityUse.build f.target.key f.modifiers none f.target.label = .ok u) :
    Rereadable rules' (.operand first) (t :: rest) (.ability u) f.rest := by
  intro rest' hrest hword
  obtain ⟨ms, hne, hms, hmods, haccepts, hslash⟩ := exists_of_fusionAt? hc hf
  obtain ⟨hblank, -, rfl⟩ := AbilityUse.build_eq_ok_iff.mp hu
  obtain ⟨htarget, -⟩ := arranged_fusionAt? hf h
  obtain rfl : first = true := by
    cases first with
    | true => rfl
    | false => cases hf
  have hslash' : Fusion.slashFollows rest' = false := hrest.slash.trans hslash
  have hfusion := fusionAt?_modifiers hc' hne hms haccepts hslash'
  have hsymbols : (Phrase.operand true).symbols
      (.ability ⟨f.target.key, f.modifiers, none, f.target.label⟩) =
      (ms.map (·.key)).flatMap (fun m => [.word ⟨m, none⟩, .plus]) ++ [.word f.target] := by
    show AbilityUse.symbols _ = _
    rw [AbilityUse.symbols, hmods,
      show (⟨f.target.key, f.target.label⟩ : Word) = f.target from rfl, htarget.pieces]
    rfl
  obtain ⟨m, ms, rfl⟩ := List.exists_cons_of_ne_nil hne
  have hattach : AbilityUse.attach rules'.perInstance
      ⟨f.target.key, f.modifiers, none, f.target.label⟩ =
      ⟨f.target.key, f.modifiers, none, f.target.label⟩ := by
    simp [AbilityUse.attach, hmods]
  rw [hsymbols, ofSymbols_append, List.append_assoc]
  constructor
  · rw [List.map_cons, List.flatMap_cons, List.cons_append, ofSymbols_cons, List.cons_append]
    exact .of_fusionAt? hc ht rfl hf
  · show Reads rules' (.operand true) _ (.ability (AbilityUse.attach _ _)) rest'
    rw [hattach, hmods]
    exact .fused (t := ⟨.word ⟨m.key, none⟩, 0, false⟩)
      (f := ⟨(m :: ms).map Modifier.key, f.target, rest'⟩) rfl hfusion
      (AbilityUse.build_eq_ok_iff.mpr ⟨hblank, .inr rfl, rfl⟩)

lemma plain (hc : rules.catalog = Catalog.default) (hc' : rules'.catalog = Catalog.default)
    (hmode : rules'.adjacentWords = rules.adjacentWords)
    (h : Arranged (SuitsText names) behind (Token.symbols (t :: rest))) (ht : t.symbol = .word w)
    {u : AbilityUse} (hf : fusionAt? rules first (t :: rest) = none)
    (hu : plainUse rules (plainWord rules w rest).1 = .ok u) :
    Rereadable rules' (.operand first) (t :: rest) (.ability u) (plainWord rules w rest).2 := by
  intro rest' hrest hword
  obtain ⟨vs, hjoin, hplain, hvs⟩ := exists_plainWord rules w rest
  obtain ⟨hblank, -, rfl⟩ := AbilityUse.build_eq_ok_iff.mp hu
  have hwords : Arranged (SuitsText names) behind
      ((w :: vs).map .word ++ Token.symbols (plainWord rules w rest).2) := by
    rw [Token.symbols_cons, ht, hvs] at h
    exact h
  have hsymbols : (Phrase.operand first).symbols (.ability ⟨(plainWord rules w rest).1.key, [],
      (plainWord rules w rest).1.label.bind rules.perInstance.get?,
      (plainWord rules w rest).1.label⟩) = (w :: vs).map .word := by
    rw [hplain]
    exact symbols_of_words hwords hjoin _
  have hfuse : NoMoreFused rest (ofSymbols (vs.map .word) ++ rest') := hrest.append hvs
  rw [hsymbols, List.map_cons, ofSymbols_cons, List.cons_append]
  refine ⟨hfuse.cons ht.symm, ?_⟩
  have hplain' : plainWord rules' w (ofSymbols (vs.map .word) ++ rest') =
      (w.joinAll vs, rest') :=
    plainWord_append (by rw [hmode]; exact hjoin) (symbols_ofSymbols _) hword
  have hnone : fusionAt? rules' first
      (⟨.word w, 0, false⟩ :: (ofSymbols (vs.map .word) ++ rest')) = none :=
    hfuse.fusionAt?_eq_none hc hc' ht.symm hf
  have hread := Reads.plain rfl hnone
    (AbilityUse.build_eq_ok_iff.mpr ⟨by rw [hplain', ← hplain]; exact hblank, .inl rfl, rfl⟩)
  rw [hplain'] at hread
  show Reads rules' (.operand first) _ (.ability (AbilityUse.attach _ _)) rest'
  rw [hplain]
  exact hread

lemma group {ss : List Step} {u : Token} (ht : t.symbol = .opening)
    (hss : Rereadable rules' .expression rest ss (u :: after))
    (hr : Reads rules .expression rest ss (u :: after)) (hu : u.symbol = .closing) :
    Rereadable rules' (.operand first) (t :: rest) (.group ss Table.empty) after := by
  intro rest' hrest hword
  have hfuse : NoMoreFused (u :: after) (⟨.closing, 0, false⟩ :: rest') :=
    .of_first? (by rw [Fusion.slashFollows, Fusion.slashFollows, hu]) (by simp) (by simp)
  obtain ⟨-, hread⟩ := hss _ hfuse (by simp)
  have hsymbols : (Phrase.operand first).symbols (.group ss Table.empty) =
      .opening :: (Phrase.expression.symbols ss ++ [.closing]) := by
    show Alternative.symbols (.group ss Table.empty) = _
    rw [Alternative.symbols]
    rfl
  rw [hsymbols, ofSymbols_cons, ofSymbols_append, List.cons_append, List.append_assoc]
  refine ⟨.of_first? (by rw [Fusion.slashFollows, Fusion.slashFollows, ht]) (by simp) (by simp),
    ?_⟩
  refine .group rfl ?_ (hread (.inr rfl)) rfl
  obtain ⟨s, symbols, hs, hstart⟩ := hr.exists_symbols
  rw [hs]
  rintro heq
  cases heq
  cases hstart

end Rereadable

/-- What is read is read again from its canonical symbols, with the settings of other labels. -/
theorem Descent.Reads.rereadable (hc : rules.catalog = Catalog.default)
    (hc' : rules'.catalog = Catalog.default)
    (hmode : rules'.adjacentWords = rules.adjacentWords) {p : Phrase} {v : p.Value}
    (hr : Reads rules p ts v rest) (h : Arranged (SuitsText names) behind (Token.symbols ts)) :
    Rereadable rules' p ts v rest := by
  induction hr generalizing behind with
  | lastStep hs ha hend ih => exact (ih h).lastStep ha
  | arrow hs ha ht hstart hss ih1 ih2 =>
      exact (ih1 h).cons_step ha (ih2 (hs.arranged_rest h).2) hss fun us hus => hus.cons ht.symm
  | gap hs ha ht hm hss ih1 ih2 =>
      have htip := hs.first?_ne_tooltip (by simp)
      exact (ih1 h).cons_step ha (ih2 (hs.arranged_rest h)) hss fun us _ =>
        Rereadable.noMoreFused_gap ht htip us
  | lastTerm ha hnext ih => exact (ih h).lastTerm
  | plus ha ht hstart has ih1 ih2 => exact (ih1 h).plus ht (ih2 (ha.arranged_rest h).2) has
  | lastAlternative ha hnext ih => exact (ih h).lastAlternative
  | slash ha ht hstart has ih1 ih2 =>
      exact (ih1 h).slash ha ht (ih2 (ha.arranged_rest h).2) has
  | alternative ha ih => exact (ih (arranged_markers h)).alternative ha
  | fused ht hf hu => exact .fused hc hc' h ht hf hu
  | plain ht hf hu => exact .plain hc hc' hmode h ht hf hu
  | group ht hne hss hu ih => exact .group ht (ih h.2) hss hu

/-- **Canonical symbols are read as what they stand for.**  Steps that are read from arranged tokens
are read again from their canonical symbols, with the settings that the labels have then. -/
theorem reread_steps (hc : rules.catalog = Catalog.default) (hc' : rules'.catalog = Catalog.default)
    (hmode : rules'.adjacentWords = rules.adjacentWords) {steps : List Step}
    (hr : Reads rules .expression ts steps [])
    (h : Arranged (SuitsText names) behind (Token.symbols ts)) :
    Reads rules' .expression (ofSymbols (Phrase.expression.symbols steps))
      (mapUsesOfSteps (AbilityUse.attach rules'.perInstance) steps) [] := by
  have hfuse : NoMoreFused [] [] := .of_first? rfl (by simp) (by simp)
  have hread := (hr.rereadable hc hc' hmode h [] hfuse (by simp)).2 (.inl rfl)
  rw [List.append_nil] at hread
  exact hread

end AbilityRotation
