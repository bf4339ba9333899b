import AbilityRotation.Proofs.Canonical.Rereading
import AbilityRotation.Proofs.Descent.Fusions

/-!
Which modifiers are known does not decide what can be read.

Fusion draws several words into one alternative, and with them the terms and steps that they would
be.  So two catalogs cut the same tokens into different terms.  What stays the same is how an
expression is passed from one term to the next: a term is refused for its alternatives only if a
plus stands on both sides of it, and nothing that is fused has alternatives.
* `Descent.Passes`: an expression is passed term by term, where all that is remembered is whether a
  plus stands before the term, or may stand behind it.
* `exists_reads_iff_passes`: an expression can be read exactly if it can be passed.
* `passes_chain`: without known modifiers, the words of a fusion are passed one after the other.
* `passes_iff_bare`: so what is passed with a catalog is passed without one.
* `stepsOfTokens_catalog_iff`: the result for all tokens.
-/

namespace AbilityRotation

namespace Descent

variable {rules rules' : Rules} {ts rest after : List Token}

/-! ### Choices -/

lemma length_choices_between {a : Alternative} (ha : a.isChoice = true) (front back : List Token) :
    (Term.choices ((markers front).1 ++ a :: (markers back).1)).length = 1 := by
  obtain ⟨texts, htexts, -⟩ := exists_markers front
  obtain ⟨texts', htexts', -⟩ := exists_markers back
  have hcons : ∀ t : Term, Term.choices (a :: t) = a :: t.choices := fun t =>
    List.filter_cons_of_pos ha
  rw [htexts, htexts', Derivation.choices_append, hcons, Derivation.choices_markers,
    Derivation.choices_markers]
  rfl

/-- An alternative offers one choice. -/
lemma Reads.length_choices {first : Bool} {a : Term}
    (h : Reads rules (.alternative first) ts a rest) : (Term.choices a).length = 1 := by
  cases h with
  | alternative ha => exact length_choices_between ha.isChoice _ _

/-! ### Passing an expression -/

/-- Where one stands in an expression. -/
inductive Spot where
  /-- In front of a term; `behindPlus` says whether a plus stands before it. -/
  | before (behindPlus : Bool)
  /-- Behind a term; `mayPlus` says whether a plus may follow. -/
  | behind (mayPlus : Bool)

/-- Whether an expression can be passed from a spot in front of the first tokens up to the last
ones.  Behind a plus, a term with several choices must be the last of its step. -/
inductive Passes (rules : Rules) : Spot → List Token → List Token → Prop
  /-- A term. -/
  | term {b ts a rest after} (ha : Reads rules (.term true) ts a rest)
      (h : Passes rules (.behind (!b || decide ((Term.choices a).length ≤ 1))) rest after) :
      Passes rules (.before b) ts after
  /-- The end of the expression. -/
  | stop {q ts} (hend : EndsExpression ts) : Passes rules (.behind q) ts ts
  /-- An arrow. -/
  | arrow {q t ts after} (ht : t.symbol = .arrow) (hstart : Token.startsOperand ts = true)
      (h : Passes rules (.before false) ts after) : Passes rules (.behind q) (t :: ts) after
  /-- Nothing, where the next step begins. -/
  | gap {q t ts after} (ht : t.symbol.startsOperand = true)
      (h : Passes rules (.before false) (t :: ts) after) : Passes rules (.behind q) (t :: ts) after
  /-- A plus. -/
  | plus {t ts after} (ht : t.symbol = .plus) (hstart : Token.startsOperand ts = true)
      (h : Passes rules (.before true) ts after) : Passes rules (.behind true) (t :: ts) after

/-- Whether the terms between the first and the last, and with a plus in front also the first, offer
no more than one choice. -/
def SingleInside : (behindPlus : Bool) → Step → Prop
  | _, [] => True
  | _, [_] => True
  | b, a :: a' :: as =>
      (b = true → (Term.choices a).length ≤ 1) ∧ SingleInside true (a' :: as)

lemma singleInside_true {s : Step} :
    SingleInside true s ↔ ∀ a ∈ s.dropLast, (Term.choices a).length ≤ 1 := by
  induction s with
  | nil => simp [SingleInside]
  | cons a s ih =>
      cases s with
      | nil => simp [SingleInside]
      | cons a' s => simp [SingleInside, ih]

/-- A step is not ambiguous if its inner terms offer one choice. -/
lemma isAmbiguous_iff_singleInside {s : Step} :
    isAmbiguous s = false ↔ SingleInside false s := by
  have hbetween : isAmbiguous s = false ↔
      ∀ a ∈ (s.drop 1).dropLast, (Term.choices a).length ≤ 1 := by
    simp [isAmbiguous]
  rw [hbetween]
  cases s with
  | nil => simp [SingleInside]
  | cons a s =>
      cases s with
      | nil => simp [SingleInside]
      | cons a' as =>
          rw [List.drop_one, List.tail_cons, ← singleInside_true]
          simp [SingleInside]

/-- Whether a step that leaves the tokens `ts` is one of an expression that leaves `after`. -/
def Resumes (rules : Rules) (ts after : List Token) : Prop :=
  ∀ us s, Reads rules .terms us s ts → isAmbiguous s = false →
    ∃ ss, Reads rules .expression us ss after

/-- Terms that are passed are the terms of a step. -/
lemma passes_of_terms {s : Step} {mid : List Token}
    (hmid : ∀ q, Token.first? mid ≠ some .plus → Passes rules (.behind q) mid after) :
    ∀ {ts b}, Reads rules .terms ts s mid → SingleInside b s →
      Passes rules (.before b) ts after := by
  induction s with
  | nil =>
      intro ts b h
      exact absurd rfl h.terms_ne_nil
  | cons a as ih =>
      intro ts b h hs
      cases h with
      | lastTerm ha hnext => exact .term ha (hmid _ hnext)
      | plus ha ht hstart has =>
          refine .term ha ?_
          obtain ⟨a', as, rfl⟩ := List.exists_cons_of_ne_nil has.terms_ne_nil
          have hfree : (!b || decide ((Term.choices a).length ≤ 1)) = true := by
            cases b with
            | false => rfl
            | true => simpa using hs.1 rfl
          rw [hfree]
          exact .plus ht hstart (ih has hs.2)

lemma passes_of_expression {ss : List Step} :
    ∀ {ts}, Reads rules .expression ts ss after → Passes rules (.before false) ts after := by
  induction ss with
  | nil =>
      intro ts h
      exact absurd rfl h.steps_ne_nil
  | cons s ss ih =>
      intro ts h
      cases h with
      | lastStep hs ha hend =>
          exact passes_of_terms (fun _ _ => .stop hend) hs (isAmbiguous_iff_singleInside.mp ha)
      | arrow hs ha ht hstart hss =>
          exact passes_of_terms (fun _ _ => .arrow ht hstart (ih hss)) hs
            (isAmbiguous_iff_singleInside.mp ha)
      | gap hs ha ht _ hss =>
          exact passes_of_terms (fun _ _ => .gap ht (ih hss)) hs
            (isAmbiguous_iff_singleInside.mp ha)

/-- Whether terms begin here that end a step which can be resumed. -/
def BeginsTerms (rules : Rules) (behindPlus : Bool) (ts after : List Token) : Prop :=
  ∃ s mid, Reads rules .terms ts s mid ∧ SingleInside behindPlus s ∧ Resumes rules mid after

/-- What passing from a spot says about reading: in front of a term, terms begin; behind a term, its
step can be resumed, or it goes on behind a plus. -/
def Spot.Readable (rules : Rules) : Spot → List Token → List Token → Prop
  | .before b, ts, after => BeginsTerms rules b ts after
  | .behind q, ts, after =>
      (Token.first? ts ≠ some .plus ∧ Resumes rules ts after) ∨
        q = true ∧ ∃ t us, ts = t :: us ∧ t.symbol = .plus ∧ Token.startsOperand us = true ∧
          BeginsTerms rules true us after

/-- In front of a term, an expression begins. -/
lemma Spot.Readable.exists_expression (h : (Spot.before false).Readable rules ts after) :
    ∃ ss, Reads rules .expression ts ss after := by
  obtain ⟨s, mid, hs, hsingle, hmid⟩ := h
  exact hmid ts s hs (isAmbiguous_iff_singleInside.mpr hsingle)

lemma Passes.readable (hmode : rules.adjacentWords ≠ .error) {spot : Spot}
    (h : Passes rules spot ts after) : spot.Readable rules ts after := by
  induction h with
  | @term b ts a rest after ha _ ih =>
      rcases ih with ⟨hnext, hrest⟩ | ⟨hfree, t, us, rfl, ht, hstart, s, mid, hs, hsingle, hmid⟩
      · exact ⟨[a], rest, .lastTerm ha hnext, trivial, hrest⟩
      · refine ⟨a :: s, mid, .plus ha ht hstart hs, ?_, hmid⟩
        obtain ⟨a', s, rfl⟩ := List.exists_cons_of_ne_nil hs.terms_ne_nil
        exact ⟨fun hb => by simpa [hb] using hfree, hsingle⟩
  | stop hend =>
      refine .inl ⟨by rcases hend with h | h <;> simp [h], fun us s hs ha => ?_⟩
      exact ⟨[s], .lastStep hs ha hend⟩
  | arrow ht hstart _ ih =>
      obtain ⟨ss, hss⟩ := ih.exists_expression
      exact .inl ⟨by simp [ht], fun us s hs ha => ⟨s :: ss, .arrow hs ha ht hstart hss⟩⟩
  | @gap q t ts after ht _ ih =>
      obtain ⟨ss, hss⟩ := ih.exists_expression
      refine .inl ⟨?_, fun us s hs ha => ⟨s :: ss, .gap hs ha ht hmode hss⟩⟩
      rw [Token.first?_cons, ne_eq, Option.some.injEq]
      intro hplus
      rw [hplus] at ht
      cases ht
  | plus ht hstart _ ih =>
      exact .inr ⟨rfl, _, _, rfl, ht, hstart, ih⟩

/-- An expression can be read exactly if it can be passed. -/
theorem exists_reads_iff_passes (hmode : rules.adjacentWords ≠ .error) :
    (∃ ss, Reads rules .expression ts ss after) ↔ Passes rules (.before false) ts after :=
  ⟨fun ⟨_, h⟩ => passes_of_expression h, fun h => (h.readable hmode).exists_expression⟩

/-! ### Passing a term -/

lemma passes_before {b : Bool} :
    Passes rules (.before b) ts after ↔ ∃ a rest, Reads rules (.term true) ts a rest ∧
      Passes rules (.behind (!b || decide ((Term.choices a).length ≤ 1))) rest after := by
  constructor
  · intro h
    cases h with
    | term ha h => exact ⟨_, _, ha, h⟩
  · rintro ⟨a, rest, ha, h⟩
    exact .term ha h

/-- An ability without alternatives is passed with the tooltips around it, and a plus may follow. -/
lemma passes_ability {b : Bool} {u : AbilityUse}
    (h : Reads rules (.operand true) (markers ts).2 (.ability u) rest)
    (hslash : Fusion.slashFollows rest = false) :
    Passes rules (.before b) ts after ↔ Passes rules (.behind true) (markers rest).2 after := by
  have hnext : Token.first? (markers rest).2 ≠ some .slash := by
    rw [ne_eq, ← Fusion.slashFollows_eq, hslash]
    exact Bool.false_ne_true
  have hterm : Reads rules (.term true) ts ((markers ts).1 ++ .ability u :: (markers rest).1)
      (markers rest).2 := .lastAlternative (.alternative h) hnext
  have hfree : (!b || decide ((Term.choices
      ((markers ts).1 ++ .ability u :: (markers rest).1)).length ≤ 1)) = true := by
    rw [length_choices_between rfl]
    simp
  rw [passes_before]
  constructor
  · rintro ⟨a, mid, ha, hpass⟩
    obtain ⟨rfl, rfl⟩ := ha.unique hterm
    rwa [hfree] at hpass
  · intro hpass
    exact ⟨_, _, hterm, by rwa [hfree]⟩

/-- In front of a word no more than a gap is passed. -/
lemma passes_gap {q : Bool} {t : Token} {w : Word} (ht : t.symbol = .word w) :
    Passes rules (.behind q) (t :: ts) after ↔ Passes rules (.before false) (t :: ts) after := by
  constructor
  · intro h
    cases h with
    | stop hend => rcases hend with hend | hend <;> simp [ht] at hend
    | arrow h' _ _ | plus h' _ _ =>
        rw [ht] at h'
        cases h'
    | gap _ h => exact h
  · intro h
    exact .gap (by rw [ht]; rfl) h

/-- At a plus in front of an operand, the plus is passed. -/
lemma passes_plus {t : Token} (ht : t.symbol = .plus) (hstart : Token.startsOperand ts = true) :
    Passes rules (.behind true) (t :: ts) after ↔ Passes rules (.before true) ts after := by
  constructor
  · intro h
    cases h with
    | stop hend => rcases hend with hend | hend <;> simp [ht] at hend
    | arrow h' _ _ | gap h' _ =>
        rw [ht] at h'
        cases h'
    | plus _ _ h => exact h
  · intro h
    exact .plus ht hstart h

/-! ### Passing what is fused elsewhere -/

variable {c : Catalog} {f : Fusion}

/-- A word where nothing is fused and no alternative follows is passed. -/
lemma passes_word (hmode : rules.adjacentWords = .steps) {b : Bool} {t : Token} {w : Word}
    (hts : (markers ts).2 = t :: rest) (ht : t.symbol = .word w)
    (hw : Text.isBlankText w.key = false) (hnone : fusionAt? rules true (t :: rest) = none)
    (hslash : Fusion.slashFollows rest = false) :
    Passes rules (.before b) ts after ↔ Passes rules (.behind true) (markers rest).2 after := by
  have hplain : plainWord rules w rest = (w, rest) := plainWord_eq (by simp [hmode]) w rest
  have hread : Reads rules (.operand true) (t :: rest)
      (.ability ⟨w.key, [], w.label.bind rules.perInstance.get?, w.label⟩)
      (plainWord rules w rest).2 :=
    .plain ht hnone (by rw [hplain]; exact AbilityUse.build_eq_ok_iff.mpr ⟨hw, .inl rfl, rfl⟩)
  rw [hplain, ← hts] at hread
  exact passes_ability hread hslash

/-- No tooltip stands before what a chain of modifiers goes on with. -/
lemma markers_eq_self_of_afterChain? {ms : List Modifier} {mayPlus : Bool}
    (h : Fusion.afterChain? c ms mayPlus ts = some f) : markers ts = ([], ts) := by
  refine markers_eq_self fun text => ?_
  rcases Fusion.first?_of_afterChain? h with hplus | ⟨w, hw⟩
  · simp [hplus]
  · simp [hw]

/-- Nor does a slash. -/
lemma slashFollows_eq_false_of_afterChain? {ms : List Modifier} {mayPlus : Bool}
    (h : Fusion.afterChain? c ms mayPlus ts = some f) : Fusion.slashFollows ts = false := by
  rw [← Bool.not_eq_true, Fusion.slashFollows_eq, markers_eq_self_of_afterChain? h]
  rcases Fusion.first?_of_afterChain? h with hplus | ⟨w, hw⟩
  · simp [hplus]
  · simp [hw]

/-- **The words of a fusion are passed one after the other** where no modifiers are known.  The
induction is on the tokens behind the chain of modifiers. -/
lemma passes_chain (hmode : rules.adjacentWords = .steps)
    (hbare : ∀ ts, fusionAt? rules true ts = none) {ms : List Modifier} {mayPlus : Bool}
    (hne : ms ≠ []) (h : Fusion.afterChain? c ms mayPlus ts = some f) :
    Passes rules (if mayPlus then .behind true else .before true) ts after ↔
      Passes rules (.behind true) (markers f.rest).2 after := by
  have hbefore : ∀ {mayPlus : Bool} {t : Token} {w : Word} {ts : List Token} {P : Prop},
      t.symbol = .word w → (∀ b, Passes rules (.before b) (t :: ts) after ↔ P) →
        (Passes rules (if mayPlus then .behind true else .before true) (t :: ts) after ↔ P) := by
    intro mayPlus t w ts P ht hP
    cases mayPlus with
    | true => exact (passes_gap ht).trans (hP false)
    | false => exact hP true
  have hself : ∀ {t : Token} {w : Word} {ts : List Token}, t.symbol = .word w →
      (markers (t :: ts)).2 = t :: ts := fun ht => by rw [markers_eq_self (by simp [ht])]
  -- word by word: a modifier read as an ability leads to the next one, with or without a plus
  induction h using Fusion.afterChain?_induct with
  | @plus ms t ts ht hf _ ih =>
      have hstart : Token.startsOperand ts = true := by
        rw [Token.startsOperand_eq]
        rcases Fusion.first?_of_afterChain? hf with h' | ⟨w, h'⟩
        · cases ts with
          | nil => cases h'
          | cons t' ts =>
              rw [Token.first?_cons, Option.some.injEq] at h'
              rw [Fusion.afterChain?, h'] at hf
              cases hf
        · rw [h']
          rfl
      rw [if_pos rfl, passes_plus ht hstart]
      exact ih hne
  | target ht _ hslash _ h =>
      have hw := (Fusion.target_of_afterChain? hne h).1
      exact hbefore ht fun _ => passes_word hmode (hself ht) ht hw (hbare _) hslash
  | @modifier ms _ t w m ts ht _ hm hf _ ih =>
      have hw := Catalog.isBlankText_of_resolve (modifierOf?_eq_some.mp hm).2
      refine hbefore ht fun _ => (passes_word hmode (hself ht) ht hw (hbare _)
        (slashFollows_eq_false_of_afterChain? hf)).trans ?_
      rw [markers_eq_self_of_afterChain? hf]
      exact ih (by simp)

/-! ### The same passages with and without modifiers -/

/-- Where nothing is fused, a term is read with other rules if the groups in it are. -/
lemma Reads.transfer (hmode : rules'.adjacentWords = rules.adjacentWords)
    (hp : rules'.perInstance = rules.perInstance) {n : ℕ}
    (hgroup : ∀ us after, us.length < n → (∃ ss, Reads rules .expression us ss after) →
      ∃ ss, Reads rules' .expression us ss after)
    {first : Bool} {a : Term} (h : Reads rules (.term first) ts a rest) (hn : ts.length ≤ n)
    (hnone : fusionAt? rules first (markers ts).2 = none)
    (hnone' : fusionAt? rules' first (markers ts).2 = none) :
    ∃ a', Reads rules' (.term first) ts a' rest ∧
      (Term.choices a').length = (Term.choices a).length := by
  have hoperand : ∀ {first us o rest}, Reads rules (.operand first) us o rest → us.length ≤ n →
      fusionAt? rules first us = none → fusionAt? rules' first us = none →
        ∃ o', Reads rules' (.operand first) us o' rest := by
    intro first us o rest ho hn hnone hnone'
    cases ho with
    | fused ht hf hu => cases hf.symm.trans hnone
    | @plain _ t w us u ht hf hu =>
        have hsame : plainWord rules w us = plainWord rules' w us := by
          rw [plainWord, plainWord, hmode]
        rw [hsame, plainUse, ← hp] at hu
        rw [hsame]
        exact ⟨_, .plain ht hnone' hu⟩
    | group ht hne hss hu =>
        obtain ⟨ss', hss'⟩ := hgroup _ _ (Nat.lt_of_succ_le hn) ⟨_, hss⟩
        exact ⟨_, .group ht hne hss' hu⟩
  have halternative : ∀ {first us a rest}, Reads rules (.alternative first) us a rest →
      us.length ≤ n → fusionAt? rules first (markers us).2 = none →
        fusionAt? rules' first (markers us).2 = none →
          ∃ a', Reads rules' (.alternative first) us a' rest := by
    intro first us a rest ha hn hnone hnone'
    cases ha with
    | alternative ho =>
        obtain ⟨o', ho'⟩ := hoperand ho (le_trans (length_markers_le us) hn) hnone hnone'
        exact ⟨_, .alternative ho'⟩
  induction h using Reads.term_induct with
  | last ha hnext =>
      obtain ⟨a', ha'⟩ := halternative ha hn hnone hnone'
      exact ⟨a', .lastAlternative ha' hnext, by rw [ha'.length_choices, ha.length_choices]⟩
  | @slash first ts a t us as after ha ht hstart has ih =>
      obtain ⟨a', ha'⟩ := halternative ha hn hnone hnone'
      have hlt := ha.length_lt
      rw [List.length_cons] at hlt
      obtain ⟨as', has', hlength⟩ := ih (by omega) rfl rfl
      refine ⟨a' ++ as', .slash ha' ht hstart has', ?_⟩
      rw [Derivation.choices_append, Derivation.choices_append, List.length_append,
        List.length_append, hlength, ha'.length_choices, ha.length_choices]

/-- Behind a term, the same is passed with other rules if the same is passed in front of terms. -/
lemma passes_behind_congr {q : Bool}
    (h : ∀ us b, us.length ≤ ts.length →
      (Passes rules (.before b) us after ↔ Passes rules' (.before b) us after)) :
    Passes rules (.behind q) ts after ↔ Passes rules' (.behind q) ts after := by
  constructor
  · intro hpass
    cases hpass with
    | stop hend => exact .stop hend
    | arrow ht hstart hpass => exact .arrow ht hstart ((h _ _ (Nat.le_succ _)).mp hpass)
    | gap ht hpass => exact .gap ht ((h _ _ le_rfl).mp hpass)
    | plus ht hstart hpass => exact .plus ht hstart ((h _ _ (Nat.le_succ _)).mp hpass)
  · intro hpass
    cases hpass with
    | stop hend => exact .stop hend
    | arrow ht hstart hpass => exact .arrow ht hstart ((h _ _ (Nat.le_succ _)).mpr hpass)
    | gap ht hpass => exact .gap ht ((h _ _ le_rfl).mpr hpass)
    | plus ht hstart hpass => exact .plus ht hstart ((h _ _ (Nat.le_succ _)).mpr hpass)

/-- **With and without modifiers, the same is passed.**  The induction is on the number of tokens:
where nothing is fused, the same term is read both times but for the groups in it; where something
is fused, its words are passed one after the other without modifiers. -/
theorem passes_iff_bare (hmode : rules.adjacentWords = .steps) {b : Bool} :
    Passes rules (.before b) ts after ↔
      Passes { rules with catalog := Catalog.empty } (.before b) ts after := by
  induction hk : ts.length using Nat.strong_induction_on generalizing ts after b with
  | _ k ih =>
  subst hk
  obtain ⟨bare, hbare⟩ : ∃ bare : Rules, bare = { rules with catalog := Catalog.empty } := ⟨_, rfl⟩
  rw [← hbare] at ih ⊢
  have hsame : bare.adjacentWords = rules.adjacentWords := by rw [hbare]
  have hinstance : bare.perInstance = rules.perInstance := by rw [hbare]
  have hmode' : bare.adjacentWords = .steps := hsame.trans hmode
  have hnone' : ∀ us, fusionAt? bare true us = none := fusionAt?_empty (by rw [hbare]) true
  -- on fewer tokens both rules agree, within groups and behind operands
  have hbehind : ∀ {q us after}, us.length < ts.length →
      (Passes rules (.behind q) us after ↔ Passes bare (.behind q) us after) := fun hus =>
    passes_behind_congr fun vs b hvs => ih vs.length (lt_of_le_of_lt hvs hus) rfl
  have hgroup : ∀ us after, us.length < ts.length →
      ((∃ ss, Reads rules .expression us ss after) ↔ ∃ ss, Reads bare .expression us ss after) := by
    intro us after hus
    rw [exists_reads_iff_passes (by simp [hmode]), exists_reads_iff_passes (by simp [hmode'])]
    exact ih us.length hus rfl
  cases hf : fusionAt? rules true (markers ts).2 with
  | none =>
      rw [passes_before, passes_before]
      constructor
      · rintro ⟨a, rest, ha, hpass⟩
        obtain ⟨a', ha', hlength⟩ := ha.transfer hsame hinstance
          (fun us after hus => (hgroup us after hus).mp) le_rfl hf (hnone' _)
        exact ⟨a', rest, ha', by rw [hlength]; exact (hbehind ha.length_lt).mp hpass⟩
      · rintro ⟨a, rest, ha, hpass⟩
        obtain ⟨a', ha', hlength⟩ := ha.transfer hsame.symm hinstance.symm
          (fun us after hus => (hgroup us after hus).mpr) le_rfl (hnone' _) hf
        exact ⟨a', rest, ha', by rw [hlength]; exact (hbehind ha.length_lt).mpr hpass⟩
  | some f =>
      obtain ⟨t, us, w, m, hts, ht, hm, hchain⟩ := exists_of_fusionAt?_eq_some hf
      obtain ⟨htarget, hslash⟩ := Fusion.target_of_afterChain? (by simp) hchain
      have hlt : (markers f.rest).2.length < ts.length := by
        have h1 := length_markers_le ts
        have h2 := length_markers_le f.rest
        have h3 := Fusion.length_rest_lt_of_afterChain? hchain
        rw [hts, List.length_cons] at h1
        omega
      have hfused : Reads rules (.operand true) (markers ts).2
          (.ability ⟨f.target.key, f.modifiers, none, f.target.label⟩) f.rest := by
        rw [hts] at hf ⊢
        exact .fused ht hf (AbilityUse.build_eq_ok_iff.mpr ⟨htarget, .inr rfl, rfl⟩)
      -- the fusion passes at once what the bare rules pass word by word
      calc Passes rules (.before b) ts after
        _ ↔ Passes rules (.behind true) (markers f.rest).2 after := passes_ability hfused hslash
        _ ↔ Passes bare (.behind true) (markers f.rest).2 after := hbehind hlt
        _ ↔ Passes bare (.behind true) us after := by
            have hwords : Passes bare (if true then .behind true else .before true) us after ↔
                Passes bare (.behind true) (markers f.rest).2 after :=
              passes_chain hmode' hnone' (by simp) hchain
            exact hwords.symm
        _ ↔ Passes bare (.before b) ts after := by
            have hw := Catalog.isBlankText_of_resolve (modifierOf?_eq_some.mp hm).2
            rw [passes_word hmode' hts ht hw (hnone' _)
              (slashFollows_eq_false_of_afterChain? hchain), markers_eq_self_of_afterChain? hchain]

end Descent

/-- **Which modifiers are known never decides whether tokens can be read** where neighbouring words
are steps of their own: they can be read with one catalog exactly if they can be read with the
other. -/
theorem stepsOfTokens_catalog_iff (c c' : Catalog) (perInstance : Table Overrides)
    (ts : List Token) :
    (∃ steps, Rotation.stepsOfTokens ⟨c, .steps, perInstance⟩ ts = .ok steps) ↔
      ∃ steps, Rotation.stepsOfTokens ⟨c', .steps, perInstance⟩ ts = .ok steps := by
  have hbare : ∀ c, (∃ steps, Rotation.stepsOfTokens ⟨c, .steps, perInstance⟩ ts = .ok steps) ↔
      Descent.Passes ⟨Catalog.empty, .steps, perInstance⟩ (.before false) ts [] := by
    intro c
    have hbare := @Descent.passes_iff_bare ⟨c, .steps, perInstance⟩ ts [] rfl false
    rw [← hbare, ← Descent.exists_reads_iff_passes (by simp)]
    simp only [Descent.stepsOfTokens_eq_ok_iff]
  rw [hbare c, hbare c']

end AbilityRotation
