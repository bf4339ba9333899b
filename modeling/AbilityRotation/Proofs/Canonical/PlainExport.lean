import AbilityRotation.Proofs.Canonical.Apart
import AbilityRotation.Proofs.Canonical.Unlabelled
import AbilityRotation.Rotation.Export

/-!
Reading a plain export again.

A word with a label is never a modifier, so that taking labels away can make one.  It is then fused
onto the term behind it, if that is an ability which accepts modifiers or has some already.
* `Descent.Unlabels`: whether what keeps apart is read from its words without their labels.
* `Reads.unlabel`: this holds of all that is read from tokens as canonical text has them
  (`Descent.Spelled`).
* `exportPlain_reread_iff`: a plain export is faithful but for labels exactly if all steps keep
  apart.
-/

namespace AbilityRotation

namespace Descent

open Fusion

variable {rules : Rules} {first : Bool} {names : List String} {ts rest after : List Token}
  {t : Token} {w : Word}

/-! ### Tokens without labels -/

lemma first?_unlabel (ts : List Token) :
    Token.first? (ts.map Token.unlabel) = (Token.first? ts).map Symbol.unlabel := by
  cases ts <;> rfl

/-- Where another symbol than a word comes first, it does so without labels. -/
lemma first?_unlabel_eq_iff {s : Symbol} (hs : ∀ w, s ≠ .word w) :
    Token.first? (ts.map Token.unlabel) = some s ↔ Token.first? ts = some s := by
  rw [first?_unlabel]
  cases ts with
  | nil => simp
  | cons t ts => simpa using Symbol.unlabel_eq_iff hs

lemma startsOperand_unlabel (ts : List Token) :
    Token.startsOperand (ts.map Token.unlabel) = Token.startsOperand ts := by
  cases ts with
  | nil => rfl
  | cons t ts => exact t.symbol.startsOperand_unlabel

lemma markers_unlabel (ts : List Token) :
    markers (ts.map Token.unlabel) = ((markers ts).1, (markers ts).2.map Token.unlabel) := by
  induction ts with
  | nil => rfl
  | cons t ts ih =>
      rw [List.map_cons, markers, markers, ih, Token.unlabel]
      cases ht : t.symbol <;> simp [Symbol.unlabel, Token.unlabel, ht]

lemma slashFollows_unlabel (ts : List Token) :
    slashFollows (ts.map Token.unlabel) = slashFollows ts := by
  induction ts with
  | nil => rfl
  | cons t ts ih =>
      rw [List.map_cons, slashFollows, slashFollows, ih, Token.unlabel]
      cases t.symbol <;> rfl

/-- In canonical text the same words are joined without labels, and no word comes behind them. -/
lemma joinWords_unlabel
    (h : (Symbol.word w :: Token.symbols rest).IsChain (Symbol.Joins .join)) :
    joinWords ⟨w.key, none⟩ (rest.map Token.unlabel) =
        (⟨(joinWords w rest).1.key, none⟩, (joinWords w rest).2.map Token.unlabel) ∧
      ∀ v, Token.first? (joinWords w rest).2 ≠ some (.word v) := by
  induction rest generalizing w with
  | nil => exact ⟨rfl, by simp [joinWords]⟩
  | cons t rest ih =>
      rw [Token.symbols_cons, List.isChain_cons_cons] at h
      cases ht : t.symbol with
      | word v =>
          have hlabel := (h.1 w v rfl ht).2
          rw [List.map_cons, joinWords, joinWords, Token.unlabel, ht, hlabel]
          rw [ht, List.isChain_cons] at h
          have hnext : (Symbol.word ⟨w.key ++ " " ++ v.key, v.label⟩ ::
              Token.symbols rest).IsChain (Symbol.Joins .join) := by
            refine List.isChain_cons.mpr ⟨fun s hs w' v' hw' hv' => ?_, h.2.2⟩
            cases hw'
            exact h.2.1 s hs v v' rfl hv'
          exact ih hnext
      | _ =>
          rw [List.map_cons, joinWords, joinWords, Token.unlabel, ht]
          simp [Symbol.unlabel, Token.unlabel, ht]

lemma plainWord_unlabel
    (h : (Symbol.word w :: Token.symbols rest).IsChain (Symbol.Joins rules.adjacentWords)) :
    plainWord rules ⟨w.key, none⟩ (rest.map Token.unlabel) =
        (⟨(plainWord rules w rest).1.key, none⟩, (plainWord rules w rest).2.map Token.unlabel) ∧
      ∀ v, Token.first? (plainWord rules w rest).2 ≠ some (.word v) := by
  rw [plainWord, plainWord]
  split
  · next hmode =>
      rw [hmode] at h
      exact joinWords_unlabel h
  · next hmode =>
      refine ⟨rfl, fun v hv => hmode ?_⟩
      cases rest with
      | nil => cases hv
      | cons t rest =>
          rw [Token.symbols_cons, List.isChain_cons_cons] at h
          rw [Token.first?_cons, Option.some.injEq] at hv
          exact (h.1 w v rfl hv).1

/-! ### Fusion without labels -/

/-- A modifier is one without labels. -/
lemma modifierOf?_unlabel {c : Catalog} {m : Modifier} (h : modifierOf? c w = some m) :
    modifierOf? c ⟨w.key, none⟩ = some m :=
  modifierOf?_eq_some.mpr ⟨rfl, (modifierOf?_eq_some.mp h).2⟩

/-- What is fused is fused without labels. -/
lemma afterChain?_unlabel {c : Catalog} {ms : List Modifier} {mayPlus : Bool} {f : Fusion}
    (h : afterChain? c ms mayPlus ts = some f) :
    afterChain? c ms mayPlus (ts.map Token.unlabel) =
      some ⟨f.modifiers, ⟨f.target.key, none⟩, f.rest.map Token.unlabel⟩ := by
  induction h using afterChain?_induct with
  | @plus ms t ts ht _ _ ih =>
      have ht' : t.unlabel.symbol = .plus := congrArg Symbol.unlabel ht
      rw [List.map_cons, afterChain?, ht']
      exact ih
  | @target ms _ t ht haccepts hslash hms _ =>
      have ht' : t.unlabel.symbol = .word ⟨f.target.key, none⟩ := congrArg Symbol.unlabel ht
      rw [List.map_cons, afterChain?, ht']
      simp [haccepts, slashFollows_unlabel, hslash, hms]
  | @modifier ms _ t w m ts ht haccepts hm _ _ ih =>
      have ht' : t.unlabel.symbol = .word ⟨w.key, none⟩ := congrArg Symbol.unlabel ht
      rw [List.map_cons, afterChain?, ht']
      simp only [haccepts, Bool.false_eq_true, if_false, modifierOf?_unlabel hm]
      exact ih

lemma symbols_unlabel (ts : List Token) :
    Token.symbols (ts.map Token.unlabel) = (Token.symbols ts).map Symbol.unlabel := by
  simp [Token.symbols, Token.unlabel, Function.comp_def]

/-- Where words take no modifiers, they take none without labels, unless all of them name modifiers
and what comes behind them takes some. -/
lemma takes_unlabel_words {vs : List Word} {mode : AdjacentWords} {label : Option String}
    (hrest : Token.symbols rest = vs.map .word ++ Token.symbols after)
    (hjoin : Word.Joinable mode label vs)
    (hbehind : (∀ v ∈ vs, Catalog.default.isModifier v.key = true) →
      takes true (after.map Token.unlabel) = false)
    (h : takes true rest = false) : takes true (rest.map Token.unlabel) = false := by
  have hafter : ∀ {us : List Token}, Token.symbols us = Token.symbols after →
      takes true (us.map Token.unlabel) = takes true (after.map Token.unlabel) := by
    intro us hus
    exact takes_of_symbols (by rw [symbols_unlabel, hus, symbols_unlabel])
  induction vs generalizing rest label with
  | nil =>
      rw [hafter hrest]
      exact hbehind (by simp)
  | cons v vs ih =>
      obtain ⟨t, us, rfl, ht, hus⟩ := Token.symbols_eq_cons hrest
      obtain ⟨-, -, hvs⟩ := hjoin
      have ht' : t.unlabel.symbol = .word ⟨v.key, none⟩ := congrArg Symbol.unlabel ht
      rw [List.map_cons]
      -- a word that names no modifier ends the chain as before; one that does keeps it going
      cases hm : modifierOf? Catalog.default ⟨v.key, none⟩ with
      | none =>
          have hnone : modifierOf? Catalog.default v = none := by
            rw [← Option.not_isSome_iff_eq_none, isSome_modifierOf?] at hm ⊢
            simp_all
          rw [takes_word ht' hm, slashFollows_unlabel, ← takes_word ht hnone]
          exact h
      | some m =>
          rw [takes_modifier ht' hm]
          have hv : Catalog.default.isModifier v.key = true := by
            have hsome := isSome_modifierOf? ⟨v.key, none⟩
            rw [hm, Option.isSome_some, Option.isNone_none, Bool.true_and] at hsome
            exact hsome.symm
          obtain ⟨key, _ | label⟩ := v
          · rw [takes_modifier ht hm] at h
            exact ih hus hvs (fun hmore => hbehind (List.forall_mem_cons.mpr ⟨hv, hmore⟩)) h
          · cases vs with
            | nil =>
                rw [hafter hus]
                exact hbehind (by simpa using hv)
            | cons v' vs => cases hvs.2.1

/-! ### Reading without labels -/

/-- What holds of the tokens of canonical text. -/
structure Spelled (mode : AdjacentWords) (names : List String) (ts : List Token) : Prop where
  /-- Words stand behind words only where they are joined. -/
  joins : (Token.symbols ts).IsChain (Symbol.Joins mode)
  /-- The symbols can be written. -/
  written : ∀ s ∈ Token.symbols ts, s.Written names

lemma Spelled.suffix {mode : AdjacentWords} {us : List Token} (h : Spelled mode names ts)
    (hus : us <:+ ts) : Spelled mode names us where
  joins := h.joins.suffix (hus.map Token.symbol)
  written s hs := h.written s (List.map_subset _ hus.subset hs)

/-- What may come behind a term: if the term names modifiers, nothing behind a plus takes modifiers
without labels. -/
def KeepsApartFrom (a : Term) (rest : List Token) : Prop :=
  Term.namesModifiers a = true → ∀ t us, rest = t :: us → t.symbol = .plus →
    takes false (us.map Token.unlabel) = false

/-- What may come behind what a rule reads.  Steps end before a plus, and modifiers are fused only
in the first alternative of a term. -/
def Phrase.KeepsApartFrom : (p : Phrase) → p.Value → List Token → Prop
  | .expression, _, _ => True
  | .terms, _, _ => True
  | .term first, a, rest => first = true → Descent.KeepsApartFrom a rest
  | .alternative first, a, rest => first = true → Descent.KeepsApartFrom a rest
  | .operand first, a, rest => first = true → Descent.KeepsApartFrom [a] rest

/-- Whether all steps of what a rule reads keep apart. -/
def Phrase.KeepsApart : (p : Phrase) → p.Value → Prop
  | .expression, ss => ∀ s ∈ stepsWithin ss, Step.KeepsApart s
  | .terms, as => Step.KeepsApart as ∧ ∀ s ∈ stepsInStep as, Step.KeepsApart s
  | .term _, a => ∀ s ∈ stepsInTerm a, Step.KeepsApart s
  | .alternative _, a => ∀ s ∈ stepsInTerm a, Step.KeepsApart s
  | .operand _, a => ∀ s ∈ a.innerSteps, Step.KeepsApart s

/-- Behind what no word follows there is at most a plus, with what takes modifiers behind it. -/
lemma takes_unlabel_behind (hword : ∀ v, Token.first? after ≠ some (.word v))
    (hplus : ∀ t us, after = t :: us → t.symbol = .plus →
      takes false (us.map Token.unlabel) = false) :
    takes true (after.map Token.unlabel) = false := by
  cases after with
  | nil => rfl
  | cons t us =>
      rw [List.map_cons]
      cases ht : t.symbol with
      | plus =>
          rw [takes_plus (congrArg Symbol.unlabel ht)]
          exact hplus t us rfl ht
      | word v => exact absurd (by rw [Token.first?_cons, ht]) (hword v)
      | _ =>
          have ht' := congrArg Symbol.unlabel ht
          refine takes_other ?_ ?_
          · rw [Token.unlabel, ht']
            simp [Symbol.unlabel]
          · rw [Token.unlabel, ht']
            simp [Symbol.unlabel]

lemma Reads.unlabel_fused {f : Fusion} {u : AbilityUse}
    (hf : fusionAt? rules first (t :: rest) = some f)
    (hu : AbilityUse.build f.target.key f.modifiers none f.target.label = .ok u) :
    Reads rules (.operand first) ((t :: rest).map Token.unlabel) (.ability u.unlabel)
      (f.rest.map Token.unlabel) := by
  obtain rfl : first = true := by
    cases first with
    | true => rfl
    | false => cases hf
  obtain ⟨hblank, -, rfl⟩ := AbilityUse.build_eq_ok_iff.mp hu
  obtain ⟨_, _, v, m, heq, hv, hm, hchain⟩ := exists_of_fusionAt?_eq_some hf
  cases heq
  have hv' : t.unlabel.symbol = .word ⟨v.key, none⟩ := congrArg Symbol.unlabel hv
  have hfusion : fusionAt? rules true ((t :: rest).map Token.unlabel) =
      some ⟨f.modifiers, ⟨f.target.key, none⟩, f.rest.map Token.unlabel⟩ := by
    rw [fusionAt?, if_pos rfl, List.map_cons, Fusion.at?, hv']
    simp only [modifierOf?_unlabel hm, Option.bind_some]
    exact afterChain?_unlabel hchain
  rw [List.map_cons] at hfusion ⊢
  exact .fused hv' hfusion (AbilityUse.build_eq_ok_iff.mpr ⟨hblank, .inr rfl, rfl⟩)

lemma Reads.unlabel_plain (hc : rules.catalog = Catalog.default) {u : AbilityUse}
    (ht : t.symbol = .word w) (hf : fusionAt? rules first (t :: rest) = none)
    (hu : plainUse rules (plainWord rules w rest).1 = .ok u)
    (hspelled : Spelled rules.adjacentWords names (t :: rest))
    (hapart : (Phrase.operand first).KeepsApartFrom (.ability u) (plainWord rules w rest).2) :
    Reads rules (.operand first) ((t :: rest).map Token.unlabel) (.ability u.unlabel)
      ((plainWord rules w rest).2.map Token.unlabel) := by
  obtain ⟨hblank, -, rfl⟩ := AbilityUse.build_eq_ok_iff.mp hu
  obtain ⟨hjoins, hwritten⟩ := hspelled
  rw [Token.symbols_cons, ht] at hjoins hwritten
  obtain ⟨hplain, hword⟩ := plainWord_unlabel hjoins
  have ht' : t.unlabel.symbol = .word ⟨w.key, none⟩ := congrArg Symbol.unlabel ht
  -- without labels more words can name modifiers, but no chain comes of them
  have hnone : fusionAt? rules first ((t :: rest).map Token.unlabel) = none := by
    cases first with
    | false => rfl
    | true =>
        obtain ⟨vs, hjoin, hvs, hwords⟩ := exists_words rules (hwritten _ List.mem_cons_self)
          (fun s hs => hwritten s (List.mem_cons_of_mem _ hs))
          ((plainWord rules w rest).1.label.bind rules.perInstance.get?)
        have hbehind : (∀ v ∈ w :: vs, Catalog.default.isModifier v.key = true) →
            takes true ((plainWord rules w rest).2.map Token.unlabel) = false := by
          intro hall
          refine takes_unlabel_behind hword (hapart rfl ?_)
          rw [Term.namesModifiers, hwords]
          simpa using hall
        have hone : (fusionAt? rules true (t :: rest)).isSome = _ := isSome_fusionAt? hc ht
        rw [hf, isSome_modifierOf?] at hone
        rw [← Option.not_isSome_iff_eq_none, List.map_cons, isSome_fusionAt? hc ht',
          isSome_modifierOf?, Option.isNone_none, Bool.true_and, Bool.and_eq_true, not_and,
          Bool.not_eq_true]
        -- the word names a modifier only now if it had a label, otherwise it did before
        intro hmodifier
        cases hlabel : w.label with
        | none =>
            refine takes_unlabel_words hvs hjoin (fun hmore => hbehind ?_) ?_
            · exact List.forall_mem_cons.mpr ⟨hmodifier, hmore⟩
            · simpa [hlabel, hmodifier] using hone.symm
        | some label =>
            cases vs with
            | nil =>
                have hsame : Token.symbols (rest.map Token.unlabel) =
                    Token.symbols ((plainWord rules w rest).2.map Token.unlabel) := by
                  rw [symbols_unlabel, symbols_unlabel]
                  exact congrArg _ hvs
                rw [takes_of_symbols hsame]
                exact hbehind (by simpa using hmodifier)
            | cons v vs =>
                rw [hlabel] at hjoin
                cases hjoin.2.1
  have hread := Reads.plain ht' hnone
    (AbilityUse.build_eq_ok_iff.mpr ⟨by rw [hplain]; exact hblank, .inl rfl, rfl⟩)
  rw [hplain] at hread
  exact hread

lemma endsExpression_unlabel (h : EndsExpression ts) : EndsExpression (ts.map Token.unlabel) := by
  rcases h with h | h
  · exact .inl (by rw [first?_unlabel, h]; rfl)
  · exact .inr ((first?_unlabel_eq_iff (by simp)).mpr h)

lemma keepsApart_cons {s : Step} {ss : List Step} (h : Phrase.expression.KeepsApart (s :: ss)) :
    Phrase.terms.KeepsApart s ∧ Phrase.expression.KeepsApart ss := by
  rw [Phrase.KeepsApart, stepsWithin, List.forall_mem_cons, List.forall_mem_append] at h
  exact ⟨⟨h.1, h.2.1⟩, h.2.2⟩

/-- Whether tokens that are read as a value, all steps of which keep apart, are read without labels
as the value without its labels and the settings of occurrences. -/
def Unlabels (rules : Rules) (p : Phrase) (ts : List Token) (v : p.Value) (rest : List Token) :
    Prop :=
  p.KeepsApart v → p.KeepsApartFrom v rest →
    Reads rules p (ts.map Token.unlabel) (p.mapUses AbilityUse.unlabel v) (rest.map Token.unlabel)

lemma Unlabels.lastTerm {a : Term} (h : Unlabels rules (.term true) ts a rest)
    (hnext : Token.first? rest ≠ some .plus) : Unlabels rules .terms ts [a] rest := by
  intro hapart _
  rw [Phrase.KeepsApart, stepsInStep, stepsInStep, List.append_nil] at hapart
  refine .lastTerm (h hapart.2 fun _ _ t us hrest ht => ?_) ?_
  · exact absurd (by rw [hrest, Token.first?_cons, ht]) hnext
  · rwa [ne_eq, first?_unlabel_eq_iff (by simp)]

/-- Behind a plus, what a step begins with takes modifiers exactly if its first term does. -/
lemma Unlabels.plus (hc : rules.catalog = Catalog.default) {a : Term} {as : Step}
    (ha : Unlabels rules (.term true) ts a (t :: rest)) (ht : t.symbol = .plus)
    (hstart : Token.startsOperand rest = true) (has : as ≠ [])
    (hwritten : ∀ s ∈ Token.symbols rest, s.Written names)
    (h : Unlabels rules .terms rest as after) : Unlabels rules .terms ts (a :: as) after := by
  intro hapart _
  rw [Phrase.KeepsApart, stepsInStep, List.forall_mem_append] at hapart
  obtain ⟨hchain, hapart1, hapart2⟩ := hapart
  obtain ⟨a', as, rfl⟩ := List.exists_cons_of_ne_nil has
  obtain ⟨hpair, hchain⟩ := List.isChain_cons_cons.mp hchain
  have hread := h ⟨hchain, hapart2⟩ trivial
  -- the next term is read without labels already, and shows what a chain would find there
  have htakes : takes false (rest.map Token.unlabel) = Term.takesModifiers a' := by
    obtain ⟨mid, hterm⟩ := hread.exists_term
    rw [hterm.takes_eq hc, takesModifiers_mapUses (f := AbilityUse.unlabel) fun _ => ⟨rfl, rfl⟩]
    intro s hs
    rw [symbols_unlabel] at hs
    obtain ⟨s', hs', rfl⟩ := List.mem_map.mp hs
    exact (hwritten s' hs').unlabel
  refine .plus (ha hapart1 fun _ hnames t' us hrest _ => ?_) (congrArg Symbol.unlabel ht)
    ((startsOperand_unlabel rest).trans hstart) hread
  cases hrest
  rw [htakes, ← Bool.not_eq_true]
  exact fun h => hpair ⟨hnames, h⟩

/-- Before a slash nothing is asked of what comes behind, and behind it no modifiers are fused. -/
lemma Unlabels.slash {a as : Term} (ha : Unlabels rules (.alternative first) ts a (t :: rest))
    (ht : t.symbol = .slash) (hstart : Token.startsOperand rest = true)
    (has : Unlabels rules (.term false) rest as after) :
    Unlabels rules (.term first) ts (a ++ as) after := by
  intro hapart _
  rw [Phrase.KeepsApart, stepsInTerm_append, List.forall_mem_append] at hapart
  have hread := Reads.slash (ha hapart.1 fun _ _ t' us hrest ht' => ?_)
    (congrArg Symbol.unlabel ht) ((startsOperand_unlabel rest).trans hstart)
    (has hapart.2 fun h => by cases h)
  · show Reads rules (.term first) _ (mapUsesOfTerm _ (a ++ as)) _
    rw [mapUsesOfTerm_append]
    exact hread
  · cases hrest
    cases ht.symm.trans ht'

lemma Unlabels.alternative {a : Alternative}
    (h : Unlabels rules (.operand first) (markers ts).2 a after) :
    Unlabels rules (.alternative first) ts ((markers ts).1 ++ a :: (markers after).1)
      (markers after).2 := by
  intro hapart hfrom
  obtain ⟨front, hfront, -⟩ := exists_markers ts
  obtain ⟨back, hback, -⟩ := exists_markers after
  rw [Phrase.KeepsApart, hfront, hback, stepsInTerm_between] at hapart
  have hread := h hapart fun hfirst hnames t us hafter ht => ?_
  · have halternative := Reads.between (markers_unlabel ts) hread (markers_unlabel after)
    show Reads rules (.alternative first) _ (mapUsesOfTerm _ (_ ++ a :: _)) _
    rw [mapUsesOfTerm_append, mapUsesOfTerm, hfront, hback, mapUsesOfTerm_markers,
      mapUsesOfTerm_markers]
    rw [hfront, hback] at halternative
    exact halternative
  · have hself : markers after = ([], after) :=
      markers_eq_self (by simp [hafter, ht])
    refine hfrom hfirst ?_ t us (by rw [hself, hafter]) ht
    rw [hself, hfront, namesModifiers_markers]
    exact hnames

/-- **What keeps apart is read without labels.**  If words stand behind words only where they are
joined, and all steps keep apart, then without labels the tokens are read as what they are read as
with labels, but for the labels and the settings of occurrences. -/
theorem Reads.unlabel (hc : rules.catalog = Catalog.default) {p : Phrase} {v : p.Value}
    (hr : Reads rules p ts v rest) (hspelled : Spelled rules.adjacentWords names ts) :
    Unlabels rules p ts v rest := by
  induction hr with
  | @lastStep ts s rest hs ha hend ih =>
      intro hapart _
      exact .lastStep (ih hspelled (keepsApart_cons hapart).1 trivial)
        ((isAmbiguous_mapUsesOfStep _ s).trans ha) (endsExpression_unlabel hend)
  | @arrow ts s t rest ss after hs ha ht hstart hss ih1 ih2 =>
      intro hapart _
      obtain ⟨hs', hss'⟩ := keepsApart_cons hapart
      have hsuffix := hs.suffix_behind
      exact .arrow (ih1 hspelled hs' trivial) ((isAmbiguous_mapUsesOfStep _ s).trans ha)
        (congrArg Symbol.unlabel ht) ((startsOperand_unlabel rest).trans hstart)
        (ih2 (hspelled.suffix hsuffix) hss' trivial)
  | @gap ts s t rest ss after hs ha ht hmode hss ih1 ih2 =>
      intro hapart _
      obtain ⟨hs', hss'⟩ := keepsApart_cons hapart
      exact .gap (ih1 hspelled hs' trivial) ((isAmbiguous_mapUsesOfStep _ s).trans ha)
        (t.symbol.startsOperand_unlabel.trans ht) hmode
        (ih2 (hspelled.suffix hs.suffix) hss' trivial)
  | lastTerm ha hnext ih => exact (ih hspelled).lastTerm hnext
  | @plus ts a t rest as after ha ht hstart has ih1 ih2 =>
      have hbehind := hspelled.suffix ha.suffix_behind
      exact (ih1 hspelled).plus hc ht hstart has.terms_ne_nil hbehind.written (ih2 hbehind)
  | lastAlternative ha hnext ih =>
      intro hapart hfrom
      refine .lastAlternative (ih hspelled hapart hfrom) ?_
      rwa [ne_eq, first?_unlabel_eq_iff (by simp)]
  | @slash first ts a t rest as after ha ht hstart has ih1 ih2 =>
      have hbehind := hspelled.suffix ha.suffix_behind
      exact (ih1 hspelled).slash ht hstart (ih2 hbehind)
  | @alternative first ts a after ha ih =>
      exact (ih (hspelled.suffix (markers_suffix ts))).alternative
  | fused ht hf hu => exact fun _ _ => .unlabel_fused hf hu
  | plain ht hf hu => exact fun _ hfrom => .unlabel_plain hc ht hf hu hspelled hfrom
  | @group first t rest ss u after ht hne hss hu ih =>
      intro hapart _
      refine .group (congrArg Symbol.unlabel ht) ?_
        (ih (hspelled.suffix (List.suffix_cons t rest)) hapart trivial) (congrArg Symbol.unlabel hu)
      rwa [ne_eq, first?_unlabel_eq_iff (by simp)]

end Descent

/-! ### Plain exports -/

open Descent Text

variable {options : ParseOptions} {d : Rotation} {text : String}

/-- What the canonical text of a rotation is read as, if its symbols are legible and no marker ends
in a backslash. -/
lemma parse_render_eq_ok_iff {r : Rotation} {steps : List Step}
    (h : Legible (options.names.map lowerCase) false r.symbols)
    (hend : ∀ m ∈ r.markerTexts, ¬ endsInBackslash m) :
    (∃ d', Rotation.parse options (r.render true) = .ok d' ∧ d'.steps = steps) ↔
      r.symbols = [] ∧ steps = [] ∨
        r.symbols ≠ [] ∧ Reads (Rotation.rulesOf options Table.empty) .expression
          (ofSymbols r.symbols) steps [] := by
  obtain ⟨us, hus, hsymbols⟩ := ofChars_write h (by rwa [r.tooltips_symbols])
  have hempty : write r.symbols = [] ↔ r.symbols = [] := by
    refine ⟨fun hnil => ?_, fun hnil => by rw [hnil, write_nil]⟩
    by_contra hne
    obtain ⟨c, cs, hhead, -⟩ := exists_head_write hne h.written
    cases hnil.symm.trans hhead
  have hsame : Token.symbols us = Token.symbols (ofSymbols r.symbols) := by
    rw [hsymbols, symbols_ofSymbols]
  simp only [Rotation.parse, ofText_render h, r.chars_eq_write, ofSplit_eq_ok_iff, ne_eq, hempty,
    hus, Except.ok.injEq, exists_eq_left']
  constructor
  · rintro ⟨d', ⟨-, hd'⟩, rfl⟩
    exact hd'.imp_right (And.imp_right fun hsteps =>
      (stepsOfTokens_eq_ok_iff.mp hsteps).all_of_symbols hsame.symm)
  · intro hsteps
    exact ⟨⟨steps, Table.empty⟩, ⟨rfl, hsteps.imp_right (And.imp_right fun hread =>
      stepsOfTokens_eq_ok_iff.mpr (hread.all_of_symbols hsame))⟩, rfl⟩

lemma unlabel_comp_attach (perInstance : Table Overrides) :
    AbilityUse.unlabel ∘ AbilityUse.attach perInstance = AbilityUse.unlabel := by
  funext u
  rfl

lemma map_unlabel_ofSymbols (ss : List Symbol) :
    (ofSymbols ss).map Token.unlabel = ofSymbols (ss.map Symbol.unlabel) := by
  simp [ofSymbols, Token.unlabel, Function.comp_def]

/-- Symbols whose labels are taken away have none. -/
lemma label_of_mem_unlabel {ss : List Symbol} {w : Word} (h : .word w ∈ ss.map Symbol.unlabel) :
    w.label = none := by
  obtain ⟨s, -, hs⟩ := List.mem_map.mp h
  cases s with
  | word v =>
      cases hs
      rfl
  | _ => cases hs

/-- Steps that are read from symbols without labels keep apart at every depth. -/
lemma Descent.Reads.forall_keepsApart {rules : Rules} {names : List String} {ss : List Symbol}
    {steps : List Step} (hc : rules.catalog = Catalog.default)
    (h : Reads rules .expression (ofSymbols (ss.map Symbol.unlabel)) steps [])
    (hlegible : Legible names false (ss.map Symbol.unlabel)) :
    ∀ s ∈ stepsWithin steps, Step.KeepsApart s := by
  have hsymbols := symbols_ofSymbols (ss.map Symbol.unlabel)
  have harr : Arranged (SuitsText names) false
      (Token.symbols (ofSymbols (ss.map Symbol.unlabel))) := by
    rw [hsymbols]
    exact hlegible.arranged
  intro s hs
  obtain ⟨⟨_, us, _, hus, -, -, hread⟩, -⟩ :=
    h.forall_innerSteps List.suffix_rfl harr ⟨rfl, by simp⟩ s hs
  -- each inner step was read from symbols without labels, and then it keeps its terms apart
  have hsub : Token.symbols us ⊆ ss.map Symbol.unlabel := by
    rw [← hsymbols]
    exact List.map_subset _ hus.subset
  exact hread.keepsApart hc (fun s hs => hlegible.written s (hsub hs))
    fun w hw => label_of_mem_unlabel (hsub hw)

/-- What keeps apart at every depth is read from its canonical symbols without their labels. -/
lemma Descent.Reads.reread_unlabel {mode : AdjacentWords} {names : List String}
    {perInstance : Table Overrides} {ts : List Token}
    (h : Reads (Rotation.rulesOf ⟨Catalog.default, mode, names⟩ perInstance) .expression ts d.steps
      []) (harr : Arranged (SuitsText (names.map lowerCase)) false (Token.symbols ts))
    (hlegible : Legible (names.map lowerCase) false d.symbols)
    (hapart : ∀ s ∈ d.everyStep, s.KeepsApart) :
    Reads (Rotation.rulesOf ⟨Catalog.default, mode, names⟩ Table.empty) .expression
      (ofSymbols (d.symbols.map Symbol.unlabel)) (withoutLabels d.steps) [] := by
  have hreread : Reads (Rotation.rulesOf ⟨Catalog.default, mode, names⟩ Table.empty) .expression
      (ofSymbols d.symbols) (mapUsesOfSteps (AbilityUse.attach Table.empty) d.steps) [] :=
    reread_steps (by rfl) (by rfl) (by rfl) h harr
  have hshaped := h.shaped harr
  have hspelled : Spelled mode (names.map lowerCase) (ofSymbols d.symbols) := by
    refine ⟨?_, ?_⟩ <;> rw [symbols_ofSymbols]
    · refine d.isChain_symbols fun u hu => ?_
      obtain ⟨s, hs, t, ht, hmem⟩ := exists_of_mem_abilitiesOfSteps d.steps hu
      exact ((hshaped s hs).term t ht |>.key u hmem).joined_or_spaceless
    · exact hlegible.written
  have hattached := (forall_keepsApart_mapUses (f := AbilityUse.attach Table.empty)
    (fun _ => ⟨rfl, rfl⟩) d.steps).mpr hapart
  have hunlabel := hreread.unlabel rfl hspelled hattached trivial
  rw [map_unlabel_ofSymbols] at hunlabel
  rw [withoutLabels, ← unlabel_comp_attach Table.empty, ← mapUsesOfSteps_mapUses]
  exact hunlabel

/-- **A plain text is faithful but for labels where steps keep apart.**  Whatever text has been read
as a rotation with the default catalog: if no marker ends in a backslash, the text of the rotation
without labels is read as the same steps without the labels and the settings of single occurrences,
exactly if in no step, at any depth, a term that names modifiers stands right before one that takes
them.  It is what a plain export gives, unless names of abilities have been known, of which exports
make no use. -/
theorem exportPlain_reread_iff {mode : AdjacentWords} {names : List String} {text : String}
    {d : Rotation} (h : Rotation.parse ⟨Catalog.default, mode, names⟩ text = .ok d)
    (hend : ∀ m ∈ d.markerTexts, ¬ endsInBackslash m) :
    (names = [] → Rotation.exportPlain Catalog.default mode text = .ok (d.render false)) ∧
      ((∃ d', Rotation.parse ⟨Catalog.default, mode, names⟩ (d.render false) = .ok d' ∧
          d'.steps = withoutLabels d.steps) ↔
        ∀ s ∈ d.everyStep, s.KeepsApart) := by
  refine ⟨fun hnames => ?_, ?_⟩
  · subst hnames
    rw [Rotation.exportPlain, h]
    rfl
  have hplain := plainLines_expression text
  have hlegible := legible_of_ofSplit rfl hplain h
  have hunlabel : Legible (names.map lowerCase) false (d.symbols.map Symbol.unlabel) :=
    hlegible.unlabel
  have hmarkers : ∀ m ∈ d.unlabel.markerTexts, ¬ endsInBackslash m := by
    rwa [← d.unlabel.tooltips_symbols, d.symbols_unlabel, tooltips_unlabel, d.tooltips_symbols]
  rw [← d.render_unlabel, parse_render_eq_ok_iff (by rwa [d.symbols_unlabel]) hmarkers,
    d.symbols_unlabel, ne_eq, List.map_eq_nil_iff]
  obtain ⟨-, ⟨-, hnil⟩ | ⟨-, ts, hts, hsteps⟩⟩ := ofSplit_eq_ok_iff.mp h
  · simp [Rotation.everyStep, Rotation.symbols, withoutLabels, hnil, stepsWithin, mapUsesOfSteps,
      symbolsOfSteps, List.intercalate]
  · have hread := stepsOfTokens_eq_ok_iff.mp hsteps
    have hne : d.symbols ≠ [] := by
      obtain ⟨s, ss, hs, -⟩ := hread.exists_symbols
      exact fun heq => List.cons_ne_nil s ss (hs.symm.trans heq)
    constructor
    · rintro (⟨hnil, -⟩ | ⟨-, hunlabelled⟩)
      · exact absurd hnil hne
      · exact (forall_keepsApart_mapUses (f := AbilityUse.unlabel) (fun _ => ⟨rfl, rfl⟩)
          d.steps).mp (hunlabelled.forall_keepsApart rfl hunlabel)
    · intro hapart
      exact .inr ⟨hne, hread.reread_unlabel (arranged_ofChars hts hplain) hlegible hapart⟩

/-- The rotation of `gmaul[*1]` with a term beside it. -/
def besideGmaul (overrides : Option Overrides) (t : Term) : Rotation :=
  ⟨[[[.ability ⟨"gmaul", [], overrides, some "1"⟩], t]], Table.empty⟩

/-- What `cane[*2] (pool)` is read as. -/
def pooledCane : Term :=
  [.ability ⟨"cane", [], none, some "2"⟩, .marker "pool"]

/-- The plain export of `gmaul[*1]+cane[*2] (pool)`, where the first label has settings, gives the
steps back without both. -/
theorem exportPlain_reread_cane :
    Rotation.parse {} "gmaul[*1]+cane[*2] (pool)\n#*1 level=5" =
        .ok (besideGmaul (some { level := some 5 }) pooledCane) ∧
      (besideGmaul (some { level := some 5 }) pooledCane).markerTexts = ["pool"] ∧
      Rotation.exportPlain Catalog.default .steps "gmaul[*1]+cane[*2] (pool)\n#*1 level=5" =
          .ok "gmaul+cane(pool)" ∧
        ∃ d', Rotation.parse {} "gmaul+cane(pool)" = .ok d' ∧
          d'.steps =
            [[[.ability { key := "gmaul" }], [.ability { key := "cane" }, .marker "pool"]]] := by
  have hparse : Rotation.parse {} "gmaul[*1]+cane[*2] (pool)\n#*1 level=5" =
      .ok (besideGmaul (some { level := some 5 }) pooledCane) := by
    let ts : List Token :=
      [⟨.word ⟨"gmaul", some "1"⟩, 0, false⟩, ⟨.plus, 9, false⟩,
        ⟨.word ⟨"cane", some "2"⟩, 10, false⟩, ⟨.tooltip "pool", 19, false⟩]
    refine ofSplit_plus ts (by decide +kernel) (by decide) (.between rfl
      (.plain rfl (by decide) (by decide)) rfl) rfl (.between rfl
      (.plain rfl (by decide) (by decide)) rfl) rfl (by decide)
  have hmarkers : (besideGmaul (some { level := some 5 }) pooledCane).markerTexts = ["pool"] := by
    decide
  obtain ⟨hexport, hreread⟩ := exportPlain_reread_iff hparse (by rw [hmarkers]; decide)
  have hrender : (besideGmaul (some { level := some 5 }) pooledCane).render false =
      "gmaul+cane(pool)" := by
    decide
  rw [hrender] at hexport hreread
  exact ⟨hparse, hmarkers, hexport rfl, hreread.mpr (by decide +kernel)⟩

/-- What `a (b)` is read as where `b` is known as the name of an ability. -/
def groupBehind : Rotation :=
  ⟨[[[.ability { key := "a" }]], [[.group [[[.ability { key := "b" }]]] Table.empty]]],
    Table.empty⟩

lemma parse_groupBehind : Rotation.parse { names := ["b"] } "a (b)" = .ok groupBehind := by
  let ts : List Token :=
    [⟨.word ⟨"a", none⟩, 0, false⟩, ⟨.opening, 2, false⟩, ⟨.word ⟨"b", none⟩, 3, false⟩,
      ⟨.closing, 4, false⟩]
  let rules := Rotation.rulesOf { names := ["b"] } (SplitText.ofText "a (b)").perInstance
  have hb : Reads rules .expression (ts.drop 2) [[[.ability { key := "b" }]]] (ts.drop 3) :=
    .single (.between rfl (.plain rfl (by decide) (by decide)) rfl) (by decide) (.inr rfl)
  have ha : Reads rules .terms ts [[.ability { key := "a" }]] (ts.drop 1) :=
    .lastTerm (.lastAlternative (.between rfl (.plain rfl (by decide) (by decide)) rfl)
      (by decide)) (by decide)
  have hread : Reads rules .expression ts groupBehind.steps [] :=
    .gap ha (by decide) rfl (by decide)
      (.single (.between rfl (.group rfl (by decide) hb rfl) rfl) (by decide) (.inl rfl))
  exact ofSplit_eq_ok_iff.mpr ⟨by decide, .inr ⟨by decide, ts, by decide +kernel,
    stepsOfTokens_eq_ok_iff.mpr hread⟩⟩

lemma parse_tooltipBehind : Rotation.parse {} "a (b)" =
    .ok ⟨[[[.ability { key := "a" }, .marker "b"]]], Table.empty⟩ := by
  let ts : List Token := [⟨.word ⟨"a", none⟩, 0, false⟩, ⟨.tooltip "b", 2, false⟩]
  exact ofSplit_alternative ts (by decide) (by decide +kernel)
    (.between rfl (.plain rfl (by decide) (by decide)) rfl) (by decide) (by decide)

/-- Without its label the modifier in `gmaul[*1]+spec` is fused, and the plain export is read as
other steps.  And where `b` is known as the name of an ability, the parenthesis in `a (b)` is a
group in a second step, but the plain export takes it for a tooltip. -/
theorem exportPlain_not_faithful :
    (Rotation.parse {} "gmaul[*1]+spec" = .ok (besideGmaul none [.ability { key := "spec" }]) ∧
      (besideGmaul none [.ability { key := "spec" }]).markerTexts = [] ∧
      Rotation.exportPlain Catalog.default .steps "gmaul[*1]+spec" = .ok "gmaul+spec" ∧
      ¬ ∃ d', Rotation.parse {} "gmaul+spec" = .ok d' ∧
        d'.steps = withoutLabels (besideGmaul none [.ability { key := "spec" }]).steps) ∧
      Rotation.parse { names := ["b"] } "a (b)" = .ok groupBehind ∧
        groupBehind.markerTexts = [] ∧ groupBehind.render false = "a→(b)" ∧
          Rotation.exportPlain Catalog.default .steps "a (b)" = .ok "a(b)" := by
  have hparse : Rotation.parse {} "gmaul[*1]+spec" =
      .ok (besideGmaul none [.ability { key := "spec" }]) := by
    let ts : List Token :=
      [⟨.word ⟨"gmaul", some "1"⟩, 0, false⟩, ⟨.plus, 9, false⟩, ⟨.word ⟨"spec", none⟩, 10, false⟩]
    refine ofSplit_plus ts (by decide +kernel) (by decide) (.between rfl
      (.plain rfl (by decide) (by decide)) rfl) rfl (.between rfl
      (.plain rfl (by decide) (by decide)) rfl) rfl (by decide)
  have hfused : Rotation.parse {} "gmaul+spec" =
      .ok ⟨[[[.ability ⟨"spec", ["gmaul"], none, none⟩]]], Table.empty⟩ := by
    let ts : List Token :=
      [⟨.word ⟨"gmaul", none⟩, 0, false⟩, ⟨.plus, 5, false⟩, ⟨.word ⟨"spec", none⟩, 6, false⟩]
    refine ofSplit_alternative ts (by decide) (by decide +kernel) (.between rfl
      (.fused (f := ⟨["gmaul"], ⟨"spec", none⟩, []⟩) rfl (by decide +kernel) (by decide))
      rfl) (by decide) (by decide)
  have hexport : Rotation.exportPlain Catalog.default .steps "gmaul[*1]+spec" =
      .ok "gmaul+spec" := by
    rw [Rotation.exportPlain, hparse]
    decide
  have hexported : Rotation.exportPlain Catalog.default .steps "a (b)" = .ok "a(b)" := by
    rw [Rotation.exportPlain, parse_tooltipBehind]
    decide
  refine ⟨⟨hparse, by decide, hexport, ?_⟩, parse_groupBehind, by decide, by decide, hexported⟩
  rintro ⟨d', hd', hsteps⟩
  obtain rfl := Except.ok.inj (hfused.symm.trans hd')
  -- one term is read, where there are two
  have hlengths := congrArg (List.map List.length) hsteps
  revert hlengths
  decide

end AbilityRotation
