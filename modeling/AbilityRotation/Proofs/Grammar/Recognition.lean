import AbilityRotation.Proofs.Canonical.Arrangement
import AbilityRotation.Proofs.Grammar.Derivation

/-!
The descent recognizes the grammar.

Where no modifiers are known and words are not joined, tokens can be read exactly if their symbols
have a derivation that is not ambiguous, and what is read is the tree of the greedy one.
* `Named`: the words among symbols are not blank, which holds for the tokens of every text
  (`named_of_ofChars`).
* `Derivation.Licensed` collects the conditions on a derivation, with one equivalence per rule.
* `Reads.derivation`: what is read has a greedy derivation.
* `Derivation.reads`: what has a greedy derivation is read, in front of tokens that cannot continue
  it (`Phrase.StopsBefore`); `Derivation.IsRead` is closed under each rule.
* `stepsOfTokens_iff_derivation`: both for all tokens; derivations that are not greedy can be
  settled first.
-/

namespace AbilityRotation

open Descent

/-! ### Conditions on derivations -/

/-- The words among the symbols can be keys of abilities.  Blank words are set apart because they
cannot: an ability with a blank key is refused (`AbilityUse.BuildFault.blankKey`), whatever the
grammar says of the tokens.  No scanned word is blank, so that this asks nothing of the tokens of a
text (`named_of_ofChars`). -/
def Named (ss : List Symbol) : Prop :=
  ∀ w, Symbol.word w ∈ ss → Text.isBlankText w.key = false

@[simp] lemma named_nil : Named [] := by
  simp [Named]

@[simp] lemma named_cons {s : Symbol} {ss : List Symbol} :
    Named (s :: ss) ↔ (∀ w, .word w = s → Text.isBlankText w.key = false) ∧ Named ss := by
  simp only [Named, List.mem_cons, or_imp, forall_and]

@[simp] lemma named_append {ss rest : List Symbol} :
    Named (ss ++ rest) ↔ Named ss ∧ Named rest := by
  simp only [Named, List.mem_append, or_imp, forall_and]

@[simp] lemma named_tooltips (texts : List String) : Named (texts.map .tooltip) := by
  simp [Named]

/-- The words of a text are not blank. -/
lemma named_of_ofChars {names : List String} {cs : List Char} {ts : List Token}
    (h : Token.ofChars names cs = .ok ts) (hp : Lexeme.PlainLines cs) :
    Named (Token.symbols ts) := by
  intro w hw
  have hwritten : ∀ s ∈ Token.symbols ts, s.Written (names.map Text.lowerCase) :=
    Arranged.forall_mem (fun _ _ _ hs => hs.written) (arranged_ofChars h hp)
  obtain ⟨⟨hne, hchars⟩, -⟩ := hwritten _ hw
  obtain ⟨c, hc⟩ := List.exists_mem_of_ne_nil _ hne
  have hblank : Text.isBlank c = false := Lexeme.isBlank_of_isWordChar (hchars c hc).1
  rw [Text.isBlankText, List.all_eq_false]
  exact ⟨c, hc, by simp [hblank]⟩

/-- The conditions on a derivation: no term between two others has a choice, each boundary is
written where neighbours without an operator are a fault, and the words are keys of abilities,
which are never blank. -/
structure Derivation.Licensed (mode : AdjacentWords) {p : Phrase} (d : Derivation p) : Prop where
  /-- No term between two others has more than one alternative. -/
  unambiguous : d.Unambiguous
  /-- Between two steps there is an arrow, if one is asked for. -/
  bounded : mode = .error → d.Bounded
  /-- The words are not blank. -/
  named : Named d.symbols

namespace Derivation

variable {mode : AdjacentWords} {first : Bool}

lemma licensed_iff {p : Phrase} {d : Derivation p} :
    d.Licensed mode ↔ d.Unambiguous ∧ (mode = .error → d.Bounded) ∧ Named d.symbols :=
  ⟨fun h => ⟨h.unambiguous, h.bounded, h.named⟩, fun h => ⟨h.1, h.2.1, h.2.2⟩⟩

@[simp] lemma licensed_lastStep {s : Derivation .terms} :
    (lastStep s).Licensed mode ↔ SingleBetween s.widths ∧ s.Licensed mode := by
  simp [licensed_iff, and_assoc]

@[simp] lemma licensed_arrow {s : Derivation .terms} {e : Derivation .expression} :
    (arrow s e).Licensed mode ↔ SingleBetween s.widths ∧ s.Licensed mode ∧ e.Licensed mode := by
  simp only [licensed_iff, Unambiguous, Bounded, symbols, named_append, named_cons, reduceCtorEq,
    false_implies, implies_true, true_and]
  tauto

@[simp] lemma licensed_gap {s : Derivation .terms} {e : Derivation .expression} :
    (gap s e).Licensed mode ↔
      SingleBetween s.widths ∧ mode ≠ .error ∧ s.Licensed mode ∧ e.Licensed mode := by
  simp only [licensed_iff, Unambiguous, Bounded, symbols, named_append]
  tauto

@[simp] lemma licensed_lastTerm {t : Derivation (.term true)} :
    (lastTerm t).Licensed mode ↔ t.Licensed mode := by
  simp [licensed_iff]

@[simp] lemma licensed_plus {t : Derivation (.term true)} {s : Derivation .terms} :
    (plus t s).Licensed mode ↔ t.Licensed mode ∧ s.Licensed mode := by
  simp only [licensed_iff, Unambiguous, Bounded, symbols, named_append, named_cons, reduceCtorEq,
    false_implies, implies_true, true_and]
  tauto

@[simp] lemma licensed_lastAlternative {a : Derivation (.alternative first)} :
    (lastAlternative a).Licensed mode ↔ a.Licensed mode := by
  simp [licensed_iff]

@[simp] lemma licensed_slash {a : Derivation (.alternative first)} {t : Derivation (.term false)} :
    (slash a t).Licensed mode ↔ a.Licensed mode ∧ t.Licensed mode := by
  simp only [licensed_iff, Unambiguous, Bounded, symbols, named_append, named_cons, reduceCtorEq,
    false_implies, implies_true, true_and]
  tauto

@[simp] lemma licensed_alternative {front back : List String} {o : Derivation (.operand first)} :
    (alternative front o back).Licensed mode ↔ o.Licensed mode := by
  simp [licensed_iff]

@[simp] lemma licensed_word {w : Word} :
    (word w : Derivation (.operand first)).Licensed mode ↔ Text.isBlankText w.key = false := by
  simp [licensed_iff]

@[simp] lemma licensed_group {e : Derivation .expression} :
    (group e : Derivation (.operand first)).Licensed mode ↔ e.Licensed mode := by
  simp [licensed_iff]

end Derivation

/-- The check of a step looks at the numbers of its choices between the first and the last. -/
lemma isAmbiguous_eq_false {s : Step} :
    isAmbiguous s = false ↔ Derivation.SingleBetween (s.map (·.choices.length)) := by
  rw [isAmbiguous, List.any_eq_false, Derivation.SingleBetween]
  constructor
  · intro h i hi hpos
    rw [List.length_map] at hi
    obtain ⟨j, rfl⟩ := Nat.exists_eq_add_of_le' hpos
    have hmem : s[j + 1] ∈ (s.drop 1).dropLast := by
      rw [List.mem_iff_getElem]
      exact ⟨j, by simp; omega, by simp⟩
    simpa using h _ hmem
  · intro h t ht
    obtain ⟨j, hj, rfl⟩ := List.mem_iff_getElem.mp ht
    simp only [List.length_dropLast, List.length_drop] at hj
    have hle := h (j + 1) (by simp; omega) (Nat.succ_pos j)
    simpa [Nat.add_comm] using hle

namespace Derivation

lemma choices_append (a b : Term) : Term.choices (a ++ b) = a.choices ++ b.choices :=
  List.filter_append a b

lemma choices_markers (texts : List String) :
    Term.choices (texts.map (Alternative.marker ·)) = [] := by
  rw [Term.choices, List.filter_eq_nil_iff]
  intro a ha
  obtain ⟨text, -, rfl⟩ := List.mem_map.mp ha
  simp [Alternative.isChoice, Alternative.markerText?]

/-- An operand is no marker. -/
lemma isChoice_tree (perInstance : Table Overrides) {first : Bool}
    (o : Derivation (.operand first)) : (o.tree perInstance).isChoice = true := by
  cases o <;> simp [tree, Alternative.isChoice, Alternative.markerText?]

/-- One alternative offers one choice. -/
lemma length_choices_alternative (perInstance : Table Overrides) {first : Bool}
    (a : Derivation (.alternative first)) :
    (Term.choices (a.tree perInstance)).length = 1 := by
  cases a with
  | alternative front o back =>
      have hcons : ∀ t : Term, Term.choices (o.tree perInstance :: t) =
          o.tree perInstance :: t.choices := fun t =>
        List.filter_cons_of_pos (isChoice_tree perInstance o)
      rw [tree, choices_append, hcons, choices_markers, choices_markers]
      rfl

lemma length_choices_tree (perInstance : Table Overrides) {first : Bool}
    (t : Derivation (.term first)) : (Term.choices (t.tree perInstance)).length = t.width := by
  match t with
  | lastAlternative a =>
      rw [tree, width]
      exact length_choices_alternative perInstance a
  | slash a t =>
      rw [tree, width, choices_append, List.length_append, length_choices_alternative,
        length_choices_tree perInstance t, Nat.add_comm]

lemma map_length_choices_tree (perInstance : Table Overrides) (s : Derivation .terms) :
    List.map (fun t : Term => t.choices.length) (s.tree perInstance) = s.widths := by
  match s with
  | lastTerm t =>
      rw [tree, widths, List.map_singleton, length_choices_tree]
  | plus t s =>
      rw [tree, widths, List.map_cons, length_choices_tree, map_length_choices_tree perInstance s]

/-- The check of a step is about the widths of its terms. -/
lemma isAmbiguous_tree {perInstance : Table Overrides} {s : Derivation .terms} :
    isAmbiguous (s.tree perInstance) = false ↔ SingleBetween s.widths := by
  rw [isAmbiguous_eq_false, map_length_choices_tree]

/-- Behind its tooltips, a phrase begins with a word or a parenthesis. -/
lemma exists_symbols_shed {p : Phrase} (d : Derivation p) :
    ∃ s ss, d.shed.symbols = s :: ss ∧ (s = .opening ∨ ∃ w, s = .word w) := by
  induction d with
  | word w => exact ⟨_, [], rfl, .inr ⟨w, rfl⟩⟩
  | group e _ => exact ⟨_, _, rfl, .inl rfl⟩
  | alternative front o back ih =>
      obtain ⟨s, ss, hs, h⟩ := ih
      cases o <;> exact ⟨_, _, rfl, by simp⟩
  | lastStep _ ih | lastTerm _ ih | lastAlternative _ ih => exact ih
  | arrow _ _ ih _ | gap _ _ ih _ | plus _ _ ih _ | slash _ _ ih _ =>
      obtain ⟨s, ss, hs, h⟩ := ih
      exact ⟨s, _, by rw [shed, symbols, hs, List.cons_append], h⟩

/-- A phrase begins with an operand. -/
lemma exists_symbols {p : Phrase} (d : Derivation p) :
    ∃ s ss, d.symbols = s :: ss ∧ s.startsOperand = true := by
  obtain ⟨s, ss, hs, h⟩ := exists_symbols_shed d
  rw [symbols_shed d]
  cases d.leading with
  | nil =>
      refine ⟨s, ss, hs, ?_⟩
      rcases h with rfl | ⟨w, rfl⟩ <;> rfl
  | cons text texts => exact ⟨_, _, rfl, rfl⟩

end Derivation

/-! ### What has a derivation is read -/

/-- Whether a phrase ends before the given symbol, or before nothing: the symbol is none with which
the phrase would go on. -/
def Descent.Phrase.StopsBefore (next : Option Symbol) : Phrase → Prop
  | .expression => next = none ∨ next = some .closing
  | .terms => next ≠ some .plus ∧ next ≠ some .slash ∧ ∀ text, next ≠ some (.tooltip text)
  | .term _ => next ≠ some .slash ∧ ∀ text, next ≠ some (.tooltip text)
  | .alternative _ => ∀ text, next ≠ some (.tooltip text)
  | .operand _ => True

lemma markers_append {texts : List String} {us ts : List Token}
    (hus : Token.symbols us = texts.map .tooltip)
    (hts : ∀ text, Token.first? ts ≠ some (.tooltip text)) :
    markers (us ++ ts) = (texts.map (.marker ·), ts) := by
  induction texts generalizing us with
  | nil =>
      rw [Token.symbols, List.map_nil, List.map_eq_nil_iff] at hus
      subst hus
      cases ts with
      | nil => rfl
      | cons t ts =>
          rw [List.nil_append, markers]
          split
          · next text ht => exact absurd (by rw [Token.first?_cons, ht]) (hts text)
          · rfl
  | cons text texts ih =>
      obtain ⟨u, us, rfl, hu, hus⟩ := Token.symbols_eq_cons hus
      rw [List.cons_append, markers, hu]
      simp only [ih hus, List.map_cons]

lemma fusionAt?_empty {rules : Rules} (hc : rules.catalog = Catalog.empty) (first : Bool)
    (ts : List Token) : fusionAt? rules first ts = none := by
  have hnone : ∀ w, Fusion.modifierOf? Catalog.empty w = none := by
    intro w
    rw [Fusion.modifierOf?]
    split
    · rw [Catalog.resolve]
      cases normalizeKey w.key <;> rfl
    · rfl
  rw [fusionAt?, hc]
  split
  · cases ts with
    | nil => rfl
    | cons t ts =>
        rw [Fusion.at?]
        split
        · rw [hnone]; rfl
        · rfl
  · rfl

/-- Where words are not joined, a word is used as it is. -/
lemma plainWord_eq {rules : Rules} (hmode : rules.adjacentWords ≠ .join) (w : Word)
    (ts : List Token) : plainWord rules w ts = (w, ts) := by
  rw [plainWord]
  split
  · next h => exact absurd h hmode
  · rfl

lemma first?_append_of_symbols {us ts : List Token} {s : Symbol} {ss : List Symbol}
    (h : Token.symbols us = s :: ss) : Token.first? (us ++ ts) = some s := by
  obtain ⟨u, us, rfl, rfl, -⟩ := Token.symbols_eq_cons h
  rfl

lemma symbols_eq_append {us : List Token} {a b : List Symbol} (h : Token.symbols us = a ++ b) :
    ∃ u v, us = u ++ v ∧ Token.symbols u = a ∧ Token.symbols v = b :=
  List.map_eq_append_iff.mp h

lemma symbols_eq_append_cons {us : List Token} {a b : List Symbol} {s : Symbol}
    (h : Token.symbols us = a ++ s :: b) :
    ∃ u t v, us = u ++ t :: v ∧ Token.symbols u = a ∧ t.symbol = s ∧ Token.symbols v = b := by
  obtain ⟨u, v, rfl, hu, hv⟩ := symbols_eq_append h
  obtain ⟨t, v, rfl, ht, hv⟩ := Token.symbols_eq_cons hv
  exact ⟨u, t, v, rfl, hu, ht, hv⟩

lemma Derivation.startsOperand {p : Phrase} (d : Derivation p) {used : List Token}
    (h : Token.symbols used = d.symbols) (rest : List Token) :
    Token.startsOperand (used ++ rest) = true := by
  obtain ⟨s, ss, hs, hstart⟩ := d.exists_symbols
  rw [Token.startsOperand_eq, first?_append_of_symbols (h.trans hs)]
  exact hstart

namespace Derivation

variable {rules : Rules} {first : Bool}

/-- Whether tokens with the symbols of the derivation are read as its tree, in front of tokens that
cannot continue it. -/
def IsRead (rules : Rules) {p : Phrase} (d : Derivation p) : Prop :=
  ∀ ⦃used rest : List Token⦄, Token.symbols used = d.symbols →
    p.StopsBefore (Token.first? rest) →
      Reads rules p (used ++ rest) (d.tree rules.perInstance) rest

/-- A phrase is read up to a token that cannot continue it. -/
lemma IsRead.before {p : Phrase} {d : Derivation p} (h : d.IsRead rules)
    {used behind rest : List Token} {t : Token} (hus : Token.symbols used = d.symbols)
    (ht : p.StopsBefore (some t.symbol)) :
    Reads rules p (used ++ t :: behind ++ rest) (d.tree rules.perInstance)
      (t :: (behind ++ rest)) := by
  rw [List.append_assoc, List.cons_append]
  exact h hus ht

lemma IsRead.lastStep {s : Derivation .terms} (hs : s.IsRead rules)
    (hw : SingleBetween s.widths) : (Derivation.lastStep s).IsRead rules := by
  intro used rest hus hstop
  have hterms : Phrase.terms.StopsBefore (Token.first? rest) := by
    rcases hstop with h | h <;> simp [Phrase.StopsBefore, h]
  exact .lastStep (hs hus hterms) (isAmbiguous_tree.mpr hw) hstop

lemma IsRead.arrow {s : Derivation .terms} {e : Derivation .expression} (hs : s.IsRead rules)
    (he : e.IsRead rules) (hw : SingleBetween s.widths) :
    (Derivation.arrow s e).IsRead rules := by
  intro used rest hus hstop
  obtain ⟨u, t, v, rfl, hsu, ht, hev⟩ := symbols_eq_append_cons hus
  exact .arrow (hs.before hsu (by simp [Phrase.StopsBefore, ht])) (isAmbiguous_tree.mpr hw) ht
    (e.startsOperand hev rest) (he hev hstop)

lemma IsRead.gap {s : Derivation .terms} {e : Derivation .expression} (hs : s.IsRead rules)
    (he : e.IsRead rules) (hw : SingleBetween s.widths) (hlead : e.leading = [])
    (hmode : rules.adjacentWords ≠ .error) : (Derivation.gap s e).IsRead rules := by
  intro used rest hus hstop
  obtain ⟨u, v, rfl, hsu, hev⟩ := symbols_eq_append hus
  -- the step after the gap begins with a word or a parenthesis, before which a step ends
  obtain ⟨x, xs, hx, hstart⟩ := exists_symbols_shed e
  have hsym : e.symbols = x :: xs := by
    rw [symbols_shed, hlead]
    exact hx
  obtain ⟨t, v, rfl, rfl, -⟩ := Token.symbols_eq_cons (hev.trans hsym)
  have hends : Phrase.terms.StopsBefore (some t.symbol) := by
    rcases hstart with h | ⟨w, h⟩ <;> simp [Phrase.StopsBefore, h]
  refine .gap (hs.before hsu hends) (isAmbiguous_tree.mpr hw) ?_ hmode (he hev hstop)
  rcases hstart with h | ⟨w, h⟩ <;> rw [h] <;> rfl

lemma IsRead.lastTerm {t : Derivation (.term true)} (ht : t.IsRead rules) :
    (Derivation.lastTerm t).IsRead rules :=
  fun _ _ hus hstop => .lastTerm (ht hus hstop.2) hstop.1

lemma IsRead.plus {t : Derivation (.term true)} {s : Derivation .terms} (ht : t.IsRead rules)
    (hs : s.IsRead rules) : (Derivation.plus t s).IsRead rules := by
  intro used rest hus hstop
  obtain ⟨u, x, v, rfl, htu, hx, hsv⟩ := symbols_eq_append_cons hus
  exact .plus (ht.before htu (by simp [Phrase.StopsBefore, hx])) hx (s.startsOperand hsv rest)
    (hs hsv hstop)

lemma IsRead.lastAlternative {a : Derivation (.alternative first)} (ha : a.IsRead rules) :
    (Derivation.lastAlternative a).IsRead rules :=
  fun _ _ hus hstop => .lastAlternative (ha hus hstop.2) hstop.1

lemma IsRead.slash {a : Derivation (.alternative first)} {t : Derivation (.term false)}
    (ha : a.IsRead rules) (ht : t.IsRead rules) : (Derivation.slash a t).IsRead rules := by
  intro used rest hus hstop
  obtain ⟨u, x, v, rfl, hau, hx, htv⟩ := symbols_eq_append_cons hus
  exact .slash (ha.before hau (by simp [Phrase.StopsBefore, hx])) hx (t.startsOperand htv rest)
    (ht htv hstop)

lemma IsRead.alternative {front back : List String} {o : Derivation (.operand first)}
    (ho : o.IsRead rules) : (Derivation.alternative front o back).IsRead rules := by
  intro used rest hus hstop
  obtain ⟨u, b, rfl, hu', hback⟩ := symbols_eq_append hus
  obtain ⟨f, v, rfl, hfront, hov⟩ := symbols_eq_append hu'
  obtain ⟨x, xs, hx, hstart⟩ := exists_symbols_shed o
  have hsym : o.symbols = x :: xs := by
    cases o <;> exact hx
  have hm : markers (f ++ (v ++ (b ++ rest))) = (front.map (.marker ·), v ++ (b ++ rest)) := by
    refine markers_append hfront fun text => ?_
    rw [first?_append_of_symbols (hov.trans hsym)]
    rcases hstart with rfl | ⟨w, rfl⟩ <;> simp
  rw [List.append_assoc, List.append_assoc]
  exact .between hm (ho hov trivial) (markers_append hback hstop)

lemma isRead_word (hc : rules.catalog = Catalog.empty) (hmode : rules.adjacentWords ≠ .join)
    {w : Word} (hw : Text.isBlankText w.key = false) :
    (word w : Derivation (.operand first)).IsRead rules := by
  intro used rest hus _
  obtain ⟨t, u, rfl, ht, hnil⟩ := Token.symbols_eq_cons hus
  obtain rfl := List.map_eq_nil_iff.mp hnil
  have hplain := plainWord_eq hmode w rest
  have hbuild : plainUse rules (plainWord rules w rest).1 =
      .ok ⟨w.key, [], w.label.bind rules.perInstance.get?, w.label⟩ := by
    rw [hplain]
    exact AbilityUse.build_eq_ok_iff.mpr ⟨hw, .inl rfl, rfl⟩
  have h := Reads.plain ht (fusionAt?_empty hc first (t :: rest)) hbuild
  rwa [hplain] at h

lemma IsRead.group {e : Derivation .expression} (he : e.IsRead rules) :
    (Derivation.group e : Derivation (.operand first)).IsRead rules := by
  intro used rest hus _
  obtain ⟨t, v, rfl, ht, hv⟩ := Token.symbols_eq_cons hus
  obtain ⟨i, c, z, rfl, hei, hclose, hnil⟩ := symbols_eq_append_cons hv
  obtain rfl := List.map_eq_nil_iff.mp hnil
  obtain ⟨x, xs, hx, hstart⟩ := exists_symbols e
  rw [List.cons_append, List.append_assoc]
  refine .group ht ?_ (he hei (.inr (congrArg some hclose))) hclose
  rw [first?_append_of_symbols (hei.trans hx)]
  rintro h
  cases h
  cases hstart

/-- What has a greedy derivation is read, in front of tokens that cannot continue it. -/
theorem reads (hc : rules.catalog = Catalog.empty) (hmode : rules.adjacentWords ≠ .join)
    {p : Phrase} (d : Derivation p) (hg : d.Greedy) (hl : d.Licensed rules.adjacentWords) :
    d.IsRead rules := by
  induction d with
  | lastStep s ih =>
      obtain ⟨hw, hs⟩ := licensed_lastStep.mp hl
      exact .lastStep (ih hg hs) hw
  | arrow s e ihs ihe =>
      obtain ⟨hw, hs, he⟩ := licensed_arrow.mp hl
      exact .arrow (ihs hg.1 hs) (ihe hg.2 he) hw
  | gap s e ihs ihe =>
      obtain ⟨hw, hbound, hs, he⟩ := licensed_gap.mp hl
      obtain ⟨hgs, hlead, hge⟩ := hg
      exact .gap (ihs hgs hs) (ihe hge he) hw hlead hbound
  | lastTerm t ih => exact .lastTerm (ih hg (licensed_lastTerm.mp hl))
  | plus t s iht ihs =>
      obtain ⟨ht, hs⟩ := licensed_plus.mp hl
      exact .plus (iht hg.1 ht) (ihs hg.2 hs)
  | lastAlternative a ih => exact .lastAlternative (ih hg (licensed_lastAlternative.mp hl))
  | slash a t iha iht =>
      obtain ⟨ha, ht⟩ := licensed_slash.mp hl
      exact .slash (iha hg.1 ha) (iht hg.2 ht)
  | alternative front o back ih => exact .alternative (ih hg (licensed_alternative.mp hl))
  | word w => exact isRead_word hc hmode (licensed_word.mp hl)
  | group e ih => exact .group (ih hg (licensed_group.mp hl))

end Derivation

/-! ### What is read has a derivation -/

/-- What is read has a greedy derivation. -/
theorem Descent.Reads.derivation {rules : Rules} (hc : rules.catalog = Catalog.empty)
    (hmode : rules.adjacentWords ≠ .join) {p : Phrase} {ts rest : List Token} {v : p.Value}
    (h : Reads rules p ts v rest) :
    ∃ d : Derivation p, Token.symbols ts = d.symbols ++ Token.symbols rest ∧
      d.tree rules.perInstance = v ∧ d.Greedy ∧ d.Licensed rules.adjacentWords := by
  induction h with
  | lastStep hs ha hend ih =>
      obtain ⟨d, hd, rfl, hg, hl⟩ := ih
      exact ⟨.lastStep d, hd, rfl, hg, by simp [Derivation.isAmbiguous_tree.mp ha, hl]⟩
  | arrow hs ha ht hstart hss ih1 ih2 =>
      obtain ⟨d, hd, rfl, hg, hl⟩ := ih1
      obtain ⟨e, he, rfl, hge, hle⟩ := ih2
      exact ⟨.arrow d e, by simp [hd, ht, he], rfl, ⟨hg, hge⟩,
        by simp [Derivation.isAmbiguous_tree.mp ha, hl, hle]⟩
  | gap hs ha ht hm hss ih1 ih2 =>
      obtain ⟨d, hd, rfl, hg, hl⟩ := ih1
      obtain ⟨e, he, rfl, hge, hle⟩ := ih2
      -- a tooltip in front of the next step would belong to the step before it
      have hlead : e.leading = [] := by
        rw [Derivation.symbols_shed] at he
        cases hl : e.leading with
        | nil => rfl
        | cons text texts =>
            rw [hl] at he
            have hnext := hs.first?_ne_tooltip (by simp) text
            rw [Token.first?_eq, he] at hnext
            exact absurd rfl hnext
      exact ⟨.gap d e, by simp [hd, he], rfl, ⟨hg, hlead, hge⟩,
        by simp [Derivation.isAmbiguous_tree.mp ha, hm, hl, hle]⟩
  | lastTerm ha hnext ih =>
      obtain ⟨d, hd, rfl, hg, hl⟩ := ih
      exact ⟨.lastTerm d, hd, rfl, hg, by simpa using hl⟩
  | plus ha ht hstart has ih1 ih2 =>
      obtain ⟨d, hd, rfl, hg, hl⟩ := ih1
      obtain ⟨e, he, rfl, hge, hle⟩ := ih2
      exact ⟨.plus d e, by simp [hd, ht, he], rfl, ⟨hg, hge⟩, by simp [hl, hle]⟩
  | lastAlternative ha hnext ih =>
      obtain ⟨d, hd, rfl, hg, hl⟩ := ih
      exact ⟨.lastAlternative d, hd, rfl, hg, by simpa using hl⟩
  | slash ha ht hstart has ih1 ih2 =>
      obtain ⟨d, hd, rfl, hg, hl⟩ := ih1
      obtain ⟨e, he, rfl, hge, hle⟩ := ih2
      exact ⟨.slash d e, by simp [hd, ht, he], rfl, ⟨hg, hge⟩, by simp [hl, hle]⟩
  | @alternative first ts a after ha ih =>
      obtain ⟨d, hd, rfl, hg, hl⟩ := ih
      obtain ⟨front, hfront, hts⟩ := exists_markers ts
      obtain ⟨back, hback, hafter⟩ := exists_markers after
      exact ⟨.alternative front d back, by simp [hts, hd, hafter], by simp [hfront, hback], hg,
        by simpa using hl⟩
  | fused ht hf hu =>
      rw [fusionAt?_empty hc] at hf
      cases hf
  | @plain first t w rest u ht hf hu =>
      rw [plainWord_eq hmode] at hu ⊢
      obtain ⟨hw, -, rfl⟩ := AbilityUse.build_eq_ok_iff.mp hu
      exact ⟨.word w, by simp [ht], rfl, trivial, by simpa using hw⟩
  | group ht hne hss hu ih =>
      obtain ⟨d, hd, rfl, hg, hl⟩ := ih
      exact ⟨.group d, by simp [ht, hd, hu], rfl, hg, by simpa using hl⟩

/-! ### Recognition -/

/-- Tokens describe the tree of a greedy derivation of their symbols. -/
lemma stepsOfTokens_eq_ok_iff_tree {rules : Rules} (hc : rules.catalog = Catalog.empty)
    (hmode : rules.adjacentWords ≠ .join) {ts : List Token} {steps : List Step} :
    Rotation.stepsOfTokens rules ts = .ok steps ↔
      ∃ d : Derivation .expression, d.symbols = Token.symbols ts ∧ d.Greedy ∧
        d.Licensed rules.adjacentWords ∧ d.tree rules.perInstance = steps := by
  rw [stepsOfTokens_eq_ok_iff]
  constructor
  · intro h
    obtain ⟨d, hd, htree, hg, hl⟩ := h.derivation hc hmode
    exact ⟨d, by simpa using hd.symm, hg, hl, htree⟩
  · rintro ⟨d, hd, hg, hl, rfl⟩
    have h : Reads rules .expression (ts ++ []) _ [] :=
      d.reads hc hmode hg hl hd.symm (.inl rfl)
    rwa [List.append_nil] at h

/-- **The descent recognizes the grammar.**  Without modifiers and without joining words, tokens
whose words are not blank, as those of texts are, describe steps exactly if their symbols have a
derivation in which no term between two others has more than one alternative and, where neighbours
without an operator are a fault, each boundary is an arrow.  The steps are then the tree of the
derivation in which each tooltip right behind an operand belongs to it. -/
theorem stepsOfTokens_iff_derivation {mode : AdjacentWords} (hmode : mode ≠ .join)
    (perInstance : Table Overrides) (ts : List Token) :
    ((∃ steps, Rotation.stepsOfTokens ⟨Catalog.empty, mode, perInstance⟩ ts = .ok steps) ↔
      Named (Token.symbols ts) ∧ ∃ d : Derivation .expression,
        d.symbols = Token.symbols ts ∧ d.Unambiguous ∧ (mode = .error → d.Bounded)) ∧
    ∀ steps, Rotation.stepsOfTokens ⟨Catalog.empty, mode, perInstance⟩ ts = .ok steps ↔
      Named (Token.symbols ts) ∧ ∃ d : Derivation .expression,
        d.symbols = Token.symbols ts ∧ d.Unambiguous ∧ (mode = .error → d.Bounded) ∧
          d.Greedy ∧ d.tree perInstance = steps := by
  have hgreedy : ∀ steps,
      Rotation.stepsOfTokens ⟨Catalog.empty, mode, perInstance⟩ ts = .ok steps ↔
        Named (Token.symbols ts) ∧ ∃ d : Derivation .expression,
          d.symbols = Token.symbols ts ∧ d.Unambiguous ∧ (mode = .error → d.Bounded) ∧
            d.Greedy ∧ d.tree perInstance = steps := by
    intro steps
    rw [stepsOfTokens_eq_ok_iff_tree rfl hmode]
    constructor
    · rintro ⟨d, hd, hg, hl, htree⟩
      exact ⟨hd ▸ hl.named, d, hd, hl.unambiguous, hl.bounded, hg, htree⟩
    · rintro ⟨hn, d, hd, hu, hb, hg, htree⟩
      exact ⟨d, hd, hg, ⟨hu, hb, hd ▸ hn⟩, htree⟩
  refine ⟨⟨?_, ?_⟩, hgreedy⟩
  · rintro ⟨steps, h⟩
    obtain ⟨hn, d, hd, hu, hb, -⟩ := (hgreedy steps).mp h
    exact ⟨hn, d, hd, hu, hb⟩
  · rintro ⟨hn, d, hd, hu, hb⟩
    -- any derivation will do: settled, it derives the same symbols and is greedy
    refine ⟨d.settle.tree perInstance, (hgreedy _).mpr ⟨hn, d.settle, d.symbols_settle.trans hd,
      ?_, ?_, d.greedy_settle, rfl⟩⟩
    · exact Derivation.unambiguous_settle d |>.mpr hu
    · exact fun h => Derivation.bounded_settle d |>.mpr (hb h)

/-- In `assault (pool) chain`, the tooltip belongs to the first of the two steps. -/
theorem stepsOfTokens_tooltip_between :
    AdjacentWords.steps ≠ .join ∧
      Rotation.stepsOfTokens ⟨Catalog.empty, .steps, Table.empty⟩
          [⟨.word ⟨"assault", none⟩, 0, false⟩, ⟨.tooltip "pool", 8, false⟩,
            ⟨.word ⟨"chain", none⟩, 15, false⟩] =
        .ok [[[.ability { key := "assault" }, .marker "pool"]],
          [[.ability { key := "chain" }]]] := by
  have hmode : AdjacentWords.steps ≠ .join := by decide
  have hsingle : Derivation.SingleBetween [1] := fun i hi hpos => by simp at hi
  refine ⟨hmode, ((stepsOfTokens_iff_derivation hmode Table.empty _).2 _).mpr ⟨?_,
    .gap (.lastTerm (.lastAlternative (.alternative [] (.word ⟨"assault", none⟩) ["pool"])))
      (.lastStep (.lastTerm (.lastAlternative (.alternative [] (.word ⟨"chain", none⟩) [])))),
    rfl, by simp [hsingle], by simp, by simp, rfl⟩⟩
  simp only [Token.symbols_cons, Token.symbols_nil, named_cons, named_nil, Symbol.word.injEq,
    forall_eq, reduceCtorEq, false_imp_iff, implies_true, true_and, and_true]
  decide

end AbilityRotation
