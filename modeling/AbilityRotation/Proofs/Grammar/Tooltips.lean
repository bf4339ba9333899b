import AbilityRotation.Proofs.Descent.Fusions
import AbilityRotation.Proofs.Grammar.Recognition

/-!
Tooltips do not count.

Where no word names a modifier, the tooltips among tokens decide nothing: with or without them the
same steps are described, but for the markers.  In the grammar, a tooltip can stand wherever an
operand ends or begins, which are all places between the symbols of a derivation.
* `Reads.with_catalog`: words that name no modifier are read in the same way with every catalog that
  says so.
* `unmarkedSteps` and `Derivation.unmarked`: steps without markers, a derivation without tooltips.
* `Derivation.derivesApart`: symbols that have a derivation without their tooltips have one with
  them.
* `stepsOfTokens_without_tooltips`: what this means for tokens.
-/

namespace AbilityRotation

/-! ### Words that name no modifiers -/

/-- Whether no word among the symbols names a modifier. -/
def NamesNoModifier (c : Catalog) (ss : List Symbol) : Prop :=
  ∀ w, Symbol.word w ∈ ss → c.resolve w.key = none

/-- The catalog without modifiers knows none. -/
lemma namesNoModifier_empty (ss : List Symbol) : NamesNoModifier Catalog.empty ss := by
  intro w _
  rw [Catalog.resolve]
  cases normalizeKey w.key <;> rfl

lemma NamesNoModifier.of_subset {c : Catalog} {ss ss' : List Symbol} (h : NamesNoModifier c ss)
    (hsub : ss' ⊆ ss) : NamesNoModifier c ss' :=
  fun w hw => h w (hsub hw)

lemma NamesNoModifier.suffix {c : Catalog} {ts us : List Token}
    (h : NamesNoModifier c (Token.symbols ts)) (hsuffix : us <:+ ts) :
    NamesNoModifier c (Token.symbols us) :=
  h.of_subset (List.map_subset _ hsuffix.subset)

namespace Descent

variable {rules : Rules} {p : Phrase} {ts rest : List Token}

/-- Nothing is fused where no word names a modifier. -/
lemma fusionAt?_eq_none (first : Bool) (h : NamesNoModifier rules.catalog (Token.symbols ts)) :
    fusionAt? rules first ts = none := by
  cases hf : fusionAt? rules first ts with
  | none => rfl
  | some f =>
      obtain ⟨t, us, w, m, rfl, ht, hm, -⟩ := exists_of_fusionAt?_eq_some hf
      have hw := h w (by simp [ht])
      cases hw.symm.trans (modifierOf?_eq_some.mp hm).2

/-- **Words that name no modifier are words.**  What is read where no word names a modifier is read
with every other catalog in which none does. -/
theorem Reads.with_catalog {c : Catalog} {v : p.Value} (h : Reads rules p ts v rest)
    (hr : NamesNoModifier rules.catalog (Token.symbols ts))
    (hc : NamesNoModifier c (Token.symbols ts)) :
    Reads { rules with catalog := c } p ts v rest := by
  induction h with
  | lastStep _ ha hend ih => exact .lastStep (ih hr hc) ha hend
  | arrow hs ha ht hstart _ ih1 ih2 =>
      have hsuffix := hs.suffix_behind
      exact .arrow (ih1 hr hc) ha ht hstart (ih2 (hr.suffix hsuffix) (hc.suffix hsuffix))
  | gap hs ha ht hmode _ ih1 ih2 =>
      exact .gap (ih1 hr hc) ha ht hmode (ih2 (hr.suffix hs.suffix) (hc.suffix hs.suffix))
  | lastTerm _ hnext ih => exact .lastTerm (ih hr hc) hnext
  | plus hs ht hstart _ ih1 ih2 =>
      have hsuffix := hs.suffix_behind
      exact .plus (ih1 hr hc) ht hstart (ih2 (hr.suffix hsuffix) (hc.suffix hsuffix))
  | lastAlternative _ hnext ih => exact .lastAlternative (ih hr hc) hnext
  | slash hs ht hstart _ ih1 ih2 =>
      have hsuffix := hs.suffix_behind
      exact .slash (ih1 hr hc) ht hstart (ih2 (hr.suffix hsuffix) (hc.suffix hsuffix))
  | @alternative _ ts _ _ _ ih =>
      have hsuffix := markers_suffix ts
      exact .alternative (ih (hr.suffix hsuffix) (hc.suffix hsuffix))
  | fused _ hf _ => cases hf.symm.trans (fusionAt?_eq_none _ hr)
  | @plain first t _ rest _ ht _ hu =>
      have hf : fusionAt? { rules with catalog := c } first (t :: rest) = none :=
        fusionAt?_eq_none first hc
      exact .plain ht hf hu
  | @group _ t us _ _ _ ht hne _ hu ih =>
      have hsuffix := List.suffix_cons t us
      exact .group ht hne (ih (hr.suffix hsuffix) (hc.suffix hsuffix)) hu

end Descent

open Descent

/-- Tokens whose words name no modifiers describe the tree of a greedy derivation. -/
lemma stepsOfTokens_eq_ok_iff_of_namesNoModifier {rules : Rules} {ts : List Token}
    (hr : NamesNoModifier rules.catalog (Token.symbols ts)) (hmode : rules.adjacentWords ≠ .join)
    {steps : List Step} :
    Rotation.stepsOfTokens rules ts = .ok steps ↔
      ∃ d : Derivation .expression, d.symbols = Token.symbols ts ∧ d.Greedy ∧
        d.Licensed rules.adjacentWords ∧ d.tree rules.perInstance = steps := by
  have hempty := namesNoModifier_empty (Token.symbols ts)
  have hbare : Rotation.stepsOfTokens rules ts = .ok steps ↔
      Rotation.stepsOfTokens { rules with catalog := Catalog.empty } ts = .ok steps := by
    rw [stepsOfTokens_eq_ok_iff, stepsOfTokens_eq_ok_iff]
    exact ⟨fun h => h.with_catalog hr hempty, fun h => h.with_catalog hempty hr⟩
  have hcatalog : { rules with catalog := Catalog.empty }.catalog = Catalog.empty := rfl
  exact hbare.trans (stepsOfTokens_eq_ok_iff_tree hcatalog hmode)

/-! ### Steps without markers -/

mutual

/-- An alternative without the markers in its group. -/
def Alternative.unmarked : Alternative → Alternative
  | .ability use => .ability use
  | .marker text kind => .marker text kind
  | .group steps abilityOverrides => .group (unmarkedSteps steps) abilityOverrides

/-- The alternatives of a term without the markers among and in them. -/
def unmarkedTerm : List Alternative → List Alternative
  | [] => []
  | a :: rest => if a.isChoice then a.unmarked :: unmarkedTerm rest else unmarkedTerm rest

/-- The terms of a step without the markers in them. -/
def unmarkedStep : List (List Alternative) → List (List Alternative)
  | [] => []
  | t :: rest => unmarkedTerm t :: unmarkedStep rest

/-- Steps without markers, at every depth of groups. -/
def unmarkedSteps : List (List (List Alternative)) → List (List (List Alternative))
  | [] => []
  | s :: rest => unmarkedStep s :: unmarkedSteps rest

end

lemma unmarkedTerm_append (a b : List Alternative) :
    unmarkedTerm (a ++ b) = unmarkedTerm a ++ unmarkedTerm b := by
  induction a with
  | nil => rfl
  | cons x a ih =>
      rw [List.cons_append, unmarkedTerm, unmarkedTerm, ih]
      split <;> rfl

lemma unmarkedTerm_markers (texts : List String) :
    unmarkedTerm (texts.map (Alternative.marker ·)) = [] := by
  induction texts with
  | nil => rfl
  | cons text texts ih => exact ih

/-- What a rule reads, without markers. -/
def Descent.Phrase.unmarked : (p : Phrase) → p.Value → p.Value
  | .expression, v => unmarkedSteps v
  | .terms, v => unmarkedStep v
  | .term _, v => unmarkedTerm v
  | .alternative _, v => unmarkedTerm v
  | .operand _, v => v.unmarked

/-! ### Derivations without tooltips -/

/-- Whether the symbol is a tooltip. -/
def Symbol.isTooltip : Symbol → Bool
  | .tooltip _ => true
  | _ => false

/-- The symbols that are no tooltips. -/
def withoutTooltips (ss : List Symbol) : List Symbol :=
  ss.filter fun s => !s.isTooltip

@[simp] lemma withoutTooltips_nil : withoutTooltips [] = [] := rfl

@[simp] lemma withoutTooltips_append (ss ss' : List Symbol) :
    withoutTooltips (ss ++ ss') = withoutTooltips ss ++ withoutTooltips ss' :=
  List.filter_append ss ss'

@[simp] lemma withoutTooltips_cons (s : Symbol) (ss : List Symbol) :
    withoutTooltips (s :: ss) =
      if s.isTooltip then withoutTooltips ss else s :: withoutTooltips ss := by
  cases hs : s.isTooltip <;> simp [withoutTooltips, hs]

@[simp] lemma withoutTooltips_tooltips (texts : List String) :
    withoutTooltips (texts.map .tooltip) = [] := by
  induction texts with
  | nil => rfl
  | cons text texts ih => exact ih

@[simp] lemma withoutTooltips_withoutTooltips (ss : List Symbol) :
    withoutTooltips (withoutTooltips ss) = withoutTooltips ss := by
  simp [withoutTooltips]

/-- Symbols of which nothing remains are tooltips. -/
lemma exists_tooltips {ss : List Symbol} (h : withoutTooltips ss = []) :
    ∃ texts : List String, ss = texts.map .tooltip := by
  induction ss with
  | nil => exact ⟨[], rfl⟩
  | cons s ss ih =>
      cases s with
      | tooltip text =>
          obtain ⟨texts, rfl⟩ := ih h
          exact ⟨text :: texts, rfl⟩
      | _ => cases h

/-- Symbols of which `s` and others remain are tooltips, `s` and what the others remain of. -/
lemma exists_of_withoutTooltips_eq_cons {ss rest : List Symbol} {s : Symbol}
    (h : withoutTooltips ss = s :: rest) :
    ∃ (texts : List String) (ss' : List Symbol), ss = texts.map .tooltip ++ s :: ss' ∧
      withoutTooltips ss' = rest := by
  obtain ⟨front, back, rfl, hfront, -, hback⟩ := List.filter_eq_cons_iff.mp h
  obtain ⟨texts, rfl⟩ := exists_tooltips (List.filter_eq_nil_iff.mpr hfront)
  exact ⟨texts, back, rfl, hback⟩

/-- Symbols of which two parts remain are two parts. -/
lemma exists_of_withoutTooltips_eq_append {ss a b : List Symbol}
    (h : withoutTooltips ss = a ++ b) :
    ∃ x y, ss = x ++ y ∧ withoutTooltips x = a ∧ withoutTooltips y = b :=
  List.filter_eq_append_iff.mp h

namespace Derivation

variable {p : Phrase} {first : Bool}

/-- The derivation without tooltips. -/
@[simp] def unmarked : {p : Phrase} → Derivation p → Derivation p
  | _, lastStep s => lastStep s.unmarked
  | _, arrow s e => arrow s.unmarked e.unmarked
  | _, gap s e => gap s.unmarked e.unmarked
  | _, lastTerm t => lastTerm t.unmarked
  | _, plus t s => plus t.unmarked s.unmarked
  | _, lastAlternative a => lastAlternative a.unmarked
  | _, slash a t => slash a.unmarked t.unmarked
  | _, alternative _ o _ => alternative [] o.unmarked []
  | _, word w => word w
  | _, group e => group e.unmarked

lemma symbols_unmarked (d : Derivation p) : d.unmarked.symbols = withoutTooltips d.symbols := by
  induction d <;> simp_all [Symbol.isTooltip]

@[simp] lemma unmarked_unmarked (d : Derivation p) : d.unmarked.unmarked = d.unmarked := by
  induction d <;> simp_all

/-- The tree of the derivation without tooltips is the tree without markers. -/
lemma tree_unmarked (perInstance : Table Overrides) (d : Derivation p) :
    d.unmarked.tree perInstance = p.unmarked (d.tree perInstance) := by
  induction d with
  | word w => rfl
  | lastStep s ih | lastTerm s ih => exact congrArg (fun x => [x]) ih
  | arrow s e ihs ihe | gap s e ihs ihe | plus s e ihs ihe => exact congrArg₂ List.cons ihs ihe
  | lastAlternative a ih => exact ih
  | slash a t iha iht =>
      rw [unmarked, tree, iha, iht]
      exact (unmarkedTerm_append _ _).symm
  | alternative front o back ih =>
      rw [unmarked, tree, ih, tree, Phrase.unmarked, unmarkedTerm_append, unmarkedTerm_markers,
        unmarkedTerm, if_pos (isChoice_tree perInstance o), unmarkedTerm_markers]
      rfl
  | group e ih => exact congrArg (Alternative.group · Table.empty) ih

@[simp] lemma leading_unmarked (d : Derivation p) : d.unmarked.leading = [] := by
  induction d <;> simp_all

@[simp] lemma greedy_unmarked (d : Derivation p) : d.unmarked.Greedy := by
  induction d <;> simp_all

@[simp] lemma width_unmarked {first : Bool} (t : Derivation (.term first)) :
    t.unmarked.width = t.width := by
  match t with
  | lastAlternative a => simp
  | slash a t => simp [width_unmarked t]

@[simp] lemma widths_unmarked (s : Derivation .terms) : s.unmarked.widths = s.widths := by
  match s with
  | lastTerm t => simp
  | plus t s => simp [widths_unmarked s]

@[simp] lemma unambiguous_unmarked (d : Derivation p) :
    d.unmarked.Unambiguous ↔ d.Unambiguous := by
  induction d <;> simp_all

@[simp] lemma bounded_unmarked (d : Derivation p) : d.unmarked.Bounded ↔ d.Bounded := by
  induction d <;> simp_all

/-! ### Tooltips can stand anywhere -/

/-- Whether the symbols have the derivation `d` but for tooltips.  The tooltips around an operand
belong to its alternative. -/
def DerivesApart : {p : Phrase} → Derivation p → List Symbol → Prop
  | .operand first, d, ss => ∃ (front back : List String) (o : Derivation (.operand first)),
      ss = front.map .tooltip ++ o.symbols ++ back.map .tooltip ∧ o.unmarked = d.unmarked
  | _, d, ss => ∃ d' : Derivation _, d'.symbols = ss ∧ d'.unmarked = d.unmarked

/-- **Tooltips can stand anywhere.**  Symbols that are derived without their tooltips are derived
with them, in the same way but for tooltips. -/
theorem derivesApart (d : Derivation p) {ss : List Symbol}
    (h : withoutTooltips ss = d.unmarked.symbols) : d.DerivesApart ss := by
  induction d generalizing ss with
  | lastStep s ih =>
      obtain ⟨s', rfl, hs⟩ := ih h
      exact ⟨lastStep s', rfl, congrArg lastStep hs⟩
  | arrow s e ihs ihe =>
      obtain ⟨x, y, rfl, hx, hy⟩ := exists_of_withoutTooltips_eq_append h
      obtain ⟨texts, z, rfl, hz⟩ := exists_of_withoutTooltips_eq_cons hy
      -- tooltips in front of the arrow stand behind the step
      obtain ⟨s', hs', hs⟩ := @ihs (x ++ texts.map .tooltip) (by simpa using hx)
      obtain ⟨e', rfl, he⟩ := ihe hz
      exact ⟨arrow s' e', by simp [hs'], congrArg₂ arrow hs he⟩
  -- there is no operator, so a tooltip in the gap stands in front of the step behind it
  | gap s e ihs ihe =>
      obtain ⟨x, y, rfl, hx, hy⟩ := exists_of_withoutTooltips_eq_append h
      obtain ⟨s', rfl, hs⟩ := ihs hx
      obtain ⟨e', rfl, he⟩ := ihe hy
      exact ⟨gap s' e', rfl, congrArg₂ gap hs he⟩
  | lastTerm t ih =>
      obtain ⟨t', rfl, ht⟩ := ih h
      exact ⟨lastTerm t', rfl, congrArg lastTerm ht⟩
  | plus t s iht ihs =>
      obtain ⟨x, y, rfl, hx, hy⟩ := exists_of_withoutTooltips_eq_append h
      obtain ⟨texts, z, rfl, hz⟩ := exists_of_withoutTooltips_eq_cons hy
      obtain ⟨t', ht', ht⟩ := @iht (x ++ texts.map .tooltip) (by simpa using hx)
      obtain ⟨s', rfl, hs⟩ := ihs hz
      exact ⟨plus t' s', by simp [ht'], congrArg₂ plus ht hs⟩
  | lastAlternative a ih =>
      obtain ⟨a', rfl, ha⟩ := ih h
      exact ⟨lastAlternative a', rfl, congrArg lastAlternative ha⟩
  | slash a t iha iht =>
      obtain ⟨x, y, rfl, hx, hy⟩ := exists_of_withoutTooltips_eq_append h
      obtain ⟨texts, z, rfl, hz⟩ := exists_of_withoutTooltips_eq_cons hy
      obtain ⟨a', ha', ha⟩ := @iha (x ++ texts.map .tooltip) (by simpa using hx)
      obtain ⟨t', rfl, ht⟩ := iht hz
      exact ⟨slash a' t', by simp [ha'], congrArg₂ slash ha ht⟩
  | alternative _ o _ ih =>
      obtain ⟨front, back, o', rfl, ho⟩ := ih (by simpa using h)
      exact ⟨alternative front o' back, rfl, congrArg (alternative [] · []) ho⟩
  | word w =>
      obtain ⟨front, rest, rfl, hrest⟩ := exists_of_withoutTooltips_eq_cons h
      obtain ⟨back, rfl⟩ := exists_tooltips hrest
      exact ⟨front, back, word w, by simp, rfl⟩
  | group e ih =>
      obtain ⟨front, rest, rfl, hrest⟩ := exists_of_withoutTooltips_eq_cons h
      obtain ⟨x, y, rfl, hx, hy⟩ := exists_of_withoutTooltips_eq_append hrest
      obtain ⟨texts, z, rfl, hz⟩ := exists_of_withoutTooltips_eq_cons hy
      obtain ⟨back, rfl⟩ := exists_tooltips hz
      -- tooltips in front of the closing parenthesis stand behind the steps of the group
      obtain ⟨e', he', he⟩ := @ih (x ++ texts.map .tooltip) (by simpa using hx)
      exact ⟨front, back, group e', by simp [he'], congrArg group he⟩

end Derivation

/-! ### Tokens without tooltips -/

/-- Tokens without the tooltips among them. -/
def Token.dropTooltips (ts : List Token) : List Token :=
  ts.filter fun t => !t.symbol.isTooltip

lemma Token.symbols_dropTooltips (ts : List Token) :
    Token.symbols (Token.dropTooltips ts) = withoutTooltips (Token.symbols ts) := by
  rw [Token.symbols, Token.dropTooltips, withoutTooltips, Token.symbols, List.filter_map]
  rfl

/-- The words among symbols are there without the tooltips. -/
lemma mem_withoutTooltips {ss : List Symbol} {w : Word} :
    Symbol.word w ∈ withoutTooltips ss ↔ Symbol.word w ∈ ss := by
  simp [withoutTooltips, Symbol.isTooltip]

lemma named_withoutTooltips {ss : List Symbol} : Named (withoutTooltips ss) ↔ Named ss := by
  simp only [Named, mem_withoutTooltips]

namespace Derivation

variable {mode : AdjacentWords} {d d' : Derivation .expression}

/-- Two derivations that differ in tooltips alone are licensed alike. -/
lemma Licensed.of_unmarked_eq (h : d.Licensed mode) (heq : d'.unmarked = d.unmarked) :
    d'.Licensed mode where
  unambiguous := by
    rw [← unambiguous_unmarked, heq, unambiguous_unmarked]
    exact h.unambiguous
  bounded hmode := by
    rw [← bounded_unmarked, heq, bounded_unmarked]
    exact h.bounded hmode
  named := by
    rw [← named_withoutTooltips, ← symbols_unmarked, heq, symbols_unmarked, named_withoutTooltips]
    exact h.named

lemma Licensed.settle (h : d.Licensed mode) : d.settle.Licensed mode where
  unambiguous := unambiguous_settle d |>.mpr h.unambiguous
  bounded hmode := bounded_settle d |>.mpr (h.bounded hmode)
  named := by
    rw [d.symbols_settle]
    exact h.named

end Derivation

/-- **Tooltips do not count.**  Where no word names a modifier and words are not joined, tokens
describe steps exactly if they do so without their tooltips, and these steps are then the same
without the markers. -/
theorem stepsOfTokens_without_tooltips {rules : Rules} {ts : List Token}
    (hc : NamesNoModifier rules.catalog (Token.symbols ts)) (hmode : rules.adjacentWords ≠ .join) :
    ((∃ steps, Rotation.stepsOfTokens rules ts = .ok steps) ↔
      ∃ steps, Rotation.stepsOfTokens rules (Token.dropTooltips ts) = .ok steps) ∧
    ∀ steps, Rotation.stepsOfTokens rules ts = .ok steps →
      Rotation.stepsOfTokens rules (Token.dropTooltips ts) = .ok (unmarkedSteps steps) := by
  have hsymbols : Token.symbols (Token.dropTooltips ts) = withoutTooltips (Token.symbols ts) :=
    Token.symbols_dropTooltips ts
  have hc' : NamesNoModifier rules.catalog (Token.symbols (Token.dropTooltips ts)) := fun w hw =>
    hc w (mem_withoutTooltips.mp (hsymbols ▸ hw))
  have hremoved : ∀ steps, Rotation.stepsOfTokens rules ts = .ok steps →
      Rotation.stepsOfTokens rules (Token.dropTooltips ts) = .ok (unmarkedSteps steps) := by
    intro steps h
    obtain ⟨d, hd, -, hlicensed, rfl⟩ :=
      (stepsOfTokens_eq_ok_iff_of_namesNoModifier hc hmode).mp h
    refine (stepsOfTokens_eq_ok_iff_of_namesNoModifier hc' hmode).mpr
      ⟨d.unmarked, ?_, d.greedy_unmarked, hlicensed.of_unmarked_eq d.unmarked_unmarked,
        d.tree_unmarked rules.perInstance⟩
    rw [d.symbols_unmarked, hd, hsymbols]
  refine ⟨⟨fun ⟨steps, h⟩ => ⟨_, hremoved steps h⟩, ?_⟩, hremoved⟩
  rintro ⟨steps, h⟩
  obtain ⟨d, hd, -, hlicensed, -⟩ := (stepsOfTokens_eq_ok_iff_of_namesNoModifier hc' hmode).mp h
  -- conversely, the tooltips are put back into the derivation without them
  have hapart : withoutTooltips (Token.symbols ts) = d.unmarked.symbols := by
    rw [d.symbols_unmarked, hd, hsymbols, withoutTooltips_withoutTooltips]
  obtain ⟨d', hd', hunmarked⟩ := d.derivesApart hapart
  -- of the derivations with the tooltips, the greedy one describes the steps
  refine ⟨_, (stepsOfTokens_eq_ok_iff_of_namesNoModifier hc hmode).mpr
    ⟨d'.settle, ?_, d'.greedy_settle, (hlicensed.of_unmarked_eq hunmarked).settle, rfl⟩⟩
  rw [d'.symbols_settle, hd']

/-- `(pool) assault chain` with the modifiers that are known by default. -/
theorem stepsOfTokens_without_pool :
    NamesNoModifier Catalog.default (Token.symbols
        [⟨.tooltip "pool", 0, false⟩, ⟨.word ⟨"assault", none⟩, 7, false⟩,
          ⟨.word ⟨"chain", none⟩, 15, false⟩]) ∧
      AdjacentWords.steps ≠ .join ∧
      ∃ steps, Rotation.stepsOfTokens {}
        [⟨.word ⟨"assault", none⟩, 7, false⟩, ⟨.word ⟨"chain", none⟩, 15, false⟩] = .ok steps := by
  have hc : NamesNoModifier ({} : Rules).catalog (Token.symbols
      [⟨.tooltip "pool", 0, false⟩, ⟨.word ⟨"assault", none⟩, 7, false⟩,
        ⟨.word ⟨"chain", none⟩, 15, false⟩]) := by
    intro w hw
    simp only [Token.symbols_cons, Token.symbols_nil, List.mem_cons, reduceCtorEq,
      Symbol.word.injEq, List.not_mem_nil, false_or, or_false] at hw
    obtain rfl | rfl := hw <;> decide
  have hmode : ({} : Rules).adjacentWords ≠ .join := by decide
  have hsingle : Derivation.SingleBetween [1] := fun i hi hpos => by simp at hi
  refine ⟨hc, hmode, (stepsOfTokens_without_tooltips hc hmode).1.mp ⟨_,
    (stepsOfTokens_eq_ok_iff_of_namesNoModifier hc hmode).mpr ⟨
      .gap (.lastTerm (.lastAlternative (.alternative ["pool"] (.word ⟨"assault", none⟩) [])))
        (.lastStep (.lastTerm (.lastAlternative (.alternative [] (.word ⟨"chain", none⟩) [])))),
      rfl, by simp, ⟨by simp [hsingle], by simp, ?_⟩, rfl⟩⟩⟩
  change Named [.tooltip "pool", .word ⟨"assault", none⟩, .word ⟨"chain", none⟩]
  simp only [named_cons, named_nil, Symbol.word.injEq, forall_eq, reduceCtorEq, false_imp_iff,
    implies_true, true_and, and_true]
  decide

end AbilityRotation
