import AbilityRotation.Proofs.Descent.Uses
import AbilityRotation.Proofs.Grammar.Tooltips

/-!
Tooltips in front of abilities.

Where no operand ends, a tooltip can be put in front of a word, and it becomes a marker directly in
front of what the word stands for.  A plus between the two is not part of the grammar.
* `annotateSteps`: steps with one more marker in front of one of their abilities.
* `Derivation.abilities_tree`: the abilities of a derivation are its words, in their order.
* `Derivation.exists_annotated`: the derivation with one more tooltip.
* `Derivation.exists_getLast_before_plus`: in front of a plus an operand ends.
* `stepsOfTokens_annotated` and `stepsOfTokens_ne_ok_of_plus`: what this means for tokens.
-/

namespace AbilityRotation

open Descent (Phrase)

/-! ### Steps with one more marker -/

mutual

/-- An alternative with one more marker, which stands in front of the ability with the index `k` in
its group. -/
def Alternative.annotate (text : String) : Alternative → ℕ → Alternative
  | .ability use, _ => .ability use
  | .marker shown kind, _ => .marker shown kind
  | .group steps abilityOverrides, k => .group (annotateSteps text steps k) abilityOverrides

/-- A term with one more marker, in front of the ability with the index `k`. -/
def annotateTerm (text : String) : List Alternative → ℕ → List Alternative
  | [], _ => []
  | a :: rest, k =>
      if k < a.abilities.length then
        if a.isAbility then .marker text :: a :: rest else a.annotate text k :: rest
      else a :: annotateTerm text rest (k - a.abilities.length)

/-- A step with one more marker, in front of the ability with the index `k`. -/
def annotateStep (text : String) : List (List Alternative) → ℕ → List (List Alternative)
  | [], _ => []
  | t :: rest, k =>
      if k < (abilitiesOfTerm t).length then annotateTerm text t k :: rest
      else t :: annotateStep text rest (k - (abilitiesOfTerm t).length)

/-- Steps with one more marker, in front of the ability with the index `k`; the abilities are
counted from left to right, those in groups included. -/
def annotateSteps (text : String) :
    List (List (List Alternative)) → ℕ → List (List (List Alternative))
  | [], _ => []
  | s :: rest, k =>
      if k < (abilitiesOfStep s).length then annotateStep text s k :: rest
      else s :: annotateSteps text rest (k - (abilitiesOfStep s).length)

end

section Annotate

variable {text : String} {k : ℕ} {a : Alternative} {s t : List Alternative}
  {x : List (List Alternative)}

lemma annotateTerm_append_left (h : k < (abilitiesOfTerm s).length) (t : List Alternative) :
    annotateTerm text (s ++ t) k = annotateTerm text s k ++ t := by
  induction s generalizing k with
  | nil => cases h
  | cons a s ih =>
      rw [List.cons_append, annotateTerm, annotateTerm]
      by_cases ha : k < a.abilities.length
      · rw [if_pos ha, if_pos ha]
        split <;> rfl
      · rw [abilitiesOfTerm, List.length_append] at h
        rw [if_neg ha, if_neg ha, ih (by omega), List.cons_append]

lemma annotateTerm_append_right (text : String) (s t : List Alternative) (k : ℕ) :
    annotateTerm text (s ++ t) ((abilitiesOfTerm s).length + k) = s ++ annotateTerm text t k := by
  induction s with
  | nil => rw [List.nil_append, abilitiesOfTerm, List.length_nil, Nat.zero_add, List.nil_append]
  | cons a s ih =>
      rw [List.cons_append, annotateTerm, abilitiesOfTerm, List.length_append, if_neg (by omega),
        Nat.add_assoc, Nat.add_sub_cancel_left, ih, List.cons_append]

lemma annotateStep_head (h : k < (abilitiesOfTerm t).length) (x : List (List Alternative)) :
    annotateStep text (t :: x) k = annotateTerm text t k :: x := by
  rw [annotateStep, if_pos h]

lemma annotateStep_tail (t : List Alternative) (x : List (List Alternative)) (k : ℕ) :
    annotateStep text (t :: x) ((abilitiesOfTerm t).length + k) =
      t :: annotateStep text x k := by
  rw [annotateStep, if_neg (by omega), Nat.add_sub_cancel_left]

lemma annotateSteps_head (h : k < (abilitiesOfStep x).length) (xs : List Step) :
    annotateSteps text (x :: xs) k = annotateStep text x k :: xs := by
  rw [annotateSteps, if_pos h]

lemma annotateSteps_tail (x : Step) (xs : List Step) (k : ℕ) :
    annotateSteps text (x :: xs) ((abilitiesOfStep x).length + k) =
      x :: annotateSteps text xs k := by
  rw [annotateSteps, if_neg (by omega), Nat.add_sub_cancel_left]

end Annotate

/-- What a rule reads, with one more marker. -/
def Descent.Phrase.annotate (text : String) : (p : Phrase) → p.Value → ℕ → p.Value
  | .expression, v, k => annotateSteps text v k
  | .terms, v, k => annotateStep text v k
  | .term _, v, k => annotateTerm text v k
  | .alternative _, v, k => annotateTerm text v k
  | .operand _, v, k => v.annotate text k

/-! ### The words of symbols -/

/-- The word that a symbol is. -/
def Symbol.word? : Symbol → Option Word
  | .word w => some w
  | _ => none

/-- The words among symbols. -/
def wordsOf (ss : List Symbol) : List Word :=
  ss.filterMap Symbol.word?

@[simp] lemma wordsOf_nil : wordsOf [] = [] := rfl

@[simp] lemma wordsOf_append (ss ss' : List Symbol) :
    wordsOf (ss ++ ss') = wordsOf ss ++ wordsOf ss' :=
  List.filterMap_append

@[simp] lemma wordsOf_cons (s : Symbol) (ss : List Symbol) :
    wordsOf (s :: ss) = s.word?.toList ++ wordsOf ss := by
  cases hs : s.word? <;> simp [wordsOf, hs]

@[simp] lemma wordsOf_tooltips (texts : List String) : wordsOf (texts.map .tooltip) = [] := by
  induction texts with
  | nil => rfl
  | cons text texts ih => exact ih

namespace Derivation

variable {p : Phrase} {text : String} {ss ss' : List Symbol} {w : Word}

/-- The use of an ability for which a word stands. -/
def useOf (perInstance : Table Overrides) (w : Word) : AbilityUse :=
  ⟨w.key, [], w.label.bind perInstance.get?, w.label⟩

/-- The abilities of a derivation are its words. -/
theorem abilities_tree (perInstance : Table Overrides) (d : Derivation p) :
    p.abilities (d.tree perInstance) = (wordsOf d.symbols).map (useOf perInstance) := by
  induction d with
  | lastStep s ih =>
      rw [tree, Phrase.abilities, abilitiesOfSteps, abilitiesOfSteps, List.append_nil]
      exact ih
  | lastTerm t ih =>
      rw [tree, Phrase.abilities, abilitiesOfStep, abilitiesOfStep, List.append_nil]
      exact ih
  | arrow s e ihs ihe | gap s e ihs ihe | plus s e ihs ihe =>
      simp only [symbols, wordsOf_append, wordsOf_cons, Symbol.word?, Option.toList_none,
        List.nil_append, List.map_append, ← ihs, ← ihe]
      rfl
  | lastAlternative a ih => exact ih
  | slash a t iha iht =>
      simp only [symbols, wordsOf_append, wordsOf_cons, Symbol.word?, Option.toList_none,
        List.nil_append, List.map_append, ← iha, ← iht]
      exact abilitiesOfTerm_append _ _
  | alternative front o back ih =>
      rw [tree, Phrase.abilities, abilitiesOfTerm_append, abilitiesOfTerm_markers, abilitiesOfTerm,
        abilitiesOfTerm_markers]
      simpa [Phrase.abilities] using ih
  | word w => rfl
  | group e ih =>
      rw [tree, Phrase.abilities, Alternative.abilities]
      simpa [Phrase.abilities, Symbol.word?] using ih

/-- A derivation has as many abilities as words. -/
lemma length_abilities_tree (perInstance : Table Overrides) (d : Derivation p) :
    (p.abilities (d.tree perInstance)).length = (wordsOf d.symbols).length := by
  rw [abilities_tree, List.length_map]

/-! ### Where symbols stand -/

lemma mem_getLast_behind {a b : List Symbol} {s x : Symbol} (h : x ∈ b.getLast?) :
    x ∈ (a ++ s :: b).getLast? :=
  List.mem_getLast?_append_of_mem_getLast? (List.mem_getLast?_cons h)

lemma ne_append_cons_of_tooltips {texts : List String} {a b : List Symbol} {s : Symbol}
    (hs : ∀ text, s ≠ .tooltip text) : texts.map .tooltip ≠ a ++ s :: b := by
  intro h
  have hmem : s ∈ texts.map .tooltip := by simp [h]
  obtain ⟨text, -, heq⟩ := List.mem_map.mp hmem
  exact hs text heq.symm

/-- A symbol of an alternative that is no tooltip is one of the operand. -/
lemma exists_of_alternative_eq {first : Bool} {front back : List String}
    {o : Derivation (.operand first)} {a b : List Symbol} {s : Symbol}
    (hs : ∀ text, s ≠ .tooltip text)
    (h : (alternative front o back).symbols = a ++ s :: b) :
    ∃ c c', o.symbols = c ++ s :: c' ∧ a = front.map .tooltip ++ c ∧
      b = c' ++ back.map .tooltip := by
  rcases exists_of_append_eq_append_cons h with ⟨c', hc', rfl⟩ | ⟨c, hc, -⟩
  · rcases exists_of_append_eq_append_cons hc' with ⟨c, hc, -⟩ | ⟨c, hc, rfl⟩
    · exact absurd hc (ne_append_cons_of_tooltips hs)
    · exact ⟨c, c', hc, rfl, rfl⟩
  · exact absurd hc (ne_append_cons_of_tooltips hs)

/-- A symbol of a group that is no parenthesis is one of the expression in it. -/
lemma exists_of_group_eq {first : Bool} {e : Derivation .expression} {a b : List Symbol}
    {s : Symbol} (hopening : s ≠ .opening) (hclosing : s ≠ .closing)
    (h : (group e : Derivation (.operand first)).symbols = a ++ s :: b) :
    ∃ c c', e.symbols = c ++ s :: c' ∧ a = .opening :: c ∧ b = c' ++ [.closing] := by
  obtain ⟨c, hc, rfl⟩ := exists_of_cons_eq_append_cons hopening.symm h
  rcases exists_of_append_cons_eq_append_cons hclosing.symm hc with ⟨c', hc', rfl⟩ | ⟨c', hc', -⟩
  · exact ⟨c, c', hc', rfl, rfl⟩
  · simp at hc'

/-- Where a derivation ends, an operand ends. -/
lemma exists_getLast_symbols (d : Derivation p) :
    ∃ s ∈ d.symbols.getLast?, s.endsOperand = true := by
  induction d with
  | lastStep s ih | lastTerm t ih | lastAlternative a ih => exact ih
  | gap s e _ ih =>
      obtain ⟨s, hs, hends⟩ := ih
      exact ⟨s, List.mem_getLast?_append_of_mem_getLast? hs, hends⟩
  | arrow s e _ ih | plus t s _ ih | slash a t _ ih =>
      obtain ⟨s, hs, hends⟩ := ih
      exact ⟨s, mem_getLast_behind hs, hends⟩
  | alternative front o back ih =>
      rcases List.eq_nil_or_concat back with rfl | ⟨back, text, rfl⟩
      · obtain ⟨s, hs, hends⟩ := ih
        rw [symbols, List.map_nil, List.append_nil]
        exact ⟨s, List.mem_getLast?_append_of_mem_getLast? hs, hends⟩
      · exact ⟨.tooltip text, by simp, rfl⟩
  | word w => exact ⟨_, rfl, rfl⟩
  | group e _ => exact ⟨.closing, List.getLast?_concat, rfl⟩

/-- In front of a plus an operand ends. -/
lemma exists_getLast_before_plus (d : Derivation p) (h : d.symbols = ss ++ .plus :: ss') :
    ∃ s ∈ ss.getLast?, s.endsOperand = true := by
  induction d generalizing ss ss' with
  | lastStep s ih | lastTerm t ih | lastAlternative a ih => exact ih h
  | gap s e ihs ihe =>
      rcases exists_of_append_eq_append_cons h with ⟨c, hc, -⟩ | ⟨c, hc, rfl⟩
      · exact ihs hc
      · obtain ⟨s, hs, hends⟩ := ihe hc
        exact ⟨s, List.mem_getLast?_append_of_mem_getLast? hs, hends⟩
  | arrow s e ihs ihe | slash s e ihs ihe =>
      rcases exists_of_append_cons_eq_append_cons (by simp) h with ⟨c, hc, -⟩ | ⟨c, hc, rfl⟩
      · exact ihs hc
      · obtain ⟨s, hs, hends⟩ := ihe hc
        exact ⟨s, mem_getLast_behind hs, hends⟩
  | plus t s iht ihs =>
      rcases exists_of_append_eq_append_cons h with ⟨c, hc, -⟩ | ⟨c, hc, rfl⟩
      · exact iht hc
      -- it may be the plus of this step: then the term in front of it ends there
      · cases c with
        | nil =>
            rw [List.append_nil]
            exact t.exists_getLast_symbols
        | cons s' c =>
            obtain ⟨rfl, hc'⟩ := List.cons.inj hc
            obtain ⟨s, hs, hends⟩ := ihs hc'
            exact ⟨s, mem_getLast_behind hs, hends⟩
  | alternative front o back ih =>
      obtain ⟨c, c', hc, rfl, -⟩ := exists_of_alternative_eq (by simp) h
      obtain ⟨s, hs, hends⟩ := ih hc
      exact ⟨s, List.mem_getLast?_append_of_mem_getLast? hs, hends⟩
  | word w =>
      obtain ⟨c, hc, -⟩ := exists_of_cons_eq_append_cons (by simp) h
      simp at hc
  | group e ih =>
      obtain ⟨c, c', hc, rfl, -⟩ := exists_of_group_eq (by simp) (by simp) h
      obtain ⟨s, hs, hends⟩ := ih hc
      exact ⟨s, List.mem_getLast?_cons hs, hends⟩

/-! ### One more tooltip -/

/-- The second derivation is the first one with one more tooltip, in front of the word with the
index `k`. -/
structure Annotated (text : String) (k : ℕ) (d d' : Derivation p) : Prop where
  /-- Without tooltips the two are the same. -/
  unmarked : d'.unmarked = d.unmarked
  /-- The tooltip belongs to what stands behind it. -/
  greedy : d.Greedy → d'.Greedy
  /-- The tooltip is a marker in front of the ability for which the word stands. -/
  tree : ∀ perInstance, d'.tree perInstance = p.annotate text (d.tree perInstance) k

namespace Annotated

variable {k : ℕ} {s s' : Derivation .terms} {e e' : Derivation .expression}
  {t t' : Derivation (.term true)} {first : Bool} {a a' : Derivation (.alternative first)}
  {r r' : Derivation (.term false)}

lemma lastStep (h : s.Annotated text k s') (hk : k < (wordsOf s.symbols).length) :
    (lastStep s).Annotated text k (.lastStep s') where
  unmarked := congrArg Derivation.lastStep h.unmarked
  greedy := h.greedy
  tree q := (congrArg (fun x => [x]) (h.tree q)).trans
    (annotateSteps_head (hk.trans_eq (s.length_abilities_tree q).symm) _).symm

lemma lastTerm (h : t.Annotated text k t') (hk : k < (wordsOf t.symbols).length) :
    (lastTerm t).Annotated text k (.lastTerm t') where
  unmarked := congrArg Derivation.lastTerm h.unmarked
  greedy := h.greedy
  tree q := (congrArg (fun x => [x]) (h.tree q)).trans
    (annotateStep_head (hk.trans_eq (t.length_abilities_tree q).symm) _).symm

lemma lastAlternative (h : a.Annotated text k a') :
    (lastAlternative a).Annotated text k (.lastAlternative a') :=
  ⟨congrArg Derivation.lastAlternative h.unmarked, h.greedy, h.tree⟩

lemma arrow_left (h : s.Annotated text k s') (hk : k < (wordsOf s.symbols).length) :
    (arrow s e).Annotated text k (arrow s' e) where
  unmarked := congrArg (arrow · e.unmarked) h.unmarked
  greedy := And.imp_left h.greedy
  tree q := (congrArg (· :: e.tree q) (h.tree q)).trans
    (annotateSteps_head (hk.trans_eq (s.length_abilities_tree q).symm) _).symm

lemma arrow_right (h : e.Annotated text k e') :
    (arrow s e).Annotated text ((wordsOf s.symbols).length + k) (arrow s e') where
  unmarked := congrArg (arrow s.unmarked) h.unmarked
  greedy := And.imp_right h.greedy
  tree q := by
    rw [← s.length_abilities_tree q]
    exact (congrArg (s.tree q :: ·) (h.tree q)).trans (annotateSteps_tail _ _ _).symm

lemma gap_left (h : s.Annotated text k s') (hk : k < (wordsOf s.symbols).length) :
    (gap s e).Annotated text k (gap s' e) where
  unmarked := congrArg (gap · e.unmarked) h.unmarked
  greedy := And.imp_left h.greedy
  tree := (h.arrow_left (e := e) hk).tree

lemma gap_right (h : e.Annotated text k e') (hleading : e'.leading = e.leading) :
    (gap s e).Annotated text ((wordsOf s.symbols).length + k) (gap s e') where
  unmarked := congrArg (gap s.unmarked) h.unmarked
  greedy := And.imp_right (And.imp hleading.trans h.greedy)
  tree := (h.arrow_right (s := s)).tree

lemma plus_left (h : t.Annotated text k t') (hk : k < (wordsOf t.symbols).length) :
    (plus t s).Annotated text k (plus t' s) where
  unmarked := congrArg (plus · s.unmarked) h.unmarked
  greedy := And.imp_left h.greedy
  tree q := (congrArg (· :: s.tree q) (h.tree q)).trans
    (annotateStep_head (hk.trans_eq (t.length_abilities_tree q).symm) _).symm

lemma plus_right (h : s.Annotated text k s') :
    (plus t s).Annotated text ((wordsOf t.symbols).length + k) (plus t s') where
  unmarked := congrArg (plus t.unmarked) h.unmarked
  greedy := And.imp_right h.greedy
  tree q := by
    rw [← t.length_abilities_tree q]
    exact (congrArg (t.tree q :: ·) (h.tree q)).trans (annotateStep_tail _ _ _).symm

lemma slash_left (h : a.Annotated text k a') (hk : k < (wordsOf a.symbols).length) :
    (slash a r).Annotated text k (slash a' r) where
  unmarked := congrArg (slash · r.unmarked) h.unmarked
  greedy := And.imp_left h.greedy
  tree q := (congrArg (· ++ r.tree q) (h.tree q)).trans
    (annotateTerm_append_left (hk.trans_eq (a.length_abilities_tree q).symm) _).symm

lemma slash_right (h : r.Annotated text k r') :
    (slash a r).Annotated text ((wordsOf a.symbols).length + k) (slash a r') where
  unmarked := congrArg (slash a.unmarked) h.unmarked
  greedy := And.imp_right h.greedy
  tree q := by
    rw [← a.length_abilities_tree q]
    exact (congrArg (a.tree q ++ ·) (h.tree q)).trans (annotateTerm_append_right _ _ _ _).symm

/-- In front of a word that begins an alternative, the tooltip belongs to this alternative. -/
lemma word (w : Word) (back : List String) :
    (alternative [] (.word w) back : Derivation (.alternative first)).Annotated text 0
      (alternative [text] (.word w) back) :=
  ⟨rfl, id, fun _ => rfl⟩

lemma group (h : e.Annotated text k e') :
    (group e : Derivation (.operand first)).Annotated text k (.group e') where
  unmarked := congrArg Derivation.group h.unmarked
  greedy := h.greedy
  tree q := congrArg (Alternative.group · Table.empty) (h.tree q)

lemma alternative {o : Derivation (.operand first)} (h : (Derivation.group e).Annotated text k o)
    (hk : k < (wordsOf e.symbols).length) (front back : List String) :
    (alternative front (.group e) back).Annotated text k (.alternative front o back) where
  unmarked := congrArg (Derivation.alternative [] · []) h.unmarked
  greedy := h.greedy
  tree q := by
    have hlt : k < (Alternative.group (e.tree q) Table.empty).abilities.length :=
      hk.trans_eq (e.length_abilities_tree q).symm
    have hfront := annotateTerm_append_right text (front.map (.marker ·))
      (.group (e.tree q) Table.empty :: back.map (.marker ·)) k
    rw [abilitiesOfTerm_markers, List.length_nil, Nat.zero_add, annotateTerm, if_pos hlt] at hfront
    rw [Derivation.tree, h.tree]
    exact hfront.symm

end Annotated

lemma length_words_lt {d : Derivation p} (h : d.symbols = ss ++ .word w :: ss') :
    (wordsOf ss).length < (wordsOf d.symbols).length := by
  rw [h, wordsOf_append, List.length_append, wordsOf_cons]
  simp [Symbol.word?]

lemma length_words_behind {s : Symbol} (hs : s.word? = none) :
    (wordsOf (ss ++ s :: ss')).length = (wordsOf ss).length + (wordsOf ss').length := by
  rw [wordsOf_append, wordsOf_cons, hs, List.length_append]
  rfl

/-- In an alternative, the tooltip is one of its own in front of a word, and goes into a group. -/
lemma exists_annotated_alternative {first : Bool} {front back : List String}
    {o : Derivation (.operand first)}
    (h : (Derivation.alternative front o back).symbols = ss ++ .word w :: ss')
    (hlast : ∀ s ∈ ss.getLast?, s.endsOperand = false)
    (ih : ∀ {c c' : List Symbol}, o.symbols = c ++ .word w :: c' →
      (∀ s ∈ c.getLast?, s.endsOperand = false) → c ≠ [] →
        ∃ o' : Derivation (.operand first), o'.symbols = c ++ .tooltip text :: .word w :: c' ∧
          o.Annotated text (wordsOf c).length o') :
    ∃ d : Derivation (.alternative first), d.symbols = ss ++ .tooltip text :: .word w :: ss' ∧
      (Derivation.alternative front o back).Annotated text (wordsOf ss).length d ∧
        (ss ≠ [] → d.leading = front) := by
  obtain ⟨c, c', hc, rfl, rfl⟩ := exists_of_alternative_eq (by simp) h
  cases o with
  | word w' =>
      obtain ⟨rfl, rfl, rfl⟩ : c = [] ∧ w' = w ∧ c' = [] := by
        cases c <;> simp_all
      -- a tooltip in front would end an operand
      obtain rfl : front = [] := by
        rcases List.eq_nil_or_concat front with rfl | ⟨front, shown, rfl⟩
        · rfl
        · exact absurd (hlast (.tooltip shown) (by simp)) (by simp [Symbol.endsOperand])
      exact ⟨_, by simp, Annotated.word w' back, fun hne => absurd rfl hne⟩
  | group e =>
      have hopening : c ≠ [] := by
        rintro rfl
        cases hc
      obtain ⟨o', ho', ho⟩ :=
        ih hc (fun x hx => hlast x (List.mem_getLast?_append_of_mem_getLast? hx)) hopening
      -- the word is one of the group, so the tooltip goes into it and not behind it
      have hlt : (wordsOf c).length < (wordsOf e.symbols).length := by
        have hlt := length_words_lt hc
        simpa [Symbol.word?] using hlt
      refine ⟨.alternative front o' back, by simp [ho'], ?_, fun _ => rfl⟩
      rw [wordsOf_append, wordsOf_tooltips, List.nil_append]
      exact ho.alternative hlt front back

/-- **Tooltips can stand in front of words.**  In front of a word before which no operand ends, one
more tooltip can be derived; it becomes a marker in front of the ability for which the word
stands. -/
theorem exists_annotated (text : String) (d : Derivation p)
    (h : d.symbols = ss ++ .word w :: ss') (hlast : ∀ s ∈ ss.getLast?, s.endsOperand = false)
    (hp : ∀ first, p = .operand first → ss ≠ []) :
    ∃ d' : Derivation p, d'.symbols = ss ++ .tooltip text :: .word w :: ss' ∧
      d.Annotated text (wordsOf ss).length d' ∧ (ss ≠ [] → d'.leading = d.leading) := by
  -- by induction on the derivation: the word stands in one part, which takes the tooltip
  induction d generalizing ss ss' with
  | lastStep s ih =>
      obtain ⟨s', hs', hs, hleading⟩ := ih h hlast (by simp)
      exact ⟨lastStep s', hs', hs.lastStep (length_words_lt h), hleading⟩
  | lastTerm t ih =>
      obtain ⟨t', ht', ht, hleading⟩ := ih h hlast (by simp)
      exact ⟨lastTerm t', ht', ht.lastTerm (length_words_lt h), hleading⟩
  | lastAlternative a ih =>
      obtain ⟨a', ha', ha, hleading⟩ := ih h hlast (by simp)
      exact ⟨lastAlternative a', ha', ha.lastAlternative, hleading⟩
  -- the operator keeps the parts apart, whatever tooltip the second one begins with
  | arrow s e ihs ihe =>
      rcases exists_of_append_cons_eq_append_cons (by simp) h with ⟨c, hc, rfl⟩ | ⟨c, hc, rfl⟩
      · obtain ⟨s', hs', hs, hleading⟩ := ihs hc hlast (by simp)
        exact ⟨arrow s' e, by simp [hs'], hs.arrow_left (length_words_lt hc), hleading⟩
      · obtain ⟨e', he', he, -⟩ := ihe hc (fun x hx => hlast x (mem_getLast_behind hx)) (by simp)
        refine ⟨arrow s e', by simp [he'], ?_, fun _ => rfl⟩
        rw [length_words_behind (by rfl)]
        exact he.arrow_right
  | gap s e ihs ihe =>
      -- in a gap, the step behind must not get a tooltip in front, or it is not greedy
      rcases exists_of_append_eq_append_cons h with ⟨c, hc, rfl⟩ | ⟨c, hc, rfl⟩
      · obtain ⟨s', hs', hs, hleading⟩ := ihs hc hlast (by simp)
        exact ⟨gap s' e, by simp [hs'], hs.gap_left (length_words_lt hc), hleading⟩
      -- the word does not begin that step, since the step in front ends an operand
      · have hne : c ≠ [] := by
          rintro rfl
          obtain ⟨x, hx, hends⟩ := s.exists_getLast_symbols
          rw [List.append_nil] at hlast
          rw [hlast x hx] at hends
          cases hends
        obtain ⟨e', he', he, hleading⟩ := ihe hc
          (fun x hx => hlast x (List.mem_getLast?_append_of_mem_getLast? hx)) (by simp)
        refine ⟨gap s e', by simp [he'], ?_, fun _ => rfl⟩
        rw [wordsOf_append, List.length_append]
        exact he.gap_right (hleading hne)
  | plus t s iht ihs =>
      rcases exists_of_append_cons_eq_append_cons (by simp) h with ⟨c, hc, rfl⟩ | ⟨c, hc, rfl⟩
      · obtain ⟨t', ht', ht, hleading⟩ := iht hc hlast (by simp)
        exact ⟨plus t' s, by simp [ht'], ht.plus_left (length_words_lt hc), hleading⟩
      · obtain ⟨s', hs', hs, -⟩ := ihs hc (fun x hx => hlast x (mem_getLast_behind hx)) (by simp)
        refine ⟨plus t s', by simp [hs'], ?_, fun _ => rfl⟩
        rw [length_words_behind (by rfl)]
        exact hs.plus_right
  | slash a t iha iht =>
      rcases exists_of_append_cons_eq_append_cons (by simp) h with ⟨c, hc, rfl⟩ | ⟨c, hc, rfl⟩
      · obtain ⟨a', ha', ha, hleading⟩ := iha hc hlast (by simp)
        exact ⟨slash a' t, by simp [ha'], ha.slash_left (length_words_lt hc), hleading⟩
      · obtain ⟨t', ht', ht, -⟩ := iht hc (fun x hx => hlast x (mem_getLast_behind hx)) (by simp)
        refine ⟨slash a t', by simp [ht'], ?_, fun _ => rfl⟩
        rw [length_words_behind (by rfl)]
        exact ht.slash_right
  | alternative front o back ih =>
      exact exists_annotated_alternative h hlast fun ho hinner hne =>
        (ih ho hinner fun _ _ => hne).imp fun _ h => ⟨h.1, h.2.1⟩
  | word w' =>
      obtain ⟨x, c, rfl⟩ := List.exists_cons_of_ne_nil (hp _ rfl)
      exact absurd (List.cons.inj h).2 (by simp)
  | group e ih =>
      obtain ⟨c, c', hc, rfl, rfl⟩ := exists_of_group_eq (by simp) (by simp) h
      obtain ⟨e', he', he, -⟩ := ih hc (fun x hx => hlast x (List.mem_getLast?_cons hx)) (by simp)
      exact ⟨.group e', by simp [he'], he.group, fun _ => rfl⟩

end Derivation

/-! ### Tokens with one more tooltip -/

section Tokens

variable {rules : Rules} {ts ts' : List Token} {text : String} {ss ss' : List Symbol} {w : Word}
  {steps : List Step}

/-- **A tooltip in front of a word becomes a marker in front of its ability.**  Where no word names
a modifier, words are not joined and no operand ends in front of the word, the tokens with the
tooltip describe the same steps with the marker. -/
theorem stepsOfTokens_annotated (hr : NamesNoModifier rules.catalog (Token.symbols ts))
    (hmode : rules.adjacentWords ≠ .join) (hts : Token.symbols ts = ss ++ .word w :: ss')
    (hlast : ∀ s ∈ ss.getLast?, s.endsOperand = false)
    (hts' : Token.symbols ts' = ss ++ .tooltip text :: .word w :: ss')
    (h : Rotation.stepsOfTokens rules ts = .ok steps) :
    Rotation.stepsOfTokens rules ts' = .ok (annotateSteps text steps (wordsOf ss).length) ∧
      (abilitiesOfSteps steps)[(wordsOf ss).length]? =
        some (Derivation.useOf rules.perInstance w) := by
  obtain ⟨d, hd, hgreedy, hlicensed, rfl⟩ :=
    (stepsOfTokens_eq_ok_iff_of_namesNoModifier hr hmode).mp h
  obtain ⟨d', hd', ⟨hunmarked, hgreedy', htree⟩, -⟩ :=
    d.exists_annotated text (hd.trans hts) hlast (by simp)
  have hr' : NamesNoModifier rules.catalog (Token.symbols ts') := by
    intro w' hw'
    refine hr w' ?_
    rw [hts'] at hw'
    rw [hts]
    simpa using hw'
  constructor
  · exact (stepsOfTokens_eq_ok_iff_of_namesNoModifier hr' hmode).mpr
      ⟨d', hd'.trans hts'.symm, hgreedy' hgreedy, hlicensed.of_unmarked_eq hunmarked, htree _⟩
  -- the abilities are the words in order, and this is the one behind those of `ss`
  · have habilities : abilitiesOfSteps (d.tree rules.perInstance) =
        (wordsOf d.symbols).map (Derivation.useOf rules.perInstance) :=
      d.abilities_tree rules.perInstance
    rw [habilities, hd, hts, wordsOf_append, wordsOf_cons, List.map_append,
      List.getElem?_append_right (by rw [List.length_map]), List.length_map, Nat.sub_self]
    rfl

/-- A plus behind a tooltip needs an operand in front of the tooltip. -/
theorem stepsOfTokens_ne_ok_of_plus (hr : NamesNoModifier rules.catalog (Token.symbols ts))
    (hmode : rules.adjacentWords ≠ .join) (hlast : ∀ s ∈ ss.getLast?, s.endsOperand = false)
    (hts : Token.symbols ts = ss ++ .tooltip text :: .plus :: ss') :
    Rotation.stepsOfTokens rules ts ≠ .ok steps := by
  intro h
  obtain ⟨d, hd, -⟩ := (stepsOfTokens_eq_ok_iff_of_namesNoModifier hr hmode).mp h
  -- without tooltips the plus would stand right behind `ss`, where no operand ends
  have hplus : d.unmarked.symbols = withoutTooltips ss ++ .plus :: withoutTooltips ss' := by
    rw [d.symbols_unmarked, hd, hts]
    simp [Symbol.isTooltip]
  obtain ⟨s, hs, hends⟩ := d.unmarked.exists_getLast_before_plus hplus
  rcases List.eq_nil_or_concat ss with rfl | ⟨front, x, rfl⟩
  · cases hs
  · have hx : x.endsOperand = false := hlast x (by simp)
    have htooltip : x.isTooltip = false := by
      cases x with
      | tooltip shown => cases hx
      | _ => rfl
    obtain rfl : x = s := by simpa [htooltip] using hs
    cases hx.symm.trans hends

end Tokens

end AbilityRotation
