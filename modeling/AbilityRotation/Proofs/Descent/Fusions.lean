import Mathlib.Data.List.TakeWhile
import AbilityRotation.Proofs.Descent.Operands

/-!
What is fused, and what a rule leaves.

These facts hold for every catalog.
* `Fusion.afterChain?_induct`: induction over the tokens that are fused.
* `Fusion.target_of_afterChain?`: what is fused onto is not blank and has no alternatives.
* `exists_chain_of_fusionAt?`: the modifiers of a fusion are found by name, and accept what they are
  fused onto.
* `Reads.suffix`: what a rule leaves are the last of its tokens.
* `Reads.term_induct`: induction over the alternatives of a term that is read.
-/

namespace AbilityRotation

/-! ### Names that are not blank -/

/-- A blank name names nothing. -/
lemma normalizeKey_of_isBlankText {s : String} (h : Text.isBlankText s = true) :
    normalizeKey s = none := by
  have hfront : Text.trimFront s.toList = [] := by
    rw [Text.trimFront, List.dropWhile_eq_nil_iff]
    exact List.all_eq_true.mp h
  have htrim : Text.trim s = "" := by
    rw [Text.trim, Text.trimChars, hfront]
    rfl
  rw [normalizeKey, Text.trimmed?, htrim]
  rfl

lemma Modifier.isBlankText_of_accepts {m : Modifier} {name : String} (h : m.accepts name = true) :
    Text.isBlankText name = false := by
  by_contra hblank
  rw [Modifier.accepts, normalizeKey_of_isBlankText (by simpa using hblank)] at h
  cases h

lemma Catalog.isBlankText_of_resolve {c : Catalog} {name : String} {m : Modifier}
    (h : c.resolve name = some m) : Text.isBlankText name = false := by
  by_contra hblank
  rw [Catalog.resolve, normalizeKey_of_isBlankText (by simpa using hblank)] at h
  cases h

/-! ### Fusions -/

/-- Whether a name leads to the modifier. -/
def Catalog.LeadsTo (c : Catalog) (m : Modifier) : Prop :=
  ∃ name, c.resolve name = some m

namespace Fusion

variable {c : Catalog} {ms : List Modifier} {mayPlus : Bool} {ts : List Token} {f : Fusion}

/-- Induction over the tokens of a chain of modifiers that is fused: a plus, the word that is fused
onto, or one more modifier. -/
theorem afterChain?_induct
    {motive : ∀ {ms : List Modifier} {mayPlus : Bool} {ts : List Token},
      afterChain? c ms mayPlus ts = some f → Prop}
    (plus : ∀ {ms t ts}, t.symbol = .plus → ∀ (hf : afterChain? c ms false ts = some f)
      (h : afterChain? c ms true (t :: ts) = some f), motive hf → motive h)
    (target : ∀ {ms mayPlus t}, t.symbol = .word f.target →
      ms.all (·.accepts f.target.key) = true → slashFollows f.rest = false →
        f.modifiers = ms.map (·.key) →
          ∀ h : afterChain? c ms mayPlus (t :: f.rest) = some f, motive h)
    (modifier : ∀ {ms mayPlus t w m ts}, t.symbol = .word w →
      ms.all (·.accepts w.key) = false → modifierOf? c w = some m →
        ∀ (hf : afterChain? c (ms ++ [m]) true ts = some f)
          (h : afterChain? c ms mayPlus (t :: ts) = some f), motive hf → motive h)
    (h : afterChain? c ms mayPlus ts = some f) : motive h := by
  induction ts generalizing ms mayPlus with
  | nil => cases h
  | cons t ts ih =>
      have hf := h
      rw [afterChain?] at hf
      split at hf
      · next ht =>
          split at hf
          · next hplus =>
              subst hplus
              exact plus ht hf h (ih hf)
          · cases hf
      · next w ht =>
          split at hf
          · next haccepts =>
              split at hf
              · cases hf
              · next hslash =>
                  cases hf
                  exact target ht haccepts (by simpa using hslash) rfl h
          · next haccepts =>
              split at hf
              · next m hm => exact modifier ht (by simpa using haccepts) hm hf h (ih hf)
              · cases hf
      · cases hf

/-- A chain of modifiers goes on with a plus or a word. -/
lemma first?_of_afterChain? (h : afterChain? c ms mayPlus ts = some f) :
    Token.first? ts = some .plus ∨ ∃ w, Token.first? ts = some (.word w) := by
  induction h using afterChain?_induct with
  | plus ht _ _ _ => exact .inl (by rw [Token.first?_cons, ht])
  | target ht _ _ _ _ => exact .inr ⟨_, by rw [Token.first?_cons, ht]⟩
  | modifier ht _ _ _ _ _ => exact .inr ⟨_, by rw [Token.first?_cons, ht]⟩

/-- What is fused onto is not blank and has no alternatives. -/
lemma target_of_afterChain? (hne : ms ≠ []) (h : afterChain? c ms mayPlus ts = some f) :
    Text.isBlankText f.target.key = false ∧ slashFollows f.rest = false := by
  induction h using afterChain?_induct with
  | plus _ _ _ ih => exact ih hne
  | target _ haccepts hslash _ _ =>
      obtain ⟨m, ms, rfl⟩ := List.exists_cons_of_ne_nil hne
      have hm : m.accepts f.target.key = true := List.all_eq_true.mp haccepts m List.mem_cons_self
      exact ⟨m.isBlankText_of_accepts hm, hslash⟩
  | modifier _ _ _ _ _ ih => exact ih (by simp)

/-- The modifiers that are fused are those of the chain and others to which names lead, and accept
what they are fused onto. -/
lemma exists_chain_of_afterChain? (hne : ms ≠ []) (hms : ∀ m ∈ ms, c.LeadsTo m)
    (h : afterChain? c ms mayPlus ts = some f) :
    ∃ chain : List Modifier, chain ≠ [] ∧ f.modifiers = chain.map (·.key) ∧
      ∀ m ∈ chain, c.LeadsTo m ∧ m.accepts f.target.key = true := by
  induction h using afterChain?_induct with
  | plus _ _ _ ih => exact ih hne hms
  | @target ms _ _ _ haccepts _ hmodifiers _ =>
      exact ⟨ms, hne, hmodifiers, fun m hm => ⟨hms m hm, List.all_eq_true.mp haccepts m hm⟩⟩
  | @modifier ms _ _ w m _ _ _ hm _ _ ih =>
      refine ih (by simp) fun m' hm' => ?_
      rcases List.mem_append.mp hm' with hm' | hm'
      · exact hms m' hm'
      · rw [List.mem_singleton.mp hm']
        exact ⟨w.key, (Descent.modifierOf?_eq_some.mp hm).2⟩

lemma slashFollows_eq (ts : List Token) :
    slashFollows ts = true ↔ Token.first? (Descent.markers ts).2 = some .slash := by
  induction ts with
  | nil => simp [slashFollows, Descent.markers]
  | cons t ts ih =>
      rw [slashFollows, Descent.markers]
      cases ht : t.symbol with
      | tooltip text => simpa [ht] using ih
      | _ => simp [ht]

/-- The target of a fusion is a word of the tokens, and what is left comes behind it. -/
lemma suffix_of_afterChain? (h : afterChain? c ms mayPlus ts = some f) :
    ∃ t, t.symbol = .word f.target ∧ t :: f.rest <:+ ts := by
  induction h using afterChain?_induct with
  | @target _ _ t ht _ _ _ _ => exact ⟨t, ht, List.suffix_rfl⟩
  | @plus _ t ts _ _ _ ih | @modifier _ _ t _ _ ts _ _ _ _ _ ih =>
      obtain ⟨t', ht', hsuffix⟩ := ih
      exact ⟨t', ht', hsuffix.trans (List.suffix_cons t ts)⟩

end Fusion

namespace Descent

variable {rules : Rules} {first : Bool} {ts rest : List Token} {t : Term} {f : Fusion}

/-- A fusion begins with a word that names a modifier. -/
lemma exists_of_fusionAt?_eq_some (h : fusionAt? rules first ts = some f) :
    ∃ t us w m, ts = t :: us ∧ t.symbol = .word w ∧ Fusion.modifierOf? rules.catalog w = some m ∧
      Fusion.afterChain? rules.catalog [m] true us = some f := by
  rw [fusionAt?] at h
  split at h
  · cases ts with
    | nil => cases h
    | cons t us =>
        rw [Fusion.at?] at h
        split at h
        · next w ht =>
            obtain ⟨m, hm, hf⟩ := Option.bind_eq_some_iff.mp h
            exact ⟨t, us, w, m, rfl, ht, hm, hf⟩
        · cases h
  · cases h

/-- The modifiers of a fusion are found by name, and accept what they are fused onto. -/
lemma exists_chain_of_fusionAt? (h : fusionAt? rules first ts = some f) :
    ∃ chain : List Modifier, chain ≠ [] ∧ f.modifiers = chain.map (·.key) ∧
      ∀ m ∈ chain, rules.catalog.LeadsTo m ∧ m.accepts f.target.key = true := by
  obtain ⟨t, us, w, m, rfl, -, hm, hf⟩ := exists_of_fusionAt?_eq_some h
  have hfirst : ∀ m' ∈ [m], rules.catalog.LeadsTo m' := by
    simpa using ⟨w.key, (modifierOf?_eq_some.mp hm).2⟩
  exact Fusion.exists_chain_of_afterChain? (by simp) hfirst hf

/-- What a fusion is fused onto has no alternatives. -/
lemma slashFollows_of_fusionAt? (h : fusionAt? rules first ts = some f) :
    Fusion.slashFollows f.rest = false := by
  obtain ⟨t, us, w, m, rfl, -, -, hf⟩ := exists_of_fusionAt?_eq_some h
  exact (Fusion.target_of_afterChain? (by simp) hf).2

lemma suffix_of_fusionAt? (h : fusionAt? rules first ts = some f) :
    ∃ t, t.symbol = .word f.target ∧ t :: f.rest <:+ ts := by
  obtain ⟨t, us, w, m, rfl, -, -, hf⟩ := exists_of_fusionAt?_eq_some h
  obtain ⟨t', ht', hsuffix⟩ := Fusion.suffix_of_afterChain? hf
  exact ⟨t', ht', hsuffix.trans (List.suffix_cons t us)⟩

/-! ### What is left -/

lemma markers_suffix (ts : List Token) : (markers ts).2 <:+ ts := by
  induction ts with
  | nil => exact List.suffix_rfl
  | cons t ts ih =>
      rw [markers]
      split
      · exact ih.trans (List.suffix_cons _ _)
      · exact List.suffix_rfl

lemma joinWords_suffix (w : Word) (ts : List Token) : (joinWords w ts).2 <:+ ts := by
  induction ts generalizing w with
  | nil => exact List.suffix_rfl
  | cons t ts ih =>
      rw [joinWords]
      split
      · exact (ih _).trans (List.suffix_cons _ _)
      · exact List.suffix_rfl

lemma plainWord_suffix (rules : Rules) (w : Word) (ts : List Token) :
    (plainWord rules w ts).2 <:+ ts := by
  rw [plainWord]
  split
  · exact joinWords_suffix w ts
  · exact List.suffix_rfl

/-- What a rule leaves are the last of the tokens. -/
lemma Reads.suffix {p : Phrase} {v : p.Value} (h : Reads rules p ts v rest) : rest <:+ ts := by
  induction h with
  | lastStep _ _ _ ih | lastTerm _ _ ih | lastAlternative _ _ ih => exact ih
  | arrow _ _ _ _ _ ih1 ih2 | plus _ _ _ _ ih1 ih2 | slash _ _ _ _ ih1 ih2 =>
      exact ih2.trans ((List.suffix_cons _ _).trans ih1)
  | gap _ _ _ _ _ ih1 ih2 => exact ih2.trans ih1
  | alternative _ ih => exact (markers_suffix _).trans (ih.trans (markers_suffix _))
  | fused _ hf _ =>
      obtain ⟨t', -, hsuffix⟩ := suffix_of_fusionAt? hf
      exact (List.suffix_cons _ _).trans hsuffix
  | plain _ _ _ => exact (plainWord_suffix _ _ _).trans (List.suffix_cons _ _)
  | group _ _ _ _ ih =>
      exact (List.suffix_cons _ _).trans (ih.trans (List.suffix_cons _ _))

lemma Reads.suffix_behind {p : Phrase} {v : p.Value} {next : Token}
    (h : Reads rules p ts v (next :: rest)) : rest <:+ ts :=
  (List.suffix_cons next rest).trans h.suffix

/-! ### Readings -/

/-- A rule reads one thing. -/
lemma Reads.unique {p : Phrase} {v v' : p.Value} {rest' : List Token} (h : Reads rules p ts v rest)
    (h' : Reads rules p ts v' rest') : v = v' ∧ rest = rest' := by
  obtain ⟨_, h⟩ := h.returns
  obtain ⟨_, h'⟩ := h'.returns
  cases h.symm.trans h'
  exact ⟨rfl, rfl⟩

/-- Induction over the alternatives of a term that is read. -/
theorem Reads.term_induct
    {motive : ∀ {first} {ts rest : List Token} {t : Term},
      Reads rules (.term first) ts t rest → Prop}
    (last : ∀ {first ts a rest} (ha : Reads rules (.alternative first) ts a rest)
      (hnext : Token.first? rest ≠ some .slash), motive (.lastAlternative ha hnext))
    (slash : ∀ {first ts a t rest as after}
      (ha : Reads rules (.alternative first) ts a (t :: rest)) (ht : t.symbol = .slash)
      (hstart : Token.startsOperand rest = true) (has : Reads rules (.term false) rest as after),
        motive has → motive (.slash ha ht hstart has))
    (h : Reads rules (.term first) ts t rest) : motive h := by
  -- induction on the reading would ask for every rule at once, so it is on the length
  induction hn : ts.length using Nat.strong_induction_on generalizing first ts t rest with
  | _ n ih =>
      subst hn
      cases h with
      | lastAlternative ha hnext => exact last ha hnext
      | slash ha ht hstart has =>
          have hlt := ha.length_lt
          rw [List.length_cons] at hlt
          exact slash ha ht hstart has (ih _ (by omega) has rfl)

/-- An alternative is an operand with markers around it. -/
lemma Reads.exists_operand (h : Reads rules (.alternative first) ts t rest) :
    ∃ (front back : List String) (a : Alternative) (after : List Token),
      t = front.map (.marker ·) ++ a :: back.map (.marker ·) ∧
        Token.symbols ts = front.map .tooltip ++ Token.symbols (markers ts).2 ∧
          Reads rules (.operand first) (markers ts).2 a after ∧
            Token.symbols after = back.map .tooltip ++ Token.symbols rest := by
  cases h with
  | @alternative _ _ a after ha =>
      obtain ⟨front, hfront, hts⟩ := exists_markers ts
      obtain ⟨back, hback, hafter⟩ := exists_markers after
      exact ⟨front, back, a, after, by rw [hfront, hback], hts, ha, hafter⟩

end Descent

end AbilityRotation
