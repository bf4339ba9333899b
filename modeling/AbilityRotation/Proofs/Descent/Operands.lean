import AbilityRotation.Proofs.Descent.Reads

/-!
No operand is lost, doubled or moved.

The steps of a rotation are read depth first and from left to right: a marker gives its text, a
plain ability its word with its label (where words are joined, the words between the spaces of its
key), and an ability with modifiers gives the modifiers in order and then its word.
* `Consumed` says what may become of a word or tooltip token: a word without a label that names a
  modifier may become that modifier, under its key, and everything else is kept.
* `Accounts` compares the tokens that are read with the operands that come of them; it is composed
  by `Accounts.trans` along the tokens.
* `operands_of_stepsOfTokens`: the operands of the steps are those of the tokens.
-/

namespace AbilityRotation

/-! ### Operands of steps -/

/-- What steps are made of, apart from their structure. -/
inductive Operand where
  /-- A text to show. -/
  | tooltip (text : String)
  /-- A modifier, by its key. -/
  | modifier (key : String)
  /-- The word onto which modifiers are fused. -/
  | target (w : Word)
  /-- A word without modifiers. -/
  | ability (w : Word)
  deriving DecidableEq

/-- Words of the given characters, the last of which has the label. -/
def labelLast (label : Option String) : List (List Char) → List Word
  | [] => []
  | [cs] => [⟨String.ofList cs, label⟩]
  | cs :: ds :: rest => ⟨String.ofList cs, none⟩ :: labelLast label (ds :: rest)

lemma labelLast_append (label : Option String) (a : List (List Char)) {b : List (List Char)}
    (hb : b ≠ []) : labelLast label (a ++ b) = labelLast none a ++ labelLast label b := by
  induction a with
  | nil => rfl
  | cons x a ih =>
      cases a with
      | nil =>
          obtain ⟨y, b, rfl⟩ := List.exists_cons_of_ne_nil hb
          rfl
      | cons y a => simp only [List.cons_append, labelLast] at ih ⊢; rw [ih]

/-- The words between the spaces of a word, the label on the last of them. -/
def Word.pieces (w : Word) : List Word :=
  labelLast w.label (w.key.toList.splitOn ' ')

/-- The operands that stand for one: where words are joined, a word stands for its pieces.  A word
that has spaces itself is set apart by this, since a key does not tell its spaces from those that
join words; but a space ends every scanned word, so that each is its own only piece. -/
def Operand.spread (mode : AdjacentWords) : Operand → List Operand
  | .ability w => if mode = .join then w.pieces.map .ability else [.ability w]
  | o => [o]

/-- The operands of the use of an ability. -/
def AbilityUse.operands (mode : AdjacentWords) (u : AbilityUse) : List Operand :=
  if u.modifiers.isEmpty then (Operand.ability ⟨u.key, u.label⟩).spread mode
  else u.modifiers.map .modifier ++ [.target ⟨u.key, u.label⟩]

mutual

/-- The operands of an alternative, from left to right. -/
def Alternative.operands (mode : AdjacentWords) : Alternative → List Operand
  | .ability u => u.operands mode
  | .marker text _ => [.tooltip text]
  | .group steps _ => operandsOfSteps mode steps

/-- The operands of a term, from left to right. -/
def operandsOfTerm (mode : AdjacentWords) : List Alternative → List Operand
  | [] => []
  | a :: rest => a.operands mode ++ operandsOfTerm mode rest

/-- The operands of a step, from left to right. -/
def operandsOfStep (mode : AdjacentWords) : List (List Alternative) → List Operand
  | [] => []
  | t :: rest => operandsOfTerm mode t ++ operandsOfStep mode rest

/-- The operands of steps, from left to right. -/
def operandsOfSteps (mode : AdjacentWords) : List (List (List Alternative)) → List Operand
  | [] => []
  | s :: rest => operandsOfStep mode s ++ operandsOfSteps mode rest

end

mutual

/-- The number of groups in an alternative, at all depths. -/
def Alternative.groupCount : Alternative → ℕ
  | .ability _ => 0
  | .marker _ _ => 0
  | .group steps _ => groupCountOfSteps steps + 1

/-- The number of groups in a term, at all depths. -/
def groupCountOfTerm : List Alternative → ℕ
  | [] => 0
  | a :: rest => a.groupCount + groupCountOfTerm rest

/-- The number of groups in a step, at all depths. -/
def groupCountOfStep : List (List Alternative) → ℕ
  | [] => 0
  | t :: rest => groupCountOfTerm t + groupCountOfStep rest

/-- The number of groups in steps, at all depths. -/
def groupCountOfSteps : List (List (List Alternative)) → ℕ
  | [] => 0
  | s :: rest => groupCountOfStep s + groupCountOfSteps rest

end

lemma operandsOfTerm_append (mode : AdjacentWords) (a b : List Alternative) :
    operandsOfTerm mode (a ++ b) = operandsOfTerm mode a ++ operandsOfTerm mode b := by
  induction a with
  | nil => simp [operandsOfTerm]
  | cons x a ih => simp [operandsOfTerm, ih]

lemma groupCountOfTerm_append (a b : List Alternative) :
    groupCountOfTerm (a ++ b) = groupCountOfTerm a + groupCountOfTerm b := by
  induction a with
  | nil => simp [groupCountOfTerm]
  | cons x a ih => simp [groupCountOfTerm, ih, Nat.add_assoc]

/-! ### Operands of tokens -/

/-- Whether the symbol is a word or a tooltip. -/
def Symbol.isOperand : Symbol → Bool
  | .word _ | .tooltip _ => true
  | _ => false

/-- The words and tooltips among the tokens. -/
def Token.operands (ts : List Token) : List Symbol :=
  (symbols ts).filter Symbol.isOperand

@[simp] lemma Token.operands_nil : Token.operands [] = [] := rfl

lemma Token.operands_cons (t : Token) (ts : List Token) :
    Token.operands (t :: ts) =
      if t.symbol.isOperand then t.symbol :: Token.operands ts else Token.operands ts := by
  simp [Token.operands, List.filter_cons]

/-- What may become of a word or tooltip: a word without a label that names a modifier may become
that modifier, and everything else is kept. -/
inductive Consumed (c : Catalog) : Symbol → Operand → Prop
  | tooltip (text : String) : Consumed c (.tooltip text) (.tooltip text)
  | ability (w : Word) : Consumed c (.word w) (.ability w)
  | target (w : Word) : Consumed c (.word w) (.target w)
  | modifier {w : Word} {m : Modifier} (hl : w.label = none) (hm : c.resolve w.key = some m) :
      Consumed c (.word w) (.modifier m.key)

lemma Consumed.isOperand {c : Catalog} {s : Symbol} {o : Operand} (h : Consumed c s o) :
    s.isOperand = true := by
  cases h <;> rfl

namespace Descent

lemma modifierOf?_eq_some {c : Catalog} {w : Word} {m : Modifier} :
    Fusion.modifierOf? c w = some m ↔ w.label = none ∧ c.resolve w.key = some m := by
  rw [Fusion.modifierOf?]
  cases w.label <;> simp

/-- The operands of what a rule reads. -/
def Phrase.operands (mode : AdjacentWords) : (p : Phrase) → p.Value → List Operand
  | .expression, ss => operandsOfSteps mode ss
  | .terms, as => operandsOfStep mode as
  | .term _, a => operandsOfTerm mode a
  | .alternative _, a => operandsOfTerm mode a
  | .operand _, a => a.operands mode

/-- The number of groups in what a rule reads. -/
def Phrase.groupCount : (p : Phrase) → p.Value → ℕ
  | .expression, ss => groupCountOfSteps ss
  | .terms, as => groupCountOfStep as
  | .term _, a => groupCountOfTerm a
  | .alternative _, a => groupCountOfTerm a
  | .operand _, a => a.groupCount

/-- The operands that come of the tokens of `ts` before `rest`, and the number of groups that begin
among these tokens. -/
def Accounts (rules : Rules) (ts rest : List Token) (ops : List Operand) (n : ℕ) : Prop :=
  (∃ used ops', Token.operands ts = used ++ Token.operands rest ∧
    List.Forall₂ (Consumed rules.catalog) used ops' ∧
    ops = ops'.flatMap (Operand.spread rules.adjacentWords)) ∧
  (Token.symbols ts).count .opening = n + (Token.symbols rest).count .opening

variable {rules : Rules} {ts us rest : List Token} {t : Token} {ops ops' : List Operand} {m n : ℕ}

lemma Accounts.refl (ts : List Token) : Accounts rules ts ts [] 0 :=
  ⟨⟨[], [], rfl, .nil, rfl⟩, by simp⟩

lemma Accounts.trans (h : Accounts rules ts us ops m) (h' : Accounts rules us rest ops' n) :
    Accounts rules ts rest (ops ++ ops') (m + n) := by
  obtain ⟨⟨a, x, ha, hx, rfl⟩, hm⟩ := h
  obtain ⟨⟨b, y, hb, hy, rfl⟩, hn⟩ := h'
  refine ⟨⟨a ++ b, x ++ y, ?_, List.rel_append hx hy, by simp⟩, by omega⟩
  rw [ha, hb, List.append_assoc]

lemma Accounts.skip (ht : t.symbol.isOperand = false) (ho : t.symbol ≠ .opening) :
    Accounts rules (t :: ts) ts [] 0 :=
  ⟨⟨[], [], by simp [Token.operands_cons, ht], .nil, rfl⟩, by simp [ho]⟩

lemma Accounts.opening (ht : t.symbol = .opening) : Accounts rules (t :: ts) ts [] 1 :=
  ⟨⟨[], [], by simp [Token.operands_cons, ht, Symbol.isOperand], .nil, rfl⟩,
    by simp [ht, Nat.add_comm]⟩

lemma Accounts.single {o : Operand} (ht : Consumed rules.catalog t.symbol o) :
    Accounts rules (t :: ts) ts (o.spread rules.adjacentWords) 0 := by
  have ho : t.symbol ≠ .opening := by
    intro h
    have := ht.isOperand
    rw [h] at this
    cases this
  refine ⟨⟨[t.symbol], [o], ?_, .cons ht .nil, by simp⟩, by simp [ho]⟩
  simp [Token.operands_cons, ht.isOperand]

lemma accounts_markers (ts : List Token) :
    Accounts rules ts (markers ts).2 (operandsOfTerm rules.adjacentWords (markers ts).1)
      (groupCountOfTerm (markers ts).1) := by
  induction ts with
  | nil => exact Accounts.refl _
  | cons t ts ih =>
      rw [markers]
      split
      · next text ht =>
          have h : Consumed rules.catalog t.symbol (.tooltip text) := ht ▸ .tooltip text
          exact (Accounts.single h).trans ih
      · exact Accounts.refl _

/-- A fusion turns its words into modifiers, up to the last one. -/
lemma accounts_afterChain? {ms : List Modifier} {mayPlus : Bool} {f : Fusion}
    (h : Fusion.afterChain? rules.catalog ms mayPlus ts = some f) :
    ∃ keys, f.modifiers = ms.map (·.key) ++ keys ∧
      Accounts rules ts f.rest (keys.map .modifier ++ [.target f.target]) 0 := by
  induction ts generalizing ms mayPlus with
  | nil => simp [Fusion.afterChain?] at h
  | cons t ts ih =>
      rw [Fusion.afterChain?] at h
      split at h
      · next ht =>
          split at h
          · obtain ⟨keys, hk, ha⟩ := ih h
            exact ⟨keys, hk, (Accounts.skip (by rw [ht]; rfl) (by simp [ht])).trans ha⟩
          · cases h
      · next w ht =>
          split at h
          · split at h
            · cases h
            · cases h
              have h1 : Consumed rules.catalog t.symbol (.target w) := ht ▸ .target w
              exact ⟨[], by simp, Accounts.single h1⟩
          · split at h
            · next m hm =>
                obtain ⟨keys, hk, ha⟩ := ih h
                obtain ⟨hl, hr⟩ := modifierOf?_eq_some.mp hm
                have h1 : Consumed rules.catalog t.symbol (.modifier m.key) :=
                  ht ▸ .modifier hl hr
                exact ⟨m.key :: keys, by simp [hk], (Accounts.single h1).trans ha⟩
            · cases h
      · cases h

lemma accounts_fusionAt? {first : Bool} {f : Fusion}
    (h : fusionAt? rules first ts = some f) :
    f.modifiers ≠ [] ∧
      Accounts rules ts f.rest (f.modifiers.map .modifier ++ [.target f.target]) 0 := by
  rw [fusionAt?] at h
  split at h
  · cases ts with
    | nil => cases h
    | cons t ts =>
        rw [Fusion.at?] at h
        split at h
        · next w ht =>
            rw [Option.bind_eq_some_iff] at h
            obtain ⟨m, hm, h⟩ := h
            obtain ⟨keys, hk, ha⟩ := accounts_afterChain? h
            obtain ⟨hl, hr⟩ := modifierOf?_eq_some.mp hm
            have h1 : Consumed rules.catalog t.symbol (.modifier m.key) := ht ▸ .modifier hl hr
            rw [hk]
            exact ⟨by simp, (Accounts.single h1).trans ha⟩
        · cases h
  · cases h

/-- Joined words have the pieces of the words one after the other. -/
lemma pieces_join (w v : Word) (hw : w.label = none) :
    (⟨w.key ++ " " ++ v.key, v.label⟩ : Word).pieces = w.pieces ++ v.pieces := by
  have hsplit : (w.key ++ " " ++ v.key).toList.splitOn ' ' =
      w.key.toList.splitOn ' ' ++ v.key.toList.splitOn ' ' := by
    rw [String.toList_append, String.toList_append, List.append_assoc]
    exact List.splitOn_append_cons_self _ _
  rw [Word.pieces, hsplit, labelLast_append _ _ (List.splitOn_ne_nil _ _), Word.pieces, hw]
  rfl

/-- Words that are joined with the word before them add their pieces to it. -/
lemma accounts_joinWords (hmode : rules.adjacentWords = .join) (w : Word) (ts : List Token) :
    ∃ ops, Accounts rules ts (joinWords w ts).2 ops 0 ∧
      (joinWords w ts).1.pieces.map .ability = w.pieces.map .ability ++ ops := by
  induction ts generalizing w with
  | nil => exact ⟨[], Accounts.refl _, by simp [joinWords]⟩
  | cons t ts ih =>
      rw [joinWords]
      split
      · next v ht hw =>
          -- the words read so far are one word with spaces in its key, which spreads to its pieces
          obtain ⟨ops, ha, hp⟩ := ih ⟨w.key ++ " " ++ v.key, v.label⟩
          have h1 : Consumed rules.catalog t.symbol (.ability v) := ht ▸ .ability v
          refine ⟨v.pieces.map .ability ++ ops, ?_, ?_⟩
          · simpa [Operand.spread, hmode] using (Accounts.single h1).trans ha
          · rw [hp, pieces_join w v hw]
            simp
      · exact ⟨[], Accounts.refl _, by simp⟩

lemma accounts_plainWord {w : Word} (ht : t.symbol = .word w) :
    Accounts rules (t :: ts) (plainWord rules w ts).2
      ((Operand.ability (plainWord rules w ts).1).spread rules.adjacentWords) 0 := by
  have h1 : Consumed rules.catalog t.symbol (.ability w) := ht ▸ .ability w
  rw [plainWord]
  split
  · next hmode =>
      obtain ⟨ops, ha, hp⟩ := accounts_joinWords hmode w ts
      simp only [Operand.spread, hmode, if_true, hp]
      simpa [Operand.spread, hmode] using (Accounts.single h1).trans ha
  · exact Accounts.single h1

/-- A rule accounts for the operands of the tokens that it reads, and for the groups that begin
among them. -/
lemma Reads.accounts {p : Phrase} {v : p.Value} (h : Reads rules p ts v rest) :
    Accounts rules ts rest (p.operands rules.adjacentWords v) (p.groupCount v) := by
  -- what two parts account for is appended, and the operators between them are skipped
  induction h with
  | lastStep hs ha hend ih =>
      simpa [Phrase.operands, operandsOfSteps, Phrase.groupCount, groupCountOfSteps] using ih
  | arrow hs ha ht hstart hss ih1 ih2 =>
      have h := ih1.trans ((Accounts.skip (by rw [ht]; rfl) (by simp [ht])).trans ih2)
      rwa [Nat.zero_add] at h
  | gap hs ha ht hmode hss ih1 ih2 => exact ih1.trans ih2
  | lastTerm ha hnext ih =>
      simpa [Phrase.operands, operandsOfStep, Phrase.groupCount, groupCountOfStep] using ih
  | plus ha ht hstart has ih1 ih2 =>
      have h := ih1.trans ((Accounts.skip (by rw [ht]; rfl) (by simp [ht])).trans ih2)
      rwa [Nat.zero_add] at h
  | lastAlternative ha hnext ih => exact ih
  | slash ha ht hstart has ih1 ih2 =>
      have h := ih1.trans ((Accounts.skip (by rw [ht]; rfl) (by simp [ht])).trans ih2)
      simpa [Phrase.operands, operandsOfTerm_append, Phrase.groupCount,
        groupCountOfTerm_append] using h
  | @alternative first ts a after ha ih =>
      have h := (accounts_markers ts).trans (ih.trans (accounts_markers after))
      simpa [Phrase.operands, operandsOfTerm_append, operandsOfTerm, Phrase.groupCount,
        groupCountOfTerm_append, groupCountOfTerm] using h
  | fused ht hf hu =>
      obtain ⟨hne, ha⟩ := accounts_fusionAt? hf
      obtain ⟨-, -, rfl⟩ := AbilityUse.build_eq_ok_iff.mp hu
      simpa [Phrase.operands, Alternative.operands, AbilityUse.operands, hne, Phrase.groupCount,
        Alternative.groupCount] using ha
  | plain ht hf hu =>
      obtain ⟨-, -, rfl⟩ := AbilityUse.build_eq_ok_iff.mp hu
      exact accounts_plainWord ht
  | group ht hne hss hu ih =>
      have h := (Accounts.opening ht).trans
        (ih.trans (Accounts.skip (by rw [hu]; rfl) (by simp [hu])))
      simpa [Phrase.operands, Alternative.operands, Phrase.groupCount, Alternative.groupCount,
        Nat.add_comm] using h

end Descent

/-- Where no word has a space of its own, it is its only piece. -/
lemma flatMap_spread {c : Catalog} {mode : AdjacentWords} {syms : List Symbol} {ops : List Operand}
    (h : List.Forall₂ (Consumed c) syms ops)
    (hw : mode = .join → ∀ w, Symbol.word w ∈ syms → ' ' ∉ w.key.toList) :
    ops.flatMap (Operand.spread mode) = ops := by
  induction h with
  | nil => rfl
  | @cons s o syms ops hs _ ih =>
      rw [List.flatMap_cons, ih fun hj w hm => hw hj w (List.mem_cons_of_mem _ hm)]
      cases hs with
      | ability w =>
          by_cases hj : mode = .join
          · have hp : w.pieces = [w] := by
              rw [Word.pieces, List.splitOn_eq_singleton (hw hj w List.mem_cons_self)]
              simp [labelLast]
            simp [Operand.spread, hp]
          · simp [Operand.spread, hj]
      | _ => rfl

/-- **No operand is lost, doubled or moved.**  The operands of the steps that tokens describe are
the words and tooltips of the tokens, where each word that is used up as a modifier is replaced by
the key of that modifier, and there are as many groups as opening parentheses.  Where words are
joined, the pieces between spaces are the words of the tokens if these have no spaces of their own,
and no scanned word has. -/
theorem operands_of_stepsOfTokens {rules : Rules} {ts : List Token} {steps : List Step}
    (h : Rotation.stepsOfTokens rules ts = .ok steps) :
    (∃ ops, List.Forall₂ (Consumed rules.catalog) (Token.operands ts) ops ∧
      operandsOfSteps rules.adjacentWords steps =
        ops.flatMap (Operand.spread rules.adjacentWords)) ∧
    ((rules.adjacentWords = .join →
        ∀ w, Symbol.word w ∈ Token.operands ts → ' ' ∉ w.key.toList) →
      List.Forall₂ (Consumed rules.catalog) (Token.operands ts)
        (operandsOfSteps rules.adjacentWords steps)) ∧
    groupCountOfSteps steps = (Token.symbols ts).count .opening := by
  have hr : Descent.Reads rules .expression ts steps [] :=
    Descent.stepsOfTokens_eq_ok_iff.mp h
  obtain ⟨⟨used, ops, hused, hops, heq⟩, hcount⟩ := hr.accounts
  rw [Token.operands_nil, List.append_nil] at hused
  subst hused
  change operandsOfSteps rules.adjacentWords steps = _ at heq
  change _ = groupCountOfSteps steps + 0 at hcount
  refine ⟨⟨ops, hops, heq⟩, fun hw => ?_, hcount.symm⟩
  rw [heq, flatMap_spread hops hw]
  exact hops

/-- The tokens of `(pre) gmaul spec[*1] → (death skulls)`. -/
def fusedAndJoined : List Token :=
  [.tooltip "pre", .word ⟨"gmaul", none⟩, .word ⟨"spec", some "1"⟩, .arrow, .opening,
    .word ⟨"death", none⟩, .word ⟨"skulls", none⟩, .closing].map fun s => ⟨s, 0, false⟩

open Descent in
theorem operands_of_fusedAndJoined :
    Rotation.stepsOfTokens { adjacentWords := .join } fusedAndJoined =
        .ok [[[.marker "pre", .ability { key := "spec", modifiers := ["gmaul"], label := "1" }]],
          [[.group [[[.ability { key := "death skulls" }]]] Table.empty]]] ∧
      List.Forall₂ (Consumed Catalog.default) (Token.operands fusedAndJoined)
        [.tooltip "pre", .modifier "gmaul", .target ⟨"spec", some "1"⟩, .ability ⟨"death", none⟩,
          .ability ⟨"skulls", none⟩] := by
  let rules : Rules := { adjacentWords := .join }
  have hinner : Reads rules .expression (fusedAndJoined.drop 5)
      [[[.ability { key := "death skulls" }]]] (fusedAndJoined.drop 7) :=
    .single (.between rfl (.plain rfl (by decide) (by decide)) rfl) (by decide)
      (.inr rfl)
  have hgroup : Reads rules .expression (fusedAndJoined.drop 4)
      [[[.group [[[.ability { key := "death skulls" }]]] Table.empty]]] [] :=
    .single (.between rfl (.group rfl (by decide) hinner rfl) rfl) (by decide) (.inl rfl)
  have hfused : Reads rules .terms fusedAndJoined
      [[.marker "pre", .ability { key := "spec", modifiers := ["gmaul"], label := "1" }]]
      (fusedAndJoined.drop 3) :=
    .lastTerm (.lastAlternative (.between rfl
      (.fused (f := ⟨["gmaul"], ⟨"spec", some "1"⟩, fusedAndJoined.drop 3⟩) rfl
        (by decide +kernel) (by decide)) rfl) (by decide)) (by decide)
  have h : Rotation.stepsOfTokens rules fusedAndJoined = .ok _ :=
    stepsOfTokens_eq_ok_iff.mpr (.arrow hfused (by decide) rfl rfl hgroup)
  refine ⟨h, (operands_of_stepsOfTokens h).2.1 fun _ w hw => ?_⟩
  have hkey : w ∈ [⟨"gmaul", none⟩, ⟨"spec", some "1"⟩, ⟨"death", none⟩, ⟨"skulls", none⟩] := by
    simpa [fusedAndJoined, Token.operands, Token.symbols, Symbol.isOperand] using hw
  rw [List.mem_cons, List.mem_cons, List.mem_cons, List.mem_singleton] at hkey
  rcases hkey with rfl | rfl | rfl | rfl <;> decide

end AbilityRotation
