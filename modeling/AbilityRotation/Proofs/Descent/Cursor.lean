import AbilityRotation.Proofs.Descent.Chains
import AbilityRotation.Proofs.Descent.Stops

/-!
Reading with a cursor.

The rules of the grammar can be read with a cursor as well: an index into one list of tokens, which
all rules move and at which a token is taken without asking whether there is one.  Then two more
things can go wrong: a token is taken behind the last one, and reading does not come to an end.
* `Cursor.read`: the rules with a cursor, where every call uses up some of the fuel.
* `Cursor.agrees`, `Cursor.read_eq`: with enough fuel, a rule gives what it gives in the descent,
  and the cursor comes to stand in front of the tokens that the descent leaves; so neither thing
  goes wrong.
* `Descent.Reads.stopsBefore`: a rule reads as far as it can.
* `Descent.Stops.reason_ne`: two of the faults are no reason for which a rule stops.
* `Cursor.read_forward`: every rule that gives something has moved the cursor forward, not beyond
  the end of the tokens, and the two faults do not arise.
-/

namespace AbilityRotation

open Descent

/-- A symbol as a word: its text, and the label of a word. -/
def Symbol.asWord : Symbol → Word
  | .word w => w
  | s => ⟨s.text, none⟩

namespace Cursor

/-! ### The rules with a cursor -/

/-- The rules of the grammar.  What they repeat and choose from has rules of its own: the terms of a
step, the alternatives of a term behind the first one, and an ability or a group. -/
inductive Rule where
  /-- Steps. -/
  | expression
  /-- One step. -/
  | step
  /-- The terms of a step. -/
  | terms
  /-- Alternatives with a slash between; `first` says whether they begin their term. -/
  | term (first : Bool)
  /-- One alternative with the tooltips around it. -/
  | alternative (first : Bool)
  /-- An ability or a group. -/
  | operand (first : Bool)
  /-- A group, from its opening parenthesis on. -/
  | group
  /-- An ability, from its first word on. -/
  | ability (first : Bool)

/-- What a rule reads. -/
@[reducible] def Rule.Value : Rule → Type
  | .expression => List Step
  | .step => Step
  | .terms => List Term
  | .term _ => Term
  | .alternative _ => Term
  | .operand _ => Alternative
  | .group => Alternative
  | .ability _ => Alternative

/-- Why reading with a cursor ends without a value. -/
inductive Halt where
  /-- A rule stops with the cursor at an index. -/
  | stop (reason : Reason) (index : ℕ)
  /-- A token is taken where there is none. -/
  | beyond
  /-- The fuel is used up. -/
  | unfinished
  deriving DecidableEq, Repr

/-- A stop because the tokens do not follow the grammar. -/
def refuse {α : Type} (cause : ParseCause) (i : ℕ) : Except Halt α :=
  .error (.stop (.malformed cause) i)

/-- The symbol at the cursor. -/
def peek? (ts : List Token) (i : ℕ) : Option Symbol :=
  ts[i]?.map (·.symbol)

/-- Takes the token at the cursor. -/
def advance (ts : List Token) (i : ℕ) : Except Halt (Token × ℕ) :=
  match ts[i]? with
  | some t => .ok (t, i + 1)
  | none => .error .beyond

/-- Behind an operator, an operand has to begin at the cursor. -/
def expectOperand (ts : List Token) (operator : String) (i : ℕ) : Except Halt Unit :=
  if (peek? ts i).any Symbol.startsOperand then .ok () else refuse (.operandMissingAfter operator) i

/-- The tooltips from the cursor on, as markers. -/
def tooltips (ts : List Token) : (fuel : ℕ) → (i : ℕ) → Except Halt (Term × ℕ)
  | 0, _ => .error .unfinished
  | n + 1, i =>
      match peek? ts i with
      | some (.tooltip text) => do
          let (_, i) ← advance ts i
          let (back, i) ← tooltips ts n i
          return (.marker text :: back, i)
      | _ => return ([], i)

/-- A word joined with the words from the cursor on, up to the first one with a label. -/
def joined (ts : List Token) : (fuel : ℕ) → (w : Word) → (i : ℕ) → Except Halt (Word × ℕ)
  | 0, _, _ => .error .unfinished
  | n + 1, w, i =>
      match peek? ts i, w.label with
      | some (.word v), none => do
          let (_, i) ← advance ts i
          joined ts n ⟨w.key ++ " " ++ v.key, v.label⟩ i
      | _, _ => return (w, i)

/-- The use of an ability, or a stop where it cannot be used as asked. -/
def use (u : Except AbilityUse.BuildFault AbilityUse) (i : ℕ) : Except Halt (Alternative × ℕ) :=
  match u with
  | .ok u => .ok (.ability u, i)
  | .error fault => .error (.stop (.unbuildable fault) i)

/-- Reads by a rule from the cursor on.  What is read comes with the cursor behind it. -/
def read (rules : Rules) (ts : List Token) :
    (fuel : ℕ) → (r : Rule) → (i : ℕ) → Except Halt (r.Value × ℕ)
  | 0, _, _ => .error .unfinished
  | n + 1, .expression, i => do
      let (s, i) ← read rules ts n .step i
      match peek? ts i with
      | none => return ([s], i)
      | some .closing => return ([s], i)
      | some .arrow =>
          let (_, i) ← advance ts i
          expectOperand ts "→" i
          let (ss, i) ← read rules ts n .expression i
          return (s :: ss, i)
      | some .plus => refuse (.operandMissingBefore Symbol.plus.text) i
      | some .slash => refuse (.operandMissingBefore Symbol.slash.text) i
      | some next =>
          match rules.adjacentWords with
          | .error => refuse (.operatorMissing next.text) i
          | _ =>
              let (ss, i) ← read rules ts n .expression i
              return (s :: ss, i)
  | n + 1, .step, i => do
      let (s, i) ← read rules ts n .terms i
      if isAmbiguous s then refuse .ambiguous i else return (s, i)
  | n + 1, .terms, i => do
      let (a, i) ← read rules ts n (.term true) i
      match peek? ts i with
      | some .plus =>
          let (_, i) ← advance ts i
          expectOperand ts "+" i
          let (as, i) ← read rules ts n .terms i
          return (a :: as, i)
      | _ => return ([a], i)
  | n + 1, .term first, i => do
      let (a, i) ← read rules ts n (.alternative first) i
      match peek? ts i with
      | some .slash =>
          let (_, i) ← advance ts i
          expectOperand ts "/" i
          let (as, i) ← read rules ts n (.term false) i
          return (a ++ as, i)
      | _ => return (a, i)
  | n + 1, .alternative first, i => do
      let (front, i) ← tooltips ts n i
      let (a, i) ← read rules ts n (.operand first) i
      let (back, i) ← tooltips ts n i
      return (front ++ a :: back, i)
  | n + 1, .operand first, i =>
      match peek? ts i with
      | some (.word _) => read rules ts n (.ability first) i
      | some .opening => read rules ts n .group i
      | _ => refuse .operandMissing i
  | n + 1, .group, i => do
      let (_, i) ← advance ts i
      if peek? ts i = some .closing then refuse .emptyGroup i
      else
        let (steps, i) ← read rules ts n .expression i
        if peek? ts i = some .closing then
          let (_, i) ← advance ts i
          return (.group steps Table.empty, i)
        else refuse .unterminatedGroup i
  | n + 1, .ability first, i =>
      match (if first then Fusion.atIndex? rules.catalog ts i else none) with
      | some f =>
          let target := f.target.symbol.asWord
          use (AbilityUse.build target.key f.modifiers none target.label) f.next
      | none => do
          let (t, i) ← advance ts i
          let (w, i) ←
            match rules.adjacentWords with
            | .join => joined ts n t.symbol.asWord i
            | _ => pure (t.symbol.asWord, i)
          use (plainUse rules w) i

attribute [simp] read

/-! ### The descent with a cursor -/

variable {ε α β : Type}

lemma ok_bind (a : α) (f : α → Except ε β) : (Except.ok a >>= f) = f a := rfl

variable {rules : Rules} {ts us rest : List Token} {t : Token} {w : Word} {n i : ℕ}

/-- The index at which the last tokens of a list begin. -/
def place (ts us : List Token) : ℕ :=
  ts.length - us.length

lemma place_drop (h : i ≤ ts.length) : place ts (ts.drop i) = i := by
  rw [place, List.length_drop]
  omega

lemma place_le : place ts us ≤ ts.length :=
  Nat.sub_le _ _

lemma place_lt_place (h : rest.length < us.length) (hus : us <:+ ts) :
    place ts us < place ts rest := by
  have hle := hus.length_le
  simp only [place]
  omega

lemma place_cons (h : t :: us <:+ ts) : place ts us = place ts (t :: us) + 1 := by
  have hle := h.length_le
  rw [List.length_cons] at hle
  rw [place, place, List.length_cons]
  omega

lemma getElem?_place (h : us <:+ ts) : ts[place ts us]? = us.head? := by
  rw [place, ← List.head?_drop, ← List.suffix_iff_eq_drop.mp h]

lemma peek?_place (h : us <:+ ts) : peek? ts (place ts us) = Token.first? us := by
  rw [peek?, getElem?_place h, Token.first?]

lemma advance_place (h : t :: us <:+ ts) :
    advance ts (place ts (t :: us)) = .ok (t, place ts us) := by
  rw [advance, getElem?_place h, List.head?_cons, place_cons h]

lemma expectOperand_place (h : us <:+ ts) (operator : String) :
    expectOperand ts operator (place ts us) =
      if Token.startsOperand us then .ok ()
      else refuse (.operandMissingAfter operator) (place ts us) := by
  rw [expectOperand, peek?_place h, Token.startsOperand_eq]

/-- With enough fuel, tooltips are read as in the descent. -/
lemma tooltips_place (h : us <:+ ts) (hn : us.length < n) :
    tooltips ts n (place ts us) = .ok ((markers us).1, place ts (markers us).2) := by
  induction us generalizing n with
  | nil =>
      obtain ⟨n, rfl⟩ := Nat.exists_eq_add_of_lt hn
      rw [tooltips, peek?_place h]
      rfl
  | cons t us ih =>
      obtain ⟨n, rfl⟩ := Nat.exists_eq_add_of_lt hn
      rw [tooltips, peek?_place h, Token.first?_cons, markers]
      cases ht : t.symbol with
      | tooltip text =>
          have hus : us <:+ ts := (List.suffix_cons t us).trans h
          have hlt : us.length < (t :: us).length + n := by
            rw [List.length_cons]
            omega
          simp only [advance_place h, ok_bind, ih hus hlt]
          rfl
      | _ => rfl

/-- With enough fuel, words are joined as in the descent. -/
lemma joined_place (h : us <:+ ts) (hn : us.length < n) :
    joined ts n w (place ts us) = .ok ((joinWords w us).1, place ts (joinWords w us).2) := by
  induction us generalizing n w with
  | nil =>
      obtain ⟨n, rfl⟩ := Nat.exists_eq_add_of_lt hn
      rw [joined, peek?_place h]
      rfl
  | cons t us ih =>
      obtain ⟨n, rfl⟩ := Nat.exists_eq_add_of_lt hn
      rw [joined, peek?_place h, Token.first?_cons, joinWords]
      cases ht : t.symbol with
      | word v =>
          cases hl : w.label with
          | none =>
              have hus : us <:+ ts := (List.suffix_cons t us).trans h
              have hlt : us.length < (t :: us).length + n := by
                rw [List.length_cons]
                omega
              simp only [advance_place h, ok_bind]
              exact ih hus hlt
          | some label => rfl
      | _ => rfl

/-- The function of the descent for a rule; groups and abilities need a first token. -/
def Rule.descend (rules : Rules) : (r : Rule) → (us : List Token) → Except Stop (Read r.Value us)
  | .expression, us => Descent.expression rules us
  | .step, us => Descent.step rules us
  | .terms, us => Descent.terms rules us
  | .term first, us => Descent.term rules first us
  | .alternative first, us => Descent.alternative rules first us
  | .operand first, us => Descent.operand rules first us
  | .group, t :: rest => Descent.group rules t rest
  | .ability first, t :: rest => Descent.ability rules first t t.symbol.asWord rest
  | .group, [] => stop .operandMissing []
  | .ability _, [] => stop .operandMissing []

/-- Whether a rule is called where the first symbol is the given one: a group at an opening
parenthesis, and an ability at a word. -/
def Rule.BeginsAt (next : Option Symbol) : Rule → Prop
  | .group => next = some .opening
  | .ability _ => ∃ w, next = some (.word w)
  | _ => True

/-- An outcome of the descent, where indices stand for the tokens that are left. -/
def outcome {α : Type} (ts : List Token) {us : List Token} :
    Except Stop (Read α us) → Except Halt (α × ℕ)
  | .ok r => .ok (r.value, place ts r.rest)
  | .error e => .error (.stop e.reason (place ts e.rest))

/-- The fuel that suffices for a rule where a number of tokens is left. -/
def Rule.fuel (left : ℕ) : Rule → ℕ
  | .expression => 8 * left + 9
  | .step => 8 * left + 8
  | .terms => 8 * left + 7
  | .term _ => 8 * left + 6
  | .alternative _ => 8 * left + 5
  | .operand _ => 8 * left + 4
  | .group => 8 * left + 3
  | .ability _ => 8 * left + 3

/-! ### The rules of the descent with a cursor -/

/-- What a rule of the descent leaves are the last of its tokens. -/
lemma suffix_of_run {p : Phrase} {v : p.Value} {h : rest.length < us.length}
    (hrun : p.run rules us = .ok ⟨v, rest, h⟩) : rest <:+ us :=
  (reads_iff.mpr ⟨h, hrun⟩).suffix

lemma suffix_of_step {s : Step} {h : rest.length < us.length}
    (hrun : Descent.step rules us = .ok ⟨s, rest, h⟩) : rest <:+ us := by
  obtain ⟨⟨_, hterms⟩, -⟩ := returns_step.mp ⟨h, hrun⟩
  exact suffix_of_run (p := .terms) hterms

/-- With the fuel `n`, rules read with a cursor what they read in the descent, if it suffices. -/
def Agrees (rules : Rules) (ts : List Token) (n : ℕ) : Prop :=
  ∀ (r : Rule) (us : List Token), us <:+ ts → r.BeginsAt (Token.first? us) →
    r.fuel us.length ≤ n → read rules ts n r (place ts us) = outcome ts (r.descend rules us)

namespace Agrees

variable {first : Bool}

lemma step (ih : Agrees rules ts n) (h : us <:+ ts) (hn : Rule.step.fuel us.length ≤ n + 1) :
    read rules ts (n + 1) .step (place ts us) = outcome ts (Descent.step rules us) := by
  have hterms : read rules ts n .terms (place ts us) = outcome ts (Descent.terms rules us) :=
    ih .terms us h trivial (by simp only [Rule.fuel] at hn ⊢; omega)
  rw [read, hterms, Descent.step]
  cases hr : Descent.terms rules us with
  | error e => rfl
  | ok r =>
      simp only [outcome, ok_bind]
      split <;> rfl

lemma expression (ih : Agrees rules ts n) (h : us <:+ ts)
    (hn : Rule.expression.fuel us.length ≤ n + 1) :
    read rules ts (n + 1) .expression (place ts us) =
      outcome ts (Descent.expression rules us) := by
  have hstep : read rules ts n .step (place ts us) = outcome ts (Descent.step rules us) :=
    ih .step us h trivial (by simp only [Rule.fuel] at hn ⊢; omega)
  rw [read, hstep, Descent.expression]
  cases hr : Descent.step rules us with
  | error e => rfl
  | ok r =>
      obtain ⟨s, rest, hl⟩ := r
      have hrest : rest <:+ ts := (suffix_of_step hr).trans h
      -- the step took a token, which leaves fuel for what is behind it
      have hmore : ∀ {vs}, vs <:+ rest → read rules ts n .expression (place ts vs) =
          outcome ts (Descent.expression rules vs) := fun hvs =>
        ih .expression _ (hvs.trans hrest) trivial (by
          have hle := hvs.length_le
          simp only [Rule.fuel] at hn ⊢
          omega)
      simp only [outcome, ok_bind, peek?_place hrest]
      cases rest with
      | nil => rfl
      | cons t rest =>
          obtain ⟨symbol, pos, implicit⟩ := t
          cases symbol with
          | closing | plus | slash => rfl
          | arrow =>
              simp only [Token.first?_cons, advance_place hrest, ok_bind,
                expectOperand_place ((List.suffix_cons _ rest).trans hrest)]
              cases hs : Token.startsOperand rest with
              | false => rfl
              | true =>
                  simp only [if_true, ok_bind, hmore (List.suffix_cons _ rest)]
                  cases Descent.expression rules rest <;> rfl
          | word _ | tooltip _ | opening =>
              simp only [Token.first?_cons, hmore List.suffix_rfl]
              cases rules.adjacentWords with
              | error => rfl
              | steps | join =>
                  cases Descent.expression rules _ <;> rfl

lemma terms (ih : Agrees rules ts n) (h : us <:+ ts) (hn : Rule.terms.fuel us.length ≤ n + 1) :
    read rules ts (n + 1) .terms (place ts us) = outcome ts (Descent.terms rules us) := by
  have hterm : read rules ts n (.term true) (place ts us) =
      outcome ts (Descent.term rules true us) :=
    ih (.term true) us h trivial (by simp only [Rule.fuel] at hn ⊢; omega)
  rw [read, hterm, Descent.terms]
  cases hr : Descent.term rules true us with
  | error e => rfl
  | ok r =>
      obtain ⟨a, rest, hl⟩ := r
      have hrest : rest <:+ ts := (suffix_of_run (p := .term true) hr).trans h
      simp only [outcome, ok_bind, peek?_place hrest]
      cases rest with
      | nil => rfl
      | cons t rest =>
          obtain ⟨symbol, pos, implicit⟩ := t
          cases symbol with
          | plus =>
              have hrest' : rest <:+ ts := (List.suffix_cons _ rest).trans hrest
              have hmore : read rules ts n .terms (place ts rest) =
                  outcome ts (Descent.terms rules rest) :=
                ih .terms rest hrest' trivial (by
                  rw [List.length_cons] at hl
                  simp only [Rule.fuel] at hn ⊢
                  omega)
              simp only [Token.first?_cons, advance_place hrest, ok_bind,
                expectOperand_place hrest']
              cases hs : Token.startsOperand rest with
              | false => rfl
              | true =>
                  simp only [if_true, ok_bind, hmore]
                  cases Descent.terms rules rest <;> rfl
          | _ => rfl

lemma term (ih : Agrees rules ts n) (h : us <:+ ts)
    (hn : (Rule.term first).fuel us.length ≤ n + 1) :
    read rules ts (n + 1) (.term first) (place ts us) =
      outcome ts (Descent.term rules first us) := by
  have halternative : read rules ts n (.alternative first) (place ts us) =
      outcome ts (Descent.alternative rules first us) :=
    ih (.alternative first) us h trivial (by simp only [Rule.fuel] at hn ⊢; omega)
  rw [read, halternative, Descent.term]
  cases hr : Descent.alternative rules first us with
  | error e => rfl
  | ok r =>
      obtain ⟨a, rest, hl⟩ := r
      have hrest : rest <:+ ts := (suffix_of_run (p := .alternative first) hr).trans h
      simp only [outcome, ok_bind, peek?_place hrest]
      cases rest with
      | nil => rfl
      | cons t rest =>
          obtain ⟨symbol, pos, implicit⟩ := t
          cases symbol with
          | slash =>
              have hrest' : rest <:+ ts := (List.suffix_cons _ rest).trans hrest
              have hmore : read rules ts n (.term false) (place ts rest) =
                  outcome ts (Descent.term rules false rest) :=
                ih (.term false) rest hrest' trivial (by
                  rw [List.length_cons] at hl
                  simp only [Rule.fuel] at hn ⊢
                  omega)
              simp only [Token.first?_cons, advance_place hrest, ok_bind,
                expectOperand_place hrest']
              cases hs : Token.startsOperand rest with
              | false => rfl
              | true =>
                  simp only [if_true, ok_bind, hmore]
                  cases Descent.term rules false rest <;> rfl
          | _ => rfl

lemma alternative (ih : Agrees rules ts n) (h : us <:+ ts)
    (hn : (Rule.alternative first).fuel us.length ≤ n + 1) :
    read rules ts (n + 1) (.alternative first) (place ts us) =
      outcome ts (Descent.alternative rules first us) := by
  have hinner : (markers us).2 <:+ ts := (markers_suffix us).trans h
  have hle : (markers us).2.length ≤ us.length := length_markers_le us
  have hoperand : read rules ts n (.operand first) (place ts (markers us).2) =
      outcome ts (Descent.operand rules first (markers us).2) :=
    ih (.operand first) _ hinner trivial (by simp only [Rule.fuel] at hn ⊢; omega)
  have hus : us.length < n := by
    simp only [Rule.fuel] at hn
    omega
  simp only [read, tooltips_place h hus, ok_bind, hoperand]
  cases hr : Descent.operand rules first (markers us).2 with
  | error e =>
      rw [alternative_of_operand hr]
      rfl
  | ok r =>
      obtain ⟨a, after, hl⟩ := r
      have hsuffix : after <:+ (markers us).2 := suffix_of_run (p := .operand first) hr
      have hafter : after.length < n := (hsuffix.length_le.trans hle).trans_lt hus
      have hreads : Reads rules (.operand first) (markers us).2 a after := reads_iff.mpr ⟨hl, hr⟩
      obtain ⟨_, halternative⟩ := (Reads.alternative hreads).returns
      change Descent.alternative rules first us = _ at halternative
      simp only [outcome, ok_bind, tooltips_place (hsuffix.trans hinner) hafter, halternative]
      rfl

lemma operand (ih : Agrees rules ts n) (h : us <:+ ts)
    (hn : (Rule.operand first).fuel us.length ≤ n + 1) :
    read rules ts (n + 1) (.operand first) (place ts us) =
      outcome ts (Descent.operand rules first us) := by
  rw [read, peek?_place h]
  cases us with
  | nil => rfl
  | cons t us =>
      obtain ⟨symbol, pos, implicit⟩ := t
      cases symbol with
      | word w =>
          exact ih (.ability first) _ h ⟨w, rfl⟩ (by simp only [Rule.fuel] at hn ⊢; omega)
      | opening => exact ih .group _ h rfl (by simp only [Rule.fuel] at hn ⊢; omega)
      | _ => rfl

lemma group (ih : Agrees rules ts n) (h : t :: us <:+ ts)
    (hn : Rule.group.fuel (t :: us).length ≤ n + 1) :
    read rules ts (n + 1) .group (place ts (t :: us)) =
      outcome ts (Descent.group rules t us) := by
  have hus : us <:+ ts := (List.suffix_cons t us).trans h
  have hexpression : read rules ts n .expression (place ts us) =
      outcome ts (Descent.expression rules us) :=
    ih .expression us hus trivial (by simp only [Rule.fuel, List.length_cons] at hn ⊢; omega)
  rw [read, advance_place h, ok_bind, Descent.group, ← Token.first?]
  simp only [peek?_place hus]
  by_cases hclosing : Token.first? us = some .closing
  · rw [if_pos hclosing, if_pos hclosing]
    rfl
  · rw [if_neg hclosing, if_neg hclosing, hexpression]
    cases hr : Descent.expression rules us with
    | error e => rfl
    | ok r =>
        obtain ⟨ss, rest, hl⟩ := r
        have hrest : rest <:+ ts := (suffix_of_run (p := .expression) hr).trans hus
        simp only [outcome, ok_bind, peek?_place hrest]
        cases rest with
        | nil => rfl
        | cons u rest =>
            simp only [Token.first?_cons, Option.some.injEq]
            split
            · rw [advance_place hrest]
              rfl
            · rfl

end Agrees

/-- A fusion is found at the cursor exactly as it is found in the descent. -/
lemma fusionAt?_place (h : us <:+ ts) (first : Bool) :
    (if first then Fusion.atIndex? rules.catalog ts (place ts us) else none) =
      (fusionAt? rules first us).bind (Fusion.place? ts) := by
  cases first with
  | false => rfl
  | true =>
      rw [fusionAt?, if_pos rfl, if_pos rfl, Fusion.atIndex?, if_pos (Int.natCast_nonneg _),
        Int.toNat_natCast, place, ← List.suffix_iff_eq_drop.mp h]

/-- A fusion is placed among the tokens: its target is a token, and it ends behind it. -/
lemma exists_place?_of_fusionAt? {first : Bool} {f : Fusion} (h : us <:+ ts)
    (hf : fusionAt? rules first us = some f) :
    ∃ t, t.symbol = .word f.target ∧
      Fusion.place? ts f = some ⟨f.modifiers, t, place ts f.rest⟩ := by
  obtain ⟨t, ht, hsuffix⟩ := suffix_of_fusionAt? hf
  have hrest : t :: f.rest <:+ ts := hsuffix.trans h
  have hat : ts[place ts (t :: f.rest)]? = some t := getElem?_place hrest
  have hdrop : f.rest = ts.drop (place ts (t :: f.rest) + 1) := by
    rw [← place_cons hrest, place, ← List.suffix_iff_eq_drop.mp
      ((List.suffix_cons t f.rest).trans hrest)]
  refine ⟨t, ht, ?_⟩
  rw [Fusion.place?_of_rest hat hdrop, place_cons hrest]

lemma outcome_build (u : Except AbilityUse.BuildFault AbilityUse)
    (hl : rest.length < us.length) :
    outcome ts (Descent.build u rest hl) = use u (place ts rest) := by
  cases u <;> rfl

/-- An ability of the descent is the use of a fusion, or of a word. -/
lemma outcome_ability (rules : Rules) (ts : List Token) (first : Bool) (t : Token) (w : Word)
    (us : List Token) :
    outcome ts (Descent.ability rules first t w us) =
      match fusionAt? rules first (t :: us) with
      | some f => use (AbilityUse.build f.target.key f.modifiers none f.target.label)
          (place ts f.rest)
      | none =>
          use (plainUse rules (plainWord rules w us).1) (place ts (plainWord rules w us).2) := by
  rw [Descent.ability]
  split
  · next f hf =>
      rw [← fusionAt?] at hf
      rw [hf, outcome_build]
  · next hf =>
      rw [← fusionAt?] at hf
      rw [hf]
      cases hm : rules.adjacentWords <;> simp only [outcome_build, plainWord, hm]

/-- An ability is read with a cursor as in the descent. -/
lemma read_ability {first : Bool} (h : t :: us <:+ ts) (hw : t.symbol = .word w)
    (hn : us.length < n) :
    read rules ts (n + 1) (.ability first) (place ts (t :: us)) =
      outcome ts (Descent.ability rules first t w us) := by
  have hus : us <:+ ts := (List.suffix_cons t us).trans h
  rw [read, fusionAt?_place h, outcome_ability]
  cases hf : fusionAt? rules first (t :: us) with
  | some f =>
      obtain ⟨t', ht', hplace⟩ := exists_place?_of_fusionAt? h hf
      rw [Option.bind_some, hplace]
      simp only [ht', Symbol.asWord]
  | none =>
      simp only [Option.bind_none, advance_place h, ok_bind, hw, Symbol.asWord, plainWord]
      cases rules.adjacentWords with
      | join =>
          simp only [joined_place hus hn]
          rfl
      | steps | error => rfl

/-- With enough fuel, a rule reads with a cursor what it reads in the descent.  The induction is on
the fuel; the cursor always stands in front of the last tokens of the list. -/
theorem agrees (rules : Rules) (ts : List Token) (n : ℕ) : Agrees rules ts n := by
  -- by induction on the fuel: the rules below have one unit less, and need no more
  induction n with
  | zero =>
      intro r us h hbegins hn
      cases r <;> simp only [Rule.fuel] at hn <;> omega
  | succ n ih =>
      intro r us h hbegins hn
      cases r with
      | expression => exact ih.expression h hn
      | step => exact ih.step h hn
      | terms => exact ih.terms h hn
      | term first => exact ih.term h hn
      | alternative first => exact ih.alternative h hn
      | operand first => exact ih.operand h hn
      | group =>
          obtain ⟨t, us, rfl, -⟩ := Token.exists_of_first? hbegins
          exact ih.group h hn
      | ability first =>
          obtain ⟨w, hw⟩ := hbegins
          obtain ⟨t, us, rfl, ht⟩ := Token.exists_of_first? hw
          rw [Rule.descend, ht, Symbol.asWord]
          exact read_ability h ht (by
            simp only [Rule.fuel, List.length_cons] at hn
            omega)

/-- From an index on, a rule reads with a cursor what it reads in the descent from there. -/
theorem read_eq (r : Rule) (hi : i ≤ ts.length) (hbegins : r.BeginsAt (peek? ts i))
    (hn : r.fuel (ts.length - i) ≤ n) :
    read rules ts n r i = outcome ts (r.descend rules (ts.drop i)) := by
  have hsuffix : ts.drop i <:+ ts := List.drop_suffix i ts
  rw [← List.length_drop] at hn
  rw [← place_drop hi, peek?_place hsuffix] at hbegins
  have h := agrees rules ts n r (ts.drop i) hsuffix hbegins hn
  rwa [place_drop hi] at h

end Cursor

/-! ### What follows a rule -/

namespace Descent

variable {rules : Rules} {ts rest : List Token} {p : Phrase} {e : Stop}

/-- A rule reads as far as it can: the next token is none with which it would go on. -/
theorem Reads.stopsBefore {v : p.Value} (h : Reads rules p ts v rest) :
    p.StopsBefore (Token.first? rest) := by
  induction h with
  | lastStep _ _ hend _ => exact hend
  | arrow _ _ _ _ _ _ ih | gap _ _ _ _ _ _ ih => exact ih
  | lastTerm _ hnext ih => exact ⟨hnext, ih⟩
  | plus _ _ _ _ _ ih => exact ih
  | lastAlternative _ hnext ih => exact ⟨hnext, ih⟩
  | slash _ _ _ _ _ ih => exact ih
  | alternative ha => exact (Reads.alternative ha).first?_ne_tooltip (by simp)
  | fused _ _ _ | plain _ _ _ | group _ _ _ _ _ => trivial

/-- No operator stands where a step could begin, and no token is left that cannot be read: behind a
step comes neither a plus nor a slash. -/
theorem Stops.reason_ne (h : Stops rules p ts e) (text : String) :
    e.reason ≠ .malformed (.unexpectedToken text) ∧
      e.reason ≠ .malformed (.operandMissingBefore text) := by
  induction h with
  | missingBefore hs _ ht =>
      have hnext := hs.stopsBefore
      rcases ht with ht | ht
      · exact absurd (by rw [Token.first?_cons, ht]) hnext.1
      · exact absurd (by rw [Token.first?_cons, ht]) hnext.2.1
  | firstStep _ ih | arrow _ _ _ _ _ ih | gap _ _ _ _ _ ih | firstTerm _ ih | plus _ _ _ _ ih
  | firstAlternative _ ih | slash _ _ _ _ ih | alternative _ ih | group _ _ _ ih => exact ih
  | _ => simp

/-- The cause of a fault is neither a token that is left nor an operator before a step. -/
lemma cause_ne_of_stepsOfTokens {fault : ParseFault}
    (h : Rotation.stepsOfTokens rules ts = .error (.parse fault)) (text : String) :
    fault.cause ≠ .unexpectedToken text ∧ fault.cause ≠ .operandMissingBefore text := by
  rcases stepsOfTokens_eq_error_iff.mp h with ⟨⟨reason, left⟩, hstops, heq⟩ | ⟨_, _, _, _, heq⟩
  · have hreason := hstops.reason_ne text
    cases reason with
    | malformed cause =>
        cases heq
        simpa using hreason
    | unbuildable _ => cases heq
  · cases heq
    simp

end Descent

namespace Cursor

/-- **The cursor moves forward.**  From every index on, every rule that is called where it begins
reads what the descent reads, takes no token where there is none and comes to an end.  If it gives
something, then the cursor has moved forward and is not beyond the end of the tokens.  When a whole
list of tokens cannot be read, the cause is neither a token that is left nor an operator in the
place of a step. -/
theorem read_forward (rules : Rules) (ts : List Token) :
    (∀ (r : Rule) (i n : ℕ), i ≤ ts.length → r.BeginsAt (peek? ts i) →
      r.fuel (ts.length - i) ≤ n →
        read rules ts n r i = outcome ts (r.descend rules (ts.drop i)) ∧
          read rules ts n r i ≠ .error .beyond ∧ read rules ts n r i ≠ .error .unfinished ∧
            ∀ v j, read rules ts n r i = .ok (v, j) → i < j ∧ j ≤ ts.length) ∧
      ∀ fault, Rotation.stepsOfTokens rules ts = .error (.parse fault) →
        ∀ text, fault.cause ≠ .unexpectedToken text ∧
          fault.cause ≠ .operandMissingBefore text := by
  refine ⟨fun r i n hi hbegins hn => ?_, fun fault h => cause_ne_of_stepsOfTokens h⟩
  rw [read_eq r hi hbegins hn]
  cases r.descend rules (ts.drop i) with
  | error e => simp [outcome]
  | ok v =>
      have hlt := place_lt_place v.shorter (List.drop_suffix i ts)
      rw [place_drop hi] at hlt
      refine ⟨rfl, by simp [outcome], by simp [outcome], ?_⟩
      rintro _ _ ⟨⟩
      exact ⟨hlt, place_le⟩

/-- The modifiers of `gmaul + armabattlestaff spec[*2] (slow)` move the cursor on to the tooltip,
and this moves it to the end.  An operator alone is no rotation since an ability is missing. -/
theorem read_forward_chain :
    (∃ v, read {} Fusion.chainTokens 49 .expression 0 = .ok (v, 5)) ∧
      0 < 5 ∧ 5 ≤ Fusion.chainTokens.length ∧
      Rotation.stepsOfTokens {} [⟨.plus, 0, false⟩] = .error (.parse ⟨.operandMissing, 0⟩) ∧
      ParseCause.operandMissing ≠ .operandMissingBefore "+" := by
  have hcursor : (read {} Fusion.chainTokens 49 .expression 0).toOption.map (·.2) = some 5 := by
    decide +kernel
  obtain ⟨v, hv⟩ : ∃ v, read {} Fusion.chainTokens 49 .expression 0 = .ok (v, 5) := by
    cases hread : read {} Fusion.chainTokens 49 .expression 0 with
    | error e =>
        rw [hread] at hcursor
        cases hcursor
    | ok vj =>
        obtain ⟨v, j⟩ := vj
        rw [hread] at hcursor
        cases hcursor
        exact ⟨v, rfl⟩
  obtain ⟨-, -, -, hforward⟩ :=
    (read_forward {} Fusion.chainTokens).1 .expression 0 49 (Nat.zero_le _) trivial (by decide)
  obtain ⟨hlt, hle⟩ := hforward v 5 hv
  have hstops : Stops {} .expression [⟨.plus, 0, false⟩]
      ⟨.malformed .operandMissing, [⟨.plus, 0, false⟩]⟩ :=
    .firstStep (.firstTerm (.firstAlternative (.alternative
      (.missing (by simp [markers]) (by simp [markers])))))
  have hsteps : Rotation.stepsOfTokens {} [⟨.plus, 0, false⟩] =
      .error (.parse ⟨.operandMissing, 0⟩) :=
    stepsOfTokens_eq_error_iff.mpr (.inl ⟨_, hstops, rfl⟩)
  exact ⟨⟨v, hv⟩, hlt, hle, hsteps, ((read_forward {} _).2 _ hsteps "+").2⟩

end Cursor

end AbilityRotation
