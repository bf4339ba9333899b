import Mathlib.Tactic
import AbilityRotation.Rotation.Parse

/-!
What the descent reads, as a relation.

`Descent.Reads` relates a rule of the grammar, the tokens at which the rule starts, the value that
it reads and the tokens that it leaves.  It has one constructor for each way in which a rule can
succeed, and says in each of them what the next token has to be.
* `descent_induction`: the recursion of the descent as an induction.
* `reads_iff`: the relation holds exactly of what the functions of the descent return, so a
  statement about all successful readings is an induction over `Reads`.
* `stepsOfTokens_eq_ok_iff`: a whole list of tokens is read exactly if an expression is read that
  leaves nothing.
* `Reads.of_symbols`: nothing but the symbols of the tokens counts.
-/

namespace AbilityRotation

namespace Token

/-- The symbol of the first of the tokens. -/
def first? (ts : List Token) : Option Symbol :=
  ts.head?.map (·.symbol)

@[simp] lemma first?_nil : first? [] = none := rfl

@[simp] lemma first?_cons (t : Token) (ts : List Token) : first? (t :: ts) = some t.symbol := rfl

/-- The symbols of tokens. -/
def symbols (ts : List Token) : List Symbol :=
  ts.map (·.symbol)

@[simp] lemma symbols_nil : symbols [] = [] := rfl

@[simp] lemma symbols_cons (t : Token) (ts : List Token) :
    symbols (t :: ts) = t.symbol :: symbols ts := rfl

@[simp] lemma symbols_append (ts us : List Token) :
    symbols (ts ++ us) = symbols ts ++ symbols us :=
  List.map_append

lemma symbols_eq_cons {ts : List Token} {s : Symbol} {ss : List Symbol}
    (h : symbols ts = s :: ss) : ∃ t us, ts = t :: us ∧ t.symbol = s ∧ symbols us = ss := by
  cases ts with
  | nil => cases h
  | cons t us =>
      cases h
      exact ⟨t, us, rfl, rfl, rfl⟩

lemma first?_eq (ts : List Token) : first? ts = (symbols ts).head? := by
  cases ts <;> rfl

lemma exists_of_first? {ts : List Token} {s : Symbol} (h : first? ts = some s) :
    ∃ t us, ts = t :: us ∧ t.symbol = s := by
  cases ts with
  | nil => cases h
  | cons t us => exact ⟨t, us, rfl, by simpa using h⟩

lemma first?_of_symbols {ts us : List Token} (h : symbols ts = symbols us) :
    first? ts = first? us := by
  rw [first?_eq, h, first?_eq]

lemma startsOperand_eq (ts : List Token) :
    startsOperand ts = (first? ts).any Symbol.startsOperand := by
  cases ts <;> rfl

lemma startsOperand_of_symbols {ts us : List Token} (h : symbols ts = symbols us) :
    startsOperand ts = startsOperand us := by
  rw [startsOperand_eq, first?_of_symbols h, startsOperand_eq]

end Token

/-- What the use of an ability can be built of. -/
lemma AbilityUse.build_eq_ok_iff {key : String} {modifiers : List String}
    {overrides : Option Overrides} {label : Option String} {u : AbilityUse} :
    AbilityUse.build key modifiers overrides label = .ok u ↔
      Text.isBlankText key = false ∧ (modifiers = [] ∨ overrides = none) ∧
        u = ⟨key, modifiers, overrides, label⟩ := by
  rw [AbilityUse.build]
  cases Text.isBlankText key with
  | true => simp
  | false =>
      cases modifiers <;> cases overrides <;> simp [eq_comm]

namespace Descent

/-- The rules of the grammar. -/
inductive Phrase where
  /-- Steps. -/
  | expression
  /-- The terms of a step. -/
  | terms
  /-- Alternatives with a slash between; `first` says whether they begin their term. -/
  | term (first : Bool)
  /-- One alternative with the tooltips around it. -/
  | alternative (first : Bool)
  /-- An ability or a group. -/
  | operand (first : Bool)

namespace Phrase

/-- What a rule reads. -/
@[reducible] def Value : Phrase → Type
  | .expression => List Step
  | .terms => List Term
  | .term _ => Term
  | .alternative _ => Term
  | .operand _ => Alternative

end Phrase

/-- An ability or a group, from the first of the tokens on. -/
def operand (rules : Rules) (first : Bool) : (ts : List Token) → Except Stop (Read Alternative ts)
  | [] => stop .operandMissing []
  | t :: rest =>
      match t.symbol with
      | .word w => ability rules first t w rest
      | .opening => group rules t rest
      | _ => stop .operandMissing (t :: rest)

/-- The function of the descent for a rule. -/
def Phrase.run (rules : Rules) : (p : Phrase) → (ts : List Token) → Except Stop (Read p.Value ts)
  | .expression, ts => Descent.expression rules ts
  | .terms, ts => Descent.terms rules ts
  | .term first, ts => Descent.term rules first ts
  | .alternative first, ts => Descent.alternative rules first ts
  | .operand first, ts => Descent.operand rules first ts

/-- The fusion that an ability begins with, which is looked for only in the first alternative of a
term. -/
def fusionAt? (rules : Rules) (first : Bool) (ts : List Token) : Option Fusion :=
  if first then Fusion.at? rules.catalog ts else none

/-- The word that is used as an ability where nothing is fused, and the tokens after it. -/
def plainWord (rules : Rules) (w : Word) (rest : List Token) : Word × List Token :=
  match rules.adjacentWords with
  | .join => joinWords w rest
  | _ => (w, rest)

/-- Whether an expression may end before the tokens. -/
def EndsExpression (ts : List Token) : Prop :=
  Token.first? ts = none ∨ Token.first? ts = some .closing

/-- The successful readings: the rule `p` reads the value `v` from the beginning of the first
tokens and leaves the last ones. -/
inductive Reads (rules : Rules) : (p : Phrase) → List Token → p.Value → List Token → Prop
  /-- The last step of an expression. -/
  | lastStep {ts s rest} (hs : Reads rules .terms ts s rest) (ha : isAmbiguous s = false)
      (hend : EndsExpression rest) : Reads rules .expression ts [s] rest
  /-- A step with an arrow behind it. -/
  | arrow {ts s t rest ss after} (hs : Reads rules .terms ts s (t :: rest))
      (ha : isAmbiguous s = false) (ht : t.symbol = .arrow)
      (hstart : Token.startsOperand rest = true) (hss : Reads rules .expression rest ss after) :
      Reads rules .expression ts (s :: ss) after
  /-- A step with another one right behind it. -/
  | gap {ts s t rest ss after} (hs : Reads rules .terms ts s (t :: rest))
      (ha : isAmbiguous s = false) (ht : t.symbol.startsOperand = true)
      (hmode : rules.adjacentWords ≠ .error)
      (hss : Reads rules .expression (t :: rest) ss after) :
      Reads rules .expression ts (s :: ss) after
  /-- The last term of a step. -/
  | lastTerm {ts a rest} (ha : Reads rules (.term true) ts a rest)
      (hnext : Token.first? rest ≠ some .plus) : Reads rules .terms ts [a] rest
  /-- A term with a plus behind it. -/
  | plus {ts a t rest as after} (ha : Reads rules (.term true) ts a (t :: rest))
      (ht : t.symbol = .plus) (hstart : Token.startsOperand rest = true)
      (has : Reads rules .terms rest as after) : Reads rules .terms ts (a :: as) after
  /-- The last alternative of a term. -/
  | lastAlternative {first ts a rest} (ha : Reads rules (.alternative first) ts a rest)
      (hnext : Token.first? rest ≠ some .slash) : Reads rules (.term first) ts a rest
  /-- An alternative with a slash behind it. -/
  | slash {first ts a t rest as after} (ha : Reads rules (.alternative first) ts a (t :: rest))
      (ht : t.symbol = .slash) (hstart : Token.startsOperand rest = true)
      (has : Reads rules (.term false) rest as after) :
      Reads rules (.term first) ts (a ++ as) after
  /-- An operand with the tooltips around it. -/
  | alternative {first ts a after} (ha : Reads rules (.operand first) (markers ts).2 a after) :
      Reads rules (.alternative first) ts ((markers ts).1 ++ a :: (markers after).1)
        (markers after).2
  /-- Modifiers fused onto an ability. -/
  | fused {first t w rest f u} (ht : t.symbol = .word w)
      (hf : fusionAt? rules first (t :: rest) = some f)
      (hu : AbilityUse.build f.target.key f.modifiers none f.target.label = .ok u) :
      Reads rules (.operand first) (t :: rest) (.ability u) f.rest
  /-- A word, or several joined ones, without modifiers. -/
  | plain {first t w rest u} (ht : t.symbol = .word w)
      (hf : fusionAt? rules first (t :: rest) = none)
      (hu : plainUse rules (plainWord rules w rest).1 = .ok u) :
      Reads rules (.operand first) (t :: rest) (.ability u) (plainWord rules w rest).2
  /-- A group. -/
  | group {first t rest ss u after} (ht : t.symbol = .opening)
      (hne : Token.first? rest ≠ some .closing)
      (hss : Reads rules .expression rest ss (u :: after)) (hu : u.symbol = .closing) :
      Reads rules (.operand first) (t :: rest) (.group ss Table.empty) after

/-- An operand is read between the tooltips around it. -/
lemma Reads.between {rules : Rules} {first : Bool} {ts inner after rest : List Token}
    {front back : Term} {a : Alternative} (hts : markers ts = (front, inner))
    (ha : Reads rules (.operand first) inner a after) (hafter : markers after = (back, rest)) :
    Reads rules (.alternative first) ts (front ++ a :: back) rest := by
  obtain rfl : (markers ts).2 = inner := congrArg Prod.snd hts
  have h := Reads.alternative ha
  rwa [hts, hafter] at h

/-- An alternative alone is an expression of one step. -/
lemma Reads.single {rules : Rules} {ts rest : List Token} {a : Term}
    (h : Reads rules (.alternative true) ts a rest) (ha : isAmbiguous [a] = false)
    (hend : EndsExpression rest) : Reads rules .expression ts [[a]] rest := by
  refine .lastStep (.lastTerm (.lastAlternative h ?_) ?_) ha hend
  all_goals rcases hend with hend | hend <;> simp [hend]

/-- The tooltips in front of an operand, as markers. -/
lemma exists_markers (ts : List Token) :
    ∃ texts : List String, (markers ts).1 = texts.map (.marker ·) ∧
      Token.symbols ts = texts.map .tooltip ++ Token.symbols (markers ts).2 := by
  induction ts with
  | nil => exact ⟨[], rfl, rfl⟩
  | cons t ts ih =>
      rw [markers]
      split
      · next text ht =>
          obtain ⟨texts, h1, h2⟩ := ih
          exact ⟨text :: texts, by simp [h1], by simp [ht, h2]⟩
      · exact ⟨[], rfl, rfl⟩

/-! ### What each function returns -/

/-- A function of the descent returns a value and leaves tokens. -/
def Returns {α : Type} {ts : List Token} (x : Except Stop (Read α ts)) (v : α)
    (rest : List Token) : Prop :=
  ∃ h, x = .ok ⟨v, rest, h⟩

variable {rules : Rules} {first : Bool} {ts rest after : List Token} {t : Token}

@[simp] lemma not_returns_error {α : Type} {v : α} {e : Stop} :
    ¬ Returns (.error e : Except Stop (Read α ts)) v rest := by
  rintro ⟨h, he⟩
  cases he

@[simp] lemma not_returns_stop {α : Type} {v : α} {c : ParseCause} :
    ¬ Returns (stop c after : Except Stop (Read α ts)) v rest :=
  not_returns_error

@[simp] lemma returns_ok {α : Type} {v : α} {r : Read α ts} :
    Returns (.ok r) v rest ↔ v = r.value ∧ rest = r.rest := by
  obtain ⟨w, us, hr⟩ := r
  constructor
  · rintro ⟨h, he⟩
    cases he
    exact ⟨rfl, rfl⟩
  · rintro ⟨rfl, rfl⟩
    exact ⟨hr, rfl⟩

lemma returns_build {use : Except AbilityUse.BuildFault AbilityUse} {h : rest.length < ts.length}
    {v : Alternative} :
    Returns (build use rest h) v after ↔ ∃ u, use = .ok u ∧ v = .ability u ∧ after = rest := by
  cases use <;> simp [build]

/-- An ability is a fusion, or a plain word where nothing is fused. -/
lemma returns_ability {w : Word} {v : Alternative} :
    Returns (ability rules first t w rest) v after ↔
      (∃ f u, fusionAt? rules first (t :: rest) = some f ∧
        AbilityUse.build f.target.key f.modifiers none f.target.label = .ok u ∧
        v = .ability u ∧ after = f.rest) ∨
      (fusionAt? rules first (t :: rest) = none ∧
        ∃ u, plainUse rules (plainWord rules w rest).1 = .ok u ∧
          v = .ability u ∧ after = (plainWord rules w rest).2) := by
  rw [ability]
  split
  · next f hf =>
      rw [← fusionAt?] at hf
      simp [hf, returns_build]
  · next hf =>
      rw [← fusionAt?] at hf
      cases hm : rules.adjacentWords <;> simp [hf, plainWord, hm, returns_build]

/-- A group is an expression between parentheses. -/
lemma returns_group {v : Alternative} :
    Returns (group rules t rest) v after ↔
      Token.first? rest ≠ some .closing ∧ ∃ ss u, Returns (expression rules rest) ss (u :: after) ∧
        u.symbol = .closing ∧ v = .group ss Table.empty := by
  rw [group, ← Token.first?]
  by_cases hc : Token.first? rest = some .closing
  · simp [hc]
  · rw [if_neg hc]
    rcases he : expression rules rest with e | ⟨ss, _ | ⟨u, us⟩, h⟩
    · simp
    · simp
    · by_cases hu : u.symbol = .closing
      · simp only [hu, if_true, returns_ok, hc, ne_eq, not_false_eq_true, true_and]
        constructor
        · rintro ⟨rfl, rfl⟩
          exact ⟨ss, u, by simp, hu, rfl⟩
        · rintro ⟨ss', u', ⟨rfl, h⟩, -, rfl⟩
          cases h
          exact ⟨rfl, rfl⟩
      · simp only [hu, if_false, not_returns_stop, returns_ok, false_iff]
        rintro ⟨-, ss', u', ⟨-, h⟩, hu', -⟩
        cases h
        exact hu hu'

/-- The operand of an alternative begins where its tooltips end. -/
lemma returns_alternative {v : Term} :
    Returns (alternative rules first ts) v rest ↔
      ∃ a after, Returns (operand rules first (markers ts).2) a after ∧
        v = (markers ts).1 ++ a :: (markers after).1 ∧ rest = (markers after).2 := by
  rw [alternative]
  split
  · next front hm =>
      rw [show (markers ts).2 = [] by rw [hm]]
      simp [operand]
  · next front t us hm =>
      rw [show (markers ts).2 = t :: us by rw [hm], show (markers ts).1 = front by rw [hm]]
      simp only
      split
      · next e he =>
          have ho : operand rules first (t :: us) = .error e := he
          simp [ho]
      · next a after h he =>
          have ho : operand rules first (t :: us) = .ok ⟨a, after, h⟩ := he
          simp only [ho, returns_ok]
          constructor
          · rintro ⟨rfl, rfl⟩
            exact ⟨a, after, ⟨rfl, rfl⟩, rfl, rfl⟩
          · rintro ⟨_, _, ⟨rfl, rfl⟩, rfl, rfl⟩
            exact ⟨rfl, rfl⟩

/-- A term goes on exactly where a slash stands behind an alternative. -/
lemma returns_term {v : Term} :
    Returns (term rules first ts) v rest ↔
      (Returns (alternative rules first ts) v rest ∧ Token.first? rest ≠ some .slash) ∨
      ∃ a t after as, Returns (alternative rules first ts) a (t :: after) ∧ t.symbol = .slash ∧
        Token.startsOperand after = true ∧ Returns (term rules false after) as rest ∧
        v = a ++ as := by
  rw [term]
  rcases he : alternative rules first ts with e | ⟨a, _ | ⟨t, after⟩, h⟩
  · simp
  · simp +contextual [and_assoc]
  · by_cases ht : t.symbol = .slash
    · have hnext : rest = t :: after → Token.first? rest = some .slash := by
        rintro rfl
        simpa using ht
      by_cases hs : Token.startsOperand after = true
      · rcases hr : term rules false after with e | r
        · simpa [ht, hs, hr, and_assoc] using fun _ => hnext
        · simp only [ht, hs, hr, if_true, returns_ok, Read.widen]
          constructor
          · rintro ⟨rfl, rfl⟩
            exact .inr ⟨a, t, after, r.value, ⟨rfl, rfl⟩, ht, hs, by simp [hr], rfl⟩
          · rintro (⟨⟨-, h1⟩, h2⟩ | ⟨_, _, _, as, ⟨rfl, hc⟩, -, -, hr', rfl⟩)
            · exact absurd (hnext h1) h2
            · cases hc
              simp only [hr, returns_ok] at hr'
              exact ⟨by rw [hr'.1], hr'.2⟩
      · simpa [ht, hs, and_assoc] using fun _ => hnext
    · have hnext : rest = t :: after → ¬ Token.first? rest = some .slash := by
        rintro rfl
        simpa using ht
      simpa [ht, and_assoc] using fun _ => hnext

/-- A step goes on exactly where a plus stands behind a term. -/
lemma returns_terms {v : Step} :
    Returns (terms rules ts) v rest ↔
      (∃ a, Returns (term rules true ts) a rest ∧ Token.first? rest ≠ some .plus ∧ v = [a]) ∨
      ∃ a t after as, Returns (term rules true ts) a (t :: after) ∧ t.symbol = .plus ∧
        Token.startsOperand after = true ∧ Returns (terms rules after) as rest ∧ v = a :: as := by
  rw [terms]
  rcases he : term rules true ts with e | ⟨a, _ | ⟨t, after⟩, h⟩
  · simp
  · simp only [returns_ok, List.cons_ne_nil, and_false, false_and, exists_false, or_false]
    constructor
    · rintro ⟨rfl, rfl⟩
      exact ⟨a, ⟨rfl, rfl⟩, by simp, rfl⟩
    · rintro ⟨_, ⟨rfl, rfl⟩, -, rfl⟩
      exact ⟨rfl, rfl⟩
  -- a plus decides between the two ways, since the first one asks that there be none
  · by_cases ht : t.symbol = .plus
    · have hnext : rest = t :: after → Token.first? rest = some .plus := by
        rintro rfl
        simpa using ht
      by_cases hs : Token.startsOperand after = true
      · rcases hr : terms rules after with e | r
        · simpa [ht, hs, hr, and_assoc] using fun h1 h2 => absurd (hnext h1) h2
        · simp only [ht, hs, hr, if_true, returns_ok, Read.widen]
          constructor
          · rintro ⟨rfl, rfl⟩
            exact .inr ⟨a, t, after, r.value, ⟨rfl, rfl⟩, ht, hs, by simp [hr], rfl⟩
          · rintro (⟨_, ⟨-, h1⟩, h2, -⟩ | ⟨_, _, _, as, ⟨rfl, hc⟩, -, -, hr', rfl⟩)
            · exact absurd (hnext h1) h2
            · cases hc
              simp only [hr, returns_ok] at hr'
              exact ⟨by rw [hr'.1], hr'.2⟩
      · simpa [ht, hs, and_assoc] using fun h1 h2 => absurd (hnext h1) h2
    · have hnext : rest = t :: after → ¬ Token.first? rest = some .plus := by
        rintro rfl
        simpa using ht
      simp only [returns_ok]
      constructor
      · rintro ⟨rfl, h1⟩
        exact .inl ⟨a, ⟨rfl, h1⟩, hnext h1, rfl⟩
      · rintro (⟨_, ⟨rfl, h1⟩, -, rfl⟩ | ⟨_, _, _, _, ⟨-, hc⟩, ht', -⟩)
        · exact ⟨rfl, h1⟩
        · cases hc
          exact absurd ht' ht

/-- A step is read like its terms, if they are not ambiguous. -/
lemma returns_step {v : Step} :
    Returns (step rules ts) v rest ↔
      Returns (terms rules ts) v rest ∧ isAmbiguous v = false := by
  rw [step]
  rcases he : terms rules ts with e | r
  · simp
  · cases ha : isAmbiguous r.value with
    | true =>
        simp only [ha, if_true, not_returns_stop, returns_ok, false_iff]
        rintro ⟨⟨rfl, -⟩, h⟩
        rw [ha] at h
        cases h
    | false =>
        simp only [ha, Bool.false_eq_true, if_false, returns_ok]
        constructor
        · rintro ⟨rfl, rfl⟩
          exact ⟨⟨rfl, rfl⟩, ha⟩
        · exact fun h => h.1

/-- An expression ends before a closing parenthesis and at the end, and goes on behind an arrow or
at the next operand. -/
lemma returns_expression {v : List Step} :
    Returns (expression rules ts) v rest ↔
      (∃ s, Returns (step rules ts) s rest ∧ EndsExpression rest ∧ v = [s]) ∨
      (∃ s t after ss, Returns (step rules ts) s (t :: after) ∧ t.symbol = .arrow ∧
        Token.startsOperand after = true ∧ Returns (expression rules after) ss rest ∧
        v = s :: ss) ∨
      ∃ s t after ss, Returns (step rules ts) s (t :: after) ∧ t.symbol.startsOperand = true ∧
        rules.adjacentWords ≠ .error ∧ Returns (expression rules (t :: after)) ss rest ∧
        v = s :: ss := by
  rw [expression]
  rcases he : step rules ts with e | ⟨s, _ | ⟨t, after⟩, h⟩
  · simp
  · simp only [returns_ok, List.cons_ne_nil, and_false, false_and, exists_false, or_false]
    constructor
    · rintro ⟨rfl, rfl⟩
      exact ⟨s, ⟨rfl, rfl⟩, .inl rfl, rfl⟩
    · rintro ⟨_, ⟨rfl, rfl⟩, -, rfl⟩
      exact ⟨rfl, rfl⟩
  -- unless it is a closing parenthesis, the next token leaves only the ways that go on
  · have hnext : t.symbol ≠ .closing → rest = t :: after → ¬ EndsExpression rest := by
      rintro hx rfl (h | h)
      · cases h
      · exact hx (by simpa using h)
    rcases hsym : t.symbol with w | text | _ | _ | _ | _ | _
    case closing =>
      simp only [hsym, returns_ok]
      constructor
      · rintro ⟨rfl, rfl⟩
        exact .inl ⟨s, ⟨rfl, rfl⟩, .inr (by simp [hsym]), rfl⟩
      · rintro (⟨_, ⟨rfl, h1⟩, -, rfl⟩ | ⟨_, _, _, _, ⟨-, hc⟩, ht, -⟩ |
          ⟨_, _, _, _, ⟨-, hc⟩, ht, -⟩)
        · exact ⟨rfl, h1⟩
        · cases hc
          simp [hsym] at ht
        · cases hc
          simp [hsym, Symbol.startsOperand] at ht
    case arrow =>
      by_cases hs : Token.startsOperand after = true
      · rcases hr : expression rules after with e | r
        · simpa [hsym, hs, hr, and_assoc, Symbol.startsOperand] using
            fun h1 h2 => absurd h2 (hnext (by simp [hsym]) h1)
        · simpa [hsym, hs, hr, and_assoc, Symbol.startsOperand, Read.widen, and_comm] using
            fun h1 _ h2 => absurd h2 (hnext (by simp [hsym]) h1)
      · simpa [hsym, hs, and_assoc, Symbol.startsOperand] using
          fun h1 h2 => absurd h2 (hnext (by simp [hsym]) h1)
    case plus | slash =>
      simpa [hsym, and_assoc, Symbol.startsOperand] using
        fun h1 h2 => absurd h2 (hnext (by simp [hsym]) h1)
    -- words, tooltips and groups go on without an operator, unless neighbours are a fault
    all_goals
      rcases hm : rules.adjacentWords
      case error =>
        simpa [hsym, hm, and_assoc, Symbol.startsOperand] using
          fun h1 h2 => absurd h2 (hnext (by simp [hsym]) h1)
      all_goals
        rcases hr : expression rules (t :: after) with e | r
        · simpa [hsym, hm, hr, and_assoc, Symbol.startsOperand] using
            fun h1 h2 => absurd h2 (hnext (by simp [hsym]) h1)
        · simpa [hsym, hr, and_assoc, Symbol.startsOperand, Read.widen, and_comm] using
            fun h1 _ h2 => absurd h2 (hnext (by simp [hsym]) h1)

/-! ### The relation and the functions agree -/

/-- An operand is an ability or a group, according to its first token. -/
lemma returns_operand {v : Alternative} :
    Returns (operand rules first ts) v after ↔
      (∃ t w rest, ts = t :: rest ∧ t.symbol = .word w ∧
        Returns (ability rules first t w rest) v after) ∨
      ∃ t rest, ts = t :: rest ∧ t.symbol = .opening ∧ Returns (group rules t rest) v after := by
  constructor
  · intro h
    cases ts with
    | nil => simp [operand] at h
    | cons t rest =>
        rw [operand] at h
        split at h
        · next w ht => exact .inl ⟨t, w, rest, rfl, ht, h⟩
        · next ht => exact .inr ⟨t, rest, rfl, ht, h⟩
        · simp at h
  · rintro (⟨t, w, rest, rfl, ht, h⟩ | ⟨t, rest, rfl, ht, h⟩)
    · rw [operand]
      split
      · next w' ht' =>
          rw [ht] at ht'
          cases ht'
          exact h
      · next ht' => simp [ht] at ht'
      · next hw _ => exact absurd ht (hw w)
    · rw [operand]
      split
      · next ht' => simp [ht] at ht'
      · exact h
      · next _ ho => exact absurd ht ho

/-- What is read by the relation is returned by the functions. -/
lemma Reads.returns {p : Phrase} {v : p.Value} (h : Reads rules p ts v rest) :
    Returns (p.run rules ts) v rest := by
  induction h with
  | lastStep hs ha hend ih =>
      exact returns_expression.mpr (.inl ⟨_, returns_step.mpr ⟨ih, ha⟩, hend, rfl⟩)
  | arrow hs ha ht hstart hss ih1 ih2 =>
      exact returns_expression.mpr
        (.inr (.inl ⟨_, _, _, _, returns_step.mpr ⟨ih1, ha⟩, ht, hstart, ih2, rfl⟩))
  | gap hs ha ht hmode hss ih1 ih2 =>
      exact returns_expression.mpr
        (.inr (.inr ⟨_, _, _, _, returns_step.mpr ⟨ih1, ha⟩, ht, hmode, ih2, rfl⟩))
  | lastTerm ha hnext ih => exact returns_terms.mpr (.inl ⟨_, ih, hnext, rfl⟩)
  | plus ha ht hstart has ih1 ih2 =>
      exact returns_terms.mpr (.inr ⟨_, _, _, _, ih1, ht, hstart, ih2, rfl⟩)
  | lastAlternative ha hnext ih => exact returns_term.mpr (.inl ⟨ih, hnext⟩)
  | slash ha ht hstart has ih1 ih2 =>
      exact returns_term.mpr (.inr ⟨_, _, _, _, ih1, ht, hstart, ih2, rfl⟩)
  | alternative ha ih => exact returns_alternative.mpr ⟨_, _, ih, rfl, rfl⟩
  | fused ht hf hu =>
      exact returns_operand.mpr
        (.inl ⟨_, _, _, rfl, ht, returns_ability.mpr (.inl ⟨_, _, hf, hu, rfl, rfl⟩)⟩)
  | plain ht hf hu =>
      exact returns_operand.mpr
        (.inl ⟨_, _, _, rfl, ht, returns_ability.mpr (.inr ⟨hf, _, hu, rfl, rfl⟩)⟩)
  | group ht hne hss hu ih =>
      exact returns_operand.mpr
        (.inr ⟨_, _, rfl, ht, returns_group.mpr ⟨hne, _, _, ih, hu, rfl⟩⟩)

/-- The measure by which the descent ends. -/
def Phrase.measure (ts : List Token) : Phrase → ℕ
  | .expression => 8 * ts.length + 6
  | .terms => 8 * ts.length + 4
  | .term _ => 8 * ts.length + 3
  | .alternative _ => 8 * ts.length + 2
  | .operand _ => 8 * ts.length + 1

lemma Returns.length_lt {α : Type} {x : Except Stop (Read α ts)} {v : α}
    (h : Returns x v rest) : rest.length < ts.length := by
  obtain ⟨hl, -⟩ := h
  exact hl

/-- The recursion of the descent as an induction: a rule begins with the next one, and goes on with
itself, or with an expression, at fewer tokens. -/
theorem descent_induction {motive : Phrase → List Token → Prop}
    (expression : ∀ ts, motive .terms ts →
      (∀ us, us.length < ts.length → motive .expression us) → motive .expression ts)
    (terms : ∀ ts, motive (.term true) ts →
      (∀ us, us.length < ts.length → motive .terms us) → motive .terms ts)
    (term : ∀ first ts, motive (.alternative first) ts →
      (∀ us, us.length < ts.length → motive (.term false) us) → motive (.term first) ts)
    (alternative : ∀ first ts, motive (.operand first) (markers ts).2 →
      motive (.alternative first) ts)
    (operand : ∀ first ts, (∀ us, us.length < ts.length → motive .expression us) →
      motive (.operand first) ts)
    (p : Phrase) (ts : List Token) : motive p ts := by
  induction hn : p.measure ts using Nat.strong_induction_on generalizing p ts with
  | _ n ih =>
      subst hn
      -- a rule calls the rules below it on the same tokens, and any rule on fewer of them
      have hbelow (q : Phrase) (us : List Token) (h : q.measure us < p.measure ts) :
          motive q us := ih _ h q us rfl
      cases p with
      | expression =>
          refine expression ts (hbelow _ _ ?_) fun us hus => hbelow _ _ ?_ <;>
            (simp only [Phrase.measure]; omega)
      | terms =>
          refine terms ts (hbelow _ _ ?_) fun us hus => hbelow _ _ ?_ <;>
            (simp only [Phrase.measure]; omega)
      | term first =>
          refine term first ts (hbelow _ _ ?_) fun us hus => hbelow _ _ ?_ <;>
            (simp only [Phrase.measure]; omega)
      | alternative first =>
          have hl := length_markers_le ts
          refine alternative first ts (hbelow _ _ ?_)
          simp only [Phrase.measure]
          omega
      | operand first =>
          refine operand first ts fun us hus => hbelow _ _ ?_
          simp only [Phrase.measure]
          omega

/-- What is returned by the functions is read by the relation. -/
lemma Reads.of_returns {p : Phrase} {v : p.Value} (h : Returns (p.run rules ts) v rest) :
    Reads rules p ts v rest := by
  -- each way in which a rule returns is a constructor, whose parts are read by induction
  induction p, ts using descent_induction generalizing rest with
  | expression ts ihs ih =>
      rcases returns_expression.mp h with ⟨s, hs, hend, rfl⟩ |
        ⟨s, t, after, ss, hs, ht, hstart, hss, rfl⟩ | ⟨s, t, after, ss, hs, ht, hmode, hss, rfl⟩
      · obtain ⟨hs, ha⟩ := returns_step.mp hs
        exact .lastStep (ihs hs) ha hend
      · obtain ⟨hs, ha⟩ := returns_step.mp hs
        exact .arrow (ihs hs) ha ht hstart (ih _ (Nat.lt_of_succ_lt hs.length_lt) hss)
      · obtain ⟨hs, ha⟩ := returns_step.mp hs
        exact .gap (ihs hs) ha ht hmode (ih _ hs.length_lt hss)
  | terms ts iha ih =>
      rcases returns_terms.mp h with ⟨a, ha, hnext, rfl⟩ |
        ⟨a, t, after, as, ha, ht, hstart, has, rfl⟩
      · exact .lastTerm (iha ha) hnext
      · exact .plus (iha ha) ht hstart (ih _ (Nat.lt_of_succ_lt ha.length_lt) has)
  | term first ts iha ih =>
      rcases returns_term.mp h with ⟨ha, hnext⟩ | ⟨a, t, after, as, ha, ht, hstart, has, rfl⟩
      · exact .lastAlternative (iha ha) hnext
      · exact .slash (iha ha) ht hstart (ih _ (Nat.lt_of_succ_lt ha.length_lt) has)
  | alternative first ts iha =>
      obtain ⟨a, after, ha, rfl, rfl⟩ := returns_alternative.mp h
      exact .alternative (iha ha)
  | operand first ts ih =>
      rcases returns_operand.mp h with ⟨t, w, us, rfl, ht, h⟩ | ⟨t, us, rfl, ht, h⟩
      · rcases returns_ability.mp h with ⟨f, u, hf, hu, rfl, rfl⟩ | ⟨hf, u, hu, rfl, rfl⟩
        · exact .fused ht hf hu
        · exact .plain ht hf hu
      · obtain ⟨hne, ss, u, hss, hu, rfl⟩ := returns_group.mp h
        exact .group ht hne (ih us (Nat.lt_succ_self _) hss) hu

/-- A rule reads exactly what its function returns. -/
theorem reads_iff {p : Phrase} {v : p.Value} :
    Reads rules p ts v rest ↔ Returns (p.run rules ts) v rest :=
  ⟨Reads.returns, Reads.of_returns⟩

/-- A rule leaves fewer tokens than there were. -/
lemma Reads.length_lt {p : Phrase} {v : p.Value} (h : Reads rules p ts v rest) :
    rest.length < ts.length :=
  h.returns.length_lt

/-- All tokens are read exactly if an expression is read that leaves none of them. -/
theorem all_eq_ok_iff {steps : List Step} :
    all rules ts = .ok steps ↔ Reads rules .expression ts steps [] := by
  rw [reads_iff]
  rw [all]
  change _ ↔ Returns (expression rules ts) steps []
  rcases he : expression rules ts with e | ⟨ss, _ | ⟨t, us⟩, h⟩
  · simp
  · simp [eq_comm]
  · simp only [returns_ok, List.nil_eq, reduceCtorEq, and_false, iff_false]
    split <;> simp [stop]

/-- Tokens describe steps exactly if an expression is read that leaves none of them. -/
theorem stepsOfTokens_eq_ok_iff {steps : List Step} :
    Rotation.stepsOfTokens rules ts = .ok steps ↔ Reads rules .expression ts steps [] := by
  rw [← all_eq_ok_iff, Rotation.stepsOfTokens]
  cases all rules ts <;> simp

lemma Reads.steps_ne_nil {steps : List Step} (h : Reads rules .expression ts steps rest) :
    steps ≠ [] := by
  cases h <;> simp

lemma Reads.terms_ne_nil {s : Step} (h : Reads rules .terms ts s rest) : s ≠ [] := by
  cases h <;> simp

/-- A phrase with tooltips around it is not read up to a tooltip. -/
lemma Reads.first?_ne_tooltip {p : Phrase} {v : p.Value} (h : Reads rules p ts v rest)
    (hp : ∀ first, p ≠ .operand first) (text : String) :
    Token.first? rest ≠ some (.tooltip text) := by
  have hmarkers : ∀ us : List Token, Token.first? (markers us).2 ≠ some (.tooltip text) := by
    intro us
    induction us with
    | nil => simp [markers]
    | cons u us ih =>
        rw [markers]
        split
        · exact ih
        · next hu =>
            intro h
            rw [Token.first?_cons, Option.some.injEq] at h
            exact hu text h
  induction h with
  | lastStep _ _ _ ih | lastTerm _ _ ih | lastAlternative _ _ ih => exact ih (by simp)
  | arrow _ _ _ _ _ _ ih | gap _ _ _ _ _ _ ih | plus _ _ _ _ _ ih | slash _ _ _ _ _ ih =>
      exact ih (by simp)
  | alternative _ _ => exact hmarkers _
  | fused | plain | group => exact absurd rfl (hp _)

/-! ### Only symbols count -/

lemma markers_of_symbols {ts us : List Token} (h : Token.symbols ts = Token.symbols us) :
    (markers ts).1 = (markers us).1 ∧
      Token.symbols (markers ts).2 = Token.symbols (markers us).2 := by
  induction ts generalizing us with
  | nil =>
      cases us with
      | nil => exact ⟨rfl, rfl⟩
      | cons u us => cases h
  | cons t ts ih =>
      cases us with
      | nil => cases h
      | cons u us =>
          simp only [Token.symbols_cons, List.cons.injEq] at h
          obtain ⟨hs, hrest⟩ := h
          rw [markers, markers, ← hs]
          split
          · exact ⟨by rw [(ih hrest).1], (ih hrest).2⟩
          · exact ⟨rfl, by simp [hs, hrest]⟩

lemma joinWords_of_symbols {w : Word} {ts us : List Token}
    (h : Token.symbols ts = Token.symbols us) :
    (joinWords w ts).1 = (joinWords w us).1 ∧
      Token.symbols (joinWords w ts).2 = Token.symbols (joinWords w us).2 := by
  induction ts generalizing us w with
  | nil =>
      cases us with
      | nil => exact ⟨rfl, rfl⟩
      | cons u us => cases h
  | cons t ts ih =>
      cases us with
      | nil => cases h
      | cons u us =>
          simp only [Token.symbols_cons, List.cons.injEq] at h
          obtain ⟨hs, hrest⟩ := h
          rw [joinWords, joinWords, ← hs]
          split
          · exact ih hrest
          · exact ⟨rfl, by simp [hs, hrest]⟩

lemma plainWord_of_symbols {w : Word} {ts us : List Token}
    (h : Token.symbols ts = Token.symbols us) :
    (plainWord rules w ts).1 = (plainWord rules w us).1 ∧
      Token.symbols (plainWord rules w ts).2 = Token.symbols (plainWord rules w us).2 := by
  rw [plainWord, plainWord]
  split
  · exact joinWords_of_symbols h
  · exact ⟨rfl, h⟩

/-- A fusion without the positions of the tokens after it. -/
def fusionView (f : Fusion) : List String × Word × List Symbol :=
  (f.modifiers, f.target, Token.symbols f.rest)

lemma slashFollows_of_symbols {ts us : List Token} (h : Token.symbols ts = Token.symbols us) :
    Fusion.slashFollows ts = Fusion.slashFollows us := by
  induction ts generalizing us with
  | nil =>
      cases us with
      | nil => rfl
      | cons u us => cases h
  | cons t ts ih =>
      cases us with
      | nil => cases h
      | cons u us =>
          simp only [Token.symbols_cons, List.cons.injEq] at h
          rw [Fusion.slashFollows, Fusion.slashFollows, ← h.1]
          cases t.symbol <;> simp [ih h.2]

lemma afterChain?_of_symbols (c : Catalog) (ms : List Modifier) (mayPlus : Bool)
    {ts us : List Token} (h : Token.symbols ts = Token.symbols us) :
    (Fusion.afterChain? c ms mayPlus ts).map fusionView =
      (Fusion.afterChain? c ms mayPlus us).map fusionView := by
  induction ts generalizing us ms mayPlus with
  | nil =>
      cases us with
      | nil => rfl
      | cons u us => cases h
  | cons t ts ih =>
      cases us with
      | nil => cases h
      | cons u us =>
          simp only [Token.symbols_cons, List.cons.injEq] at h
          rw [Fusion.afterChain?, Fusion.afterChain?, ← h.1]
          cases t.symbol with
          | plus =>
              cases mayPlus with
              | true => exact ih _ _ h.2
              | false => rfl
          | word w =>
              simp only
              split
              · rw [slashFollows_of_symbols h.2]
                split
                · rfl
                · simp [fusionView, h.2]
              · split
                · exact ih _ _ h.2
                · rfl
          | _ => rfl

lemma fusionAt?_of_symbols (rules : Rules) (first : Bool) {ts us : List Token}
    (h : Token.symbols ts = Token.symbols us) :
    (fusionAt? rules first ts).map fusionView = (fusionAt? rules first us).map fusionView := by
  cases first with
  | false => rfl
  | true =>
      cases ts with
      | nil =>
          cases us with
          | nil => rfl
          | cons u us => cases h
      | cons t ts =>
          cases us with
          | nil => cases h
          | cons u us =>
              simp only [Token.symbols_cons, List.cons.injEq] at h
              simp only [fusionAt?, if_true, Fusion.at?, ← h.1]
              cases t.symbol with
              | word w =>
                  simp only
                  cases Fusion.modifierOf? rules.catalog w with
                  | none => rfl
                  | some m => exact afterChain?_of_symbols rules.catalog [m] true h.2
              | _ => rfl

/-- Nothing but the symbols of the tokens counts. -/
theorem Reads.of_symbols {p : Phrase} {v : p.Value} {us : List Token}
    (h : Reads rules p ts v rest) (hus : Token.symbols us = Token.symbols ts) :
    ∃ rest', Token.symbols rest' = Token.symbols rest ∧ Reads rules p us v rest' := by
  induction h generalizing us with
  | lastStep hs ha hend ih =>
      obtain ⟨rest', hr, h⟩ := ih hus
      refine ⟨rest', hr, .lastStep h ha ?_⟩
      rwa [EndsExpression, Token.first?_of_symbols hr]
  | arrow hs ha ht hstart hss ih1 ih2 =>
      obtain ⟨rest1, hr1, h1⟩ := ih1 hus
      obtain ⟨t', us', rfl, ht', hus'⟩ := Token.symbols_eq_cons hr1
      obtain ⟨rest2, hr2, h2⟩ := ih2 hus'
      have hstart' := (Token.startsOperand_of_symbols hus').trans hstart
      exact ⟨rest2, hr2, .arrow h1 ha (ht'.trans ht) hstart' h2⟩
  | gap hs ha ht hmode hss ih1 ih2 =>
      obtain ⟨rest1, hr1, h1⟩ := ih1 hus
      obtain ⟨t', us', rfl, ht', hus'⟩ := Token.symbols_eq_cons hr1
      obtain ⟨rest2, hr2, h2⟩ := ih2 hr1
      exact ⟨rest2, hr2, .gap h1 ha (by rwa [ht']) hmode h2⟩
  | lastTerm ha hnext ih =>
      obtain ⟨rest', hr, h⟩ := ih hus
      exact ⟨rest', hr, .lastTerm h (by rwa [Token.first?_of_symbols hr])⟩
  | plus ha ht hstart has ih1 ih2 =>
      obtain ⟨rest1, hr1, h1⟩ := ih1 hus
      obtain ⟨t', us', rfl, ht', hus'⟩ := Token.symbols_eq_cons hr1
      obtain ⟨rest2, hr2, h2⟩ := ih2 hus'
      have hstart' := (Token.startsOperand_of_symbols hus').trans hstart
      exact ⟨rest2, hr2, .plus h1 (ht'.trans ht) hstart' h2⟩
  | lastAlternative ha hnext ih =>
      obtain ⟨rest', hr, h⟩ := ih hus
      exact ⟨rest', hr, .lastAlternative h (by rwa [Token.first?_of_symbols hr])⟩
  | slash ha ht hstart has ih1 ih2 =>
      obtain ⟨rest1, hr1, h1⟩ := ih1 hus
      obtain ⟨t', us', rfl, ht', hus'⟩ := Token.symbols_eq_cons hr1
      obtain ⟨rest2, hr2, h2⟩ := ih2 hus'
      have hstart' := (Token.startsOperand_of_symbols hus').trans hstart
      exact ⟨rest2, hr2, .slash h1 (ht'.trans ht) hstart' h2⟩
  | @alternative first ts a after ha ih =>
      obtain ⟨hm1, hm2⟩ := markers_of_symbols hus
      obtain ⟨rest', hr, h⟩ := ih hm2
      obtain ⟨hn1, hn2⟩ := markers_of_symbols hr
      rw [← hm1, ← hn1]
      exact ⟨_, hn2, .alternative h⟩
  | @fused first t w rest f u ht hf hu =>
      obtain ⟨t', us', rfl, ht', hus'⟩ := Token.symbols_eq_cons hus
      have hv := fusionAt?_of_symbols rules first hus
      rw [hf, Option.map_some, Option.map_eq_some_iff] at hv
      obtain ⟨g, hg, hgv⟩ := hv
      simp only [fusionView, Prod.mk.injEq] at hgv
      obtain ⟨hmods, htarget, hrest⟩ := hgv
      exact ⟨g.rest, hrest, .fused (ht'.trans ht) hg (by rw [hmods, htarget]; exact hu)⟩
  | @plain first t w rest u ht hf hu =>
      obtain ⟨t', us', rfl, ht', hus'⟩ := Token.symbols_eq_cons hus
      have hv := fusionAt?_of_symbols rules first hus
      rw [hf, Option.map_none, Option.map_eq_none_iff] at hv
      obtain ⟨hword, hrest⟩ := plainWord_of_symbols hus'
      exact ⟨_, hrest, .plain (ht'.trans ht) hv (by rw [hword]; exact hu)⟩
  | group ht hne hss hu ih =>
      obtain ⟨t', us', rfl, ht', hus'⟩ := Token.symbols_eq_cons hus
      obtain ⟨rest1, hr1, h1⟩ := ih hus'
      obtain ⟨u', after', rfl, hu', hafter⟩ := Token.symbols_eq_cons hr1
      exact ⟨after', hafter, .group (ht'.trans ht) (by rwa [Token.first?_of_symbols hus']) h1
        (hu'.trans hu)⟩

/-- What is read to the end depends on the symbols only, not on where they stand in the text. -/
lemma Reads.all_of_symbols {p : Phrase} {v : p.Value} {us : List Token}
    (h : Reads rules p ts v []) (hus : Token.symbols us = Token.symbols ts) :
    Reads rules p us v [] := by
  obtain ⟨rest, hrest, hread⟩ := h.of_symbols hus
  rw [Token.symbols_nil, Token.symbols, List.map_eq_nil_iff] at hrest
  rwa [hrest] at hread

end Descent

end AbilityRotation
