import AbilityRotation.Fault
import AbilityRotation.Modifier.Fusion
import AbilityRotation.Rotation.Basic

/-!
Reading the steps of a rotation from its tokens.

The grammar of a rotation is

    Expression  := Step ((arrow | nothing) Step)*
    Step        := Term (plus Term)*
    Term        := Alternative (slash Alternative)*
    Alternative := tooltip* (Ability | opening Expression closing) tooltip*

where an ability is a word or a fusion of modifiers with a word.  There is one function for each
rule.  It reads from the beginning of the tokens, as far as the rule reaches, and returns its value
with the tokens that are left, which are fewer (`Read.shorter`); this is why the descent ends.
A stop carries the tokens that were left where it happened.

Groups are read to any depth.  The stack on which a running program keeps the open rules may be used
up at some depth; that limit is no part of the grammar and is not modelled.
* `Descent.expression`, `Descent.step`, `Descent.term`, `Descent.alternative`, `Descent.group` and
  `Descent.ability` are the rules.
* `Descent.all` reads a whole list of tokens.
-/

namespace AbilityRotation

/-- What is done about two neighbouring abilities without an operator. -/
inductive AdjacentWords where
  /-- They belong to two steps, one after the other. -/
  | steps
  /-- They are a fault. -/
  | error
  /-- They are one ability whose key has a space. -/
  | join
  deriving DecidableEq, Repr

/-- What the meaning of tokens depends on. -/
structure Rules where
  /-- The known modifiers. -/
  catalog : Catalog := Catalog.default
  /-- What is done about neighbouring abilities. -/
  adjacentWords : AdjacentWords := .steps
  /-- The settings of single occurrences, under their labels. -/
  perInstance : Table Overrides := Table.empty

namespace Descent

/-- Why the descent stops. -/
inductive Reason where
  /-- The tokens do not follow the grammar. -/
  | malformed (cause : ParseCause)
  /-- An ability cannot be used as asked. -/
  | unbuildable (fault : AbilityUse.BuildFault)
  deriving DecidableEq, Repr

/-- A reason to stop, with the tokens that were left. -/
structure Stop where
  /-- Why the descent stopped. -/
  reason : Reason
  /-- The tokens that were left. -/
  rest : List Token
  deriving DecidableEq, Repr

/-- A value read from the beginning of `ts`, with the tokens that are left. -/
structure Read (α : Type) (ts : List Token) where
  /-- What was read. -/
  value : α
  /-- The tokens that are left. -/
  rest : List Token
  /-- At least one token was read. -/
  shorter : rest.length < ts.length

/-- A stop because the tokens do not follow the grammar. -/
def stop {α : Type} (cause : ParseCause) (rest : List Token) : Except Stop α :=
  .error ⟨.malformed cause, rest⟩

/-- A value read from fewer tokens, seen as read from more. -/
def Read.widen {α β : Type} {ts us : List Token} (r : Read α us) (f : α → β)
    (h : us.length ≤ ts.length) : Read β ts :=
  ⟨f r.value, r.rest, Nat.lt_of_lt_of_le r.shorter h⟩

/-! ### Markers, words and the check of a step -/

/-- The tooltips at the beginning of the tokens, as markers. -/
def markers : List Token → Term × List Token
  | [] => ([], [])
  | t :: rest =>
      match t.symbol with
      | .tooltip text => (.marker text :: (markers rest).1, (markers rest).2)
      | _ => ([], t :: rest)

/-- Reading markers leaves no more tokens than there were. -/
theorem length_markers_le (ts : List Token) : (markers ts).2.length ≤ ts.length := by
  induction ts with
  | nil => simp [markers]
  | cons t rest ih =>
      rw [markers]
      split
      · exact Nat.le_succ_of_le ih
      · exact Nat.le_refl _

/-- A word joined with the words after it, up to the first one with a label. -/
def joinWords (w : Word) : List Token → Word × List Token
  | [] => (w, [])
  | t :: rest =>
      match t.symbol, w.label with
      | .word v, none => joinWords ⟨w.key ++ " " ++ v.key, v.label⟩ rest
      | _, _ => (w, t :: rest)

/-- Joining words leaves no more tokens than there were. -/
theorem length_joinWords_le (w : Word) (ts : List Token) :
    (joinWords w ts).2.length ≤ ts.length := by
  induction ts generalizing w with
  | nil => simp [joinWords]
  | cons t rest ih =>
      rw [joinWords]
      split
      · exact Nat.le_succ_of_le (ih _)
      · exact Nat.le_refl _

/-- Whether a term between two others offers a choice, so that it would have to be grouped. -/
def isAmbiguous (terms : List Term) : Bool :=
  (terms.drop 1).dropLast.any fun t => decide (1 < t.choices.length)

/-- An ability with the settings for its label. -/
def plainUse (rules : Rules) (w : Word) : Except AbilityUse.BuildFault AbilityUse :=
  AbilityUse.build w.key [] (w.label.bind rules.perInstance.get?) w.label

/-- The use of an ability, or a stop where it cannot be used as asked. -/
def build {ts : List Token} (use : Except AbilityUse.BuildFault AbilityUse) (rest : List Token)
    (h : rest.length < ts.length) : Except Stop (Read Alternative ts) :=
  match use with
  | .ok u => .ok ⟨.ability u, rest, h⟩
  | .error fault => .error ⟨.unbuildable fault, rest⟩

/-- The ability that begins with the word `w`, which `rest` follows.  Modifiers are fused only in
the first alternative of a term. -/
def ability (rules : Rules) (first : Bool) (t : Token) (w : Word) (rest : List Token) :
    Except Stop (Read Alternative (t :: rest)) :=
  match h : (if first then Fusion.at? rules.catalog (t :: rest) else none) with
  | some f =>
      build (AbilityUse.build f.target.key f.modifiers none f.target.label) f.rest (by
        split at h
        · have := Fusion.length_rest_lt h; omega
        · simp at h)
  | none =>
      match rules.adjacentWords with
      | .join =>
          build (plainUse rules (joinWords w rest).1) (joinWords w rest).2
            (Nat.lt_succ_of_le (length_joinWords_le w rest))
      | _ => build (plainUse rules w) rest (Nat.lt_succ_self _)

/-! ### The rules of the grammar -/

mutual

/-- Steps, up to the end of the tokens or a closing parenthesis. -/
def expression (rules : Rules) (ts : List Token) : Except Stop (Read (List Step) ts) :=
  match step rules ts with
  | .error e => .error e
  | .ok ⟨s, [], h⟩ => .ok ⟨[s], [], h⟩
  | .ok ⟨s, t :: rest, h⟩ =>
      match t.symbol with
      | .closing => .ok ⟨[s], t :: rest, h⟩
      | .arrow =>
          if Token.startsOperand rest then
            match expression rules rest with
            | .error e => .error e
            | .ok r => .ok (r.widen (s :: ·) (by simp only [List.length_cons] at h; omega))
          else stop (.operandMissingAfter "→") rest
      | .plus => stop (.operandMissingBefore t.symbol.text) (t :: rest)
      | .slash => stop (.operandMissingBefore t.symbol.text) (t :: rest)
      | _ =>
          match rules.adjacentWords with
          | .error => stop (.operatorMissing t.symbol.text) (t :: rest)
          | _ =>
              match expression rules (t :: rest) with
              | .error e => .error e
              | .ok r => .ok (r.widen (s :: ·) (Nat.le_of_lt h))
  termination_by 8 * ts.length + 6
  decreasing_by all_goals grind

/-- Terms with a plus between, not ambiguous. -/
def step (rules : Rules) (ts : List Token) : Except Stop (Read Step ts) :=
  match terms rules ts with
  | .error e => .error e
  | .ok r => if isAmbiguous r.value then stop .ambiguous r.rest else .ok r
  termination_by 8 * ts.length + 5

/-- Terms with a plus between. -/
def terms (rules : Rules) (ts : List Token) : Except Stop (Read (List Term) ts) :=
  match term rules true ts with
  | .error e => .error e
  | .ok ⟨a, [], h⟩ => .ok ⟨[a], [], h⟩
  | .ok ⟨a, t :: rest, h⟩ =>
      match t.symbol with
      | .plus =>
          if Token.startsOperand rest then
            match terms rules rest with
            | .error e => .error e
            | .ok r => .ok (r.widen (a :: ·) (by simp only [List.length_cons] at h; omega))
          else stop (.operandMissingAfter "+") rest
      | _ => .ok ⟨[a], t :: rest, h⟩
  termination_by 8 * ts.length + 4
  decreasing_by all_goals grind

/-- Alternatives with a slash between; `first` says whether they begin their term. -/
def term (rules : Rules) (first : Bool) (ts : List Token) : Except Stop (Read Term ts) :=
  match alternative rules first ts with
  | .error e => .error e
  | .ok ⟨a, [], h⟩ => .ok ⟨a, [], h⟩
  | .ok ⟨a, t :: rest, h⟩ =>
      match t.symbol with
      | .slash =>
          if Token.startsOperand rest then
            match term rules false rest with
            | .error e => .error e
            | .ok r => .ok (r.widen (a ++ ·) (by simp only [List.length_cons] at h; omega))
          else stop (.operandMissingAfter "/") rest
      | _ => .ok ⟨a, t :: rest, h⟩
  termination_by 8 * ts.length + 3
  decreasing_by all_goals grind

/-- One alternative with the tooltips before and after it. -/
def alternative (rules : Rules) (first : Bool) (ts : List Token) : Except Stop (Read Term ts) :=
  match hm : markers ts with
  | (front, []) => stop .operandMissing []
  | (front, t :: rest) =>
      have hle : (t :: rest).length ≤ ts.length := by
        have := length_markers_le ts
        rwa [hm] at this
      let chosen : Except Stop (Read Alternative (t :: rest)) :=
        match t.symbol with
        | .word w => ability rules first t w rest
        | .opening => group rules t rest
        | _ => stop .operandMissing (t :: rest)
      match chosen with
      | .error e => .error e
      | .ok ⟨a, after, h⟩ =>
          .ok ⟨front ++ a :: (markers after).1, (markers after).2, by
            have := length_markers_le after
            omega⟩
  termination_by 8 * ts.length + 2
  decreasing_by grind

/-- A group, from its opening parenthesis `t` on. -/
def group (rules : Rules) (t : Token) (rest : List Token) :
    Except Stop (Read Alternative (t :: rest)) :=
  if (rest.head?.map (·.symbol)) = some .closing then stop .emptyGroup rest
  else
    match expression rules rest with
    | .error e => .error e
    | .ok ⟨steps, [], _⟩ => stop .unterminatedGroup []
    | .ok ⟨steps, u :: after, h⟩ =>
        if u.symbol = .closing then
          .ok ⟨.group steps Table.empty, after, by simp only [List.length_cons] at *; omega⟩
        else stop .unterminatedGroup (u :: after)
  termination_by 8 * rest.length + 9

end

/-- The steps of all tokens. -/
def all (rules : Rules) (ts : List Token) : Except Stop (List Step) :=
  match expression rules ts with
  | .error e => .error e
  | .ok ⟨steps, [], _⟩ => .ok steps
  | .ok ⟨_, t :: rest, _⟩ =>
      match t.symbol with
      | .closing => stop .unexpectedClosing (t :: rest)
      | s => stop (.unexpectedToken s.text) (t :: rest)

end Descent

end AbilityRotation
