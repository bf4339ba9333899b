import AbilityRotation.Modifier.Catalog
import AbilityRotation.Token

/-!
Fusing modifiers onto the ability that follows them.

Words that name modifiers, one after the other or with a plus between, fuse onto the first word
after them that all of them accept.  A word that is a modifier itself continues the chain as long
as it is not accepted.  Nothing is fused onto an ability that has an alternative, since a slash
after it would leave open what the modifiers belong to.
* `Fusion.at?` finds the fusion at the beginning of some tokens, `Fusion.atIndex?` the one that
  begins at an index, with the place where it ends.
* `Fusion.length_rest_lt`: a fusion uses up at least two tokens.
-/

namespace AbilityRotation

/-- Modifiers fused onto an ability. -/
structure Fusion where
  /-- The keys of the modifiers, in the order in which they were written. -/
  modifiers : List String
  /-- The ability, with its label. -/
  target : Word
  /-- The tokens after it. -/
  rest : List Token
  deriving DecidableEq, Repr

namespace Fusion

/-- Whether a slash follows, with at most tooltips between. -/
def slashFollows : List Token → Bool
  | [] => false
  | t :: rest =>
      match t.symbol with
      | .tooltip _ => slashFollows rest
      | .slash => true
      | _ => false

/-- The modifier that a word names.  A word with a label names none. -/
def modifierOf? (c : Catalog) (w : Word) : Option Modifier :=
  if w.label.isNone then c.resolve w.key else none

/-- The fusion of a chain of modifiers with what follows it.  `mayPlus` says whether a plus may
stand next. -/
def afterChain? (c : Catalog) (chain : List Modifier) (mayPlus : Bool) :
    List Token → Option Fusion
  | [] => none
  | t :: rest =>
      match t.symbol with
      | .plus => if mayPlus then afterChain? c chain false rest else none
      | .word w =>
          if chain.all (·.accepts w.key) then
            if slashFollows rest then none else some ⟨chain.map (·.key), w, rest⟩
          else
            match modifierOf? c w with
            | some m => afterChain? c (chain ++ [m]) true rest
            | none => none
      | _ => none

/-- The fusion that begins with the first of the tokens. -/
def at? (c : Catalog) : List Token → Option Fusion
  | [] => none
  | t :: rest =>
      match t.symbol with
      | .word w => (modifierOf? c w).bind fun m => afterChain? c [m] true rest
      | _ => none

/-- A fusion, by its place among some tokens. -/
structure Match where
  /-- The keys of the modifiers, in the order in which they were written. -/
  modifiers : List String
  /-- The token of the ability. -/
  target : Token
  /-- The index after this token. -/
  next : Nat
  deriving DecidableEq, Repr

/-- Where among some tokens a fusion is that ends with the last token before `f.rest`. -/
def place? (ts : List Token) (f : Fusion) : Option Match :=
  let next := ts.length - f.rest.length
  ts[next - 1]?.map fun t => ⟨f.modifiers, t, next⟩

/-- The fusion that begins at an index of some tokens; at an index without a token there is none. -/
def atIndex? (c : Catalog) (ts : List Token) (index : Int) : Option Match :=
  if 0 ≤ index then (at? c (ts.drop index.toNat)).bind (place? ts) else none

/-- A chain and what follows it leave fewer tokens. -/
theorem length_rest_lt_of_afterChain? {c : Catalog} {chain : List Modifier} {mayPlus : Bool}
    {ts : List Token} {f : Fusion} (h : afterChain? c chain mayPlus ts = some f) :
    f.rest.length < ts.length := by
  induction ts generalizing chain mayPlus with
  | nil => simp [afterChain?] at h
  | cons t rest ih =>
      rw [afterChain?] at h
      rw [List.length_cons]
      split at h
      · split at h
        · have := ih h; omega
        · simp at h
      · split at h
        · split at h
          · simp at h
          · simp only [Option.some.injEq] at h
            subst h
            exact Nat.lt_succ_self _
        · split at h
          · have := ih h; omega
          · simp at h
      · simp at h

/-- A fusion uses up at least two tokens. -/
theorem length_rest_lt {c : Catalog} {ts : List Token} {f : Fusion} (h : at? c ts = some f) :
    f.rest.length + 1 < ts.length := by
  cases ts with
  | nil => simp [at?] at h
  | cons t rest =>
      rw [at?] at h
      split at h
      · rw [Option.bind_eq_some_iff] at h
        obtain ⟨m, -, hm⟩ := h
        have := length_rest_lt_of_afterChain? hm
        rw [List.length_cons]
        omega
      · simp at h

end Fusion

end AbilityRotation
