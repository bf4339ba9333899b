/-!
Patterns with wildcards, for the names a modifier may be fused onto.

In a pattern `*` stands for any run of characters, `?` for any single one, and a bracket such as
`[a-c_]` or `[!0-9]` for one of a set, or one outside it.  A `]` right after the opening (or after
its `!`) belongs to the set, a bracket that is never closed is an ordinary character, and a range
whose ends are in the wrong order holds nothing.
* `Wildcard.ofChars` reads a pattern into pieces; every text is a pattern.
* `Wildcard.accepts` tells whether a text as a whole has the form of a pattern.
-/

namespace AbilityRotation

/-- A range of characters, both ends included. -/
structure CharRange where
  /-- The first character of the range. -/
  low : Char
  /-- The last character of the range. -/
  high : Char
  deriving DecidableEq, Repr

/-- A part of a pattern. -/
inductive Wildcard where
  /-- Any run of characters, also none. -/
  | anyRun
  /-- The given character. -/
  | exactly (c : Char)
  /-- A character in one of the ranges, or with `negated` a character in none of them. -/
  | oneOf (negated : Bool) (ranges : List CharRange)
  deriving DecidableEq, Repr

namespace Wildcard

/-- Any single character: the complement of no range. -/
def anyOne : Wildcard := .oneOf true []

/-- Whether a part of a pattern allows the single character. -/
def allows : Wildcard → Char → Bool
  | .anyRun, _ => true
  | .exactly d, c => c == d
  | .oneOf negated ranges, c =>
      negated != ranges.any fun r => decide (r.low ≤ c) && decide (c ≤ r.high)

/-! ### Sets in brackets -/

/-- How many characters after the opening of a bracket cannot close it: the `!` of a negated set
and a `]` that is the first character of the set. -/
def bracketLead : List Char → Nat
  | '!' :: ']' :: _ => 2
  | '!' :: _ => 1
  | ']' :: _ => 1
  | _ => 0

/-- The inside of a bracket and what follows its end, from the characters after the opening;
nothing if the bracket is never closed. -/
def bracket? (cs : List Char) : Option (List Char × List Char) :=
  let body := cs.drop (bracketLead cs)
  match body.dropWhile (· != ']') with
  | [] => none
  | _ :: rest => some (cs.take (bracketLead cs) ++ body.takeWhile (· != ']'), rest)

/-- What follows a bracket is shorter than what follows its opening. -/
theorem length_lt_of_bracket? {cs inside rest : List Char}
    (h : bracket? cs = some (inside, rest)) : rest.length < cs.length := by
  simp only [bracket?] at h
  split at h
  · simp at h
  · next heq =>
      simp only [Option.some.injEq, Prod.mk.injEq] at h
      obtain ⟨-, rfl⟩ := h
      have hsuffix := (List.dropWhile_suffix (l := cs.drop (bracketLead cs)) (· != ']')).length_le
      rw [heq] at hsuffix
      simp only [List.length_drop, List.length_cons] at hsuffix
      omega

/-- Puts a character in front of the first of the chunks. -/
def addToFirst (c : Char) : List (List Char) → List (List Char)
  | [] => [[c]]
  | w :: ws => (c :: w) :: ws

/-- The chunks between the hyphens that form ranges.  The first `skip` characters of a chunk are
passed over, since a hyphen there has no lower end before it. -/
def chunks : (skip : Nat) → List Char → List (List Char)
  | _, [] => [[]]
  | skip + 1, c :: rest => addToFirst c (chunks skip rest)
  | 0, c :: rest => if c = '-' then [] :: chunks 2 rest else addToFirst c (chunks 0 rest)

/-- A hyphen with nothing after it is an ordinary character of the chunk before. -/
def keepLastHyphen : List (List Char) → List (List Char)
  | [] => []
  | [w, []] => [w ++ ['-']]
  | w :: ws => w :: keepLastHyphen ws

/-- Joins two chunks whose range has its ends in the wrong order, without the two ends. -/
def joinIfReversed (w : List Char) : List (List Char) → List (List Char)
  | [] => [w]
  | next :: more =>
      match w.getLast?, next.head? with
      | some low, some high =>
          if high < low then (w.dropLast ++ next.tail) :: more else w :: next :: more
      | _, _ => w :: next :: more

/-- The ranges of a set: each pair of neighbouring chunks is joined by a range from the last
character of one to the first of the next, and all other characters stand for themselves. -/
def rangesOf : List (List Char) → List CharRange
  | [] => []
  | [w] => w.map fun c => ⟨c, c⟩
  | w :: next :: more =>
      match w.getLast?, next.head? with
      | some low, some high =>
          w.dropLast.map (fun c => ⟨c, c⟩) ++ ⟨low, high⟩ :: rangesOf (next.tail :: more)
      | _, _ => w.map (fun c => ⟨c, c⟩) ++ rangesOf (next :: more)
  termination_by ws => ws.length

/-- The set that the inside of a bracket describes.  A `!` in front negates it, also where it
comes to stand in front because a reversed range was left out. -/
def setOf (inside : List Char) : Wildcard :=
  let skip := if inside.head? = some '!' then 2 else 1
  match (keepLastHyphen (chunks skip inside)).foldr joinIfReversed [] with
  | ['!'] :: next :: more => .oneOf true (rangesOf (('-' :: next) :: more))
  | ('!' :: w) :: more => .oneOf true (rangesOf (w :: more))
  | ws => .oneOf false (rangesOf ws)

/-! ### Patterns -/

/-- The parts of a pattern. -/
def ofChars : List Char → List Wildcard
  | [] => []
  | '*' :: rest => .anyRun :: ofChars rest
  | '?' :: rest => anyOne :: ofChars rest
  | '[' :: rest =>
      match h : bracket? rest with
      | none => .exactly '[' :: ofChars rest
      | some (inside, after) =>
          have : after.length < rest.length := length_lt_of_bracket? h
          setOf inside :: ofChars after
  | c :: rest => .exactly c :: ofChars rest
  termination_by cs => cs.length

/-- Whether the characters as a whole have the form of the parts. -/
def acceptsChars : List Wildcard → List Char → Bool
  | [], cs => cs.isEmpty
  | .anyRun :: parts, [] => acceptsChars parts []
  | .anyRun :: parts, c :: cs => acceptsChars parts (c :: cs) || acceptsChars (.anyRun :: parts) cs
  | _ :: _, [] => false
  | part :: parts, c :: cs => part.allows c && acceptsChars parts cs
  termination_by parts cs => parts.length + cs.length

/-- Whether the text as a whole has the form of the pattern. -/
def accepts (pattern text : String) : Bool :=
  acceptsChars (ofChars pattern.toList) text.toList

end Wildcard

end AbilityRotation
