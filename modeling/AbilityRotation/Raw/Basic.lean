import AbilityRotation.Number.Decimal
import AbilityRotation.Text.Quoted

/-!
Raw values: data of unknown shape, as a settings file or another program hands it over.

A raw value is a scalar, a list or a record.  The keys of a record are scalars too, and two keys
are the same if they are equal as values, numbers across kinds: `true`, `1` and `1.0` are one key.

Lists and records are read and written at any depth of nesting.  The limit on the digits of a whole
number (`maxDigits`) is modelled, as it tells values apart; the depth at which the stack of a
running program is used up is not.
* `Raw.ofEntries` builds a record: of entries with the same key the first gives the position and the
  last the value.
* `Raw.write` is the text of a raw value, which has none if it holds a whole number of too many
  digits.
-/

namespace AbilityRotation

open Number

/-- A value without parts. -/
inductive Scalar where
  /-- The absence of a value. -/
  | null
  /-- A truth value. -/
  | flag (b : Bool)
  /-- A whole number. -/
  | whole (n : Int)
  /-- A floating-point number. -/
  | real (x : Binary64)
  /-- A text. -/
  | text (s : String)
  deriving DecidableEq

/-- A value of unknown shape. -/
inductive Raw where
  /-- A value without parts. -/
  | scalar (s : Scalar)
  /-- A list of values. -/
  | list (items : List Raw)
  /-- Values under keys. -/
  | record (entries : List (Scalar × Raw))

namespace Scalar

/-- The whole number that a truth value counts as. -/
def flagNumber (b : Bool) : Int := if b then 1 else 0

/-- The kind of a scalar. -/
def kind : Scalar → Kind
  | .null => .null
  | .flag _ => .flag
  | .whole _ => .whole
  | .real _ => .real
  | .text _ => .text

/-- The place of a scalar on the line of numbers, if it is a number; truth values are. -/
def place? : Scalar → Option Place
  | .flag b => some (.ofInt (flagNumber b))
  | .whole n => some (.ofInt n)
  | .real x => x.place?
  | _ => none

/-- Whether two scalars are one key of a record. -/
def sameKey : Scalar → Scalar → Bool
  | .null, .null => true
  | .text s, .text t => s == t
  | a, b =>
      match a.place?, b.place? with
      | some p, some q => p == q
      | _, _ => false

/-- A scalar as it is shown inside a list or a record: texts are quoted. -/
def shown : Scalar → Except Fault String
  | .null => .ok "None"
  | .flag b => .ok (if b then "True" else "False")
  | .whole n => writeWhole n
  | .real x => .ok x.text
  | .text s => .ok (Text.quoted s)

/-- The text of a scalar: a text is its own. -/
def write : Scalar → Except Fault String
  | .text s => .ok s
  | s => s.shown

end Scalar

namespace Raw

/-- The absence of a value. -/
def null : Raw := .scalar .null

instance : Inhabited Raw := ⟨null⟩

/-- A truth value. -/
def flag (b : Bool) : Raw := .scalar (.flag b)

/-- A whole number. -/
def whole (n : Int) : Raw := .scalar (.whole n)

/-- A floating-point number. -/
def real (x : Binary64) : Raw := .scalar (.real x)

/-- A text. -/
def text (s : String) : Raw := .scalar (.text s)

/-- The kind of a value. -/
def kind : Raw → Kind
  | .scalar s => s.kind
  | .list _ => .list
  | .record _ => .record

/-! ### Records -/

/-- The entries of a record with one more value, in the old position if its key is present. -/
def insertEntry (entries : List (Scalar × Raw)) (key : Scalar) (value : Raw) :
    List (Scalar × Raw) :=
  match entries with
  | [] => [(key, value)]
  | (k, v) :: rest =>
      if k.sameKey key then (k, value) :: rest else (k, v) :: insertEntry rest key value

/-- The record of the given entries. -/
def ofEntries (entries : List (Scalar × Raw)) : Raw :=
  .record (entries.foldl (fun acc e => insertEntry acc e.1 e.2) [])

/-- The entries of a record; any other value has none. -/
def entries : Raw → List (Scalar × Raw)
  | .record es => es
  | _ => []

/-- The value under a name, or `default` if there is none. -/
def field (r : Raw) (name : String) (default : Raw) : Raw :=
  match r.entries.find? fun e => e.1.sameKey (.text name) with
  | some e => e.2
  | none => default

/-! ### Text -/

mutual

/-- A value as it is shown inside a list or a record. -/
def shown : Raw → Except Fault String
  | .scalar s => s.shown
  | .list items => do
      let shownItems ← itemTexts items
      .ok ("[" ++ ", ".intercalate shownItems ++ "]")
  | .record es => do
      let shownEntries ← entryTexts es
      .ok ("\x7b" ++ ", ".intercalate shownEntries ++ "\x7d")

/-- The items of a list as they are shown. -/
def itemTexts : List Raw → Except Fault (List String)
  | [] => .ok []
  | r :: rest => do
      let first ← r.shown
      let others ← itemTexts rest
      .ok (first :: others)

/-- The entries of a record as they are shown. -/
def entryTexts : List (Scalar × Raw) → Except Fault (List String)
  | [] => .ok []
  | (k, v) :: rest => do
      let key ← k.shown
      let value ← v.shown
      let others ← entryTexts rest
      .ok ((key ++ ": " ++ value) :: others)

end

/-- The text of a value: a text is its own, any other value is shown. -/
def write : Raw → Except Fault String
  | .scalar s => s.write
  | r => r.shown

end Raw

end AbilityRotation
