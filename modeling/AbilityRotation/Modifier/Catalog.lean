import AbilityRotation.Modifier.Basic
import AbilityRotation.Notice
import AbilityRotation.Table

/-!
The modifier catalog: all known modifiers, looked up by key or by alias.

The catalog is built from a list of modifiers in order.  A later modifier with the same key takes
the place of the earlier one, and an alias belongs to the modifier that claimed it last.
* `Catalog.ofList` builds a catalog, `Catalog.buildNotices` says what was replaced on the way.
* `Catalog.resolve` finds a modifier by alias, `Catalog.definition?` by key.
* `Catalog.ofRaw` and `Catalog.toRaw` go to and from raw records; `Catalog.default` is the catalog
  used where none is given.
-/

namespace AbilityRotation

open Number

/-- A catalog of modifiers. -/
structure Catalog where
  /-- The modifiers under their keys. -/
  definitions : Table Modifier
  /-- The modifiers under their aliases. -/
  aliases : Table Modifier
  deriving DecidableEq

namespace Catalog

/-- The catalog without modifiers. -/
def empty : Catalog := ⟨Table.empty, Table.empty⟩

instance : Inhabited Catalog := ⟨empty⟩

/-! ### Building -/

/-- The catalog with one more modifier. -/
def add (c : Catalog) (m : Modifier) : Catalog where
  definitions := c.definitions.insert m.key m
  aliases := m.aliases.foldl (fun t a => t.insert a m) c.aliases

/-- What the addition of a modifier replaces. -/
def addNotices (c : Catalog) (m : Modifier) : List Notice :=
  (if c.definitions.contains m.key then [Notice.modifierReplaced m.key] else []) ++
    m.aliases.filterMap fun a =>
      match c.aliases.get? a with
      | some old => if old.key = m.key then none else some (.aliasMoved a old.key m.key)
      | none => none

/-- The catalog of the given modifiers. -/
def ofList (ms : List Modifier) : Catalog :=
  ms.foldl add empty

/-- What is replaced while the given modifiers are added to a catalog. -/
def buildNotices (c : Catalog) : List Modifier → List Notice
  | [] => []
  | m :: rest => c.addNotices m ++ (c.add m).buildNotices rest

/-! ### Looking up -/

/-- The modifier that a text mentions under an alias. -/
def resolve (c : Catalog) (name : String) : Option Modifier :=
  (normalizeKey name).bind c.aliases.get?

/-- The modifier with a key. -/
def definition? (c : Catalog) (key : String) : Option Modifier :=
  (normalizeKey key).bind c.definitions.get?

/-- Whether a text mentions a modifier under this name. -/
def isModifier (c : Catalog) (name : String) : Bool :=
  (c.resolve name).isSome

/-- The key of the modifier that a text mentions under an alias. -/
def key? (c : Catalog) (name : String) : Option String :=
  (c.resolve name).map (·.key)

/-- The modifiers that an ability may carry, in the order of their keys; where no ability is given
there are none. -/
def suitableFor (c : Catalog) (ability : Option String) : List Modifier :=
  (c.definitions.values.filter fun m => ability.any m.accepts).mergeSort
    fun a b => decide (a.key ≤ b.key)

/-! ### Raw records -/

/-- The modifiers that the entries of a raw record describe, with notices of entries that have no
key. -/
def modifiersOfRaw : List (Scalar × Raw) → Except Fault (List Modifier × List Notice)
  | [] => .ok ([], [])
  | (k, v) :: rest => do
      match ← k.normalizedKey? with
      | none =>
          let (ms, notices) ← modifiersOfRaw rest
          .ok (ms, .modifierWithoutKey :: notices)
      | some key =>
          let m ← Modifier.ofRaw key v
          let (ms, notices) ← modifiersOfRaw rest
          .ok (m :: ms, notices)

/-- The catalog that a raw record describes, with notices of what was left out or replaced. -/
def ofRaw (r : Raw) : Except Fault (Catalog × List Notice) := do
  let (ms, notices) ← modifiersOfRaw r.entries
  .ok (ofList ms, notices ++ empty.buildNotices ms)

/-- The record of a catalog. -/
def toRaw (c : Catalog) : Raw :=
  .record (c.definitions.entries.map fun e => (.text e.1, e.2.toRaw))

/-! ### The default catalog -/

/-- The granite maul: special attacks do not trigger the global cooldown. -/
def graniteMaul : Modifier where
  key := "gmaul"
  aliases := ["gmaul"]
  targets := ["spec", "eofspec"]
  effect := { triggersGcd := some false }

/-- The Armadyl battlestaff: special attacks are cast for five ticks. -/
def armadylBattlestaff : Modifier where
  key := "armadylbattlestaff"
  aliases := ["armadylbattlestaff", "armabattlestaff"]
  targets := ["spec", "eofspec"]
  effect := { castDuration := some 5 }

/-- The catalog used where none is given. -/
def default : Catalog := ofList [graniteMaul, armadylBattlestaff]

end Catalog

end AbilityRotation
