import AbilityRotation.Ability.Data
import AbilityRotation.Table

/-!
The ability database: the data of all abilities under their keys.

A database is never changed in place; `Database.withAbility` gives a new one.
* `Database.ofRaw` reads a database from a raw record.  Entries under keys that are blank or no
  texts are left out, and of several entries whose trimmed keys agree the last one counts.
-/

namespace AbilityRotation

open Number

/-- The data of abilities under their keys. -/
structure Database where
  /-- The abilities, in the order in which their keys first came. -/
  abilities : Table Ability
  deriving DecidableEq

namespace Database

/-- The data of the ability with the given key; the empty key has none. -/
def lookup (db : Database) (key : String) : Option Ability :=
  if key.isEmpty then none else db.abilities.get? key

/-- The database with the data of one more ability, or with new data of an old one. -/
def withAbility (db : Database) (key : String) (a : Ability) : Database :=
  ⟨db.abilities.insert key a⟩

/-- The trimmed key of an entry of a raw record, if it is a text and not blank. -/
def keyOf? : Scalar → Option String
  | .text s => Text.trimmed? s
  | _ => none

/-- Adds the abilities of raw entries to a database. -/
def addRaw (db : Database) : List (Scalar × Raw) → Except Fault Database
  | [] => .ok db
  | (k, v) :: rest =>
      match keyOf? k with
      | none => db.addRaw rest
      | some key => do
          let a ← Ability.ofRaw v
          (db.withAbility key a).addRaw rest

/-- The database that a raw record describes. -/
def ofRaw (r : Raw) : Except Fault Database :=
  addRaw ⟨Table.empty⟩ r.entries

/-- The records of abilities under their keys. -/
def entriesToRaw : List (String × Ability) → Except Fault (List (Scalar × Raw))
  | [] => .ok []
  | (key, a) :: rest => do
      let first ← a.toRaw
      let others ← entriesToRaw rest
      .ok ((.text key, first) :: others)

/-- The record of a database. -/
def toRaw (db : Database) : Except Fault Raw := do
  let es ← entriesToRaw db.abilities.entries
  .ok (.record es)

end Database

end AbilityRotation
