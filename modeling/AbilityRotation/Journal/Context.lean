import AbilityRotation.Text.Blank

/-!
The context of log records: which request, rotation and action they belong to.

Contexts are nested like blocks: entering a block replaces some fields, and leaving it restores
what was there before.
* `LogContext.enter` is the context inside a block.
* `ContextStack.enter` and `ContextStack.leave` go in and out of blocks.
* `rotationTag` is the short form of a rotation text that stands in a context.
-/

namespace AbilityRotation

/-- The characters of a text with each run of blanks as one space. -/
def foldBlanks (cs : List Char) : List Char :=
  [' '].intercalate (Text.words cs)

/-- A rotation text on one line of at most `limit` characters, with an ellipsis where it is cut. -/
def rotationTag (text : String) (limit : Int) : String :=
  let flat := foldBlanks text.toList
  if flat.isEmpty then "-"
  else if (flat.length : Int) ≤ limit then String.ofList flat
  else String.ofList (flat.take (max 1 (limit - 1)).toNat ++ ['…'])

/-- The context of log records; a field without a value is a dash. -/
structure LogContext where
  /-- The request. -/
  corrId : String := "-"
  /-- The rotation. -/
  rotation : String := "-"
  /-- The action. -/
  action : String := "-"
  deriving DecidableEq, Repr

/-- The fields that a block replaces. -/
structure ContextFields where
  /-- The request. -/
  corrId : Option String := none
  /-- The rotation. -/
  rotation : Option String := none
  /-- The action. -/
  action : Option String := none
  deriving DecidableEq, Repr

/-- The context inside a block. -/
def LogContext.enter (c : LogContext) (f : ContextFields) : LogContext :=
  ⟨f.corrId.getD c.corrId, f.rotation.getD c.rotation, f.action.getD c.action⟩

/-- The contexts of the open blocks, the innermost first. -/
abbrev ContextStack := List LogContext

namespace ContextStack

/-- The present context. -/
def current (s : ContextStack) : LogContext :=
  s.headD {}

/-- A block is entered. -/
def enter (s : ContextStack) (f : ContextFields) : ContextStack :=
  s.current.enter f :: s

/-- The innermost block is left. -/
def leave (s : ContextStack) : ContextStack :=
  s.tail

/-- Leaving a block restores what was there before it. -/
theorem leave_enter (s : ContextStack) (f : ContextFields) : (s.enter f).leave = s := rfl

end ContextStack

end AbilityRotation
