import AbilityRotation.Proofs.Descent.Reads

/-!
Derivations of the grammar of rotations.

A `Derivation` is a tree of the grammar without modifiers, with one constructor for each of its
rules and of their alternatives.  It has symbols (`Derivation.symbols`), and the steps, terms and
alternatives that it stands for (`Derivation.tree`).  The grammar leaves open whether a tooltip
between two steps without an arrow belongs to the first or to the second of them.
* `Derivation.Unambiguous`: no term between two others has more than one alternative.
* `Derivation.Greedy`: each tooltip right behind an operand belongs to it.
* `Derivation.Bounded`: between two steps there is always an arrow.
* `Derivation.settle`: the greedy derivation of the same symbols; the other two properties are kept
  (`unambiguous_settle`, `bounded_settle`).
-/

namespace AbilityRotation

open Descent (Phrase)

/-- The derivation trees of the grammar.  Whether a term is the first of its kind, which the phrases
tell apart because of the modifiers, plays no part here. -/
inductive Derivation : Phrase → Type
  /-- An expression of one step. -/
  | lastStep (s : Derivation .terms) : Derivation .expression
  /-- A step, an arrow and more steps. -/
  | arrow (s : Derivation .terms) (e : Derivation .expression) : Derivation .expression
  /-- A step and more steps, with nothing between. -/
  | gap (s : Derivation .terms) (e : Derivation .expression) : Derivation .expression
  /-- A step of one term. -/
  | lastTerm (t : Derivation (.term true)) : Derivation .terms
  /-- A term, a plus and more terms. -/
  | plus (t : Derivation (.term true)) (s : Derivation .terms) : Derivation .terms
  /-- A term of one alternative. -/
  | lastAlternative {first : Bool} (a : Derivation (.alternative first)) :
      Derivation (.term first)
  /-- An alternative, a slash and more alternatives. -/
  | slash {first : Bool} (a : Derivation (.alternative first)) (t : Derivation (.term false)) :
      Derivation (.term first)
  /-- Tooltips, an operand and tooltips. -/
  | alternative {first : Bool} (front : List String) (o : Derivation (.operand first))
      (back : List String) : Derivation (.alternative first)
  /-- A word. -/
  | word {first : Bool} (w : Word) : Derivation (.operand first)
  /-- An expression in parentheses. -/
  | group {first : Bool} (e : Derivation .expression) : Derivation (.operand first)

namespace Derivation

variable {p : Phrase} {first : Bool}

/-! ### What a derivation stands for -/

/-- The symbols that are derived. -/
@[simp] def symbols : {p : Phrase} → Derivation p → List Symbol
  | _, lastStep s => s.symbols
  | _, arrow s e => s.symbols ++ .arrow :: e.symbols
  | _, gap s e => s.symbols ++ e.symbols
  | _, lastTerm t => t.symbols
  | _, plus t s => t.symbols ++ .plus :: s.symbols
  | _, lastAlternative a => a.symbols
  | _, slash a t => a.symbols ++ .slash :: t.symbols
  | _, alternative front o back => front.map .tooltip ++ o.symbols ++ back.map .tooltip
  | _, word w => [.word w]
  | _, group e => .opening :: e.symbols ++ [.closing]

/-- What is derived, where labels have settings. -/
@[simp] def tree (perInstance : Table Overrides) : {p : Phrase} → Derivation p → p.Value
  | _, lastStep s => [s.tree perInstance]
  | _, arrow s e => s.tree perInstance :: e.tree perInstance
  | _, gap s e => s.tree perInstance :: e.tree perInstance
  | _, lastTerm t => [t.tree perInstance]
  | _, plus t s => t.tree perInstance :: s.tree perInstance
  | _, lastAlternative a => a.tree perInstance
  | _, slash a t => a.tree perInstance ++ t.tree perInstance
  | _, alternative front o back =>
      front.map (.marker ·) ++ o.tree perInstance :: back.map (.marker ·)
  | _, word w => .ability ⟨w.key, [], w.label.bind perInstance.get?, w.label⟩
  | _, group e => .group (e.tree perInstance) Table.empty

/-- The number of alternatives of a term. -/
@[simp] def width : {first : Bool} → Derivation (.term first) → ℕ
  | _, lastAlternative _ => 1
  | _, slash _ t => t.width + 1

/-- The number of alternatives of each term of a step. -/
@[simp] def widths : Derivation .terms → List ℕ
  | lastTerm t => [t.width]
  | plus t s => t.width :: s.widths

/-! ### Properties of derivations -/

/-- Of the given numbers of alternatives, those between two others are at most one. -/
def SingleBetween (widths : List ℕ) : Prop :=
  ∀ (i : ℕ) (h : i + 1 < widths.length), 0 < i → widths[i] ≤ 1

/-- No term between two others has more than one alternative, at any depth of groups. -/
@[simp] def Unambiguous : {p : Phrase} → Derivation p → Prop
  | _, lastStep s => SingleBetween s.widths ∧ s.Unambiguous
  | _, arrow s e => SingleBetween s.widths ∧ s.Unambiguous ∧ e.Unambiguous
  | _, gap s e => SingleBetween s.widths ∧ s.Unambiguous ∧ e.Unambiguous
  | _, lastTerm t => t.Unambiguous
  | _, plus t s => t.Unambiguous ∧ s.Unambiguous
  | _, lastAlternative a => a.Unambiguous
  | _, slash a t => a.Unambiguous ∧ t.Unambiguous
  | _, alternative _ o _ => o.Unambiguous
  | _, word _ => True
  | _, group e => e.Unambiguous

/-- Between two steps there is always an arrow. -/
@[simp] def Bounded : {p : Phrase} → Derivation p → Prop
  | _, lastStep s => s.Bounded
  | _, arrow s e => s.Bounded ∧ e.Bounded
  | _, gap _ _ => False
  | _, lastTerm t => t.Bounded
  | _, plus t s => t.Bounded ∧ s.Bounded
  | _, lastAlternative a => a.Bounded
  | _, slash a t => a.Bounded ∧ t.Bounded
  | _, alternative _ o _ => o.Bounded
  | _, word _ => True
  | _, group e => e.Bounded

/-- The tooltips with which a phrase begins. -/
@[simp] def leading : {p : Phrase} → Derivation p → List String
  | _, lastStep s => s.leading
  | _, arrow s _ => s.leading
  | _, gap s _ => s.leading
  | _, lastTerm t => t.leading
  | _, plus t _ => t.leading
  | _, lastAlternative a => a.leading
  | _, slash a _ => a.leading
  | _, alternative front _ _ => front
  | _, word _ => []
  | _, group _ => []

/-- Each tooltip right behind an operand, or behind other tooltips of it, belongs to it: a step
that follows another one without an arrow does not begin with tooltips. -/
@[simp] def Greedy : {p : Phrase} → Derivation p → Prop
  | _, lastStep s => s.Greedy
  | _, arrow s e => s.Greedy ∧ e.Greedy
  | _, gap s e => s.Greedy ∧ e.leading = [] ∧ e.Greedy
  | _, lastTerm t => t.Greedy
  | _, plus t s => t.Greedy ∧ s.Greedy
  | _, lastAlternative a => a.Greedy
  | _, slash a t => a.Greedy ∧ t.Greedy
  | _, alternative _ o _ => o.Greedy
  | _, word _ => True
  | _, group e => e.Greedy

/-! ### Moving tooltips -/

/-- The derivation with more tooltips at the end of its last alternative. -/
@[simp] def absorb (texts : List String) : {p : Phrase} → Derivation p → Derivation p
  | _, lastStep s => lastStep (s.absorb texts)
  | _, arrow s e => arrow s (e.absorb texts)
  | _, gap s e => gap s (e.absorb texts)
  | _, lastTerm t => lastTerm (t.absorb texts)
  | _, plus t s => plus t (s.absorb texts)
  | _, lastAlternative a => lastAlternative (a.absorb texts)
  | _, slash a t => slash a (t.absorb texts)
  | _, alternative front o back => alternative front o (back ++ texts)
  | _, word w => word w
  | _, group e => group e

/-- The derivation without the tooltips with which it begins. -/
@[simp] def shed : {p : Phrase} → Derivation p → Derivation p
  | _, lastStep s => lastStep s.shed
  | _, arrow s e => arrow s.shed e
  | _, gap s e => gap s.shed e
  | _, lastTerm t => lastTerm t.shed
  | _, plus t s => plus t.shed s
  | _, lastAlternative a => lastAlternative a.shed
  | _, slash a t => slash a.shed t
  | _, alternative _ o back => alternative [] o back
  | _, word w => word w
  | _, group e => group e

/-- The derivation in which the tooltips at the beginning of each step that follows another one
without an arrow are moved to the end of that other step. -/
@[simp] def settle : {p : Phrase} → Derivation p → Derivation p
  | _, lastStep s => lastStep s.settle
  | _, arrow s e => arrow s.settle e.settle
  | _, gap s e => gap (s.settle.absorb e.settle.leading) e.settle.shed
  | _, lastTerm t => lastTerm t.settle
  | _, plus t s => plus t.settle s.settle
  | _, lastAlternative a => lastAlternative a.settle
  | _, slash a t => slash a.settle t.settle
  | _, alternative front o back => alternative front o.settle back
  | _, word w => word w
  | _, group e => group e.settle

lemma symbols_absorb (texts : List String) {p : Phrase} (d : Derivation p)
    (hp : ∀ first, p ≠ .operand first) :
    (d.absorb texts).symbols = d.symbols ++ texts.map .tooltip := by
  induction d with
  | lastStep s ih => exact ih (by simp)
  | arrow s e _ ih => simp [ih (by simp)]
  | gap s e _ ih => simp [ih (by simp)]
  | lastTerm t ih => exact ih (by simp)
  | plus t s _ ih => simp [ih (by simp)]
  | lastAlternative a ih => exact ih (by simp)
  | slash a t _ ih => simp [ih (by simp)]
  | alternative front o back _ => simp
  | word w => exact absurd rfl (hp _)
  | group e _ => exact absurd rfl (hp _)

lemma symbols_shed {p : Phrase} (d : Derivation p) :
    d.symbols = d.leading.map .tooltip ++ d.shed.symbols := by
  induction d with
  | lastStep s ih => exact ih
  | arrow s e ih _ => simp [ih]
  | gap s e ih _ => simp [ih]
  | lastTerm t ih => exact ih
  | plus t s ih _ => simp [ih]
  | lastAlternative a ih => exact ih
  | slash a t ih _ => simp [ih]
  | alternative front o back _ => simp
  | word w => rfl
  | group e _ => rfl

@[simp] lemma leading_shed {p : Phrase} (d : Derivation p) : d.shed.leading = [] := by
  induction d <;> simp_all

@[simp] lemma leading_absorb (texts : List String) {p : Phrase} (d : Derivation p) :
    (d.absorb texts).leading = d.leading := by
  induction d <;> simp_all

@[simp] lemma width_absorb (texts : List String) {first : Bool} (t : Derivation (.term first)) :
    (t.absorb texts).width = t.width := by
  match t with
  | lastAlternative a => simp
  | slash a t => simp [width_absorb texts t]

@[simp] lemma width_shed {first : Bool} (t : Derivation (.term first)) :
    t.shed.width = t.width := by
  cases t <;> simp

@[simp] lemma widths_absorb (texts : List String) (s : Derivation .terms) :
    (s.absorb texts).widths = s.widths := by
  match s with
  | lastTerm t => simp
  | plus t s => simp [widths_absorb texts s]

@[simp] lemma widths_shed (s : Derivation .terms) : s.shed.widths = s.widths := by
  cases s <;> simp

@[simp] lemma unambiguous_absorb (texts : List String) {p : Phrase} (d : Derivation p) :
    (d.absorb texts).Unambiguous ↔ d.Unambiguous := by
  induction d <;> simp_all

@[simp] lemma unambiguous_shed {p : Phrase} (d : Derivation p) :
    d.shed.Unambiguous ↔ d.Unambiguous := by
  induction d <;> simp_all

@[simp] lemma bounded_absorb (texts : List String) {p : Phrase} (d : Derivation p) :
    (d.absorb texts).Bounded ↔ d.Bounded := by
  induction d <;> simp_all

@[simp] lemma bounded_shed {p : Phrase} (d : Derivation p) : d.shed.Bounded ↔ d.Bounded := by
  induction d <;> simp_all

@[simp] lemma greedy_absorb (texts : List String) {p : Phrase} (d : Derivation p) :
    (d.absorb texts).Greedy ↔ d.Greedy := by
  induction d <;> simp_all

@[simp] lemma greedy_shed {p : Phrase} (d : Derivation p) : d.shed.Greedy ↔ d.Greedy := by
  induction d <;> simp_all

/-! ### The greedy derivation of the same symbols -/

lemma symbols_settle {p : Phrase} (d : Derivation p) : d.settle.symbols = d.symbols := by
  induction d with
  | gap s e ihs ihe =>
      have he : e.settle.symbols = e.settle.leading.map .tooltip ++ e.settle.shed.symbols :=
        symbols_shed e.settle
      rw [settle, symbols, symbols_absorb _ _ (by simp), ihs, List.append_assoc, ← he, ihe]
      rfl
  | _ => simp_all

@[simp] lemma width_settle {first : Bool} (t : Derivation (.term first)) :
    t.settle.width = t.width := by
  match t with
  | lastAlternative a => simp
  | slash a t => simp [width_settle t]

@[simp] lemma widths_settle (s : Derivation .terms) : s.settle.widths = s.widths := by
  match s with
  | lastTerm t => simp
  | plus t s => simp [widths_settle s]

@[simp] lemma unambiguous_settle {p : Phrase} (d : Derivation p) :
    d.settle.Unambiguous ↔ d.Unambiguous := by
  induction d <;> simp_all

@[simp] lemma bounded_settle {p : Phrase} (d : Derivation p) :
    d.settle.Bounded ↔ d.Bounded := by
  induction d <;> simp_all

/-- Every derivation settles into a greedy one. -/
theorem greedy_settle {p : Phrase} (d : Derivation p) : d.settle.Greedy := by
  induction d <;> simp_all

end Derivation

end AbilityRotation
