import Mathlib.Tactic
import AbilityRotation.Modifier.Fusion

/-!
The default catalog.

Its two modifiers are accepted by the same abilities, and neither by a modifier: so whether a chain
of them is fused does not depend on the modifiers in it.
* `Catalog.Known` says that a modifier is one of the two.
* `known_of_resolve`, `resolve_key`: a name leads to a known modifier, and the key of one to itself.
* `isSome_afterChain?_congr`: chains of known modifiers are fused onto the same abilities.
-/

namespace AbilityRotation

namespace Catalog

/-- The modifiers of the default catalog. -/
def Known (m : Modifier) : Prop :=
  m = graniteMaul ∨ m = armadylBattlestaff

/-- The names of modifiers in the default catalog. -/
def knownNames : List String :=
  ["gmaul", "armadylbattlestaff", "armabattlestaff"]

lemma entries_default : default.aliases.entries =
    [("gmaul", graniteMaul), ("armadylbattlestaff", armadylBattlestaff),
      ("armabattlestaff", armadylBattlestaff)] := by
  decide

/-- A name leads to a known modifier. -/
lemma known_of_resolve {name : String} {m : Modifier} (h : default.resolve name = some m) :
    Known m ∧ ∃ key ∈ knownNames, normalizeKey name = some key := by
  obtain ⟨key, hkey, hget⟩ := Option.bind_eq_some_iff.mp h
  have hmem := Table.mem_entries_of_get? hget
  rw [entries_default] at hmem
  simp only [List.mem_cons, Prod.mk.injEq, List.not_mem_nil, or_false] at hmem
  rcases hmem with ⟨rfl, rfl⟩ | ⟨rfl, rfl⟩ | ⟨rfl, rfl⟩
  · exact ⟨.inl rfl, _, by decide, hkey⟩
  · exact ⟨.inr rfl, _, by decide, hkey⟩
  · exact ⟨.inr rfl, _, by decide, hkey⟩

variable {m m' : Modifier}

/-- The key of a known modifier leads to it. -/
lemma resolve_key (h : Known m) : default.resolve m.key = some m := by
  rcases h with rfl | rfl <;> decide

/-- The same abilities accept all known modifiers. -/
lemma accepts_congr (h : Known m) (h' : Known m') (ability : String) :
    m.accepts ability = m'.accepts ability := by
  have htargets : ∀ {m : Modifier}, Known m → m.targets = ["spec", "eofspec"] := by
    intro m h
    rcases h with rfl | rfl <;> rfl
  rw [Modifier.accepts, Modifier.accepts, htargets h, htargets h']

/-- A modifier accepts no modifier. -/
lemma accepts_of_resolve {name : String} (h : Known m) (hr : default.resolve name = some m') :
    m.accepts name = false := by
  obtain ⟨-, key, hmem, hkey⟩ := known_of_resolve hr
  rw [accepts_congr h (.inl rfl), Modifier.accepts, hkey]
  have hnames : ∀ key ∈ knownNames,
      (graniteMaul.targets.any fun pattern => Wildcard.accepts pattern key) = false := by
    decide +kernel
  exact hnames key hmem

/-- A chain of known modifiers is accepted like any of them. -/
lemma all_accepts {ms : List Modifier} (hne : ms ≠ []) (hms : ∀ m ∈ ms, Known m)
    (ability : String) :
    ms.all (·.accepts ability) = graniteMaul.accepts ability := by
  have hall : ∀ m ∈ ms, m.accepts ability = graniteMaul.accepts ability :=
    fun m hm => accepts_congr (hms m hm) (.inl rfl) ability
  cases ha : graniteMaul.accepts ability with
  | true => exact List.all_eq_true.mpr fun m hm => (hall m hm).trans ha
  | false =>
      obtain ⟨m, ms, rfl⟩ := List.exists_cons_of_ne_nil hne
      rw [List.all_cons, hall m List.mem_cons_self, ha, Bool.false_and]

end Catalog

namespace Fusion

open Catalog

lemma known_of_modifierOf? {w : Word} {m : Modifier}
    (h : modifierOf? Catalog.default w = some m) :
    w.label = none ∧ Known m ∧ Catalog.default.resolve w.key = some m := by
  rw [modifierOf?] at h
  split at h
  · next hl => exact ⟨by simpa using hl, (known_of_resolve h).1, h⟩
  · cases h

/-- Chains of known modifiers are fused onto the same abilities. -/
theorem isSome_afterChain?_congr {ms ms' : List Modifier} (hne : ms ≠ []) (hms : ∀ m ∈ ms, Known m)
    (hne' : ms' ≠ []) (hms' : ∀ m ∈ ms', Known m) (mayPlus : Bool) (ts : List Token) :
    (afterChain? Catalog.default ms mayPlus ts).isSome =
      (afterChain? Catalog.default ms' mayPlus ts).isSome := by
  induction ts generalizing ms ms' mayPlus with
  | nil => rfl
  | cons t ts ih =>
      rw [afterChain?, afterChain?]
      split
      · cases mayPlus with
        | true => exact ih hne hms hne' hms' false
        | false => rfl
      · next w _ =>
          -- all known modifiers accept the same words, so it does not matter which are in the chain
          rw [all_accepts hne hms, all_accepts hne' hms']
          split
          · cases slashFollows ts <;> rfl
          · cases hw : modifierOf? Catalog.default w with
            | none => rfl
            | some m =>
                have hm := (known_of_modifierOf? hw).2.1
                exact ih (by simp) (by simpa [or_imp, forall_and] using ⟨hms, hm⟩) (by simp)
                  (by simpa [or_imp, forall_and] using ⟨hms', hm⟩) true
      · rfl

end Fusion

end AbilityRotation
