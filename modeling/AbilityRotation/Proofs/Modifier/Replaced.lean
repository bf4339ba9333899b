import AbilityRotation.Proofs.Modifier.Built
import AbilityRotation.Proofs.Modifier.Default

/-!
Modifiers that a later one with the same key replaces.

A key leads to the last modifier that has it, an alias to the last one that claims it.  A modifier
that is replaced is no longer defined, but an alias that nothing behind it claims stays with it.
* `definition?_eq_some_iff_of_last`: the modifier behind an alias is the one behind its own key
  exactly if no later modifier has this key.
* `Catalog.LeavesNone`: no alias stays behind with a modifier that is replaced.
* `resolve_defined_iff`: when everything that names lead to is defined.
-/

namespace AbilityRotation

/-! ### The last of a list -/

section Last

variable {α : Type} (p : α → Prop) [DecidablePred p] {x : α} {xs after : List α}

lemma find?_reverse_of_suffix (hx : x :: after <:+ xs) (hp : p x) (hafter : ∀ y ∈ after, ¬p y) :
    xs.reverse.find? (p ·) = some x := by
  obtain ⟨before, rfl⟩ := hx
  have hnone : after.reverse.find? (p ·) = none := by
    rw [List.find?_eq_none]
    simpa using hafter
  simp [List.find?_append, hnone, hp]

lemma exists_find?_reverse_of_suffix (hx : x :: after <:+ xs) (h : ∃ y ∈ after, p y) :
    ∃ y ∈ after, xs.reverse.find? (p ·) = some y := by
  obtain ⟨before, rfl⟩ := hx
  have hsome : (after.reverse.find? (p ·)).isSome = true := by
    rw [List.find?_isSome]
    simpa using h
  obtain ⟨y, hy⟩ := Option.isSome_iff_exists.mp hsome
  refine ⟨y, List.mem_reverse.mp (List.mem_of_find?_eq_some hy), ?_⟩
  simp [List.find?_append, hy]

lemma exists_suffix_of_find?_reverse (h : xs.reverse.find? (p ·) = some x) :
    p x ∧ ∃ after, x :: after <:+ xs ∧ ∀ y ∈ after, ¬p y := by
  obtain ⟨hp, behind, front, heq, hbehind⟩ := List.find?_eq_some_iff_append.mp h
  refine ⟨of_decide_eq_true hp, behind.reverse, ⟨front.reverse, ?_⟩, by simpa using hbehind⟩
  simpa using (congrArg List.reverse heq).symm

end Last

/-! ### Aliases in normal form -/

lemma Modifier.forall_addAlias {aliases : List String} {name : String}
    (h : ∀ a ∈ aliases, normalizeKey a = some a) :
    ∀ a ∈ addAlias aliases name, normalizeKey a = some a := by
  rw [addAlias]
  split
  · exact h
  · next k hk =>
      split
      · exact h
      · rw [List.forall_mem_append, List.forall_mem_singleton]
        exact ⟨h, normalizeKey_idem hk⟩

/-- The aliases of a built modifier are normal names. -/
lemma Modifier.Built.normalizeKey_alias {m : Modifier} (h : m.Built) :
    ∀ a ∈ m.aliases, normalizeKey a = some a := by
  obtain ⟨key, aliases, targets, effect, hm⟩ := h
  rw [Modifier.build] at hm
  split at hm
  · cases hm
  · next k hk =>
      cases hm
      refine List.foldlRecOn aliases addAlias (motive := fun l => ∀ a ∈ l, normalizeKey a = some a)
        ?_ fun l hl name _ => forall_addAlias hl
      rw [List.forall_mem_singleton]
      exact normalizeKey_idem hk

namespace Catalog

variable {ms after : List Modifier} {m : Modifier} {name a : String}

/-! ### What names lead to -/

/-- The last modifier that claims an alias is what its own key leads to exactly if no later modifier
has this key. -/
lemma definition?_eq_some_iff_of_last (hm : m.Built) (hsuffix : m :: after <:+ ms)
    (ha : a ∈ m.aliases) (hlast : ∀ m' ∈ after, a ∉ m'.aliases) :
    (ofList ms).definition? m.key = some m ↔ ∀ m' ∈ after, m'.key ≠ m.key := by
  rw [definition?_ofList, hm.normalizeKey_key, Option.bind_some]
  constructor
  · intro h m' hm' hkey
    obtain ⟨last, hmem, hfind⟩ :=
      exists_find?_reverse_of_suffix (·.key = m.key) hsuffix ⟨m', hm', hkey⟩
    obtain rfl := Option.some.inj (hfind.symm.trans h)
    exact hlast last hmem ha
  · intro h
    exact find?_reverse_of_suffix (·.key = m.key) hsuffix rfl h

/-- The modifier behind a name is the last one that claims it. -/
lemma exists_suffix_of_resolve (h : (ofList ms).resolve name = some m) :
    ∃ a after, normalizeKey name = some a ∧ m :: after <:+ ms ∧ a ∈ m.aliases ∧
      ∀ m' ∈ after, a ∉ m'.aliases := by
  rw [resolve_ofList] at h
  obtain ⟨a, hname, hfind⟩ := Option.bind_eq_some_iff.mp h
  obtain ⟨ha, after, hsuffix, hlast⟩ :=
    exists_suffix_of_find?_reverse (fun m : Modifier => a ∈ m.aliases) hfind
  exact ⟨a, after, hname, hsuffix, ha, hlast⟩

lemma resolve_of_last (hname : normalizeKey name = some a) (hsuffix : m :: after <:+ ms)
    (ha : a ∈ m.aliases) (hlast : ∀ m' ∈ after, a ∉ m'.aliases) :
    (ofList ms).resolve name = some m := by
  rw [resolve_ofList, hname, Option.bind_some]
  exact find?_reverse_of_suffix (a ∈ ·.aliases) hsuffix ha hlast

/-- What a key leads to is one of the definitions. -/
lemma mem_values_of_definition? {c : Catalog} (h : c.definition? name = some m) :
    m ∈ c.definitions.values := by
  obtain ⟨key, -, hget⟩ := Option.bind_eq_some_iff.mp h
  exact List.mem_map_of_mem (f := Prod.snd) (Table.mem_entries_of_get? hget)

/-! ### Replaced modifiers -/

/-- Whether no alias stays with a modifier that a later one with the same key replaces: each of its
aliases is claimed again behind it. -/
def LeavesNone (ms : List Modifier) : Prop :=
  ∀ m after, m :: after <:+ ms → (∃ m' ∈ after, m'.key = m.key) →
    ∀ a ∈ m.aliases, ∃ m' ∈ after, a ∈ m'.aliases

/-- **Replaced modifiers.**  A name leads to the last modifier that claims it, which is one of the
definitions, namely that of its own key, exactly if no later modifier has this key.  So everything
that names lead to is defined exactly if no alias stays with a modifier that is replaced. -/
theorem resolve_defined_iff {ms : List Modifier} (hms : ∀ m ∈ ms, m.Built) :
    (∀ name m, (ofList ms).resolve name = some m → ∃ a after,
      normalizeKey name = some a ∧ m :: after <:+ ms ∧ a ∈ m.aliases ∧
        (∀ m' ∈ after, a ∉ m'.aliases) ∧
        (m ∈ (ofList ms).definitions.values ∧ (ofList ms).definition? m.key = some m ↔
          ∀ m' ∈ after, m'.key ≠ m.key)) ∧
    ((∀ name m, (ofList ms).resolve name = some m →
      m ∈ (ofList ms).definitions.values ∧ (ofList ms).definition? m.key = some m) ↔
        LeavesNone ms) := by
  have hdefined : ∀ {m after a}, m :: after <:+ ms → a ∈ m.aliases →
      (∀ m' ∈ after, a ∉ m'.aliases) →
      (m ∈ (ofList ms).definitions.values ∧ (ofList ms).definition? m.key = some m ↔
        ∀ m' ∈ after, m'.key ≠ m.key) := by
    intro m after a hsuffix ha hlast
    have hm := hms m (hsuffix.subset List.mem_cons_self)
    rw [and_iff_right_of_imp mem_values_of_definition?]
    exact definition?_eq_some_iff_of_last hm hsuffix ha hlast
  refine ⟨fun name m h => ?_, fun hall => ?_, fun hnone name m h => ?_⟩
  · obtain ⟨a, after, hname, hsuffix, ha, hlast⟩ := exists_suffix_of_resolve h
    exact ⟨a, after, hname, hsuffix, ha, hlast, hdefined hsuffix ha hlast⟩
  · rintro m after hsuffix ⟨m', hm', hkey⟩ a ha
    -- an alias that no later definition has would still lead to the one that is replaced
    by_contra! hlast
    have hm := hms m (hsuffix.subset List.mem_cons_self)
    have hresolve := resolve_of_last (hm.normalizeKey_alias a ha) hsuffix ha hlast
    exact (hdefined hsuffix ha hlast).mp (hall a m hresolve) m' hm' hkey
  · obtain ⟨a, after, -, hsuffix, ha, hlast⟩ := exists_suffix_of_resolve h
    refine (hdefined hsuffix ha hlast).mpr fun m' hm' hkey => ?_
    obtain ⟨m'', hm'', ha'⟩ := hnone m after hsuffix ⟨m', hm', hkey⟩ a ha
    exact hlast m'' hm'' ha'

/-- A maul that is also called `maul` and makes special attacks slow. -/
def heavyMaul : Modifier :=
  ⟨"gmaul", ["gmaul", "maul"], ["spec"], { castDuration := some 9 }⟩

/-- After `gmaul` is defined anew without the alias `maul`, this still leads to the old definition,
which is no longer there; in the other order, no alias is left behind. -/
theorem resolve_defined_iff_maul :
    (∀ m ∈ [heavyMaul, graniteMaul], m.Built) ∧
      (ofList [heavyMaul, graniteMaul]).resolve "maul" = some heavyMaul ∧
      (ofList [heavyMaul, graniteMaul]).definition? heavyMaul.key = some graniteMaul ∧
      (ofList [heavyMaul, graniteMaul]).definitions.values = [graniteMaul] ∧
      ¬LeavesNone [heavyMaul, graniteMaul] ∧
      ∀ name m, (ofList [graniteMaul, heavyMaul]).resolve name = some m →
        m ∈ (ofList [graniteMaul, heavyMaul]).definitions.values ∧
          (ofList [graniteMaul, heavyMaul]).definition? m.key = some m := by
  have hheavy : heavyMaul.Built :=
    ⟨"gmaul", ["maul"], ["spec"], heavyMaul.effect, by decide⟩
  have hgranite : graniteMaul.Built := built_of_mem_default _ List.mem_cons_self
  have hbuilt : ∀ m ∈ [heavyMaul, graniteMaul], m.Built := by simp [hheavy, hgranite]
  have hresolve : (ofList [heavyMaul, graniteMaul]).resolve "maul" = some heavyMaul := by
    decide
  have hdefinition : (ofList [heavyMaul, graniteMaul]).definition? heavyMaul.key =
      some graniteMaul := by decide
  refine ⟨hbuilt, hresolve, hdefinition, by decide, fun hnone => ?_, ?_⟩
  · have := ((resolve_defined_iff hbuilt).2.mpr hnone "maul" heavyMaul hresolve).2
    exact absurd (hdefinition.symm.trans this) (by decide)
  · have hbuilt' : ∀ m ∈ [graniteMaul, heavyMaul], m.Built := by simp [hheavy, hgranite]
    refine (resolve_defined_iff hbuilt').2.mpr fun m after hsuffix hlater => ?_
    rcases List.suffix_cons_iff.mp hsuffix with heq | hsuffix
    · cases heq
      decide
    · rcases List.suffix_cons_iff.mp hsuffix with heq | hsuffix
      · cases heq
        simp at hlater
      · simp at hsuffix

end Catalog

end AbilityRotation
