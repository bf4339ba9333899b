import AbilityRotation.Modifier.Derivation
import AbilityRotation.Proofs.Descent.Uses
import AbilityRotation.Proofs.Modifier.Replaced

/-!
Catalogs in which names and keys lead to the same modifiers.

A rotation is read by the names of modifiers and resolved by their keys.  Both ways agree in a
catalog of modifiers with distinct keys, where no modifier is replaced.
* `Catalog.coherent_ofList`: what a name leads to is what its key leads to.
* `Catalog.derive_of_contributions`: what is derived from modifiers all of which contribute.
* `derive_of_parse`: what is fused while a text is read is derived in full when it is resolved.
-/

namespace AbilityRotation

open Descent

namespace Catalog

variable {c : Catalog} {m : Modifier} {ms : List Modifier} {name ability : String}

/-! ### Names and keys -/

/-- What a name leads to is what its key leads to. -/
def Coherent (c : Catalog) : Prop :=
  ∀ m, c.LeadsTo m → c.definition? m.key = some m

/-- **Names and keys agree** in a catalog of built modifiers with distinct keys. -/
theorem coherent_ofList (hms : ∀ m ∈ ms, m.Built) (hkeys : (ms.map (·.key)).Nodup) :
    (ofList ms).Coherent := by
  rintro m ⟨name, hname⟩
  obtain ⟨a, after, -, hsuffix, ha, hlast⟩ := exists_suffix_of_resolve hname
  have hm : m ∈ ms := hsuffix.subset List.mem_cons_self
  refine (definition?_eq_some_iff_of_last (hms m hm) hsuffix ha hlast).mpr fun m' hm' hkey => ?_
  have hfresh : m.key ∉ after.map (·.key) :=
    (List.nodup_cons.mp ((hsuffix.map (·.key)).sublist.nodup hkeys)).1
  exact hfresh (hkey ▸ List.mem_map_of_mem (f := (·.key)) hm')

/-- A defined modifier that accepts an ability is listed for it. -/
lemma mem_suitableFor (h : c.definition? name = some m) (ha : m.accepts ability = true) :
    m ∈ c.suitableFor (some ability) :=
  List.mem_mergeSort.mpr (List.mem_filter.mpr ⟨mem_values_of_definition? h, ha⟩)

/-! ### Contributions -/

/-- A defined modifier that accepts an ability contributes its effect. -/
lemma contribution_of_definition? (h : c.definition? name = some m)
    (ha : m.accepts ability = true) :
    c.contribution (some ability) (some name) = .ok m.effect.overrides := by
  simp only [contribution, Option.bind_some, h, Option.some_or, Option.any_some, ha, if_true]

/-- Modifiers all of which contribute are laid over each other, and none is passed over. -/
lemma derive_of_contributions {ability : Option String}
    (h : ∀ m ∈ ms, c.contribution ability (some m.key) = .ok m.effect.overrides) :
    c.deriveNotices ability ((ms.map (·.key)).map some) = [] ∧
      c.derive ability ((ms.map (·.key)).map some) =
        ms.foldl (fun acc m => Overrides.merge acc (some m.effect.overrides)) none := by
  constructor
  · rw [deriveNotices, List.filterMap_eq_nil_iff]
    intro key hkey
    simp only [List.map_map, List.mem_map, Function.comp_apply] at hkey
    obtain ⟨m, hm, rfl⟩ := hkey
    rw [h m hm]
  · rw [derive, List.foldl_map, List.foldl_map]
    refine List.foldl_ext _ _ _ fun acc m hm => ?_
    rw [h m hm]

end Catalog

/-! ### What is fused is derived -/

/-- **What is fused is derived.**  In a rotation that is read with a catalog of modifiers with
distinct keys, each modifier on an ability is defined, accepts the ability and is listed for it;
and when the ability is resolved, none of its modifiers is passed over, so that their effects are
laid over each other in order. -/
theorem derive_of_parse {options : ParseOptions} {ms : List Modifier} {text : String}
    {d : Rotation} {u : AbilityUse} (hms : ∀ m ∈ ms, m.Built) (hkeys : (ms.map (·.key)).Nodup)
    (hc : options.catalog = Catalog.ofList ms) (h : Rotation.parse options text = .ok d)
    (hu : u ∈ d.abilities) :
    ∃ chain : List Modifier,
      List.Forall₂ (fun key m => options.catalog.definition? key = some m ∧
        m.accepts u.key = true ∧ m ∈ options.catalog.suitableFor (some u.key)) u.modifiers chain ∧
      options.catalog.deriveNotices (some u.key) (u.modifiers.map some) = [] ∧
      options.catalog.derive (some u.key) (u.modifiers.map some) =
        chain.foldl (fun acc m => Overrides.merge acc (some m.effect.overrides)) none := by
  obtain ⟨first, us, after, hread⟩ := exists_operand_of_parse h hu
  obtain ⟨chain, hmodifiers, hchain⟩ := hread.exists_chain
  change ∀ m ∈ chain, options.catalog.LeadsTo m ∧ m.accepts u.key = true at hchain
  -- a name leads to a definition that is listed under its own key
  have hdefined : ∀ m ∈ chain, options.catalog.definition? m.key = some m := by
    intro m hm
    have hcoherent := Catalog.coherent_ofList hms hkeys
    rw [← hc] at hcoherent
    exact hcoherent m (hchain m hm).1
  have hcontribution : ∀ m ∈ chain,
      options.catalog.contribution (some u.key) (some m.key) = .ok m.effect.overrides := fun m hm =>
    Catalog.contribution_of_definition? (hdefined m hm) (hchain m hm).2
  refine ⟨chain, ?_, ?_⟩
  · rw [hmodifiers, List.forall₂_map_left_iff, List.forall₂_same]
    intro m hm
    exact ⟨hdefined m hm, (hchain m hm).2,
      Catalog.mem_suitableFor (hdefined m hm) (hchain m hm).2⟩
  · rw [hmodifiers]
    exact Catalog.derive_of_contributions hcontribution

/-- In `gmaul armabattlestaff spec` both modifiers are fused, one of them under another name than
its key, and both effects are derived. -/
theorem derive_of_parse_both :
    let u : AbilityUse := { key := "spec", modifiers := ["gmaul", "armadylbattlestaff"] }
    (∀ m ∈ [Catalog.graniteMaul, Catalog.armadylBattlestaff], m.Built) ∧
      ([Catalog.graniteMaul, Catalog.armadylBattlestaff].map (·.key)).Nodup ∧
      Rotation.parse {} "gmaul armabattlestaff spec" = .ok ⟨[[[.ability u]]], Table.empty⟩ ∧
      ∃ chain : List Modifier,
        List.Forall₂ (fun key m => Catalog.default.definition? key = some m ∧
          m.accepts u.key = true ∧ m ∈ Catalog.default.suitableFor (some u.key)) u.modifiers chain ∧
        Catalog.default.deriveNotices (some u.key) (u.modifiers.map some) = [] ∧
        chain.foldl (fun acc m => Overrides.merge acc (some m.effect.overrides)) none =
          some { triggersGcd := some false, castDuration := some 5 } := by
  intro u
  let ts : List Token :=
    [⟨.word ⟨"gmaul", none⟩, 0, false⟩, ⟨.word ⟨"armabattlestaff", none⟩, 6, false⟩,
      ⟨.plus, 22, true⟩, ⟨.word ⟨"spec", none⟩, 22, false⟩]
  have hkeys : ([Catalog.graniteMaul, Catalog.armadylBattlestaff].map (·.key)).Nodup := by decide
  have hparse : Rotation.parse {} "gmaul armabattlestaff spec" =
      .ok ⟨[[[.ability u]]], Table.empty⟩ :=
    ofSplit_alternative ts (by decide) (by decide +kernel)
      (.between rfl (.fused (f := ⟨u.modifiers, ⟨"spec", none⟩, []⟩) rfl (by decide +kernel)
        (by decide)) rfl) (by decide) (by decide)
  obtain ⟨chain, hchain, hnotices, hderive⟩ := derive_of_parse Catalog.built_of_mem_default hkeys
    rfl hparse (u := u) (List.mem_singleton.mpr rfl)
  refine ⟨Catalog.built_of_mem_default, hkeys, hparse, chain, hchain, hnotices, ?_⟩
  exact hderive.symm.trans (by decide +kernel)

end AbilityRotation
