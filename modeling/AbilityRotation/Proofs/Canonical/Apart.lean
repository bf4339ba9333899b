import AbilityRotation.Proofs.Descent.Shape

/-!
Steps in which terms keep apart.

Modifiers are fused onto what comes behind them, with or without a plus between.  So two terms stand
side by side only if the first names no modifiers, or the second takes none, or a label keeps a word
of the first from being a modifier.
* `Step.KeepsApart`: in a step, no term that names modifiers stands before one that takes them.
* `Fusion.takes`: whether modifiers are fused onto what begins with some tokens.  For what is read
  as a term this says whether the term takes modifiers (`Reads.takes_eq`).
* `Reads.keepsApart`: what is read from words without labels keeps apart.
-/

namespace AbilityRotation

open Descent

/-! ### Steps that keep apart -/

/-- The words between the spaces of a key. -/
def AbilityUse.words (u : AbilityUse) : List String :=
  (u.key.toList.splitOn ' ').map String.ofList

/-- Whether a term is, perhaps behind markers, an ability without modifiers of which all words name
modifiers, and nothing else. -/
def Term.namesModifiers : List Alternative → Bool
  | .marker _ _ :: rest => Term.namesModifiers rest
  | [.ability u] => u.modifiers.isEmpty && u.words.all Catalog.default.isModifier
  | _ => false

/-- Whether modifiers in front of a term would be fused onto what it begins with: an ability that
has modifiers, or one whose first word accepts them and has no slash behind it.  All modifiers are
accepted alike. -/
def Term.takesModifiers : List Alternative → Bool
  | .ability u :: rest =>
      !u.modifiers.isEmpty ||
        (u.words.head?.any Catalog.graniteMaul.accepts &&
          (decide (1 < u.words.length) || (Term.choices rest).isEmpty))
  | _ => false

/-- Whether no term of a step that names modifiers stands right before one that takes them. -/
def Step.KeepsApart (s : Step) : Prop :=
  s.IsChain fun t next => ¬ (Term.namesModifiers t = true ∧ Term.takesModifiers next = true)

instance (s : Step) : Decidable s.KeepsApart :=
  inferInstanceAs (Decidable (List.IsChain _ s))

lemma namesModifiers_markers (texts : List String) (t : List Alternative) :
    Term.namesModifiers (texts.map (.marker ·) ++ t) = Term.namesModifiers t := by
  induction texts with
  | nil => rfl
  | cons text texts ih => simpa [Term.namesModifiers] using ih

/-- Changing labels and settings keeps what terms name and take. -/
lemma namesModifiers_mapUses {f : AbilityUse → AbilityUse}
    (hf : ∀ u, (f u).key = u.key ∧ (f u).modifiers = u.modifiers) :
    ∀ t : List Alternative, Term.namesModifiers (mapUsesOfTerm f t) = Term.namesModifiers t
  | [] => rfl
  | .marker _ _ :: rest => namesModifiers_mapUses hf rest
  | [.ability u] => by
      rw [mapUsesOfTerm, mapUsesOfTerm, Alternative.mapUses, Term.namesModifiers,
        Term.namesModifiers, AbilityUse.words, AbilityUse.words, (hf u).1, (hf u).2]
  | .ability _ :: _ :: _ => rfl
  | .group _ _ :: _ => rfl

lemma takesModifiers_mapUses {f : AbilityUse → AbilityUse}
    (hf : ∀ u, (f u).key = u.key ∧ (f u).modifiers = u.modifiers) (t : List Alternative) :
    Term.takesModifiers (mapUsesOfTerm f t) = Term.takesModifiers t := by
  cases t with
  | nil => rfl
  | cons a rest =>
      cases a with
      | ability u =>
          have hchoices : (Term.choices (mapUsesOfTerm f rest)).isEmpty =
              (Term.choices rest).isEmpty := by
            rw [Bool.eq_iff_iff, List.isEmpty_iff_length_eq_zero, List.isEmpty_iff_length_eq_zero,
              length_choices_mapUsesOfTerm]
          rw [mapUsesOfTerm, Alternative.mapUses, Term.takesModifiers, Term.takesModifiers,
            hchoices, AbilityUse.words, AbilityUse.words, (hf u).1, (hf u).2]
      | _ => rfl

lemma keepsApart_mapUses {f : AbilityUse → AbilityUse}
    (hf : ∀ u, (f u).key = u.key ∧ (f u).modifiers = u.modifiers) (s : Step) :
    Step.KeepsApart (mapUsesOfStep f s) ↔ s.KeepsApart := by
  have hmap : mapUsesOfStep f s = s.map (mapUsesOfTerm f) := by
    induction s with
    | nil => rfl
    | cons t s ih => rw [mapUsesOfStep, ih, List.map_cons]
  rw [Step.KeepsApart, hmap, List.isChain_map]
  simp only [namesModifiers_mapUses hf, takesModifiers_mapUses hf]
  rfl

lemma forall_keepsApart_mapUses {f : AbilityUse → AbilityUse}
    (hf : ∀ u, (f u).key = u.key ∧ (f u).modifiers = u.modifiers) (ss : List Step) :
    (∀ s ∈ stepsWithin (mapUsesOfSteps f ss), Step.KeepsApart s) ↔
      ∀ s ∈ stepsWithin ss, Step.KeepsApart s := by
  rw [stepsWithin_mapUses, List.forall_mem_map]
  simp only [keepsApart_mapUses hf]

/-- The words of a key are the keys of its pieces. -/
lemma Word.keys_pieces (w : Word) :
    w.pieces.map (·.key) = (w.key.toList.splitOn ' ').map String.ofList := by
  rw [Word.pieces]
  induction w.key.toList.splitOn ' ' with
  | nil => rfl
  | cons cs parts ih =>
      cases parts with
      | nil => rfl
      | cons ds parts =>
          rw [labelLast, List.map_cons, ih]
          rfl

/-! ### Onto what modifiers are fused -/

namespace Fusion

open Catalog

/-- Whether modifiers of the default catalog, with or without a plus behind them, are fused onto
what the tokens begin with. -/
def takes (mayPlus : Bool) (ts : List Token) : Bool :=
  (afterChain? Catalog.default [graniteMaul] mayPlus ts).isSome

variable {mayPlus : Bool} {ts us rest : List Token} {t : Token} {w : Word}

/-- Which modifiers they are plays no part. -/
lemma isSome_afterChain? {ms : List Modifier} (hne : ms ≠ []) (hms : ∀ m ∈ ms, Known m) :
    (afterChain? Catalog.default ms mayPlus ts).isSome = takes mayPlus ts :=
  isSome_afterChain?_congr hne hms (by simp) (by simp [Known]) mayPlus ts

lemma takes_of_symbols (h : Token.symbols ts = Token.symbols us) :
    takes mayPlus ts = takes mayPlus us := by
  have hmap := afterChain?_of_symbols Catalog.default [graniteMaul] mayPlus h
  rw [takes, takes, ← Option.isSome_map, hmap, Option.isSome_map]

lemma takes_plus (ht : t.symbol = .plus) : takes true (t :: ts) = takes false ts := by
  rw [takes, afterChain?, ht]
  rfl

lemma takes_other (hplus : t.symbol ≠ .plus) (hword : ∀ w, t.symbol ≠ .word w) :
    takes mayPlus (t :: ts) = false := by
  rw [takes, afterChain?]
  split
  · next ht => exact absurd ht hplus
  · next w ht => exact absurd ht (hword w)
  · rfl

/-- A modifier is fused onto what the tokens behind it begin with. -/
lemma takes_modifier {m : Modifier} (ht : t.symbol = .word w)
    (hm : modifierOf? Catalog.default w = some m) : takes mayPlus (t :: ts) = takes true ts := by
  obtain ⟨-, hknown, hresolve⟩ := known_of_modifierOf? hm
  have haccepts : graniteMaul.accepts w.key = false := accepts_of_resolve (.inl rfl) hresolve
  have hms : ∀ m' ∈ [graniteMaul] ++ [m], Known m' := by
    simpa [Known] using hknown
  rw [takes, afterChain?, ht]
  simp only [List.all_cons, List.all_nil, haccepts, Bool.false_and, Bool.false_eq_true, if_false,
    hm]
  exact isSome_afterChain? (by simp) hms

/-- Other words have to accept modifiers. -/
lemma takes_word (ht : t.symbol = .word w) (hm : modifierOf? Catalog.default w = none) :
    takes mayPlus (t :: ts) = (graniteMaul.accepts w.key && !slashFollows ts) := by
  rw [takes, afterChain?, ht]
  simp only [List.all_cons, List.all_nil, Bool.and_true, hm]
  cases graniteMaul.accepts w.key with
  | false => rfl
  | true => cases slashFollows ts <;> rfl

lemma isSome_modifierOf? (w : Word) :
    (modifierOf? Catalog.default w).isSome =
      (w.label.isNone && Catalog.default.isModifier w.key) := by
  rw [modifierOf?, Catalog.isModifier]
  cases w.label <;> rfl

/-- Words that name modifiers are fused onto what comes behind them. -/
lemma takes_words {ws : List Word} (hts : Token.symbols ts = ws.map .word ++ Token.symbols rest)
    (hws : ∀ w ∈ ws, (modifierOf? Catalog.default w).isSome = true) :
    takes true ts = takes true rest := by
  induction ws generalizing ts with
  | nil => exact takes_of_symbols hts
  | cons w ws ih =>
      obtain ⟨t, ts, rfl, ht, hts⟩ := Token.symbols_eq_cons hts
      obtain ⟨m, hm⟩ := Option.isSome_iff_exists.mp (hws w List.mem_cons_self)
      rw [takes_modifier ht hm]
      exact ih hts fun v hv => hws v (List.mem_cons_of_mem _ hv)

end Fusion

namespace Descent

open Fusion

variable {rules : Rules} {first : Bool} {names : List String} {ts rest after : List Token}
  {t : Token} {w : Word}

/-- At a word there is a fusion if it is a modifier that is fused onto something. -/
lemma isSome_fusionAt? (hc : rules.catalog = Catalog.default) (ht : t.symbol = .word w) :
    (fusionAt? rules true (t :: rest)).isSome =
      ((modifierOf? Catalog.default w).isSome && takes true rest) := by
  rw [fusionAt?, if_pos rfl, hc, Fusion.at?, ht]
  simp only
  cases hm : modifierOf? Catalog.default w with
  | none => rfl
  | some m =>
      have hknown := (known_of_modifierOf? hm).2.1
      exact isSome_afterChain? (by simp) (by simpa using hknown)

/-! ### Terms that take modifiers -/

/-- The first alternative of a term, behind which a slash stands if there are other choices. -/
lemma Reads.exists_alternative {a : Term} (h : Reads rules (.term first) ts a rest) :
    ∃ b as mid, a = b ++ as ∧ Reads rules (.alternative first) ts b mid ∧
      ((Term.choices as).isEmpty = true ↔ Token.first? mid ≠ some .slash) := by
  cases h with
  | lastAlternative ha hnext =>
      exact ⟨a, [], rest, (List.append_nil a).symm, ha, by simpa [Term.choices] using hnext⟩
  | @slash _ _ b t mid as _ ha ht _ has =>
      refine ⟨b, as, t :: mid, rfl, ha, ?_⟩
      obtain ⟨texts, x, back, rfl, hx⟩ := has.hasChoice
      simp [Term.choices, ht, hx]

/-- The words of what is read as a plain word. -/
lemma exists_words (rules : Rules) (hw : (Symbol.word w).Written names)
    (hrest : ∀ s ∈ Token.symbols rest, s.Written names) (overrides : Option Overrides) :
    ∃ vs, Word.Joinable rules.adjacentWords w.label vs ∧
      Token.symbols rest = vs.map .word ++ Token.symbols (plainWord rules w rest).2 ∧
        AbilityUse.words ⟨(plainWord rules w rest).1.key, [], overrides,
          (plainWord rules w rest).1.label⟩ = (w :: vs).map (·.key) := by
  obtain ⟨vs, hjoin, hplain, hvs⟩ := exists_plainWord rules w rest
  refine ⟨vs, hjoin, hvs, ?_⟩
  have hws : ∀ v ∈ w :: vs, (Symbol.word v).Written names := by
    refine List.forall_mem_cons.mpr ⟨hw, fun v hv => hrest _ ?_⟩
    rw [hvs]
    exact List.mem_append_left _ (List.mem_map_of_mem hv)
  rw [AbilityUse.words, ← Word.keys_pieces ((plainWord rules w rest).1), hplain,
    Word.pieces_joinAll_written hjoin hws]

/-- Modifiers are fused onto what is read as an operand if it takes modifiers. -/
lemma Reads.takes_operand (hc : rules.catalog = Catalog.default) {a : Alternative}
    (h : Reads rules (.operand true) ts a after)
    (hwritten : ∀ s ∈ Token.symbols ts, s.Written names) {back : Term}
    (hback : (Term.choices back).isEmpty = true ↔ slashFollows after = false) :
    takes false ts = Term.takesModifiers (a :: back) := by
  -- a fused operand takes modifiers as it has some, a plain one by its first word
  cases h with
  | @fused _ t w rest f u ht hf hu =>
      obtain ⟨-, -, rfl⟩ := AbilityUse.build_eq_ok_iff.mp hu
      obtain ⟨ms, hne, -, hmods, -⟩ := exists_of_fusionAt? hc hf
      have hsome : (fusionAt? rules true (t :: rest)).isSome = _ := isSome_fusionAt? hc ht
      rw [hf, Option.isSome_some, eq_comm, Bool.and_eq_true] at hsome
      obtain ⟨m, hm⟩ := Option.isSome_iff_exists.mp hsome.1
      rw [takes_modifier ht hm, hsome.2, Term.takesModifiers, hmods]
      simp [hne]
  | @plain _ t w rest u ht hf hu =>
      obtain ⟨-, -, rfl⟩ := AbilityUse.build_eq_ok_iff.mp hu
      have hnone : (fusionAt? rules true (t :: rest)).isSome = _ := isSome_fusionAt? hc ht
      rw [hf, Option.isSome_none, eq_comm, Bool.and_eq_false_iff] at hnone
      rw [Token.symbols_cons, ht] at hwritten
      obtain ⟨vs, hjoin, hvs, hwords⟩ := exists_words rules
        (hwritten _ List.mem_cons_self) (fun s hs => hwritten s (List.mem_cons_of_mem _ hs))
        ((plainWord rules w rest).1.label.bind rules.perInstance.get?)
      rw [Term.takesModifiers, hwords]
      -- a word that names a modifier is no target, any other is one unless a slash follows
      cases hm : modifierOf? Catalog.default w with
      | some m =>
          have haccepts : Catalog.graniteMaul.accepts w.key = false :=
            Catalog.accepts_of_resolve (.inl rfl) (known_of_modifierOf? hm).2.2
          rw [hm] at hnone
          rw [takes_modifier ht hm, hnone.resolve_left (by simp)]
          simp [haccepts]
      | none =>
          rw [takes_word ht hm]
          cases vs with
          | nil =>
              rw [slashFollows_of_symbols (show Token.symbols rest = _ from hvs)]
              have hslash : (!slashFollows (plainWord rules w rest).2) =
                  (Term.choices back).isEmpty := by
                cases hs : slashFollows (plainWord rules w rest).2 <;> simp_all
              simp [hslash]
          | cons v vs =>
              obtain ⟨t', us, rfl, ht', -⟩ := Token.symbols_eq_cons hvs
              have hslash : slashFollows (t' :: us) = false := by
                rw [slashFollows, ht']
              simp [hslash]
  | @group _ t rest ss u after ht _ _ _ => exact takes_other (by simp [ht]) (by simp [ht])

/-- **Modifiers are fused onto the terms that take them.** -/
theorem Reads.takes_eq (hc : rules.catalog = Catalog.default) {a : Term}
    (h : Reads rules (.term true) ts a rest)
    (hwritten : ∀ s ∈ Token.symbols ts, s.Written names) :
    takes false ts = Term.takesModifiers a := by
  obtain ⟨b, as, mid, rfl, hb, has⟩ := h.exists_alternative
  cases hb with
  | @alternative _ _ o after ho =>
      obtain ⟨front, hfront, hts⟩ := exists_markers ts
      obtain ⟨back, hback, -⟩ := exists_markers after
      cases front with
      | cons text front =>
          obtain ⟨t, us, rfl, ht, -⟩ := Token.symbols_eq_cons hts
          rw [takes_other (by simp [ht]) (by simp [ht]), hfront]
          rfl
      | nil =>
          have hfirst : Token.first? ts = Token.first? (markers ts).2 :=
            Token.first?_of_symbols hts
          have hself : markers ts = ([], ts) := by
            refine markers_eq_self fun text htext => ?_
            rw [hfirst] at htext
            rcases ho.first?_operand with ⟨⟨w, hw⟩, -⟩ | hopen
            · rw [hw] at htext
              cases htext
            · rw [hopen] at htext
              cases htext
          rw [hself] at ho ⊢
          have hchoices : Term.choices ((markers after).1 ++ as) = as.choices := by
            rw [hback, Derivation.choices_append, Derivation.choices_markers, List.nil_append]
          -- the choices behind the operand are those of the alternatives behind the slash
          have hslash : (Term.choices ((markers after).1 ++ as)).isEmpty = true ↔
              slashFollows after = false := by
            rw [hchoices, has, ne_eq, ← Fusion.slashFollows_eq, Bool.not_eq_true]
          exact ho.takes_operand hc hwritten hslash

/-! ### What is read without labels -/

lemma of_namesModifiers {a : Alternative} {back : Term} (ha : a.isChoice = true)
    (h : Term.namesModifiers (a :: back) = true) :
    back = [] ∧ ∃ u, a = .ability u ∧ u.modifiers = [] ∧
      ∀ word ∈ u.words, Catalog.default.isModifier word = true := by
  cases a with
  | ability u =>
      cases back with
      | nil => simpa [Term.namesModifiers] using h
      | cons b back => cases h
  | marker text kind => cases ha
  | group steps overrides => cases h

/-- Behind words without labels that name modifiers and are not fused, nothing takes modifiers. -/
lemma Reads.takes_behind_operand (hc : rules.catalog = Catalog.default) {u : AbilityUse}
    (h : Reads rules (.operand true) ts (.ability u) after)
    (hwritten : ∀ s ∈ Token.symbols ts, s.Written names)
    (hlabels : ∀ w, .word w ∈ Token.symbols ts → w.label = none) (hmodifiers : u.modifiers = [])
    (hwords : ∀ word ∈ u.words, Catalog.default.isModifier word = true) :
    takes true after = false := by
  cases h with
  | @fused _ t w rest f u ht hf hu =>
      obtain ⟨-, -, rfl⟩ := AbilityUse.build_eq_ok_iff.mp hu
      obtain ⟨ms, hne, -, hmods, -⟩ := exists_of_fusionAt? hc hf
      rw [hmods, List.map_eq_nil_iff] at hmodifiers
      exact absurd hmodifiers hne
  | @plain _ t w rest u ht hf hu =>
      obtain ⟨-, -, rfl⟩ := AbilityUse.build_eq_ok_iff.mp hu
      rw [Token.symbols_cons, ht] at hwritten hlabels
      obtain ⟨vs, hjoin, hvs, heq⟩ := exists_words rules (hwritten _ List.mem_cons_self)
        (fun s hs => hwritten s (List.mem_cons_of_mem _ hs))
        ((plainWord rules w rest).1.label.bind rules.perInstance.get?)
      rw [heq] at hwords
      have hmodifier : ∀ v ∈ w :: vs, (modifierOf? Catalog.default v).isSome = true := by
        intro v hv
        have hmem : .word v ∈ .word w :: Token.symbols rest := by
          rw [hvs]
          rcases List.mem_cons.mp hv with rfl | hv <;> simp [*]
        rw [isSome_modifierOf?, hlabels v hmem, hwords v.key (List.mem_map_of_mem hv)]
        rfl
      have hnone : (fusionAt? rules true (t :: rest)).isSome = _ := isSome_fusionAt? hc ht
      rw [hf, hmodifier w List.mem_cons_self, Bool.true_and, takes_words hvs fun v hv =>
        hmodifier v (List.mem_cons_of_mem _ hv)] at hnone
      exact hnone.symm

/-- Behind a term without labels that names modifiers, nothing takes modifiers. -/
lemma Reads.takes_behind (hc : rules.catalog = Catalog.default) {a : Term}
    (h : Reads rules (.term true) ts a rest)
    (hwritten : ∀ s ∈ Token.symbols ts, s.Written names)
    (hlabels : ∀ w, .word w ∈ Token.symbols ts → w.label = none)
    (ha : Term.namesModifiers a = true) : takes true rest = false := by
  have hsub := List.map_subset Token.symbol (markers_suffix ts).subset
  cases h with
  | lastAlternative hb _ =>
      cases hb with
      | @alternative _ _ o after ho =>
          obtain ⟨front, hfront, -⟩ := exists_markers ts
          obtain ⟨back, hback, hafter⟩ := exists_markers after
          rw [hfront, hback, namesModifiers_markers] at ha
          obtain ⟨hnil, u, rfl, hmodifiers, hwords⟩ := of_namesModifiers ho.isChoice ha
          rw [List.map_eq_nil_iff] at hnil
          subst hnil
          rw [← takes_of_symbols (show Token.symbols after = _ from hafter)]
          exact ho.takes_behind_operand hc (fun s hs => hwritten s (hsub hs))
            (fun w hw => hlabels w (hsub hw)) hmodifiers hwords
  | slash hb _ _ has =>
      obtain ⟨front, back, o, after, rfl, -, ho, -⟩ := hb.exists_operand
      rw [List.append_assoc, namesModifiers_markers, List.cons_append] at ha
      obtain ⟨hnil, -⟩ := of_namesModifiers ho.isChoice ha
      obtain ⟨texts, x, more, rfl, -⟩ := has.hasChoice
      simp at hnil

lemma Reads.exists_term {a : Term} {as : Step} (h : Reads rules .terms ts (a :: as) rest) :
    ∃ mid, Reads rules (.term true) ts a mid := by
  cases h with
  | lastTerm ha _ => exact ⟨_, ha⟩
  | plus ha _ _ _ => exact ⟨_, ha⟩

/-- **Steps without labels keep apart.** -/
theorem Reads.keepsApart (hc : rules.catalog = Catalog.default) {s : Step}
    (h : Reads rules .terms ts s rest) (hwritten : ∀ s ∈ Token.symbols ts, s.Written names)
    (hlabels : ∀ w, .word w ∈ Token.symbols ts → w.label = none) : s.KeepsApart := by
  induction s generalizing ts with
  | nil => exact .nil
  | cons a as ih =>
      cases h with
      | lastTerm _ _ => exact .singleton a
      | @plus _ _ t us _ _ ha ht _ has =>
          have hsub : Token.symbols us ⊆ Token.symbols ts :=
            List.map_subset _ ha.suffix_behind.subset
          have hwritten' : ∀ s ∈ Token.symbols us, s.Written names :=
            fun s hs => hwritten s (hsub hs)
          have hrest := ih has hwritten' fun w hw => hlabels w (hsub hw)
          obtain ⟨a', as, rfl⟩ := List.exists_cons_of_ne_nil has.terms_ne_nil
          obtain ⟨mid, ha'⟩ := has.exists_term
          refine List.isChain_cons_cons.mpr ⟨fun ⟨hnames, htakes⟩ => ?_, hrest⟩
          -- were the second term to take modifiers, the first would have been fused onto it
          have hnone := ha.takes_behind hc hwritten hlabels hnames
          rw [takes_plus ht, ha'.takes_eq hc hwritten', htakes] at hnone
          cases hnone

end Descent

end AbilityRotation
