import AbilityRotation.Proofs.Canonical.RoundTrip
import AbilityRotation.Proofs.Descent.Fusions
import AbilityRotation.Proofs.Rotation.Depth

/-!
The shape of the rotations that are read.

Not every tree of steps, terms and alternatives is read from a text.  `Step.Shaped` says what is
true of the steps that are, whatever the catalog, and `shaped_of_parse` that it is true at every
depth.
* `Reads.forall_innerSteps`: each step at every depth is read from arranged tokens, and does not
  begin with a tooltip behind an operand.
* `ReadIn.term_shaped`: what is true of a term that is read there.
-/

namespace AbilityRotation

open Text

/-! ### Shapes -/

/-- Word characters in a row that hold no arrow. -/
structure IsRun (cs : List Char) : Prop where
  /-- There are some. -/
  ne_nil : cs ≠ []
  /-- All of them are word characters. -/
  word : ∀ c ∈ cs, Lexeme.isWordChar c = true
  /-- There is no arrow among them. -/
  arrow : ¬ ['-', '>'] <:+: cs

/-- What keys look like: a run of word characters, or where words are joined, such runs with single
spaces between. -/
def IsKey (mode : AdjacentWords) (key : String) : Prop :=
  match mode with
  | .join => ∃ runs ≠ [], (∀ cs ∈ runs, IsRun cs) ∧ key.toList = [' '].intercalate runs
  | _ => IsRun key.toList

/-- What labels look like: some digit signs. -/
structure IsLabel (label : String) : Prop where
  /-- There are some. -/
  ne_empty : label ≠ ""
  /-- All of them are digit signs. -/
  digit : ∀ c ∈ label.toList, isDigitSign c = true

/-- What the texts of markers look like where the given texts are names of abilities. -/
structure IsMarkerText (names : List String) (text : String) : Prop where
  /-- The text is not empty. -/
  ne_empty : text ≠ ""
  /-- There are no blanks around it. -/
  tight : Tight text.toList
  /-- It holds no operator. -/
  operator : Lexeme.hasOperator text.toList = false
  /-- It is not the name of an ability in any spelling. -/
  name : lowerCase text ∉ names.map lowerCase

/-- The shape of a term. -/
structure Term.Shaped (options : ParseOptions) (t : Term) : Prop where
  /-- There is something to choose. -/
  choice : t.choices ≠ []
  /-- An ability with modifiers is the only choice and has no settings. -/
  fused : ∀ u, .ability u ∈ t → u.modifiers ≠ [] →
    t.choices = [.ability u] ∧ u.overrides = none
  /-- No more than one marker comes first, and an ability behind it. -/
  marker_first : ∀ text kind rest, t = .marker text kind :: rest →
    ∃ u back, rest = .ability u :: back
  /-- Groups have steps. -/
  group : ∀ steps overrides, .group steps overrides ∈ t → steps ≠ []
  /-- Keys are made of runs of word characters. -/
  key : ∀ u, .ability u ∈ t → IsKey options.adjacentWords u.key
  /-- Labels are made of digit signs. -/
  label : ∀ u, .ability u ∈ t → ∀ label ∈ u.label, IsLabel label
  /-- Markers show texts that are neither operators nor names. -/
  marker : ∀ text kind, .marker text kind ∈ t → IsMarkerText options.names text

/-- The shape of a step. -/
structure Step.Shaped (options : ParseOptions) (s : Step) : Prop where
  /-- There are terms. -/
  ne_nil : s ≠ []
  /-- All terms are shaped. -/
  term : ∀ t ∈ s, t.Shaped options
  /-- Among three terms or more, only the first and the last have several choices. -/
  inner : 3 ≤ s.length → ∀ i (hi : i < s.length), 2 ≤ (Term.choices s[i]).length →
    i = 0 ∨ i + 1 = s.length

/-- Where words are not joined, keys that are read have no spaces. -/
lemma IsKey.joined_or_spaceless {mode : AdjacentWords} {key : String} (h : IsKey mode key) :
    mode = .join ∨ ' ' ∉ key.toList := by
  have hrun : IsRun key.toList → ' ' ∉ key.toList := by
    intro hrun hspace
    exact Lexeme.ne_of_isWordChar (hrun.word ' ' hspace) (by decide) rfl
  cases mode with
  | join => exact .inl rfl
  | steps | error => exact .inr (hrun h)

/-! ### What symbols a text gives -/

variable {names : List String}

lemma Symbol.Written.isRun {w : Word} (h : (Symbol.word w).Written names) :
    IsRun w.key.toList := by
  refine ⟨h.1.1, fun c hc => (h.1.2 c hc).1, fun harrow => ?_⟩
  exact Lexeme.ne_of_isWordChar (h.1.2 '>' (harrow.subset (by simp))).1 (by decide) rfl

lemma Symbol.Written.isLabel {w : Word} (h : (Symbol.word w).Written names) :
    ∀ label ∈ w.label, IsLabel label := by
  intro label hlabel
  obtain ⟨hne, hdigit⟩ := h.2 label hlabel
  exact ⟨fun hempty => hne (by simp [hempty]), fun c hc => (hdigit c hc).1⟩

lemma Symbol.Written.isMarkerText {names : List String} {text : String}
    (h : (Symbol.tooltip text).Written (names.map lowerCase)) : IsMarkerText names text := by
  obtain ⟨hne, htight, hoperator, hname, -⟩ := h
  refine ⟨fun hempty => hne (by simp [hempty]), htight, hoperator, fun hmem => ?_⟩
  exact absurd (List.contains_iff_mem.mpr hmem) (by simpa [lowerCase] using hname)

/-- The words between the spaces of a key make up the key. -/
lemma Word.intercalate_pieces (w : Word) :
    [' '].intercalate (w.pieces.map (·.key.toList)) = w.key.toList := by
  have hparts : ∀ parts : List (List Char),
      (labelLast w.label parts).map (·.key.toList) = parts := by
    intro parts
    induction parts with
    | nil => rfl
    | cons cs parts ih =>
        cases parts with
        | nil => simp [labelLast]
        | cons ds parts => simpa [labelLast] using ih
  rw [Word.pieces, hparts, List.intercalate_splitOn]

lemma Word.exists_label_joinAll (w : Word) (vs : List Word) :
    ∃ v ∈ w :: vs, (w.joinAll vs).label = v.label := by
  induction vs generalizing w with
  | nil => exact ⟨w, List.mem_cons_self, rfl⟩
  | cons v vs ih =>
      obtain ⟨u, hu, hlabel⟩ := ih ⟨w.key ++ " " ++ v.key, v.label⟩
      rcases List.mem_cons.mp hu with rfl | hu
      · exact ⟨v, by simp, hlabel⟩
      · exact ⟨u, by simp [hu], hlabel⟩

lemma IsRun.isKey {key : String} (h : IsRun key.toList) (mode : AdjacentWords) :
    IsKey mode key := by
  cases mode with
  | join => exact ⟨[key.toList], by simp, by simpa using h, by simp [List.intercalate]⟩
  | _ => exact h

/-- The pieces of joined words are the words themselves, if they are written. -/
lemma Word.pieces_joinAll_written {mode : AdjacentWords} {w : Word} {vs : List Word}
    (hjoin : Joinable mode w.label vs) (hws : ∀ v ∈ w :: vs, (Symbol.word v).Written names) :
    (w.joinAll vs).pieces = w :: vs := by
  rw [pieces_joinAll hjoin, (hws w List.mem_cons_self).pieces,
    flatMap_pieces fun v hv => hws v (List.mem_cons_of_mem _ hv)]
  rfl

/-- What words are joined to has a key. -/
lemma Word.isKey_joinAll {mode : AdjacentWords} {w : Word} {vs : List Word}
    (hjoin : Joinable mode w.label vs) (hws : ∀ v ∈ w :: vs, (Symbol.word v).Written names) :
    IsKey mode (w.joinAll vs).key := by
  have hpieces := pieces_joinAll_written hjoin hws
  cases vs with
  | nil => exact (hws w List.mem_cons_self).isRun.isKey mode
  | cons v vs =>
      obtain ⟨rfl, -⟩ := hjoin
      refine ⟨(w :: v :: vs).map (·.key.toList), by simp, fun cs hcs => ?_, ?_⟩
      · obtain ⟨u, hu, rfl⟩ := List.mem_map.mp hcs
        exact (hws u hu).isRun
      · rw [← hpieces, intercalate_pieces]

namespace Descent

variable {rules : Rules} {behind first : Bool} {ts rest : List Token} {t : Term}

/-! ### What is read at every depth -/

/-- What a rule reads from the last of some tokens, which are arranged and do not begin with a
tooltip behind an operand unless the rule reads an operand. -/
def ReadIn (rules : Rules) (names : List String) (all : List Token) (p : Phrase)
    (v : p.Value) : Prop :=
  ∃ behind ts rest, ts <:+ all ∧ Arranged (SuitsText names) behind (Token.symbols ts) ∧
    Begins behind ts false p ∧ Reads rules p ts v rest

/-- The steps at every depth of what a rule reads; a step itself is not among those in it. -/
def Phrase.innerSteps : (p : Phrase) → p.Value → List Step
  | .expression, ss => stepsWithin ss
  | .terms, as => stepsInStep as
  | .term _, a => stepsInTerm a
  | .alternative _, a => stepsInTerm a
  | .operand _, a => a.innerSteps

/-- **Every step is read somewhere.**  The steps at every depth of what a rule reads are read from
the tokens as steps, and they are not ambiguous. -/
theorem Reads.forall_innerSteps {all : List Token} {p : Phrase} {v : p.Value}
    (h : Reads rules p ts v rest) (hall : ts <:+ all)
    (harr : Arranged (SuitsText names) behind (Token.symbols ts)) (hb : Begins behind ts false p) :
    ∀ s ∈ p.innerSteps v, ReadIn rules names all .terms s ∧ isAmbiguous s = false := by
  -- a step counts itself, the steps in its groups and those behind it
  have hcons : ∀ {s : Step} {ss : List Step} {P : Step → Prop}, P s →
      (∀ s' ∈ stepsInStep s, P s') → (∀ s' ∈ stepsWithin ss, P s') →
        ∀ s' ∈ stepsWithin (s :: ss), P s' := by
    intro s ss P hs hin hss s' hs'
    rw [stepsWithin] at hs'
    rcases List.mem_cons.mp hs' with rfl | hs'
    · exact hs
    · rcases List.mem_append.mp hs' with hs' | hs'
      · exact hin s' hs'
      · exact hss s' hs'
  -- what stands behind a part is arranged again, and an operator there opens a fresh place
  induction h generalizing behind with
  | lastStep hs ha _ ih =>
      exact hcons ⟨⟨_, _, _, hall, harr, hb, hs⟩, ha⟩ (ih hall harr hb) (by simp [stepsWithin])
  | arrow hs ha ht _ hss ih1 ih2 =>
      exact hcons ⟨⟨_, _, _, hall, harr, hb, hs⟩, ha⟩ (ih1 hall harr hb)
        (ih2 (hs.suffix_behind.trans hall) (hs.arranged_behind ht harr)
          ⟨rfl, by simp [Symbol.endsOperand]⟩)
  | gap hs ha ht _ hss ih1 ih2 =>
      have hrest := hs.arranged_rest harr
      have hsuffix := hs.suffix.trans hall
      exact hcons ⟨⟨_, _, _, hall, harr, hb, hs⟩, ha⟩ (ih1 hall harr hb)
        (ih2 hsuffix hrest ⟨rfl, fun _ text => hs.first?_ne_tooltip (by simp) text⟩)
  | lastTerm _ _ ih => simpa [Phrase.innerSteps, stepsInStep] using ih hall harr hb
  | plus ha ht _ has ih1 ih2 =>
      exact List.forall_mem_append.mpr ⟨ih1 hall harr hb,
        ih2 (ha.suffix_behind.trans hall) (ha.arranged_behind ht harr)
          ⟨rfl, by simp [Symbol.endsOperand]⟩⟩
  | lastAlternative _ _ ih => exact ih hall harr hb
  | slash ha ht _ has ih1 ih2 =>
      rw [Phrase.innerSteps, stepsInTerm_append]
      exact List.forall_mem_append.mpr ⟨ih1 hall harr hb,
        ih2 (ha.suffix_behind.trans hall) (ha.arranged_behind ht harr)
          ⟨rfl, by simp [Symbol.endsOperand]⟩⟩
  | @alternative first ts a after _ ih =>
      obtain ⟨front, hfront, -⟩ := exists_markers ts
      obtain ⟨back, hback, -⟩ := exists_markers after
      rw [Phrase.innerSteps, hfront, hback, stepsInTerm_between]
      exact ih ((markers_suffix ts).trans hall) (arranged_markers harr) (by simp [Begins])
  | fused _ _ _ | plain _ _ _ => simp [Phrase.innerSteps, Alternative.innerSteps]
  | @group first t rest ss u after ht _ _ _ ih =>
      rw [Token.symbols_cons, ht] at harr
      exact ih ((List.suffix_cons _ _).trans hall) harr.2 ⟨rfl, by simp [Symbol.endsOperand]⟩

/-- The terms of a step are read as terms. -/
lemma ReadIn.terms {all : List Token} {s : Step} (h : ReadIn rules names all .terms s) :
    ∀ t ∈ s, ReadIn rules names all (.term true) t := by
  induction s with
  | nil => simp
  | cons a s ih =>
      obtain ⟨behind, ts, rest, hall, harr, hb, h⟩ := h
      intro t ht
      cases h with
      | lastTerm ha _ =>
          obtain rfl := List.mem_singleton.mp ht
          exact ⟨behind, ts, rest, hall, harr, hb, ha⟩
      | @plus _ _ tok after _ _ ha htok _ has =>
          rcases List.mem_cons.mp ht with rfl | ht
          · exact ⟨behind, ts, _, hall, harr, hb, ha⟩
          · exact ih ⟨_, after, rest, ha.suffix_behind.trans hall, ha.arranged_behind htok harr,
              ⟨rfl, by simp [Symbol.endsOperand]⟩, has⟩ t ht

/-! ### What is read of a term -/

/-- An alternative of a term is a marker for a tooltip, or it is read as an operand. -/
lemma Reads.of_mem_term (h : Reads rules (.term first) ts t rest) :
    ∀ a ∈ t, (∃ text, a = .marker text ∧ .tooltip text ∈ Token.symbols ts) ∨
      ∃ first' us after, us <:+ ts ∧ Reads rules (.operand first') us a after := by
  have halternative : ∀ {first ts a rest}, Reads rules (.alternative first) ts a rest →
      ∀ x ∈ a, (∃ text, x = .marker text ∧ .tooltip text ∈ Token.symbols ts) ∨
        ∃ first' us after, us <:+ ts ∧ Reads rules (.operand first') us x after := by
    intro first ts a rest h x hx
    obtain ⟨front, back, o, after, rfl, hts, ho, hafter⟩ := h.exists_operand
    have hback : Token.symbols after ⊆ Token.symbols ts :=
      List.map_subset _ (ho.suffix.trans (markers_suffix ts)).subset
    simp only [List.mem_append, List.mem_map, List.mem_cons] at hx
    rcases hx with ⟨text, htext, rfl⟩ | rfl | ⟨text, htext, rfl⟩
    · exact .inl ⟨text, rfl, by rw [hts]; simp [htext]⟩
    · exact .inr ⟨first, _, after, markers_suffix ts, ho⟩
    · exact .inl ⟨text, rfl, hback (by rw [hafter]; simp [htext])⟩
  induction h using Reads.term_induct with
  | last ha _ => exact halternative ha
  | @slash first ts a t rest as after ha ht _ has ih =>
      have hsuffix : rest <:+ ts := ha.suffix_behind
      intro x hx
      rcases List.mem_append.mp hx with hx | hx
      · exact halternative ha x hx
      · rcases ih x hx with ⟨text, rfl, htext⟩ | ⟨first', us, after', hus, ho⟩
        · exact .inl ⟨text, rfl, List.map_subset _ hsuffix.subset htext⟩
        · exact .inr ⟨first', us, after', hus.trans hsuffix, ho⟩

/-- An ability that is read has a key and perhaps a label. -/
lemma Reads.isKey {u : AbilityUse} (h : Reads rules (.operand first) ts (.ability u) rest)
    (hwritten : ∀ s ∈ Token.symbols ts, s.Written names) :
    IsKey rules.adjacentWords u.key ∧ ∀ label ∈ u.label, IsLabel label := by
  cases h with
  | @fused _ t w rest f u ht hf hu =>
      obtain ⟨-, -, rfl⟩ := AbilityUse.build_eq_ok_iff.mp hu
      obtain ⟨t', ht', hsuffix⟩ := suffix_of_fusionAt? hf
      have htarget : (Symbol.word f.target).Written names :=
        hwritten _ (List.mem_map.mpr ⟨t', hsuffix.subset List.mem_cons_self, ht'⟩)
      exact ⟨htarget.isRun.isKey _, htarget.isLabel⟩
  | @plain _ t w rest u ht hf hu =>
      obtain ⟨vs, hjoin, hplain, hvs⟩ := exists_plainWord rules w rest
      obtain ⟨-, -, rfl⟩ := AbilityUse.build_eq_ok_iff.mp hu
      rw [Token.symbols_cons, ht, hvs] at hwritten
      have hws : ∀ v ∈ w :: vs, (Symbol.word v).Written names := by
        intro v hv
        refine hwritten _ ?_
        rcases List.mem_cons.mp hv with rfl | hv <;> simp [*]
      obtain ⟨v, hv, hlabel⟩ := Word.exists_label_joinAll w vs
      rw [hplain]
      exact ⟨Word.isKey_joinAll hjoin hws, by rw [hlabel]; exact (hws v hv).isLabel⟩

/-- Modifiers are read only at the beginning of a term that offers nothing else. -/
lemma Reads.of_modifiers (h : Reads rules (.term first) ts t rest) {u : AbilityUse}
    (hu : .ability u ∈ t) (hne : u.modifiers ≠ []) :
    first = true ∧ t.choices = [.ability u] ∧ u.overrides = none := by
  -- in one alternative, only the operand can have modifiers, and then no slash comes behind it
  have halternative : ∀ {first ts a rest}, Reads rules (.alternative first) ts a rest →
      .ability u ∈ a → first = true ∧ Term.choices a = [.ability u] ∧ u.overrides = none ∧
        Token.first? rest ≠ some .slash := by
    intro first ts a rest h hu
    cases h with
    | @alternative _ _ o after ho =>
        obtain ⟨front, hfront, -⟩ := exists_markers ts
        obtain ⟨back, hback, -⟩ := exists_markers after
        rw [hfront, hback] at hu ⊢
        obtain rfl : Alternative.ability u = o := by simpa using hu
        have hchoices : Term.choices (front.map (.marker ·) ++ .ability u :: back.map (.marker ·)) =
            [.ability u] := by
          rw [Derivation.choices_append, Derivation.choices_markers, List.nil_append]
          exact congrArg (Alternative.ability u :: ·) (Derivation.choices_markers back)
        generalize (markers ts).2 = us at ho
        cases ho with
        | @fused _ t w rest f u ht hf hbuild =>
            obtain ⟨-, -, rfl⟩ := AbilityUse.build_eq_ok_iff.mp hbuild
            refine ⟨?_, hchoices, rfl, ?_⟩
            · cases first with
              | true => rfl
              | false => cases hf
            · rw [ne_eq, ← Fusion.slashFollows_eq, slashFollows_of_fusionAt? hf]
              exact Bool.false_ne_true
        | plain _ _ hbuild =>
            obtain ⟨-, -, rfl⟩ := AbilityUse.build_eq_ok_iff.mp hbuild
            exact absurd rfl hne
  induction h using Reads.term_induct with
  | last ha _ =>
      obtain ⟨hfirst, hchoices, hoverrides, -⟩ := halternative ha hu
      exact ⟨hfirst, hchoices, hoverrides⟩
  -- behind a slash no modifiers are read, and in front of it there are none either
  | slash ha ht _ has ih =>
      rcases List.mem_append.mp hu with hu | hu
      · obtain ⟨-, -, -, hnext⟩ := halternative ha hu
        exact absurd (by rw [Token.first?_cons, ht]) hnext
      · exact absurd (ih hu).1 Bool.false_ne_true

/-- A term that begins with a marker begins with one marker and an ability, if it begins neither
behind an operand nor without one. -/
lemma Reads.of_marker_first (h : Reads rules (.term first) ts t rest)
    (harr : Arranged (SuitsText names) behind (Token.symbols ts))
    (hb : Begins behind ts false (.term first)) {text kind : String} {back : Term}
    (ht : t = .marker text kind :: back) : ∃ u back', back = .ability u :: back' := by
  have halternative : ∀ {a rest as}, Reads rules (.alternative first) ts a rest →
      a ++ as = .marker text kind :: back → ∃ u back', back = .ability u :: back' := by
    intro a rest as h ha
    obtain ⟨front, back', o, after, rfl, hts, ho, -⟩ := h.exists_operand
    have hchoice := ho.isChoice
    cases front with
    | nil =>
        obtain rfl : o = .marker text kind := by simpa using congrArg List.head? ha
        cases hchoice
    | cons text' front =>
        have hfirst : Token.first? ts = some (.tooltip text') := by
          rw [Token.first?_eq, hts]
          rfl
        obtain ⟨rfl, -, u, rfl⟩ := ho.of_tooltip harr (fun hbehind => hb.2 hbehind _ hfirst) hts
        simp only [List.map_cons, List.map_nil, List.cons_append, List.nil_append,
          List.cons.injEq] at ha
        exact ⟨u, _, ha.2.symm⟩
  cases h with
  | lastAlternative ha _ => exact halternative ha ((List.append_nil _).trans ht)
  | slash ha _ _ _ => exact halternative ha ht

/-! ### The shape of what is read -/

variable {options : ParseOptions} {all : List Token}

/-- The terms that are read from the tokens of a text are shaped. -/
theorem ReadIn.term_shaped {options : ParseOptions} {perInstance : Table Overrides}
    (h : ReadIn (Rotation.rulesOf options perInstance) (options.names.map lowerCase) all
      (.term true) t)
    (hwritten : ∀ s ∈ Token.symbols all, s.Written (options.names.map lowerCase)) :
    t.Shaped options := by
  obtain ⟨behind, ts, rest, hall, harr, hb, h⟩ := h
  have hsub : ∀ {us}, us <:+ ts → Token.symbols us ⊆ Token.symbols all := fun hus =>
    List.map_subset _ (hus.trans hall).subset
  have hability : ∀ u, .ability u ∈ t →
      IsKey options.adjacentWords u.key ∧ ∀ label ∈ u.label, IsLabel label := by
    intro u hu
    rcases h.of_mem_term _ hu with ⟨text, heq, -⟩ | ⟨first, us, after, hus, ho⟩
    · cases heq
    · exact ho.isKey fun s hs => hwritten s (hsub hus hs)
  refine ⟨?_, fun u hu hne => (h.of_modifiers hu hne).2, ?_, ?_, fun u hu => (hability u hu).1,
    fun u hu => (hability u hu).2, ?_⟩
  · obtain ⟨front, a, back, rfl, ha⟩ := h.hasChoice
    intro hnil
    exact absurd ((List.filter_eq_nil_iff.mp hnil) a (by simp)) (by simpa using ha)
  · exact fun text kind back ht => h.of_marker_first harr hb ht
  · intro steps overrides hgroup
    rcases h.of_mem_term _ hgroup with ⟨text, heq, -⟩ | ⟨first, us, after, -, ho⟩
    · cases heq
    · cases ho with
      | group _ _ hss _ => exact hss.steps_ne_nil
  · intro text kind hmarker
    rcases h.of_mem_term _ hmarker with ⟨text', heq, htext⟩ | ⟨first, us, after, -, ho⟩
    · cases heq
      exact (hwritten _ (hsub List.suffix_rfl htext)).isMarkerText
    · exact absurd ho.isChoice (by simp [Alternative.isChoice, Alternative.markerText?])

/-- In a step that is not ambiguous, inner terms have one choice. -/
lemma place_of_isAmbiguous {s : Step} (ha : isAmbiguous s = false) (i : ℕ) (hi : i < s.length)
    (hchoices : 2 ≤ (Term.choices s[i]).length) : i = 0 ∨ i + 1 = s.length := by
  by_contra hinner
  have hlt : i - 1 < (s.drop 1).dropLast.length := by
    rw [List.length_dropLast, List.length_drop]
    omega
  have hget : (s.drop 1).dropLast[i - 1] = s[i] := by
    rw [List.getElem_dropLast, List.getElem_drop]
    congr 1
    omega
  rw [isAmbiguous, List.any_eq_false] at ha
  have hone := ha _ (List.getElem_mem hlt)
  rw [hget, decide_eq_true_eq] at hone
  omega

/-- The steps that are read from the tokens of a text are shaped, at every depth. -/
theorem Reads.shaped {options : ParseOptions} {perInstance : Table Overrides} {ss : List Step}
    (h : Reads (Rotation.rulesOf options perInstance) .expression ts ss rest)
    (harr : Arranged (SuitsText (options.names.map lowerCase)) false (Token.symbols ts)) :
    ∀ s ∈ stepsWithin ss, Step.Shaped options s := by
  intro s hs
  have hwritten := harr.forall_mem fun _ _ _ hsuits => hsuits.written
  obtain ⟨hstep, ha⟩ := h.forall_innerSteps List.suffix_rfl harr ⟨rfl, by simp⟩ s hs
  refine ⟨?_, fun t ht => (hstep.terms t ht).term_shaped hwritten,
    fun _ i hi => place_of_isAmbiguous ha i hi⟩
  obtain ⟨_, _, _, -, -, -, hterms⟩ := hstep
  exact hterms.terms_ne_nil

end Descent

open Descent

/-- **The shape of a rotation that is read.**  Whatever the catalog, the treatment of neighbouring
words and the names: each step of a rotation that is read from its text is shaped, at every depth.
-/
theorem shaped_of_parse {options : ParseOptions} {text : String} {d : Rotation}
    (h : Rotation.parse options text = .ok d) : ∀ s ∈ d.everyStep, s.Shaped options := by
  obtain ⟨-, ⟨-, hsteps⟩ | ⟨-, ts, hts, hsteps⟩⟩ := ofSplit_eq_ok_iff.mp h
  · simp [Rotation.everyStep, hsteps, stepsWithin]
  · exact (stepsOfTokens_eq_ok_iff.mp hsteps).shaped
      (arranged_ofChars hts (plainLines_expression text))

/-- Words are joined, and `assault` is the name of an ability. -/
def joining : ParseOptions := { adjacentWords := .join, names := ["assault"] }

/-- What `(slow) gmaul spec[*1] → (dodge roll[*2]/barge (pool))` is read as. -/
def slowSpec : Rotation :=
  ⟨[[[.marker "slow", .ability ⟨"spec", ["gmaul"], none, some "1"⟩]],
    [[.group [[[.ability ⟨"dodge roll", [], none, some "2"⟩, .ability { key := "barge" },
      .marker "pool"]]] Table.empty]]], Table.empty⟩

/-- A marker in front of a fusion, and a group of two choices, are shaped. -/
theorem shaped_of_parse_slowSpec :
    Rotation.parse joining "(slow) gmaul spec[*1] → (dodge roll[*2]/barge (pool))" =
        .ok slowSpec ∧
      ∀ s ∈ slowSpec.everyStep, s.Shaped joining := by
  have hparse : Rotation.parse joining
      "(slow) gmaul spec[*1] → (dodge roll[*2]/barge (pool))" = .ok slowSpec := by
    let ts : List Token :=
      [⟨.tooltip "slow", 0, false⟩, ⟨.word ⟨"gmaul", none⟩, 7, false⟩, ⟨.plus, 13, true⟩,
        ⟨.word ⟨"spec", some "1"⟩, 13, false⟩, ⟨.arrow, 22, false⟩, ⟨.opening, 24, false⟩,
        ⟨.word ⟨"dodge", none⟩, 25, false⟩, ⟨.word ⟨"roll", some "2"⟩, 31, false⟩,
        ⟨.slash, 39, false⟩, ⟨.word ⟨"barge", none⟩, 40, false⟩, ⟨.tooltip "pool", 46, false⟩,
        ⟨.closing, 52, false⟩]
    let rules : Rules := ⟨Catalog.default, .join, Table.empty⟩
    have hspec : Reads rules (.operand true) (ts.drop 1)
        (.ability ⟨"spec", ["gmaul"], none, some "1"⟩) (ts.drop 4) :=
      .fused (f := ⟨["gmaul"], ⟨"spec", some "1"⟩, ts.drop 4⟩) rfl (by decide +kernel)
        (by decide)
    have hroll : Reads rules (.alternative true) (ts.drop 6)
        [.ability ⟨"dodge roll", [], none, some "2"⟩] (ts.drop 8) := by
      have hdodge : Reads rules (.operand true) (ts.drop 6)
          (.ability ⟨"dodge roll", [], none, some "2"⟩) (ts.drop 8) :=
        @Reads.plain rules true ⟨.word ⟨"dodge", none⟩, 25, false⟩ ⟨"dodge", none⟩ (ts.drop 7)
          ⟨"dodge roll", [], none, some "2"⟩ rfl (by decide) (by decide)
      exact .between rfl hdodge rfl
    have hbarge : Reads rules (.alternative false) (ts.drop 9)
        [.ability { key := "barge" }, .marker "pool"] (ts.drop 11) := by
      have hbarge : Reads rules (.operand false) (ts.drop 9) (.ability { key := "barge" })
          (ts.drop 10) :=
        .plain rfl (by decide) (by decide)
      exact .between rfl hbarge rfl
    have hchoices := Reads.slash hroll rfl rfl (.lastAlternative hbarge (by decide))
    have hinner : Reads rules .expression (ts.drop 6) [[[.ability ⟨"dodge roll", [], none,
        some "2"⟩, .ability { key := "barge" }, .marker "pool"]]] (ts.drop 11) :=
      .lastStep (.lastTerm hchoices (by decide)) (by decide) (.inr rfl)
    have hgroup : Reads rules (.operand true) (ts.drop 5) (.group [[[.ability ⟨"dodge roll", [],
        none, some "2"⟩, .ability { key := "barge" }, .marker "pool"]]] Table.empty) [] :=
      .group rfl (by decide) hinner rfl
    refine ofSplit_eq_ok_iff.mpr ⟨by decide, .inr ⟨by decide, ts,
      by decide +kernel, stepsOfTokens_eq_ok_iff.mpr ?_⟩⟩
    have hslow : Reads rules (.alternative true) ts
        [.marker "slow", .ability ⟨"spec", ["gmaul"], none, some "1"⟩] (ts.drop 4) :=
      .between rfl hspec rfl
    exact .arrow (.lastTerm (.lastAlternative hslow (by decide)) (by decide)) (by decide) rfl rfl
      (.single (.between rfl hgroup rfl) (by decide) (.inl rfl))
  exact ⟨hparse, shaped_of_parse hparse⟩

end AbilityRotation
