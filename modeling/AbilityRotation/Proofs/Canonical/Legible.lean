import AbilityRotation.Proofs.Canonical.Arrangement
import AbilityRotation.Proofs.Canonical.Trees
import AbilityRotation.Proofs.Descent.Fusions
import AbilityRotation.Proofs.Descent.Joining
import AbilityRotation.Proofs.Modifier.Default

/-!
The canonical symbols of what is read are legible.

Symbols are legible when each of them suits its place in canonical text (`SuitsCanonical`): then
they will be recognized one by one when they are written.  What is read from well arranged tokens
with the default catalog has legible symbols.
* `Legible` is the arrangement of canonical text.
* `Reads.arranged_rest`: the tokens that a rule leaves are arranged behind an operand.
* `Reads.legible`: the symbols of what a rule reads are legible, in front of symbols that may follow
  them.
-/

namespace AbilityRotation

open Descent

/-! ### Arrangement of canonical text -/

/-- Whether a symbol suits its place in canonical text: `spec` does not follow an operand, a tooltip
follows an operand or has a word right behind it, and a group has no operand beside it. -/
structure SuitsCanonical (names : List String) (behind : Bool) (s : Symbol)
    (next : Option Symbol) : Prop where
  /-- The symbol looks like one that is written. -/
  written : s.Written names
  /-- The word `spec` does not follow an operand. -/
  spec : behind = true → Token.isSpec s = false
  /-- A tooltip touches something. -/
  tooltip : ∀ text, s = .tooltip text → behind = true ∨ ∃ w, next = some (.word w)
  /-- Nothing touches a group from the left. -/
  opening : s = .opening → behind = false
  /-- No word touches a group from the right. -/
  closing : s = .closing → ∀ w, next ≠ some (.word w)

/-- Whether symbols are arranged as in canonical text. -/
def Legible (names : List String) : (behind : Bool) → List Symbol → Prop :=
  Arranged (SuitsCanonical names)

variable {names : List String} {behind : Bool} {s : Symbol} {ss tail : List Symbol}

lemma legible_cons :
    Legible names behind (s :: ss) ↔
      SuitsCanonical names behind s ss.head? ∧ Legible names s.endsOperand ss :=
  Iff.rfl

lemma legible_arrow : Legible names behind (.arrow :: ss) ↔ Legible names false ss := by
  rw [legible_cons]
  exact and_iff_right ⟨trivial, fun _ => rfl, by simp, by simp, by simp⟩

lemma legible_plus : Legible names behind (.plus :: ss) ↔ Legible names false ss := by
  rw [legible_cons]
  exact and_iff_right ⟨trivial, fun _ => rfl, by simp, by simp, by simp⟩

lemma legible_slash : Legible names behind (.slash :: ss) ↔ Legible names false ss := by
  rw [legible_cons]
  exact and_iff_right ⟨trivial, fun _ => rfl, by simp, by simp, by simp⟩

lemma legible_opening : Legible names false (.opening :: ss) ↔ Legible names false ss := by
  rw [legible_cons]
  exact and_iff_right ⟨trivial, fun _ => rfl, by simp, by simp, by simp⟩

lemma legible_closing (h : ∀ w, ss.head? ≠ some (.word w)) :
    Legible names behind (.closing :: ss) ↔ Legible names true ss := by
  rw [legible_cons]
  exact and_iff_right ⟨trivial, fun _ => rfl, by simp, by simp, fun _ => h⟩

lemma legible_tooltip {text : String} (hw : (Symbol.tooltip text).Written names)
    (h : behind = true ∨ ∃ w, ss.head? = some (.word w)) :
    Legible names behind (.tooltip text :: ss) ↔ Legible names true ss := by
  rw [legible_cons]
  exact and_iff_right ⟨hw, fun _ => rfl, fun _ _ => h, by simp, by simp⟩

lemma legible_word {w : Word} (hw : (Symbol.word w).Written names)
    (h : behind = true → Token.isSpec (.word w) = false) :
    Legible names behind (.word w :: ss) ↔ Legible names true ss := by
  rw [legible_cons]
  exact and_iff_right ⟨hw, h, by simp, by simp, by simp⟩

/-- What is legible behind an operand is so at the beginning, unless it begins with a tooltip. -/
lemma Legible.of_behind (h : Legible names true (s :: ss)) (hs : ∀ text, s ≠ .tooltip text) :
    Legible names behind (s :: ss) := by
  obtain ⟨⟨hw, hspec, -, hopen, hclose⟩, hrest⟩ := h
  exact ⟨⟨hw, fun _ => hspec rfl, fun text ht => absurd ht (hs text),
    fun ho => absurd (hopen ho) (by simp), hclose⟩, hrest⟩

/-! ### Tokens behind a phrase -/

variable {rules : Rules} {ts rest : List Token}

/-- Tooltips leave what is arranged arranged, behind an operand if there was one. -/
lemma arranged_markers (h : Arranged (SuitsText names) behind (Token.symbols ts)) :
    Arranged (SuitsText names) (behind || !(markers ts).1.isEmpty)
      (Token.symbols (markers ts).2) := by
  induction ts generalizing behind with
  | nil => trivial
  | cons t ts ih =>
      rw [markers]
      split
      · next text ht =>
          rw [Token.symbols_cons, ht] at h
          simpa using @ih true h.2
      · simpa using h

lemma arranged_words {ws : List Word} {ss : List Symbol}
    (h : Arranged (SuitsText names) true (ws.map .word ++ ss)) :
    Arranged (SuitsText names) true ss := by
  induction ws with
  | nil => exact h
  | cons w ws ih => exact ih h.2

/-- The target of a fusion is a word of the text, and behind it the tokens are arranged. -/
lemma arranged_afterChain? {c : Catalog} {ms : List Modifier} {mayPlus : Bool} {f : Fusion}
    (hf : Fusion.afterChain? c ms mayPlus ts = some f)
    (h : Arranged (SuitsText names) behind (Token.symbols ts)) :
    (Symbol.word f.target).Written names ∧
      Arranged (SuitsText names) true (Token.symbols f.rest) := by
  induction ts generalizing ms mayPlus behind with
  | nil => cases hf
  | cons t ts ih =>
      rw [Fusion.afterChain?] at hf
      split at hf
      · split at hf
        · exact ih hf h.2
        · cases hf
      · next w ht =>
          split at hf
          · split at hf
            · cases hf
            · cases hf
              rw [Token.symbols_cons, ht] at h
              exact ⟨h.1.written, h.2⟩
          · split at hf
            · exact ih hf h.2
            · cases hf
      · cases hf

lemma arranged_fusionAt? {first : Bool} {f : Fusion} (hf : fusionAt? rules first ts = some f)
    (h : Arranged (SuitsText names) behind (Token.symbols ts)) :
    (Symbol.word f.target).Written names ∧
      Arranged (SuitsText names) true (Token.symbols f.rest) := by
  rw [fusionAt?] at hf
  split at hf
  · cases ts with
    | nil => cases hf
    | cons t ts =>
        rw [Fusion.at?] at hf
        split at hf
        · obtain ⟨m, -, hm⟩ := Option.bind_eq_some_iff.mp hf
          exact arranged_afterChain? hm h.2
        · cases hf
  · cases hf

/-- The tokens that a rule leaves are arranged behind an operand. -/
lemma Descent.Reads.arranged_rest {p : Phrase} {v : p.Value} (hr : Reads rules p ts v rest)
    (h : Arranged (SuitsText names) behind (Token.symbols ts)) :
    Arranged (SuitsText names) true (Token.symbols rest) := by
  -- whatever a rule takes ends in an operand, its last token
  induction hr generalizing behind with
  | lastStep _ _ _ ih | lastTerm _ _ ih | lastAlternative _ _ ih => exact ih h
  | arrow _ _ _ _ _ ih1 ih2 | plus _ _ _ _ ih1 ih2 | slash _ _ _ _ ih1 ih2 =>
      exact ih2 (ih1 h).2
  | gap _ _ _ _ _ ih1 ih2 => exact ih2 (ih1 h)
  | alternative _ ih =>
      have hback := arranged_markers (ih (arranged_markers h))
      rwa [Bool.true_or] at hback
  | fused ht hf hu => exact (arranged_fusionAt? hf h).2
  | @plain first t w rest u ht hf hu =>
      obtain ⟨vs, -, -, hvs⟩ := exists_plainWord rules w rest
      rw [Token.symbols_cons, ht, hvs] at h
      exact arranged_words h.2
  | group ht hne hss hu ih =>
      have hclose := ih h.2
      rw [Token.symbols_cons, hu] at hclose
      exact hclose.2

/-- Behind an operator that comes next, the tokens are arranged as the operator asks. -/
lemma Descent.Reads.arranged_behind {p : Phrase} {v : p.Value} {s : Symbol}
    (hr : Reads rules p ts v (t :: rest)) (ht : t.symbol = s)
    (h : Arranged (SuitsText names) behind (Token.symbols ts)) :
    Arranged (SuitsText names) s.endsOperand (Token.symbols rest) := by
  have hrest := hr.arranged_rest h
  rw [Token.symbols_cons, ht] at hrest
  exact hrest.2

/-! ### The symbols of an operand -/

/-- What can follow an operand in canonical text. -/
def Follows (names : List String) (tail : List Symbol) : Prop :=
  Legible names true tail ∧ ∀ w, tail.head? ≠ some (.word w)

/-- A word that is written has no spaces. -/
lemma Symbol.Written.pieces {w : Word} (h : (Symbol.word w).Written names) : w.pieces = [w] := by
  refine Word.pieces_of_spaceless fun hspace => ?_
  exact Lexeme.ne_of_isWordChar (h.1.2 ' ' hspace).1 (by decide) rfl

lemma flatMap_pieces {ws : List Word} (h : ∀ w ∈ ws, (Symbol.word w).Written names) :
    ws.flatMap Word.pieces = ws := by
  induction ws with
  | nil => rfl
  | cons w ws ih =>
      rw [List.flatMap_cons, (h w List.mem_cons_self).pieces,
        ih fun v hv => h v (List.mem_cons_of_mem _ hv), List.singleton_append]

lemma written_of_arranged {ws : List Word} {ss : List Symbol}
    (h : Arranged (SuitsText names) behind (ws.map .word ++ ss)) :
    ∀ w ∈ ws, (Symbol.word w).Written names := by
  induction ws generalizing behind with
  | nil => simp
  | cons w ws ih =>
      intro v hv
      rcases List.mem_cons.mp hv with rfl | hv
      · exact h.1.written
      · exact ih h.2 v hv

/-- Joined words have the symbols of the words. -/
lemma symbols_of_words {mode : AdjacentWords} {w : Word} {vs : List Word} {ss : List Symbol}
    (h : Arranged (SuitsText names) behind ((w :: vs).map .word ++ ss))
    (hjoin : Word.Joinable mode w.label vs) (overrides : Option Overrides) :
    AbilityUse.symbols ⟨(w.joinAll vs).key, [], overrides, (w.joinAll vs).label⟩ =
      (w :: vs).map .word := by
  have hwritten := written_of_arranged h
  rw [AbilityUse.symbols, List.flatMap_nil, List.nil_append,
    show (⟨(w.joinAll vs).key, (w.joinAll vs).label⟩ : Word) = w.joinAll vs from rfl,
    Word.pieces_joinAll hjoin, (hwritten w List.mem_cons_self).pieces,
    flatMap_pieces fun v hv => hwritten v (List.mem_cons_of_mem _ hv)]
  rfl

/-- Words are legible where they stood in the text, and where nothing is before them. -/
lemma legible_words {ws : List Word} {ss : List Symbol} {b : Bool}
    (h : Arranged (SuitsText names) behind (ws.map .word ++ ss)) (hne : ws ≠ [])
    (hb : b = true → behind = true) (htail : Legible names true tail) :
    Legible names b (ws.map .word ++ tail) := by
  induction ws generalizing behind b with
  | nil => exact absurd rfl hne
  | cons w ws ih =>
      rw [List.map_cons, List.cons_append, legible_word h.1.written fun hbt => h.1.spec (hb hbt)]
      cases ws with
      | nil => exact htail
      | cons v vs => exact ih h.2 (List.cons_ne_nil _ _) id

lemma suits_modifier {m : Modifier} (h : Catalog.Known m) :
    (Symbol.word ⟨m.key, none⟩).Written names ∧
      Token.isSpec (.word ⟨m.key, none⟩) = false := by
  have hkeys : ∀ key ∈ ["gmaul", "armadylbattlestaff"],
      key.toList ≠ [] ∧ Text.lowerCase key ≠ "spec" := by
    decide
  have hchars : ∀ c ∈ "gmaul".toList ++ "armadylbattlestaff".toList,
      Lexeme.isWordChar c = true ∧ isPlain c = true :=
    List.all_iff_forall_prop.mp (by decide)
  have hkey : m.key ∈ ["gmaul", "armadylbattlestaff"] := by
    rcases h with rfl | rfl <;> decide
  have hsubset : ∀ c ∈ m.key.toList, c ∈ "gmaul".toList ++ "armadylbattlestaff".toList := by
    rcases h with rfl | rfl
    · exact fun c hc => List.mem_append_left _ hc
    · exact fun c hc => List.mem_append_right _ hc
  obtain ⟨hne, hspec⟩ := hkeys _ hkey
  exact ⟨⟨⟨hne, fun c hc => hchars c (hsubset c hc)⟩, by simp⟩, by simpa [Token.isSpec] using hspec⟩

/-- Modifiers are legible in front of what is legible behind a plus. -/
lemma legible_modifiers {ms : List Modifier} {b : Bool} (hms : ∀ m ∈ ms, Catalog.Known m)
    (hne : ms ≠ []) (hss : Legible names false ss) :
    Legible names b ((ms.map (·.key)).flatMap (fun m => [.word ⟨m, none⟩, .plus]) ++ ss) := by
  induction ms generalizing b with
  | nil => exact absurd rfl hne
  | cons m ms ih =>
      obtain ⟨hw, hspec⟩ := suits_modifier (hms m List.mem_cons_self)
      rw [List.map_cons, List.flatMap_cons, List.append_assoc, List.cons_append,
        List.singleton_append, legible_word hw fun _ => hspec, legible_plus]
      cases ms with
      | nil => exact hss
      | cons m' ms =>
          exact ih (fun m hm => hms m (List.mem_cons_of_mem _ hm)) (List.cons_ne_nil _ _)

/-- An ability begins with a word. -/
lemma exists_head_symbols (u : AbilityUse) : ∃ w, u.symbols.head? = some (.word w) := by
  rw [AbilityUse.symbols]
  cases u.modifiers with
  | nil =>
      obtain ⟨w, ws, hw⟩ := List.exists_cons_of_ne_nil
        (Word.pieces_ne_nil (⟨u.key, u.label⟩ : Word))
      exact ⟨w, by simp [hw]⟩
  | cons m ms => exact ⟨⟨m, none⟩, by simp⟩

/-! ### The symbols of a term -/

lemma symbolsOfTerm_append (slash : Bool) (a b : List Alternative) :
    symbolsOfTerm slash (a ++ b) =
      symbolsOfTerm slash a ++ symbolsOfTerm (slash || a.any Alternative.isChoice) b := by
  induction a generalizing slash with
  | nil => simp [symbolsOfTerm]
  | cons x a ih =>
      rw [List.cons_append, symbolsOfTerm, symbolsOfTerm, List.any_cons]
      cases x.isChoice with
      | true => simp [ih]
      | false => simp [ih]

@[simp] lemma symbolsOfTerm_markers (slash : Bool) (texts : List String) :
    symbolsOfTerm slash (texts.map (.marker ·)) = texts.map .tooltip := by
  induction texts with
  | nil => simp [symbolsOfTerm]
  | cons text texts ih =>
      simpa [symbolsOfTerm, Alternative.isChoice, Alternative.markerText?, Alternative.symbols]
        using ih

lemma symbolsOfTerm_markers_append (slash : Bool) (texts : List String) (t : List Alternative) :
    symbolsOfTerm slash (texts.map (.marker ·) ++ t) =
      texts.map .tooltip ++ symbolsOfTerm slash t := by
  have hany : (texts.map (Alternative.marker ·)).any Alternative.isChoice = false := by
    rw [List.any_eq_false]
    intro a ha
    obtain ⟨text, -, rfl⟩ := List.mem_map.mp ha
    simp [Alternative.isChoice, Alternative.markerText?]
  rw [symbolsOfTerm_append, hany, Bool.or_false, symbolsOfTerm_markers]

lemma symbolsOfTerm_choice (slash : Bool) {a : Alternative} (ha : a.isChoice = true)
    (t : List Alternative) :
    symbolsOfTerm slash (a :: t) =
      (if slash then [.slash] else []) ++ (a.symbols ++ symbolsOfTerm true t) := by
  rw [symbolsOfTerm, if_pos ha, List.append_assoc]

/-- A choice begins with a word or a parenthesis. -/
lemma exists_symbols_choice {a : Alternative} (ha : a.isChoice = true) :
    ∃ s ss, a.symbols = s :: ss ∧ (s = .opening ∨ ∃ w, s = .word w) := by
  cases a with
  | ability u =>
      obtain ⟨w, hw⟩ := exists_head_symbols u
      obtain ⟨ss, hss⟩ := List.head?_eq_some_iff.mp hw
      exact ⟨_, ss, by rw [Alternative.symbols, hss], .inr ⟨w, rfl⟩⟩
  | group steps o => exact ⟨_, _, by rw [Alternative.symbols]; rfl, .inl rfl⟩
  | marker text kind => cases ha

/-- A term consists of tooltips, a choice and more alternatives. -/
def HasChoice (t : Term) : Prop :=
  ∃ (texts : List String) (a : Alternative) (back : Term),
    t = texts.map (.marker ·) ++ a :: back ∧ a.isChoice = true

lemma HasChoice.append {t : Term} (h : HasChoice t) (t' : Term) : HasChoice (t ++ t') := by
  obtain ⟨texts, a, back, rfl, ha⟩ := h
  exact ⟨texts, a, back ++ t', by simp, ha⟩

lemma HasChoice.any {t : Term} (h : HasChoice t) : t.any Alternative.isChoice = true := by
  obtain ⟨texts, a, back, rfl, ha⟩ := h
  simp [ha]

/-- An operand is no marker. -/
lemma Descent.Reads.isChoice {first : Bool} {a : Alternative}
    (h : Reads rules (.operand first) ts a rest) : a.isChoice = true := by
  cases h <;> rfl

lemma Descent.Reads.hasChoice_alternative {first : Bool} {a : Term}
    (h : Reads rules (.alternative first) ts a rest) : HasChoice a := by
  cases h with
  | alternative ha =>
      obtain ⟨texts, htexts, -⟩ := exists_markers ts
      exact ⟨texts, _, _, by rw [htexts], ha.isChoice⟩

lemma Descent.Reads.hasChoice {first : Bool} {a : Term}
    (h : Reads rules (.term first) ts a rest) : HasChoice a := by
  cases h with
  | lastAlternative ha _ => exact ha.hasChoice_alternative
  | slash ha _ _ _ => exact ha.hasChoice_alternative.append _

/-- Behind an operand, a further choice of its term begins with a slash or a tooltip. -/
lemma HasChoice.head_symbols {t : Term} (h : HasChoice t) :
    ∃ s ss, symbolsOfTerm true t = s :: ss ∧ s.isWord = false := by
  obtain ⟨texts, a, back, rfl, ha⟩ := h
  rw [symbolsOfTerm_markers_append, symbolsOfTerm_choice _ ha]
  cases texts with
  | nil => exact ⟨_, _, rfl, rfl⟩
  | cons text texts => exact ⟨_, _, rfl, rfl⟩

/-- A term is legible behind a slash if it is at the beginning.  Its first tooltips come to stand
in front of the slash, where they follow an operand. -/
lemma legible_slash_term {t : Term} (ht : HasChoice t)
    (h : Legible names false (symbolsOfTerm false t ++ tail)) :
    Legible names true (symbolsOfTerm true t ++ tail) := by
  obtain ⟨texts, a, back, rfl, ha⟩ := ht
  obtain ⟨s, ss, hs, hstart⟩ := exists_symbols_choice ha
  have hne : ∀ text, s ≠ .tooltip text := by
    rcases hstart with rfl | ⟨w, rfl⟩ <;> simp
  -- what stands behind an operand may also stand at the beginning, behind the slash
  have hmove : ∀ (texts : List String) (b : Bool) (X : List Symbol),
      Legible names b (texts.map .tooltip ++ (s :: X)) →
        Legible names true (texts.map .tooltip ++ (.slash :: s :: X)) := by
    intro texts
    induction texts with
    | nil =>
        intro b X hX
        rw [List.map_nil, List.nil_append, legible_slash]
        cases b with
        | true => exact hX.of_behind hne
        | false => exact hX
    | cons text texts ih =>
        intro b X hX
        exact ⟨⟨hX.1.written, fun _ => rfl, fun _ _ => .inl rfl, by simp, by simp⟩,
          ih true X hX.2⟩
  rw [symbolsOfTerm_markers_append, symbolsOfTerm_choice _ ha, hs] at h ⊢
  simpa using hmove texts false _ (by simpa using h)

/-! ### What is read is legible -/

/-- Where the canonical symbols of a phrase may begin; `b` says whether they are behind an operand.
A phrase with tooltips around it begins at the beginning or behind an operator, and its tokens do
not begin with a tooltip behind an operand.  A bare operand may come behind a tooltip if it begins
with a word. -/
def Begins (behind : Bool) (ts : List Token) (b : Bool) : Phrase → Prop
  | .operand _ => b = true → behind = true ∧ ∃ w, Token.first? ts = some (.word w)
  | _ => b = false ∧ (behind = true → ∀ text, Token.first? ts ≠ some (.tooltip text))

lemma follows_arrow (h : Legible names false ss) : Follows names (.arrow :: ss) :=
  ⟨legible_arrow.mpr h, by simp⟩

lemma follows_plus (h : Legible names false ss) : Follows names (.plus :: ss) :=
  ⟨legible_plus.mpr h, by simp⟩

/-- Tooltips behind an operand can follow it. -/
lemma follows_tooltips {texts : List String}
    (h : Arranged (SuitsText names) true (texts.map .tooltip ++ ss)) (htail : Follows names tail) :
    Follows names (texts.map .tooltip ++ tail) := by
  induction texts with
  | nil => exact htail
  | cons text texts ih =>
      refine ⟨?_, by simp⟩
      rw [List.map_cons, List.cons_append, legible_tooltip h.1.written (.inl rfl)]
      exact (ih h.2).1

lemma exists_of_fusionAt? (hc : rules.catalog = Catalog.default) {first : Bool} {f : Fusion}
    (h : fusionAt? rules first ts = some f) :
    ∃ ms ≠ [], (∀ m ∈ ms, Catalog.Known m) ∧ f.modifiers = ms.map (·.key) ∧
      Catalog.graniteMaul.accepts f.target.key = true ∧ Fusion.slashFollows f.rest = false := by
  obtain ⟨ms, hne, hmods, hms⟩ := exists_chain_of_fusionAt? h
  have hknown : ∀ m ∈ ms, Catalog.Known m := by
    intro m hm
    obtain ⟨name, hname⟩ := (hms m hm).1
    rw [hc] at hname
    exact (Catalog.known_of_resolve hname).1
  obtain ⟨m, hm⟩ := List.exists_mem_of_ne_nil ms hne
  refine ⟨ms, hne, hknown, hmods, ?_, slashFollows_of_fusionAt? h⟩
  rw [Catalog.accepts_congr (.inl rfl) (hknown m hm)]
  exact (hms m hm).2

/-- An operand begins with a word or a parenthesis. -/
lemma Descent.Reads.first?_operand {first : Bool} {a : Alternative}
    (h : Reads rules (.operand first) ts a rest) :
    (∃ w, Token.first? ts = some (.word w)) ∧ (∃ u, a = .ability u) ∨
      Token.first? ts = some .opening := by
  cases h with
  | fused ht _ _ => exact .inl ⟨⟨_, by rw [Token.first?_cons, ht]⟩, _, rfl⟩
  | plain ht _ _ => exact .inl ⟨⟨_, by rw [Token.first?_cons, ht]⟩, _, rfl⟩
  | group ht _ _ _ => exact .inr (by rw [Token.first?_cons, ht])

/-- A tooltip that follows no operand has a word behind it, so that it is the only one in front of
an ability. -/
lemma Descent.Reads.of_tooltip {first : Bool} {a : Alternative} {text : String}
    {texts : List String} (ha : Reads rules (.operand first) (markers ts).2 a rest)
    (h : Arranged (SuitsText names) behind (Token.symbols ts)) (hbehind : behind ≠ true)
    (hts : Token.symbols ts = (text :: texts).map .tooltip ++ Token.symbols (markers ts).2) :
    texts = [] ∧ (∃ w, Token.first? (markers ts).2 = some (.word w)) ∧ ∃ u, a = .ability u := by
  rw [hts] at h
  have hnext := (h.1.tooltip text rfl).resolve_left hbehind
  cases texts with
  | cons text' texts => rcases hnext with hn | ⟨w, hn⟩ <;> cases hn
  | nil =>
      have hfirst : Token.first? (markers ts).2 = some .plus ∨
          ∃ w, Token.first? (markers ts).2 = some (.word w) := by
        rw [Token.first?_eq]
        exact hnext
      refine ⟨rfl, ha.first?_operand.resolve_right fun ho => ?_⟩
      rw [ho] at hfirst
      rcases hfirst with hn | ⟨w, hn⟩ <;> cases hn

/-- An alternative is legible if its operand is, wherever that may begin. -/
lemma Descent.Reads.legible_alternative {first b : Bool} {a : Alternative} {after : List Token}
    (ha : Reads rules (.operand first) (markers ts).2 a after)
    (h : Arranged (SuitsText names) behind (Token.symbols ts))
    (hb : Begins behind ts b (.alternative first)) (htail : Follows names tail)
    (ih : ∀ {behind : Bool} {tail : List Symbol} {b : Bool},
      Arranged (SuitsText names) behind (Token.symbols (markers ts).2) →
        Begins behind (markers ts).2 b (.operand first) → Follows names tail →
          Legible names b ((Phrase.operand first).symbols a ++ tail)) :
    Legible names b
      ((Phrase.alternative first).symbols ((markers ts).1 ++ a :: (markers after).1) ++ tail) := by
  obtain ⟨front, hfront, hts⟩ := exists_markers ts
  obtain ⟨back, hback, hafter⟩ := exists_markers after
  have hoperand := arranged_markers h
  have hrest := ha.arranged_rest hoperand
  rw [hafter] at hrest
  -- what is shown behind the operand begins with its tooltips
  have hend := follows_tooltips hrest htail
  show Legible names b (symbolsOfTerm false (_ ++ a :: _) ++ tail)
  rw [hfront, hback, symbolsOfTerm_markers_append, symbolsOfTerm_choice _ ha.isChoice,
    symbolsOfTerm_markers]
  obtain ⟨rfl, hb⟩ := hb
  cases front with
  | nil =>
      have hempty : (behind || !(markers ts).1.isEmpty) = behind := by simp [hfront]
      rw [hempty] at hoperand
      have hlegible := ih hoperand (b := false) (fun h => absurd h (by simp)) hend
      simpa [Phrase.symbols] using hlegible
  | cons text texts =>
      have hfirst : Token.first? ts = some (.tooltip text) := by
        rw [Token.first?_eq, hts]
        rfl
      obtain ⟨rfl, ⟨w, hw⟩, u, rfl⟩ := ha.of_tooltip h (fun hbt => hb hbt text hfirst) hts
      have htrue : (behind || !(markers ts).1.isEmpty) = true := by simp [hfront]
      rw [htrue] at hoperand
      have hlegible := ih hoperand (b := true) (fun _ => ⟨rfl, w, hw⟩) hend
      obtain ⟨v, hv⟩ := exists_head_symbols u
      rw [hts] at h
      have hcons : Legible names false
          (.tooltip text :: (u.symbols ++ (back.map .tooltip ++ tail))) := by
        rw [legible_tooltip h.1.written (.inr ⟨v, by simp [hv]⟩)]
        exact hlegible
      simpa [Alternative.symbols] using hcons

/-- Modifiers that are fused onto an ability are legible with it, wherever they begin. -/
lemma legible_of_fusionAt? (hc : rules.catalog = Catalog.default) {first b : Bool} {t : Token}
    {f : Fusion} {u : AbilityUse} (hf : fusionAt? rules first (t :: rest) = some f)
    (hu : AbilityUse.build f.target.key f.modifiers none f.target.label = .ok u)
    (h : Arranged (SuitsText names) behind (Token.symbols (t :: rest)))
    (htail : Follows names tail) : Legible names b (u.symbols ++ tail) := by
  obtain ⟨htarget, -⟩ := arranged_fusionAt? hf h
  obtain ⟨ms, hne, hms, hmods, -, -⟩ := exists_of_fusionAt? hc hf
  obtain ⟨-, -, rfl⟩ := AbilityUse.build_eq_ok_iff.mp hu
  have hword : Legible names false (.word f.target :: tail) :=
    (legible_word htarget (by simp)).mpr htail.1
  rw [AbilityUse.symbols, hmods, List.append_assoc]
  refine legible_modifiers hms hne ?_
  rw [show (⟨f.target.key, f.target.label⟩ : Word) = f.target from rfl, htarget.pieces]
  exact hword

/-- A word that is used as an ability, or several joined ones, are legible where a word may
begin. -/
lemma legible_of_plainUse {b : Bool} {t : Token} {w : Word} {u : AbilityUse}
    (ht : t.symbol = .word w) (hu : plainUse rules (plainWord rules w rest).1 = .ok u)
    (h : Arranged (SuitsText names) behind (Token.symbols (t :: rest)))
    (hb : b = true → behind = true) (htail : Follows names tail) :
    Legible names b (u.symbols ++ tail) := by
  obtain ⟨vs, hjoin, hplain, hvs⟩ := exists_plainWord rules w rest
  obtain ⟨-, -, rfl⟩ := AbilityUse.build_eq_ok_iff.mp hu
  have hwords : Arranged (SuitsText names) behind
      ((w :: vs).map .word ++ Token.symbols (plainWord rules w rest).2) := by
    rw [Token.symbols_cons, ht, hvs] at h
    exact h
  rw [hplain, symbols_of_words hwords hjoin]
  exact legible_words hwords (List.cons_ne_nil _ _) hb htail.1

/-- **The symbols of what is read are legible**, wherever they may begin, in front of what can
follow an operand. -/
theorem Descent.Reads.legible (hc : rules.catalog = Catalog.default) {p : Phrase} {v : p.Value}
    {b : Bool} (hr : Reads rules p ts v rest)
    (h : Arranged (SuitsText names) behind (Token.symbols ts)) (hb : Begins behind ts b p)
    (htail : Follows names tail) : Legible names b (p.symbols v ++ tail) := by
  -- by induction on the reading, for everything that may stand behind what is shown
  induction hr generalizing behind b tail with
  | lastStep _ _ _ ih =>
      simpa [Phrase.symbols, symbolsOfSteps, List.intercalate] using ih h hb htail
  | arrow hs _ ht _ hss ih1 ih2 =>
      have hrest := hs.arranged_behind ht h
      rw [symbols_expression_cons _ hss.steps_ne_nil, List.append_assoc]
      exact ih1 h hb (follows_arrow (ih2 hrest ⟨rfl, by simp [Symbol.endsOperand]⟩ htail))
  -- where no operator was written the rendering shows an arrow
  | gap hs _ ht _ hss ih1 ih2 =>
      have hrest := hs.arranged_rest h
      rw [symbols_expression_cons _ hss.steps_ne_nil, List.append_assoc]
      exact ih1 h hb (follows_arrow
        (ih2 hrest ⟨rfl, fun _ text => hs.first?_ne_tooltip (by simp) text⟩ htail))
  | lastTerm _ _ ih =>
      simpa [Phrase.symbols, symbolsOfStep, List.intercalate] using ih h hb htail
  | plus ha ht _ has ih1 ih2 =>
      have hrest := ha.arranged_behind ht h
      rw [symbols_terms_cons _ has.terms_ne_nil, List.append_assoc]
      exact ih1 h hb (follows_plus (ih2 hrest ⟨rfl, by simp [Symbol.endsOperand]⟩ htail))
  | lastAlternative _ _ ih => exact ih h hb htail
  | slash ha ht _ has ih1 ih2 =>
      have h2 := ih2 (ha.arranged_behind ht h) ⟨rfl, by simp [Symbol.endsOperand]⟩ htail
      show Legible names b (symbolsOfTerm false (_ ++ _) ++ tail)
      rw [symbolsOfTerm_append, ha.hasChoice_alternative.any, Bool.false_or, List.append_assoc]
      -- a slash comes before an operand, so no word is the first symbol behind the alternative
      refine ih1 h hb ⟨legible_slash_term has.hasChoice h2, fun w hw => ?_⟩
      obtain ⟨s, ss, hs, hword⟩ := has.hasChoice.head_symbols
      rw [hs, List.cons_append, List.head?_cons, Option.some.injEq] at hw
      rw [hw] at hword
      cases hword
  | alternative ha ih => exact ha.legible_alternative h hb htail ih
  | fused _ hf hu => exact legible_of_fusionAt? hc hf hu h htail
  | plain ht _ hu => exact legible_of_plainUse ht hu h (fun hbt => (hb hbt).1) htail
  | group ht hne hss hu ih =>
      have hinner := h.2
      have hrest := hss.arranged_rest hinner
      cases b with
      | true =>
          obtain ⟨-, w, hw⟩ := hb rfl
          rw [Token.first?_cons, ht] at hw
          cases hw
      | false =>
          have hclose : Follows names (.closing :: tail) :=
            ⟨(legible_closing htail.2).mpr htail.1, by simp⟩
          have hih := ih hinner ⟨rfl, by simp [ht, Symbol.endsOperand]⟩ hclose
          show Legible names false (Alternative.symbols _ ++ tail)
          rw [Alternative.symbols, List.append_assoc, List.cons_append, legible_opening]
          exact hih

end AbilityRotation
