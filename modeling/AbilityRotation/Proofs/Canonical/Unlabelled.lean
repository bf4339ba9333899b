import AbilityRotation.Proofs.Descent.Shape

/-!
Rotations without labels.

The canonical text without labels is that of a rotation whose occurrences have no labels
(`Rotation.unlabel`), and its symbols are those of the labelled one without their labels.
* `Rotation.render_unlabel` and `Rotation.symbols_unlabel` say so.
* `Legible.unlabel`: symbols stay legible without labels.
* `Symbol.Joins`: in canonical text, a word stands right behind another only if it is joined to it
  (`isChain_symbols`).
-/

namespace AbilityRotation

open Descent

/-! ### Taking labels away -/

/-- A symbol without its label. -/
def Symbol.unlabel : Symbol → Symbol
  | .word w => .word ⟨w.key, none⟩
  | s => s

/-- A token without its label. -/
def Token.unlabel (t : Token) : Token :=
  { t with symbol := t.symbol.unlabel }

/-- An occurrence without its label and its settings. -/
def AbilityUse.unlabel (u : AbilityUse) : AbilityUse :=
  { u with overrides := none, label := none }

/-- Steps without the labels and the settings of occurrences. -/
def withoutLabels (steps : List Step) : List Step :=
  mapUsesOfSteps AbilityUse.unlabel steps

/-- A rotation without the labels and the settings of occurrences. -/
def Rotation.unlabel (r : Rotation) : Rotation :=
  ⟨withoutLabels r.steps, r.abilityOverrides⟩

namespace Symbol

@[simp] lemma endsOperand_unlabel (s : Symbol) : s.unlabel.endsOperand = s.endsOperand := by
  cases s <;> rfl

@[simp] lemma startsOperand_unlabel (s : Symbol) : s.unlabel.startsOperand = s.startsOperand := by
  cases s <;> rfl

@[simp] lemma isSpec_unlabel (s : Symbol) : Token.isSpec s.unlabel = Token.isSpec s := by
  cases s <;> rfl

lemma Written.unlabel {names : List String} {s : Symbol} (h : s.Written names) :
    s.unlabel.Written names := by
  cases s with
  | word w => exact ⟨h.1, by simp⟩
  | _ => exact h

/-- No other symbol than a word changes. -/
lemma unlabel_eq_iff {s s' : Symbol} (hs : ∀ w, s' ≠ .word w) : s.unlabel = s' ↔ s = s' := by
  cases s with
  | word w => exact ⟨fun h => absurd h.symm (hs _), fun h => absurd h.symm (hs _)⟩
  | _ => rfl

end Symbol

/-! ### The text without labels -/

mutual

lemma Alternative.chars_unlabel :
    ∀ a : Alternative, (a.mapUses AbilityUse.unlabel).chars true = a.chars false
  | .ability u => by
      rw [Alternative.mapUses, Alternative.chars, Alternative.chars]
      cases u
      rfl
  | .marker _ _ => rfl
  | .group steps _ => by
      rw [Alternative.mapUses, Alternative.chars, Alternative.chars, charsOfSteps_unlabel steps]

lemma charsOfTerm_unlabel (slash : Bool) :
    ∀ t : List Alternative,
      charsOfTerm true slash (mapUsesOfTerm AbilityUse.unlabel t) = charsOfTerm false slash t
  | [] => by rw [mapUsesOfTerm, charsOfTerm, charsOfTerm]
  | a :: rest => by
      rw [mapUsesOfTerm, charsOfTerm, charsOfTerm, isChoice_mapUses, a.chars_unlabel,
        charsOfTerm_unlabel true rest, charsOfTerm_unlabel slash rest]

lemma charsOfStep_unlabel :
    ∀ s : List (List Alternative),
      charsOfStep true (mapUsesOfStep AbilityUse.unlabel s) = charsOfStep false s
  | [] => by rw [mapUsesOfStep, charsOfStep, charsOfStep]
  | t :: rest => by
      rw [mapUsesOfStep, charsOfStep, charsOfStep, charsOfTerm_unlabel, charsOfStep_unlabel rest]

lemma charsOfSteps_unlabel :
    ∀ ss : List (List (List Alternative)),
      charsOfSteps true (mapUsesOfSteps AbilityUse.unlabel ss) = charsOfSteps false ss
  | [] => by rw [mapUsesOfSteps, charsOfSteps, charsOfSteps]
  | s :: rest => by
      rw [mapUsesOfSteps, charsOfSteps, charsOfSteps, charsOfStep_unlabel,
        charsOfSteps_unlabel rest]

end

/-- The text without labels is that of the rotation without labels. -/
theorem Rotation.render_unlabel (r : Rotation) : r.unlabel.render true = r.render false := by
  rw [Rotation.render, Rotation.render, Rotation.chars, Rotation.chars, Rotation.unlabel,
    withoutLabels, charsOfSteps_unlabel]

/-! ### The symbols without labels -/

lemma labelLast_none (label : Option String) (parts : List (List Char)) :
    (labelLast none parts).map .word = ((labelLast label parts).map .word).map Symbol.unlabel := by
  induction parts with
  | nil => rfl
  | cons cs parts ih =>
      cases parts with
      | nil => rfl
      | cons ds parts =>
          rw [labelLast, labelLast, List.map_cons, List.map_cons, List.map_cons, ih]
          rfl

lemma AbilityUse.symbols_unlabel (u : AbilityUse) :
    u.unlabel.symbols = u.symbols.map Symbol.unlabel := by
  have hmodifiers : (u.modifiers.flatMap fun m => [Symbol.word ⟨m, none⟩, .plus]) =
      (u.modifiers.flatMap fun m => [Symbol.word ⟨m, none⟩, .plus]).map Symbol.unlabel := by
    induction u.modifiers with
    | nil => rfl
    | cons m ms ih => simpa [Symbol.unlabel] using ih
  rw [AbilityUse.symbols, AbilityUse.symbols, List.map_append, ← hmodifiers]
  exact congrArg _ (labelLast_none u.label _)

lemma map_intercalate {α β : Type} (f : α → β) (x : α) (parts : List (List α)) :
    ([x].intercalate parts).map f = [f x].intercalate (parts.map (List.map f)) := by
  induction parts with
  | nil => rfl
  | cons a parts ih =>
      cases parts with
      | nil => simp [List.intercalate]
      | cons b parts =>
          rw [List.intercalate_cons_cons, List.map_append, ih]
          simp [List.intercalate_cons_cons]

mutual

lemma Alternative.symbols_unlabel :
    ∀ a : Alternative, (a.mapUses AbilityUse.unlabel).symbols = a.symbols.map Symbol.unlabel
  | .ability u => by
      rw [Alternative.mapUses, Alternative.symbols, Alternative.symbols, u.symbols_unlabel]
  | .marker _ _ => rfl
  | .group steps _ => by
      rw [Alternative.mapUses, Alternative.symbols, Alternative.symbols, symbolsOfSteps_unlabel,
        List.map_append, List.map_cons, map_intercalate]
      rfl

lemma symbolsOfTerm_unlabel (slash : Bool) :
    ∀ t : List Alternative, symbolsOfTerm slash (mapUsesOfTerm AbilityUse.unlabel t) =
      (symbolsOfTerm slash t).map Symbol.unlabel
  | [] => by rw [mapUsesOfTerm, symbolsOfTerm]; rfl
  | a :: rest => by
      rw [mapUsesOfTerm, symbolsOfTerm, symbolsOfTerm, isChoice_mapUses, a.symbols_unlabel,
        symbolsOfTerm_unlabel true rest, symbolsOfTerm_unlabel slash rest]
      split
      · cases slash <;> simp [Symbol.unlabel]
      · simp

lemma symbolsOfStep_unlabel :
    ∀ s : List (List Alternative), symbolsOfStep (mapUsesOfStep AbilityUse.unlabel s) =
      (symbolsOfStep s).map (List.map Symbol.unlabel)
  | [] => by rw [mapUsesOfStep, symbolsOfStep]; rfl
  | t :: rest => by
      rw [mapUsesOfStep, symbolsOfStep, symbolsOfStep, symbolsOfTerm_unlabel,
        symbolsOfStep_unlabel rest]
      rfl

lemma symbolsOfSteps_unlabel :
    ∀ ss : List (List (List Alternative)),
      symbolsOfSteps (mapUsesOfSteps AbilityUse.unlabel ss) =
        (symbolsOfSteps ss).map (List.map Symbol.unlabel)
  | [] => by rw [mapUsesOfSteps, symbolsOfSteps]; rfl
  | s :: rest => by
      rw [mapUsesOfSteps, symbolsOfSteps, symbolsOfSteps, symbolsOfStep_unlabel,
        symbolsOfSteps_unlabel rest, List.map_cons, map_intercalate]
      rfl

end

/-- The symbols without labels are those of the rotation without labels. -/
theorem Rotation.symbols_unlabel (r : Rotation) :
    r.unlabel.symbols = r.symbols.map Symbol.unlabel := by
  rw [Rotation.symbols, Rotation.symbols, Rotation.unlabel, withoutLabels, symbolsOfSteps_unlabel,
    map_intercalate]
  rfl

lemma tooltips_unlabel (ss : List Symbol) : tooltips (ss.map Symbol.unlabel) = tooltips ss := by
  induction ss with
  | nil => rfl
  | cons s ss ih =>
      rw [List.map_cons, tooltips_cons, tooltips_cons, ih]
      cases s <;> rfl

/-! ### Arrangement -/

/-- What suits its place still does after a change that keeps where operands end. -/
lemma Arranged.map {suits suits' : Bool → Symbol → Option Symbol → Prop} {f : Symbol → Symbol}
    (hends : ∀ s, (f s).endsOperand = s.endsOperand)
    (hsuits : ∀ b s next, suits b s next → suits' b (f s) (next.map f)) {behind : Bool}
    {ss : List Symbol} (h : Arranged suits behind ss) : Arranged suits' behind (ss.map f) := by
  induction ss generalizing behind with
  | nil => trivial
  | cons s ss ih =>
      refine ⟨?_, ?_⟩
      · rw [List.head?_map]
        exact hsuits _ _ _ h.1
      · rw [hends]
        exact ih h.2

variable {names : List String} {behind : Bool} {ss : List Symbol}

/-- Symbols stay legible without labels. -/
lemma Legible.unlabel (h : Legible names behind ss) :
    Legible names behind (ss.map Symbol.unlabel) := by
  have hword : ∀ (next : Option Symbol) (w : Word), next.map Symbol.unlabel = some (.word w) ↔
      ∃ v, next = some (.word v) ∧ w = ⟨v.key, none⟩ := by
    intro next w
    rcases next with _ | s
    · simp
    · cases s <;> simp [Symbol.unlabel, eq_comm]
  refine Arranged.map Symbol.endsOperand_unlabel (fun b s next hs => ?_) h
  refine ⟨hs.written.unlabel, fun hb => by rw [Symbol.isSpec_unlabel, hs.spec hb], ?_, ?_, ?_⟩
  · intro text htext
    rw [Symbol.unlabel_eq_iff (by simp)] at htext
    rcases hs.tooltip text htext with hb | ⟨w, hw⟩
    · exact .inl hb
    · exact .inr ⟨⟨w.key, none⟩, (hword next _).mpr ⟨w, hw, rfl⟩⟩
  · intro hopen
    rw [Symbol.unlabel_eq_iff (by simp)] at hopen
    exact hs.opening hopen
  · intro hclose w hw
    rw [Symbol.unlabel_eq_iff (by simp)] at hclose
    obtain ⟨v, hv, -⟩ := (hword next w).mp hw
    exact hs.closing hclose v hv

/-- Canonical text is arranged as texts are. -/
lemma Legible.arranged (h : Legible names behind ss) : Arranged (SuitsText names) behind ss := by
  have harr : Arranged (SuitsText names) behind (ss.map id) := by
    refine Arranged.map (f := id) (fun _ => rfl) (fun b s next hs => ?_) h
    rw [Option.map_id]
    exact ⟨hs.written, hs.spec, fun text ht => (hs.tooltip text ht).imp_right .inr⟩
  rwa [List.map_id] at harr

/-! ### Neighbouring words -/

/-- Whether a symbol may stand right behind another as far as words are concerned: a word behind a
word is joined to it. -/
def Symbol.Joins (mode : AdjacentWords) (s next : Symbol) : Prop :=
  ∀ w v, s = .word w → next = .word v → mode = .join ∧ w.label = none

lemma isChain_intercalate {mode : AdjacentWords} {s : Symbol} (hs : ∀ w, s ≠ .word w)
    {parts : List (List Symbol)} (h : ∀ part ∈ parts, part.IsChain (Symbol.Joins mode)) :
    ([s].intercalate parts).IsChain (Symbol.Joins mode) := by
  induction parts with
  | nil => exact .nil
  | cons a parts ih =>
      have ha := h a List.mem_cons_self
      have hparts := ih fun part hpart => h part (List.mem_cons_of_mem _ hpart)
      cases parts with
      | nil => simpa [List.intercalate] using ha
      | cons b parts =>
          rw [List.intercalate_cons_cons, List.append_assoc, List.isChain_append]
          refine ⟨ha, ?_, fun x _ y hy w v _ hv => ?_⟩
          · rw [List.singleton_append, List.isChain_cons]
            exact ⟨fun y _ w v hw _ => absurd hw (hs w), hparts⟩
          · rw [List.singleton_append, List.head?_cons, Option.mem_def, Option.some.injEq] at hy
            exact absurd (hy.trans hv) (hs v)

lemma isChain_labelLast (label : Option String) (parts : List (List Char)) :
    ((labelLast label parts).map Symbol.word).IsChain (Symbol.Joins .join) := by
  induction parts with
  | nil => exact .nil
  | cons cs parts ih =>
      cases parts with
      | nil => exact .singleton _
      | cons ds parts =>
          rw [labelLast, List.map_cons, List.isChain_cons]
          refine ⟨fun y _ w v hw _ => ⟨rfl, ?_⟩, ih⟩
          cases hw
          rfl

lemma isChain_modifiers {mode : AdjacentWords} (ms : List String) {ss : List Symbol}
    (h : ss.IsChain (Symbol.Joins mode)) :
    ((ms.flatMap fun m => [Symbol.word ⟨m, none⟩, .plus]) ++ ss).IsChain (Symbol.Joins mode) := by
  induction ms with
  | nil => exact h
  | cons m ms ih =>
      rw [List.flatMap_cons, List.append_assoc, List.cons_append, List.cons_append,
        List.nil_append, List.isChain_cons_cons, List.isChain_cons]
      exact ⟨fun w v _ hv => (by cases hv), fun y _ w v hw _ => (by cases hw), ih⟩

/-- The words of an ability are joined, or there is only one behind the modifiers. -/
lemma AbilityUse.isChain_symbols {mode : AdjacentWords} (u : AbilityUse)
    (h : mode = .join ∨ ' ' ∉ u.key.toList) : u.symbols.IsChain (Symbol.Joins mode) := by
  refine isChain_modifiers u.modifiers ?_
  rcases h with rfl | h
  · exact isChain_labelLast u.label _
  · rw [Word.pieces_of_spaceless h]
    exact .singleton _

mutual

lemma Alternative.isChain_symbols {mode : AdjacentWords} :
    ∀ a : Alternative, (∀ u ∈ a.abilities, mode = .join ∨ ' ' ∉ u.key.toList) →
      a.symbols.IsChain (Symbol.Joins mode)
  | .ability u, h => by
      rw [Alternative.symbols]
      exact u.isChain_symbols (h u (List.mem_singleton.mpr rfl))
  | .marker _ _, _ => .singleton _
  | .group steps _, h => by
      rw [Alternative.symbols, List.isChain_append, List.isChain_cons]
      refine ⟨⟨fun y _ w v hw _ => (by cases hw), ?_⟩, .singleton _, fun x _ y hy w v _ hv => ?_⟩
      · exact isChain_intercalate (by simp) (isChain_symbolsOfSteps steps h)
      · rw [List.head?_cons, Option.mem_def, Option.some.injEq] at hy
        cases hy.trans hv

lemma isChain_symbolsOfTerm {mode : AdjacentWords} (slash : Bool) :
    ∀ t : List Alternative, (∀ u ∈ abilitiesOfTerm t, mode = .join ∨ ' ' ∉ u.key.toList) →
      (symbolsOfTerm slash t).IsChain (Symbol.Joins mode)
  | [], _ => by
      rw [symbolsOfTerm]
      exact .nil
  | a :: rest, h => by
      have ha := a.isChain_symbols fun u hu => h u (List.mem_append_left _ hu)
      have hrest := fun slash =>
        isChain_symbolsOfTerm slash rest fun u hu => h u (List.mem_append_right _ hu)
      rw [symbolsOfTerm]
      split
      -- behind a choice the next one is shown with its slash, so no word follows
      · have hnext : ∀ y ∈ (symbolsOfTerm true rest).head?, ∀ v, y ≠ .word v := by
          rintro y hy v rfl
          have hhead := head?_symbolsOfTerm_true rest
          rw [Option.mem_def.mp hy] at hhead
          cases hhead
        rw [List.append_assoc, List.isChain_append, List.isChain_append]
        refine ⟨by cases slash <;> simp, ⟨ha, hrest true, ?_⟩, ?_⟩
        · exact fun x _ y hy w v _ hv => absurd hv (hnext y hy v)
        · rintro x hx y - w v rfl -
          cases slash <;> simp at hx
      · next hchoice =>
          rw [List.isChain_append]
          refine ⟨ha, hrest slash, ?_⟩
          cases a with
          | marker text kind =>
              rintro x hx y - w v rfl -
              simp [Alternative.symbols] at hx
          | _ => exact absurd rfl hchoice

lemma isChain_symbolsOfStep {mode : AdjacentWords} :
    ∀ s : List (List Alternative), (∀ u ∈ abilitiesOfStep s, mode = .join ∨ ' ' ∉ u.key.toList) →
      ∀ part ∈ symbolsOfStep s, part.IsChain (Symbol.Joins mode)
  | [], _ => by simp [symbolsOfStep]
  | t :: rest, h => by
      rw [symbolsOfStep]
      exact List.forall_mem_cons.mpr
        ⟨isChain_symbolsOfTerm false t fun u hu => h u (List.mem_append_left _ hu),
          isChain_symbolsOfStep rest fun u hu => h u (List.mem_append_right _ hu)⟩

lemma isChain_symbolsOfSteps {mode : AdjacentWords} :
    ∀ ss : List (List (List Alternative)),
      (∀ u ∈ abilitiesOfSteps ss, mode = .join ∨ ' ' ∉ u.key.toList) →
        ∀ part ∈ symbolsOfSteps ss, part.IsChain (Symbol.Joins mode)
  | [], _ => by simp [symbolsOfSteps]
  | s :: rest, h => by
      rw [symbolsOfSteps]
      exact List.forall_mem_cons.mpr
        ⟨isChain_intercalate (by simp)
            (isChain_symbolsOfStep s fun u hu => h u (List.mem_append_left _ hu)),
          isChain_symbolsOfSteps rest fun u hu => h u (List.mem_append_right _ hu)⟩

end

/-- In canonical text, a word right behind a word is joined to it. -/
theorem Rotation.isChain_symbols {mode : AdjacentWords} (r : Rotation)
    (h : ∀ u ∈ r.abilities, mode = .join ∨ ' ' ∉ u.key.toList) :
    r.symbols.IsChain (Symbol.Joins mode) :=
  isChain_intercalate (by simp) (isChain_symbolsOfSteps r.steps h)

end AbilityRotation
