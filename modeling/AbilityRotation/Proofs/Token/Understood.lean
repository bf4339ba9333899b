import AbilityRotation.Proofs.Token.Insertion

/-!
Which tokens are understood.

The tokens of a text are those that are written in it, and others that follow from their
surroundings: arrows for line breaks and pluses in front of `spec`.
* `Token.IsBoundary`: a maximal run of line breaks between two operands.
* `Token.Understood`: how tokens come of lexemes.  All lexemes but line breaks are among them, and
  what is understood stands exactly at such boundaries and in front of `spec` behind an operand.
* `exists_ofLexemes_append`: the tokens in front of a symbol do not depend on what comes behind it.
* `exists_of_implicit_ofLexemes`, `exists_of_implicit`: where an understood token comes from.
* `Understood.unique`: lexemes determine what is understood.
* `understood_ofChars`: the tokens of a text come of its lexemes in this way.
-/

namespace AbilityRotation

namespace Token

variable {names : List String} {cs : List Char} {b : Option Symbol} {s : Symbol}
  {ls front more back : List Lexeme} {l : Lexeme} {ts u v : List Token} {t w : Token}

/-! ### What is written -/

/-- The tokens of lexemes other than line breaks. -/
def written (ls : List Lexeme) : List Token :=
  ls.filterMap fun l => l.symbol.map fun s => ⟨s, l.start, false⟩

/-- Tokens without those that are understood. -/
def withoutUnderstood (ts : List Token) : List Token :=
  ts.filter fun t => !t.implicit

/-- Whether an operand ends with the last of the tokens. -/
def endsOperand (ts : List Token) : Bool :=
  ts.getLast?.any (·.symbol.endsOperand)

/-- A maximal run of line breaks, the first of which is `b`, between two operands. -/
structure IsBoundary (front : List Lexeme) (b : Lexeme) (more back : List Lexeme) : Prop where
  /-- The lexemes of the run are line breaks. -/
  breaks : ∀ l ∈ b :: more, l.symbol = none
  /-- An operand ends right in front of them. -/
  before : ∃ l ∈ front.getLast?, ∃ s ∈ l.symbol, s.endsOperand = true
  /-- An operand begins right behind them. -/
  after : ∃ l ∈ back.head?, ∃ s ∈ l.symbol, s.startsOperand = true

/-- How tokens come of lexemes. -/
structure Understood (ls : List Lexeme) (ts : List Token) : Prop where
  /-- What is written are the lexemes other than line breaks. -/
  written : withoutUnderstood ts = written ls
  /-- In the place of line breaks between two operands there is one token, an arrow. -/
  arrow : ∀ front b more back, ls = front ++ b :: more ++ back → IsBoundary front b more back →
    ∃ u v, ts = u ++ ⟨.arrow, b.start, true⟩ :: v ∧ withoutUnderstood u = Token.written front ∧
      u.getLast? = (Token.written front).getLast? ∧ v.head? = (Token.written back).head?
  /-- In front of `spec` there is a plus, if an operand ends before it. -/
  plus : ∀ front l back s, ls = front ++ l :: back → l.symbol = some s → isSpec s = true →
    ∃ u v, ts = u ++ (if endsOperand u then [⟨.plus, l.start, true⟩] else []) ++
      ⟨s, l.start, false⟩ :: v ∧ withoutUnderstood u = Token.written front
  /-- What is understood is one of these. -/
  implicit : ∀ u t v, ts = u ++ t :: v → t.implicit = true →
    (∃ front b more back, ls = front ++ b :: more ++ back ∧ IsBoundary front b more back ∧
      t = ⟨.arrow, b.start, true⟩ ∧ withoutUnderstood u = Token.written front) ∨
    ∃ w rest, v = w :: rest ∧ w.implicit = false ∧ isSpec w.symbol = true ∧
      endsOperand u = true ∧ t = ⟨.plus, w.pos, true⟩

lemma written_append (front back : List Lexeme) :
    written (front ++ back) = written front ++ written back :=
  List.filterMap_append

lemma written_cons_symbol (hl : l.symbol = some s) (ls : List Lexeme) :
    written (l :: ls) = ⟨s, l.start, false⟩ :: written ls := by
  rw [written, List.filterMap_cons, hl]
  rfl

lemma written_cons_break (hl : l.symbol = none) (ls : List Lexeme) :
    written (l :: ls) = written ls := by
  rw [written, List.filterMap_cons, hl]
  rfl

lemma withoutUnderstood_append (u v : List Token) :
    withoutUnderstood (u ++ v) = withoutUnderstood u ++ withoutUnderstood v :=
  List.filter_append u v

lemma withoutUnderstood_cons_implicit (ht : t.implicit = true) (ts : List Token) :
    withoutUnderstood (t :: ts) = withoutUnderstood ts := by
  rw [withoutUnderstood, List.filter_cons_of_neg (by simp [ht]), withoutUnderstood]

lemma withoutUnderstood_cons (ht : t.implicit = false) (ts : List Token) :
    withoutUnderstood (t :: ts) = t :: withoutUnderstood ts := by
  rw [withoutUnderstood, List.filter_cons_of_pos (by simp [ht]), withoutUnderstood]

/-! ### Line breaks -/

lemma ofLexemes_cons_symbol (hl : l.symbol = some s) (ls : List Lexeme) :
    ofLexemes b (l :: ls) = ⟨s, l.start, false⟩ :: ofLexemes (some s) ls := by
  obtain ⟨_, start, stop⟩ := l
  obtain rfl : _ = some s := hl
  rw [ofLexemes]

lemma ofLexemes_cons_break (hl : l.symbol = none) (ls : List Lexeme) :
    ofLexemes b (l :: ls) =
      if b.any Symbol.endsOperand && (nextSymbol? ls).any Symbol.startsOperand then
        ⟨.arrow, l.start, true⟩ :: ofLexemes (some .arrow) ls
      else ofLexemes b ls := by
  obtain ⟨_, start, stop⟩ := l
  obtain rfl : _ = none := hl
  rw [ofLexemes]

lemma nextSymbol?_cons_symbol (hl : l.symbol = some s) (ls : List Lexeme) :
    nextSymbol? (l :: ls) = some s := by
  obtain ⟨_, start, stop⟩ := l
  obtain rfl : _ = some s := hl
  rw [nextSymbol?]

lemma nextSymbol?_cons_break (hl : l.symbol = none) (ls : List Lexeme) :
    nextSymbol? (l :: ls) = nextSymbol? ls := by
  obtain ⟨_, start, stop⟩ := l
  obtain rfl : _ = none := hl
  rw [nextSymbol?]

/-- The next symbol does not depend on what comes behind it. -/
lemma nextSymbol?_append (hl : l.symbol = some s) (front back back' : List Lexeme) :
    nextSymbol? (front ++ l :: back) = nextSymbol? (front ++ l :: back') := by
  induction front with
  | nil =>
      rw [List.nil_append, List.nil_append, nextSymbol?_cons_symbol hl,
        nextSymbol?_cons_symbol hl]
  | cons f front ih =>
      rw [List.cons_append, List.cons_append]
      cases hf : f.symbol with
      | none => rw [nextSymbol?_cons_break hf, nextSymbol?_cons_break hf, ih]
      | some s' => rw [nextSymbol?_cons_symbol hf, nextSymbol?_cons_symbol hf]

/-- The next symbol is that of the first lexeme behind line breaks. -/
lemma exists_of_nextSymbol? (h : nextSymbol? ls = some s) :
    ∃ more l back, ls = more ++ l :: back ∧ (∀ b ∈ more, b.symbol = none) ∧
      l.symbol = some s := by
  induction ls with
  | nil => cases h
  | cons l ls ih =>
      cases hl : l.symbol with
      | none =>
          rw [nextSymbol?_cons_break hl] at h
          obtain ⟨more, l', back, rfl, hmore, hl'⟩ := ih h
          exact ⟨l :: more, l', back, rfl, List.forall_mem_cons.mpr ⟨hl, hmore⟩, hl'⟩
      | some s' =>
          rw [nextSymbol?_cons_symbol hl] at h
          exact ⟨[], l, ls, rfl, by simp, hl.trans h⟩

lemma nextSymbol?_append_breaks (hmore : ∀ l ∈ more, l.symbol = none) (back : List Lexeme) :
    nextSymbol? (more ++ back) = nextSymbol? back := by
  induction more with
  | nil => rfl
  | cons l more ih =>
      obtain ⟨hl, hmore⟩ := List.forall_mem_cons.mp hmore
      rw [List.cons_append, nextSymbol?_cons_break hl, ih hmore]

/-- Where no operand ends before them, line breaks vanish. -/
lemma ofLexemes_breaks (hmore : ∀ l ∈ more, l.symbol = none)
    (hb : b.any Symbol.endsOperand = false) (back : List Lexeme) :
    ofLexemes b (more ++ back) = ofLexemes b back := by
  induction more with
  | nil => rfl
  | cons l more ih =>
      obtain ⟨hl, hmore⟩ := List.forall_mem_cons.mp hmore
      rw [List.cons_append, ofLexemes_cons_break hl, hb, Bool.false_and,
        if_neg Bool.false_ne_true, ih hmore]

/-- The tokens in front of a symbol do not depend on what comes behind it. -/
lemma exists_ofLexemes_append (hl : l.symbol = some s) (b : Option Symbol)
    (front : List Lexeme) :
    ∃ u, withoutUnderstood u = written front ∧ ∀ back,
      ofLexemes b (front ++ l :: back) = u ++ ⟨s, l.start, false⟩ :: ofLexemes (some s) back := by
  induction front generalizing b with
  | nil => exact ⟨[], rfl, fun back => ofLexemes_cons_symbol hl back⟩
  | cons f front ih =>
      cases hf : f.symbol with
      | some s' =>
          obtain ⟨u, hu, happend⟩ := ih (some s')
          refine ⟨⟨s', f.start, false⟩ :: u, ?_, fun back => ?_⟩
          · rw [withoutUnderstood_cons rfl, hu, written_cons_symbol hf]
          · rw [List.cons_append, ofLexemes_cons_symbol hf, happend, List.cons_append]
      | none =>
          rw [written_cons_break hf]
          by_cases hb : (b.any Symbol.endsOperand &&
              (nextSymbol? (front ++ [l])).any Symbol.startsOperand) = true
          · obtain ⟨u, hu, happend⟩ := ih (some .arrow)
            refine ⟨⟨.arrow, f.start, true⟩ :: u, ?_, fun back => ?_⟩
            · rw [withoutUnderstood_cons_implicit rfl, hu]
            · rw [List.cons_append, ofLexemes_cons_break hf, nextSymbol?_append hl front back [],
                if_pos hb, happend, List.cons_append]
          · obtain ⟨u, hu, happend⟩ := ih b
            refine ⟨u, hu, fun back => ?_⟩
            rw [List.cons_append, ofLexemes_cons_break hf, nextSymbol?_append hl front back [],
              if_neg hb, happend]

/-- Where an arrow is understood: in the place of line breaks between two operands. -/
lemma exists_of_implicit_ofLexemes (h : ofLexemes b ls = u ++ t :: v) (ht : t.implicit = true) :
    ∃ front l back, ls = front ++ l :: back ∧ l.symbol = none ∧ t = ⟨.arrow, l.start, true⟩ ∧
      withoutUnderstood u = written front ∧
        (nextSymbol? back).any Symbol.startsOperand = true ∧
          (front = [] ∧ b.any Symbol.endsOperand = true ∨
            ∃ l ∈ front.getLast?, ∃ s ∈ l.symbol, s.endsOperand = true) := by
  induction ls generalizing b u with
  | nil => cases u <;> cases h
  | cons f ls ih =>
      cases hf : f.symbol with
      | some s =>
          rw [ofLexemes_cons_symbol hf] at h
          cases u with
          | nil =>
              obtain ⟨rfl, -⟩ := List.cons.inj h
              cases ht
          | cons u' u =>
              obtain ⟨rfl, hrest⟩ := List.cons.inj h
              obtain ⟨front, l, back, rfl, hl, ht, hu, hafter, hbefore⟩ := ih hrest
              refine ⟨f :: front, l, back, rfl, hl, ht, ?_, hafter, .inr ?_⟩
              · rw [withoutUnderstood_cons rfl, hu, written_cons_symbol hf]
              · rcases hbefore with ⟨rfl, hs⟩ | ⟨l', hl', hs⟩
                · exact ⟨f, rfl, s, hf, hs⟩
                · exact ⟨l', List.mem_getLast?_cons hl', hs⟩
      | none =>
          rw [ofLexemes_cons_break hf] at h
          split at h
          · next hb =>
              rw [Bool.and_eq_true] at hb
              cases u with
              | nil =>
                  obtain ⟨rfl, -⟩ := List.cons.inj h
                  exact ⟨[], f, ls, rfl, hf, rfl, rfl, hb.2, .inl ⟨rfl, hb.1⟩⟩
              | cons u' u =>
                  obtain ⟨rfl, hrest⟩ := List.cons.inj h
                  obtain ⟨front, l, back, rfl, hl, ht, hu, hafter, hbefore⟩ := ih hrest
                  refine ⟨f :: front, l, back, rfl, hl, ht, ?_, hafter, .inr ?_⟩
                  · rw [withoutUnderstood_cons_implicit rfl, hu, written_cons_break hf]
                  · rcases hbefore with ⟨-, hs⟩ | ⟨l', hl', hs⟩
                    · cases hs
                    · exact ⟨l', List.mem_getLast?_cons hl', hs⟩
          · next hb =>
              obtain ⟨front, l, back, rfl, hl, ht, hu, hafter, hbefore⟩ := ih h
              refine ⟨f :: front, l, back, rfl, hl, ht, ?_, hafter, .inr ?_⟩
              · rw [hu, written_cons_break hf]
              · rcases hbefore with ⟨rfl, hs⟩ | ⟨l', hl', hs⟩
                · -- the line break in front would have been an arrow already
                  rw [List.nil_append, nextSymbol?_cons_break hl, hs, hafter] at hb
                  exact absurd rfl hb
                · exact ⟨l', List.mem_getLast?_cons hl', hs⟩

/-! ### Pluses -/

lemma withoutUnderstood_understoodPlus (b : Option Symbol) (t : Token) :
    withoutUnderstood (understoodPlus b t) = [] := by
  rw [understoodPlus]
  split <;> rfl

lemma withoutUnderstood_insertPluses (b : Option Symbol) (ts : List Token) :
    withoutUnderstood (insertPluses b ts) = withoutUnderstood ts := by
  induction ts generalizing b with
  | nil => rfl
  | cons t ts ih =>
      rw [insertPluses_cons, withoutUnderstood_append, withoutUnderstood_understoodPlus,
        List.nil_append, ← List.singleton_append, withoutUnderstood_append, ih,
        ← withoutUnderstood_append, List.singleton_append]

lemma getLast?_symbols_or_none (ts : List Token) :
    ((symbols ts).getLast?.or none).any Symbol.endsOperand = endsOperand ts := by
  rw [Option.or_none, endsOperand, symbols, List.getLast?_map, Option.any_map]

lemma endsOperand_insertPluses (b : Option Symbol) (ts : List Token) :
    endsOperand (insertPluses b ts) = endsOperand ts := by
  rw [endsOperand, getLast?_insertPluses, endsOperand]

/-- No plus is understood around an arrow. -/
lemma insertPluses_arrow (b : Option Symbol) (u v : List Token) (n : ℕ) (t : Token) :
    insertPluses b (u ++ ⟨.arrow, n, true⟩ :: t :: v) =
      insertPluses b u ++ ⟨.arrow, n, true⟩ :: t :: insertPluses (some t.symbol) v := by
  have hplus : understoodPlus (some .arrow) t = [] := by
    rw [understoodPlus, if_neg (by simp [Symbol.endsOperand])]
  rw [insertPluses_append, insertPluses_cons, insertPluses_cons, hplus]
  rfl

/-! ### What is understood is determined -/

/-- Tokens that begin alike at each place are the same. -/
lemma eq_of_forall_head?_eq {ts ts' : List Token}
    (h : ∀ u v v', ts = u ++ v → ts' = u ++ v' → v.head? = v'.head?) : ts = ts' := by
  induction ts generalizing ts' with
  | nil => exact (List.head?_eq_none_iff.mp (h [] [] ts' rfl rfl).symm).symm
  | cons t ts ih =>
      obtain ⟨ts', rfl⟩ := List.head?_eq_some_iff.mp (h [] (t :: ts) ts' rfl rfl).symm
      refine congrArg (t :: ·) (ih fun u v v' hts hts' => h (t :: u) v v' ?_ ?_)
      · rw [hts, List.cons_append]
      · rw [hts', List.cons_append]

lemma implicit_of_mem_written (ht : t ∈ written ls) : t.implicit = false := by
  obtain ⟨l, -, hl⟩ := List.mem_filterMap.mp ht
  obtain ⟨s, -, rfl⟩ := Option.map_eq_some_iff.mp hl
  rfl

/-- Behind what is written, tokens in which nothing is written do not end with a written one. -/
lemma eq_nil_of_withoutUnderstood_append (h : withoutUnderstood (u ++ v) = withoutUnderstood u)
    (hlast : ∀ t ∈ (u ++ v).getLast?, t.implicit = false) : v = [] := by
  rw [withoutUnderstood_append, List.append_right_eq_self] at h
  obtain rfl | ⟨v, t, rfl⟩ := v.eq_nil_or_concat'
  · rfl
  · have ht : t.implicit = false := hlast t (by rw [← List.append_assoc, List.getLast?_concat]; rfl)
    rw [withoutUnderstood_append, withoutUnderstood_cons ht] at h
    cases (List.append_eq_nil_iff.mp h).2

/-- Where the beginning of tokens ends with a written token, it is known by what is written in
it. -/
lemma eq_of_withoutUnderstood_eq {u' v' : List Token} (h : u ++ v = u' ++ v')
    (hwritten : withoutUnderstood u = withoutUnderstood u')
    (hu : ∀ t ∈ u.getLast?, t.implicit = false) (hu' : ∀ t ∈ u'.getLast?, t.implicit = false) :
    u = u' := by
  rcases List.append_eq_append_iff.mp h with ⟨d, rfl, -⟩ | ⟨d, rfl, -⟩
  · rw [eq_nil_of_withoutUnderstood_append hwritten.symm hu', List.append_nil]
  · rw [eq_nil_of_withoutUnderstood_append hwritten hu, List.append_nil]

lemma head?_withoutUnderstood (h : ∀ t ∈ v.head?, t.implicit = false) :
    (withoutUnderstood v).head? = v.head? := by
  cases v with
  | nil => rfl
  | cons t v =>
      rw [withoutUnderstood_cons (h t rfl)]
      rfl

/-- A written token comes from a lexeme. -/
lemma exists_of_written_eq (h : written ls = u ++ t :: v) :
    ∃ front l back, ls = front ++ l :: back ∧ written front = u ∧
      ∃ s, l.symbol = some s ∧ t = ⟨s, l.start, false⟩ := by
  obtain ⟨front, rest, rfl, hfront, hrest⟩ := List.filterMap_eq_append_iff.mp h
  obtain ⟨breaks, l, back, rfl, hbreaks, hl, -⟩ := List.filterMap_eq_cons_iff.mp hrest
  obtain ⟨s, hs, rfl⟩ := Option.map_eq_some_iff.mp hl
  refine ⟨front ++ breaks, l, back, by rw [List.append_assoc], ?_, s, hs, rfl⟩
  rw [written_append, written, hfront, written, List.filterMap_eq_nil_iff.mpr hbreaks,
    List.append_nil]

namespace Understood

variable {ts' v' : List Token}

/-- Behind the same tokens, the same is written. -/
lemma withoutUnderstood_eq (h : Understood ls ts) (h' : Understood ls ts') (hts : ts = u ++ v)
    (hts' : ts' = u ++ v') : withoutUnderstood v = withoutUnderstood v' := by
  have hwritten := h.written.trans h'.written.symm
  rw [hts, hts', withoutUnderstood_append, withoutUnderstood_append] at hwritten
  exact List.append_cancel_left hwritten

/-- What is understood ends no operand. -/
lemma endsOperand_eq_false (h : Understood ls ts) (hts : ts = u ++ t :: v)
    (ht : t.implicit = true) : t.symbol.endsOperand = false := by
  rcases h.implicit u t v hts ht with ⟨_, _, _, _, -, -, rfl, -⟩ | ⟨_, _, -, -, -, -, rfl⟩ <;> rfl

/-- Tokens at whose end an operand ends do not end with what is understood. -/
lemma implicit_of_endsOperand (h : Understood ls ts) (hts : ts = u ++ v)
    (hu : endsOperand u = true) : ∀ t ∈ u.getLast?, t.implicit = false := by
  intro t ht
  obtain ⟨u, rfl⟩ := List.getLast?_eq_some_iff.mp ht
  rw [endsOperand, List.getLast?_concat, Option.any_some] at hu
  rw [List.append_assoc] at hts
  by_contra himplicit
  exact Bool.false_ne_true ((h.endsOperand_eq_false hts (by simpa using himplicit)).symm.trans hu)

/-- In front of an arrow that is understood, there is nothing else that is. -/
lemma implicit_of_arrow (h : Understood (front ++ l :: more ++ back) ts)
    (hboundary : IsBoundary front l more back) (hts : ts = u ++ ⟨.arrow, l.start, true⟩ :: v)
    (hu : withoutUnderstood u = Token.written front) :
    ∀ t ∈ u.getLast?, t.implicit = false := by
  obtain ⟨u', v', hts', hu', hlast, hhead⟩ := h.arrow _ _ _ _ rfl hboundary
  have hbefore : ∀ t ∈ u'.getLast?, t.implicit = false := fun t ht =>
    implicit_of_mem_written (List.mem_of_getLast? (hlast ▸ ht))
  have hbehind : ∀ t ∈ v'.head?, t.implicit = false := fun t ht =>
    implicit_of_mem_written (List.mem_of_head? (hhead ▸ ht))
  rcases List.append_eq_append_iff.mp (hts'.symm.trans hts) with ⟨d, rfl, hd⟩ | ⟨d, rfl, -⟩
  · rw [← hu', withoutUnderstood_append, List.append_right_eq_self] at hu
    cases d with
    | nil => rwa [List.append_nil]
    | cons t d =>
        obtain ⟨rfl, rfl⟩ := List.cons.inj hd
        rw [withoutUnderstood_cons_implicit rfl] at hu
        -- behind the arrow stands a written token, and no second arrow
        cases d with
        | nil => cases hbehind _ rfl
        | cons t d =>
            rw [withoutUnderstood_cons (hbehind t rfl)] at hu
            cases hu
  · rw [eq_nil_of_withoutUnderstood_append (hu'.trans hu.symm) hbefore, List.append_nil] at hbefore
    exact hbefore

/-- An arrow that is understood behind some tokens is understood there always. -/
lemma head?_eq_arrow (h : Understood (front ++ l :: more ++ back) ts)
    (h' : Understood (front ++ l :: more ++ back) ts') (hboundary : IsBoundary front l more back)
    (hts : ts = u ++ ⟨.arrow, l.start, true⟩ :: v) (hts' : ts' = u ++ v')
    (hu : withoutUnderstood u = Token.written front) :
    v'.head? = some ⟨.arrow, l.start, true⟩ := by
  obtain ⟨a, c, hac, ha, hlast, -⟩ := h'.arrow _ _ _ _ rfl hboundary
  obtain rfl : u = a := eq_of_withoutUnderstood_eq (hts'.symm.trans hac) (hu.trans ha.symm)
    (h.implicit_of_arrow hboundary hts hu)
    fun t ht => implicit_of_mem_written (List.mem_of_getLast? (hlast ▸ ht))
  rw [List.append_cancel_left (hts'.symm.trans hac)]
  rfl

/-- A plus that is understood behind some tokens is understood there always. -/
lemma head?_eq_plus (h : Understood ls ts) (h' : Understood ls ts')
    (hts : ts = u ++ ⟨.plus, w.pos, true⟩ :: w :: v) (hts' : ts' = u ++ v')
    (hw : w.implicit = false) (hspec : isSpec w.symbol = true) (hu : endsOperand u = true) :
    v'.head? = some ⟨.plus, w.pos, true⟩ := by
  have hbehind : withoutUnderstood v' = w :: withoutUnderstood v := by
    rw [← h.withoutUnderstood_eq h' hts hts', withoutUnderstood_cons_implicit rfl,
      withoutUnderstood_cons hw]
  obtain ⟨front, l, back, rfl, hfront, s, hs, rfl⟩ := exists_of_written_eq
    (h'.written.symm.trans (by rw [hts', withoutUnderstood_append, hbehind]))
  -- in the other tokens a plus stands before the same `spec`; the two places are compared
  obtain ⟨a, c, hac, ha⟩ := h'.plus front l back s rfl hs hspec
  rw [hfront] at ha
  rw [List.append_assoc] at hac
  rcases List.append_eq_append_iff.mp (hts'.symm.trans hac) with ⟨d, rfl, rfl⟩ | ⟨d, rfl, hd⟩
  · cases d with
    | nil =>
        rw [List.append_nil, hu, if_pos rfl]
        rfl
    | cons t d =>
        have ht : t.implicit = true := by
          by_contra ht
          rw [withoutUnderstood_append, List.append_right_eq_self,
            withoutUnderstood_cons (by simpa using ht)] at ha
          cases ha
        rw [List.cons_append] at hbehind hts' ⊢
        rw [withoutUnderstood_cons_implicit ht] at hbehind
        -- what is understood behind `u` is an arrow, which both have, or the plus
        rcases h'.implicit u t _ hts' ht with
          ⟨front', first, more, back', hls, hboundary, rfl, hfront'⟩ |
          ⟨w, rest, hrest, hw', -, -, rfl⟩
        · rw [hls] at h h'
          cases h'.head?_eq_arrow h hboundary hts' hts hfront'
        · rw [hrest, withoutUnderstood_cons hw'] at hbehind
          rw [(List.cons.inj hbehind).1]
          rfl
  · obtain rfl := eq_nil_of_withoutUnderstood_append ha.symm (h.implicit_of_endsOperand hts hu)
    rw [List.append_nil] at hu
    rw [List.nil_append, hu, if_pos rfl] at hd
    rw [← hd]
    rfl

/-- What is understood behind some tokens is understood there always. -/
lemma head?_eq (h : Understood ls ts) (h' : Understood ls ts') (hts : ts = u ++ t :: v)
    (hts' : ts' = u ++ v') (ht : t.implicit = true) : v'.head? = some t := by
  rcases h.implicit u t v hts ht with
    ⟨front, first, more, back, rfl, hboundary, rfl, hu⟩ | ⟨w, rest, rfl, hw, hspec, hu, rfl⟩
  · exact h.head?_eq_arrow h' hboundary hts hts' hu
  · exact h.head?_eq_plus h' hts hts' hw hspec hu

/-- **Lexemes determine what is understood.**  Only one list of tokens comes of them. -/
theorem unique (h : Understood ls ts) (h' : Understood ls ts') : ts = ts' := by
  refine eq_of_forall_head?_eq fun u v v' hts hts' => ?_
  by_cases hv : ∃ t ∈ v.head?, t.implicit = true
  · obtain ⟨t, ht, himplicit⟩ := hv
    obtain ⟨v, rfl⟩ := List.head?_eq_some_iff.mp ht
    exact (h.head?_eq h' hts hts' himplicit).symm
  by_cases hv' : ∃ t ∈ v'.head?, t.implicit = true
  · obtain ⟨t, ht, himplicit⟩ := hv'
    obtain ⟨v', rfl⟩ := List.head?_eq_some_iff.mp ht
    exact h'.head?_eq h hts' hts himplicit
  · rw [← head?_withoutUnderstood (by simpa using hv), h.withoutUnderstood_eq h' hts hts',
      head?_withoutUnderstood (by simpa using hv')]

end Understood

/-! ### Texts -/

lemma withoutUnderstood_ofLexemes (b : Option Symbol) (ls : List Lexeme) :
    withoutUnderstood (ofLexemes b ls) = written ls := by
  induction ls generalizing b with
  | nil => rfl
  | cons l ls ih =>
      cases hl : l.symbol with
      | some s =>
          rw [ofLexemes_cons_symbol hl, withoutUnderstood_cons rfl, ih, written_cons_symbol hl]
      | none =>
          rw [ofLexemes_cons_break hl, written_cons_break hl]
          split
          · rw [withoutUnderstood_cons_implicit rfl, ih]
          · exact ih b

/-- Line breaks between two operands come as one arrow. -/
lemma exists_arrow_of_isBoundary {first : Lexeme} (h : IsBoundary front first more back) :
    ∃ u v, insertPluses none (ofLexemes none (front ++ first :: more ++ back)) =
        u ++ ⟨.arrow, first.start, true⟩ :: v ∧
      withoutUnderstood u = written front ∧ u.getLast? = (written front).getLast? ∧
        v.head? = (written back).head? := by
  obtain ⟨hbreaks, ⟨l, hl, s, hs, hends⟩, r, hr, s', hs', hstarts⟩ := h
  obtain ⟨front, rfl⟩ := List.getLast?_eq_some_iff.mp hl
  obtain ⟨back, rfl⟩ := List.head?_eq_some_iff.mp hr
  obtain ⟨hfirst, hmore⟩ := List.forall_mem_cons.mp hbreaks
  obtain ⟨u, hu, happend⟩ := exists_ofLexemes_append hs none front
  have hnext : nextSymbol? (more ++ r :: back) = some s' := by
    rw [nextSymbol?_append_breaks hmore, nextSymbol?_cons_symbol hs']
  -- the arrow comes of the first break, and the breaks behind it vanish
  have htokens : ofLexemes none (front ++ [l] ++ first :: more ++ r :: back) =
      u ++ [⟨s, l.start, false⟩] ++ ⟨.arrow, first.start, true⟩ ::
        ⟨s', r.start, false⟩ :: ofLexemes (some s') back := by
    rw [List.append_assoc, List.append_assoc, List.singleton_append, happend, List.cons_append,
      ofLexemes_cons_break hfirst, hnext, if_pos (by simpa using ⟨hends, hstarts⟩),
      ofLexemes_breaks hmore rfl, ofLexemes_cons_symbol hs', List.append_assoc,
      List.singleton_append]
  have hwritten : written (front ++ [l]) = written front ++ [⟨s, l.start, false⟩] := by
    rw [written_append, written_cons_symbol hs]
    rfl
  rw [htokens, insertPluses_arrow]
  refine ⟨_, _, rfl, ?_, ?_, ?_⟩
  · rw [withoutUnderstood_insertPluses, withoutUnderstood_append, hu, hwritten]
    rfl
  · rw [getLast?_insertPluses, hwritten, List.getLast?_concat, List.getLast?_concat]
  · rw [written_cons_symbol hs']
    rfl

/-- In front of `spec` there is a plus, if an operand ends before it. -/
lemma exists_plus_of_isSpec (hs : l.symbol = some s) (hspec : isSpec s = true)
    (front back : List Lexeme) :
    ∃ u v, insertPluses none (ofLexemes none (front ++ l :: back)) =
        u ++ (if endsOperand u then [⟨.plus, l.start, true⟩] else []) ++
          ⟨s, l.start, false⟩ :: v ∧ withoutUnderstood u = written front := by
  obtain ⟨u, hu, happend⟩ := exists_ofLexemes_append hs none front
  refine ⟨insertPluses none u, insertPluses (some s) (ofLexemes (some s) back), ?_, ?_⟩
  · rw [happend, insertPluses_append, insertPluses_cons, understoodPlus, getLast?_symbols_or_none,
      hspec, Bool.true_and, endsOperand_insertPluses, List.append_assoc]
  · rw [withoutUnderstood_insertPluses, hu]

/-- What is understood is an arrow between two operands, or a plus in front of `spec`. -/
lemma exists_of_implicit (h : insertPluses none (ofLexemes none ls) = u ++ t :: v)
    (ht : t.implicit = true) :
    (∃ front first more back, ls = front ++ first :: more ++ back ∧
      IsBoundary front first more back ∧ t = ⟨.arrow, first.start, true⟩ ∧
        withoutUnderstood u = written front) ∨
    ∃ w rest, v = w :: rest ∧ w.implicit = false ∧ isSpec w.symbol = true ∧
      endsOperand u = true ∧ t = ⟨.plus, w.pos, true⟩ := by
  -- the token was there before pluses were put in, or it is one of them
  obtain ⟨a, w, c, hts, ⟨rfl, rfl, -⟩ | ⟨hplus, rfl, rfl⟩⟩ := exists_of_insertPluses h
  · obtain ⟨front, l, back, rfl, hl, ht, ha, hafter, hbefore⟩ :=
      exists_of_implicit_ofLexemes hts ht
    obtain ⟨s, hs, hstarts⟩ := Option.any_eq_true _ _ |>.mp hafter
    obtain ⟨more, r, back, rfl, hmore, hr⟩ := exists_of_nextSymbol? hs
    refine .inl ⟨front, l, more, r :: back, by simp, ⟨?_, ?_, r, rfl, s, hr, hstarts⟩, ht, ?_⟩
    · exact List.forall_mem_cons.mpr ⟨hl, hmore⟩
    · exact hbefore.resolve_left fun hnone => Bool.false_ne_true hnone.2
    · rw [withoutUnderstood_append, withoutUnderstood_understoodPlus, List.append_nil,
        withoutUnderstood_insertPluses, ha]
  · rw [understoodPlus, getLast?_symbols_or_none] at hplus
    split at hplus
    · next hspec =>
        rw [Bool.and_eq_true] at hspec
        refine .inr ⟨w, _, rfl, ?_, hspec.1, ?_, (List.singleton_inj.mp hplus).symm⟩
        · by_contra himplicit
          obtain ⟨_, l, _, -, -, rfl, -⟩ :=
            exists_of_implicit_ofLexemes hts (by simpa using himplicit)
          cases hspec.1
        · rw [endsOperand_insertPluses]
          exact hspec.2
    · cases hplus

/-- Tokens come of lexemes as `Understood` says. -/
lemma understood_insertPluses (ls : List Lexeme) :
    Understood ls (insertPluses none (ofLexemes none ls)) := by
  refine ⟨?_, ?_, ?_, fun u t v => exists_of_implicit⟩
  · rw [withoutUnderstood_insertPluses, withoutUnderstood_ofLexemes]
  · rintro front first more back rfl hboundary
    exact exists_arrow_of_isBoundary hboundary
  · rintro front l back s rfl hs hspec
    exact exists_plus_of_isSpec hs hspec front back

/-- **What is understood.**  The tokens of a text are the written symbols and, besides, one arrow in
the place of each maximal run of line breaks between two operands, and one plus in front of each
`spec` before which an operand ends.  No other tokens are like this. -/
theorem understood_ofChars (h : ofChars names cs = .ok ts) :
    ∃ ls, Lexeme.ofChars (names.map Text.lowerCase) cs = .ok ls ∧ Understood ls ts ∧
      ∀ ts', Understood ls ts' → ts' = ts := by
  obtain ⟨ls, hls, rfl⟩ := map_eq_ok_iff.mp h
  have hunderstood := understood_insertPluses ls
  exact ⟨ls, hls, hunderstood, fun _ hts' => hts'.unique hunderstood⟩

/-- The two line breaks between `cane` and `ice spec` come as one arrow, and a plus is understood in
front of `spec`. -/
theorem understood_ofChars_ice :
    let text := "cane\n\nice spec".toList
    let tokens : List Token :=
      [⟨.word ⟨"cane", none⟩, 0, false⟩, ⟨.arrow, 4, true⟩, ⟨.word ⟨"ice", none⟩, 6, false⟩,
        ⟨.plus, 10, true⟩, ⟨.word ⟨"spec", none⟩, 10, false⟩]
    ofChars ["Cane"] text = .ok tokens ∧
      ∃ ls, Lexeme.ofChars ["cane"] text = .ok ls ∧ Understood ls tokens ∧
        ∀ ts', Understood ls ts' → ts' = tokens := by
  intro text tokens
  have htokens : ofChars ["Cane"] text = .ok tokens := by
    decide +kernel
  have hnames : ["Cane"].map Text.lowerCase = ["cane"] := by
    decide
  obtain ⟨ls, hls, hunderstood⟩ := understood_ofChars htokens
  exact ⟨htokens, ls, by rwa [hnames] at hls, hunderstood⟩

end Token

end AbilityRotation
