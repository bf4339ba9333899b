import AbilityRotation.Proofs.Descent.Fusions

/-!
Where modifiers and the word that they are fused onto stand among the tokens.

The lookahead goes on from word to word, over a plus at most, for as long as a word names one more
modifier and is not accepted by all before it.  What it finds can be said by positions alone.
* `Fusion.Layout`: positions of words that name modifiers, and of a word that all of them accept.
* `Fusion.Leads`: the part of a layout behind some of the modifiers, one case for each kind of word
  that can come next; `leads_iff` and `layout_iff` relate the two.
* `Leads.unique`: the modifiers before determine the positions behind them.
* `afterChain?_eq_some_iff`: the lookahead finds exactly what the positions say.
* `Layout.unique`, `atIndex?_eq_some_iff`: modifiers are fused from an index on exactly if there is
  a layout, and there is at most one.
-/

namespace AbilityRotation

namespace Token

variable {ts us : List Token} {t : Token} {p q q' : ℕ} {w w' : Word}

/-- Whether the second position comes next after the first, with nothing or one plus between. -/
def ComesNext (ts : List Token) (p q : ℕ) : Prop :=
  q = p + 1 ∨ q = p + 2 ∧ (symbols ts)[p + 1]? = some .plus

/-- At most one word comes next. -/
lemma ComesNext.unique (h : ComesNext ts p q) (hw : (symbols ts)[q]? = some (.word w))
    (h' : ComesNext ts p q') (hw' : (symbols ts)[q']? = some (.word w')) : q = q' := by
  rcases h with rfl | ⟨rfl, hplus⟩ <;> rcases h' with rfl | ⟨rfl, hplus'⟩
  · rfl
  · rw [hw] at hplus'
    cases hplus'
  · rw [hw'] at hplus
    cases hplus
  · rfl

lemma of_drop_eq_cons (h : ts.drop p = t :: us) :
    (symbols ts)[p]? = some t.symbol ∧ us = ts.drop (p + 1) := by
  have htoken : ts[p]? = some t := by
    rw [← List.head?_drop, h, List.head?_cons]
  refine ⟨by rw [symbols, List.getElem?_map, htoken, Option.map_some], ?_⟩
  rw [← List.drop_drop, h, List.drop_one, List.tail_cons]

lemma exists_getElem?_eq {s : Symbol} (h : (symbols ts)[p]? = some s) :
    ∃ t, ts[p]? = some t ∧ t.symbol = s := by
  rwa [symbols, List.getElem?_map, Option.map_eq_some_iff] at h

lemma exists_drop_eq_cons {s : Symbol} (h : (symbols ts)[p]? = some s) :
    ∃ t, t.symbol = s ∧ ts.drop p = t :: ts.drop (p + 1) := by
  obtain ⟨t, ht, hs⟩ := exists_getElem?_eq h
  obtain ⟨hp, rfl⟩ := List.getElem?_eq_some_iff.mp ht
  exact ⟨_, hs, List.drop_eq_getElem_cons hp⟩

/-- What can be left of some tokens behind a position when the word that comes next is looked for:
all of them while a plus may still stand next, and those behind a plus afterwards. -/
inductive LeftBehind (ts : List Token) (p : ℕ) : Bool → List Token → Prop where
  /-- Nothing has been passed over. -/
  | all : LeftBehind ts p true (ts.drop (p + 1))
  /-- A plus has been passed over. -/
  | plus (hplus : (symbols ts)[p + 1]? = some .plus) : LeftBehind ts p false (ts.drop (p + 2))

/-- The first of the tokens that are left comes next. -/
lemma LeftBehind.exists_comesNext {mayPlus : Bool} (h : LeftBehind ts p mayPlus (t :: us)) :
    ∃ q, ComesNext ts p q ∧ (symbols ts)[q]? = some t.symbol ∧ us = ts.drop (q + 1) := by
  generalize hleft : t :: us = left at h
  cases h with
  | all => exact ⟨p + 1, .inl rfl, of_drop_eq_cons hleft.symm⟩
  | plus hplus => exact ⟨p + 2, .inr ⟨rfl, hplus⟩, of_drop_eq_cons hleft.symm⟩

lemma LeftBehind.behind_plus (h : LeftBehind ts p true (t :: us)) (ht : t.symbol = .plus) :
    LeftBehind ts p false us := by
  generalize hleft : t :: us = left at h
  cases h
  obtain ⟨hsymbol, rfl⟩ := of_drop_eq_cons hleft.symm
  exact .plus (hsymbol.trans (congrArg some ht))

end Token

namespace Fusion

open Token

variable {c : Catalog} {ts : List Token} {ms ms' : List Modifier} {p q : ℕ} {ps : List ℕ}
  {f : Fusion}

/-! ### Layouts -/

/-- Whether the word at a position names the modifier; a word with a label names none. -/
def Names (c : Catalog) (ts : List Token) (p : ℕ) (m : Modifier) : Prop :=
  ∃ key, (symbols ts)[p]? = some (.word ⟨key, none⟩) ∧ c.resolve key = some m

/-- Whether a word at a position is accepted by all of the modifiers. -/
def AcceptedAt (ts : List Token) (ms : List Modifier) (q : ℕ) : Prop :=
  ∃ w, (symbols ts)[q]? = some (.word w) ∧ ∀ m ∈ ms, m.accepts w.key = true

/-- Whether the word at a position is not accepted by all of the modifiers. -/
def RefusedAt (ts : List Token) (ms : List Modifier) (p : ℕ) : Prop :=
  ∀ w, (symbols ts)[p]? = some (.word w) → ∃ m ∈ ms, m.accepts w.key = false

/-- Whether no slash follows a position, with tooltips at most between. -/
def NoSlashBehind (ts : List Token) (q : ℕ) : Prop :=
  ¬∃ (texts : List String) (rest : List Symbol),
    (symbols ts).drop (q + 1) = texts.map .tooltip ++ .slash :: rest

/-- The modifiers `ms` are named at the positions `ps`, the first of them at the index, and are to
be fused onto the word at the position `q`. -/
structure Layout (c : Catalog) (ts : List Token) (index : ℤ) (ps : List ℕ) (ms : List Modifier)
    (q : ℕ) : Prop where
  /-- The first modifier is named at the index. -/
  first : ps.head?.map Int.ofNat = some index
  /-- From one position to the next there is nothing or one plus between. -/
  next : (ps ++ [q]).IsChain (ComesNext ts)
  /-- At each of the positions a modifier is named. -/
  names : List.Forall₂ (Names c ts) ps ms
  /-- No modifier behind the first is named by a word that all modifiers before it accept. -/
  refused : ∀ j p, 0 < j → ps[j]? = some p → RefusedAt ts (ms.take j) p
  /-- The last word is accepted by all of the modifiers. -/
  accepted : AcceptedAt ts ms q
  /-- The last word has no alternatives. -/
  alone : NoSlashBehind ts q

/-- Behind the modifiers `ms`, the last of which is named at the position `p`, the modifiers `ms'`
are named at the positions `ps`, and all are to be fused onto the word at the position `q`. -/
inductive Leads (c : Catalog) (ts : List Token) :
    List Modifier → ℕ → List ℕ → List Modifier → ℕ → Prop
  /-- The next word is accepted. -/
  | target {ms : List Modifier} {p q : ℕ} (hnext : ComesNext ts p q)
      (haccepted : AcceptedAt ts ms q) (halone : NoSlashBehind ts q) : Leads c ts ms p [] [] q
  /-- The next word is not accepted and names one more modifier. -/
  | modifier {ms ms' : List Modifier} {m : Modifier} {p p' q : ℕ} {ps : List ℕ}
      (hnext : ComesNext ts p p') (hnames : Names c ts p' m) (hrefused : RefusedAt ts ms p')
      (h : Leads c ts (ms ++ [m]) p' ps ms' q) : Leads c ts ms p (p' :: ps) (m :: ms') q

lemma Names.unique {m m' : Modifier} (h : Names c ts p m) (h' : Names c ts p m') : m = m' := by
  obtain ⟨key, hword, hm⟩ := h
  obtain ⟨key', hword', hm'⟩ := h'
  cases hword.symm.trans hword'
  exact Option.some.inj (hm.symm.trans hm')

lemma AcceptedAt.not_refusedAt (h : AcceptedAt ts ms q) : ¬RefusedAt ts ms q := by
  intro hrefused
  obtain ⟨w, hword, haccepts⟩ := h
  obtain ⟨m, hm, hrefuses⟩ := hrefused w hword
  rw [haccepts m hm] at hrefuses
  cases hrefuses

/-- The modifiers before determine the positions behind them. -/
theorem Leads.unique {ps' : List ℕ} {ms'' : List Modifier} {q' : ℕ} (h : Leads c ts ms p ps ms' q)
    (h' : Leads c ts ms p ps' ms'' q') : ps = ps' ∧ ms' = ms'' ∧ q = q' := by
  -- the next place is determined, and there a word is accepted or refused, never both
  induction h generalizing ps' ms'' q' with
  | target hnext haccepted _ =>
      obtain ⟨w, hword, -⟩ := id haccepted
      cases h' with
      | target hnext' haccepted' _ =>
          obtain ⟨w', hword', -⟩ := haccepted'
          exact ⟨rfl, rfl, hnext.unique hword hnext' hword'⟩
      | modifier hnext' hnames' hrefused' _ =>
          obtain ⟨key', hword', -⟩ := hnames'
          obtain rfl := hnext.unique hword hnext' hword'
          exact absurd hrefused' haccepted.not_refusedAt
  | modifier hnext hnames hrefused _ ih =>
      obtain ⟨key, hword, -⟩ := id hnames
      cases h' with
      | target hnext' haccepted' _ =>
          obtain ⟨w', hword', -⟩ := id haccepted'
          obtain rfl := hnext.unique hword hnext' hword'
          exact absurd hrefused haccepted'.not_refusedAt
      | modifier hnext' hnames' _ h' =>
          obtain ⟨key', hword', -⟩ := id hnames'
          obtain rfl := hnext.unique hword hnext' hword'
          obtain rfl := hnames.unique hnames'
          obtain ⟨rfl, rfl, rfl⟩ := ih h'
          exact ⟨rfl, rfl, rfl⟩

/-- What lies behind some of the modifiers, said by positions. -/
lemma leads_iff : Leads c ts ms p ps ms' q ↔
    (p :: ps ++ [q]).IsChain (ComesNext ts) ∧ List.Forall₂ (Names c ts) ps ms' ∧
      (∀ j p', ps[j]? = some p' → RefusedAt ts (ms ++ ms'.take j) p') ∧
      AcceptedAt ts (ms ++ ms') q ∧ NoSlashBehind ts q := by
  constructor
  · intro h
    -- a later place is refused by one modifier more: the one found at this place
    induction h with
    | target hnext haccepted halone => simp [hnext, haccepted, halone]
    | modifier hnext hnames hrefused _ ih =>
        obtain ⟨hchain, hall, hrest, haccepted, halone⟩ := ih
        refine ⟨.cons_cons hnext hchain, .cons hnames hall, ?_, by simpa using haccepted, halone⟩
        intro j p' hp'
        cases j with
        | zero =>
            cases hp'
            simpa using hrefused
        | succ j => simpa using hrest j p' hp'
  · rintro ⟨hchain, hall, hrefused, haccepted, halone⟩
    induction ps generalizing ms p ms' with
    | nil =>
        cases hall
        exact .target (by simpa using hchain) (by simpa using haccepted) halone
    | cons p' ps ih =>
        cases hall with
        | @cons _ m _ ms' hnames hall =>
            have hfirst : RefusedAt ts ms p' := by simpa using hrefused 0 p' rfl
            rw [List.cons_append, List.cons_append, List.isChain_cons_cons] at hchain
            refine .modifier hchain.1 hnames hfirst (ih hchain.2 hall ?_ (by simpa using haccepted))
            intro j p'' hp''
            simpa using hrefused (j + 1) p'' hp''

/-- A layout is a modifier with what lies behind it. -/
lemma layout_iff {index : ℤ} : Layout c ts index ps ms q ↔
    ∃ p ps' m ms', ps = p :: ps' ∧ ms = m :: ms' ∧ (p : ℤ) = index ∧ Names c ts p m ∧
      Leads c ts [m] p ps' ms' q := by
  constructor
  · rintro ⟨hfirst, hnext, hnames, hrefused, haccepted, halone⟩
    cases hnames with
    | nil => cases hfirst
    | @cons p m ps ms hname hnames =>
        refine ⟨p, ps, m, ms, rfl, rfl, Option.some.inj hfirst, hname, leads_iff.mpr
          ⟨hnext, hnames, fun j p' hp' => ?_, haccepted, halone⟩⟩
        exact hrefused (j + 1) p' j.succ_pos hp'
  · rintro ⟨p, ps, m, ms, rfl, rfl, rfl, hname, h⟩
    obtain ⟨hnext, hnames, hrefused, haccepted, halone⟩ := leads_iff.mp h
    refine ⟨rfl, hnext, .cons hname hnames, fun j p' hj hp' => ?_, haccepted, halone⟩
    obtain ⟨j, rfl⟩ := Nat.exists_eq_succ_of_ne_zero hj.ne'
    exact hrefused j p' hp'

/-! ### The lookahead -/

lemma names_iff {m : Modifier} : Names c ts p m ↔
    ∃ w, (symbols ts)[p]? = some (.word w) ∧ modifierOf? c w = some m := by
  constructor
  · rintro ⟨key, hword, hm⟩
    exact ⟨⟨key, none⟩, hword, Descent.modifierOf?_eq_some.mpr ⟨rfl, hm⟩⟩
  · rintro ⟨⟨key, label⟩, hword, hm⟩
    obtain ⟨hlabel, hresolve⟩ := Descent.modifierOf?_eq_some.mp hm
    obtain rfl : label = none := hlabel
    exact ⟨key, hword, hresolve⟩

lemma slashFollows_iff (ts : List Token) : slashFollows ts = true ↔
    ∃ (texts : List String) (rest : List Symbol),
      symbols ts = texts.map .tooltip ++ .slash :: rest := by
  induction ts with
  | nil => simp [slashFollows]
  | cons t ts ih =>
      rw [slashFollows, symbols_cons]
      constructor
      · intro h
        split at h
        · next text ht =>
            obtain ⟨texts, rest, hrest⟩ := ih.mp h
            exact ⟨text :: texts, rest, by rw [ht, hrest]; rfl⟩
        · next ht => exact ⟨[], symbols ts, by rw [ht]; rfl⟩
        · cases h
      · rintro ⟨texts, rest, h⟩
        cases texts with
        | nil =>
            obtain ⟨ht, -⟩ := List.cons.inj h
            rw [ht]
        | cons text texts =>
            obtain ⟨ht, hrest⟩ := List.cons.inj h
            rw [ht]
            exact ih.mpr ⟨texts, rest, hrest⟩

lemma slashFollows_eq_false_iff : slashFollows (ts.drop (q + 1)) = false ↔ NoSlashBehind ts q := by
  rw [NoSlashBehind, ← Bool.not_eq_true, slashFollows_iff, symbols, symbols, List.map_drop]

/-- What the lookahead makes of the word that comes next. -/
lemma afterChain?_of_comesNext {w : Word} (hnext : ComesNext ts p q)
    (hword : (symbols ts)[q]? = some (.word w)) :
    afterChain? c ms true (ts.drop (p + 1)) =
      if ms.all (·.accepts w.key) then
        if slashFollows (ts.drop (q + 1)) then none
        else some ⟨ms.map (·.key), w, ts.drop (q + 1)⟩
      else (modifierOf? c w).bind fun m => afterChain? c (ms ++ [m]) true (ts.drop (q + 1)) := by
  -- at the word itself it no longer matters whether a plus may come
  have hhere : ∀ mayPlus, afterChain? c ms mayPlus (ts.drop q) =
      if ms.all (·.accepts w.key) then
        if slashFollows (ts.drop (q + 1)) then none
        else some ⟨ms.map (·.key), w, ts.drop (q + 1)⟩
      else (modifierOf? c w).bind fun m => afterChain? c (ms ++ [m]) true (ts.drop (q + 1)) := by
    intro mayPlus
    obtain ⟨t, ht, hdrop⟩ := exists_drop_eq_cons hword
    rw [hdrop, afterChain?, ht]
    dsimp only
    cases modifierOf? c w <;> rfl
  rcases hnext with rfl | ⟨rfl, hplus⟩
  · exact hhere true
  · obtain ⟨t, ht, hdrop⟩ := exists_drop_eq_cons hplus
    rw [hdrop, afterChain?, ht]
    exact hhere false

/-- The lookahead finds what lies behind the modifiers. -/
lemma Leads.afterChain? {w : Word} (h : Leads c ts ms p ps ms' q)
    (hword : (symbols ts)[q]? = some (.word w)) :
    afterChain? c ms true (ts.drop (p + 1)) =
      some ⟨(ms ++ ms').map (·.key), w, ts.drop (q + 1)⟩ := by
  induction h with
  | target hnext haccepted halone =>
      obtain ⟨w', hword', haccepts⟩ := haccepted
      cases hword.symm.trans hword'
      rw [afterChain?_of_comesNext hnext hword, if_pos (List.all_eq_true.mpr haccepts),
        slashFollows_eq_false_iff.mpr halone, List.append_nil]
      rfl
  | @modifier ms _ m _ _ _ _ hnext hnames hrefused _ ih =>
      obtain ⟨w', hword', hm⟩ := names_iff.mp hnames
      obtain ⟨m', hm', hrefuses⟩ := hrefused _ hword'
      have hall : ¬(ms.all (·.accepts w'.key) = true) := fun hall => by
        rw [List.all_eq_true.mp hall m' hm'] at hrefuses
        cases hrefuses
      rw [afterChain?_of_comesNext hnext hword', if_neg hall, hm, Option.bind_some, ih hword]
      simp

/-- What the lookahead finds from the word that comes next on lies behind the modifiers. -/
lemma exists_leads_of_afterChain? {us : List Token} {mayPlus : Bool}
    (h : afterChain? c ms mayPlus us = some f) (hus : LeftBehind ts p mayPlus us) :
    ∃ ps ms' q, Leads c ts ms p ps ms' q ∧ (symbols ts)[q]? = some (.word f.target) := by
  induction h using afterChain?_induct generalizing p with
  | plus ht _ _ ih => exact ih (hus.behind_plus ht)
  | target ht haccepts hslash _ _ =>
      obtain ⟨q, hnext, hsymbol, hrest⟩ := hus.exists_comesNext
      rw [ht] at hsymbol
      rw [hrest] at hslash
      exact ⟨[], [], q, .target hnext ⟨_, hsymbol, List.all_eq_true.mp haccepts⟩
        (slashFollows_eq_false_iff.mp hslash), hsymbol⟩
  | @modifier ms mayPlus t w m us ht hrefuses hm _ _ ih =>
      obtain ⟨q, hnext, hsymbol, hrest⟩ := hus.exists_comesNext
      rw [ht] at hsymbol
      obtain ⟨ps, ms', q', hleads, htarget⟩ := ih (hrest ▸ LeftBehind.all)
      have hnames := names_iff.mpr ⟨w, hsymbol, hm⟩
      refine ⟨q :: ps, m :: ms', q', .modifier hnext hnames ?_ hleads, htarget⟩
      intro w hw
      cases hsymbol.symm.trans hw
      simpa using hrefuses

/-- The lookahead behind some modifiers finds exactly what the positions say. -/
theorem afterChain?_eq_some_iff : afterChain? c ms true (ts.drop (p + 1)) = some f ↔
    ∃ ps ms' q, Leads c ts ms p ps ms' q ∧ f.modifiers = (ms ++ ms').map (·.key) ∧
      (symbols ts)[q]? = some (.word f.target) ∧ f.rest = ts.drop (q + 1) := by
  constructor
  · intro h
    obtain ⟨ps, ms', q, hleads, hword⟩ := exists_leads_of_afterChain? h .all
    have hf := Option.some.inj (h.symm.trans (hleads.afterChain? hword))
    exact ⟨ps, ms', q, hleads, congrArg Fusion.modifiers hf, hword, congrArg Fusion.rest hf⟩
  · rintro ⟨ps, ms', q, hleads, hmodifiers, hword, hrest⟩
    rw [hleads.afterChain? hword, ← hmodifiers, ← hrest]

/-- A fusion begins at a position with a word that names a modifier. -/
lemma at?_drop_eq_some_iff : at? c (ts.drop p) = some f ↔
    ∃ m, Names c ts p m ∧ afterChain? c [m] true (ts.drop (p + 1)) = some f := by
  constructor
  · intro h
    cases hdrop : ts.drop p with
    | nil =>
        rw [hdrop] at h
        cases h
    | cons t us =>
        obtain ⟨hsymbol, rfl⟩ := of_drop_eq_cons hdrop
        rw [hdrop, at?] at h
        split at h
        · next w ht =>
            obtain ⟨m, hm, hf⟩ := Option.bind_eq_some_iff.mp h
            exact ⟨m, names_iff.mpr ⟨w, hsymbol.trans (congrArg some ht), hm⟩, hf⟩
        · cases h
  · rintro ⟨m, hnames, hf⟩
    obtain ⟨w, hword, hm⟩ := names_iff.mp hnames
    obtain ⟨t, ht, hdrop⟩ := exists_drop_eq_cons hword
    rw [hdrop, at?, ht]
    exact Option.bind_eq_some_iff.mpr ⟨m, hm, hf⟩

/-- A fusion begins at a position exactly if there is a layout of it. -/
lemma at?_drop_eq_some_iff_layout : at? c (ts.drop p) = some f ↔
    ∃ ps ms q, Layout c ts p ps ms q ∧ f.modifiers = ms.map (·.key) ∧
      (symbols ts)[q]? = some (.word f.target) ∧ f.rest = ts.drop (q + 1) := by
  rw [at?_drop_eq_some_iff]
  constructor
  · rintro ⟨m, hname, hf⟩
    obtain ⟨ps, ms, q, hleads, hf⟩ := afterChain?_eq_some_iff.mp hf
    exact ⟨p :: ps, m :: ms, q, layout_iff.mpr ⟨p, ps, m, ms, rfl, rfl, rfl, hname, hleads⟩, hf⟩
  · rintro ⟨_, _, q, hlayout, hf⟩
    obtain ⟨p', ps, m, ms, rfl, rfl, hp, hname, hleads⟩ := layout_iff.mp hlayout
    obtain rfl := Int.ofNat.inj hp
    exact ⟨m, hname, afterChain?_eq_some_iff.mpr ⟨ps, ms, q, hleads, hf⟩⟩

/-- A fusion that leaves the tokens behind a position ends with the token there. -/
lemma place?_of_rest {t : Token} (ht : ts[q]? = some t) (hrest : f.rest = ts.drop (q + 1)) :
    place? ts f = some ⟨f.modifiers, t, q + 1⟩ := by
  obtain ⟨hq, -⟩ := List.getElem?_eq_some_iff.mp ht
  have hnext : ts.length - f.rest.length = q + 1 := by
    rw [hrest, List.length_drop]
    omega
  rw [place?, hnext, Nat.add_sub_cancel, ht, Option.map_some]

/-- There is at most one layout at an index. -/
theorem Layout.unique {index : ℤ} {ps' : List ℕ} {q' : ℕ} (h : Layout c ts index ps ms q)
    (h' : Layout c ts index ps' ms' q') : ps = ps' ∧ ms = ms' ∧ q = q' := by
  obtain ⟨p, ps, m, ms, rfl, rfl, rfl, hname, hleads⟩ := layout_iff.mp h
  obtain ⟨p', ps', m', ms', rfl, rfl, hp, hname', hleads'⟩ := layout_iff.mp h'
  obtain rfl := Int.ofNat.inj hp
  obtain rfl := hname.unique hname'
  obtain ⟨rfl, rfl, rfl⟩ := hleads.unique hleads'
  exact ⟨rfl, rfl, rfl⟩

/-- **Fusions by positions.**  From an index on, modifiers are fused exactly if there is a layout of
modifiers and of a word at the index; the fusion consists of the keys of these modifiers and of the
token of the word, and ends behind it.  The positions in a layout, the modifiers and the word are
determined by the index. -/
theorem atIndex?_eq_some_iff (c : Catalog) (ts : List Token) (index : ℤ) :
    (∀ f, atIndex? c ts index = some f ↔
      ∃ ps ms q, Layout c ts index ps ms q ∧ f.modifiers = ms.map (·.key) ∧
        ts[q]? = some f.target ∧ f.next = q + 1) ∧
    ∀ ps ms q ps' ms' q', Layout c ts index ps ms q → Layout c ts index ps' ms' q' →
      ps = ps' ∧ ms = ms' ∧ q = q' := by
  refine ⟨fun f => ⟨fun h => ?_, ?_⟩, fun ps ms q ps' ms' q' h h' => h.unique h'⟩
  · rw [atIndex?] at h
    split_ifs at h with hindex
    obtain ⟨p, rfl⟩ := Int.eq_ofNat_of_zero_le hindex
    obtain ⟨g, hg, hplace⟩ := Option.bind_eq_some_iff.mp h
    rw [Int.toNat_natCast] at hg
    obtain ⟨ps, ms, q, hlayout, hmodifiers, hword, hrest⟩ := at?_drop_eq_some_iff_layout.mp hg
    -- what is left begins right behind the target, which gives its place
    obtain ⟨t, ht, -⟩ := exists_getElem?_eq hword
    obtain rfl := Option.some.inj (hplace.symm.trans (place?_of_rest ht hrest))
    exact ⟨ps, ms, q, hlayout, hmodifiers, ht, rfl⟩
  · rintro ⟨ps, ms, q, hlayout, hmodifiers, ht, hnext⟩
    obtain ⟨w, hword, -⟩ := hlayout.accepted
    obtain ⟨p, -, -, -, -, -, rfl, -⟩ := layout_iff.mp hlayout
    have hfusion : at? c (ts.drop p) = some ⟨ms.map (·.key), w, ts.drop (q + 1)⟩ :=
      at?_drop_eq_some_iff_layout.mpr ⟨ps, ms, q, hlayout, rfl, hword, rfl⟩
    rw [atIndex?, if_pos (Int.natCast_nonneg p), Int.toNat_natCast, hfusion, Option.bind_some,
      place?_of_rest ht rfl, ← hmodifiers, ← hnext]

/-- The tokens of `gmaul + armabattlestaff spec[*2] (slow)`. -/
def chainTokens : List Token :=
  [⟨.word ⟨"gmaul", none⟩, 0, false⟩, ⟨.plus, 6, false⟩,
    ⟨.word ⟨"armabattlestaff", none⟩, 8, false⟩, ⟨.word ⟨"spec", some "2"⟩, 24, false⟩,
    ⟨.tooltip "slow", 33, false⟩]

/-- Both modifiers are fused onto `spec[*2]`, one over a plus and one of them directly, and there is
no other way; from the index before the first token nothing is fused. -/
theorem atIndex?_eq_some_iff_chain :
    Layout Catalog.default chainTokens 0 [0, 2]
        [Catalog.graniteMaul, Catalog.armadylBattlestaff] 3 ∧
      (∀ ps ms q, Layout Catalog.default chainTokens 0 ps ms q →
        ps = [0, 2] ∧ ms = [Catalog.graniteMaul, Catalog.armadylBattlestaff] ∧ q = 3) ∧
      atIndex? Catalog.default chainTokens 0 =
        some ⟨["gmaul", "armadylbattlestaff"], ⟨.word ⟨"spec", some "2"⟩, 24, false⟩, 4⟩ ∧
      ¬∃ ps ms q, Layout Catalog.default chainTokens (-1) ps ms q := by
  have hgranite : Names Catalog.default chainTokens 0 Catalog.graniteMaul :=
    ⟨"gmaul", rfl, by decide⟩
  have hstaff : Names Catalog.default chainTokens 2 Catalog.armadylBattlestaff :=
    ⟨"armabattlestaff", rfl, by decide⟩
  have hrefused : RefusedAt chainTokens [Catalog.graniteMaul] 2 := by
    rintro w ⟨⟩
    exact ⟨_, List.mem_cons_self, by decide +kernel⟩
  have haccepted : AcceptedAt chainTokens [Catalog.graniteMaul, Catalog.armadylBattlestaff] 3 :=
    ⟨⟨"spec", some "2"⟩, rfl, by decide +kernel⟩
  have halone : NoSlashBehind chainTokens 3 :=
    slashFollows_eq_false_iff.mp (by decide)
  have hlayout : Layout Catalog.default chainTokens 0 [0, 2]
      [Catalog.graniteMaul, Catalog.armadylBattlestaff] 3 :=
    layout_iff.mpr ⟨0, [2], _, _, rfl, rfl, rfl, hgranite,
      .modifier (.inr ⟨rfl, rfl⟩) hstaff hrefused (.target (.inl rfl) haccepted halone)⟩
  obtain ⟨hfound, hunique⟩ := atIndex?_eq_some_iff Catalog.default chainTokens 0
  refine ⟨hlayout, fun ps ms q h => hunique _ _ _ _ _ _ h hlayout, ?_, ?_⟩
  · exact (hfound _).mpr ⟨_, _, 3, hlayout, rfl, rfl, rfl⟩
  · rintro ⟨ps, ms, q, h⟩
    obtain ⟨p, -, -, -, -, -, hp, -⟩ := layout_iff.mp h
    omega

end Fusion

end AbilityRotation
