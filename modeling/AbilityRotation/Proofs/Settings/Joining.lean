import AbilityRotation.Proofs.Settings.Lines

/-!
Settings on several lines mean the same as on one.

Reading a payload is one pass over its words that fills a record (`Settings.setPair`): a pair sets
its field whatever was set before, and a word that is no pair changes nothing.  What is read of two
payloads in a row is thus what is read of each, merged.
* `read_eq_foldl`: reading is that pass; `read_eq_none_iff`: when nothing is read.
* `read_line`: it does not depend on the line that notices mention.
* `read_append`: payloads with a blank between are merged.
* `Settings.joined_payloads`: lines for one target in a row say the same as one line.
-/

namespace AbilityRotation

open Text

namespace Settings

variable {line line' : String} {part : List Char} {o : Overrides}

/-! ### The pass over the words -/

/-- The record after one more word. -/
def setPair (line : String) (values : Overrides) (part : List Char) : Overrides :=
  match readPair line part with
  | .ok o => o.laidOver values
  | .error _ => values

/-- A word sets its field whatever was set before. -/
lemma setPair_eq (values : Overrides) :
    setPair line values part = (setPair line Overrides.empty part).laidOver values := by
  rw [setPair, setPair]
  cases readPair line part with
  | ok o => simp
  | error notice => simp

/-- Words lay their fields over what was set before. -/
lemma foldl_setPair (parts : List (List Char)) (values : Overrides) :
    parts.foldl (setPair line) values =
      (parts.foldl (setPair line) Overrides.empty).laidOver values := by
  induction parts generalizing values with
  | nil => simp
  | cons part parts ih =>
      rw [List.foldl_cons, List.foldl_cons, ih, ih (setPair line Overrides.empty part),
        setPair_eq values, Overrides.laidOver_assoc]

lemma foldl_fields (parts : List (List Char)) (values : Overrides) :
    (fields line parts).foldl (fun base o => o.laidOver base) values =
      parts.foldl (setPair line) values := by
  induction parts generalizing values with
  | nil => rfl
  | cons part parts ih =>
      rw [List.foldl_cons, ← ih, fields, List.filterMap_cons, setPair]
      cases readPair line part with
      | ok o => rfl
      | error notice => rfl

/-- Reading a payload is one pass over its words, of which nothing is left if no field was set. -/
theorem read_eq_foldl (payload : List Char) (line : String) :
    read payload line =
      ((words payload).foldl (setPair line) Overrides.empty).nonempty? := by
  rw [read, Overrides.foldl_merge_eq, foldl_fields]

/-- A pair sets a field. -/
lemma isEmpty_of_readPair (h : readPair line part = .ok o) : o.isEmpty = false := by
  obtain ⟨key, value, -, -, hread⟩ := exists_readField h
  rcases readField_cases hread with
    ⟨b, rfl⟩ | ⟨n, -, rfl | rfl⟩ | ⟨x, -, rfl⟩ | ⟨n, -, rfl⟩ | rfl | rfl <;> rfl

/-- Nothing is read exactly if all words are refused. -/
theorem read_eq_none_iff {payload : List Char} :
    read payload line = none ↔
      ∀ part ∈ words payload, ∃ notice, readPair line part = .error notice := by
  have hfilled : ∀ x ∈ (fields line (words payload)).map some, Overrides.Filled x := by
    intro x hx
    obtain ⟨o, ho, rfl⟩ := List.mem_map.mp hx
    obtain ⟨part, -, hread⟩ := List.mem_filterMap.mp ho
    rintro _ ⟨⟩
    exact isEmpty_of_readPair (toOption_eq_some_iff.mp hread)
  -- what a part sets is never empty, so nothing comes of the merge only if no part sets anything
  rw [read, ← List.foldl_map (f := some) (g := Overrides.merge),
    Overrides.foldl_merge_eq_none_iff Overrides.filled_none hfilled]
  constructor
  · intro h part hpart
    cases hread : readPair line part with
    | error notice => exact ⟨notice, rfl⟩
    | ok o =>
        have ho : o ∈ fields line (words payload) :=
          List.mem_filterMap.mpr ⟨part, hpart, toOption_eq_some_iff.mpr hread⟩
        exact absurd (h.2 (some o) (List.mem_map_of_mem ho)) (Option.some_ne_none o)
  · intro h
    refine ⟨rfl, fun x hx => ?_⟩
    obtain ⟨o, ho, rfl⟩ := List.mem_map.mp hx
    obtain ⟨part, hpart, hread⟩ := List.mem_filterMap.mp ho
    obtain ⟨notice, herror⟩ := h part hpart
    rw [herror] at hread
    cases hread

/-! ### The line is only mentioned in notices -/

lemma toOption_readField (line line' key : String) (value : List Char) :
    (readField line key value).toOption = (readField line' key value).toOption := by
  simp only [readField, apply_ite Except.toOption, toOption_orNotice]
  rfl

lemma toOption_readPair (line line' : String) (part : List Char) :
    (readPair line part).toOption = (readPair line' part).toOption := by
  simp only [readPair]
  split
  · split_ifs
    · rfl
    · exact toOption_readField _ _ _ _
  · rfl

/-- What is read of a payload does not depend on the line that notices mention. -/
theorem read_line (payload : List Char) (line line' : String) :
    read payload line = read payload line' := by
  have hfields : fields line (words payload) = fields line' (words payload) :=
    List.filterMap_congr fun part _ => toOption_readPair line line' part
  rw [read, read, hfields]

/-! ### Payloads in a row -/

/-- What is read of payloads with a blank between is merged. -/
theorem read_append (p q : List Char) (line : String) :
    read (p ++ ' ' :: q) line = Overrides.merge (read p line) (read q line) := by
  simp only [read_eq_foldl, Overrides.merge, Overrides.getD_nonempty?]
  rw [words_append_cons p q (by decide), List.foldl_append, foldl_setPair]

/-- The first of several payloads in a row comes before what the others make up. -/
lemma read_intercalate_cons (p : List Char) (ps : List (List Char)) (line : String) :
    read ([' '].intercalate (p :: ps)) line =
      Overrides.merge (read p line) (read ([' '].intercalate ps) line) := by
  cases ps with
  | nil =>
      rw [List.intercalate_singleton]
      exact (Overrides.merge_none (filled_read p line)).symm
  | cons q ps =>
      rw [List.intercalate_cons_cons, List.append_assoc, List.singleton_append, read_append]

end Settings

/-! ### Lines in a row -/

namespace SplitText

variable {t : Table Overrides} {target : String} {x y : Option Overrides} {o : Overrides}

/-- Settings with a field are laid over those that are there. -/
lemma addSettings_some (ho : o.isEmpty = false) :
    addSettings t target (some o) =
      t.insert target (o.laidOver ((t.get? target).getD Overrides.empty)) := by
  have hempty : (o.laidOver ((t.get? target).getD Overrides.empty)).isEmpty = false := by
    rw [Overrides.isEmpty_laidOver, ho, Bool.false_and]
  rw [addSettings, Overrides.merge, Option.getD_some, Overrides.nonempty?_of_isEmpty hempty]

/-- Adding settings one after the other is adding what they make up together. -/
lemma addSettings_merge (hx : Overrides.Filled x) (hy : Overrides.Filled y) :
    addSettings (addSettings t target x) target y =
      addSettings t target (Overrides.merge x y) := by
  cases x with
  | none => rw [Overrides.none_merge hy, addSettings]
  | some a =>
      cases y with
      | none => rw [Overrides.merge_none hx]; rfl
      | some b =>
          have hab : (b.laidOver a).isEmpty = false := by
            rw [Overrides.isEmpty_laidOver, hy b rfl, Bool.false_and]
          rw [addSettings_some (hx a rfl), addSettings_some (hy b rfl), Overrides.merge,
            Option.getD_some, Option.getD_some, Overrides.nonempty?_of_isEmpty hab,
            addSettings_some hab, Table.get?_insert, if_pos rfl, Table.insert_insert,
            Option.getD_some, Overrides.laidOver_assoc]

/-- Lines for one target add what their payloads make up in a row. -/
lemma foldl_addLine_payloads (scope : SettingsScope) (es : List (List Char × String))
    (line : String) :
    (es.map fun e => TextLine.setting scope target e.1 e.2).foldl (addLine scope) t =
      addSettings t target (Settings.read ([' '].intercalate (es.map Prod.fst)) line) := by
  induction es generalizing t with
  | nil => rfl
  | cons e es ih =>
      rw [List.map_cons, List.foldl_cons, addLine, if_pos rfl, ih, Settings.read_line e.1 e.2 line,
        addSettings_merge (Settings.filled_read _ _) (Settings.filled_read _ _), List.map_cons,
        Settings.read_intercalate_cons]

end SplitText

/-- **Settings on several lines mean the same as on one.**  What is read of payloads with a blank
between is what is read of each, the later merged over the earlier, also where nothing is read; so
lines for one target in a row give the same settings as one line with all their payloads, and words
that are no pairs can be left out wherever they stand. -/
theorem Settings.joined_payloads :
    (∀ p q line line₁ line₂, read (p ++ ' ' :: q) line =
      Overrides.merge (read p line₁) (read q line₂)) ∧
    (∀ scope target line (es : List (List Char × String)) (before after : List TextLine),
      SplitText.settings scope
          (before ++ (es.map fun e => .setting scope target e.1 e.2) ++ after) =
        SplitText.settings scope
          (before ++ .setting scope target ([' '].intercalate (es.map Prod.fst)) line :: after)) ∧
    ∀ p w q line, (∀ part ∈ words w, ∃ notice, readPair line part = .error notice) →
      read (p ++ ' ' :: (w ++ ' ' :: q)) line = read (p ++ ' ' :: q) line := by
  refine ⟨?_, ?_, ?_⟩
  · intro p q line line₁ line₂
    rw [read_append, read_line p line line₁, read_line q line line₂]
  · intro scope target line es before after
    simp only [settings_eq_foldl, List.foldl_append, List.foldl_cons, addLine, if_pos]
    rw [SplitText.foldl_addLine_payloads scope es line]
  · intro p w q line hw
    rw [read_append, read_append w, read_eq_none_iff.mpr hw,
      Overrides.none_merge (filled_read q line), read_append]

/-- A negative number of ticks and a word without a value do not take away the time for casting that
was set before them; the cooldown behind them counts. -/
theorem Settings.joined_payloads_refused :
    (∀ part ∈ words "cast_duration=-5 level".toList,
      ∃ notice, readPair "" part = .error notice) ∧
    read ("cast_duration=3".toList ++
        ' ' :: ("cast_duration=-5 level".toList ++ ' ' :: "cooldown=7".toList)) "" =
      some { castDuration := some 3, cooldown := some 7 } := by
  have hall : (words "cast_duration=-5 level".toList).all
      (fun part => (readPair "" part).toOption.isNone) = true := by decide
  have hwords : ∀ part ∈ words "cast_duration=-5 level".toList,
      ∃ notice, readPair "" part = .error notice := by
    intro part hpart
    have hnone := List.all_eq_true.mp hall part hpart
    cases hread : readPair "" part with
    | error notice => exact ⟨notice, rfl⟩
    | ok o =>
        rw [hread] at hnone
        cases hnone
  refine ⟨hwords, ?_⟩
  rw [joined_payloads.2.2 _ _ _ "" hwords]
  decide

end AbilityRotation
