import AbilityRotation.Proofs.Canonical.Arrangement

/-!
Words and values.

A text is a word over certain characters if it is not empty, has no blanks and consists of such
characters (`WordOver`).  It is solid if it can stand as a word of a plain line, which has no
invisible characters.
* `wordOver_of_mem_words`: the words of a text are words over its characters.
* `words_intercalate`: words with spaces between are found again.
-/

namespace AbilityRotation

open Text

/-- Whether the characters make up one word, and all of them are allowed. -/
structure WordOver (allowed : Char → Prop) (cs : List Char) : Prop where
  /-- There are characters. -/
  ne_nil : cs ≠ []
  /-- None of them ends a word. -/
  isBlank : ∀ c ∈ cs, isBlank c = false
  /-- They are allowed. -/
  allowed : ∀ c ∈ cs, allowed c

/-- Whether the characters can stand as a word of a plain line. -/
abbrev Solid (cs : List Char) : Prop :=
  WordOver (fun c => isPlain c = true) cs

variable {allowed : Char → Prop} {cs ds : List Char} {c : Char} {ws : List (List Char)}

lemma WordOver.append (hcs : WordOver allowed cs) (hds : WordOver allowed ds) :
    WordOver allowed (cs ++ ds) where
  ne_nil := List.append_ne_nil_of_left_ne_nil hcs.ne_nil ds
  isBlank c hc := (List.mem_append.mp hc).elim (hcs.isBlank c) (hds.isBlank c)
  allowed c hc := (List.mem_append.mp hc).elim (hcs.allowed c) (hds.allowed c)

lemma WordOver.of_subset (h : WordOver allowed cs) (hne : ds ≠ []) (hds : ds ⊆ cs) :
    WordOver allowed ds where
  ne_nil := hne
  isBlank c hc := h.isBlank c (hds hc)
  allowed c hc := h.allowed c (hds hc)

lemma WordOver.imp {other : Char → Prop} (h : WordOver allowed cs)
    (hc : ∀ c ∈ cs, allowed c → other c) : WordOver other cs :=
  ⟨h.ne_nil, h.isBlank, fun c hm => hc c hm (h.allowed c hm)⟩

/-- Words do not begin or end with a blank. -/
lemma WordOver.tight (h : WordOver allowed cs) : Tight cs := by
  constructor
  · cases hc : cs.head? with
    | none => rfl
    | some c => exact h.isBlank c (List.mem_of_head? hc)
  · cases hc : cs.getLast? with
    | none => rfl
    | some c => exact h.isBlank c (List.mem_of_getLast? hc)

/-- A word is not blank. -/
lemma WordOver.isBlankText {s : String} (h : WordOver allowed s.toList) :
    Text.isBlankText s = false := by
  obtain ⟨c, cs, hcs⟩ := List.exists_cons_of_ne_nil h.ne_nil
  have hc : c ∈ s.toList := by
    rw [hcs]
    exact List.mem_cons_self
  rw [Text.isBlankText, List.all_eq_false]
  exact ⟨c, hc, by simp [h.isBlank c hc]⟩

/-- A word has no blank. -/
lemma WordOver.hasBlank {s : String} (h : WordOver allowed s.toList) : hasBlank s = false := by
  rw [Text.hasBlank, List.any_eq_false]
  intro c hc
  rw [h.isBlank c hc]
  exact Bool.false_ne_true

/-- A word is not empty. -/
lemma WordOver.isEmpty {s : String} (h : WordOver allowed s.toList) : s.isEmpty = false :=
  isEmpty_eq_false h.ne_nil

/-! ### Finding words -/

lemma of_mem_pieces {w : List Char} (hw : w = (pieces cs).1 ∨ w ∈ (pieces cs).2) (hc : c ∈ w) :
    c ∈ cs ∧ isBlank c = false := by
  induction cs generalizing w with
  | nil =>
      rcases hw with rfl | hw
      · cases hc
      · cases hw
  | cons d cs ih =>
      have hpieces : pieces (d :: cs) = addToPieces d (pieces cs) := rfl
      rw [hpieces, addToPieces] at hw
      split at hw
      · rcases hw with rfl | hw
        · cases hc
        · have hmem := ih (List.mem_cons.mp hw) hc
          exact ⟨List.mem_cons_of_mem _ hmem.1, hmem.2⟩
      · next hd =>
          rcases hw with rfl | hw
          · rcases List.mem_cons.mp hc with rfl | hc
            · exact ⟨List.mem_cons_self, by simpa using hd⟩
            · have hmem := ih (.inl rfl) hc
              exact ⟨List.mem_cons_of_mem _ hmem.1, hmem.2⟩
          · have hmem := ih (.inr hw) hc
            exact ⟨List.mem_cons_of_mem _ hmem.1, hmem.2⟩

/-- The words of a text are words over its characters. -/
lemma wordOver_of_mem_words {w : List Char} (h : w ∈ words cs) (hcs : ∀ c ∈ cs, allowed c) :
    WordOver allowed w := by
  obtain ⟨hw, hne⟩ := List.mem_filter.mp h
  refine ⟨by simpa using hne, fun c hc => ?_, fun c hc => ?_⟩
  · exact (of_mem_pieces (List.mem_cons.mp hw) hc).2
  · exact hcs c (of_mem_pieces (List.mem_cons.mp hw) hc).1

lemma pieces_of_unbroken (h : ∀ c ∈ cs, isBlank c = false) : pieces cs = (cs, []) := by
  induction cs with
  | nil => rfl
  | cons c cs ih =>
      have hpieces : pieces (c :: cs) = addToPieces c (pieces cs) := rfl
      rw [hpieces, ih fun d hd => h d (List.mem_cons_of_mem _ hd), addToPieces,
        h c List.mem_cons_self]
      rfl

lemma WordOver.words (h : WordOver allowed cs) : words cs = [cs] := by
  rw [Text.words, pieces_of_unbroken h.isBlank]
  simp [h.ne_nil]

/-- Words with spaces between are found again. -/
lemma words_intercalate (h : ∀ w ∈ ws, WordOver allowed w) : words ([' '].intercalate ws) = ws := by
  induction ws with
  | nil => rfl
  | cons w ws ih =>
      have hw := h w List.mem_cons_self
      have hws := ih fun v hv => h v (List.mem_cons_of_mem _ hv)
      cases ws with
      | nil =>
          rw [List.intercalate_singleton]
          exact hw.words
      | cons v ws =>
          rw [List.intercalate_cons_cons, List.append_assoc, List.singleton_append,
            words_append_cons _ _ (by decide), hws, hw.words]
          rfl

/-! ### Lines of words -/

lemma mem_intercalate {s : List Char} (hc : c ∈ s.intercalate ws) : c ∈ s ∨ ∃ w ∈ ws, c ∈ w := by
  induction ws with
  | nil => cases hc
  | cons w ws ih =>
      cases ws with
      | nil =>
          rw [List.intercalate_singleton] at hc
          exact .inr ⟨w, List.mem_cons_self, hc⟩
      | cons v ws =>
          rw [List.intercalate_cons_cons, List.mem_append, List.mem_append] at hc
          rcases hc with (hc | hc) | hc
          · exact .inr ⟨w, List.mem_cons_self, hc⟩
          · exact .inl hc
          · exact (ih hc).imp_right fun ⟨u, hu, hcu⟩ => ⟨u, List.mem_cons_of_mem _ hu, hcu⟩

/-- Words with spaces between are a line without blanks around it. -/
lemma tight_intercalate (hne : ws ≠ []) (h : ∀ w ∈ ws, WordOver allowed w) :
    [' '].intercalate ws ≠ [] ∧ Tight ([' '].intercalate ws) := by
  induction ws with
  | nil => exact absurd rfl hne
  | cons w ws ih =>
      have hw := h w List.mem_cons_self
      cases ws with
      | nil =>
          rw [List.intercalate_singleton]
          exact ⟨hw.ne_nil, hw.tight⟩
      | cons v ws =>
          obtain ⟨hrest, htight⟩ :=
            ih (List.cons_ne_nil _ _) fun u hu => h u (List.mem_cons_of_mem _ hu)
          rw [List.intercalate_cons_cons, List.append_assoc, List.singleton_append]
          refine ⟨List.append_ne_nil_of_left_ne_nil hw.ne_nil _, ?_, ?_⟩
          · obtain ⟨c, cs, rfl⟩ := List.exists_cons_of_ne_nil hw.ne_nil
            exact hw.tight.1
          · rw [List.getLast?_append_cons, List.getLast?_cons_of_ne_nil hrest]
            exact htight.2

end AbilityRotation
