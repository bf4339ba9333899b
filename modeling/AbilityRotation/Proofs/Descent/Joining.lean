import AbilityRotation.Proofs.Descent.Operands

/-!
Joined words.

Where words are joined, a word takes in the words behind it up to the first one with a label, and
otherwise it stands for itself.
* `Word.joinAll` is what a word and others behind it are joined to; `Word.Joinable` says that they
  can be.
* `exists_plainWord`: what a word stands for is a join, whose words can be split off again
  (`pieces_joinAll`).
* `plainWord_append`: the same words stand for the same in front of other tokens.
-/

namespace AbilityRotation

namespace Word

/-- A word joined with others. -/
def joinAll (w : Word) : List Word → Word
  | [] => w
  | v :: vs => joinAll ⟨w.key ++ " " ++ v.key, v.label⟩ vs

/-- Whether others can be joined to a word: there are none without joining, and only the last one
may have a label. -/
def Joinable (mode : AdjacentWords) (label : Option String) : List Word → Prop
  | [] => True
  | v :: vs => mode = .join ∧ label = none ∧ Joinable mode v.label vs

/-- A word without a space is its only piece. -/
lemma pieces_of_spaceless {w : Word} (h : ' ' ∉ w.key.toList) : w.pieces = [w] := by
  rw [Word.pieces, List.splitOn_eq_singleton h]
  simp [labelLast]

/-- The pieces of joined words are those of the words. -/
lemma pieces_joinAll {mode : AdjacentWords} {w : Word} {vs : List Word}
    (h : Joinable mode w.label vs) :
    (w.joinAll vs).pieces = w.pieces ++ vs.flatMap Word.pieces := by
  induction vs generalizing w with
  | nil => simp [joinAll]
  | cons v vs ih =>
      obtain ⟨-, hl, hvs⟩ := h
      have hjoin := ih (w := ⟨w.key ++ " " ++ v.key, v.label⟩) hvs
      rw [joinAll, hjoin, Descent.pieces_join w v hl, List.append_assoc]
      rfl

end Word

namespace Descent

variable {rules : Rules}

lemma exists_joinWords (hmode : rules.adjacentWords = .join) (w : Word) (ts : List Token) :
    ∃ vs, Word.Joinable rules.adjacentWords w.label vs ∧ (joinWords w ts).1 = w.joinAll vs ∧
      Token.symbols ts = vs.map .word ++ Token.symbols (joinWords w ts).2 := by
  induction ts generalizing w with
  | nil => exact ⟨[], trivial, rfl, rfl⟩
  | cons t ts ih =>
      rw [joinWords]
      split
      · next v ht hl =>
          obtain ⟨vs, hvs, hjoin, hts⟩ := ih ⟨w.key ++ " " ++ v.key, v.label⟩
          exact ⟨v :: vs, ⟨hmode, hl, hvs⟩, hjoin, by simp [ht, hts]⟩
      · exact ⟨[], trivial, rfl, rfl⟩

/-- What a word stands for is a join with words behind it. -/
lemma exists_plainWord (rules : Rules) (w : Word) (ts : List Token) :
    ∃ vs, Word.Joinable rules.adjacentWords w.label vs ∧
      (plainWord rules w ts).1 = w.joinAll vs ∧
      Token.symbols ts = vs.map .word ++ Token.symbols (plainWord rules w ts).2 := by
  rw [plainWord]
  split
  · next hmode => exact exists_joinWords hmode w ts
  · exact ⟨[], trivial, rfl, rfl⟩

lemma joinWords_append {mode : AdjacentWords} {w : Word} {vs : List Word} {us rest : List Token}
    (h : Word.Joinable mode w.label vs) (hus : Token.symbols us = vs.map .word)
    (hrest : ∀ v, Token.first? rest ≠ some (.word v)) :
    joinWords w (us ++ rest) = (w.joinAll vs, rest) := by
  induction vs generalizing w us with
  | nil =>
      rw [Token.symbols, List.map_nil, List.map_eq_nil_iff] at hus
      subst hus
      cases rest with
      | nil => rfl
      | cons t rest =>
          rw [List.nil_append, joinWords]
          split
          · next v ht _ => exact absurd (by rw [Token.first?_cons, ht]) (hrest v)
          · rfl
  | cons v vs ih =>
      obtain ⟨-, hl, hvs⟩ := h
      obtain ⟨u, us, rfl, hu, hus⟩ := Token.symbols_eq_cons hus
      rw [List.cons_append, joinWords, hu, hl]
      exact ih hvs hus

/-- The same words stand for the same in front of other tokens that are no words. -/
lemma plainWord_append {w : Word} {vs : List Word} {us rest : List Token}
    (h : Word.Joinable rules.adjacentWords w.label vs) (hus : Token.symbols us = vs.map .word)
    (hrest : ∀ v, Token.first? rest ≠ some (.word v)) :
    plainWord rules w (us ++ rest) = (w.joinAll vs, rest) := by
  rw [plainWord]
  split
  · exact joinWords_append h hus hrest
  · next hmode =>
      cases vs with
      | nil =>
          rw [Token.symbols, List.map_nil, List.map_eq_nil_iff] at hus
          subst hus
          rfl
      | cons v vs => exact absurd h.1 hmode

end Descent

end AbilityRotation
