import Mathlib.Tactic
import AbilityRotation.Proofs.Text.Trimming
import AbilityRotation.Text.LowerCase

/-!
Lower case is reached in one step.

A character is `Small` if lower case leaves it alone wherever it stands.  What lower case writes for
one character consists of small ones, which are blank exactly if that character is
(`exists_lowerCaseAfter_cons`).
* `capitalRuns_sound`: what has to be known of the table of capitals, one run or two at a time.
* `lowerCaseAfter_eq_self` and `small_of_mem_lowerCaseAfter`: the lower case of a text is its own
  lower case.
* `tight_lowerCaseAfter`: lower case puts no blanks at the ends of a text.
-/

namespace AbilityRotation

/-- Whether two runs have no code point in common. -/
def CodeRange.apart (a b : CodeRange) : Bool :=
  a.last.blt b.first || b.last.blt a.first

lemma CodeRange.apart_iff {a b : CodeRange} :
    a.apart b = true ↔ a.last < b.first ∨ b.last < a.first := by
  rw [apart, Bool.or_eq_true, Nat.blt_eq, Nat.blt_eq]

/-- Runs that are apart from another one cover nothing of it. -/
lemma CodeRange.coverCode_eq_false {runs : List CodeRange} {a : CodeRange} {n : ℕ}
    (h : ∀ r ∈ runs, a.apart r = true) (hn : a.first ≤ n ∧ n ≤ a.last) :
    CodeRange.coverCode runs n = false := by
  induction runs with
  | nil => rfl
  | cons r runs ih =>
      have hr := h r List.mem_cons_self
      rw [CodeRange.apart_iff] at hr
      rw [CodeRange.coverCode, ih fun s hs => h s (List.mem_cons_of_mem _ hs)]
      split
      · rfl
      · rw [if_neg (by omega)]

namespace Text

/-! ### The table of capitals -/

namespace CapitalRun

/-- The code points from the first capital of a run to the last. -/
def span (r : CapitalRun) : CodeRange :=
  ⟨r.first, r.last⟩

/-- The code points from the first small letter of a run to the last. -/
def image (r : CapitalRun) : CodeRange :=
  ⟨(r.first + r.shift).toNat, (r.last + r.shift).toNat⟩

/-- Whether the small letters of a run are no capitals of another one: they lie apart from those, or
in the gaps between them. -/
def avoids (r q : CapitalRun) : Bool :=
  r.image.apart q.span ||
    (decide (q.step = 2) && decide ((r.image.first + q.first) % 2 = 1) &&
      (decide (r.step = 2) || decide (r.first = r.last)))

/-- Whether the letters of a run are characters, not blank, and none of those that have a rule of
their own. -/
def isPlain (r : CapitalRun) : Bool :=
  decide (0 ≤ r.first + r.shift) &&
    (decide (r.image.last < 0xd800) || decide (0xdfff < r.image.first)) &&
    decide (r.image.last < 0x110000) &&
    blankRuns.all (fun b => r.span.apart b && r.image.apart b) &&
    r.image.apart ⟨'Σ'.toNat, 'Σ'.toNat⟩ && r.image.apart ⟨'İ'.toNat, 'İ'.toNat⟩

variable {r q : CapitalRun} {n : ℕ}

lemma contains_iff : r.contains n = true ↔
    (r.first ≤ n ∧ n ≤ r.last) ∧ (n - r.first) % r.step = 0 := by
  simp [contains, and_assoc]

/-- The small letter of a capital lies in the image of its run. -/
lemma mem_image (hn : r.contains n = true) :
    r.image.first ≤ (n + r.shift).toNat ∧ (n + r.shift).toNat ≤ r.image.last := by
  obtain ⟨hspan, -⟩ := contains_iff.mp hn
  simp only [image]
  omega

/-- The small letter of a capital is no capital of a run that its own one avoids. -/
lemma contains_image_eq_false (hr : r.isPlain = true) (hq : r.avoids q = true)
    (hn : r.contains n = true) : q.contains (n + r.shift).toNat = false := by
  obtain ⟨hspan, hstep⟩ := contains_iff.mp hn
  have himage := mem_image hn
  rw [← Bool.not_eq_true, contains_iff]
  rintro ⟨hspan', hstep'⟩
  simp only [avoids, CodeRange.apart_iff, span, Bool.or_eq_true, Bool.and_eq_true,
    decide_eq_true_eq] at hq
  rcases hq with hq | ⟨⟨hq, hodd⟩, hr'⟩
  · omega
  · simp only [isPlain, Bool.and_eq_true, decide_eq_true_eq] at hr
    rw [hq] at hstep'
    simp only [image] at hodd himage
    rcases hr' with hr' | hr'
    · rw [hr'] at hstep
      omega
    · omega

end CapitalRun

/-- The runs of capitals are plain, and the small letters of each avoid all of them. -/
lemma capitalRuns_sound :
    (capitalRuns.all fun r => r.isPlain && capitalRuns.all r.avoids) = true := by
  decide +kernel

/-! ### Letters -/

/-- A code point stays, or it is a capital of one of the runs. -/
lemma smallCode_cases (runs : List CapitalRun) (n : ℕ) :
    smallCode runs n = n ∨
      ∃ r ∈ runs, r.contains n = true ∧ smallCode runs n = (n + r.shift).toNat := by
  induction runs with
  | nil => exact .inl rfl
  | cons r runs ih =>
      rw [smallCode]
      split
      · exact .inl rfl
      · split
        · next hn => exact .inr ⟨r, List.mem_cons_self, hn, rfl⟩
        · exact ih.imp_right fun ⟨q, hq, h⟩ => ⟨q, List.mem_cons_of_mem _ hq, h⟩

lemma smallCode_eq_self {runs : List CapitalRun} {n : ℕ} (h : ∀ r ∈ runs, r.contains n = false) :
    smallCode runs n = n := by
  rcases smallCode_cases runs n with hn | ⟨r, hr, hn, -⟩
  · exact hn
  · simp [h r hr] at hn

/-- Lower case leaves the character alone wherever it stands. -/
structure Small (c : Char) : Prop where
  /-- It is no capital with a small letter of its own. -/
  smallLetter : smallLetter c = c
  /-- It is not the capital with two small letters. -/
  ne_sigma : c ≠ 'Σ'
  /-- It is not the capital whose small letter has a dot above. -/
  ne_dotted : c ≠ 'İ'

/-- A small letter is left alone, and is blank exactly if its capital is. -/
lemma small_smallLetter {c : Char} (hs : c ≠ 'Σ') (hi : c ≠ 'İ') :
    Small (smallLetter c) ∧ isBlank (smallLetter c) = isBlank c := by
  rcases smallCode_cases capitalRuns c.toNat with hc | ⟨r, hr, hn, hc⟩
  · have heq : smallLetter c = c := by
      rw [smallLetter, hc, Char.ofNat_toNat]
    rw [heq]
    exact ⟨⟨heq, hs, hi⟩, rfl⟩
  · obtain ⟨hplain, havoids⟩ := Bool.and_eq_true_iff.mp (List.all_eq_true.mp capitalRuns_sound r hr)
    have himage := CapitalRun.mem_image hn
    have hspan := (CapitalRun.contains_iff.mp hn).1
    have hfix : smallCode capitalRuns (c.toNat + r.shift).toNat = (c.toNat + r.shift).toNat :=
      smallCode_eq_self fun q hq =>
        CapitalRun.contains_image_eq_false hplain (List.all_eq_true.mp havoids q hq) hn
    simp only [CapitalRun.isPlain, Bool.and_eq_true, Bool.or_eq_true, decide_eq_true_eq,
      List.all_eq_true, CodeRange.apart_iff] at hplain
    obtain ⟨⟨⟨⟨⟨-, hsurrogates⟩, hlast⟩, hblank⟩, hsigma⟩, hdotted⟩ := hplain
    have hcode : (smallLetter c).toNat = (c.toNat + r.shift).toNat := by
      have hvalid : (c.toNat + r.shift).toNat.isValidChar := by
        rw [Nat.isValidChar]
        omega
      rw [smallLetter, hc, Char.ofNat, dif_pos hvalid]
      rfl
    have hne : ∀ d : Char, r.image.last < d.toNat ∨ d.toNat < r.image.first →
        smallLetter c ≠ d := by
      rintro d hd rfl
      omega
    refine ⟨⟨?_, hne _ hsigma, hne _ hdotted⟩, ?_⟩
    · conv_lhs => rw [smallLetter, hcode, hfix, ← hc]
      rfl
    · rw [isBlank, isBlank, CodeRange.cover, CodeRange.cover, hcode,
        CodeRange.coverCode_eq_false (fun b hb => CodeRange.apart_iff.mpr (hblank b hb).2) himage,
        CodeRange.coverCode_eq_false (fun b hb => CodeRange.apart_iff.mpr (hblank b hb).1) hspan]

/-! ### Texts -/

variable {cs : List Char} {c : Char}

/-- What lower case writes for one character: small ones, blank exactly if the character is. -/
lemma exists_lowerCaseAfter_cons (afterCased : Bool) (c : Char) (rest : List Char) :
    ∃ front nowCased, front ≠ [] ∧
      lowerCaseAfter afterCased (c :: rest) = front ++ lowerCaseAfter nowCased rest ∧
      ∀ d ∈ front, Small d ∧ isBlank d = isBlank c := by
  rw [lowerCaseAfter]
  split
  · next hc =>
      subst hc
      refine ⟨[if afterCased && !startsCased rest then 'ς' else 'σ'], _, by simp, rfl, ?_⟩
      rintro d hd
      rw [List.mem_singleton] at hd
      rw [hd]
      split
      · exact ⟨⟨by decide, by decide, by decide⟩, by decide⟩
      · exact ⟨⟨by decide, by decide, by decide⟩, by decide⟩
  · next hs =>
      split
      · next hc =>
          subst hc
          refine ⟨['i', '\u0307'], _, by simp, rfl, ?_⟩
          rintro d hd
          simp only [List.mem_cons, List.not_mem_nil, or_false] at hd
          rcases hd with rfl | rfl
          · exact ⟨⟨by decide, by decide, by decide⟩, by decide⟩
          · exact ⟨⟨by decide, by decide, by decide⟩, by decide⟩
      · next hi =>
          refine ⟨[smallLetter c], _, by simp, rfl, ?_⟩
          simpa using small_smallLetter hs hi

/-- What lower case writes is small. -/
lemma small_of_mem_lowerCaseAfter {afterCased : Bool} (h : c ∈ lowerCaseAfter afterCased cs) :
    Small c := by
  induction cs generalizing afterCased with
  | nil => cases h
  | cons d cs ih =>
      obtain ⟨front, nowCased, -, heq, hfront⟩ := exists_lowerCaseAfter_cons afterCased d cs
      rw [heq, List.mem_append] at h
      rcases h with h | h
      · exact (hfront c h).1
      · exact ih h

/-- Lower case leaves small characters alone. -/
lemma lowerCaseAfter_eq_self (afterCased : Bool) (h : ∀ c ∈ cs, Small c) :
    lowerCaseAfter afterCased cs = cs := by
  induction cs generalizing afterCased with
  | nil => rfl
  | cons c cs ih =>
      have hc := h c List.mem_cons_self
      rw [lowerCaseAfter, if_neg hc.ne_sigma, if_neg hc.ne_dotted, hc.smallLetter,
        ih _ fun d hd => h d (List.mem_cons_of_mem _ hd)]

lemma lowerCaseAfter_ne_nil {afterCased : Bool} (h : cs ≠ []) :
    lowerCaseAfter afterCased cs ≠ [] := by
  cases cs with
  | nil => exact absurd rfl h
  | cons c cs =>
      obtain ⟨front, nowCased, hne, heq, -⟩ := exists_lowerCaseAfter_cons afterCased c cs
      rw [heq]
      exact List.append_ne_nil_of_left_ne_nil hne _

/-- Lower case puts no blanks at the ends. -/
lemma tight_lowerCaseAfter {afterCased : Bool} (h : Tight cs) :
    Tight (lowerCaseAfter afterCased cs) := by
  constructor
  · cases cs with
    | nil => rfl
    | cons c cs =>
        obtain ⟨front, nowCased, hne, heq, hfront⟩ := exists_lowerCaseAfter_cons afterCased c cs
        obtain ⟨d, front, rfl⟩ := List.exists_cons_of_ne_nil hne
        rw [heq]
        simpa [(hfront d List.mem_cons_self).2] using h.1
  · have hlast := h.2
    clear h
    -- the last character comes of the last one, so the front is taken off by induction
    induction cs generalizing afterCased with
    | nil => rfl
    | cons c cs ih =>
        obtain ⟨front, nowCased, hne, heq, hfront⟩ := exists_lowerCaseAfter_cons afterCased c cs
        rw [heq]
        cases cs with
        | nil =>
            obtain ⟨front, d, rfl⟩ := List.eq_nil_or_concat front |>.resolve_left hne
            have hd := (hfront d (by simp)).2
            simpa [lowerCaseAfter, hd] using hlast
        | cons d cs =>
            rw [List.getLast?_append_of_ne_nil _ (lowerCaseAfter_ne_nil (by simp))]
            exact ih (by simpa using hlast)

/-- The lower case of a text is its own lower case. -/
theorem lowerCase_lowerCase (s : String) : lowerCase (lowerCase s) = lowerCase s := by
  rw [lowerCase, lowerCase, String.toList_ofList,
    lowerCaseAfter_eq_self _ fun c hc => small_of_mem_lowerCaseAfter hc]

end Text

end AbilityRotation
