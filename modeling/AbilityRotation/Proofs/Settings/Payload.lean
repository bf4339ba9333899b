import AbilityRotation.Proofs.Ability.Merging
import AbilityRotation.Proofs.Number.Decimal
import AbilityRotation.Proofs.Outcome
import AbilityRotation.Proofs.Text.Words
import AbilityRotation.Settings.Payload

/-!
Payloads are read back.

Overrides that a payload can set have texts that can stand in a payload, and numbers within the
bounds of their fields (`SettableBy`, or `Readable` for the payloads of plain lines).  What is
written for overrides consists of one pair for each field that can be written, and a pair sets its
field again, if its value is within the bounds (`sanitized`).
* `settable_read`: what a payload sets are such overrides.
* `read_of_write`: what is read of written overrides is what is left of them within the bounds.
* `read_write`: readable overrides are read back from the payload that is written for them.
-/

namespace AbilityRotation

open Number Text

/-- Whether a payload of the allowed characters can set these overrides. -/
structure Overrides.SettableBy (allowed : Char → Prop) (o : Overrides) : Prop where
  /-- The kind can stand in a payload. -/
  type : ∀ s ∈ o.type, WordOver allowed s.toList
  /-- The level is not negative, and has not too many digits. -/
  level : ∀ n ∈ o.level, 0 ≤ n ∧ Number.Writable n
  /-- The time for casting is a number of ticks. -/
  castDuration : ∀ n ∈ o.castDuration, 0 ≤ n ∧ n ≤ maxTicks
  /-- The cooldown is a number of ticks. -/
  cooldown : ∀ n ∈ o.cooldown, 0 ≤ n ∧ n ≤ maxTicks
  /-- The threshold is a floating-point number between 0 and 1. -/
  threshold : ∀ t ∈ o.detectionThreshold, ∃ x, t = .real x ∧ x.inUnitInterval = some x
  /-- The mask can stand in a payload. -/
  mask : ∀ s ∈ o.mask, WordOver allowed s.toList

/-- Whether the payload of a plain line can set these overrides. -/
abbrev Overrides.Readable (o : Overrides) : Prop :=
  o.SettableBy fun c => isPlain c = true

variable {allowed : Char → Prop}

/-! ### What is read is settable -/

lemma Number.Binary64.inUnitInterval_of_eq_some {x y : Binary64} (h : x.inUnitInterval = some y) :
    y.inUnitInterval = some y := by
  cases x with
  | nan => cases h
  | infinite negative => cases h
  | finite negative significand scale hc =>
      rw [Binary64.inUnitInterval] at h
      split at h
      · cases h
        rfl
      · next hzero =>
          split at h
          · cases h
            decide +kernel
          · next hone =>
              cases h
              rw [Binary64.inUnitInterval, if_neg hzero, if_neg hone]

namespace Overrides

variable {o base : Overrides}

lemma settable_empty : empty.SettableBy allowed :=
  ⟨by simp [empty], by simp [empty], by simp [empty], by simp [empty], by simp [empty],
    by simp [empty]⟩

lemma readable_empty : empty.Readable :=
  settable_empty

lemma forall_mem_or {α : Type} {P : α → Prop} {x y : Option α} (hx : ∀ a ∈ x, P a)
    (hy : ∀ a ∈ y, P a) : ∀ a ∈ x.or y, P a := by
  cases x with
  | none => simpa using hy
  | some b => simpa using hx

/-- Settable overrides stay so when others are laid over them. -/
lemma SettableBy.laidOver (ho : o.SettableBy allowed) (hbase : base.SettableBy allowed) :
    (o.laidOver base).SettableBy allowed :=
  ⟨forall_mem_or ho.type hbase.type, forall_mem_or ho.level hbase.level,
    forall_mem_or ho.castDuration hbase.castDuration, forall_mem_or ho.cooldown hbase.cooldown,
    forall_mem_or ho.threshold hbase.threshold, forall_mem_or ho.mask hbase.mask⟩

/-- Merging settable overrides gives settable ones, with a field at least. -/
lemma SettableBy.merge {x y : Option Overrides} (hx : ∀ a ∈ x, a.SettableBy allowed)
    (hy : ∀ a ∈ y, a.SettableBy allowed) (h : Overrides.merge x y = some o) :
    o.SettableBy allowed ∧ o.isEmpty = false := by
  have hgetD : ∀ z : Option Overrides, (∀ a ∈ z, a.SettableBy allowed) →
      (z.getD empty).SettableBy allowed := by
    intro z hz
    cases z with
    | none => exact settable_empty
    | some a => exact hz a rfl
  have hlaid : o = (y.getD empty).laidOver (x.getD empty) := by
    rw [← getD_merge, h, Option.getD_some]
  exact ⟨hlaid ▸ (hgetD y hy).laidOver (hgetD x hx), filled_merge x y o h⟩

end Overrides

namespace Settings

variable {line key : String} {value part : List Char} {o : Overrides}

lemma exists_of_orNotice {α : Type} {notice : Notice} {x : Option α} {f : α → Overrides}
    (h : (orNotice notice x).map f = .ok o) : ∃ a, x = some a ∧ f a = o := by
  cases x with
  | none => cases h
  | some a =>
      cases h
      exact ⟨a, rfl, rfl⟩

lemma of_ticks? {n : ℤ} (h : ticks? value = some n) : 0 ≤ n ∧ n ≤ maxTicks := by
  have hbounds := (Option.filter_eq_some_iff.mp h).2
  simpa using hbounds

/-- A level that is read is not negative, and has not too many digits. -/
lemma of_level {n : ℤ} (h : whole? value = some n) :
    0 ≤ atLeastZero n ∧ Number.Writable (atLeastZero n) := by
  refine ⟨le_max_left 0 n, ?_⟩
  rcases le_total 0 n with hn | hn
  · rw [atLeastZero, max_eq_right hn]
    exact Binary64.writable_of_whole? h
  · rw [atLeastZero, max_eq_left hn]
    exact writable_of_lt (by decide)

/-- What a field can be set to. -/
lemma readField_cases (h : readField line key value = .ok o) :
    (∃ b, o = { triggersGcd := some b }) ∨
      (∃ n, ticks? value = some n ∧
        (o = { castDuration := some n } ∨ o = { cooldown := some n })) ∨
      (∃ x, threshold? value = some x ∧ o = { detectionThreshold := some (.real x) }) ∨
      (∃ n, whole? value = some n ∧ o = { level := some (atLeastZero n) }) ∨
      o = { mask := some (String.ofList value) } ∨ o = { type := some (String.ofList value) } := by
  rw [readField] at h
  split at h
  · obtain ⟨b, -, rfl⟩ := exists_of_orNotice h
    exact .inl ⟨b, rfl⟩
  split at h
  · obtain ⟨n, hn, rfl⟩ := exists_of_orNotice h
    exact .inr (.inl ⟨n, hn, .inl rfl⟩)
  split at h
  · obtain ⟨n, hn, rfl⟩ := exists_of_orNotice h
    exact .inr (.inl ⟨n, hn, .inr rfl⟩)
  split at h
  · obtain ⟨x, hx, rfl⟩ := exists_of_orNotice h
    exact .inr (.inr (.inl ⟨x, hx, rfl⟩))
  split at h
  · obtain ⟨n, hn, rfl⟩ := exists_of_orNotice h
    exact .inr (.inr (.inr (.inl ⟨n, hn, rfl⟩)))
  split at h
  · cases h
    exact .inr (.inr (.inr (.inr (.inl rfl))))
  split at h
  · cases h
    exact .inr (.inr (.inr (.inr (.inr rfl))))
  · cases h

/-- A pair is read as a field with a value in it. -/
lemma exists_readField {part : List Char} (h : readPair line part = .ok o) :
    ∃ key value, value ≠ [] ∧ value ⊆ part ∧ readField line key value = .ok o := by
  rw [readPair] at h
  split at h
  · next c rest hdrop =>
      split at h
      · cases h
      · refine ⟨_, c :: rest, List.cons_ne_nil _ _, fun d hd => ?_, h⟩
        refine (List.dropWhile_sublist (· != '=')).subset ?_
        rw [hdrop]
        exact List.mem_cons_of_mem _ hd
  · cases h

/-- What a field is set to is settable. -/
lemma settable_readField (hv : WordOver allowed value) (h : readField line key value = .ok o) :
    o.SettableBy allowed := by
  have hshown : WordOver allowed (String.ofList value).toList := by rwa [String.toList_ofList]
  rcases readField_cases h with
    ⟨b, rfl⟩ | ⟨n, hn, rfl | rfl⟩ | ⟨x, hx, rfl⟩ | ⟨n, hn, rfl⟩ | rfl | rfl
  · exact ⟨by simp, by simp, by simp, by simp, by simp, by simp⟩
  · exact ⟨by simp, by simp, by simpa using of_ticks? hn, by simp, by simp, by simp⟩
  · exact ⟨by simp, by simp, by simp, by simpa using of_ticks? hn, by simp, by simp⟩
  · obtain ⟨y, -, hy⟩ := Option.bind_eq_some_iff.mp hx
    have hunit := Binary64.inUnitInterval_of_eq_some hy
    exact ⟨by simp, by simp, by simp, by simp, by simpa using hunit, by simp⟩
  · exact ⟨by simp, by simpa using of_level hn, by simp, by simp, by simp, by simp⟩
  · exact ⟨by simp, by simp, by simp, by simp, by simp, by simpa using hshown⟩
  · exact ⟨by simpa using hshown, by simp, by simp, by simp, by simp, by simp⟩

/-- What a pair sets is settable. -/
lemma settable_readPair (hp : WordOver allowed part) (h : readPair line part = .ok o) :
    o.SettableBy allowed := by
  obtain ⟨key, value, hne, hsubset, hread⟩ := exists_readField h
  exact settable_readField (hp.of_subset hne hsubset) hread

lemma settable_fields {parts : List (List Char)} (hp : ∀ part ∈ parts, WordOver allowed part) :
    ∀ o ∈ fields line parts, o.SettableBy allowed := by
  intro o ho
  obtain ⟨part, hpart, hread⟩ := List.mem_filterMap.mp ho
  exact settable_readPair (hp part hpart) (toOption_eq_some_iff.mp hread)

/-- What is merged of settable overrides is settable. -/
lemma settable_foldl_merge {os : List Overrides} {acc : Option Overrides}
    (hos : ∀ o ∈ os, o.SettableBy allowed) (hacc : ∀ o ∈ acc, o.SettableBy allowed) :
    ∀ o ∈ os.foldl (fun acc o => Overrides.merge acc (some o)) acc, o.SettableBy allowed := by
  induction os generalizing acc with
  | nil => exact hacc
  | cons p os ih =>
      refine ih (fun o ho => hos o (List.mem_cons_of_mem _ ho)) fun o ho => ?_
      refine (Overrides.SettableBy.merge hacc ?_ ho).1
      rintro a ⟨⟩
      exact hos _ List.mem_cons_self

lemma filled_read (payload : List Char) (line : String) : Overrides.Filled (read payload line) :=
  Overrides.filled_foldl_merge _ Overrides.filled_none

/-- What is read from a payload of allowed characters is settable by such payloads, and has a
field. -/
theorem settable_read {payload : List Char} (hp : ∀ c ∈ payload, allowed c)
    (h : read payload line = some o) : o.SettableBy allowed ∧ o.isEmpty = false :=
  ⟨settable_foldl_merge (settable_fields fun _ hpart => wordOver_of_mem_words hpart hp) (by simp)
      o h,
    filled_read payload line o h⟩

/-! ### Pairs set their fields -/

/-- The keys of pairs. -/
def fieldNames : List String :=
  ["type", "level", "triggers_gcd", "cast_duration", "cooldown", "detection_threshold", "mask"]

lemma of_mem_fieldNames (h : key ∈ fieldNames) :
    (Solid key.toList ∧ '=' ∉ key.toList) ∧ lowerCaseAfter false key.toList = key.toList := by
  have hall : ∀ key ∈ fieldNames, key.toList ≠ [] ∧
      lowerCaseAfter false key.toList = key.toList := by
    decide
  have hchars : ∀ c ∈ fieldNames.flatMap String.toList,
      Text.isBlank c = false ∧ isPlain c = true ∧ c ≠ '=' :=
    List.all_iff_forall_prop.mp (by decide)
  have hkey : ∀ c ∈ key.toList, c ∈ fieldNames.flatMap String.toList :=
    fun c hc => List.mem_flatMap.mpr ⟨key, h, hc⟩
  obtain ⟨hne, hlower⟩ := hall key h
  exact ⟨⟨⟨hne, fun c hc => (hchars c (hkey c hc)).1, fun c hc => (hchars c (hkey c hc)).2.1⟩,
    fun hm => (hchars _ (hkey _ hm)).2.2 rfl⟩, hlower⟩

lemma toList_pair (key value : String) :
    (pair key value).toList = key.toList ++ '=' :: value.toList := by
  simp [pair]

/-- A pair is read as its field. -/
lemma readPair_pair {value : String} (hkey : key ∈ fieldNames) (hv : value.toList ≠ []) :
    readPair line (pair key value).toList = readField line key value.toList := by
  obtain ⟨⟨hsolid, hsign⟩, hlower⟩ := of_mem_fieldNames hkey
  obtain ⟨c, cs, hvalue⟩ := List.exists_cons_of_ne_nil hv
  have hbefore : ∀ d ∈ key.toList, (d != '=') = true := by
    intro d hd
    rw [bne_iff_ne]
    rintro rfl
    exact hsign hd
  have hempty : key.toList.isEmpty = false := List.isEmpty_eq_false_iff.mpr hsolid.ne_nil
  rw [readPair, toList_pair, List.takeWhile_append_of_pos hbefore,
    List.dropWhile_append_of_pos hbefore, hvalue]
  simp [hlower, hempty]

/-- Pairs that are written for overrides of one field each. -/
structure Writes (allowed : Char → Prop) (ps : List String) (os : List Overrides) : Prop where
  /-- The pairs can stand in a payload. -/
  word : ∀ p ∈ ps, WordOver allowed p.toList
  /-- The pairs set the fields. -/
  fields : ∀ line, Settings.fields line (ps.map String.toList) = os

lemma writes_nil : Writes allowed [] [] :=
  ⟨by simp, fun _ => rfl⟩

lemma Writes.append {ps qs : List String} {os us : List Overrides} (hp : Writes allowed ps os)
    (hq : Writes allowed qs us) : Writes allowed (ps ++ qs) (os ++ us) where
  word p hm := (List.mem_append.mp hm).elim (hp.word p) (hq.word p)
  fields line := by
    rw [List.map_append, Settings.fields, List.filterMap_append]
    exact congrArg₂ (· ++ ·) (hp.fields line) (hq.fields line)

section Plain

-- The keys of pairs, the sign in them and all numbers are plain.
variable (hplain : ∀ c, isPlain c = true → allowed c)

include hplain

lemma wordOver_of_solid {cs : List Char} (h : Solid cs) : WordOver allowed cs :=
  h.imp fun c _ => hplain c

lemma wordOver_pair {value : String} (hkey : key ∈ fieldNames)
    (hv : WordOver allowed value.toList) : WordOver allowed (pair key value).toList := by
  have hsign : Solid ['='] := by
    refine ⟨List.cons_ne_nil _ _, ?_, ?_⟩
    · exact List.forall_mem_singleton.mpr (by decide)
    · exact List.forall_mem_singleton.mpr (by decide)
  rw [toList_pair]
  exact (wordOver_of_solid hplain (of_mem_fieldNames hkey).1.1).append
    ((wordOver_of_solid hplain hsign).append hv)

lemma writes_pair {value : String} {x : Option Overrides} (hkey : key ∈ fieldNames)
    (hv : WordOver allowed value.toList)
    (hread : ∀ line, (readField line key value.toList).toOption = x) :
    Writes allowed [pair key value] x.toList where
  word p hm := by
    rw [List.mem_singleton.mp hm]
    exact wordOver_pair hplain hkey hv
  fields line := by
    rw [List.map_singleton, Settings.fields, List.filterMap_cons, readPair_pair hkey hv.ne_nil,
      hread]
    cases x with
    | none => rfl
    | some o => rfl

/-- A text is written if it can be read again. -/
lemma writes_textPair {text : Option String} {f : String → Overrides} (hkey : key ∈ fieldNames)
    (hv : ∀ s ∈ text, ∀ c ∈ s.toList, allowed c)
    (hread : ∀ s line, readField line key s.toList = .ok (f s)) :
    Writes allowed (textPair key text)
      ((text.filter fun s => !s.isEmpty && !hasBlank s).map f).toList := by
  cases text with
  | none => exact writes_nil
  | some s =>
      rw [textPair, Option.filter_some, ← Bool.not_or]
      cases hs : s.isEmpty || hasBlank s with
      | true => exact writes_nil
      | false =>
          rw [Bool.or_eq_false_iff] at hs
          have hword : WordOver allowed s.toList := by
            refine ⟨fun hnil => ?_, fun c hc => ?_, hv s rfl⟩
            · rw [String.toList_eq_nil_iff.mp hnil] at hs
              exact Bool.noConfusion hs.1
            · simpa using List.any_eq_false.mp hs.2 c hc
          exact writes_pair hplain hkey hword fun line => by rw [hread]; rfl

/-- A value is written, and sets what is read of it. -/
lemma writes_valuePair {α : Type} {a : Option α} {text : α → Except Number.Fault String}
    {x : Option Overrides} {ps : List String} (hkey : key ∈ fieldNames)
    (h : valuePair key a text = .ok ps) (hnone : a = none → x = none)
    (hread : ∀ b, a = some b → ∀ s, text b = .ok s →
      Solid s.toList ∧ ∀ line, (readField line key s.toList).toOption = x) :
    Writes allowed ps x.toList := by
  cases a with
  | none =>
      cases h
      rw [hnone rfl]
      exact writes_nil
  | some b =>
      obtain ⟨s, hs, rfl⟩ := map_eq_ok_iff.mp h
      obtain ⟨hsolid, hfield⟩ := hread b rfl s hs
      exact writes_pair hplain hkey (wordOver_of_solid hplain hsolid) hfield

end Plain

/-! ### Numbers and truth values are read back -/

/-- What is read of a value, or the notice that nothing is. -/
lemma toOption_orNotice {α : Type} (notice : Notice) (x : Option α) (f : α → Overrides) :
    ((orNotice notice x).map f).toOption = x.map f := by
  cases x with
  | none => rfl
  | some a => rfl

lemma solid_of_numerals {cs : List Char} (hne : cs ≠ []) (h : ∀ c ∈ cs, c ∈ numerals) :
    Solid cs := by
  have hall : ∀ c ∈ numerals, Text.isBlank c = false ∧ isPlain c = true :=
    List.all_iff_forall_prop.mp (by decide)
  exact ⟨hne, fun c hc => (hall c (h c hc)).1, fun c hc => (hall c (h c hc)).2⟩

/-- A written whole number can stand in a payload and is read back. -/
lemma of_writeWhole {n : ℤ} {s : String} (h : writeWhole n = .ok s) :
    Solid s.toList ∧ whole? s.toList = some n := by
  obtain ⟨hwritable, rfl⟩ := writeWhole_eq_ok_iff.mp h
  have hread := whole?_wholeChars hwritable
  rw [wholeText, String.toList_ofList]
  refine ⟨solid_of_numerals ?_ fun c hc => mem_numerals_of_mem_wholeChars hc, hread⟩
  intro hnil
  rw [hnil] at hread
  cases hread

/-- A written number of ticks is read back if it is within the bounds. -/
lemma ticks?_of_writeWhole {n : ℤ} {s : String} (h : writeWhole n = .ok s) :
    ticks? s.toList = (some n).filter fun n => decide (0 ≤ n ∧ n ≤ 32767) := by
  simp only [ticks?, (of_writeWhole h).2, Bool.decide_and]
  rfl

/-- The text of a floating-point number can stand in a payload, and the threshold that is read of it
is the number brought between 0 and 1. -/
lemma of_text (x : Binary64) :
    Solid x.text.toList ∧ threshold? x.text.toList = x.inUnitInterval := by
  have hsolid : ∀ {cs : List Char}, cs ≠ [] →
      (∀ c ∈ cs, Text.isBlank c = false ∧ isPlain c = true) → Solid cs :=
    fun hne h => ⟨hne, fun c hc => (h c hc).1, fun c hc => (h c hc).2⟩
  rw [Binary64.text, String.toList_ofList]
  -- the text of a finite number is read back as that number; the others are spelled out
  by_cases hfinite : x.isFinite = true
  · have hread := Binary64.ofChars?_chars hfinite
    refine ⟨solid_of_numerals ?_ fun c hc => Binary64.mem_numerals_of_mem_chars hfinite hc, ?_⟩
    · intro hnil
      rw [hnil] at hread
      cases hread
    · rw [threshold?, hread, Option.bind_some]
  · cases x with
    | finite => exact absurd rfl hfinite
    | nan =>
        exact ⟨hsolid (by decide) (List.all_iff_forall_prop.mp (by decide)), by decide⟩
    | infinite negative =>
        cases negative <;>
          exact ⟨hsolid (by decide) (List.all_iff_forall_prop.mp (by decide)), by decide⟩

/-- A written threshold can stand in a payload, and what is read of it is what takes effect. -/
lemma of_writeThreshold {t : Threshold} {s : String} (h : t.write = .ok s) :
    Solid s.toList ∧ threshold? s.toList = t.effective.toOption.join := by
  cases t with
  | real x =>
      cases h
      exact of_text x
  | whole n =>
      refine ⟨(of_writeWhole h).1, ?_⟩
      obtain ⟨-, rfl⟩ := writeWhole_eq_ok_iff.mp h
      rw [wholeText, String.toList_ofList, threshold?, Binary64.ofChars?_wholeChars,
        Option.bind_some, Threshold.effective, Threshold.toReal, Binary64.ofInt]
      cases Binary64.ofRatio (decide (n < 0)) n.natAbs 1 with
      | nan => rfl
      | infinite negative => rfl
      | finite negative significand scale hc => rfl

/-- A written truth value can stand in a payload and is read back. -/
lemma of_flagText (b : Bool) :
    Solid (flagText b).toList ∧ flagWord? (flagText b).toList = some b := by
  have hall : ∀ b, (flagText b).toList ≠ [] ∧ flagWord? (flagText b).toList = some b := by
    decide
  have hchars : ∀ c ∈ (flagText b).toList, Text.isBlank c = false ∧ isPlain c = true :=
    List.all_iff_forall_prop.mp (by cases b <;> decide)
  obtain ⟨hne, hread⟩ := hall b
  exact ⟨⟨hne, fun c hc => (hchars c hc).1, fun c hc => (hchars c hc).2⟩, hread⟩

end Settings

/-! ### What is left within the bounds -/

namespace Overrides

variable {o : Overrides}

/-- What is left of overrides within the bounds of their fields: texts that are empty or have a
blank go, negative levels become zero, times out of range go, and of a threshold the number is left
that takes effect.  A whole threshold beyond the range of floating-point numbers goes as well, since
its text is read as an infinity; only where it is to take effect is it a fault
(`Threshold.effective`). -/
def sanitized (o : Overrides) : Overrides where
  type := o.type.filter fun s => !s.isEmpty && !hasBlank s
  level := o.level.map (max 0)
  triggersGcd := o.triggersGcd
  castDuration := o.castDuration.filter fun n => decide (0 ≤ n ∧ n ≤ 32767)
  cooldown := o.cooldown.filter fun n => decide (0 ≤ n ∧ n ≤ 32767)
  detectionThreshold := (o.detectionThreshold.bind fun t => t.effective.toOption.join).map .real
  mask := o.mask.filter fun s => !s.isEmpty && !hasBlank s

/-- Settable overrides are within the bounds of their fields. -/
lemma SettableBy.sanitized_eq (h : o.SettableBy allowed) : o.sanitized = o := by
  have hfilter : ∀ {α : Type} {p : α → Bool} {x : Option α}, (∀ a ∈ x, p a = true) →
      x.filter p = x := by
    intro α p x hx
    cases x with
    | none => rfl
    | some a => rw [Option.filter_some, hx a rfl, if_pos rfl]
  have hword : ∀ {x : Option String}, (∀ s ∈ x, WordOver allowed s.toList) →
      x.filter (fun s => !s.isEmpty && !hasBlank s) = x := by
    intro x hx
    refine hfilter fun s hs => ?_
    rw [(hx s hs).isEmpty, (hx s hs).hasBlank]
    rfl
  have hticks : ∀ {x : Option ℤ}, (∀ n ∈ x, 0 ≤ n ∧ n ≤ maxTicks) →
      x.filter (fun n => decide (0 ≤ n ∧ n ≤ 32767)) = x :=
    fun hx => hfilter fun n hn => decide_eq_true (hx n hn)
  have hlevel : o.level.map (max 0) = o.level := by
    cases hl : o.level with
    | none => rfl
    | some n => rw [Option.map_some, max_eq_right (h.level n hl).1]
  have hthreshold : (o.detectionThreshold.bind fun t => t.effective.toOption.join).map .real =
      o.detectionThreshold := by
    cases ht : o.detectionThreshold with
    | none => rfl
    | some t =>
        obtain ⟨x, rfl, hx⟩ := h.threshold t ht
        rw [Option.bind_some, Threshold.effective_real, hx]
        rfl
  rw [sanitized, hword h.type, hlevel, hticks h.castDuration, hticks h.cooldown, hthreshold,
    hword h.mask]

/-- Overrides of one field each. -/
def parts (o : Overrides) : List Overrides :=
  (o.type.map fun s => { type := some s }).toList ++
    (o.level.map fun n => { level := some n }).toList ++
    (o.triggersGcd.map fun b => { triggersGcd := some b }).toList ++
    (o.castDuration.map fun n => { castDuration := some n }).toList ++
    (o.cooldown.map fun n => { cooldown := some n }).toList ++
    (o.detectionThreshold.map fun t => { detectionThreshold := some t }).toList ++
    (o.mask.map fun s => { mask := some s }).toList

/-- Overrides are made of their fields. -/
lemma foldl_parts (o : Overrides) : o.parts.foldl (fun base p => p.laidOver base) empty = o := by
  -- a field that is not there adds nothing, as does an override without a field
  have hfield : ∀ {α : Type} (f : Option α → Overrides) (a : Option α) (base : Overrides),
      f none = empty →
        (a.map fun b => f (some b)).toList.foldl (fun base p => p.laidOver base) base =
          (f a).laidOver base := by
    intro α f a base hf
    cases a with
    | none => rw [hf, empty_laidOver]; rfl
    | some b => rfl
  rw [parts]
  simp only [List.foldl_append]
  rw [hfield (fun s => { type := s }) _ _ rfl, hfield (fun n => { level := n }) _ _ rfl,
    hfield (fun b => { triggersGcd := b }) _ _ rfl, hfield (fun n => { castDuration := n }) _ _ rfl,
    hfield (fun n => { cooldown := n }) _ _ rfl,
    hfield (fun t => { detectionThreshold := t }) _ _ rfl, hfield (fun s => { mask := s }) _ _ rfl]
  simp [laidOver, empty]

/-- Overrides are merged from their fields. -/
lemma foldl_merge_parts (o : Overrides) :
    o.parts.foldl (fun acc p => Overrides.merge acc (some p)) none = o.nonempty? := by
  rw [foldl_merge_eq, foldl_parts]

end Overrides

/-! ### Overrides are read back -/

namespace Settings

variable {o : Overrides}

/-- The pairs of overrides set their fields, as far as these are within the bounds. -/
lemma writes_pairs {ps : List String} (hplain : ∀ c, isPlain c = true → allowed c)
    (htype : ∀ s ∈ o.type, ∀ c ∈ s.toList, allowed c)
    (hmask : ∀ s ∈ o.mask, ∀ c ∈ s.toList, allowed c) (h : pairs o = .ok ps) :
    Writes allowed ps o.sanitized.parts := by
  rw [pairs] at h
  obtain ⟨level, hlevel, h⟩ := bind_eq_ok_iff.mp h
  obtain ⟨castDuration, hcast, h⟩ := bind_eq_ok_iff.mp h
  obtain ⟨cooldown, hcooldown, h⟩ := bind_eq_ok_iff.mp h
  obtain ⟨threshold, hthreshold, h⟩ := bind_eq_ok_iff.mp h
  cases h
  -- a pair is read as what is left of its field, and is missing if nothing is set
  have htype : Writes allowed (textPair "type" o.type)
      (o.sanitized.type.map fun s => { type := some s }).toList :=
    writes_textPair hplain (by decide) htype fun s line => by simp [readField]
  have hmask : Writes allowed (textPair "mask" o.mask)
      (o.sanitized.mask.map fun s => { mask := some s }).toList :=
    writes_textPair hplain (by decide) hmask fun s line => by simp [readField]
  have hlevel := writes_valuePair hplain
    (x := o.sanitized.level.map fun n => { level := some n }) (by decide) hlevel
    (fun hl => by simp [Overrides.sanitized, hl])
    fun n hl s hs => ⟨(of_writeWhole hs).1, fun line => by
      simp [Overrides.sanitized, hl, readField, toOption_orNotice, (of_writeWhole hs).2,
        atLeastZero]⟩
  have hcast := writes_valuePair hplain
    (x := o.sanitized.castDuration.map fun n => { castDuration := some n }) (by decide) hcast
    (fun hc => by simp [Overrides.sanitized, hc])
    fun n hc s hs => ⟨(of_writeWhole hs).1, fun line => by
      rw [Overrides.sanitized, hc, ← ticks?_of_writeWhole hs]
      simp [readField, toOption_orNotice]⟩
  have hcooldown := writes_valuePair hplain
    (x := o.sanitized.cooldown.map fun n => { cooldown := some n }) (by decide) hcooldown
    (fun hc => by simp [Overrides.sanitized, hc])
    fun n hc s hs => ⟨(of_writeWhole hs).1, fun line => by
      rw [Overrides.sanitized, hc, ← ticks?_of_writeWhole hs]
      simp [readField, toOption_orNotice]⟩
  have hthreshold := writes_valuePair hplain
    (x := o.sanitized.detectionThreshold.map fun t => { detectionThreshold := some t })
    (by decide) hthreshold (fun ht => by simp [Overrides.sanitized, ht])
    fun t ht s hs => ⟨(of_writeThreshold hs).1, fun line => by
      rw [Overrides.sanitized, ht, Option.bind_some, ← (of_writeThreshold hs).2]
      simp [readField, toOption_orNotice, Function.comp_def]⟩
  have hflag : Writes allowed (o.triggersGcd.map fun b => pair "triggers_gcd" (flagText b)).toList
      (o.sanitized.triggersGcd.map fun b => { triggersGcd := some b }).toList := by
    rw [Overrides.sanitized]
    cases o.triggersGcd with
    | none => exact writes_nil
    | some b =>
        obtain ⟨hsolid, hread⟩ := of_flagText b
        exact writes_pair hplain (x := some { triggersGcd := some b }) (by decide)
          (wordOver_of_solid hplain hsolid) fun line => by
            simp [readField, toOption_orNotice, hread]
  exact (((((htype.append hlevel).append hflag).append hcast).append hcooldown).append
    hthreshold).append hmask

/-- What is written for overrides: words that set what is left of them within the bounds. -/
lemma exists_pairs {s : String} (hplain : ∀ c, isPlain c = true → allowed c)
    (htype : ∀ s ∈ o.type, ∀ c ∈ s.toList, allowed c)
    (hmask : ∀ s ∈ o.mask, ∀ c ∈ s.toList, allowed c) (h : write (some o) = .ok s) :
    ∃ ps, s.toList = [' '].intercalate (ps.map String.toList) ∧
      Writes allowed ps o.sanitized.parts := by
  obtain ⟨ps, hps, rfl⟩ := map_eq_ok_iff.mp h
  exact ⟨ps, String.toList_intercalate, writes_pairs hplain htype hmask hps⟩

lemma Writes.forall_word {ps : List String} {os : List Overrides} (h : Writes allowed ps os) :
    ∀ w ∈ ps.map String.toList, WordOver allowed w := by
  intro w hw
  obtain ⟨p, hp, rfl⟩ := List.mem_map.mp hw
  exact h.word p hp

/-- The words that are written for overrides can be read. -/
lemma Writes.read {ps : List String} {os : List Overrides} (h : Writes allowed ps os)
    (line : String) : read ([' '].intercalate (ps.map String.toList)) line =
      os.foldl (fun acc o => Overrides.merge acc (some o)) none := by
  rw [Settings.read, words_intercalate h.forall_word, h.fields]

/-- What is read of written overrides is what is left of them within the bounds. -/
lemma read_of_write {s : String} (h : write (some o) = .ok s) (line : String) :
    read s.toList line = o.sanitized.nonempty? := by
  obtain ⟨ps, hs, hwrites⟩ : ∃ ps, s.toList = [' '].intercalate (ps.map String.toList) ∧
      Writes (fun _ => True) ps o.sanitized.parts :=
    exists_pairs (fun _ _ => trivial) (fun _ _ _ _ => trivial) (fun _ _ _ _ => trivial) h
  rw [hs, hwrites.read, Overrides.foldl_merge_parts]

/-- A written payload can stand at the end of a line. -/
lemma line_write {s : String} (ho : o.Readable) (hne : o.isEmpty = false)
    (h : write (some o) = .ok s) :
    s.toList ≠ [] ∧ Tight s.toList ∧ ∀ c ∈ s.toList, isPlain c = true := by
  obtain ⟨ps, hs, hwrites⟩ := exists_pairs (fun _ hc => hc) (fun s hs => (ho.type s hs).allowed)
    (fun s hs => (ho.mask s hs).allowed) h
  have hps : ps ≠ [] := by
    rintro rfl
    have hparts := hwrites.read ""
    rw [Overrides.foldl_merge_parts, ho.sanitized_eq, Overrides.nonempty?_of_isEmpty hne] at hparts
    cases hparts
  obtain ⟨hnil, htight⟩ :=
    tight_intercalate (fun heq => hps (List.map_eq_nil_iff.mp heq)) hwrites.forall_word
  rw [hs]
  refine ⟨hnil, htight, fun c hc => ?_⟩
  rcases mem_intercalate hc with hc | ⟨w, hw, hc⟩
  · rw [List.mem_singleton.mp hc]
    decide
  · exact (hwrites.forall_word w hw).allowed c hc

/-- **Payloads are read back.**  Readable overrides with a field are read from the payload that is
written for them. -/
theorem read_write {s : String} (ho : o.Readable) (hne : o.isEmpty = false)
    (h : write (some o) = .ok s) (line : String) : read s.toList line = some o := by
  rw [read_of_write h, ho.sanitized_eq, Overrides.nonempty?_of_isEmpty hne]

end Settings

end AbilityRotation
