import AbilityRotation.Proofs.Settings.Payload

/-!
Writing a payload and reading it cleans overrides.

Overrides can be written as long as their numbers have not too many digits (`Writable`), whether or
not their fields are within the bounds.  What is read of the payload is what is left of them within
the bounds, so reading can only give what is read again unchanged.
* `exists_write`: writable overrides are written.
* `read_write_sanitized`: what is read of what is written.
-/

namespace AbilityRotation

open Number Text

/-- Whether all numbers of the overrides can be written. -/
structure Overrides.Writable (o : Overrides) : Prop where
  /-- The level has not too many digits. -/
  level : ∀ n ∈ o.level, Number.Writable n
  /-- The time for casting has not too many digits. -/
  castDuration : ∀ n ∈ o.castDuration, Number.Writable n
  /-- The cooldown has not too many digits. -/
  cooldown : ∀ n ∈ o.cooldown, Number.Writable n
  /-- The threshold has not too many digits if it is a whole number. -/
  threshold : ∀ n : ℤ, o.detectionThreshold = some (.whole n) → Number.Writable n

namespace Settings

variable {allowed : Char → Prop} {o : Overrides}

lemma writable_of_ticks {n : ℤ} (h : 0 ≤ n ∧ n ≤ maxTicks) : Number.Writable n := by
  have hle : n ≤ 32767 := h.2
  exact writable_of_lt (by omega)

/-- What a payload can set can be written. -/
lemma writable_of_settable (h : o.SettableBy allowed) : o.Writable where
  level n hn := (h.level n hn).2
  castDuration n hn := writable_of_ticks (h.castDuration n hn)
  cooldown n hn := writable_of_ticks (h.cooldown n hn)
  threshold n hn := by
    obtain ⟨x, hx, -⟩ := h.threshold _ hn
    cases hx

/-- A value is written if its text is. -/
lemma exists_valuePair {α : Type} {a : Option α} {text : α → Except Fault String} (key : String)
    (h : ∀ b ∈ a, ∃ s, text b = .ok s) : ∃ ps, valuePair key a text = .ok ps := by
  cases a with
  | none => exact ⟨[], rfl⟩
  | some b =>
      obtain ⟨s, hs⟩ := h b rfl
      exact ⟨[pair key s], map_eq_ok_iff.mpr ⟨s, hs, rfl⟩⟩

/-- Overrides whose numbers have not too many digits are written. -/
lemma exists_write (h : o.Writable) : ∃ s, write (some o) = .ok s := by
  have hwhole : ∀ {x : Option ℤ}, (∀ n ∈ x, Number.Writable n) →
      ∀ n ∈ x, ∃ s, writeWhole n = .ok s :=
    fun hx n hn => exists_writeWhole_iff.mpr (hx n hn)
  have hthreshold : ∀ t ∈ o.detectionThreshold, ∃ s, Threshold.write t = .ok s := by
    intro t ht
    cases t with
    | real x => exact ⟨x.text, rfl⟩
    | whole n => exact exists_writeWhole_iff.mpr (h.threshold n ht)
  obtain ⟨level, hlevel⟩ := exists_valuePair "level" (hwhole h.level)
  obtain ⟨castDuration, hcast⟩ := exists_valuePair "cast_duration" (hwhole h.castDuration)
  obtain ⟨cooldown, hcooldown⟩ := exists_valuePair "cooldown" (hwhole h.cooldown)
  obtain ⟨threshold, hthreshold⟩ := exists_valuePair "detection_threshold" hthreshold
  rw [write, pairs, hlevel, hcast, hcooldown, hthreshold]
  exact ⟨_, rfl⟩

/-- What is read is left unchanged when it is written and read again. -/
lemma sanitized_of_read {payload : List Char} {line : String} (h : read payload line = some o) :
    o.Writable ∧ o.sanitized.nonempty? = some o := by
  obtain ⟨hsettable, hne⟩ : (o.SettableBy fun _ => True) ∧ o.isEmpty = false :=
    settable_read (fun _ _ => trivial) h
  refine ⟨writable_of_settable hsettable, ?_⟩
  rw [hsettable.sanitized_eq, Overrides.nonempty?_of_isEmpty hne]

/-- **Writing and reading cleans overrides.**  All overrides whose numbers have not too many digits
can be written, and what is read of the payload is what is left of them within the bounds: texts
that are not empty and have no blank, the level or zero, times from 0 to 32767, the threshold that
takes effect and the truth value.  It is nothing if no field is left.  So what is read of any
payload is read again from the payload that is written for it. -/
theorem read_write_sanitized :
    (∀ o : Overrides, o.Writable → ∃ s, write (some o) = .ok s ∧
      ∀ line, read s.toList line = o.sanitized.nonempty?) ∧
    ∀ payload line, ∃ s, write (read payload line) = .ok s ∧
      ∀ line', read s.toList line' = read payload line := by
  constructor
  · intro o ho
    obtain ⟨s, hs⟩ := exists_write ho
    exact ⟨s, hs, read_of_write hs⟩
  · intro payload line
    cases hread : read payload line with
    | none => exact ⟨"", rfl, fun _ => rfl⟩
    | some o =>
        obtain ⟨hwritable, hsame⟩ := sanitized_of_read hread
        obtain ⟨s, hs⟩ := exists_write hwritable
        exact ⟨s, hs, fun line' => by rw [read_of_write hs, hsame]⟩

/-- A kind may hold the sign that separates keys from values.  Of a negative level zero is left, and
of a time out of range, a threshold that is no number and a mask with a blank nothing. -/
theorem read_write_sanitized_mixed :
    let o : Overrides :=
      { type := some "a=b", level := some (-3), triggersGcd := some false,
        castDuration := some 32768, cooldown := some 32767,
        detectionThreshold := some (.real .nan), mask := some "x y" }
    o.Writable ∧ ∃ s, write (some o) = .ok s ∧ ∀ line, read s.toList line = some
      { type := some "a=b", level := some 0, triggersGcd := some false,
        cooldown := some 32767 } := by
  intro o
  have hwritable : o.Writable := by
    refine ⟨?_, ?_, ?_, ?_⟩
    · rintro n ⟨⟩
      exact writable_of_lt (by decide)
    · rintro n ⟨⟩
      exact writable_of_lt (by decide)
    · rintro n ⟨⟩
      exact writable_of_lt (by decide)
    · rintro n ⟨⟩
  obtain ⟨s, hs, hread⟩ := read_write_sanitized.1 o hwritable
  refine ⟨hwritable, s, hs, fun line => ?_⟩
  rw [hread]
  decide

end Settings

end AbilityRotation
