import AbilityRotation.Proofs.Modifier.Records
import AbilityRotation.Proofs.Rotation.Accepted
import AbilityRotation.Timing.StepTimer

/-!
How long steps can last.

Whatever a tick value comes from, be it the database, a modifier or a settings line, it is brought
into the same range where it is read.  The layers of an occurrence and the projection to timing keep
it there, so that the length of a step is bounded.
* `Ability.Regular`, `Effect.Normal`, `Overrides.Readable`: what each source can give.
* `Resolver.decided_ticks_le`: what the layers make of it.
* `TimingProfile.largestTicks_le`: what timing makes of that.
* `duration_of_parse`: a step of a text always has a length, which is a whole number of ticks and
  fits into 31 bits.
-/

namespace AbilityRotation

open Number

/-! ### Sources of ticks -/

namespace Catalog

variable {c : Catalog} {ability name : String} {names : List String}

/-- What the last modifier sets is set by the effect of one of them. -/
lemma exists_of_lastEffect {α : Type} {field : Effect → Option α} {a : α}
    (h : c.lastEffect ability names field = some a) :
    ∃ name m, c.named? name = some m ∧ field m.effect = some a := by
  obtain ⟨name, -, ha⟩ := List.exists_of_findSome?_eq_some h
  obtain ⟨e, he, hfield⟩ := Option.bind_eq_some_iff.mp ha
  obtain ⟨m, hm, rfl⟩ := Option.map_eq_some_iff.mp he
  exact ⟨name, m, (Option.filter_eq_some_iff.mp hm).1, hfield⟩

/-- The effects of a catalog that is read from a raw record are in range. -/
lemma normal_effect_of_ofRaw {raw : Raw} {notices : List Notice} {m : Modifier}
    (h : Catalog.ofRaw raw = .ok (c, notices)) (hm : c.named? name = some m) :
    m.effect.Normal := by
  obtain ⟨ms, hms, rfl⟩ := exists_normal_of_ofRaw h
  rcases Option.or_eq_some_iff.mp hm with hm | ⟨-, hm⟩
  · exact (hms m (mem_of_definition? hm)).effect
  · exact (hms m (mem_of_resolve hm)).effect

end Catalog

/-! ### Layers -/

namespace Resolver

variable {r : Resolver} {u : AbilityUse} {base : Ability}

/-- What is decided is bounded by what bounds every layer. -/
lemma toNat_getD_or_le {own modified shared : Option ℤ} {n bound : ℤ} (hown : ∀ x ∈ own, x ≤ bound)
    (hmodified : ∀ x ∈ modified, x ≤ bound) (hshared : ∀ x ∈ shared, x ≤ bound) (hn : n ≤ bound) :
    ((((own.or modified).or shared).getD n).toNat : ℤ) ≤ max 0 bound := by
  have hdecided : ((own.or modified).or shared).getD n ≤ bound := by
    cases own with
    | some x => exact hown x rfl
    | none =>
        cases modified with
        | some x => exact hmodified x rfl
        | none =>
            cases shared with
            | some x => exact hshared x rfl
            | none => exact hn
  omega

/-- The ticks that the layers decide are in range if those of all layers are. -/
lemma decided_ticks_le (y : Option Binary64)
    (hown : (u.overrides.getD Overrides.empty).Readable)
    (hmodified : ∀ name m, r.catalog.named? name = some m → m.effect.Normal)
    (hshared : ((r.settings u).getD Overrides.empty).Readable)
    (hbase : base.castDuration ≤ maxTicks ∧ base.cooldown ≤ maxTicks) :
    (r.decided u base y).castDuration ≤ 32767 ∧ (r.decided u base y).cooldown ≤ 32767 := by
  have heffect {field : Effect → Option ℤ}
      (hfield : ∀ e : Effect, e.Normal → ∀ n ∈ field e, n ≤ maxTicks) :
      ∀ n ∈ r.modified? u field, n ≤ maxTicks := by
    intro n hn
    obtain ⟨name, m, hm, hset⟩ := Catalog.exists_of_lastEffect hn
    exact hfield m.effect (hmodified name m hm) n hset
  have hcast := toNat_getD_or_le (fun n hn => (hown.castDuration n hn).2)
    (heffect fun _ he n hn => (he.castDuration n hn).2)
    (fun n hn => (hshared.castDuration n hn).2) hbase.1
  have hcooldown := toNat_getD_or_le (fun n hn => (hown.cooldown n hn).2)
    (heffect fun _ he n hn => (he.cooldown n hn).2) (fun n hn => (hshared.cooldown n hn).2) hbase.2
  have hmax : max 0 maxTicks = 32767 := rfl
  rw [hmax] at hcast hcooldown
  exact ⟨Int.ofNat_le.mp hcast, Int.ofNat_le.mp hcooldown⟩

end Resolver

/-! ### Timing -/

namespace TimingProfile

/-- An ability keeps its step busy for its cast, for the global cooldown or for its own. -/
lemma effectiveTicks_le {gcd : ℤ} {bound : ℕ} {p : TimingProfile} (hcast : p.castTicks ≤ bound)
    (hcooldown : p.cooldownTicks ≤ bound) (hgcd : p.gcdOverride.getD gcd.toNat ≤ bound) :
    p.effectiveTicks gcd ≤ bound := by
  rw [effectiveTicks, max_le_iff]
  refine ⟨?_, hcooldown⟩
  split_ifs
  · exact hcast
  · exact hgcd
  · exact Nat.zero_le bound

/-- The largest number of ticks is bounded by what bounds all of them. -/
lemma largestTicks_le {gcd : ℤ} {bound : ℕ} {ps : List TimingProfile}
    (h : ∀ p ∈ ps, p.effectiveTicks gcd ≤ bound) : largestTicks gcd ps ≤ bound := by
  have hfold : ∀ n ≤ bound, ps.foldl (fun n p => max n (p.effectiveTicks gcd)) n ≤ bound := by
    induction ps with
    | nil => exact fun n hn => hn
    | cons p ps ih =>
        intro n hn
        rw [List.forall_mem_cons] at h
        exact ih h.2 _ (max_le hn h.1)
  exact hfold 0 (Nat.zero_le bound)

end TimingProfile

/-- The parameters of timing that are read from a raw record. -/
lemma TimingConfig.bounds_ofRaw {raw : Raw} {config : TimingConfig}
    (h : TimingConfig.ofRaw raw = .ok config) :
    (1 ≤ config.tickMs ∧ config.tickMs ≤ 60000) ∧
      0 ≤ config.defaultGcdTicks ∧ config.defaultGcdTicks ≤ 100 := by
  simp only [TimingConfig.ofRaw, bind_eq_ok_iff, Except.ok.injEq] at h
  obtain ⟨tickMs, -, gcd, -, rfl⟩ := h
  exact ⟨clamp_mem (by decide) tickMs, clamp_mem (by decide) gcd⟩

/-! ### Steps of a text -/

section Texts

variable {options : ParseOptions} {text : String} {d : Rotation} {rawDatabase rawCatalog : Raw}
  {db : Database} {c : Catalog} {notices : List Notice} {u : AbilityUse} {s : Step}

/-- A use that was read is resolved if its ability is known, and its ticks are in range. -/
lemma use_of_parse (h : Rotation.parse options text = .ok d)
    (hdb : Database.ofRaw rawDatabase = .ok db)
    (hc : Catalog.ofRaw rawCatalog = .ok (c, notices)) (hu : u ∈ d.abilities) {base : Ability}
    (hbase : db.lookup u.key = some base) :
    ∃ e, Resolver.use ⟨db, c, d.abilityOverrides⟩ u = .ok e ∧
      e.castDuration ≤ 32767 ∧ e.cooldown ≤ 32767 := by
  obtain ⟨e, he⟩ := Resolver.exists_use_iff.mpr
    ⟨base, hbase,
      inRange_thresholds_of_parse (c := c) h hu (Database.inRange_ofRaw hdb u.key base hbase)⟩
  obtain ⟨base', y, hbase', -, rfl⟩ := Resolver.of_use_eq_ok he
  refine ⟨_, he, Resolver.decided_ticks_le y (readable_overrides_of_parse h hu)
    (fun name m hm => Catalog.normal_effect_of_ofRaw hc hm) (readable_settings_of_parse h u) ?_⟩
  have hbase := (Database.regular_ofRaw hdb).of_lookup hbase'
  exact ⟨hbase.castDuration.2, hbase.cooldown.2⟩

/-- The uses in one of the steps are among those in all of them. -/
lemma mem_abilitiesOfSteps {ss : List Step} (hs : s ∈ ss) (hu : u ∈ s.abilities) :
    u ∈ abilitiesOfSteps ss := by
  induction ss with
  | nil => cases hs
  | cons s' ss ih =>
      rw [abilitiesOfSteps, List.mem_append]
      rcases List.mem_cons.mp hs with rfl | hs
      · exact .inl hu
      · exact .inr (ih hs)

/-- A step that was read is resolved, and all ticks in it are in range. -/
lemma step_of_parse (h : Rotation.parse options text = .ok d)
    (hdb : Database.ofRaw rawDatabase = .ok db)
    (hc : Catalog.ofRaw rawCatalog = .ok (c, notices)) (hs : s ∈ d.steps) :
    ∃ es, Resolver.step ⟨db, c, d.abilityOverrides⟩ false s = .ok es ∧
      ∀ e ∈ es, e.castDuration ≤ 32767 ∧ e.cooldown ≤ 32767 := by
  let r : Resolver := ⟨db, c, d.abilityOverrides⟩
  have huses : ∀ u ∈ s.abilities.filter (r.considers false), ∃ e, r.use u = .ok e ∧
      e.castDuration ≤ 32767 ∧ e.cooldown ≤ 32767 := by
    intro u hu
    obtain ⟨hmem, hknown⟩ := List.mem_filter.mp hu
    obtain ⟨base, hbase⟩ := Option.isSome_iff_exists.mp hknown
    exact use_of_parse h hdb hc (mem_abilitiesOfSteps hs hmem) hbase
  obtain ⟨es, hes⟩ := exists_mapM_eq_ok_iff.mpr fun u hu => (huses u hu).imp fun _ => And.left
  refine ⟨es, (Resolver.step_eq r false s).trans hes, fun e he => ?_⟩
  obtain ⟨u, hu, hue⟩ := exists_of_mem_mapM hes he
  obtain ⟨e', he', hticks⟩ := huses u hu
  obtain rfl := Except.ok.inj (hue.symm.trans he')
  exact hticks

/-- **Steps of a text have bounded lengths.**  With data, modifiers and parameters that are read
from raw records, each step of a text that is read can be started, and lasts for a whole number of
ticks, of which there are at most 32767; so its length in milliseconds fits into 31 bits. -/
theorem duration_of_parse {rawTiming : Raw} {t : StepTimer}
    (h : Rotation.parse options text = .ok d) (hdb : Database.ofRaw rawDatabase = .ok db)
    (hc : Catalog.ofRaw rawCatalog = .ok (c, notices))
    (hconfig : TimingConfig.ofRaw rawTiming = .ok t.config) (hs : s ∈ d.steps) (now : ℤ) :
    ∃ ms : ℤ, t.stepDuration ⟨db, c, d.abilityOverrides⟩ (fun _ => none) s = .ok ms ∧
      t.startAt ⟨db, c, d.abilityOverrides⟩ (fun _ => none) s (.whole now) =
        .ok { t with snapshot := .started ms now } ∧
      t.config.tickMs ∣ ms ∧ 0 ≤ ms ∧ ms ≤ 32767 * t.config.tickMs ∧ ms ≤ 1966020000 ∧
      ms < 2 ^ 31 := by
  obtain ⟨es, hes, hticks⟩ := step_of_parse h hdb hc hs
  obtain ⟨⟨hpos, htick⟩, -, hgcd⟩ := TimingConfig.bounds_ofRaw hconfig
  let n := TimingProfile.largestTicks t.config.defaultGcdTicks (es.map .ofEffective)
  have hn : n ≤ 32767 := by
    refine TimingProfile.largestTicks_le fun p hp => ?_
    obtain ⟨e, he, rfl⟩ := List.mem_map.mp hp
    refine TimingProfile.effectiveTicks_le (hticks e he).1 (hticks e he).2 ?_
    change t.config.defaultGcdTicks.toNat ≤ 32767
    omega
  have hduration : t.stepDuration ⟨db, c, d.abilityOverrides⟩ (fun _ => none) s =
      .ok (n * t.config.tickMs) := by
    rw [StepTimer.stepDuration, Resolver.stepTicks, Resolver.profiles, hes]
    rfl
  have hle : (n : ℤ) * t.config.tickMs ≤ 32767 * t.config.tickMs :=
    mul_le_mul_of_nonneg_right (by omega) (by omega)
  have hmax : 32767 * t.config.tickMs ≤ 1966020000 := by omega
  refine ⟨n * t.config.tickMs, hduration, ?_, Dvd.intro_left _ rfl,
    mul_nonneg (by omega) (by omega), hle, hle.trans hmax,
    (hle.trans hmax).trans_lt (by norm_num)⟩
  rw [StepTimer.startAt, hduration]
  rfl

end Texts

/-- A raw record of `assault` with a cast that is much too long. -/
def slowRecord : Raw :=
  .record [(.text "assault", .record [(.text "cast_duration", .whole 1000000)])]

/-- What is read of that record. -/
def slowDatabase : Database :=
  Database.withAbility ⟨Table.empty⟩ "assault" { castDuration := maxTicks }

/-- A raw record that asks for ticks of more than a minute. -/
def slowTiming : Raw :=
  .record [(.text "tick_ms", .whole 1000000)]

/-- The longest step of all: a cast and ticks that are both too long are cut to their bounds, and
the bound on the length is reached. -/
theorem duration_of_parse_slow :
    let d : Rotation := ⟨[[[.ability { key := "assault" }]]], Table.empty⟩
    let t : StepTimer := { config := ⟨60000, 3⟩ }
    Rotation.parse {} "assault" = .ok d ∧ Database.ofRaw slowRecord = .ok slowDatabase ∧
      Catalog.ofRaw (.record []) = .ok (Catalog.empty, []) ∧
      TimingConfig.ofRaw slowTiming = .ok t.config ∧
      ∃ ms : ℤ, ms = 1966020000 ∧
        t.startAt ⟨slowDatabase, Catalog.empty, d.abilityOverrides⟩ (fun _ => none)
          [[.ability { key := "assault" }]] (.whole 0) =
            .ok { t with snapshot := .started ms 0 } ∧
        t.config.tickMs ∣ ms ∧ ms < 2 ^ 31 := by
  intro d t
  have hparse : Rotation.parse {} "assault" = .ok d := by
    refine ofSplit_alternative [⟨.word ⟨"assault", none⟩, 0, false⟩] (by decide)
      (by decide +kernel) ?_ (by decide) (by decide)
    exact .between rfl (.plain rfl (by decide) (by decide)) rfl
  have hdb : Database.ofRaw slowRecord = .ok slowDatabase := by decide
  have hc : Catalog.ofRaw (.record []) = .ok (Catalog.empty, []) := by decide
  have hconfig : TimingConfig.ofRaw slowTiming = .ok t.config := by decide
  obtain ⟨ms, hduration, hstart, hdvd, -, -, -, hlt⟩ :=
    duration_of_parse hparse hdb hc hconfig (List.mem_singleton.mpr rfl) 0
  refine ⟨hparse, hdb, hc, hconfig, ms, ?_, hstart, hdvd, hlt⟩
  have hlongest : t.stepDuration ⟨slowDatabase, Catalog.empty, d.abilityOverrides⟩ (fun _ => none)
      [[.ability { key := "assault" }]] = .ok 1966020000 := by decide
  exact Except.ok.inj (hduration.symm.trans hlongest)

end AbilityRotation
