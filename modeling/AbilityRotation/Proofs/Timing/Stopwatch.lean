import AbilityRotation.Proofs.Timing.Operations

/-!
The timer is a stopwatch.

A stopwatch counts the time for which it runs, as it goes along: at each event it adds what has
passed since the last one, unless it is frozen.  The timer keeps no count but a start, which a force
moves, and an account of pauses.
* `Stopwatch.perform` is what an operation on the timer does to a stopwatch.
* `Agree` relates a snapshot to a stopwatch; `Agree.next` keeps it through one operation and
  `Agree.run` through several, as long as no pause ends before it has begun.
* `elapsedAt_run`: the timer shows what a stopwatch shows.
-/

namespace AbilityRotation

/-- A stopwatch that counts running time. -/
structure Stopwatch where
  /-- The running time that is counted; nothing before any start. -/
  counted : Option ℤ := none
  /-- The instant up to which running time is counted. -/
  seen : ℤ := 0
  /-- Whether the time stands still. -/
  frozen : Bool := false
  /-- The length of the present step. -/
  duration : ℤ := 0
  deriving DecidableEq, Repr

namespace Stopwatch

/-- The stopwatch at a later instant. -/
def advance (w : Stopwatch) (now : ℤ) : Stopwatch :=
  { w with
    counted := if w.frozen then w.counted else w.counted.map (· + (now - w.seen))
    seen := now }

/-- What the stopwatch shows at an instant. -/
def reading (w : Stopwatch) (now : ℤ) : ℤ :=
  (w.advance now).counted.getD 0

/-- A stopwatch that begins to run at zero. -/
def started (duration now : ℤ) : Stopwatch :=
  { counted := some 0, seen := now, duration := duration }

/-- What an operation on a timer with the given parameters does to a stopwatch. -/
def perform (config : TimingConfig) (w : Stopwatch) : TimerOperation → Stopwatch
  | .start r transform s now =>
      match StepTimer.stepDuration { config := config } r transform s with
      | .ok duration => started duration now
      | .error _ => w
  | .restart now => started w.duration now
  | .pause now => if w.frozen then w else { w.advance now with frozen := true }
  | .resume now => if w.frozen then { w.advance now with frozen := false } else w
  | .forceSatisfied now =>
      if w.frozen then w else { w.advance now with counted := some w.duration }
  | .setDuration ms => { w with duration := max 0 ms }
  | .reset => {}

/-- A new stopwatch after operations. -/
def run (config : TimingConfig) (os : List TimerOperation) : Stopwatch :=
  os.foldl (perform config) {}

end Stopwatch

/-- A snapshot and a stopwatch that show the same. -/
structure Agree (s : Snapshot) (w : Stopwatch) : Prop where
  /-- The steps last equally long. -/
  duration : w.duration = s.duration
  /-- Both stand still or neither does. -/
  frozen : w.frozen = s.paused
  /-- A pause began when time was last counted. -/
  pausedAt : s.paused = true → s.pausedAt = w.seen
  /-- What is counted is the time since the start without the past pauses. -/
  counted : w.counted = s.start.map fun start => w.seen - start - s.totalPaused

namespace Agree

variable {s : Snapshot} {w : Stopwatch} {t : StepTimer} {now : ℤ}

lemma initial : Agree Snapshot.initial {} :=
  ⟨rfl, rfl, nofun, rfl⟩

lemma started (duration now : ℤ) : Agree (.started duration now) (.started duration now) := by
  refine ⟨rfl, rfl, nofun, ?_⟩
  simp [Stopwatch.started, Snapshot.started]

/-- Time that runs is counted in the same way. -/
lemma advance (h : Agree s w) (hs : s.paused = false) (now : ℤ) :
    (w.advance now).counted = s.start.map fun start => now - start - s.totalPaused := by
  have hw : w.frozen = false := h.frozen.trans hs
  simp only [Stopwatch.advance, hw, h.counted]
  cases s.start with
  | none => rfl
  | some start => simp; ring

lemma pause (h : Agree s w) (now : ℤ) :
    Agree (s.pause now) (if w.frozen then w else { w.advance now with frozen := true }) := by
  rw [Snapshot.pause, h.frozen]
  split
  · exact h
  · next hs =>
      rw [Bool.not_eq_true] at hs
      exact ⟨h.duration, rfl, fun _ => rfl, h.advance hs now⟩

/-- A pause that has not ended before it began lasts for the time that is not counted. -/
lemma resume (h : Agree s w) (hnow : s.paused = true → w.seen ≤ now) :
    Agree (s.resume now) (if w.frozen then { w.advance now with frozen := false } else w) := by
  rw [Snapshot.resume, h.frozen]
  split
  · next hs =>
      have hw : w.frozen = true := h.frozen.trans hs
      -- time has not run backwards, so what is cut off at zero does not matter
      have hpause : max 0 (now - s.pausedAt) = now - w.seen := by
        have := hnow hs
        rw [h.pausedAt hs]
        omega
      refine ⟨h.duration, rfl, fun hp => absurd hp Bool.false_ne_true, ?_⟩
      simp only [Stopwatch.advance, hw, if_true, h.counted, hpause]
      cases s.start with
      | none => rfl
      | some start => simp; ring
  · exact h

lemma forceSatisfied (h : Agree s w) (now : ℤ) :
    Agree (s.forceSatisfied now)
      (if w.frozen then w else { w.advance now with counted := some w.duration }) := by
  rw [Snapshot.forceSatisfied, h.frozen]
  split
  · exact h
  · next hs =>
      refine ⟨h.duration, h.frozen, fun hp => absurd hp hs, ?_⟩
      simp only [Stopwatch.advance, h.duration, Option.map_some]
      congr 1
      ring

lemma setDuration (h : Agree s w) (ms : ℤ) :
    Agree (s.setDuration ms) { w with duration := max 0 ms } :=
  ⟨rfl, h.frozen, h.pausedAt, h.counted⟩

/-- **One operation.**  An operation keeps a timer and a stopwatch in agreement, unless it ends a
pause at an instant before it. -/
theorem next (h : Agree t.snapshot w) (o : TimerOperation)
    (ho : w.frozen = true → ∀ now ∈ o.instant?, w.seen ≤ now) :
    Agree (t.next o).snapshot (w.perform t.config o) := by
  cases o with
  | start r transform s now =>
      have hduration : StepTimer.stepDuration { config := t.config } r transform s =
        t.stepDuration r transform s := rfl
      rw [t.next_start, Stopwatch.perform, hduration]
      cases t.stepDuration r transform s with
      | ok ms => exact started ms now
      | error fault => exact h
  | restart now =>
      rw [t.next_restart, Stopwatch.perform, h.duration]
      exact started _ now
  | pause now =>
      rw [t.next_pause]
      exact h.pause now
  | resume now =>
      rw [t.next_resume]
      exact h.resume fun hs => ho (h.frozen.trans hs) now rfl
  | forceSatisfied now =>
      rw [t.next_forceSatisfied]
      exact h.forceSatisfied now
  | setDuration ms => exact h.setDuration ms
  | reset => exact initial

/-- Where a stopwatch stands still after an operation, it did so before, or time has been counted up
to the instant of the operation. -/
lemma seen_perform {config : TimingConfig} {o : TimerOperation}
    (h : (w.perform config o).frozen = true) :
    (w.frozen = true ∧ (w.perform config o).seen = w.seen) ∨
      o.instant? = some (w.perform config o).seen := by
  cases o with
  | start r transform s now =>
      rw [Stopwatch.perform] at h ⊢
      split
      · exact .inr rfl
      · next heq =>
          rw [heq] at h
          exact .inl ⟨h, rfl⟩
  | restart now => exact .inr rfl
  | pause now | forceSatisfied now =>
      rw [Stopwatch.perform] at h ⊢
      split
      · next hw => exact .inl ⟨hw, rfl⟩
      · exact .inr rfl
  | resume now =>
      rw [Stopwatch.perform] at h ⊢
      split
      · exact .inr rfl
      · next hw =>
          rw [if_neg hw] at h
          exact absurd h hw
  | setDuration ms => exact .inl ⟨h, rfl⟩
  | reset => cases h

/-- **A run.**  Operations at instants that never decrease keep a timer and a stopwatch in
agreement. -/
theorem run (h : Agree t.snapshot w) (os : List TimerOperation)
    (hfirst : w.frozen = true → ∀ now ∈ os.filterMap (·.instant?), w.seen ≤ now)
    (hos : (os.filterMap (·.instant?)).Pairwise (· ≤ ·)) :
    Agree (t.run os).snapshot (os.foldl (Stopwatch.perform t.config) w) := by
  -- the invariant is the agreement; that time goes on is passed along with it
  induction os generalizing t w with
  | nil => exact h
  | cons o os ih =>
      have hmem : ∀ now ∈ o.instant?, now ∈ (o :: os).filterMap (·.instant?) := fun now hn =>
        List.mem_filterMap.mpr ⟨o, List.mem_cons_self, hn⟩
      have hrest : ∀ now ∈ os.filterMap (·.instant?), now ∈ (o :: os).filterMap (·.instant?) :=
        fun now hn => ((List.sublist_cons_self o os).filterMap _).subset hn
      have hnext := h.next o fun hw now hn => hfirst hw now (hmem now hn)
      rw [StepTimer.run, List.foldl_cons, List.foldl_cons, ← t.config_next o]
      refine ih ?_ ?_ ?_
      · rwa [t.config_next]
      · rw [t.config_next]
        intro hw now hn
        rcases seen_perform hw with ⟨hw', hseen⟩ | hseen
        · rw [hseen]
          exact hfirst hw' now (hrest now hn)
        · rw [List.filterMap_cons_some hseen] at hos
          exact List.rel_of_pairwise_cons hos hn
      · exact hos.sublist ((List.sublist_cons_self o os).filterMap _)

/-- A snapshot shows what the stopwatch shows. -/
lemma elapsed (h : Agree s w) (now : ℤ) : s.elapsed now = w.reading now := by
  rw [Stopwatch.reading, Snapshot.elapsed]
  by_cases hs : s.paused = true
  · have hw : w.frozen = true := h.frozen.trans hs
    simp only [Stopwatch.advance, hw, hs, if_true, h.counted, ← h.pausedAt hs]
    cases s.start with
    | none => rfl
    | some start => simp; ring
  · rw [Bool.not_eq_true] at hs
    rw [h.advance hs]
    cases s.start with
    | none => rfl
    | some start => simp [hs]

end Agree

/-- **The timer is a stopwatch.**  After operations on a new timer at instants that never decrease,
the timer and the stopwatch stand still together, their steps last equally long, they show the same
time at every instant, and the step is satisfied exactly if the time does not stand still and the
stopwatch shows at least the length of the step. -/
theorem elapsedAt_run {config : TimingConfig} {os : List TimerOperation}
    (hos : (os.filterMap (·.instant?)).Pairwise (· ≤ ·)) (now : ℤ) :
    let s := (StepTimer.run { config := config } os).snapshot
    let w := Stopwatch.run config os
    s.paused = w.frozen ∧ s.duration = w.duration ∧
      s.elapsedAt (.whole now) = .ok (w.reading now) ∧
      s.isSatisfiedAt (.whole now) =
        .ok (decide (w.frozen = false ∧ w.duration ≤ w.reading now)) := by
  intro s w
  have h : Agree s w := Agree.initial.run (t := { config := config }) os nofun hos
  refine ⟨h.frozen.symm, h.duration.symm, ?_, ?_⟩
  · rw [Snapshot.elapsedAt_whole, h.elapsed]
  · rw [Snapshot.isSatisfiedAt_whole, h.elapsed, h.frozen, h.duration]

/-- The time starts at 1000, in the midst of a pause, is set at 1200 to the 600 of the step, and
stands still from 1500 to 1700. -/
theorem elapsedAt_run_forced_paused :
    let os : List TimerOperation :=
      [.pause 0, .restart 1000, .setDuration 600, .forceSatisfied 1200, .pause 1500, .pause 1600,
        .forceSatisfied 1650, .resume 1700]
    (os.filterMap (·.instant?)).Pairwise (· ≤ ·) ∧
      (StepTimer.run {} os).snapshot.elapsedAt (.whole 1800) = .ok 1000 ∧
      (StepTimer.run {} os).snapshot.isSatisfiedAt (.whole 1800) = .ok true := by
  intro os
  have hos : (os.filterMap (·.instant?)).Pairwise (· ≤ ·) := by decide
  obtain ⟨-, -, helapsed, hsatisfied⟩ := @elapsedAt_run {} os hos 1800
  exact ⟨hos, helapsed, hsatisfied⟩

end AbilityRotation
