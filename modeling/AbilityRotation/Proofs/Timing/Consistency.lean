import AbilityRotation.Proofs.Outcome
import AbilityRotation.Proofs.Timing.Operations

/-!
Snapshots stay consistent.

The calls on a timer may come from several threads, and their clocks need not agree.  A call
replaces the whole snapshot while nothing else does, so that calls take effect one after the other
in some order, with instants that may go back.  The length of a step is found before that, from what
does not change.
* `Snapshot.Consistent`: there is no pause without a time that stands still, and no account is
  negative.
* `Snapshot.Consistent.next`: one operation keeps this; `Snapshot.Consistent.run`: so do several.
* `consistent_run`: every timer is consistent, stands still while it is paused, and can be made to
  be just satisfied at any instant while it is not.
-/

namespace AbilityRotation

/-- Where ticks are not negative, neither is the length of a step. -/
lemma StepTimer.stepDuration_nonneg {t : StepTimer} {r : Resolver}
    {transform : TimingProfile → Option TimingProfile} {s : Step} {ms : ℤ}
    (htick : 0 ≤ t.config.tickMs) (h : t.stepDuration r transform s = .ok ms) : 0 ≤ ms := by
  obtain ⟨n, hn, rfl⟩ := map_eq_ok_iff.mp h
  obtain ⟨ticks, -, hticks⟩ := bind_eq_ok_iff.mp hn
  obtain rfl : (ticks : ℤ) = n := Except.ok.inj hticks
  exact mul_nonneg (Int.natCast_nonneg ticks) htick

namespace Snapshot

/-- Whether the parts of a snapshot fit together. -/
structure Consistent (s : Snapshot) : Prop where
  /-- A pause has begun only where the time stands still. -/
  pausedAt : s.paused = false → s.pausedAt = 0
  /-- The past pauses did not take less than no time. -/
  totalPaused : 0 ≤ s.totalPaused
  /-- The step does not last for less than no time. -/
  duration : 0 ≤ s.duration

variable {s : Snapshot} {t : StepTimer}

/-! ### What operations keep -/

namespace Consistent

lemma initial : Consistent Snapshot.initial :=
  ⟨fun _ => rfl, le_rfl, le_rfl⟩

lemma started {duration : ℤ} (h : 0 ≤ duration) (now : ℤ) : Consistent (.started duration now) :=
  ⟨fun _ => rfl, le_rfl, h⟩

lemma pause (h : Consistent s) (now : ℤ) : Consistent (s.pause now) := by
  rw [Snapshot.pause]
  split
  · exact h
  · refine ⟨fun hrunning => ?_, h.totalPaused, h.duration⟩
    cases hrunning

/-- A pause that ends before it has begun adds nothing to the account. -/
lemma resume (h : Consistent s) (now : ℤ) : Consistent (s.resume now) := by
  rw [Snapshot.resume]
  split
  · exact ⟨fun _ => rfl, add_nonneg h.totalPaused (le_max_left 0 _), h.duration⟩
  · exact h

lemma forceSatisfied (h : Consistent s) (now : ℤ) : Consistent (s.forceSatisfied now) := by
  rw [Snapshot.forceSatisfied]
  split
  · exact h
  · exact ⟨h.pausedAt, h.totalPaused, h.duration⟩

lemma setDuration (h : Consistent s) (ms : ℤ) : Consistent (s.setDuration ms) :=
  ⟨h.pausedAt, h.totalPaused, le_max_left 0 ms⟩

/-- **One operation.**  Whatever its instant, an operation leaves a consistent snapshot. -/
theorem next (h : Consistent t.snapshot) (htick : 0 ≤ t.config.tickMs) (o : TimerOperation) :
    Consistent (t.next o).snapshot := by
  cases o with
  | start r transform s now =>
      rw [t.next_start]
      cases hms : t.stepDuration r transform s with
      | ok ms => exact started (StepTimer.stepDuration_nonneg htick hms) now
      | error fault => exact h
  | restart now =>
      rw [t.next_restart]
      exact started h.duration now
  | pause now =>
      rw [t.next_pause]
      exact h.pause now
  | resume now =>
      rw [t.next_resume]
      exact h.resume now
  | forceSatisfied now =>
      rw [t.next_forceSatisfied]
      exact h.forceSatisfied now
  | setDuration ms =>
      rw [t.next_setDuration]
      exact h.setDuration ms
  | reset =>
      rw [t.next_reset]
      exact initial

/-- **A run.**  Operations at whatever instants leave a consistent snapshot. -/
theorem run (h : Consistent t.snapshot) (htick : 0 ≤ t.config.tickMs) (os : List TimerOperation) :
    Consistent (t.run os).snapshot := by
  induction os generalizing t with
  | nil => exact h
  | cons o os ih =>
      rw [StepTimer.run, List.foldl_cons]
      refine ih (h.next htick o) ?_
      rwa [t.config_next]

end Consistent

/-! ### What a snapshot shows -/

/-- While the time stands still, it shows what it did when the pause began. -/
lemma elapsed_of_paused (hs : s.paused = true) (now : ℤ) :
    s.elapsed now = s.elapsed s.pausedAt := by
  rw [elapsed, elapsed]
  cases s.start with
  | none => rfl
  | some start =>
      simp only [hs, if_true]
      ring

/-- A step that is made to be satisfied has just lasted for its length, whatever pauses there
were. -/
lemma elapsed_forceSatisfied (hs : s.paused = false) (now : ℤ) :
    (s.forceSatisfied now).elapsed now = s.duration := by
  rw [forceSatisfied, if_neg (by simp [hs]), elapsed]
  simp only [hs, Bool.false_eq_true, if_false]
  ring

end Snapshot

/-- **Snapshots stay consistent.**  After any operations on a new timer with ticks that are not
negative, in whatever order and at whatever instants: without a pause the place of its beginning is
zero, and neither the account of past pauses nor the length of the step is negative.  While the time
stands still, the time that has passed is the same at every instant and the step is satisfied at
none.  Otherwise, if the step is made to be satisfied at an instant, the time that has passed at
this instant is exactly its length. -/
theorem consistent_run {config : TimingConfig} (htick : 0 ≤ config.tickMs)
    (os : List TimerOperation) :
    let t := StepTimer.run { config := config } os
    let s := t.snapshot
    (s.paused = false → s.pausedAt = 0) ∧ 0 ≤ s.totalPaused ∧ 0 ≤ s.duration ∧
      (s.paused = true → ∃ ms, ∀ now, s.elapsedAt (.whole now) = .ok ms ∧
        s.isSatisfiedAt (.whole now) = .ok false) ∧
      (s.paused = false → ∀ now, let s' := (t.next (.forceSatisfied now)).snapshot
        s'.elapsedAt (.whole now) = .ok s'.duration ∧ s'.duration = s.duration) := by
  intro t s
  obtain ⟨hpausedAt, htotal, hduration⟩ : s.Consistent :=
    Snapshot.Consistent.initial.run (t := { config := config }) htick os
  refine ⟨hpausedAt, htotal, hduration, fun hs => ⟨s.elapsed s.pausedAt, fun now => ⟨?_, ?_⟩⟩,
    fun hs now => ?_⟩
  · rw [Snapshot.elapsedAt_whole, Snapshot.elapsed_of_paused hs]
  · rw [Snapshot.isSatisfiedAt_whole, hs]
    rfl
  · have hlength : (s.forceSatisfied now).duration = s.duration := by
      rw [Snapshot.forceSatisfied, if_neg (by simp [hs])]
    intro s'
    have hs' : s' = s.forceSatisfied now :=
      congrArg StepTimer.snapshot (t.next_forceSatisfied now)
    rw [hs', Snapshot.elapsedAt_whole, Snapshot.elapsed_forceSatisfied hs, hlength]
    exact ⟨rfl, rfl⟩

/-- A clock that goes back: a pause from 500 to 100 is not counted, a step starts anew at 50, and
the time stands still from 30 on, before that start. -/
theorem consistent_run_backwards :
    let os : List TimerOperation :=
      [.setDuration 600, .pause 500, .resume 100, .restart 50, .pause 30]
    0 ≤ ({} : TimingConfig).tickMs ∧
      (StepTimer.run {} os).snapshot = ⟨some 50, 600, true, 30, 0⟩ ∧
      ∃ ms, ∀ now, (StepTimer.run {} os).snapshot.elapsedAt (.whole now) = .ok ms ∧
        (StepTimer.run {} os).snapshot.isSatisfiedAt (.whole now) = .ok false := by
  intro os
  have htick : 0 ≤ ({} : TimingConfig).tickMs := by decide
  have hrun : (StepTimer.run {} os).snapshot = ⟨some 50, 600, true, 30, 0⟩ := by decide
  obtain ⟨-, -, -, hstill, -⟩ := consistent_run htick os
  exact ⟨htick, hrun, hstill (by rw [hrun])⟩

end AbilityRotation
