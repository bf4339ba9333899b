/-!
Snapshots of the timing of a step.

A snapshot holds when the step started, how long it lasts, and the account of its pauses.  It never
looks at a clock: the instant in question is always given.
* `Snapshot.elapsed` is the time that has passed without the pauses.
* The operations of the timer are functions from snapshot to snapshot.
-/

namespace AbilityRotation

/-- The timing of a step at one moment, in milliseconds. -/
structure Snapshot where
  /-- When the step started; nothing if no step has. -/
  start : Option Int := none
  /-- How long the step lasts. -/
  duration : Int := 0
  /-- Whether the time stands still. -/
  paused : Bool := false
  /-- When the present pause began; zero without one. -/
  pausedAt : Int := 0
  /-- How long the past pauses lasted altogether. -/
  totalPaused : Int := 0
  deriving DecidableEq, Repr

namespace Snapshot

/-- The snapshot before any step. -/
def initial : Snapshot := {}

instance : Inhabited Snapshot := ⟨initial⟩

/-- The time that has passed at an instant, without the pauses; zero before any step. -/
def elapsed (s : Snapshot) (now : Int) : Int :=
  match s.start with
  | none => 0
  | some start => now - start - (s.totalPaused + if s.paused then now - s.pausedAt else 0)

/-- Whether the step has lasted long enough; never while the time stands still. -/
def isSatisfied (s : Snapshot) (now : Int) : Bool :=
  !s.paused && decide (s.duration ≤ s.elapsed now)

/-- A step of the given duration starts. -/
def started (duration now : Int) : Snapshot :=
  { start := some now, duration := duration }

/-- The step starts anew with the same duration. -/
def restart (s : Snapshot) (now : Int) : Snapshot :=
  started s.duration now

/-- The time stops, unless it stands still already. -/
def pause (s : Snapshot) (now : Int) : Snapshot :=
  if s.paused then s else { s with paused := true, pausedAt := now }

/-- The time goes on, if it stands still.  A pause never counts as negative. -/
def resume (s : Snapshot) (now : Int) : Snapshot :=
  if s.paused then
    { s with
      paused := false
      pausedAt := 0
      totalPaused := s.totalPaused + max 0 (now - s.pausedAt) }
  else s

/-- The start is moved so that the step is just satisfied, unless the time stands still. -/
def forceSatisfied (s : Snapshot) (now : Int) : Snapshot :=
  if s.paused then s else { s with start := some (now - s.duration - s.totalPaused) }

/-- The step lasts as long as given, and not less than no time. -/
def setDuration (s : Snapshot) (ms : Int) : Snapshot :=
  { s with duration := max 0 ms }

end Snapshot

end AbilityRotation
