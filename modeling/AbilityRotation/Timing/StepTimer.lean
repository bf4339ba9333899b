import AbilityRotation.Rotation.Resolution
import AbilityRotation.Timing.Profile
import AbilityRotation.Timing.Snapshot

/-!
The step timer: how long steps last, and how far the present one is.

A step lasts as long as the slowest of its abilities keeps it busy.
* `Resolver.stepTicks` and `StepTimer.stepDuration` are the length of a step.
* `StepTimer.start` starts a step; the other operations act on the snapshot.
* The functions with an instant of unknown shape read it as a whole number, and only where it
  matters.
-/

namespace AbilityRotation

open Number

/-- The profile of an ability after a transformation, which may leave it as it is. -/
def transformed (transform : TimingProfile → Option TimingProfile) (p : TimingProfile) :
    TimingProfile :=
  (transform p).getD p

/-- The profiles of all known abilities in a step, transformed. -/
def Resolver.profiles (r : Resolver) (transform : TimingProfile → Option TimingProfile)
    (s : Step) : Except Resolver.Fault (List TimingProfile) :=
  (r.step false s).map fun es => es.map fun e => transformed transform (.ofEffective e)

/-- The largest number of ticks for which one of the profiles keeps the step busy, zero if none
does. -/
def TimingProfile.largestTicks (defaultGcdTicks : Int) (ps : List TimingProfile) : Nat :=
  ps.foldl (fun n p => max n (p.effectiveTicks defaultGcdTicks)) 0

/-- The ticks for which a step is busy. -/
def Resolver.stepTicks (r : Resolver) (transform : TimingProfile → Option TimingProfile)
    (defaultGcdTicks : Int) (s : Step) : Except Resolver.Fault Nat :=
  (r.profiles transform s).map (TimingProfile.largestTicks defaultGcdTicks)

/-- A timer for one step at a time. -/
structure StepTimer where
  /-- The parameters of timing. -/
  config : TimingConfig := {}
  /-- The timing of the present step. -/
  snapshot : Snapshot := Snapshot.initial
  deriving DecidableEq, Repr

namespace StepTimer

/-- How long a step lasts, in milliseconds. -/
def stepDuration (t : StepTimer) (r : Resolver)
    (transform : TimingProfile → Option TimingProfile) (s : Step) : Except Resolver.Fault Int :=
  (r.stepTicks transform t.config.defaultGcdTicks s).map fun n => n * t.config.tickMs

/-- The timer when a step starts. -/
def start (t : StepTimer) (r : Resolver) (transform : TimingProfile → Option TimingProfile)
    (s : Step) (now : Int) : Except Resolver.Fault StepTimer :=
  (t.stepDuration r transform s).map fun ms => { t with snapshot := .started ms now }

/-! ### Instants of unknown shape -/

/-- The timer after an operation at an instant. -/
def after (t : StepTimer) (operation : Snapshot → Int → Snapshot) (now : Raw) :
    Except Fault StepTimer :=
  now.toInteger.map fun n => { t with snapshot := operation t.snapshot n }

/-- The timer after an operation at an instant that matters only if `reads` holds. -/
def afterIf (reads : Bool) (t : StepTimer) (operation : Snapshot → Int → Snapshot) (now : Raw) :
    Except Fault StepTimer :=
  if reads then t.after operation now else .ok t

/-- The timer when a step starts at an instant, which is read after the step is resolved. -/
def startAt (t : StepTimer) (r : Resolver) (transform : TimingProfile → Option TimingProfile)
    (s : Step) (now : Raw) : Except Resolver.Fault StepTimer := do
  let ms ← t.stepDuration r transform s
  let instant ← now.toInteger.mapError .number
  .ok { t with snapshot := .started ms instant }

/-- The timer after a restart. -/
def restartAt (t : StepTimer) (now : Raw) : Except Fault StepTimer :=
  t.after Snapshot.restart now

/-- The timer after the time is stopped. -/
def pauseAt (t : StepTimer) (now : Raw) : Except Fault StepTimer :=
  afterIf (!t.snapshot.paused) t Snapshot.pause now

/-- The timer after the time goes on. -/
def resumeAt (t : StepTimer) (now : Raw) : Except Fault StepTimer :=
  afterIf t.snapshot.paused t Snapshot.resume now

/-- The timer after the step is made to be satisfied. -/
def forceSatisfiedAt (t : StepTimer) (now : Raw) : Except Fault StepTimer :=
  afterIf (!t.snapshot.paused) t Snapshot.forceSatisfied now

/-- The timer with another duration of the step. -/
def withDuration (t : StepTimer) (ms : Raw) : Except Fault StepTimer :=
  t.after Snapshot.setDuration ms

/-- The timer without a step. -/
def reset (t : StepTimer) : StepTimer :=
  { t with snapshot := Snapshot.initial }

end StepTimer

/-- The time that has passed at an instant of unknown shape. -/
def Snapshot.elapsedAt (s : Snapshot) (now : Raw) : Except Fault Int :=
  if s.start.isNone then .ok 0 else now.toInteger.map s.elapsed

/-- Whether the step has lasted long enough at an instant of unknown shape. -/
def Snapshot.isSatisfiedAt (s : Snapshot) (now : Raw) : Except Fault Bool :=
  if s.paused then .ok false
  else if s.start.isNone then .ok (decide (s.duration ≤ 0))
  else now.toInteger.map s.isSatisfied

end AbilityRotation
