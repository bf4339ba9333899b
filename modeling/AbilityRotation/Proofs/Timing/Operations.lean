import Mathlib.Tactic
import AbilityRotation.Timing.StepTimer

/-!
Operations on a timer, one after the other.

An operation that fails leaves the timer as it was; only the start of a step can fail, since the
length of the step has to be found.  All others act on the snapshot alone.
* `StepTimer.next` is the timer after one operation, `StepTimer.run` after several.
* `next_start` and the equations after it say what an operation does; `perform_pause` and those
  beside it say so of operations that read their instant only where it matters.
* `Snapshot.elapsedAt_whole` and `Snapshot.isSatisfiedAt_whole`: what is asked at a whole instant
  has an answer.
-/

namespace AbilityRotation

/-- An operation on a timer. -/
inductive TimerOperation where
  /-- A step starts; its length follows from what its abilities are resolved to. -/
  | start (r : Resolver) (transform : TimingProfile → Option TimingProfile) (s : Step) (now : ℤ)
  /-- The present step starts anew. -/
  | restart (now : ℤ)
  /-- The time stops. -/
  | pause (now : ℤ)
  /-- The time goes on. -/
  | resume (now : ℤ)
  /-- The present step is made to be satisfied. -/
  | forceSatisfied (now : ℤ)
  /-- The present step gets another length. -/
  | setDuration (ms : ℤ)
  /-- There is no step any more. -/
  | reset

/-- The instant of an operation, if it has one. -/
def TimerOperation.instant? : TimerOperation → Option ℤ
  | .start _ _ _ now => some now
  | .restart now => some now
  | .pause now => some now
  | .resume now => some now
  | .forceSatisfied now => some now
  | .setDuration _ => none
  | .reset => none

namespace StepTimer

/-- The timer after an operation, or why it fails. -/
def perform (t : StepTimer) : TimerOperation → Except Resolver.Fault StepTimer
  | .start r transform s now => t.startAt r transform s (.whole now)
  | .restart now => (t.restartAt (.whole now)).mapError .number
  | .pause now => (t.pauseAt (.whole now)).mapError .number
  | .resume now => (t.resumeAt (.whole now)).mapError .number
  | .forceSatisfied now => (t.forceSatisfiedAt (.whole now)).mapError .number
  | .setDuration ms => (t.withDuration (.whole ms)).mapError .number
  | .reset => .ok t.reset

/-- The timer after an operation; one that fails changes nothing. -/
def next (t : StepTimer) (o : TimerOperation) : StepTimer :=
  (t.perform o).toOption.getD t

/-- The timer after operations. -/
def run (t : StepTimer) (os : List TimerOperation) : StepTimer :=
  os.foldl next t

variable (t : StepTimer)

/-! ### What operations do -/

/-- The timer with something done to its snapshot. -/
def withSnapshot (f : Snapshot → Snapshot) : StepTimer :=
  { t with snapshot := f t.snapshot }

lemma next_start (r : Resolver) (transform : TimingProfile → Option TimingProfile) (s : Step)
    (now : ℤ) :
    t.next (.start r transform s now) =
      match t.stepDuration r transform s with
      | .ok ms => t.withSnapshot fun _ => .started ms now
      | .error _ => t := by
  rw [next, perform, startAt]
  cases t.stepDuration r transform s <;> rfl

/-- An operation may be left out where it would change nothing. -/
lemma afterIf_whole {reads : Bool} {operation : Snapshot → Int → Snapshot} {now : ℤ}
    (h : reads = false → operation t.snapshot now = t.snapshot) :
    afterIf reads t operation (.whole now) = .ok (t.withSnapshot (operation · now)) := by
  cases reads with
  | true => rfl
  | false => rw [withSnapshot, h rfl]; rfl

lemma perform_pause (now : ℤ) : t.perform (.pause now) = .ok (t.withSnapshot (·.pause now)) := by
  have h : (!t.snapshot.paused) = false → t.snapshot.pause now = t.snapshot := fun h => by
    rw [Snapshot.pause, if_pos (by simpa using h)]
  rw [perform, pauseAt, afterIf_whole t h]
  rfl

lemma perform_resume (now : ℤ) : t.perform (.resume now) = .ok (t.withSnapshot (·.resume now)) := by
  have h : t.snapshot.paused = false → t.snapshot.resume now = t.snapshot := fun h => by
    rw [Snapshot.resume, if_neg (by simp [h])]
  rw [perform, resumeAt, afterIf_whole t h]
  rfl

lemma perform_forceSatisfied (now : ℤ) :
    t.perform (.forceSatisfied now) = .ok (t.withSnapshot (·.forceSatisfied now)) := by
  have h : (!t.snapshot.paused) = false → t.snapshot.forceSatisfied now = t.snapshot :=
    fun h => by rw [Snapshot.forceSatisfied, if_pos (by simpa using h)]
  rw [perform, forceSatisfiedAt, afterIf_whole t h]
  rfl

lemma next_restart (now : ℤ) : t.next (.restart now) = t.withSnapshot (·.restart now) :=
  rfl

lemma next_pause (now : ℤ) : t.next (.pause now) = t.withSnapshot (·.pause now) := by
  rw [next, perform_pause]
  rfl

lemma next_resume (now : ℤ) : t.next (.resume now) = t.withSnapshot (·.resume now) := by
  rw [next, perform_resume]
  rfl

lemma next_forceSatisfied (now : ℤ) :
    t.next (.forceSatisfied now) = t.withSnapshot (·.forceSatisfied now) := by
  rw [next, perform_forceSatisfied]
  rfl

lemma next_setDuration (ms : ℤ) : t.next (.setDuration ms) = t.withSnapshot (·.setDuration ms) :=
  rfl

lemma next_reset : t.next .reset = t.withSnapshot fun _ => Snapshot.initial :=
  rfl

/-- No operation changes the parameters of timing. -/
lemma config_next (o : TimerOperation) : (t.next o).config = t.config := by
  cases o with
  | start r transform s now =>
      rw [next_start]
      split <;> rfl
  | restart now => rfl
  | pause now => rw [next_pause]; rfl
  | resume now => rw [next_resume]; rfl
  | forceSatisfied now => rw [next_forceSatisfied]; rfl
  | setDuration ms => rfl
  | reset => rfl

end StepTimer

/-! ### Whole instants -/

namespace Snapshot

variable (s : Snapshot) (now : ℤ)

/-- The time at a whole instant can always be told. -/
lemma elapsedAt_whole : s.elapsedAt (.whole now) = .ok (s.elapsed now) := by
  rw [elapsedAt]
  cases hs : s.start with
  | none => simp [elapsed, hs]
  | some start => rfl

/-- Whether the step has lasted long enough at a whole instant can always be told. -/
lemma isSatisfiedAt_whole :
    s.isSatisfiedAt (.whole now) =
      .ok (decide (s.paused = false ∧ s.duration ≤ s.elapsed now)) := by
  rw [isSatisfiedAt]
  cases hp : s.paused with
  | true => simp
  | false =>
      cases hs : s.start with
      | none => simp [elapsed, hs]
      | some start => simp [isSatisfied, hp, Raw.whole, Raw.toInteger, Except.map]

end Snapshot

end AbilityRotation
