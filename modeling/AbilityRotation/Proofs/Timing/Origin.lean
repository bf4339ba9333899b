import AbilityRotation.Proofs.Timing.Operations

/-!
The timer does not depend on the origin of the clock.

All instants that a timer is given come from one clock, and nothing but their differences counts.
Whether the clock begins at another instant can only be seen in the snapshots, which hold two
instants themselves.
* `TimerCall` is an operation or a question, `StepTimer.trace` what several of them return, with the
  snapshots after each of them.
* `TimerCall.shift` and `Snapshot.shift` are what they become with another origin.
* `perform_shift`: what one operation does; `trace_shift`: what is seen of a new timer.
-/

namespace AbilityRotation

/-! ### Calls and what they return -/

/-- What is asked of a timer. -/
inductive TimerCall where
  /-- An operation. -/
  | operation (o : TimerOperation)
  /-- How long the step has lasted. -/
  | elapsed (now : ℤ)
  /-- Whether the step has lasted long enough. -/
  | isSatisfied (now : ℤ)

/-- What a timer returns. -/
inductive TimerAnswer where
  /-- Nothing, after most operations. -/
  | nothing
  /-- The length of the step that starts. -/
  | duration (ms : ℤ)
  /-- How long the step has lasted. -/
  | elapsed (ms : ℤ)
  /-- Whether the step has lasted long enough. -/
  | isSatisfied (b : Bool)
  deriving DecidableEq, Repr

namespace StepTimer

/-- What an operation returns that leaves the timer `t`. -/
def answerOf (t : StepTimer) : TimerOperation → TimerAnswer
  | .start _ _ _ _ => .duration t.snapshot.duration
  | _ => .nothing

/-- What a call returns, or why it fails. -/
def answer (t : StepTimer) : TimerCall → Except Resolver.Fault TimerAnswer
  | .operation o => (t.perform o).map (·.answerOf o)
  | .elapsed now => ((t.snapshot.elapsedAt (.whole now)).map .elapsed).mapError .number
  | .isSatisfied now => ((t.snapshot.isSatisfiedAt (.whole now)).map .isSatisfied).mapError .number

/-- The timer after a call; a question changes nothing. -/
def afterCall (t : StepTimer) : TimerCall → StepTimer
  | .operation o => t.next o
  | .elapsed _ => t
  | .isSatisfied _ => t

/-- What is seen of a timer while calls are made one after the other: what each of them returns, and
the snapshot after it. -/
def trace (t : StepTimer) : List TimerCall → List (Except Resolver.Fault TimerAnswer × Snapshot)
  | [] => []
  | c :: calls => (t.answer c, (t.afterCall c).snapshot) :: (t.afterCall c).trace calls

end StepTimer

/-! ### Another origin -/

/-- An operation where the clock is ahead by `k`.  A length is no instant and stays as it is. -/
def TimerOperation.shift (k : ℤ) : TimerOperation → TimerOperation
  | .start r transform s now => .start r transform s (now + k)
  | .restart now => .restart (now + k)
  | .pause now => .pause (now + k)
  | .resume now => .resume (now + k)
  | .forceSatisfied now => .forceSatisfied (now + k)
  | .setDuration ms => .setDuration ms
  | .reset => .reset

/-- A call where the clock is ahead by `k`. -/
def TimerCall.shift (k : ℤ) : TimerCall → TimerCall
  | .operation o => .operation (o.shift k)
  | .elapsed now => .elapsed (now + k)
  | .isSatisfied now => .isSatisfied (now + k)

/-- A snapshot where the clock is ahead by `k`: the start is, if there is one, and the beginning of
the present pause is.  Without a pause, the zero in its place is no instant. -/
def Snapshot.shift (k : ℤ) (s : Snapshot) : Snapshot :=
  { s with
    start := s.start.map (· + k)
    pausedAt := if s.paused then s.pausedAt + k else s.pausedAt }

namespace Snapshot

variable (k : ℤ) (s : Snapshot) (now : ℤ)

lemma shift_pause : (s.shift k).pause (now + k) = (s.pause now).shift k := by
  rw [pause, pause]
  cases hs : s.paused with
  | true => simp [shift, hs]
  | false => simp [shift, hs]

/-- The length of a pause is a difference of instants. -/
lemma shift_resume : (s.shift k).resume (now + k) = (s.resume now).shift k := by
  rw [resume, resume]
  cases hs : s.paused with
  | true =>
      have hlength : now + k - (s.pausedAt + k) = now - s.pausedAt := by ring
      simp [shift, hs, hlength]
  | false => simp [shift, hs]

lemma shift_forceSatisfied :
    (s.shift k).forceSatisfied (now + k) = (s.forceSatisfied now).shift k := by
  rw [forceSatisfied, forceSatisfied]
  cases hs : s.paused with
  | true => simp [shift, hs]
  | false =>
      have hstart :
          now + k - s.duration - s.totalPaused = now - s.duration - s.totalPaused + k := by
        ring
      simp [shift, hs, hstart]

/-- The time that has passed is made of differences of instants. -/
lemma elapsed_shift : (s.shift k).elapsed (now + k) = s.elapsed now := by
  rw [elapsed, elapsed]
  cases hstart : s.start with
  | none => simp [shift, hstart]
  | some start =>
      cases hs : s.paused with
      | true => simp [shift, hstart, hs]
      | false => simp [shift, hstart, hs]

end Snapshot

namespace StepTimer

variable (t : StepTimer) (k : ℤ)

/-- A timer where the clock is ahead by `k`. -/
def shift (k : ℤ) (t : StepTimer) : StepTimer :=
  t.withSnapshot (Snapshot.shift k)

/-- An operation on snapshots that commutes with the shift does so on timers. -/
lemma withSnapshot_shift (operation : Snapshot → ℤ → Snapshot) (now : ℤ)
    (h : operation (t.snapshot.shift k) (now + k) = (operation t.snapshot now).shift k) :
    (t.shift k).withSnapshot (operation · (now + k)) =
      (t.withSnapshot (operation · now)).shift k :=
  congrArg (fun s => { t with snapshot := s }) h

/-- **One operation.**  An operation does the same with another origin, or fails for the same
reason. -/
theorem perform_shift (o : TimerOperation) :
    (t.shift k).perform (o.shift k) = (t.perform o).map (shift k) := by
  cases o with
  | start r transform s now =>
      have hduration : (t.shift k).stepDuration r transform s = t.stepDuration r transform s := rfl
      rw [TimerOperation.shift, perform, perform, startAt, startAt, hduration]
      cases t.stepDuration r transform s with
      | error fault => rfl
      | ok ms => rfl
  | restart now => rfl
  | pause now =>
      rw [TimerOperation.shift, perform_pause, perform_pause,
        t.withSnapshot_shift k Snapshot.pause now (t.snapshot.shift_pause k now)]
      rfl
  | resume now =>
      rw [TimerOperation.shift, perform_resume, perform_resume,
        t.withSnapshot_shift k Snapshot.resume now (t.snapshot.shift_resume k now)]
      rfl
  | forceSatisfied now =>
      rw [TimerOperation.shift, perform_forceSatisfied, perform_forceSatisfied,
        t.withSnapshot_shift k Snapshot.forceSatisfied now (t.snapshot.shift_forceSatisfied k now)]
      rfl
  | setDuration ms => rfl
  | reset => rfl

lemma next_shift (o : TimerOperation) : (t.shift k).next (o.shift k) = (t.next o).shift k := by
  rw [next, next, perform_shift]
  cases t.perform o with
  | error fault => rfl
  | ok t' => rfl

lemma answerOf_shift (o : TimerOperation) : (t.shift k).answerOf (o.shift k) = t.answerOf o := by
  cases o <;> rfl

/-- What a call returns does not depend on the origin. -/
lemma answer_shift (c : TimerCall) : (t.shift k).answer (c.shift k) = t.answer c := by
  cases c with
  | operation o =>
      rw [TimerCall.shift, answer, answer, perform_shift]
      cases t.perform o with
      | error fault => rfl
      | ok t' => exact congrArg Except.ok (t'.answerOf_shift k o)
  | elapsed now =>
      have h : (t.shift k).snapshot.elapsed (now + k) = t.snapshot.elapsed now :=
        t.snapshot.elapsed_shift k now
      rw [TimerCall.shift, answer, answer, Snapshot.elapsedAt_whole, Snapshot.elapsedAt_whole, h]
  | isSatisfied now =>
      have h : (t.shift k).snapshot.elapsed (now + k) = t.snapshot.elapsed now :=
        t.snapshot.elapsed_shift k now
      rw [TimerCall.shift, answer, answer, Snapshot.isSatisfiedAt_whole,
        Snapshot.isSatisfiedAt_whole, h]
      rfl

lemma afterCall_shift (c : TimerCall) :
    (t.shift k).afterCall (c.shift k) = (t.afterCall c).shift k := by
  cases c with
  | operation o => exact t.next_shift k o
  | elapsed now => rfl
  | isSatisfied now => rfl

/-- Calls on any timer return the same with another origin, and leave shifted snapshots. -/
lemma trace_shift_of (calls : List TimerCall) :
    (t.shift k).trace (calls.map (·.shift k)) =
      (t.trace calls).map fun seen => (seen.1, seen.2.shift k) := by
  induction calls generalizing t with
  | nil => rfl
  | cons c calls ih =>
      rw [List.map_cons, trace, trace, List.map_cons, answer_shift, afterCall_shift, ih]
      rfl

/-- **The origin of the clock does not count.**  Whatever is called on a new timer at whatever
instants: with another origin each call returns the same or fails for the same reason, and the
snapshots differ only by the instants in them. -/
theorem trace_shift (config : TimingConfig) (calls : List TimerCall) (k : ℤ) :
    ({ config := config } : StepTimer).trace (calls.map (·.shift k)) =
      (({ config := config } : StepTimer).trace calls).map
        fun seen => (seen.1, seen.2.shift k) :=
  trace_shift_of { config := config } k calls

end StepTimer

end AbilityRotation
