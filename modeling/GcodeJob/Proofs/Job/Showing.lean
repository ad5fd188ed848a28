import GcodeJob.Proofs.Job.Steps
import GcodeJob.Proofs.Number.Single

/-!
# GcodeJob.Proofs.Job.Showing

What one step of a run shows (`Controller.Shows`): a line when a command
begins, its progress tick by tick, one when it is finished, the time it took,
the state where a signal is taken and where the run ends.  All other steps
show nothing, and no step touches the settings or what is loaded.
-/

namespace GcodeJob

/-- Whether a run shows something in its next step. -/
def RunPoint.shows : RunPoint → Bool
  | .announcing | .beginning _ | .advancing .. | .recording _ | .checkpoint | .holding
  | .concluding _ => true
  | _ => false

namespace Controller

/-- What a step of a run leads to and shows. -/
inductive Shows (c : Controller) (r : Run) : RunPoint → Status → Prop
  | silent (point : RunPoint) : r.point.shows = false → Shows c r point c.status
  | announces (totalLines : Nat) : r.point = .announcing →
    Shows c r .heading ({ c.status with state := .printing, totalLines, time := 0 }.setLine noLine)
  | begins {command : Issued} : r.point = .beginning command →
    Shows c r (.dozing (.tick command .zero)) (c.status.setLine (lineOf command))
  | progresses {command : Issued} {progress : Single} (progress' : Single) :
    r.point = .advancing command progress → Execution.isFinished progress' = false →
    Shows c r (.dozing (.tick command progress')) (c.status.setProgress progress')
  | finishes {command : Issued} {progress : Single} : r.point = .advancing command progress →
    Shows c r (.recording command) { c.status with progress := .one }
  | records {command : Issued} (time : Int) : r.point = .recording command →
    Shows c r .checkpoint { c.status with time }
  | takes (point : RunPoint) (state : State) : r.point.takesPause = true →
    Shows c r point { c.status with state }
  | concludes {outcome : Outcome} : r.point = .concluding outcome →
    Shows c r .ended
      (if outcome = .stopped then { c.status with state := outcome.state }.setLine noLine
      else { c.status with state := outcome.state })

/-- A step of a run, as far as it concerns what is shown and what it leaves alone. -/
structure Displays (c c' : Controller) (number : Nat) (r r' : Run) : Prop where
  shows : c.Shows r r'.point c'.status
  runs : c'.runs = c.runs.setIfInBounds number r'
  feed? : r'.feed? = r.feed?
  settings : c'.settings = c.settings
  loaded? : c'.loaded? = c.loaded?

section
variable {c : Controller} {number : Nat} {r : Run}

/-- Where a run shows nothing, the status is the one before. -/
theorem Shows.eq_of_silent {point : RunPoint} {status : Status} (h : c.Shows r point status)
    (silent : r.point.shows = false) : status = c.status := by
  have loud (shows : r.point.shows = true) : False := by
    rw [silent] at shows
    cases shows
  cases h with
  | silent => rfl
  | takes _ _ takes =>
    refine (loud ?_).elim
    cases at_ : r.point <;> rw [at_] at takes <;> first | rfl | cases takes
  | announces _ at_ | begins at_ | progresses _ at_ | finishes at_ | records _ at_ | concludes at_ =>
    exact (loud (at_ ▸ rfl)).elim

/-- A step that only moves the run, after something has happened to programs, feeds and signals. -/
theorem Displays.of_goTo {c' : Controller} {point : RunPoint}
    (frame : c' = { c with programs := c'.programs, feeds := c'.feeds, signal := c'.signal })
    (silent : r.point.shows = false) : c.Displays (c'.goTo number r point) number r { r with point } := by
  rw [frame]
  exact ⟨.silent point silent, rfl, rfl, rfl, rfl⟩

theorem displays_startFeed (at_ : r.point = .starting) :
    ∃ r', c.Displays (c.startFeed number r) number r r' := by
  unfold startFeed
  repeat' split
  all_goals exact ⟨_, .of_goTo rfl (at_ ▸ rfl)⟩

theorem displays_fetch (at_ : r.point = .fetching) :
    ∃ r', c.Displays (c.fetch number r) number r r' := by
  unfold fetch
  split
  · exact ⟨_, .of_goTo rfl (at_ ▸ rfl)⟩
  · exact ⟨_, .of_goTo rfl (at_ ▸ rfl)⟩

theorem displays_poll (at_ : r.point = .polling) :
    ∃ r', c.Displays (c.poll number r) number r r' := by
  unfold poll
  split <;> exact ⟨_, .of_goTo rfl (at_ ▸ rfl)⟩

theorem displays_wake (chance : Chance) (found : c.runs[number]? = some r) {errand : Errand}
    {moment : Nat} (at_ : r.point = .asleep errand moment) :
    ∃ r', c.Displays (c.wake chance number r errand moment) number r r' := by
  unfold wake
  split
  · exact ⟨_, .of_goTo rfl (at_ ▸ rfl)⟩
  · split
    · exact ⟨_, .of_goTo rfl (at_ ▸ rfl)⟩
    · have same := setIfInBounds_of_getElem? found
      exact ⟨r, .silent _ (at_ ▸ rfl), same.symm, rfl, rfl, rfl⟩

/-- A tick shows the progress of the command, and of one that is finished it shows one. -/
theorem displays_tick (chance : Chance) {command : Issued} {progress : Single}
    (at_ : r.point = .advancing command progress) :
    ∃ r', c.Displays (c.tick chance number r command progress) number r r' := by
  unfold tick
  dsimp only
  split
  next finished =>
    have one : c.status.setProgress (Execution.advance command.command.letter? progress chance.word) =
        { c.status with progress := .one } := by
      rw [Execution.advance_eq_one finished, Status.setProgress, Single.clamp_one]
    refine ⟨_, ?_, rfl, rfl, rfl, rfl⟩
    have shows : c.Shows r (.recording command) { c.status with progress := .one } := .finishes at_
    rwa [← one] at shows
  next unfinished => exact ⟨_, .progresses _ at_ (by simpa using unfinished), rfl, rfl, rfl, rfl⟩

theorem displays_recordTime {command : Issued} (at_ : r.point = .recording command) :
    ∃ r', c.Displays (c.recordTime number r command) number r r' := by
  unfold recordTime
  dsimp only
  split
  · rw [onFeed_eq]
    exact ⟨_, .records _ at_, rfl, rfl, rfl, rfl⟩
  · exact ⟨_, .records _ at_, rfl, rfl, rfl, rfl⟩

theorem displays_check (at_ : r.point = .checkpoint) :
    ∃ r', c.Displays (c.check number r) number r r' := by
  have takes (point : RunPoint) (state : State) : c.Shows r point { c.status with state } :=
    .takes point state (at_ ▸ rfl)
  unfold check takeSignal
  cases c.signal <;> exact ⟨_, takes _ _, rfl, rfl, rfl, rfl⟩

theorem displays_hold (at_ : r.point = .holding) :
    ∃ r', c.Displays (c.hold number r) number r r' := by
  have takes (point : RunPoint) (state : State) : c.Shows r point { c.status with state } :=
    .takes point state (at_ ▸ rfl)
  unfold hold takeSignal
  cases c.signal <;> exact ⟨_, takes _ _, rfl, rfl, rfl, rfl⟩

theorem displays_leave {outcome : Outcome} (at_ : r.point = .leaving outcome) :
    ∃ r', c.Displays (c.leave number r outcome) number r r' := by
  unfold leave
  dsimp only
  split <;> exact ⟨_, .of_goTo rfl (at_ ▸ rfl)⟩

/-- **One step of a run**, as it shows. -/
theorem displays_stepRun (c : Controller) (chance : Chance) {number : Nat} {r : Run}
    (found : c.runs[number]? = some r) :
    ∃ r', c.Displays (c.stepRun chance number) number r r' := by
  unfold stepRun
  rw [found]
  dsimp only
  cases at_ : r.point with
  | starting => exact displays_startFeed at_
  | fetching => exact displays_fetch at_
  | polling => exact displays_poll at_
  | asleep => exact displays_wake chance found at_
  | advancing => exact displays_tick chance at_
  | recording => exact displays_recordTime at_
  | checkpoint => exact displays_check at_
  | holding => exact displays_hold at_
  | leaving => exact displays_leave at_
  | announcing => exact ⟨_, .announces _ at_, rfl, rfl, rfl, rfl⟩
  | beginning => exact ⟨_, .begins at_, rfl, rfl, rfl, rfl⟩
  | concluding => exact ⟨_, .concludes at_, rfl, rfl, rfl, rfl⟩
  | indexing | heading | dozing => exact ⟨_, .of_goTo rfl (at_ ▸ rfl)⟩
  | ended =>
    have same := setIfInBounds_of_getElem? found
    exact ⟨r, .silent _ (at_ ▸ rfl), same.symm, rfl, rfl, rfl⟩

/-- What a step comes to and what it shows, of the same run. -/
theorem displays_of_goes {chance : Chance} {r' : Run}
    (found : c.runs[number]? = some r) (goes : c.Goes (c.stepRun chance number) number r r') :
    c.Displays (c.stepRun chance number) number r r' := by
  obtain ⟨q, displays⟩ := c.displays_stepRun chance found
  have lt := (Array.getElem?_eq_some_iff.mp found).1
  have same : r' = q := by
    have runs := goes.runs.symm.trans displays.runs
    have at_ := congrArg (·[number]?) runs
    simpa [Array.getElem?_setIfInBounds, lt] using at_
  exact same ▸ displays

end

end Controller

end GcodeJob
