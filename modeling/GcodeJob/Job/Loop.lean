import GcodeJob.Job.Controller
import GcodeJob.Job.Execution

/-!
# GcodeJob.Job.Loop

The execution loop, step by step.

A run starts reading ahead, waits for the index, and then takes one command
after the other: its line is published, then its progress tick by tick until
it is finished, then the time it took.  Between two commands, and while it is
paused, a run takes the signal that was noted for it; its token it looks at
before and during every sleep and at the head of the loop.
-/

namespace GcodeJob

/-- What chance decides in one step. -/
structure Chance where
  /-- The random word of a tick. -/
  word : UInt32 := 0
  /-- Whether a run notices that it was cancelled when its sleep is over at the
  same moment. -/
  notices : Bool := false
  deriving DecidableEq, Repr

/-- How long a sleep for an errand is asked to take, in milliseconds. -/
def JobSettings.interval (s : JobSettings) : Errand → Nat
  | .index | .nextCommand => s.pollIntervalMs
  | .tick .. => s.tickIntervalMs
  | .signal => s.pausePollIntervalMs

namespace Controller

/-! ## Signals -/

/-- Takes the signal, entering or leaving a pause as it says. -/
def takeSignal (c : Controller) : Signal × Controller :=
  let taken := { c with signal := .none }
  match c.signal with
  | .pause => (.pause, taken.setState .paused)
  | .resume => (.resume, taken.setState .printing)
  | .none => (.none, taken)
  | .stop => (.stop, taken)

/-! ## Steps -/

/-- Moves a run on to a place. -/
def goTo (c : Controller) (number : Nat) (r : Run) (point : RunPoint) : Controller :=
  c.setRun number { r with point }

/-- Starts reading ahead.  A run whose feed cannot be started, for want of a thread or for
another reason, has failed. -/
def startFeed (c : Controller) (number : Nat) (r : Run) : Controller :=
  match r.feed?.bind fun f => (c.feed? f).map (f, ·) with
  | none => c.goTo number r (.leaving .failed)
  | some (f, feed, p) =>
    if c.hasThreads then
      match feed.buffer.start (some p.state) with
      | .error _ => c.goTo number r (.leaving .failed)
      | .ok buffer => (c.onBuffer f fun _ => buffer).goTo number r .indexing
    else
      (c.onBuffer f (·.startThreadless (some p.state))).goTo number r (.leaving .failed)

/-- The program that a run executes. -/
def programOf? (c : Controller) (r : Run) : Option Program :=
  r.feed?.bind fun f => (c.feed? f).map (·.2)

/-- Looks at the index. -/
def lookAtIndex (c : Controller) (number : Nat) (r : Run) : Controller :=
  c.goTo number r <|
    match (c.programOf? r).map Program.state with
    | some .built => .announcing
    | some .building => .dozing .index
    | some .failed | some .closed | none => .leaving .failed

/-- Publishes that execution begins. -/
def announce (c : Controller) (number : Nat) (r : Run) : Controller :=
  let totalLines := ((c.programOf? r).map Program.totalLines).getD 0
  (c.publish fun s => { s with state := .printing, totalLines, time := 0 }.setLine noLine).setRun
    number { r with point := .heading, stopwatch := .started c.now, lastFinish := 0 }

/-- Takes the next command, if there is one. -/
def fetch (c : Controller) (number : Nat) (r : Run) : Controller :=
  match r.feed?.bind fun f => (c.feed? f).map (f, ·) with
  | none => c.goTo number r (.leaving .failed)
  | some (f, feed, _) =>
    let (fetch, buffer) := feed.buffer.next
    (c.onBuffer f fun _ => buffer).goTo number r <|
      match fetch with
      | .ready _ command => .beginning command
      | .empty _ => .polling
      | .exhausted true => .leaving .completed
      | .exhausted false => .leaving .failed

/-- Looks for a stop while there is no command. -/
def poll (c : Controller) (number : Nat) (r : Run) : Controller :=
  if c.signal = .stop then { c with signal := .none }.goTo number r (.leaving .stopped)
  else c.goTo number r (.dozing .nextCommand)

/-- The line of a command as it is published. -/
def lineOf (command : Issued) : Int := min command.line Word.highest

/-- Begins to execute a command. -/
def beginCommand (c : Controller) (number : Nat) (r : Run) (command : Issued) : Controller :=
  (c.publish (·.setLine (lineOf command))).goTo number r (.dozing (.tick command .zero))

/-- Goes to sleep, unless the token is cancelled. -/
def doze (c : Controller) (number : Nat) (r : Run) (errand : Errand) : Controller :=
  c.goTo number r <|
    if r.cancelled then .leaving .canceled
    else .asleep errand (c.now + Sleep.length (c.settings.job.interval errand) * 1000000)

/-- Wakes up when the time has come or the token is cancelled. -/
def wake (c : Controller) (chance : Chance) (number : Nat) (r : Run) (errand : Errand)
    (moment : Nat) : Controller :=
  if moment ≤ c.now ∧ ¬(r.cancelled ∧ chance.notices) then c.goTo number r errand.next
  else if r.cancelled then c.goTo number r (.leaving .canceled)
  else c

/-- Lets a command progress by one tick. -/
def tick (c : Controller) (chance : Chance) (number : Nat) (r : Run) (command : Issued)
    (progress : Single) : Controller :=
  let progress := Execution.advance command.command.letter? progress chance.word
  (c.publish (·.setProgress progress)).goTo number r <|
    if Execution.isFinished progress then .recording command else .dozing (.tick command progress)

/-- Records how long a finished command took, in whole milliseconds. -/
def recordTime (c : Controller) (number : Nat) (r : Run) (command : Issued) : Controller :=
  let finishedAt := r.stopwatch.elapsed c.now
  let time : Int := min ((finishedAt - r.lastFinish) / 1000000) Word.highest
  let c := match r.feed? with
    | some f => c.onFeed f fun p b => (p.recordTime command time, b)
    | none => c
  (c.publish fun s => { s with time }).setRun number
    { r with point := .checkpoint, lastFinish := finishedAt }

/-- Takes the signal between two commands. -/
def check (c : Controller) (number : Nat) (r : Run) : Controller :=
  match c.takeSignal with
  | (.stop, c) => c.goTo number r (.leaving .stopped)
  | (.pause, c) =>
    c.setRun number { r with point := .dozing .signal, stopwatch := r.stopwatch.pause c.now }
  | (.resume, c) | (.none, c) => c.goTo number r .heading

/-- Takes the signal that may end a pause. -/
def hold (c : Controller) (number : Nat) (r : Run) : Controller :=
  match c.takeSignal with
  | (.resume, c) =>
    c.setRun number { r with point := .heading, stopwatch := r.stopwatch.start c.now }
  | (.stop, c) =>
    c.setRun number { r with point := .leaving .stopped, stopwatch := r.stopwatch.start c.now }
  | (.pause, c) | (.none, c) => c.goTo number r (.dozing .signal)

/-- Cancels the producer, as the first of the two sections in which reading ahead is stopped. -/
def cancelProducer (c : Controller) (r : Run) : Controller :=
  match r.feed? with
  | some f => c.onBuffer f Buffer.cancelToken
  | none => c

/-- Stops reading ahead. -/
def leave (c : Controller) (number : Nat) (r : Run) (outcome : Outcome) : Controller :=
  let c := match r.feed? with
    | some f => c.onBuffer f Buffer.stop
    | none => c
  c.goTo number r (.concluding outcome)

/-- Publishes the end.  Only a stop takes the line back. -/
def conclude (c : Controller) (number : Nat) (r : Run) (outcome : Outcome) : Controller :=
  ({ c with signal := .none, token? := none }.publish fun s =>
    let s := { s with state := outcome.state }
    if outcome = Outcome.stopped then s.setLine noLine else s).goTo number r .ended

/-- One step of a run. -/
def stepRun (c : Controller) (chance : Chance) (number : Nat) : Controller :=
  match c.runs[number]? with
  | none => c
  | some r =>
    match r.point with
    | .starting => c.startFeed number r
    | .indexing => c.lookAtIndex number r
    | .announcing => c.announce number r
    | .heading => c.goTo number r (if r.cancelled then .leaving .canceled else .fetching)
    | .fetching => c.fetch number r
    | .polling => c.poll number r
    | .beginning command => c.beginCommand number r command
    | .dozing errand => c.doze number r errand
    | .asleep errand moment => c.wake chance number r errand moment
    | .advancing command progress => c.tick chance number r command progress
    | .recording command => c.recordTime number r command
    | .checkpoint => c.check number r
    | .holding => c.hold number r
    | .leaving outcome => c.leave number r outcome
    | .concluding outcome => c.conclude number r outcome
    | .ended => c

end Controller

end GcodeJob
