import GcodeJob.Job.Controller

/-!
# GcodeJob.Job.Operations

What can be asked of a controller.  Each operation is allowed in some states
and answers at once; what it asks of a running job is noted as a signal, or
by cancelling the job's token, and the job takes notice in its own time.  An
operation that is refused changes nothing, but for a self test that fails.
-/

namespace GcodeJob

/-- The states in which an operation is allowed. -/
def Operation.allowed : Operation → List State
  | .powerOn => [.shutdown]
  | .shutDown | .load | .execute => [.idle]
  | .pause => [.printing]
  | .resume => [.paused]
  | .stop => [.printing, .paused]
  | .cancel => [.waiting, .printing, .paused]
  | .reset => [.failed, .canceled]

namespace Controller

/-- What an operation answers, and the controller after it. -/
abbrev Reply := Except Error Unit × Controller

/-- Does something if an operation is allowed now. -/
def allowing (c : Controller) (o : Operation) (act : Controller → Reply) : Reply :=
  if o.allowed.contains c.status.state then act c
  else (.error (.invalidState o c.status.state), c)

/-- An operation that is not allowed changes nothing. -/
theorem allowing_of_refused {c : Controller} {o : Operation} (act : Controller → Reply)
    (h : c.status.state ∉ o.allowed) :
    c.allowing o act = (.error (.invalidState o c.status.state), c) := by
  simp [allowing, h]

/-! ## Power -/

/-- Powers on, through a self test of the settings. -/
def powerOn (c : Controller) : Reply :=
  c.allowing .powerOn fun c =>
    let c := c.setState .selfTest
    match c.settings.validate with
    | .error e => (.error e, c.setState .shutdown)
    | .ok () => (.ok (), c.setState .idle)

/-- Stops reading ahead for the loaded feed. -/
def stopLoaded (c : Controller) : Controller :=
  match c.loaded? with
  | some feed => c.onBuffer feed Buffer.stop
  | none => c

/-- Shuts down and lets go of what is loaded. -/
def shutDown (c : Controller) : Reply :=
  c.allowing .shutDown fun c => (.ok (), { (c.setState .shutdown).stopLoaded with loaded? := none })

/-! ## Loading and executing -/

/-- Closes the program of the loaded feed, unless it is the given one. -/
def closeReplaced (c : Controller) (program : Nat) : Controller :=
  match c.loaded?.bind (c.feeds[·]?) with
  | some feed => if feed.program = program then c else c.close feed.program
  | none => c

/-- Loads a program in place of the one before, which is closed. -/
def load (c : Controller) (program : Nat) : Reply :=
  c.allowing .load fun c =>
    let c := c.stopLoaded.closeReplaced program
    let feed : Feed := { program, buffer := { settings := c.settings.buffer } }
    let totalLines := (c.programs[program]?.map Program.totalLines).getD 0
    let c := { c with loaded? := some c.feeds.size, feeds := c.feeds.push feed }
    (.ok (), c.publish fun s => { s with totalLines, time := 0 }.setLine noLine)

/-- Starts a run of what is loaded.  That there is nothing to run shows in
the run. -/
def beginRun (c : Controller) : Controller :=
  { c with
    signal := .none
    token? := some c.runs.size
    latestRun? := some c.runs.size
    runs := c.runs.push { feed? := c.loaded? } }

/-- Executes what is loaded, provided there is something to run jobs on. -/
def execute (c : Controller) (hasRuntime : Bool) : Reply :=
  if !hasRuntime then (.error .noRuntime, c)
  else c.allowing .execute fun c => (.ok (), (c.setState .waiting).beginRun)

/-! ## Reaching a running job -/

/-- Notes a signal for the run in flight.  A stop is never taken back. -/
def request (c : Controller) (o : Operation) (signal : Signal) : Reply :=
  if c.signal = .stop then (.error (.stopPending o), c)
  else c.allowing o fun c => (.ok (), { c with signal })

/-- Asks for a pause after the current command. -/
def pause (c : Controller) : Reply := c.request .pause .pause

/-- Asks a paused job to continue. -/
def resume (c : Controller) : Reply := c.request .resume .resume

/-- Asks the job to end after the current command. -/
def stop (c : Controller) : Reply := c.request .stop .stop

/-- Cancels the token of the run in flight. -/
def cancelToken (c : Controller) : Controller :=
  match c.token? with
  | some number => { c with runs := c.runs.modify number fun r => { r with cancelled := true } }
  | none => c

/-- Asks the job to end at its next sleep. -/
def cancel (c : Controller) : Reply :=
  c.allowing .cancel fun c => (.ok (), c.cancelToken)

/-- Returns to rest after a job that failed or was canceled. -/
def reset (c : Controller) : Reply :=
  c.allowing .reset fun c => (.ok (), (c.setState .idle).publish (·.setLine noLine))

end Controller

end GcodeJob
