import GcodeJob.CommandLine.Control
import GcodeJob.Job.Operations
import GcodeJob.Job.Schedule
import GcodeJob.Terminal.Reporter

/-!
# GcodeJob.CommandLine.Session

Running one program with an operator at the terminal.

A session loads and executes a program and then takes notice of what happens,
one thing at a time: a change of the status, a control from the operator, an
interrupt.  After each it looks at the status and reports it.  Changes are not
counted: a session that has not looked for a while sees the latest status only.
When no job is in flight any more it waits for the run to end, reports once
more and is over.
-/

namespace GcodeJob

/-- What a session does next. -/
inductive SessionPoint
  /-- Looks at the status and reports it. -/
  | looking
  /-- Waits for something to happen. -/
  | waiting
  /-- Waits for the run to end. -/
  | joining
  /-- Reports for the last time. -/
  | finishing
  /-- Is over, with the last status or with what went wrong. -/
  | over (result : Except Error Status)

structure Session where
  controller : Controller
  /-- The number of the program. -/
  program : Nat
  reporter : Reporter := {}
  /-- How many statuses had been published when it last looked. -/
  seen : Nat := 0
  /-- Whether controls may still come. -/
  hears : Bool := true
  /-- Whether the interrupt has come. -/
  interrupted : Bool := false
  /-- What it said beside the reports. -/
  remarks : String := ""
  point : SessionPoint := .looking

namespace Session

/-- Loads a program and executes it.  What refuses either ends the session. -/
def start (c : Controller) (program : Nat) (sink : Sink) : Session :=
  let session (c : Controller) (point : SessionPoint) (remarks : String) : Session :=
    { controller := c, program, reporter := { sink }, point, remarks }
  match c.load program with
  | (.error e, c) => session c (.over (.error e)) ""
  | (.ok (), c) =>
    match c.execute true with
    | (.error e, c) => session c (.over (.error e)) ""
    | (.ok (), c) => session c .looking (Control.helpText ++ "\n")

/-- Reports the current status and goes on, unless that fails. -/
def report (s : Session) (next : SessionPoint) : Session :=
  match s.controller.programs[s.program]? with
  | none => { s with point := next }
  | some p =>
    match s.reporter.report p s.controller.status with
    | (.ok (), reporter) => { s with reporter, point := next }
    | (.error e, reporter) => { s with reporter, point := .over (.error e) }

/-- Looks at the status. -/
def look (s : Session) : Session :=
  { s with seen := s.controller.published }.report
    (if s.controller.status.state.isActive then .waiting else .joining)

/-- Whether a status has been published since it last looked. -/
def hasNews (s : Session) : Bool := s.seen != s.controller.published

/-- Passes a control on.  One that is refused is ignored. -/
def hear (s : Session) (control : Control) : Session :=
  match control with
  | .help => { s with remarks := s.remarks ++ "\n" ++ Control.helpText ++ "\n", point := .looking }
  | control => { s with controller := (control.apply s.controller).2, point := .looking }

/-- Takes notice that no more controls will come. -/
def stopHearing (s : Session) : Session := { s with hears := false, point := .looking }

/-- Cancels the job, if one is in flight. -/
def interrupt (s : Session) : Session :=
  { s with controller := s.controller.cancel.2, interrupted := true, point := .looking }

/-- Goes on to the last report when the run has ended. -/
def join (s : Session) : Session :=
  if s.controller.inFlight?.isNone then { s with point := .finishing } else s

/-- Reports for the last time. -/
def finish (s : Session) : Session :=
  let last := s.controller.status
  let s := s.report (.over (.ok last))
  match s.point, s.controller.programs[s.program]? with
  | .over (.ok _), some p =>
    match s.reporter.finish p with
    | (.ok (), reporter) => { s with reporter }
    | (.error e, reporter) => { s with reporter, point := .over (.error e) }
  | _, _ => s

/-- Lets the controller go on by itself. -/
def background (s : Session) (step : Controller → Controller) : Session :=
  { s with controller := step s.controller }

/-- The last status or what went wrong, once the session is over. -/
def result? (s : Session) : Option (Except Error Status) :=
  match s.point with
  | .over result => some result
  | _ => none

/-- Puts the controller away after a session: resets it if it has to be, and
shuts it down. -/
def putAway (c : Controller) : Controller.Reply :=
  if c.status.state = .idle then c.shutDown
  else
    match c.reset with
    | (.ok (), c) => c.shutDown
    | refused => refused

/-- Takes notice of what has happened, if anything has. -/
def notice (s : Session) : Session :=
  match s.point with
  | .looking => s.look
  | .waiting => if s.hasNews then s.look else s
  | .joining => s.join
  | .finishing => s.finish
  | .over _ => s

/-- Lets producers and the run in flight do what they have to do by a moment. -/
def catchUp (chance : Chance) (moment : Nat) (s : Session) : Session :=
  s.background fun c =>
    let c := (c.advanceTo moment).produce
    match c.ready? with
    | some number => Controller.resumeRun chance number Controller.stepsToSleep c
    | none => c

/-! ## A session by the clock -/

/-- What an operator will do: controls that wait to be heard, whether more may
come after them, and the moment of an interrupt. -/
structure Operator where
  controls : List Control := []
  stays : Bool := false
  interruptAt? : Option Nat := none

/-- The moment of an interrupt that is still to come. -/
def pendingInterrupt? (o : Operator) (s : Session) : Option Nat :=
  if s.interrupted then none else o.interruptAt?

/-- One turn of a session: what has happened already comes before anything
that is still to happen. -/
def turn? (chance : Chance) (o : Operator) (s : Session) : Option (Operator × Session) :=
  match s.point with
  | .over _ => none
  | .looking => some (o, s.look)
  | .finishing => some (o, s.finish)
  | .joining =>
    if s.controller.inFlight?.isNone then some (o, s.join)
    else (s.controller.turn? chance none).map fun c => (o, s.background fun _ => c)
  | .waiting =>
    match o.controls with
    | control :: rest => some ({ o with controls := rest }, s.hear control)
    | [] =>
      let interrupt? := s.pendingInterrupt? o
      if s.hears && !o.stays then some (o, s.stopHearing)
      else if s.hasNews then some (o, { s with point := .looking })
      else if interrupt?.any (· ≤ s.controller.now) then some (o, s.interrupt)
      else
        match s.controller.turn? chance interrupt? with
        | some c => some (o, s.background fun _ => c)
        | none => interrupt?.map fun moment => (o, s.background (·.advanceTo moment))

/-- Takes turns until the session is over or `turns` turns are. -/
def run (chance : Nat → Chance) : (turns : Nat) → Operator → Session → Session
  | 0, _, s => s
  | n + 1, o, s =>
    match s.turn? (chance n) o with
    | some (o, s) => run chance n o s
    | none => s

end Session

end GcodeJob
