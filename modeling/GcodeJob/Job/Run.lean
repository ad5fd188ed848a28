import GcodeJob.Command.Issued
import GcodeJob.Job.State
import GcodeJob.Job.Stopwatch
import GcodeJob.Number.Single

/-!
# GcodeJob.Job.Run

One execution of a loaded program, from the moment it is asked for to its
end, as a place in the execution loop.  Between two places anything else may
happen, so each step from one to the next touches what is shared only once.
-/

namespace GcodeJob

/-- How a run ends. -/
inductive Outcome
  /-- Every command was executed. -/
  | completed
  /-- Ended by request between two commands. -/
  | stopped
  /-- Ended by request at a sleep. -/
  | canceled
  /-- There was nothing to read, or reading it failed. -/
  | failed
  deriving DecidableEq, Repr

/-- The state that a run leaves behind. -/
def Outcome.state : Outcome → State
  | .completed | .stopped => .idle
  | .canceled => .canceled
  | .failed => .failed

/-- What a run sleeps for. -/
inductive Errand
  /-- To look at the index again. -/
  | index
  /-- To ask for a command again. -/
  | nextCommand
  /-- To let a command progress. -/
  | tick (command : Issued) (progress : Single)
  /-- To look for a signal while paused. -/
  | signal
  deriving DecidableEq, Repr

/-- What a run does next. -/
inductive RunPoint
  /-- Starts reading ahead. -/
  | starting
  /-- Looks whether the index is built. -/
  | indexing
  /-- Publishes that execution begins. -/
  | announcing
  /-- Looks at its token, at the head of the loop. -/
  | heading
  /-- Takes the next command. -/
  | fetching
  /-- Looks for a stop, there being no command yet. -/
  | polling
  /-- Publishes the line of a command. -/
  | beginning (command : Issued)
  /-- Looks at its token before it sleeps. -/
  | dozing (errand : Errand)
  /-- Sleeps until a time, or until its token is cancelled. -/
  | asleep (errand : Errand) (moment : Nat)
  /-- Publishes the progress of one tick. -/
  | advancing (command : Issued) (progress : Single)
  /-- Records how long a finished command took. -/
  | recording (command : Issued)
  /-- Takes the signal between two commands. -/
  | checkpoint
  /-- Takes the signal that may end a pause. -/
  | holding
  /-- Stops reading ahead. -/
  | leaving (outcome : Outcome)
  /-- Publishes the end. -/
  | concluding (outcome : Outcome)
  /-- Has ended. -/
  | ended
  deriving DecidableEq, Repr

/-- Where a sleep leads to when it is over. -/
def Errand.next : Errand → RunPoint
  | .index => .indexing
  | .nextCommand => .heading
  | .tick command progress => .advancing command progress
  | .signal => .holding

structure Run where
  /-- The number of the feed it executes, if one was loaded. -/
  feed? : Option Nat
  /-- Its token has been cancelled. -/
  cancelled : Bool := false
  point : RunPoint := .starting
  /-- Runs while commands are executed; paused time is not counted. -/
  stopwatch : Stopwatch := {}
  /-- What the stopwatch showed when the last command was finished. -/
  lastFinish : Nat := 0
  deriving DecidableEq, Repr

namespace Run

def hasEnded (r : Run) : Bool := r.point = .ended

/-- The time it sleeps until, if it sleeps. -/
def asleepUntil? (r : Run) : Option Nat :=
  match r.point with
  | .asleep _ moment => some moment
  | _ => none

/-- Whether a step at `now` would do something. -/
def isReady (now : Nat) (r : Run) : Bool :=
  match r.point with
  | .asleep _ moment => r.cancelled || decide (moment ≤ now)
  | .ended => false
  | _ => true

end Run

end GcodeJob
