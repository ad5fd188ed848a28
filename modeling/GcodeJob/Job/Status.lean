import GcodeJob.Job.State
import GcodeJob.Number.Single

/-!
# GcodeJob.Job.Status

The published picture of a job: its state, the line being executed, how far
that line has got and how long the last finished one took.
-/

namespace GcodeJob

/-- The line shown while none is executed. -/
def noLine : Int := -1

structure Status where
  state : State := .shutdown
  line : Int := noLine
  totalLines : Nat := 0
  /-- Progress of the executed line, from zero to one. -/
  progress : Single := .zero
  /-- Milliseconds the last finished command took. -/
  time : Int := 0
  deriving DecidableEq, Repr

namespace Status

/-- Moves to another line; its progress starts over. -/
def setLine (s : Status) (line : Int) : Status := { s with line, progress := .zero }

/-- Publishes progress, kept between zero and one. -/
def setProgress (s : Status) (progress : Single) : Status :=
  { s with progress := progress.clamp .zero .one }

end Status

end GcodeJob
