/-!
# GcodeJob.Job.State

The states a job controller can be in, the operations that move it between
them, and the signals by which a caller reaches a running job.
-/

namespace GcodeJob

inductive State
  | shutdown
  | selfTest
  | idle
  /-- Started, waiting for the line index of the program. -/
  | waiting
  | printing
  | paused
  | failed
  | canceled
  deriving DecidableEq, Repr

namespace State

/-- Whether a job is in flight. -/
def isActive : State → Bool
  | .waiting | .printing | .paused => true
  | _ => false

/-- The name shown to the operator. -/
def name : State → String
  | .shutdown => "Shutdown"
  | .selfTest => "SelfTest"
  | .idle => "Idle"
  | .waiting => "Waiting"
  | .printing => "Printing"
  | .paused => "Pause"
  | .failed => "PrintFailed"
  | .canceled => "Canceled"

end State

/-- What can be asked of a controller. -/
inductive Operation
  | powerOn
  | shutDown
  | load
  | execute
  | pause
  | resume
  | stop
  | cancel
  | reset
  deriving DecidableEq, Repr

/-- The operation as a refusal names it. -/
def Operation.name : Operation → String
  | .powerOn => "power on"
  | .shutDown => "shut down"
  | .load => "load a stream"
  | .execute => "execute"
  | .pause => "pause"
  | .resume => "continue"
  | .stop => "stop"
  | .cancel => "cancel"
  | .reset => "reset"

/-- A request that waits for the running job to take it. -/
inductive Signal
  | none
  | pause
  | resume
  | stop
  deriving DecidableEq, Repr

end GcodeJob
