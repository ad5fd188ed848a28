import GcodeJob.Program.Basic
import GcodeJob.ReadAhead.Queue

/-!
# GcodeJob.ReadAhead.Producer

The producer of one run.  It walks the program line by line and queues every
command that is to be executed.  Each step of it touches the shared state
once, and anything may happen between two steps: the queue may be taken
from, the run ended, the program closed.

A step that finds nothing to do rests until a time; a rested producer starts
over with a look at its token.
-/

namespace GcodeJob

/-- What a producer does next. -/
inductive ProducerPoint
  /-- Looks whether it has been cancelled. -/
  | checking
  /-- Looks whether the program can be read. -/
  | sourcing
  /-- Looks whether there is room in the queue. -/
  | measuring
  /-- Looks which line is next. -/
  | locating
  /-- Reads the line. -/
  | fetching (position : Nat)
  /-- Hands the command over. -/
  | delivering (position : Nat) (command : Issued)
  /-- Does nothing until a time. -/
  | resting (moment : Nat)
  /-- Records how the run ended. -/
  | leaving (outcome : Stage)
  /-- Has exited. -/
  | gone
  deriving DecidableEq, Repr

structure Producer where
  /-- The number of the run it works for. -/
  run : Nat
  /-- Its token has been cancelled. -/
  cancelled : Bool := false
  point : ProducerPoint := .checking
  deriving DecidableEq, Repr

namespace Producer

/-- What the steps of a producer share with others. -/
structure Shared where
  program : Program
  queue : Queue

/-- One step at a time `now`, in nanoseconds. -/
def step (settings : BufferSettings) (now : Nat) (s : Shared) (w : Producer) : Shared × Producer :=
  let restFor (ms : Nat) : ProducerPoint := .resting (now + ms * 1000000)
  match w.point with
  | .checking => (s, { w with point := if w.cancelled then .leaving .stopped else .sourcing })
  | .sourcing =>
    let point := match s.program.state with
      | .built => .measuring
      | .building => restFor settings.checkSourceIntervalMs
      | .failed | .closed => .leaving .failed
    (s, { w with point })
  | .measuring =>
    let full := settings.capacity ≤ s.queue.items.length
    (s, { w with point := if full then restFor settings.checkSourceIntervalMs else .locating })
  | .locating => (s, { w with point := .fetching s.queue.position })
  | .fetching position =>
    let (result, program) := s.program.getCommand position
    let point := match result with
      | .ok (some command) => .delivering position command
      | .ok none => .leaving .finished
      | .error _ => .leaving .failed
    ({ s with program }, { w with point })
  | .delivering position command =>
    if w.cancelled then (s, { w with point := .leaving .stopped })
    else
      let executable := command.command.isExecutable
      ({ s with queue := s.queue.deliver position command },
        { w with point := if executable then restFor settings.readIntervalMs else .checking })
  | .resting moment => (s, if moment ≤ now then { w with point := .checking } else w)
  | .leaving outcome =>
    ({ s with queue := s.queue.conclude w.run outcome }, { w with point := .gone })
  | .gone => (s, w)

/-- The time it rests until, if it rests. -/
def restingUntil? (w : Producer) : Option Nat :=
  match w.point with
  | .resting moment => some moment
  | _ => none

/-- Whether a step at `now` would do something. -/
def isReady (now : Nat) (w : Producer) : Bool :=
  match w.point with
  | .resting moment => decide (moment ≤ now)
  | .gone => false
  | _ => true

/-- Ends a rest before its time. -/
def wake (w : Producer) : Producer :=
  match w.point with
  | .resting _ => { w with point := .checking }
  | _ => w

end Producer

end GcodeJob
