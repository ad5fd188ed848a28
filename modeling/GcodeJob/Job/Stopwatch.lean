/-!
# GcodeJob.Job.Stopwatch

A stopwatch that can be paused; paused time is not counted.  It holds no
clock of its own: each operation is told the time.
-/

namespace GcodeJob

/-- When the running stretch began, if one is running, and the length of
those before it. -/
structure Stopwatch where
  runningSince : Option Nat := none
  accumulated : Nat := 0
  deriving DecidableEq, Repr

namespace Stopwatch

/-- Starting a running stopwatch changes nothing. -/
def start (w : Stopwatch) (now : Nat) : Stopwatch :=
  { w with runningSince := some (w.runningSince.getD now) }

/-- Pausing a paused stopwatch changes nothing. -/
def pause (w : Stopwatch) (now : Nat) : Stopwatch :=
  match w.runningSince with
  | none => w
  | some since => ⟨none, w.accumulated + (now - since)⟩

/-- A stopwatch that starts now. -/
def started (now : Nat) : Stopwatch := ({} : Stopwatch).start now

def isRunning (w : Stopwatch) : Bool := w.runningSince.isSome

/-- The time measured so far. -/
def elapsed (w : Stopwatch) (now : Nat) : Nat :=
  w.accumulated + (w.runningSince.map (now - ·)).getD 0

end Stopwatch

end GcodeJob
