import GcodeJob.Command.Issued

/-!
# GcodeJob.ReadAhead.Queue

The queue between the producer that reads a program ahead and the job that
executes it.  Each operation here is one section under the queue's lock, so
whatever goes on between two of them, every operation sees a whole queue.

Runs are numbered: each start begins a new run, and a producer that is late
to notice the end of its own run is told from the current one by its number.
-/

namespace GcodeJob

/-- How far reading ahead has got. -/
inductive Stage
  /-- Never started. -/
  | idle
  | running
  /-- The end of the program was reached. -/
  | finished
  /-- Ended by request. -/
  | stopped
  /-- Ended by an error, or by a program that cannot be read. -/
  | failed
  deriving DecidableEq, Repr

/-- Whether nothing else will be queued. -/
def Stage.isTerminal : Stage → Bool
  | .finished | .stopped | .failed => true
  | _ => false

/-- What taking from the queue gives. -/
inductive Fetch
  /-- A command, and the line that will be read next. -/
  | ready (position : Nat) (command : Issued)
  /-- Nothing yet. -/
  | empty (position : Nat)
  /-- Nothing any more; `reachedEnd` tells a complete read from an early exit. -/
  | exhausted (reachedEnd : Bool)
  deriving DecidableEq, Repr

structure Queue where
  /-- Commands read and not taken, first in first out. -/
  items : List Issued := []
  stage : Stage := .idle
  run : Nat := 0
  /-- The line to read next. -/
  position : Nat := 0
  deriving DecidableEq, Repr

namespace Queue

/-- Begins a new run at the first line with nothing queued. -/
def begin (q : Queue) : Queue := ⟨[], .running, q.run + 1, 0⟩

/-- Drops what is queued and ends the run. -/
def discard (q : Queue) : Queue :=
  { q with items := [], stage := if q.stage = .running then .stopped else q.stage }

/-- Moves past the line of a command, queueing it if it is to be executed. -/
def deliver (q : Queue) (position : Nat) (command : Issued) : Queue :=
  { q with
    position := position + 1
    items := if command.command.isExecutable then q.items ++ [command] else q.items }

/-- Records how a run ended, unless it is over already. -/
def conclude (q : Queue) (run : Nat) (outcome : Stage) : Queue :=
  if q.run = run ∧ q.stage = .running then { q with stage := outcome } else q

/-- Takes the next command without waiting for one. -/
def next (q : Queue) : Fetch × Queue :=
  match q.items with
  | command :: rest => (.ready q.position command, { q with items := rest })
  | [] =>
    match q.stage with
    | .running => (.empty q.position, q)
    | .finished => (.exhausted true, q)
    | .idle | .stopped | .failed => (.exhausted false, q)

/-- The line to be read next, `none` once reading has ended for good. -/
def readPosition? (q : Queue) : Option Nat := if q.stage.isTerminal then none else some q.position

/-! ## What the sections keep -/

/-- No run is on after it was ended. -/
theorem stage_discard_ne (q : Queue) : q.discard.stage ≠ .running := by
  unfold discard
  dsimp only
  split
  · simp
  · assumption

/-- A producer of another run changes nothing by its end. -/
theorem conclude_of_ne {q : Queue} {run : Nat} (outcome : Stage) (h : q.run ≠ run) :
    q.conclude run outcome = q := by
  simp [conclude, h]

@[simp] theorem items_conclude (q : Queue) (run : Nat) (outcome : Stage) :
    (q.conclude run outcome).items = q.items := by
  unfold conclude
  split <;> rfl

end Queue

end GcodeJob
