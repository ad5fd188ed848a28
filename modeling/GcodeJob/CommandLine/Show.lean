import GcodeJob.Command.Summary
import GcodeJob.Program.Walk
import GcodeJob.Terminal.Screen

/-!
# GcodeJob.CommandLine.Show

Listing the commands of a program instead of running it, one summary a line.
-/

namespace GcodeJob

/-- What waiting for an index comes to, `none` while there is reason to wait. -/
def Program.indexOutcome? (p : Program) : Option (Except Error Unit) :=
  match p.state with
  | .building => none
  | .built => some (.ok ())
  | .failed | .closed => some (p.file.readable.map fun _ => ())

namespace Show

/-- Writes the summaries of the next commands, at most `count`, up to the
first error. -/
def writeFrom (p : Program) (w : Walk) (sink : Sink) : Nat → Except Error Unit × Sink × Program
  | 0 => (.ok (), sink, p)
  | count + 1 =>
    match w.next p with
    | (none, p, _) => (.ok (), sink, p)
    | (some (.error e), p, _) => (.error e, sink, p)
    | (some (.ok command), p, w) =>
      match sink.write [.text (command.command.summary ++ "\n")] with
      | (.error e, sink) => (.error e, sink, p)
      | (.ok (), sink) => writeFrom p w sink count

/-- Writes the summaries of `count` commands from a line on. -/
def commands (p : Program) (sink : Sink) (start : Int) (count : Nat) :
    Except Error Unit × Sink × Program :=
  match Walk.start p start with
  | .error e => (.error e, sink, p)
  | .ok walk =>
    match writeFrom p walk sink count with
    | (.ok (), sink, p) => (sink.flush, sink, p)
    | failed => failed

end Show

end GcodeJob
