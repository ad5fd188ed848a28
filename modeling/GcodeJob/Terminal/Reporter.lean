import GcodeJob.Program.Basic
import GcodeJob.Terminal.Screen
import GcodeJob.Terminal.StatusLine

/-!
# GcodeJob.Terminal.Reporter

Job progress on a terminal.  The status stands on one line that is redrawn
in place; when the job leaves a line, the time it took is printed above.  A
status that shows no change since the last one is not drawn.
-/

namespace GcodeJob

structure Reporter where
  sink : Sink := {}
  watch : StatusWatch := {}
  /-- The line whose time is printed when the job leaves it. -/
  currentLine : Int := noLine
  deriving DecidableEq, Repr

namespace Reporter

/-- The line that tells how long a command took. -/
def timing (i : Issued) (ms : Int) : List Ink :=
  let band := TimingBand.ofTime ms
  [.home, .clearLine,
    .text (padLeft 8 (Nat.repr i.line) ++ " " ++ padRight 24 (Text.trimmed i.command.raw) ++ " "),
    .foreground band.colour, .text (toString ms ++ " ms (" ++ band.label ++ ")"), .plain,
    .text "\n"]

/-- What is printed when the job leaves a line: its timing, if the command
is still kept and has run. -/
def farewell (p : Program) (line : Int) : List Ink :=
  if line < 0 then []
  else
    match p.cached? line.toNat with
    | none => []
    | some i => if p.time i ≤ 0 then [] else timing i (p.time i)

/-- The status line, drawn in place. -/
def statusLine (s : Status) : List Ink := [.home, .clearLine, .text s.text]

/-- Prints what there is to say about the line the job leaves. -/
def leaveLine (p : Program) (r : Reporter) : Except Error Unit × Reporter :=
  let (result, sink) := r.sink.write (farewell p r.currentLine)
  (result, { r with sink })

/-- Draws a status, with the timing of the line before if it is another. -/
def draw (p : Program) (r : Reporter) (s : Status) : Except Error Unit × Reporter :=
  let (left, r) := if s.line = r.currentLine then (.ok (), r) else r.leaveLine p
  match left with
  | .error e => (.error e, r)
  | .ok () =>
    let (result, sink) := r.sink.writeFlushed (statusLine s)
    (result, { r with sink, currentLine := s.line })

/-- Shows a status, unless nothing visible changed since the last one. -/
def report (p : Program) (r : Reporter) (s : Status) : Except Error Unit × Reporter :=
  let (change, watch) := r.watch.observe s
  let r := { r with watch }
  if change.any then r.draw p s else (.ok (), r)

/-- Prints the timing of the last line and ends the status line. -/
def finish (p : Program) (r : Reporter) : Except Error Unit × Reporter :=
  match r.leaveLine p with
  | (.error e, r) => (.error e, r)
  | (.ok (), r) =>
    let (result, sink) := r.sink.writeFlushed [.text "\n"]
    (result, { r with sink, currentLine := noLine })

end Reporter

end GcodeJob
