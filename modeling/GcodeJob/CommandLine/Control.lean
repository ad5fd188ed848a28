import GcodeJob.Job.Operations
import GcodeJob.Text.Blank
import GcodeJob.Text.Lowercase

/-!
# GcodeJob.CommandLine.Control

The words by which an operator controls a running job.  Case and the blanks
around a word do not matter.
-/

namespace GcodeJob

inductive Control
  | pause
  | resume
  | stop
  | cancel
  | help
  deriving DecidableEq, Repr

namespace Control

def helpText : String :=
  "Controls: [p]ause, [c]ontinue, [s]top, cancel with [x] or Ctrl-C, [?] help"

def name : Control → String
  | .pause => "pause"
  | .resume => "continue"
  | .stop => "stop"
  | .cancel => "cancel"
  | .help => "help"

/-- A word as it is compared: trimmed and in lower case. -/
def normalise (text : String) : String := .ofList (Text.lowercase (Text.trim text.toList))

/-- The control that a normalised word names. -/
def ofWord? : String → Option Control
  | "p" | "pause" => some .pause
  | "c" | "continue" | "resume" => some .resume
  | "s" | "stop" => some .stop
  | "x" | "cancel" => some .cancel
  | "?" | "h" | "help" => some .help
  | _ => none

/-- The answer to a word that names no control. -/
def unknown (word : String) : String := "Unknown control `" ++ word ++ "`. " ++ helpText

/-- Reads a control, or says what it does not know. -/
def read (text : String) : Except String Control :=
  let word := normalise text
  match ofWord? word with
  | some control => .ok control
  | none => .error (unknown word)

/-- Reads a line of input; a blank line is nothing. -/
def ofLine? (line : String) : Option (Except String Control) :=
  if (Text.trim line.toList).isEmpty then none else some (read line)

/-- Asks a controller for what a control stands for. -/
def apply (control : Control) (c : Controller) : Controller.Reply :=
  match control with
  | .pause => c.pause
  | .resume => c.resume
  | .stop => c.stop
  | .cancel => c.cancel
  | .help => (.ok (), c)

end Control

end GcodeJob
