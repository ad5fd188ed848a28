import GcodeJob.Error
import GcodeJob.Terminal.Timing

/-!
# GcodeJob.Terminal.Screen

What is written to a terminal, as marks with a meaning, and where it is
written to.  A mark becomes text only when it is sent, so what a reader of
the terminal sees can be told from the marks alone.
-/

namespace GcodeJob

/-- One thing written to a terminal. -/
inductive Ink
  /-- Moves to the first column of the line. -/
  | home
  /-- Clears the line. -/
  | clearLine
  | text (words : String)
  /-- Starts a colour. -/
  | foreground (colour : Colour)
  /-- Goes back to the terminal's own colours. -/
  | plain
  deriving DecidableEq, Repr

/-- The number of a colour in the terminal's palette. -/
def Colour.code : Colour → Nat
  | .green => 10
  | .darkGreen => 2
  | .yellow => 11
  | .darkYellow => 3
  | .red => 9

/-- The control sequence, or the text itself. -/
def Ink.encode : Ink → String
  | .home => "\x1b[1G"
  | .clearLine => "\x1b[2K"
  | .text words => words
  | .foreground colour => "\x1b[38;5;" ++ Nat.repr colour.code ++ "m"
  | .plain => "\x1b[0m"

/-- Where writing goes: what has been written, latest first, and whether
writing or flushing is refused, and with what words. -/
structure Sink where
  written : List Ink := []
  refusesWrite : Bool := false
  refusesFlush : Bool := false
  refusal : String := ""
  deriving DecidableEq, Repr

namespace Sink

/-- What has been written, as text. -/
def text (s : Sink) : String := "".intercalate (s.written.reverse.map Ink.encode)

/-- Writes some marks, or none of them if writing is refused. -/
def write (s : Sink) (marks : List Ink) : Except Error Unit × Sink :=
  if s.refusesWrite && !marks.isEmpty then (.error (.terminal s.refusal), s)
  else (.ok (), { s with written := marks.reverse ++ s.written })

def flush (s : Sink) : Except Error Unit :=
  if s.refusesFlush then .error (.terminal s.refusal) else .ok ()

/-- Writes some marks and makes them visible. -/
def writeFlushed (s : Sink) (marks : List Ink) : Except Error Unit × Sink :=
  match s.write marks with
  | (.ok (), s) => (s.flush, s)
  | refused => refused

end Sink

end GcodeJob
