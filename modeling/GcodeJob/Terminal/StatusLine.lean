import GcodeJob.Job.Status
import GcodeJob.Terminal.Bar

/-!
# GcodeJob.Terminal.StatusLine

The status as one line of text, and what changed from one status to the
next.  A change too small to be worth drawing is no change: progress counts
only when it moved by more than the rounding of one.
-/

namespace GcodeJob

/-- The text padded with spaces on the right to a width in characters. -/
def padRight (width : Nat) (text : String) : String := text ++ "".pushn ' ' (width - text.length)

/-- The text padded with spaces on the left to a width in characters. -/
def padLeft (width : Nat) (text : String) : String := "".pushn ' ' (width - text.length) ++ text

/-- State, line counted from one, number of lines, bar and time. -/
def Status.text (s : Status) : String :=
  padRight 11 s.state.name ++ " line " ++
    (if s.line = noLine then "-" else toString (Word.next s.line)) ++ "/" ++ Nat.repr s.totalLines ++
    " [" ++ Bar.render s.progress 0 '#' '-' ++ "] " ++ toString s.time ++ " ms"

/-- What changed between two statuses. -/
structure StatusChange where
  state : Bool
  /-- The executed line or its progress changed. -/
  progress : Bool
  deriving DecidableEq, Repr

def StatusChange.any (c : StatusChange) : Bool := c.state || c.progress

/-- What changed from one status to another. -/
def StatusChange.between (before after : Status) : StatusChange where
  state := before.state != after.state
  progress := before.line != after.line ||
    Single.epsilon.lt (before.progress.sub after.progress).abs

/-- Remembers the status seen last. -/
structure StatusWatch where
  previous : Option Status := none
  deriving DecidableEq, Repr

/-- What changed since the status seen last; all of it on the first look. -/
def StatusWatch.observe (w : StatusWatch) (s : Status) : StatusChange × StatusWatch :=
  ((w.previous.map (.between · s)).getD ⟨true, true⟩, ⟨some s⟩)

end GcodeJob
