import GcodeJob.Command
import GcodeJob.Text.Blank

/-!
# GcodeJob.Command.Summary

The one-line description of a command: line index, code, parameters and
comment, set apart by tabs.  A valid parameter is shown by name and value,
an invalid one by its text and a question mark.
-/

namespace GcodeJob

def Parameter.summary (p : Parameter) : String :=
  if p.isValid then p.name.toString ++ "=" ++ p.value.text else p.raw ++ "?"

namespace Command

/-- The code, a dash for a line without one, or the text that is no command. -/
def codeSummary (c : Command) : String :=
  match c.content with
  | .code letter number .. => letter.toChar.toString ++ Nat.repr number
  | .blank _ => "-"
  | .invalid => "invalid `" ++ Text.trimmed c.raw ++ "`"

def summary (c : Command) : String :=
  Nat.repr c.line ++ "\t" ++ c.codeSummary ++ "\t" ++
    " ".intercalate (c.params.map Parameter.summary) ++
    (c.comment.map ("\t; " ++ ·)).getD ""

end Command

end GcodeJob
