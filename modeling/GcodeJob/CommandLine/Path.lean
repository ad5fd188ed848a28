/-!
# GcodeJob.CommandLine.Path

Paths as an operator writes them.  A leading tilde stands for the home
directory when it is the whole path or a slash follows it; nothing else in a
path is replaced.
-/

namespace GcodeJob.Path

/-- Where settings are read from when no path is given. -/
def defaultSettings : String := "~/.gcode-stream/settings.yml"

/-- Replaces a leading tilde by the home directory. -/
def expand (home path : String) : String :=
  match path.toList with
  | ['~'] => home
  | '~' :: '/' :: rest => home ++ .ofList ('/' :: rest)
  | _ => path

/-- The path settings are read from. -/
def settings (home : String) (given : Option String) : String :=
  expand home (given.getD defaultSettings)

end GcodeJob.Path
