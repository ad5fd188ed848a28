import GcodeJob.CommandLine.Arguments
import GcodeJob.CommandLine.Path
import GcodeJob.CommandLine.Session
import GcodeJob.CommandLine.Show
import GcodeJob.Settings.Document

/-!
# GcodeJob.CommandLine.Invocation

One invocation of the program: what its arguments and the files they name
come to, what is written, and the code it ends with.
-/

namespace GcodeJob

/-- How the program ends: what it writes, and its code. -/
structure Exit where
  out : String := ""
  err : String := ""
  code : Nat := 0
  deriving DecidableEq, Repr

namespace Exit

def usage : String :=
  "Usage: gcode-run [OPTIONS] <GCODE_PATH>\n\n" ++
  "Arguments:\n" ++
  "  <GCODE_PATH>  Path to the G-code file to run\n\n" ++
  "Options:\n" ++
  "  -c, --config-path <CONFIG_PATH>  Path to the settings YAML\n" ++
  "      --show <LINE>                Print the parsed commands from this line (0-based)\n" ++
  "  -n, --count <COUNT>              Number of commands printed by --show [default: 10]\n" ++
  "  -h, --help                       Print help\n"

/-- The end of an invocation whose arguments are no order to do something. -/
def ofFault : ArgumentFault → Exit
  | .helpRequested => { out := usage }
  | _ => { err := usage, code := 2 }

/-- The end after an error, `out` being written before it. -/
def ofError (out err : String) (e : Error) : Exit :=
  { out, err := err ++ e.message ++ "\n", code := 1 }

/-- The end of a listing, once the index of the program is built or failed. -/
def ofListing? (p : Program) (start : Int) (count : Nat) : Option Exit :=
  p.indexOutcome?.map fun outcome =>
    match outcome with
    | .error e => ofError "" "" e
    | .ok () =>
      let (result, sink, _) := Show.commands p {} start count
      match result with
      | .ok () => { out := sink.text }
      | .error e => ofError sink.text "" e

/-- The last line of a session. -/
def farewell (s : Status) : String := "Job ended: " ++ s.state.name ++ "\n"

/-- The end of a session that is over.  Only a job that was completed or
stopped ends well. -/
def ofSession? (s : Session) : Option Exit :=
  s.result?.map fun result =>
    let out := s.reporter.sink.text
    match result with
    | .error e => ofError out s.remarks e
    | .ok status =>
      let out := out ++ farewell status
      match Session.putAway s.controller with
      | (.error e, _) => ofError out s.remarks e
      | (.ok (), _) => { out, err := s.remarks, code := if status.state = .idle then 0 else 1 }

end Exit

/-- What an invocation has to do. -/
inductive Invocation
  /-- Nothing more. -/
  | over (exit : Exit)
  /-- To list commands of a program. -/
  | listing (program : Program) (start : Int) (count : Nat)
  /-- To run a program. -/
  | session (s : Session)

namespace Invocation

/-- Begins what valid arguments ask for, given the home directory and what
each path leads to. -/
def begin (home : String) (file : String → Medium) (a : Arguments) : Invocation :=
  match Settings.load (file (Path.settings home a.configPath?)) with
  | .error e => .over (.ofError "" "" e)
  | .ok settings =>
    let path := Path.expand home a.path
    let program := Program.openBuilt path (file path) settings.stream
    match a.show? with
    | some start => .listing program start a.count
    | none =>
      let controller : Controller := { settings, programs := #[program] }
      match controller.powerOn with
      | (.error e, _) => .over (.ofError "" "" e)
      | (.ok (), controller) => .session (.start controller 0 {})

/-- How an invocation ends, by the clock.  The operator's lines are heard
before anything else happens; what is no control is answered at once. -/
def exit? (chance : Nat → Chance) (turns : Nat) (input : List String) : Invocation → Option Exit
  | .over exit => some exit
  | .listing program start count => Exit.ofListing? program start count
  | .session s =>
    let heard := input.filterMap Control.ofLine?
    let answers := heard.filterMap fun h => match h with
      | .error message => some ("\n" ++ message ++ "\n")
      | .ok _ => none
    let controls := heard.filterMap Except.toOption
    let s := { s with remarks := s.remarks ++ "".intercalate answers }
    Exit.ofSession? (s.run chance turns { controls })

end Invocation

end GcodeJob
