import GcodeJob.CommandLine.Invocation

/-!
# GcodeJob.Main

The program at a real terminal: the only place where files are opened, lines
are typed and time passes.  It decides nothing; every millisecond it tells the
session how late it is and what was typed, and prints what the session wrote.
-/

namespace GcodeJob.Main

/-- What a path leads to. -/
def readMedium (path : String) : IO Medium := do
  try
    return .regular (← IO.FS.readBinFile path)
  catch
    | .noFileOrDirectory .. => return .absent
    | _ => return .directory

/-- Collects the lines that are typed, the latest first, until input ends. -/
partial def collect (typed : IO.Ref (List String)) : IO Unit := do
  let line ← (← IO.getStdin).getLine
  unless line.isEmpty do
    typed.modify (line :: ·)
    collect typed

/-- Passes one line on to a session, or says that it is no control. -/
def pass (s : Session) (line : String) : Session :=
  match s.point, Control.ofLine? line with
  | .waiting, some (.ok control) => (s.hear control).notice
  | _, some (.error message) => { s with remarks := s.remarks ++ "\n" ++ message ++ "\n" }
  | _, _ => s

/-- Prints what a session has written since the last time. -/
def print (s : Session) : IO Session := do
  IO.print s.reporter.sink.text
  (← IO.getStdout).flush
  IO.eprint s.remarks
  let sink := { s.reporter.sink with written := [] }
  return { s with remarks := "", reporter := { s.reporter with sink } }

/-- Prints how an invocation ends. -/
def leave (exit : Exit) : IO UInt32 := do
  IO.print exit.out
  IO.eprint exit.err
  return .ofNat exit.code

/-- Attends to a session until it is over. -/
partial def attend (typed : IO.Ref (List String)) (s : Session) : IO UInt32 := do
  let chance : Chance := { word := .ofNat (← IO.rand 0 (Word.count32 - 1)) }
  let s := (s.catchUp chance (← IO.monoNanosNow)).notice
  let s := (← typed.modifyGet fun lines => (lines.reverse, [])).foldl pass s
  let s ← print s
  match Exit.ofSession? s with
  | some exit => leave exit
  | none =>
    IO.sleep 1
    attend typed s

/-- Begins what valid arguments ask for. -/
def begin (a : Arguments) : IO Invocation := do
  let home := (← IO.getEnv "HOME").getD "~"
  let settings ← readMedium (Path.settings home a.configPath?)
  let program ← readMedium (Path.expand home a.path)
  let file (path : String) : Medium :=
    if path = Path.settings home a.configPath? then settings
    else if path = Path.expand home a.path then program
    else .absent
  return .begin home file a

/-- Carries an invocation out. -/
def carryOut : Invocation → IO UInt32
  | .over exit => leave exit
  | .listing program start count =>
    leave ((Exit.ofListing? program start count).getD { code := 1 })
  | .session s => do
    let typed ← IO.mkRef []
    let _ ← IO.asTask (collect typed) .dedicated
    attend typed s

end GcodeJob.Main

def main (arguments : List String) : IO UInt32 := do
  match GcodeJob.Arguments.read arguments with
  | .error fault => GcodeJob.Main.leave (.ofFault fault)
  | .ok a => GcodeJob.Main.carryOut (← GcodeJob.Main.begin a)
