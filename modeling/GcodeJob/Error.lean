import GcodeJob.Job.State
import GcodeJob.Settings

/-!
# GcodeJob.Error

Everything that can go wrong, by its cause, with the wording in one place.
-/

namespace GcodeJob

/-- Why the system refused to open or read a file. -/
inductive ReadFault
  | notFound
  | isDirectory
  /-- The disk does not give the bytes. -/
  | deviceFailed
  deriving DecidableEq, Repr

/-- The system's own words. -/
def ReadFault.message : ReadFault → String
  | .notFound => "No such file or directory (os error 2)"
  | .isDirectory => "Is a directory (os error 21)"
  | .deviceFailed => "Input/output error (os error 5)"

inductive Error
  /-- The settings file holds no settings. -/
  | malformedSettings
  /-- A file, described by what it is for, could not be opened or read. -/
  | unreadable (description path : String) (fault : ReadFault)
  | indexNotBuilt (path : String)
  | indexFailed (path reason : String)
  | streamClosed (path : String)
  | lineOutOfRange (line : Int) (totalLines : Nat)
  | invalidState (operation : Operation) (state : State)
  | stopPending (operation : Operation)
  | bufferRunning
  | bufferWithoutSource
  | invalidSettings (fault : SettingsFault)
  /-- There is nothing to run a job on. -/
  | noRuntime
  | terminal (reason : String)
  deriving DecidableEq, Repr

/-- The text an operator sees. -/
def Error.message : Error → String
  | .malformedSettings => "Error reading settings file"
  | .unreadable description path fault =>
    "IO error with " ++ description ++ " file at path `" ++ path ++ "`: " ++ fault.message
  | .indexNotBuilt path => "The line index of `" ++ path ++ "` has not been built yet."
  | .indexFailed path reason => "Building the line index of `" ++ path ++ "` failed: " ++ reason
  | .streamClosed path => "The text stream for `" ++ path ++ "` has been closed."
  | .lineOutOfRange line totalLines =>
    "Line " ++ toString line ++ " is out of range, the stream has " ++ Nat.repr totalLines ++
      " lines."
  | .invalidState operation state =>
    "Cannot " ++ operation.name ++ " while the job is " ++ state.name ++ "."
  | .stopPending operation =>
    "Cannot " ++ operation.name ++ " because a stop is already pending."
  | .bufferRunning => "The command buffer is already running."
  | .bufferWithoutSource => "The command buffer has no source stream."
  | .invalidSettings fault => "Invalid settings: " ++ fault.message
  | .noRuntime => "No async runtime to run the job on"
  | .terminal reason => "Terminal IO error: " ++ reason

/-- Settings that pass their check. -/
def Settings.validate (s : Settings) : Except Error Unit :=
  match s.fault? with
  | some fault => .error (.invalidSettings fault)
  | none => .ok ()

end GcodeJob
