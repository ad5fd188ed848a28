/-!
# GcodeJob.Settings

Everything about a job that can be tuned, with its defaults, and the check
that the values can drive a job.
-/

namespace GcodeJob

/-- How a program file is opened. -/
structure StreamSettings where
  /-- Bytes in each chunk read while the file is indexed. -/
  chunkSize : Nat := 1048576
  /-- Parsed commands that are kept. -/
  cacheCapacity : Nat := 200
  deriving DecidableEq, Repr

/-- How commands are read ahead. -/
structure BufferSettings where
  /-- Commands queued before reading pauses. -/
  capacity : Nat := 20
  /-- Pause after each queued command. -/
  readIntervalMs : Nat := 10
  /-- Pause while the queue is full or the index is not built. -/
  checkSourceIntervalMs : Nat := 100
  deriving DecidableEq, Repr

/-- The pace of a running job. -/
structure JobSettings where
  /-- Pause while no command is ready or the index is not built. -/
  pollIntervalMs : Nat := 10
  /-- Time between two steps of a command. -/
  tickIntervalMs : Nat := 10
  /-- Time between two looks for a signal while paused. -/
  pausePollIntervalMs : Nat := 50
  deriving DecidableEq, Repr

/-- All settings.  Without any given, more commands are kept than a stream
section that leaves the number out would ask for. -/
structure Settings where
  stream : StreamSettings := { cacheCapacity := 500 }
  buffer : BufferSettings := {}
  job : JobSettings := {}
  deriving DecidableEq, Repr

/-- Why settings cannot drive a job. -/
inductive SettingsFault
  | chunkSize
  | bufferCapacity
  | checkSourceInterval
  | pollIntervals
  deriving DecidableEq, Repr

namespace SettingsFault

def message : SettingsFault → String
  | .chunkSize => "stream.chunk_size must be positive"
  | .bufferCapacity => "buffer.capacity must be positive"
  | .checkSourceInterval => "buffer.check_source_interval_ms must be positive"
  | .pollIntervals => "job poll intervals must be positive"

end SettingsFault

/-- The first size or interval that a loop depends on and that is zero. -/
def Settings.fault? (s : Settings) : Option SettingsFault :=
  if s.stream.chunkSize = 0 then some .chunkSize
  else if s.buffer.capacity = 0 then some .bufferCapacity
  else if s.buffer.checkSourceIntervalMs = 0 then some .checkSourceInterval
  else if s.job.pollIntervalMs = 0 ∨ s.job.pausePollIntervalMs = 0 then some .pollIntervals
  else none

end GcodeJob
