import GcodeJob.Error
import GcodeJob.File.Medium
import GcodeJob.Yaml.Field

/-!
# GcodeJob.Settings.Document

The settings file: a YAML mapping with a section for each part of the
settings.  Everything may be left out.  Within a section that is given, a
field left out has the default of its part; a section left out has the default
of the whole settings, which keep more commands.
-/

namespace GcodeJob

open Yaml

/-- Reads the stream section. -/
def StreamSettings.read (d : Document) (node : List Event) : Option StreamSettings := do
  let fields ← d.fields? node
  let base : StreamSettings := {}
  return {
    chunkSize := ← field? fields "chunk_size" base.chunkSize d.number?
    cacheCapacity := ← field? fields "cache_capacity" base.cacheCapacity d.number? }

/-- Reads the buffer section. -/
def BufferSettings.read (d : Document) (node : List Event) : Option BufferSettings := do
  let fields ← d.fields? node
  let base : BufferSettings := {}
  return {
    capacity := ← field? fields "capacity" base.capacity d.number?
    readIntervalMs := ← field? fields "read_interval_ms" base.readIntervalMs d.number?
    checkSourceIntervalMs :=
      ← field? fields "check_source_interval_ms" base.checkSourceIntervalMs d.number? }

/-- Reads the job section. -/
def JobSettings.read (d : Document) (node : List Event) : Option JobSettings := do
  let fields ← d.fields? node
  let base : JobSettings := {}
  return {
    pollIntervalMs := ← field? fields "poll_interval_ms" base.pollIntervalMs d.number?
    tickIntervalMs := ← field? fields "tick_interval_ms" base.tickIntervalMs d.number?
    pausePollIntervalMs :=
      ← field? fields "pause_poll_interval_ms" base.pausePollIntervalMs d.number? }

namespace Settings

/-- The settings that a document holds. -/
def ofDocument (d : Document) : Option Settings := do
  let fields ← d.fields? d.events
  let base : Settings := {}
  return {
    stream := ← field? fields "stream" base.stream (StreamSettings.read d)
    buffer := ← field? fields "buffer" base.buffer (BufferSettings.read d)
    job := ← field? fields "job" base.job (JobSettings.read d) }

/-- The settings in the content of a file. -/
def ofContent? (content : ByteArray) : Option Settings := do
  let text ← String.fromUTF8? content
  let d ← Document.read text.toList
  ofDocument d

/-- Loads the settings at a path.  Without a file there the defaults hold, and
settings from a file have to pass their check. -/
def load (m : Medium) : Except Error Settings :=
  match m with
  | .absent => .ok {}
  | .file f =>
    match ofContent? f.bytes with
    | some s => s.validate.map fun _ => s
    | none => .error .malformedSettings
  | .damaged .. | .directory | .endless => .error .malformedSettings

end Settings

end GcodeJob
