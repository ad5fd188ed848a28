import GcodeJob.Proofs.Yaml.Field
import GcodeJob.Proofs.Yaml.Outline
import GcodeJob.Settings.Document

/-!
# GcodeJob.Proofs.Settings.Given

What the settings are when a file gives only some of them.

What a file gives is a number or nothing for each field of each section that is
there (`Given`), however it is written.  `Given.settings` fills the rest in, and
whatever document is read comes to that, `eq_settings_of_ofDocument`.  That
documents with any choice of fields can be read at all is shown for the ones
written a section or a field to the line, `Sheet.ofContent?_content`.

Each field that is not given has its default, with one exception: a stream
section that leaves the number of kept commands out has the default of that
section by itself, which is smaller than the one of the settings as a whole.
-/

namespace GcodeJob

open Yaml

namespace Settings

/-! ## Fields -/

/-- The settings one by one. -/
inductive Field
  | chunkSize
  | cacheCapacity
  | capacity
  | readInterval
  | checkSourceInterval
  | pollInterval
  | tickInterval
  | pausePollInterval
  deriving DecidableEq, Repr

namespace Field

/-- The section of a field and its name there. -/
def path : Field → String × String
  | .chunkSize => ("stream", "chunk_size")
  | .cacheCapacity => ("stream", "cache_capacity")
  | .capacity => ("buffer", "capacity")
  | .readInterval => ("buffer", "read_interval_ms")
  | .checkSourceInterval => ("buffer", "check_source_interval_ms")
  | .pollInterval => ("job", "poll_interval_ms")
  | .tickInterval => ("job", "tick_interval_ms")
  | .pausePollInterval => ("job", "pause_poll_interval_ms")

/-- The value of a field. -/
def of (s : Settings) : Field → Nat
  | .chunkSize => s.stream.chunkSize
  | .cacheCapacity => s.stream.cacheCapacity
  | .capacity => s.buffer.capacity
  | .readInterval => s.buffer.readIntervalMs
  | .checkSourceInterval => s.buffer.checkSourceIntervalMs
  | .pollInterval => s.job.pollIntervalMs
  | .tickInterval => s.job.tickIntervalMs
  | .pausePollInterval => s.job.pausePollIntervalMs

end Field

/-! ## What is given -/

/-- What a file gives: for each section that is there, the numbers of its fields. -/
abbrev Given := String → Option (String → Option Nat)

/-- A stream section with the numbers of its fields. -/
def streamOf (fields : String → Option Nat) : StreamSettings :=
  let base : StreamSettings := {}
  { chunkSize := (fields "chunk_size").getD base.chunkSize
    cacheCapacity := (fields "cache_capacity").getD base.cacheCapacity }

/-- A buffer section with the numbers of its fields. -/
def bufferOf (fields : String → Option Nat) : BufferSettings :=
  let base : BufferSettings := {}
  { capacity := (fields "capacity").getD base.capacity
    readIntervalMs := (fields "read_interval_ms").getD base.readIntervalMs
    checkSourceIntervalMs := (fields "check_source_interval_ms").getD base.checkSourceIntervalMs }

/-- A job section with the numbers of its fields. -/
def jobOf (fields : String → Option Nat) : JobSettings :=
  let base : JobSettings := {}
  { pollIntervalMs := (fields "poll_interval_ms").getD base.pollIntervalMs
    tickIntervalMs := (fields "tick_interval_ms").getD base.tickIntervalMs
    pausePollIntervalMs := (fields "pause_poll_interval_ms").getD base.pausePollIntervalMs }

namespace Given

variable (given : Given)

/-- What is given for a field. -/
def of? (f : Field) : Option Nat := (given f.path.1).bind (· f.path.2)

/-- A stream section is there and leaves the number of kept commands out. -/
def LacksCapacity : Prop := (given "stream").isSome ∧ given.of? .cacheCapacity = none

/-- What a field is that is not given: its default, but for the kept commands of a
stream section. -/
def fallback (f : Field) : Nat :=
  if f = .cacheCapacity ∧ (given "stream").isSome then ({} : StreamSettings).cacheCapacity
  else f.of {}

/-- The settings that come of what is given. -/
def settings : Settings :=
  let base : Settings := {}
  { stream := ((given "stream").map streamOf).getD base.stream
    buffer := ((given "buffer").map bufferOf).getD base.buffer
    job := ((given "job").map jobOf).getD base.job }

/-- **Each field is what is given for it**, and falls back where nothing is. -/
theorem of_settings (f : Field) : f.of given.settings = (given.of? f).getD (given.fallback f) := by
  cases f <;> simp only [Field.of, settings, of?, fallback, Field.path]
  case chunkSize | cacheCapacity => cases given "stream" <;> simp [streamOf]
  case capacity | readInterval | checkSourceInterval => cases given "buffer" <;> simp [bufferOf]
  case pollInterval | tickInterval | pausePollInterval => cases given "job" <;> simp [jobOf]

/-- Settings that come of what is given: each field is what is given for it and falls
back where nothing is, which is to its default unless a stream section lacks the
number of kept commands. -/
structure Yields (s : Settings) : Prop where
  of_eq : ∀ f : Field, f.of s = (given.of? f).getD (given.fallback f)
  default_iff : (∀ f : Field, f.of s = (given.of? f).getD (f.of {})) ↔ ¬ given.LacksCapacity

theorem yields_settings : given.Yields given.settings := by
  refine ⟨given.of_settings, ?_⟩
  constructor
  · rintro defaults ⟨present, left_out⟩
    have kept := defaults .cacheCapacity
    rw [of_settings, left_out, fallback, if_pos ⟨rfl, present⟩] at kept
    cases kept
  · intro complete f
    rw [of_settings]
    cases at_ : given.of? f with
    | some n => rfl
    | none =>
      rw [fallback, if_neg]
      rintro ⟨rfl, present⟩
      exact complete ⟨present, at_⟩

end Given

/-! ## What a document gives -/

/-- The number of a field in a section. -/
def numberAt? (d : Document) (node : List Event) (field : String) : Option Nat :=
  ((d.fields? node).bind (·.lookup field)).bind d.number?

/-- What a document gives. -/
def givenBy (d : Document) : Given := fun name =>
  ((d.fields? d.events).bind (·.lookup name)).map (numberAt? d)

section
variable {d : Document} {node : List Event} {fields : List (String × List Event)}

theorem eq_of_number {name : String} {default n : Nat} (at_ : d.fields? node = some fields)
    (read : field? fields name default d.number? = some n) :
    n = (numberAt? d node name).getD default := by
  obtain ⟨none, rfl⟩ | ⟨value, given, number⟩ := eq_of_field? read
  · simp [numberAt?, at_, none]
  · simp [numberAt?, at_, given, number]

theorem stream_of_read {st : StreamSettings} (read : StreamSettings.read d node = some st) :
    st = streamOf (numberAt? d node) := by
  simp only [StreamSettings.read, bind, Option.bind_eq_some_iff, pure, Option.some.injEq] at read
  obtain ⟨fields, at_, size, size_read, kept, kept_read, rfl⟩ := read
  rw [eq_of_number at_ size_read, eq_of_number at_ kept_read, streamOf]

theorem buffer_of_read {b : BufferSettings} (read : BufferSettings.read d node = some b) :
    b = bufferOf (numberAt? d node) := by
  simp only [BufferSettings.read, bind, Option.bind_eq_some_iff, pure, Option.some.injEq] at read
  obtain ⟨fields, at_, capacity, capacity_read, pause, pause_read, check, check_read, rfl⟩ := read
  rw [eq_of_number at_ capacity_read, eq_of_number at_ pause_read, eq_of_number at_ check_read,
    bufferOf]

theorem job_of_read {j : JobSettings} (read : JobSettings.read d node = some j) :
    j = jobOf (numberAt? d node) := by
  simp only [JobSettings.read, bind, Option.bind_eq_some_iff, pure, Option.some.injEq] at read
  obtain ⟨fields, at_, poll, poll_read, tick, tick_read, pause, pause_read, rfl⟩ := read
  rw [eq_of_number at_ poll_read, eq_of_number at_ tick_read, eq_of_number at_ pause_read, jobOf]

/-- **The settings of a document** come of what it gives. -/
theorem eq_settings_of_ofDocument {s : Settings} (read : ofDocument d = some s) :
    s = (givenBy d).settings := by
  simp only [ofDocument, bind, Option.bind_eq_some_iff, pure, Option.some.injEq] at read
  obtain ⟨fields, at_, st, stream, b, buffer, j, job, rfl⟩ := read
  simp only [Given.settings, givenBy, at_, Option.bind_some]
  congr 1
  · obtain ⟨none, rfl⟩ | ⟨node, given, read⟩ := eq_of_field? stream
    · simp [none]
    · simp [given, stream_of_read read]
  · obtain ⟨none, rfl⟩ | ⟨node, given, read⟩ := eq_of_field? buffer
    · simp [none]
    · simp [given, buffer_of_read read]
  · obtain ⟨none, rfl⟩ | ⟨node, given, read⟩ := eq_of_field? job
    · simp [none]
    · simp [given, job_of_read read]

end

end Settings

end GcodeJob
