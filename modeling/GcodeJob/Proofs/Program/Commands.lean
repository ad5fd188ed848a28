import GcodeJob.Program.Basic
import GcodeJob.Proofs.File.IndexedFile

/-!
# GcodeJob.Proofs.Program.Commands

The commands of a program are the parses of its lines, and what is kept of
them changes nothing about that: every command kept for a line is the parse
of that very line (`Program.Sound`), whatever was read, kept and evicted
before.  So a command is the same whether it is looked up or read
(`getCommand_of_built`).
-/

namespace GcodeJob

/-- Each command bears the number of its line. -/
def Numbered (commands : List Command) : Prop :=
  ∀ {line : Nat} {command : Command}, commands[line]? = some command → command.line = line

theorem Numbered.map_line {commands : List Command} (h : Numbered commands) :
    commands.map Command.line = List.range commands.length := by
  refine List.ext_getElem? fun line => ?_
  by_cases lt : line < commands.length
  · have own : commands[line].line = line := h (List.getElem?_eq_getElem lt)
    rw [List.getElem?_map, List.getElem?_range lt, List.getElem?_eq_getElem lt, Option.map_some, own]
  · rw [List.getElem?_eq_none (by simpa using lt), List.getElem?_eq_none (by simpa using lt)]

/-- The commands to be executed. -/
def executables (commands : List Command) : List Command := commands.filter Command.isExecutable

/-- The commands to be executed come in the order of their lines, each once. -/
theorem Numbered.pairwise_executables_take {commands : List Command} (h : Numbered commands)
    (count : Nat) : ((executables (commands.take count)).map Command.line).Pairwise (· < ·) := by
  have sub : (executables (commands.take count)).Sublist commands :=
    (List.filter_sublist ..).trans (List.take_sublist ..)
  refine List.Pairwise.sublist (sub.map Command.line) ?_
  rw [h.map_line]
  exact List.pairwise_lt_range

/-- The commands of some bytes: their lines, parsed. -/
def commandsOf (bytes : List UInt8) : List Command :=
  (linesOf bytes).mapIdx fun line bytes => .parse line (lineText bytes)

theorem numbered_commandsOf (bytes : List UInt8) : Numbered (commandsOf bytes) := by
  intro line command h
  rw [commandsOf, List.getElem?_mapIdx, Option.map_eq_some_iff] at h
  obtain ⟨line_bytes, -, rfl⟩ := h
  rfl

namespace Program

/-- The commands of a program are those of its file. -/
def commands (p : Program) : List Command := commandsOf p.file.medium.source.content

/-- A program whose index agrees with its file, and whose kept commands with its lines. -/
structure Sound (p : Program) : Prop where
  file : p.file.Sound
  kept : ∀ held ∈ p.cache.entries, p.commands[held.line]? = some held.command

section
variable {p : Program}

@[simp] theorem length_commands (p : Program) : p.commands.length = p.file.lines.length :=
  List.length_mapIdx

theorem getElem?_commands (p : Program) (line : Nat) :
    p.commands[line]? = p.file.lines[line]?.map fun bytes => .parse line (lineText bytes) :=
  List.getElem?_mapIdx

theorem length_commands_lt (p : Program) : (p.commands.length : Int) < Word.highest := by
  rw [length_commands]
  exact IndexedFile.length_linesOf_lt p.file.medium.source

/-- A line that exists is a place to start at. -/
theorem startAt_of_le {line : Nat} (h : line ≤ p.commands.length) : startAt line = line := by
  have lt := length_commands_lt p
  unfold startAt
  omega

end

/-! ## What reading changes -/

/-- A program with the file of another, but for the cursor. -/
def SameFile (p p' : Program) : Prop := p'.file = { p.file with cursor := p'.file.cursor }

namespace SameFile
variable {p p' : Program}

theorem medium (h : SameFile p p') : p'.file.medium = p.file.medium := by rw [h]

theorem phase (h : SameFile p p') : p'.file.phase = p.file.phase := by rw [h]

theorem state (h : SameFile p p') : p'.state = p.state := by
  unfold Program.state
  rw [h]
  rfl

theorem released (h : SameFile p p') : p'.file.released = p.file.released := by rw [h]

theorem closed (h : SameFile p p') : p'.file.closed = p.file.closed := by rw [h]

end SameFile

/-- The commands are those of the medium, whatever else there is to a program. -/
theorem commands_of_medium {p p' : Program} (medium : p'.file.medium = p.file.medium) :
    p'.commands = p.commands := by
  rw [commands, commands, medium]

theorem commands_openAt (path : String) (medium : Medium) (settings : StreamSettings) :
    (Program.openAt path medium settings).commands = commandsOf medium.source.content := by
  rw [commands]
  exact congrArg (fun m => commandsOf (Medium.source m).content) (IndexedFile.medium_openAt ..)

/-! ## What keeps a program sound -/

namespace Sound
variable {p : Program}

theorem openAt (path : String) (medium : Medium) (settings : StreamSettings) :
    Sound (openAt path medium settings) :=
  ⟨.openAt path medium settings.chunkSize, by simp [Program.openAt, Cache.empty]⟩

theorem openBuilt (path : String) (medium : Medium) (settings : StreamSettings) :
    Sound (openBuilt path medium settings) :=
  ⟨(IndexedFile.Sound.openAt path medium settings.chunkSize).build,
    by simp [Program.openBuilt, Program.openAt, Cache.empty]⟩

/-- Whatever happens to the file but to its bytes and to its index leaves the commands alone. -/
theorem withFile (h : Sound p) {f : IndexedFile} (sound : f.Sound)
    (medium : f.medium = p.file.medium) : Sound { p with file := f } := by
  have same : Program.commands { p with file := f } = p.commands := commands_of_medium medium
  refine ⟨sound, fun held mem => ?_⟩
  rw [same]
  exact h.kept held mem

/-- Forgetting commands does no harm. -/
theorem withCache (h : Sound p) {cache : Cache}
    (fewer : ∀ held ∈ cache.entries, held ∈ p.cache.entries) : Sound { p with cache } :=
  ⟨h.file, fun held mem => h.kept held (fewer held mem)⟩

theorem readChunk (h : Sound p) : Sound { p with file := p.file.readChunk } :=
  h.withFile h.file.readChunk p.file.medium_readChunk

theorem takeChunk (h : Sound p) : Sound { p with file := p.file.takeChunk } :=
  h.withFile h.file.takeChunk p.file.medium_takeChunk

theorem markClosed (h : Sound p) : Sound { p with file := p.file.markClosed } :=
  h.withFile ⟨h.file.chunkSize_pos, h.file.phase⟩ rfl

theorem release (h : Sound p) : Sound { p with file := p.file.release } :=
  h.withFile ⟨h.file.chunkSize_pos, h.file.phase⟩ rfl

theorem close (h : Sound p) : Sound p.close ∧ p.close.file.medium = p.file.medium := by
  unfold Program.close
  split
  · exact ⟨h.withCache (fun _ mem => nomatch mem), rfl⟩
  · exact ⟨h.markClosed.release.withCache (fun _ mem => nomatch mem), rfl⟩

theorem afterReading (h : Sound p) (r : LineReader) : Sound (p.afterReading r) :=
  h.withFile ⟨h.file.chunkSize_pos, h.file.phase⟩ rfl

theorem forget (h : Sound p) : Sound p.forget := h.withCache fun _ mem => nomatch mem

theorem setCacheCapacity (h : Sound p) (capacity : Nat) : Sound (p.setCacheCapacity capacity) :=
  h.withCache fun _ mem => (Cache.evict_suffix ..).subset mem

theorem recordTime (h : Sound p) (i : Issued) (ms : Int) : Sound (p.recordTime i ms) :=
  ⟨h.file, h.kept⟩

/-- A kept command is the one of its line. -/
theorem of_cached? (h : Sound p) {line : Nat} {held : Issued} (cached : p.cached? line = some held) :
    p.commands[line]? = some held.command := by
  obtain rfl : held.line = line := by simpa using List.find?_some cached
  exact h.kept held (List.mem_of_find?_eq_some cached)

/-- Parsing a line gives its command, whether it is kept or another was before. -/
theorem parseAndKeep (h : Sound p) {line : Nat} {raw : String}
    (parsed : p.commands[line]? = some (.parse line raw)) :
    (p.parseAndKeep line raw).1.command = .parse line raw ∧ Sound (p.parseAndKeep line raw).2 := by
  unfold Program.parseAndKeep Timesheet.issue Cache.insert
  dsimp only
  cases cached : p.cache.get? (Issued.line ⟨p.sheet.times.size, .parse line raw⟩) with
  | some held =>
    have own := (h.of_cached? cached).symm.trans parsed
    exact ⟨Option.some.inj own, h.file, h.kept⟩
  | none =>
    refine ⟨rfl, h.file, fun held mem => ?_⟩
    rcases List.mem_append.mp ((Cache.evict_suffix ..).subset mem) with before | last
    · exact h.kept held before
    · rw [List.mem_singleton.mp last]
      exact parsed

end Sound

/-! ## Getting a command -/

section
variable {p : Program}

/-- Getting a command leaves the file as it is, but for the cursor. -/
theorem sameFile_getCommand (p : Program) (line : Nat) : SameFile p (p.getCommand line).2 := by
  unfold getCommand
  cases p.cached? line with
  | some held => rfl
  | none =>
    dsimp only
    cases p.file.linesFrom (startAt line) with
    | error e => rfl
    | ok reader =>
      dsimp only
      obtain ⟨_ | _ | raw, after⟩ := p.file.nextLine reader <;> rfl

/-- What getting a command comes to, and that the program stays sound. -/
theorem Sound.getCommand (h : Sound p) (line : Nat) :
    Sound (p.getCommand line).2 ∧
      match (p.getCommand line).1 with
      | .ok (some held) => p.commands[line]? = some held.command
      | .ok none => p.state = .built ∧ line = p.commands.length
      | .error e => p.file.linesFrom (startAt line) = .error e := by
  unfold Program.getCommand
  split
  next held cached => exact ⟨h, h.of_cached? cached⟩
  split
  next e failed => exact ⟨h, failed⟩
  next reader started =>
    obtain ⟨built, -, le, gives⟩ := h.file.of_linesFrom started
    have few := length_commands_lt p
    rw [length_commands] at few
    have start_eq : startAt line = line := by unfold startAt at le ⊢; omega
    rw [start_eq, Int.toNat_natCast] at gives
    rw [start_eq] at le
    have first := gives.next.1
    rw [List.head?_drop] at first
    rw [IndexedFile.nextLine_of_fault?_eq_none (h.file.fault?_eq_none built), first]
    generalize (reader.next p.file.medium.source).2 = after
    cases at_line : p.file.lines[line]? with
    | none =>
      rw [List.getElem?_eq_none_iff] at at_line
      refine ⟨h.afterReading _, built, ?_⟩
      rw [length_commands]
      omega
    | some bytes =>
      have parsed : (p.afterReading after).commands[line]? =
          Option.some (.parse line (lineText bytes)) := by
        rw [getElem?_commands]
        exact congrArg (Option.map _) at_line
      obtain ⟨own, sound⟩ := (h.afterReading after).parseAndKeep parsed
      refine ⟨sound, ?_⟩
      simp only [Option.map_some]
      rw [own]
      exact parsed

/-- Getting a command of a program whose index is built. -/
theorem Sound.getCommand_of_built (h : Sound p) (built : p.state = .built)
    (held : p.file.released = false) (line : Nat) :
    (p.getCommand line).1.map (·.map Issued.command) =
      if line ≤ p.commands.length then .ok p.commands[line]?
      else .error (.lineOutOfRange (startAt line) p.commands.length) := by
  have answer := (h.getCommand line).2
  have few := length_commands_lt p
  split at answer
  next held eq =>
    have lt : line < p.commands.length := (List.getElem?_eq_some_iff.mp answer).1
    rw [eq, if_pos (by omega), answer]
    rfl
  next eq =>
    rw [eq, if_pos (by omega), List.getElem?_eq_none (by omega)]
    rfl
  next e eq =>
    rw [eq]
    by_cases le : line ≤ p.commands.length
    · rw [startAt_of_le le] at answer
      rw [length_commands] at le
      obtain ⟨r, started, -⟩ := h.file.exists_linesFrom built held le
      cases started.symm.trans answer
    · have outside : startAt line < 0 ∨ p.file.lines.length < startAt line := by
        rw [length_commands] at le few
        unfold startAt
        omega
      rw [h.file.linesFrom_of_outside built outside] at answer
      cases answer
      rw [if_neg le, length_commands]
      rfl

end

end Program

end GcodeJob
