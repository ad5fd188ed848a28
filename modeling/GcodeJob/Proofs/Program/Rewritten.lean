import GcodeJob.Proofs.Program.Commands

/-!
# GcodeJob.Proofs.Program.Rewritten

A file that is rewritten under its index.  The index then speaks of bytes that
are gone, so nothing is left of the agreement of the two; but it is still one
that a scan made, of whatever contents it met (`IndexedFile.Searchable`).
That is enough for a look-up to lead to a mark not after the line, for a
command to bear the line it was asked for by, and for reading to end nowhere
but behind the last line that the index counts, or at a line that the file as
it is lacks (`Program.getCommand_of_searchable`).
-/

namespace GcodeJob

/-! ## A scan of whatever bytes -/

namespace Scan

/-- What a scan knows of itself, whatever the bytes were. -/
structure Counts (s : Scan) : Prop where
  ordered : s.chain.Ordered
  totalLines_le : s.totalLines ≤ s.offset

namespace Counts
variable {s : Scan}

theorem start : Counts {} := ⟨.start, Nat.le_refl _⟩

/-- A byte makes a line more at most. -/
theorem byte (h : Counts s) (b : UInt8) : Counts (s.byte b) := by
  have totalLines_le := h.totalLines_le
  unfold Scan.totalLines at totalLines_le
  refine ⟨?_, ?_⟩
  · unfold Scan.byte
    dsimp only
    split <;> exact h.ordered
  · rw [Covers.offset_byte]
    unfold Scan.totalLines Scan.byte
    dsimp only
    split <;> dsimp only
    next => exact Nat.succ_le_succ (Nat.le_of_add_right_le totalLines_le)
    next => exact Nat.succ_le_succ (Nat.le_of_add_right_le totalLines_le)
    next => exact Nat.le_succ_of_le totalLines_le

theorem chunk (h : Counts s) (bytes : List UInt8) : Counts (s.chunk bytes) := by
  have taken : Counts (bytes.foldl Scan.byte s) := by
    induction bytes generalizing s with
    | nil => exact h
    | cons b bytes ih => exact ih (h.byte b)
  exact ⟨taken.ordered.push _, taken.totalLines_le⟩

end Counts

end Scan

/-! ## An index to search -/

namespace IndexedFile

/-- A phase in which the index is one that a scan makes, of fewer bytes than
there are offsets. -/
def PhaseOfScan : IndexPhase → Prop
  | .scanning s none => s.Counts ∧ (s.offset : Int) < Word.highest
  | .scanning s (some bytes) => s.Counts ∧ (s.offset + bytes.length : Int) < Word.highest
  | .built index _ => ∃ s : Scan, s.Counts ∧ (s.offset : Int) < Word.highest ∧ index = s.index
  | .failed _ => True

/-- A file with such an index.  Its bytes do not matter, but that they end. -/
structure Searchable (f : IndexedFile) : Prop where
  phase : PhaseOfScan f.phase
  ends : f.medium ≠ .endless

/-- The file with other bytes, read in whatever portions; the index stays as it is. -/
def withBytes (f : IndexedFile) (file : RegularFile) : IndexedFile :=
  { f with medium := .file file }

/-- The file as it is holds no line of this number behind the mark that leads there. -/
def Lacks (f : IndexedFile) (index : LineIndex) (line : Nat) : Prop :=
  (f.linesBehind (index.floor line)).length ≤ line - (index.floor line).line

/-- Reading ends at a line of a built index: it is the number of lines, or a
line that the file lacks. -/
def EndsAt (f : IndexedFile) (line : Nat) : Prop :=
  ∃ index, f.index? = some index ∧
    (line = index.totalLines ∨ line < index.totalLines ∧ f.Lacks index line)

/-- The index is that of the phase. -/
theorem index?_of_phase {f f' : IndexedFile} (phase : f'.phase = f.phase) :
    f'.index? = f.index? := by
  rw [index?, index?, phase]

/-- An index that is built stays, whatever chunk is asked for. -/
theorem index?_readChunk {f : IndexedFile} {index : LineIndex} (h : f.index? = some index) :
    f.readChunk.index? = some index := by
  unfold index? at h
  split at h
  next phase => simpa [readChunk, index?, phase] using h
  next => cases h

theorem index?_takeChunk {f : IndexedFile} {index : LineIndex} (h : f.index? = some index) :
    f.takeChunk.index? = some index := by
  unfold index? at h
  split at h
  next phase => simpa [takeChunk, index?, phase] using h
  next => cases h

namespace Searchable
variable {f : IndexedFile}

theorem openAt (path : String) (file : RegularFile) (chunkSize : Nat) :
    Searchable (openAt path (.file file) chunkSize) :=
  ⟨⟨.start, by decide⟩, nofun⟩

/-- Only the phase and the kind of medium matter. -/
theorem of_eq (h : Searchable f) {f' : IndexedFile} (phase : f'.phase = f.phase)
    (medium : f'.medium = f.medium) : Searchable f' :=
  ⟨phase ▸ h.phase, medium ▸ h.ends⟩

theorem withBytes (h : Searchable f) (file : RegularFile) : Searchable (f.withBytes file) :=
  ⟨h.phase, nofun⟩

theorem damage (h : Searchable f) (kept : Nat) : Searchable (f.damage kept) :=
  ⟨h.phase, Medium.damage_ne_endless h.ends kept⟩

/-- The bytes of a chunk lie before the last offset. -/
theorem readChunk (h : Searchable f) : Searchable f.readChunk := by
  have phase := h.phase
  refine ⟨?_, f.medium_readChunk ▸ h.ends⟩
  unfold IndexedFile.readChunk
  split
  next scan eq =>
    rw [eq] at phase
    split
    · exact eq ▸ phase
    cases read : f.medium.read scan.offset f.chunkSize with
    | error fault => trivial
    | ok bytes => exact ⟨phase.1, Medium.add_length_lt_of_read h.ends read phase.2⟩
  next => exact phase

theorem takeChunk (h : Searchable f) : Searchable f.takeChunk := by
  have phase := h.phase
  unfold IndexedFile.takeChunk
  split
  next scan eq =>
    rw [eq] at phase
    exact ⟨⟨scan, phase.1, phase.2, rfl⟩, h.ends⟩
  next scan bytes _ eq =>
    rw [eq] at phase
    refine ⟨⟨phase.1.chunk bytes, ?_⟩, h.ends⟩
    have offset : (scan.chunk bytes).offset = scan.offset + bytes.length :=
      Scan.Covers.offset_foldl_byte scan bytes
    rw [offset]
    exact_mod_cast phase.2
  next => exact h

/-- A look-up leads to a mark not after the line, and no line is beyond the places to start at. -/
theorem floor_le (h : Searchable f) {index : LineIndex} {ending : Option LineEnding}
    (phase : f.phase = .built index ending) (line : Nat) :
    (index.floor line).line ≤ line ∧ (index.totalLines : Int) < Word.highest := by
  have scanned := h.phase
  rw [phase] at scanned
  obtain ⟨s, counts, below, rfl⟩ := scanned
  have few : s.index.totalLines ≤ s.offset := counts.totalLines_le
  exact ⟨(LineIndex.floor_ofChain counts.ordered s.totalLines line).2.1, by omega⟩

/-- A reader that finds no line has come to where reading ends. -/
theorem endsAt (h : Searchable f) {line : Nat} {r : LineReader}
    (started : f.linesFrom (Program.startAt line) = .ok r) (none : (f.nextLine r).1 = none) :
    f.EndsAt line := by
  obtain ⟨-, -, index, ending, phase, -, le, rfl⟩ := linesFrom_eq_ok started
  obtain ⟨floor_le, few⟩ := h.floor_le phase line
  have start_eq : Program.startAt line = line := by unfold Program.startAt at le ⊢; omega
  rw [start_eq] at le
  have none := next_eq_none_of_nextLine none
  rw [start_eq, Int.toNat_natCast, (f.skipTo_readerAt_gives floor_le).next.1,
    Option.map_eq_none_iff, List.head?_eq_none_iff, List.take_eq_nil_iff,
    List.drop_eq_nil_iff] at none
  have index_eq : f.index? = some index := by rw [index?, phase]
  refine ⟨index, index_eq, ?_⟩
  by_cases last : line = index.totalLines
  · exact .inl last
  · exact .inr ⟨by omega, none.resolve_left (by omega)⟩

end Searchable

end IndexedFile

/-! ## Getting a command -/

namespace Program
variable {p : Program}

/-- A command that is parsed bears its line, and so does the one that was kept for the line. -/
theorem line_parseAndKeep (p : Program) (line : Nat) (raw : String) :
    (p.parseAndKeep line raw).1.line = line := by
  unfold parseAndKeep Timesheet.issue Cache.insert
  dsimp only
  split
  next held kept =>
    have own : held.line = Issued.line ⟨p.sheet.times.size, .parse line raw⟩ := by
      simpa using List.find?_some kept
    exact own
  next => rfl

/-- Whatever has become of the file, a command bears the line it was asked
for by, and there is none only where reading ends. -/
theorem getCommand_of_searchable (h : p.file.Searchable) (line : Nat) :
    match (p.getCommand line).1 with
    | .ok (some held) => held.line = line
    | .ok none => p.file.EndsAt line
    | .error _ => True := by
  unfold getCommand
  cases cached : p.cached? line with
  | some held => simpa using List.find?_some cached
  | none =>
    dsimp only
    cases started : p.file.linesFrom (startAt line) with
    | error e => trivial
    | ok reader =>
      dsimp only
      rcases read : p.file.nextLine reader with ⟨_ | _ | raw, after⟩
      · exact h.endsAt started (by rw [read])
      · trivial
      · exact line_parseAndKeep ..

end Program

end GcodeJob
