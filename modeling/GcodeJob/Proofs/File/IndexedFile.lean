import GcodeJob.File.IndexedFile
import GcodeJob.Proofs.File.LineReader
import GcodeJob.Proofs.File.Scan

/-!
# GcodeJob.Proofs.File.IndexedFile

A file and its index agree.  Whatever step of its build an index is at, it
speaks of the bytes of its file (`IndexedFile.Sound`); once it is built, the
lines read from any line on are the lines of the file from there
(`linesFrom_of_built`).

**Main result** (`indexed_reading`): reading by the index is the same as
splitting the file at its terminators, for every content, chunk size, start
and every way in which reads come short.
-/

namespace GcodeJob

namespace Medium

/-- A read of a regular file gives all that is there of what is asked for. -/
theorem read_file (f : RegularFile) (offset count : Nat) :
    (file f).read offset count = .ok ((f.content.drop offset).take count) :=
  congrArg Except.ok (f.fill_eq offset count)

/-- Nothing but a regular file that is all there comes to an end. -/
theorem exists_file_of_read_eq_nil {m : Medium} {offset count : Nat} (some : 0 < count)
    (eq : m.read offset count = .ok []) : ∃ file, m = .file file := by
  cases m with
  | file f => exact ⟨f, rfl⟩
  | damaged f size lost =>
    have length : f.content.length = f.bytes.size := Array.length_toList
    simp only [read, RegularFile.fill_eq] at eq
    -- A read that does not fail stays within the bytes that are left, so it gives some.
    split at eq
    next readable =>
      have none := Except.ok.inj eq
      rw [List.take_eq_nil_iff, List.drop_eq_nil_iff] at none
      omega
    next => cases eq
  | endless =>
    have none := congrArg List.length (Except.ok.inj eq)
    rw [List.length_replicate, List.length_nil] at none
    omega
  | directory | absent => cases eq

/-- What is read of anything but an endless device lies before the last offset. -/
theorem add_length_lt_of_read {m : Medium} (ends : m ≠ .endless) {offset count : Nat}
    {bytes : List UInt8} (eq : m.read offset count = .ok bytes) (before : offset < Word.highest) :
    (offset + bytes.length : Int) < Word.highest := by
  have within (f : RegularFile) : (offset + (f.fill offset count).length : Int) < Word.highest := by
    have length : f.content.length = f.bytes.size := Array.length_toList
    have fits := f.fits
    rw [f.fill_eq, List.length_take, List.length_drop]
    omega
  cases m with
  | file f => exact Except.ok.inj eq ▸ within f
  | damaged f size lost =>
    unfold read at eq
    dsimp only at eq
    split at eq
    · exact Except.ok.inj eq ▸ within f
    · cases eq
  | endless => exact absurd rfl ends
  | directory | absent => cases eq

/-- A disk that fails makes no medium endless. -/
theorem damage_ne_endless {m : Medium} (ends : m ≠ .endless) (kept : Nat) :
    m.damage kept ≠ .endless := by
  cases m with
  | file f =>
    unfold damage
    dsimp only
    split <;> nofun
  | damaged => nofun
  | _ => exact ends

end Medium

namespace IndexedFile

/-! ## The build of an index -/

/-- An index that a scan of all bytes of a file made. -/
def IndexOf (file : RegularFile) (index : LineIndex) (ending : Option LineEnding) : Prop :=
  ∃ s : Scan, s.Covers file.content ∧ s.offset = file.content.length ∧
    index = s.index ∧ ending = s.ending

/-- Whatever phase an index is in, it speaks of the bytes of its file, and
only a regular file gets one. -/
def PhaseOf (medium : Medium) (chunkSize : Nat) : IndexPhase → Prop
  | .scanning s none => ∀ file, medium = .file file → s.Covers file.content
  | .scanning s (some bytes) =>
    (∀ file, medium = .file file → s.Covers file.content ∧
      bytes = (file.content.drop s.offset).take chunkSize) ∧
    (bytes = [] → ∃ file, medium = .file file)
  | .built index ending => ∃ file, medium = .file file ∧ IndexOf file index ending
  | .failed _ => True

/-- Only the bytes of a file matter. -/
theorem PhaseOf.withPortions {file : RegularFile} {chunkSize : Nat} {phase : IndexPhase}
    (h : PhaseOf (.file file) chunkSize phase) (portions : Portions) :
    PhaseOf (.file { file with portions }) chunkSize phase := by
  match phase with
  | .scanning s none =>
    intro other is_other
    obtain rfl := Medium.file.inj is_other
    exact h file rfl
  | .scanning s (some bytes) =>
    refine ⟨fun other is_other => ?_, fun _ => ⟨_, rfl⟩⟩
    obtain rfl := Medium.file.inj is_other
    exact h.1 file rfl
  | .built index ending =>
    obtain ⟨same, is_same, index_of⟩ := h
    obtain rfl := Medium.file.inj is_same
    exact ⟨_, rfl, index_of⟩
  | .failed _ => trivial

/-- A file whose index agrees with it. -/
structure Sound (f : IndexedFile) : Prop where
  chunkSize_pos : 0 < f.chunkSize
  phase : PhaseOf f.medium f.chunkSize f.phase

namespace Sound
variable {f : IndexedFile}

theorem openAt (path : String) (medium : Medium) (chunkSize : Nat) :
    Sound (openAt path medium chunkSize) := by
  unfold IndexedFile.openAt
  split
  · exact ⟨Nat.le_max_right .., fun file _ => .start file.content⟩
  · exact ⟨Nat.le_max_right .., trivial⟩

theorem readChunk (h : Sound f) : Sound f.readChunk := by
  have chunkSize_pos := h.chunkSize_pos
  have phase := h.phase
  unfold IndexedFile.readChunk
  split
  next scan eq =>
    rw [eq] at phase
    split
    · exact h
    cases read : f.medium.read scan.offset f.chunkSize with
    | error fault => exact ⟨chunkSize_pos, trivial⟩
    | ok bytes =>
      refine ⟨chunkSize_pos, fun file medium => ⟨phase file medium, ?_⟩, fun none => ?_⟩
      · have filled : f.medium.read scan.offset f.chunkSize =
            .ok ((file.content.drop scan.offset).take f.chunkSize) := by
          rw [medium, Medium.read_file]
        exact Except.ok.inj (read.symm.trans filled)
      · subst none
        exact Medium.exists_file_of_read_eq_nil chunkSize_pos read
  next => exact h

theorem takeChunk (h : Sound f) : Sound f.takeChunk := by
  have phase := h.phase
  have chunkSize_pos := h.chunkSize_pos
  unfold IndexedFile.takeChunk
  split
  next scan eq =>
    rw [eq] at phase
    obtain ⟨file, medium⟩ := phase.2 rfl
    obtain ⟨covers, ended⟩ := phase.1 file medium
    refine ⟨chunkSize_pos, file, medium, scan, covers, ?_, rfl, rfl⟩
    have nothing := ended.symm
    rw [List.take_eq_nil_iff, List.drop_eq_nil_iff] at nothing
    have le := covers.offset_le
    omega
  next scan bytes _ eq =>
    rw [eq] at phase
    refine ⟨chunkSize_pos, fun file medium => ?_⟩
    obtain ⟨covers, chunk⟩ := phase.1 file medium
    exact covers.chunk (chunk ▸ List.take_prefix ..)
  next => exact h

theorem buildStep (h : Sound f) : Sound f.buildStep := h.readChunk.takeChunk

theorem buildRounds (h : Sound f) (n : Nat) : Sound (buildRounds n f) := by
  induction n generalizing f with
  | zero => exact h
  | succ n ih => exact ih h.buildStep

theorem build (h : Sound f) : Sound f.build := h.buildRounds _

/-- How reads come short does not matter to an index. -/
theorem withPortions (h : Sound f) {file : RegularFile} (medium : f.medium = .file file)
    (portions : Portions) : Sound { f with medium := .file { file with portions } } :=
  ⟨h.chunkSize_pos, .withPortions (medium ▸ h.phase) portions⟩

end Sound

/-! ## The build comes to its end -/

section
variable (f : IndexedFile)

@[simp] theorem medium_openAt (path : String) (medium : Medium) (chunkSize : Nat) :
    (openAt path medium chunkSize).medium = medium := by
  unfold openAt
  split <;> rfl

/-- Reading a chunk changes the index and the cursor, and nothing else. -/
theorem readChunk_eq :
    f.readChunk = { f with phase := f.readChunk.phase, cursor := f.readChunk.cursor } := by
  unfold readChunk
  repeat' split
  all_goals rfl

/-- Taking it changes the index and the count of chunks. -/
theorem takeChunk_eq :
    f.takeChunk = { f with phase := f.takeChunk.phase, chunksDone := f.takeChunk.chunksDone } := by
  unfold takeChunk
  split <;> rfl

@[simp] theorem medium_readChunk : f.readChunk.medium = f.medium := by rw [readChunk_eq]

@[simp] theorem medium_takeChunk : f.takeChunk.medium = f.medium := by rw [takeChunk_eq]

theorem buildStep_eq : f.buildStep =
    { f with
      phase := f.buildStep.phase
      chunksDone := f.buildStep.chunksDone
      cursor := f.buildStep.cursor } := by
  unfold buildStep
  rw [takeChunk_eq, readChunk_eq]

theorem buildRounds_eq (n : Nat) : buildRounds n f =
    { f with
      phase := (buildRounds n f).phase
      chunksDone := (buildRounds n f).chunksDone
      cursor := (buildRounds n f).cursor } := by
  induction n generalizing f with
  | zero => rfl
  | succ n ih =>
    rw [buildRounds, ih, buildStep_eq]

theorem build_eq : f.build =
    { f with phase := f.build.phase, chunksDone := f.build.chunksDone, cursor := f.build.cursor } :=
  buildRounds_eq f _

/-- An open file with an index is built. -/
theorem state_eq_built {index : LineIndex} {ending : Option LineEnding} (opened : f.closed = false)
    (phase : f.phase = .built index ending) : f.state = .built := by
  simp only [state, opened, phase, Bool.false_eq_true, if_false]

end

section
variable {f : IndexedFile} {file : RegularFile}

/-- A chunk size that is asked for can be had just if its bytes can be counted. -/
theorem hasBuffer_openAt (path : String) (medium : Medium) {chunkSize : Nat} :
    (openAt path medium chunkSize).hasBuffer = true ↔ (chunkSize : Int) ≤ Word.highest := by
  have asked : (openAt path medium chunkSize).chunkSize = max chunkSize 1 := by
    unfold openAt
    split <;> rfl
  have one : (1 : Int) ≤ Word.highest := by decide
  rw [hasBuffer, asked, decide_eq_true_iff]
  omega

/-- One round of the build of a file that is open: the next chunk is taken, or the index is
installed. -/
theorem buildStep_of_scanning {s : Scan} (room : f.hasBuffer = true)
    (medium : f.medium = .file file) (opened : f.closed = false) (held : f.released = false)
    (phase : f.phase = .scanning s none) :
    f.buildStep.phase =
      match (file.content.drop s.offset).take f.chunkSize with
      | [] => .built s.index s.ending
      | b :: bytes => .scanning (s.chunk (b :: bytes)) none := by
  have read : f.medium.read s.offset f.chunkSize =
      .ok ((file.content.drop s.offset).take f.chunkSize) := by
    rw [medium, Medium.read_file]
  unfold buildStep readChunk
  simp only [phase, opened, held, room, read, Bool.or_false, Bool.not_true, Bool.false_eq_true,
    if_false]
  cases (file.content.drop s.offset).take f.chunkSize <;> rfl

theorem buildRounds_of_buildStep_eq_self (same : f.buildStep = f) (n : Nat) :
    buildRounds n f = f := by
  induction n with
  | zero => rfl
  | succ n ih => rw [buildRounds, same, ih]

/-- A build that can have no buffer never gets on. -/
theorem buildRounds_of_hasBuffer_eq_false {s : Scan} (none : f.hasBuffer = false)
    (phase : f.phase = .scanning s .none) (n : Nat) : buildRounds n f = f := by
  have same : f.buildStep = f := by
    simp [buildStep, readChunk, takeChunk, phase, none]
  exact buildRounds_of_buildStep_eq_self same n

/-- An installed index stays. -/
theorem buildRounds_of_built {index : LineIndex} {ending : Option LineEnding}
    (phase : f.phase = .built index ending) (n : Nat) : buildRounds n f = f := by
  have same : f.buildStep = f := by
    simp only [buildStep, readChunk, takeChunk, phase]
  exact buildRounds_of_buildStep_eq_self same n

/-- As many rounds as there are chunks left, and one more, build the index.  What
every chunk keeps of the scan holds of the scan that the index comes from. -/
theorem exists_scan_buildRounds {P : Scan → Prop} {n : Nat} {s : Scan}
    (chunkSize_pos : 0 < f.chunkSize) (room : f.hasBuffer = true) (medium : f.medium = .file file)
    (opened : f.closed = false) (held : f.released = false) (phase : f.phase = .scanning s none)
    (enough : file.content.length ≤ s.offset + n * f.chunkSize) (holds : P s)
    (kept : ∀ {s : Scan}, P s → s.offset < file.content.length →
      P (s.chunk ((file.content.drop s.offset).take f.chunkSize))) :
    ∃ s : Scan, P s ∧ file.content.length ≤ s.offset ∧
      (buildRounds (n + 1) f).phase = .built s.index s.ending := by
  induction n generalizing f s with
  | zero =>
    have none : (file.content.drop s.offset).take f.chunkSize = [] := by
      rw [List.drop_eq_nil_of_le (by omega), List.take_nil]
    have step := buildStep_of_scanning room medium opened held phase
    rw [none] at step
    exact ⟨s, holds, by omega, step⟩
  | succ n ih =>
    have step := buildStep_of_scanning room medium opened held phase
    rw [buildRounds]
    cases chunk : (file.content.drop s.offset).take f.chunkSize with
    | nil =>
      rw [chunk] at step
      rw [buildRounds_of_built step]
      rw [List.take_eq_nil_iff, List.drop_eq_nil_iff] at chunk
      exact ⟨s, holds, by omega, step⟩
    | cons b bytes =>
      rw [chunk] at step
      have length := congrArg List.length chunk
      rw [List.length_take, List.length_drop] at length
      have offset : (s.chunk (b :: bytes)).offset = s.offset + (b :: bytes).length :=
        Scan.Covers.offset_foldl_byte s (b :: bytes)
      have next : P (s.chunk (b :: bytes)) := by
        rw [List.length_cons] at length
        exact chunk ▸ kept holds (by omega)
      rw [Nat.succ_mul] at enough
      rw [buildStep_eq] at step ⊢
      exact ih chunkSize_pos room medium opened held step (by dsimp only; omega) next kept

/-- The build of a file that stays open ends with the index of a scan of all its bytes. -/
theorem exists_scan_build {P : Scan → Prop} (path : String) (file : RegularFile) {chunkSize : Nat}
    (room : (chunkSize : Int) ≤ Word.highest) (start : P {})
    (kept : ∀ {s : Scan}, P s → s.offset < file.content.length →
      P (s.chunk ((file.content.drop s.offset).take (max chunkSize 1)))) :
    ∃ s : Scan, P s ∧ file.content.length ≤ s.offset ∧
      (openAt path (.file file) chunkSize).build.phase = .built s.index s.ending := by
  have chunkSize_pos : 0 < (openAt path (.file file) chunkSize).chunkSize := Nat.le_max_right ..
  refine exists_scan_buildRounds chunkSize_pos ((hasBuffer_openAt ..).mpr room) rfl rfl rfl rfl ?_
    start kept
  have length : file.content.length = (openAt path (.file file) chunkSize).size :=
    Array.length_toList
  generalize openAt path (.file file) chunkSize = f at *
  have parts := Nat.div_add_mod (f.size + f.chunkSize - 1) f.chunkSize
  have part_lt := Nat.mod_lt (f.size + f.chunkSize - 1) chunkSize_pos
  rw [Nat.mul_comm] at parts
  rw [totalChunks]
  dsimp only
  omega

/-- Where there can be no buffer, a file stays as it was opened. -/
theorem build_of_no_room (path : String) (file : RegularFile) {chunkSize : Nat}
    (noRoom : ¬(chunkSize : Int) ≤ Word.highest) :
    (openAt path (.file file) chunkSize).build = openAt path (.file file) chunkSize := by
  have none : (openAt path (.file file) chunkSize).hasBuffer = false :=
    Bool.eq_false_iff.mpr fun has => noRoom ((hasBuffer_openAt ..).mp has)
  exact buildRounds_of_hasBuffer_eq_false none rfl _

theorem exists_built_build (path : String) (file : RegularFile) {chunkSize : Nat}
    (room : (chunkSize : Int) ≤ Word.highest) :
    ∃ index ending, (openAt path (.file file) chunkSize).build.phase = .built index ending := by
  obtain ⟨s, -, -, built⟩ :=
    exists_scan_build (P := fun _ => True) path file room trivial fun _ _ => trivial
  exact ⟨_, _, built⟩

/-- A file that stays open gets an index just if there can be a buffer for a chunk. -/
theorem exists_index_build_iff (path : String) (file : RegularFile) (chunkSize : Nat) :
    (∃ index, (openAt path (.file file) chunkSize).build.index? = some index) ↔
      (chunkSize : Int) ≤ Word.highest := by
  constructor
  · rintro ⟨index, own⟩
    refine Decidable.byContradiction fun noRoom => ?_
    rw [build_of_no_room path file noRoom] at own
    cases own
  · intro room
    obtain ⟨index, ending, phase⟩ := exists_built_build path file room
    exact ⟨index, by simp only [index?, phase]⟩

theorem state_build_eq_built_iff (path : String) (file : RegularFile) (chunkSize : Nat) :
    (openAt path (.file file) chunkSize).build.state = .built ↔
      (chunkSize : Int) ≤ Word.highest := by
  constructor
  · intro is_built
    refine Decidable.byContradiction fun noRoom => ?_
    rw [build_of_no_room path file noRoom] at is_built
    cases is_built
  · intro room
    obtain ⟨index, ending, phase⟩ := exists_built_build path file room
    exact state_eq_built _ (congrArg IndexedFile.closed (build_eq _)) phase

end

/-! ## Lines behind a mark -/

section
variable (f : IndexedFile)

/-- The terminator that a reader at a mark goes by: the one found while the
file was indexed, or else the first break byte ahead. -/
def terminatorBehind (mark : Mark) : Option UInt8 :=
  (f.ending?.map LineEnding.terminator).or
    (terminatorOf? (f.medium.source.content.drop mark.offset))

/-- The lines that a reader at a mark finds in the file as it is. -/
def linesBehind (mark : Mark) : List (List UInt8) :=
  linesBy (f.terminatorBehind mark) (f.medium.source.content.drop mark.offset)

theorem isBreak_of_terminatorBehind {mark : Mark} {b : UInt8}
    (h : f.terminatorBehind mark = some b) : isBreak b = true := by
  unfold terminatorBehind at h
  cases ending : f.ending? with
  | none =>
    rw [ending, Option.map_none, Option.none_or] at h
    exact isBreak_of_terminatorOf? h
  | some ending' =>
    rw [ending, Option.map_some, Option.some_or] at h
    exact Option.some.inj h ▸ ending'.exists_bytes_eq.1

theorem follows_readerAt (index : LineIndex) (line : Nat) :
    (f.readerAt index line).Follows f.medium.source (f.terminatorBehind (index.floor line)) :=
  ⟨List.nil_prefix, rfl, fun _ => f.isBreak_of_terminatorBehind⟩

/-- Whatever the file holds, a reader comes from its mark to the line asked
for by the lines behind the mark, and reads on as far as the index counts. -/
theorem skipTo_readerAt_gives {index : LineIndex} {line : Nat}
    (le : (index.floor line).line ≤ line) :
    ((f.readerAt index line).skipTo f.medium.source line).Gives f.medium.source
      (((f.linesBehind (index.floor line)).drop (line - (index.floor line).line)).take
        (index.totalLines - line)) :=
  (LineReader.skipTo_spec (f.follows_readerAt index line) le).gives rfl

/-- When there is an index to read by, and a line to start at. -/
theorem placeFor_eq_ok {f : IndexedFile} {start : Int} {place : LineIndex × Nat}
    (eq : f.placeFor start = .ok place) :
    f.closed = false ∧ (∃ ending, f.phase = .built place.1 ending) ∧
      0 ≤ start ∧ start ≤ place.1.totalLines ∧ place.2 = start.toNat := by
  unfold placeFor readable startInRange at eq
  cases opened : f.closed with
  | true => simp [opened, bind, Except.bind] at eq
  | false =>
    cases phase : f.phase with
    | scanning => simp [opened, phase, bind, Except.bind] at eq
    | failed => simp [opened, phase, bind, Except.bind] at eq
    | built index ending =>
      by_cases inside : 0 ≤ start ∧ start ≤ index.totalLines
      · simp only [opened, phase, if_pos inside, bind, Except.bind, pure, Except.pure,
          Bool.false_eq_true, if_false] at eq
        cases eq
        exact ⟨rfl, ⟨ending, rfl⟩, inside.1, inside.2, rfl⟩
      · simp [opened, phase, inside, bind, Except.bind] at eq

/-- Who gets to a line has passed over those behind the mark. -/
theorem reach_eq_ok {f : IndexedFile} {index : LineIndex} {line : Nat} {r : LineReader}
    (eq : f.reach index line = .ok r) :
    f.released = false ∧ r = (f.readerAt index line).skipTo f.medium.source line := by
  unfold reach at eq
  cases held : f.released with
  | true => simp [held] at eq
  | false => grind

/-- When reading can start, and with which reader. -/
theorem linesFrom_eq_ok {f : IndexedFile} {start : Int} {r : LineReader}
    (eq : f.linesFrom start = .ok r) :
    f.closed = false ∧ f.released = false ∧ ∃ index ending, f.phase = .built index ending ∧
      0 ≤ start ∧ start ≤ index.totalLines ∧
        r = (f.readerAt index start.toNat).skipTo f.medium.source start.toNat := by
  unfold linesFrom at eq
  cases found : f.placeFor start with
  | error e => simp [found, bind, Except.bind] at eq
  | ok place =>
    obtain ⟨opened, ⟨ending, phase⟩, from_first, le, line⟩ := placeFor_eq_ok found
    rw [found] at eq
    obtain ⟨held, reached⟩ := reach_eq_ok eq
    exact ⟨opened, held, _, ending, phase, from_first, le, line ▸ reached⟩

end

/-! ## Lines from a start on -/

/-- The last place to start at lies behind all lines. -/
theorem length_linesOf_lt (file : RegularFile) :
    ((linesOf file.content).length : Int) < Word.highest := by
  have le := length_linesBy_le_length (terminatorOf? file.content) file.content
  have length : file.content.length = file.bytes.size := Array.length_toList
  have fits := file.fits
  rw [← linesOf] at le
  omega

section
variable {f : IndexedFile} {file : RegularFile} {index : LineIndex} {ending : Option LineEnding}

theorem IndexOf.totalLines_eq (h : IndexOf file index ending) :
    index.totalLines = (linesOf file.content).length := by
  obtain ⟨s, covers, done, rfl, -⟩ := h
  exact covers.totalLines_eq done

theorem IndexOf.ending_eq (h : IndexOf file index ending) : ending = endingOf? file.content := by
  obtain ⟨s, covers, done, -, rfl⟩ := h
  exact covers.ending_eq done

/-- An index leads to a line start not after the line. -/
theorem IndexOf.floor (h : IndexOf file index ending) (line : Nat) :
    LineStart (terminatorOf? file.content) file.content (index.floor line) ∧
      (index.floor line).line ≤ line := by
  obtain ⟨s, covers, -, rfl, -⟩ := h
  have found := LineIndex.floor_ofChain covers.ordered s.totalLines line
  exact ⟨covers.marks _ found.1, found.2.1⟩

/-- A reader at a mark goes by the terminator of the file. -/
theorem IndexOf.terminatorBehind_eq (h : IndexOf f.medium.source index ending)
    (phase : f.phase = .built index ending) (mark : Mark) :
    f.terminatorBehind mark = terminatorOf? f.medium.source.content := by
  simp only [terminatorBehind, ending?, phase]
  rw [h.ending_eq, terminator_endingOf?, terminatorOf?_or_drop]

/-- From the line start that the index leads to, a reader comes to the line asked for. -/
theorem IndexOf.gives (h : IndexOf f.medium.source index ending)
    (phase : f.phase = .built index ending) (line : Nat) :
    ((f.readerAt index line).skipTo f.medium.source line).Gives f.medium.source
      ((linesOf f.medium.source.content).drop line) := by
  obtain ⟨start, floor_le⟩ := h.floor line
  have behind : f.linesBehind (index.floor line) =
      (linesOf f.medium.source.content).drop (index.floor line).line := by
    rw [linesBehind, h.terminatorBehind_eq phase, start.linesBy_drop, linesOf]
  have gives := f.skipTo_readerAt_gives floor_le
  rw [behind, List.drop_drop, Nat.add_sub_cancel' floor_le, List.take_of_length_le] at gives
  · exact gives
  · exact Nat.le_of_eq (by rw [List.length_drop, h.totalLines_eq])

end

/-- The lines of a file.  What is no regular file has none. -/
def lines (f : IndexedFile) : List (List UInt8) := linesOf f.medium.source.content

namespace Sound
variable {f : IndexedFile}

/-- A built index is one of the file that lines are read from. -/
theorem exists_indexOf (h : Sound f) (built : f.state = .built) :
    f.closed = false ∧
      ∃ index ending, f.phase = .built index ending ∧ IndexOf f.medium.source index ending := by
  have opened : f.closed = false := by
    refine Bool.eq_false_iff.mpr fun closed => ?_
    simp [state, closed] at built
  have phase_of := h.phase
  cases phase : f.phase with
  | built index ending =>
    rw [phase] at phase_of
    obtain ⟨file, medium, index_of⟩ := phase_of
    exact ⟨opened, index, ending, rfl, medium ▸ index_of⟩
  | scanning => simp [state, opened, phase] at built
  | failed => simp [state, opened, phase] at built

/-- Only what can be read to its end gets an index. -/
theorem fault?_eq_none (h : Sound f) (built : f.state = .built) : f.medium.fault? = none := by
  obtain ⟨-, index, ending, phase, -⟩ := h.exists_indexOf built
  have phase_of := h.phase
  rw [phase] at phase_of
  obtain ⟨file, medium, -⟩ := phase_of
  rw [medium]
  rfl

/-- The number of lines is known once the index is built. -/
theorem totalLines_eq (h : Sound f) (built : f.state = .built) : f.totalLines = f.lines.length := by
  obtain ⟨-, index, ending, phase, index_of⟩ := h.exists_indexOf built
  simp only [totalLines, index?, phase, Option.map_some, Option.getD_some]
  exact index_of.totalLines_eq

/-- So is the ending. -/
theorem ending_eq (h : Sound f) (built : f.state = .built) :
    f.ending? = endingOf? f.medium.source.content := by
  obtain ⟨-, index, ending, phase, index_of⟩ := h.exists_indexOf built
  simp only [ending?, phase]
  exact index_of.ending_eq

/-- Reading can start at every line and at their number, and gives the lines from there on. -/
theorem exists_linesFrom (h : Sound f) (built : f.state = .built) (held : f.released = false)
    {start : Nat} (le : start ≤ f.lines.length) :
    ∃ r, f.linesFrom start = .ok r ∧ r.Gives f.medium.source (f.lines.drop start) := by
  obtain ⟨opened, index, ending, phase, index_of⟩ := h.exists_indexOf built
  have readable : f.readable = .ok index := by simp [IndexedFile.readable, opened, phase]
  have started : startInRange start index.totalLines = .ok start := by
    rw [index_of.totalLines_eq]
    exact if_pos ⟨Int.natCast_nonneg start, by exact_mod_cast le⟩
  refine ⟨(f.readerAt index start).skipTo f.medium.source start, ?_, index_of.gives phase start⟩
  simp [linesFrom, placeFor, reach, readable, started, bind, Except.bind, pure, Except.pure, held,
    h.fault?_eq_none built]

/-- Reading cannot start anywhere else. -/
theorem linesFrom_of_outside (h : Sound f) (built : f.state = .built) {start : Int}
    (outside : start < 0 ∨ f.lines.length < start) :
    f.linesFrom start = .error (.lineOutOfRange start f.lines.length) := by
  obtain ⟨opened, index, ending, phase, index_of⟩ := h.exists_indexOf built
  have readable : f.readable = .ok index := by simp [IndexedFile.readable, opened, phase]
  have refused : startInRange start index.totalLines =
      .error (.lineOutOfRange start f.lines.length) := by
    have out_of_range : ¬(0 ≤ start ∧ start ≤ (f.lines.length : Int)) := by omega
    rw [index_of.totalLines_eq]
    exact if_neg out_of_range
  simp only [linesFrom, placeFor, readable, refused, bind, Except.bind]

/-- Where reading starts at all, the index is built and the start is one of its lines. -/
theorem of_linesFrom (h : Sound f) {start : Int} {r : LineReader}
    (eq : f.linesFrom start = .ok r) :
    f.state = .built ∧ 0 ≤ start ∧ start ≤ f.lines.length ∧
      r.Gives f.medium.source (f.lines.drop start.toNat) := by
  obtain ⟨opened, held, index, ending, phase, from_first, le, rfl⟩ := linesFrom_eq_ok eq
  have built := state_eq_built f opened phase
  obtain ⟨-, _, _, same, index_of⟩ := h.exists_indexOf built
  cases phase.symm.trans same
  rw [index_of.totalLines_eq] at le
  exact ⟨built, from_first, le, index_of.gives phase start.toNat⟩

end Sound

/-- Where every byte can be read, the lines are those the reader gives. -/
theorem nextLine_of_fault?_eq_none {f : IndexedFile} (sane : f.medium.fault? = none)
    (r : LineReader) :
    f.nextLine r = ((r.next f.medium.source).1.map .ok, (r.next f.medium.source).2) := by
  rw [nextLine, sane]

/-- Where there is no next line, the reader gives none. -/
theorem next_eq_none_of_nextLine {f : IndexedFile} {r : LineReader}
    (none : (f.nextLine r).1 = none) : (r.next f.medium.source).1 = .none := by
  unfold nextLine at none
  generalize r.next f.medium.source = step at none
  obtain ⟨line?, after⟩ := step
  cases line? with
  | none => rfl
  | some line =>
    dsimp only at none
    split at none
    · cases none
    · split at none <;> cases none

/-- The lines a reader gives, taken some at a time. -/
theorem takeLinesFrom_of_gives {f : IndexedFile} (sane : f.medium.fault? = none)
    {upcoming : List (List UInt8)} {r : LineReader} (gives : r.Gives f.medium.source upcoming)
    (taken : List String) (count : Nat) :
    (f.takeLinesFrom taken r count).1 = taken.reverse ++ (upcoming.take count).map lineText ∧
      (f.takeLinesFrom taken r count).2.Gives f.medium.source (upcoming.drop count) := by
  induction count generalizing r upcoming taken with
  | zero => exact ⟨by simp [takeLinesFrom], gives⟩
  | succ count ih =>
    obtain ⟨given, others⟩ := gives.next
    rw [takeLinesFrom, nextLine_of_fault?_eq_none sane]
    generalize r.next f.medium.source = step at given others
    obtain ⟨item, after⟩ := step
    cases upcoming with
    | nil =>
      obtain rfl : item = none := given
      exact ⟨by simp, others⟩
    | cons line rest =>
      obtain rfl : item = some (lineText line) := given
      obtain ⟨lines, remaining⟩ := ih others (lineText line :: taken)
      exact ⟨lines.trans (by simp), remaining⟩

/-- The lines a reader gives, and that there are no more. -/
theorem takeLines_of_gives {f : IndexedFile} (sane : f.medium.fault? = none)
    {lines : List (List UInt8)} {start : Nat} {r : LineReader}
    (gives : r.Gives f.medium.source (lines.drop start)) (count : Nat) :
    (f.takeLines r count).1 = ((lines.drop start).take count).map lineText ∧
      (lines.length ≤ start + count → (f.nextLine (f.takeLines r count).2).1 = none) := by
  obtain ⟨taken, others⟩ := takeLinesFrom_of_gives sane gives [] count
  refine ⟨taken, fun last => ?_⟩
  rw [List.drop_drop, List.drop_eq_nil_of_le last] at others
  rw [nextLine_of_fault?_eq_none sane]
  have none : ((f.takeLines r count).2.next f.medium.source).1 = none := others.next.1
  rw [none]
  rfl

/-! ## Reading by the index -/

/-- The bytes of texts written one after the other, each followed by the same ending. -/
def joined (ending : LineEnding) (texts : List String) : List UInt8 :=
  texts.flatMap fun text => Utf8.encode text ++ ending.bytes

/-- Texts without break characters are the lines of what is written of them. -/
theorem map_lineText_linesOf_joined (ending : LineEnding) {texts : List String}
    (free : ∀ text ∈ texts, ∀ c ∈ text.toList, c ≠ '\n' ∧ c ≠ '\r') :
    (linesOf (joined ending texts)).map lineText = texts := by
  have no_breaks : ∀ bytes ∈ texts.map Utf8.encode, ∀ b ∈ bytes, isBreak b = false := by
    intro bytes mem b mem_bytes
    obtain ⟨text, mem_text, rfl⟩ := List.mem_map.mp mem
    refine Bool.eq_false_iff.mpr fun breaks => ?_
    simp only [isBreak, Bool.or_eq_true, beq_iff_eq] at breaks
    obtain ⟨c, mem_c, number⟩ := Utf8.exists_mem_toList_of_mem_encode mem_bytes
      (by rcases breaks with rfl | rfl <;> decide)
    obtain ⟨no_feed, no_return⟩ := free text mem_text c mem_c
    rcases breaks with rfl | rfl
    · exact no_feed (Char.toNat_inj.mp number)
    · exact no_return (Char.toNat_inj.mp number)
  have shape : joined ending texts = (texts.map Utf8.encode).flatMap (· ++ ending.bytes) := by
    rw [joined, List.flatMap_map]
  have read_back : lineText ∘ Utf8.encode = id := funext lineText_encode
  rw [shape, linesOf_flatMap no_breaks, List.map_map, read_back, List.map_id]

/-- A file is held and agrees with its index however short the reads come. -/
theorem sound_of_build (path : String) (file : RegularFile) (portions : Portions)
    (chunkSize : Nat) :
    let built := (openAt path (.file file) chunkSize).build
    let f := { built with medium := .file { file with portions } }
    Sound f ∧ f.released = false := by
  have fields := build_eq (openAt path (.file file) chunkSize)
  refine ⟨?_, congrArg IndexedFile.released fields⟩
  exact ((Sound.openAt path (.file file) chunkSize).build).withPortions
    (congrArg IndexedFile.medium fields) portions

/-- **Indexed reading is plain splitting.**  However large the chunks, as long
as there can be a buffer for one, and however short the reads, the build ends
with the number of lines and the ending of the file; reading starts at its
lines and at their number, and nowhere else, and gives the lines from there on
and then no more.  So texts written with one ending are read back. -/
theorem indexed_reading (path : String) (file : RegularFile) (portions : Portions)
    (chunkSize : Nat) (room : (chunkSize : Int) ≤ Word.highest) :
    let built := (openAt path (.file file) chunkSize).build
    let f := { built with medium := .file { file with portions } }
    let lines := linesOf file.content
    f.state = .built ∧ f.totalLines = lines.length ∧ f.ending? = endingOf? file.content ∧
      (∀ start : Int, start < 0 ∨ lines.length < start →
        f.linesFrom start = .error (.lineOutOfRange start lines.length)) ∧
      (∀ start : Nat, start ≤ lines.length → ∃ r, f.linesFrom start = .ok r ∧ ∀ count,
        (f.takeLines r count).1 = ((lines.drop start).take count).map lineText ∧
          (lines.length ≤ start + count → (f.nextLine (f.takeLines r count).2).1 = none)) ∧
      (∀ ending texts, (∀ text ∈ texts, ∀ c ∈ text.toList, c ≠ '\n' ∧ c ≠ '\r') →
        file.content = joined ending texts →
          ∃ r, f.linesFrom 0 = .ok r ∧ ∀ count, (f.takeLines r count).1 = texts.take count) := by
  obtain ⟨sound, held⟩ := sound_of_build path file portions chunkSize
  intro built f lines
  have is_built : f.state = .built := (state_build_eq_built_iff path file chunkSize).mpr room
  have start_at (start : Nat) (le : start ≤ lines.length) : ∃ r, f.linesFrom start = .ok r ∧
      ∀ count, (f.takeLines r count).1 = ((lines.drop start).take count).map lineText ∧
        (lines.length ≤ start + count → (f.nextLine (f.takeLines r count).2).1 = none) := by
    obtain ⟨r, started, gives⟩ := sound.exists_linesFrom is_built held le
    exact ⟨r, started, takeLines_of_gives (sound.fault?_eq_none is_built) gives⟩
  refine ⟨is_built, sound.totalLines_eq is_built, sound.ending_eq is_built,
    fun start outside => sound.linesFrom_of_outside is_built outside, start_at, ?_⟩
  intro ending texts free content
  obtain ⟨r, started, reads⟩ := start_at 0 (Nat.zero_le _)
  refine ⟨r, started, fun count => (reads count).1.trans ?_⟩
  have written : lines.map lineText = texts := by
    rw [← map_lineText_linesOf_joined ending free, ← content]
  rw [List.drop_zero, List.map_take, written]

/-- Two lines, read byte by byte by an index whose chunks part the ending. -/
theorem indexed_reading_byte_by_byte :
    let file : RegularFile := ⟨⟨#[71, 49, 13, 10, 77, 50, 13, 10]⟩, by decide, .whole⟩
    let portions : Portions :=
      ⟨fun _ asked => min asked 1, fun _ _ some => by omega, fun _ _ => Nat.min_le_left ..⟩
    let built := (openAt "job" (.file file) 3).build
    let f := { built with medium := .file { file with portions } }
    ((3 : Nat) : Int) ≤ Word.highest ∧ f.linesFrom (-1) = .error (.lineOutOfRange (-1) 2) ∧
      (∃ r, f.linesFrom 1 = .ok r ∧ (f.takeLines r 1).1 = ["M2"] ∧
        (f.nextLine (f.takeLines r 1).2).1 = none) ∧
      ∃ r, f.linesFrom 0 = .ok r ∧ (f.takeLines r 2).1 = ["G1", "M2"] := by
  intro file portions built f
  have content : file.content = joined .crlf ["G1", "M2"] := by decide
  have lines : linesOf file.content = [[71, 49], [77, 50]] := by decide
  obtain ⟨-, -, -, outside, inside, written⟩ := indexed_reading "job" file portions 3 (by decide)
  refine ⟨by decide, (outside (-1) (by decide)).trans (by rw [lines]; rfl), ?_, ?_⟩
  · obtain ⟨r, started, reads⟩ := inside 1 (by decide)
    obtain ⟨taken, ended⟩ := reads 1
    refine ⟨r, started, taken.trans ?_, ended (by decide)⟩
    have text : [77, 50] = Utf8.encode "M2" := by decide
    rw [lines, text]
    exact congrArg (fun text => [text]) (lineText_encode "M2")
  · obtain ⟨r, started, reads⟩ := written .crlf ["G1", "M2"] (by simp) content
    exact ⟨r, started, reads 2⟩

/-- Chunks one byte longer than any buffer: the file has a line, and its index
is never built. -/
theorem building_without_buffer :
    let file : RegularFile := ⟨⟨#[71, 49, 10]⟩, by decide, .whole⟩
    let f := openAt "job" (.file file) 0x8000000000000000
    linesOf file.content = [[71, 49]] ∧ ∀ rounds, (buildRounds rounds f).state = .building ∧
      (buildRounds rounds f).totalLines = 0 ∧
        (buildRounds rounds f).linesFrom 0 = .error (.indexNotBuilt "job") := by
  intro file f
  refine ⟨by decide, fun rounds => ?_⟩
  have none : f.hasBuffer = false := by decide
  rw [buildRounds_of_hasBuffer_eq_false none rfl]
  exact ⟨rfl, rfl, rfl⟩

end IndexedFile

end GcodeJob
