import GcodeJob.Proofs.File.Marks

/-!
# GcodeJob.Proofs.File.Seeking

How far a reader scans to come to a line.  It starts at the mark that the
index gives and stops right behind the terminator before the line, so the
scan is as long as the two are apart.  Only the last line to start in a chunk
is marked, so where another line ends in the chunk in which the marked line
ends, it is reached from the same mark: the scan passes over the marked line
and then over less than a chunk.

**Main result** (`IndexedFile.seeking_within_line_and_chunk`): what a scan
passes over, for every file, chunk size and line.  One chunk is not enough
(`IndexedFile.seeking_beyond_chunk`), even where every line fits in one.
-/

namespace GcodeJob

/-! ## Where a reader comes to stand -/

/-- Where a reader stands that is asked to go to a line: at its start, or at the
end of a file in which too few lines end. -/
inductive LineReader.Reaches (bytes : List UInt8) (line offset : Nat) : Prop
  | start (at_start : LineStart (terminatorOf? bytes) bytes ⟨line, offset⟩)
  | ended (at_end : offset = bytes.length)
    (few : bytes.countP (endsLine (terminatorOf? bytes)) < line)

namespace LineReader
variable {bytes : List UInt8} {line offset : Nat}

theorem Reaches.offset_le (h : Reaches bytes line offset) : offset ≤ bytes.length :=
  match h with
  | .start at_start => at_start.offset_le
  | .ended at_end _ => Nat.le_of_eq at_end

/-- At no earlier place have as many lines ended. -/
theorem Reaches.countP_lt (h : Reaches bytes line offset) {upto : Nat} (lt : upto < offset) :
    (bytes.take upto).countP (endsLine (terminatorOf? bytes)) < line := by
  cases h with
  | start at_start =>
    have ends := at_start.endsAt_pred (Nat.zero_lt_of_lt lt)
    have more := countP_take_lt ends (Nat.sub_lt (Nat.zero_lt_of_lt lt) Nat.one_pos)
    have le := countP_take_le (terminatorOf? bytes) bytes (Nat.le_sub_one_of_lt lt)
    rw [at_start.line] at more
    exact Nat.lt_of_le_of_lt le more
  | ended at_end few => exact Nat.lt_of_le_of_lt (List.take_sublist ..).countP_le few

/-- A reader on its way to a line: in its count are the lines that have ended
before its place, and where the count has come to the line, the line starts. -/
structure Approaches (file : RegularFile) (target : Nat) (r : LineReader) : Prop where
  follows : r.Follows file (terminatorOf? file.content)
  offset_le : r.offset ≤ file.content.length
  count : (file.content.take r.offset).countP (endsLine (terminatorOf? file.content)) = r.line
  le : r.line ≤ target
  start : r.line = target →
    LineStart (terminatorOf? file.content) file.content ⟨r.line, r.offset⟩

namespace Approaches
variable {file : RegularFile} {target : Nat} {r : LineReader}

/-- By passing over a byte a reader comes nearer. -/
theorem passByte (h : Approaches file target r) (before : r.line < target) {b : UInt8}
    {rest : List UInt8} (next : file.content.drop r.offset = b :: rest) :
    Approaches file target ((r.refill file).passByte b) ∧
      ((r.refill file).passByte b).offset = r.offset + 1 := by
  obtain ⟨follows, -, line⟩ := passByte_spec h.follows next
  have found : file.content[r.offset]? = some b := by rw [← List.head?_drop, next, List.head?_cons]
  have offset : ((r.refill file).passByte b).offset = r.offset + 1 := by
    rw [LineReader.passByte, offset_refill]
  have take_succ := Scan.Covers.take_succ found
  refine ⟨⟨follows, ?_, ?_, ?_, fun there => ?_⟩, offset⟩
  · rw [offset]
    exact (List.getElem?_eq_some_iff.mp found).1
  · rw [offset, take_succ, List.countP_append, h.count, line, List.countP_singleton]
  · rw [line]
    split <;> omega
  -- The count has come to the line just if this byte ends the one before.
  · by_cases ends : endsLine (terminatorOf? file.content) b = true
    · have started := LineStart.of_getElem? found ends
      rw [if_pos ends] at line
      rwa [h.count, ← line, ← offset] at started
    · rw [line, if_neg ends] at there
      omega

/-- Reading a block brings a reader no nearer. -/
theorem refill (h : Approaches file target r) : Approaches file target (r.refill file) where
  follows := h.follows.refill
  offset_le := by rw [offset_refill]; exact h.offset_le
  count := by rw [offset_refill, line_refill]; exact h.count
  le := by rw [line_refill]; exact h.le
  start := by rw [offset_refill, line_refill]; exact h.start

/-- A reader goes on until it has come to the line asked for, or to the end of the file. -/
theorem skipTo (h : Approaches file target r) :
    let r' := r.skipTo file target
    Approaches file target r' ∧ r.offset ≤ r'.offset ∧
      (r'.line = target ∨ r'.offset = file.content.length) := by
  induction rest : file.content.drop r.offset generalizing r with
  | nil =>
    rcases Nat.lt_or_eq_of_le h.le with before | there
    · rw [List.drop_eq_nil_iff] at rest
      rw [skipTo_of_nextByte_none before
        (nextByte_of_drop_eq_nil h.follows (List.drop_eq_nil_of_le rest))]
      have same := offset_refill file r
      exact ⟨h.refill, Nat.le_of_eq same.symm,
        .inr (by rw [same, Nat.le_antisymm h.offset_le rest])⟩
    · rw [skipTo_of_le (Nat.le_of_eq there.symm)]
      exact ⟨h, Nat.le_refl _, .inl there⟩
  | cons b rest ih =>
    rcases Nat.lt_or_eq_of_le h.le with before | there
    · obtain ⟨_, used, _⟩ := nextByte_of_drop_eq_cons h.follows ‹_›
      obtain ⟨nearer, offset⟩ := h.passByte before ‹_›
      obtain ⟨-, tail, -⟩ := passByte_spec h.follows ‹_›
      obtain ⟨arrived, from_next, place⟩ := ih nearer tail
      rw [skipTo_of_nextByte before used]
      exact ⟨arrived, by omega, place⟩
    · rw [skipTo_of_le (Nat.le_of_eq there.symm)]
      exact ⟨h, Nat.le_refl _, .inl there⟩

/-- So it comes to the start of the line, or too few lines end in the file. -/
theorem reaches (h : Approaches file target r) :
    r.offset ≤ (r.skipTo file target).offset ∧
      Reaches file.content target (r.skipTo file target).offset := by
  obtain ⟨arrived, onward, place⟩ := h.skipTo
  refine ⟨onward, ?_⟩
  rcases Nat.lt_or_eq_of_le arrived.le with before | there
  · have at_end := place.resolve_left (Nat.ne_of_lt before)
    have count := arrived.count
    rw [at_end, List.take_length] at count
    exact .ended at_end (count ▸ before)
  · have start := arrived.start there
    rw [there] at start
    exact .start start

/-- A reader that has gone to a line has counted as many lines as end before it, or all. -/
theorem line_skipTo (h : Approaches file target r) :
    (r.skipTo file target).line =
      min target (file.content.countP (endsLine (terminatorOf? file.content))) := by
  obtain ⟨arrived, -, place⟩ := h.skipTo
  have count := arrived.count
  have le := arrived.le
  rcases place with there | at_end
  · have some_ended : _ ≤ file.content.countP (endsLine (terminatorOf? file.content)) :=
      (List.take_sublist (r.skipTo file target).offset _).countP_le
    omega
  · rw [at_end, List.take_length] at count
    omega

end Approaches

end LineReader

/-! ## Marks between a mark and a line -/

namespace Scan.Marked
variable {bytes : List UInt8} {size count : Nat} {s : Scan}

/-- Where a line ends from the mark of a line on, as many lines as are before the
line asked for have ended at the end of the chunk: this chunk has a mark of its
own, which would else be the nearer one. -/
theorem le_countP_chunk (h : Marked bytes size count s) (done : bytes.length ≤ s.offset)
    {line offset : Nat} (behind : (s.index.floor line).offset ≤ offset)
    (ends : endsAt bytes offset = true) (pos : 0 < size) :
    line ≤ (bytes.take ((offset / size + 1) * size)).countP (endsLine (terminatorOf? bytes)) := by
  have within : offset / size * size ≤ offset := Nat.div_mul_le_self ..
  have upto : offset < (offset / size + 1) * size := Nat.lt_mul_of_div_lt (Nat.lt_succ_self _) pos
  obtain ⟨m, mark, line_eq⟩ := exists_chunkMark? ends pos
  have mem := h.mem_of_chunkMark? done mark (Nat.lt_of_le_of_lt within (lt_of_endsAt ends))
  rw [← line_eq]
  refine Nat.le_of_not_lt fun before => ?_
  obtain ⟨floor_mem, -, greatest⟩ := LineIndex.floor_ofChain h.covers.ordered s.totalLines line
  have nearest : m.line ≤ (s.index.floor line).line := greatest m mem (Nat.le_of_lt before)
  have floor_line := (h.covers.marks _ floor_mem).line
  have le := countP_take_le (terminatorOf? bytes) bytes behind
  have more := countP_take_lt ends upto
  change (bytes.take (s.index.floor line).offset).countP _ = (s.index.floor line).line at floor_line
  omega

end Scan.Marked

/-! ## The length of a scan -/

/-- The number of bytes of the first line, its terminator among them. -/
def lineSize (terminator : Option UInt8) (bytes : List UInt8) : Nat :=
  ((bytes.findIdx? (endsLine terminator)).map (· + 1)).getD bytes.length

/-- From its mark a line is reached behind the marked line and less than a chunk. -/
theorem Scan.Marked.offset_lt {bytes : List UInt8} {size count : Nat} {s : Scan}
    (h : Marked bytes size count s) (done : bytes.length ≤ s.offset) (pos : 0 < size)
    {line offset : Nat} (reaches : LineReader.Reaches bytes line offset) :
    offset < (s.index.floor line).offset +
      lineSize (terminatorOf? bytes) (bytes.drop (s.index.floor line).offset) + size := by
  generalize mark : (s.index.floor line).offset = start
  have offset_le := reaches.offset_le
  rw [lineSize]
  cases found : (bytes.drop start).findIdx? (endsLine (terminatorOf? bytes)) with
  | none =>
    rw [Option.map_none, Option.getD_none, List.length_drop]
    omega
  | some own =>
    rw [Option.map_some, Option.getD_some]
    have ends : endsAt bytes (start + own) = true := by
      obtain ⟨lt, ends, -⟩ := List.findIdx?_eq_some_iff_getElem.mp found
      rw [List.getElem_drop] at ends
      rw [List.length_drop] at lt
      rw [endsAt, List.getElem?_eq_getElem (by omega)]
      exact ends
    have behind : (s.index.floor line).offset ≤ start + own := by omega
    have enough := h.le_countP_chunk done behind ends pos
    have within : (start + own) / size * size ≤ start + own := Nat.div_mul_le_self ..
    have next : ((start + own) / size + 1) * size = (start + own) / size * size + size :=
      Nat.succ_mul ..
    refine Nat.lt_of_not_le fun far => ?_
    have few := reaches.countP_lt (by omega : ((start + own) / size + 1) * size < offset)
    omega

namespace IndexedFile

/-- From the mark that the index gives a reader is on its way to the line. -/
theorem IndexOf.approaches {f : IndexedFile} {index : LineIndex} {ending : Option LineEnding}
    (h : IndexOf f.medium.source index ending) (phase : f.phase = .built index ending)
    (line : Nat) : LineReader.Approaches f.medium.source line (f.readerAt index line) := by
  obtain ⟨at_mark, floor_le⟩ := h.floor line
  have follows := f.follows_readerAt index line
  rw [h.terminatorBehind_eq phase] at follows
  exact ⟨follows, at_mark.offset_le, at_mark.line, floor_le, fun _ => at_mark⟩

/-- Reading starts at each line and at their number, and the reader goes there
from the mark. -/
theorem Sound.exists_linesFrom_reaches {f : IndexedFile} (h : Sound f) {index : LineIndex}
    {ending : Option LineEnding} (phase : f.phase = .built index ending)
    (is_built : f.state = .built) (held : f.released = false) {start : Nat}
    (inside : start ≤ f.lines.length) :
    ∃ r, f.linesFrom start = .ok r ∧ (index.floor start).offset ≤ r.offset ∧
      LineReader.Reaches f.medium.source.content start r.offset := by
  obtain ⟨-, _, _, same, index_of⟩ := h.exists_indexOf is_built
  cases phase.symm.trans same
  obtain ⟨r, started, -⟩ := h.exists_linesFrom is_built held inside
  obtain ⟨-, -, _, _, same, -, -, stands⟩ := linesFrom_eq_ok started
  cases phase.symm.trans same
  refine ⟨r, started, ?_⟩
  rw [stands, Int.toNat_natCast]
  exact (index_of.approaches phase start).reaches

/-- **The length of a scan.**  However a file is read and wherever reading
starts, the reader goes from the mark that the index gives to the start of the
line, or, behind the last terminator, to the end of the file.  What it passes
over is less than the marked line and a chunk.  Only where there can be no
buffer for a chunk is there no index. -/
theorem seeking_within_line_and_chunk (path : String) (file : RegularFile) (portions : Portions)
    (chunkSize : Nat) {start : Nat} (inside : start ≤ (linesOf file.content).length) :
    let built := (openAt path (.file file) chunkSize).build
    let f := { built with medium := .file { file with portions } }
    ((∃ index, f.index? = some index) ↔ (chunkSize : Int) ≤ Word.highest) ∧
      ∀ index, f.index? = some index → ∃ r, f.linesFrom start = .ok r ∧
        let mark := index.floor start
        LineReader.Reaches file.content start r.offset ∧ mark.offset ≤ r.offset ∧
          r.offset - mark.offset <
            lineSize (terminatorOf? file.content) (file.content.drop mark.offset) +
              max chunkSize 1 := by
  intro built f
  have indexed := exists_index_build_iff path file chunkSize
  refine ⟨indexed, fun index own => ?_⟩
  have is_built := (state_build_eq_built_iff path file chunkSize).mpr (indexed.mp ⟨index, own⟩)
  obtain ⟨s, count, marked, done, phase, rfl⟩ := exists_marked_of_index path file own
  obtain ⟨sound, held⟩ := sound_of_build path file portions chunkSize
  obtain ⟨r, started, from_mark, reaches⟩ :=
    sound.exists_linesFrom_reaches phase is_built held inside
  have far := marked.offset_lt done (Nat.le_max_right ..) reaches
  refine ⟨r, started, reaches, from_mark, ?_⟩
  exact Nat.sub_lt_left_of_lt_add from_mark (Nat.add_assoc .. ▸ far)

/-- A first line of two chunks and a half: it is passed over as a whole. -/
theorem seeking_over_long_line :
    let file : RegularFile := ⟨⟨#[97, 97, 97, 97, 10, 10]⟩, by decide, .whole⟩
    let portions : Portions :=
      ⟨fun _ asked => min asked 1, fun _ _ some => Nat.lt_min.mpr ⟨some, Nat.one_pos⟩,
        fun _ _ => Nat.min_le_left ..⟩
    let built := (openAt "job" (.file file) 2).build
    let f := { built with medium := .file { file with portions } }
    1 ≤ (linesOf file.content).length ∧
      ∃ r, f.linesFrom 1 = .ok r ∧ LineReader.Reaches file.content 1 r.offset ∧ r.offset < 5 + 2 := by
  intro file portions built f
  have inside : 1 ≤ (linesOf file.content).length := by decide
  obtain ⟨has_index, scan⟩ := seeking_within_line_and_chunk "job" file portions 2 inside
  obtain ⟨index, indexed⟩ := has_index.mpr (by decide)
  obtain ⟨r, started, reaches, -, far⟩ := scan index indexed
  have at_first : f.index?.map (·.floor 1) = some ⟨0, 0⟩ := by decide +kernel
  rw [indexed, Option.map_some, Option.some_inj] at at_first
  rw [at_first] at far
  exact ⟨inside, r, started, reaches, far⟩

/-- Six bytes to a line, though no line has more than the four bytes of a chunk
with its terminator: the last line to start in the second chunk is marked, and
the one before it is reached from the first chunk. -/
theorem seeking_beyond_chunk :
    let file : RegularFile := ⟨⟨#[10, 97, 98, 99, 10, 10, 10, 10]⟩, by decide, .whole⟩
    let f := (openAt "job" (.file file) 4).build
    4 ≤ (linesOf file.content).length ∧
      ∃ index r, f.index? = some index ∧ f.linesFrom 4 = .ok r ∧
        ¬r.offset - (index.floor 4).offset ≤ 4 := by
  intro file f
  have indexed : f.index?.map (·.floor 4) = some ⟨1, 1⟩ := by decide +kernel
  have started : (f.linesFrom 4).toOption.map (·.offset) = some 7 := by decide +kernel
  obtain ⟨index, is_index, floor⟩ := Option.map_eq_some_iff.mp indexed
  cases eq : f.linesFrom 4 with
  | error e =>
    rw [eq] at started
    cases started
  | ok r =>
    rw [eq] at started
    have offset : r.offset = 7 := Option.some.inj started
    exact ⟨by decide, index, r, is_index, rfl, by rw [offset, floor]; decide⟩

end IndexedFile

end GcodeJob
