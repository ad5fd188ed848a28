import GcodeJob.Proofs.File.Seeking

/-!
# GcodeJob.Proofs.File.Places

The line a reader says it is at.  Each line that it gives takes it one line
on, whatever the file holds by then (`IndexedFile.line_takeLinesFrom`).  Where it
begins is counted by the terminators it has passed over, so it says the line
it was sent to, if as many lines end in the file.

**Main result** (`IndexedFile.place_of_reader`): a reader knows its place from
every start but one.  Sent behind a last line without terminator it says the
number of that line, and goes on saying so
(`IndexedFile.place_behind_unterminated`).
-/

namespace GcodeJob

namespace LineReader
variable (file : RegularFile)

/-! ## Counting the lines given -/

theorem line_nextByte (r : LineReader) : (r.nextByte file).2.line = r.line := by
  unfold nextByte
  dsimp only
  split <;> exact line_refill file r

theorem line_readBytes (text : List UInt8) (r : LineReader) :
    (r.readBytes file text).2.2.line = r.line := by
  fun_induction readBytes file text r with
  | case1 text r next h => rw [← line_nextByte file r, h]
  | case2 text r b next h ends => rw [← line_nextByte file r, h]
  | case3 text r b next h inside ih => rw [ih, ← line_nextByte file r, h]
  | case4 text r b next h inside ih => rw [ih, ← line_nextByte file r, h]

/-- A reader goes one line on with each line it gives. -/
theorem line_next (r : LineReader) :
    (r.next file).2.line = r.line + if (r.next file).1.isSome then 1 else 0 := by
  have line := line_readBytes file [] r
  unfold next
  split
  · rfl
  · generalize r.readBytes file [] = read at line
    obtain ⟨bytes, ended, after⟩ := read
    dsimp only at line ⊢
    split <;> simp [line]

end LineReader

namespace IndexedFile

/-- The line a reader is at, one further if it was given one and no error. -/
theorem line_nextLine (f : IndexedFile) (r : LineReader) :
    (f.nextLine r).2.line = r.line + if (f.nextLine r).1 matches some (.ok _) then 1 else 0 := by
  have line := LineReader.line_next f.medium.source r
  unfold nextLine
  generalize r.next f.medium.source = step at line
  obtain ⟨item, after⟩ := step
  dsimp only at line ⊢
  split
  · cases item <;> exact line
  · split
    · rfl
    · cases item <;> exact line

theorem line_takeLinesFrom (f : IndexedFile) (taken : List String) (r : LineReader) (count : Nat) :
    (f.takeLinesFrom taken r count).2.line + taken.length =
      r.line + (f.takeLinesFrom taken r count).1.length := by
  induction count generalizing taken r with
  | zero => simp [takeLinesFrom]
  | succ count ih =>
    have line := f.line_nextLine r
    rw [takeLinesFrom]
    generalize f.nextLine r = step at line
    obtain ⟨_ | _ | text, after⟩ := step
    · simpa using line
    · simpa using line
    · have later := ih (text :: taken) after
      simp only [List.length_cons, if_true] at later line ⊢
      omega

/-! ## The place of a reader -/

/-- Where a reader says to be that was sent to a line. -/
theorem Sound.line_of_linesFrom {f : IndexedFile} (h : Sound f) {start : Nat} {r : LineReader}
    (eq : f.linesFrom start = .ok r) :
    r.line = min start (f.medium.source.content.countP
      (endsLine (terminatorOf? f.medium.source.content))) := by
  obtain ⟨-, -, index, ending, phase, -, -, stands⟩ := linesFrom_eq_ok eq
  obtain ⟨-, _, _, same, index_of⟩ := h.exists_indexOf (h.of_linesFrom eq).1
  cases phase.symm.trans same
  rw [stands, Int.toNat_natCast]
  exact (index_of.approaches phase start).line_skipTo

/-- **A reader knows its place.**  Sent to a line that comes not later than the
last terminator, a reader says that line, and after each line it has given the
one behind it, up to the number of lines when there are no more.  The only
later place to start at is behind a last line without terminator: there no
line follows, and the reader says all along that it is at the last one.  Only
where there can be no buffer for a chunk is the index not built. -/
theorem place_of_reader (path : String) (file : RegularFile) (portions : Portions)
    (chunkSize : Nat) {start : Nat} (inside : start ≤ (linesOf file.content).length) :
    let built := (openAt path (.file file) chunkSize).build
    let f := { built with medium := .file { file with portions } }
    let total := (linesOf file.content).length
    let ended := file.content.countP (endsLine (terminatorOf? file.content))
    (f.state = .built ↔ (chunkSize : Int) ≤ Word.highest) ∧
      (f.state = .built → f.totalLines = total ∧ ∃ r, f.linesFrom start = .ok r ∧
        (∀ count, (f.takeLines r count).1.length = min count (total - start)) ∧
        (start ≤ ended →
          r.line = start ∧ ∀ count, (f.takeLines r count).2.line = min (start + count) total) ∧
        (ended < start → start = total ∧ total = ended + 1 ∧
          r.line = ended ∧ ∀ count, (f.takeLines r count).2.line = ended)) := by
  obtain ⟨sound, held⟩ := sound_of_build path file portions chunkSize
  intro built f total ended
  refine ⟨state_build_eq_built_iff path file chunkSize, fun is_built => ?_⟩
  obtain ⟨r, started, gives⟩ := sound.exists_linesFrom is_built held inside
  have line : r.line = min start ended := sound.line_of_linesFrom started
  -- Only the last line can lack a terminator, so both counts differ by one at most.
  have most : total ≤ ended + 1 := length_linesBy_le ..
  have given (count : Nat) : (f.takeLines r count).1.length = min count (total - start) := by
    rw [(takeLines_of_gives (sound.fault?_eq_none is_built) gives count).1, List.length_map, List.length_take, List.length_drop]
    rfl
  have place (count : Nat) :
      (f.takeLines r count).2.line = r.line + min count (total - start) := by
    rw [← given count]
    exact f.line_takeLinesFrom [] r count
  refine ⟨sound.totalLines_eq is_built, r, started, given, fun known => ?_, fun behind => ?_⟩
  · refine ⟨by omega, fun count => ?_⟩
    rw [place]
    omega
  · refine ⟨by omega, by omega, by omega, fun count => ?_⟩
    rw [place]
    omega

/-- Three lines, the last without terminator, read from the second on. -/
theorem place_of_reader_before_unterminated :
    let file : RegularFile := ⟨⟨#[71, 13, 10, 77, 13, 10, 88]⟩, by decide, .whole⟩
    let portions : Portions :=
      ⟨fun _ asked => min asked 1, fun _ _ some => Nat.lt_min.mpr ⟨some, Nat.one_pos⟩,
        fun _ _ => Nat.min_le_left ..⟩
    let built := (openAt "job" (.file file) 2).build
    let f := { built with medium := .file { file with portions } }
    1 ≤ (linesOf file.content).length ∧ ∃ r, f.linesFrom 1 = .ok r ∧ r.line = 1 ∧
      (f.takeLines r 1).2.line = 2 ∧ (f.takeLines r 9).2.line = 3 := by
  intro file portions built f
  have inside : 1 ≤ (linesOf file.content).length := by decide
  have total : (linesOf file.content).length = 3 := by decide
  obtain ⟨built_iff, places⟩ := place_of_reader "job" file portions 2 inside
  obtain ⟨-, r, started, -, known, -⟩ := places (built_iff.mpr (by decide))
  obtain ⟨first, later⟩ := known (by decide)
  rw [total] at later
  exact ⟨inside, r, started, first, later 1, later 9⟩

/-- One line without terminator: a reader sent behind it says that it is at
this line, and gives none. -/
theorem place_behind_unterminated :
    let file : RegularFile := ⟨⟨#[71]⟩, by decide, .whole⟩
    let f := (openAt "job" (.file file) 4).build
    f.totalLines = 1 ∧ ∃ r, f.linesFrom 1 = .ok r ∧ r.line ≠ 1 ∧
      (f.takeLines r 1).1 = [] ∧ (f.takeLines r 1).2.line ≠ 1 := by
  intro file f
  have total : f.totalLines = 1 := by decide +kernel
  have read : (f.linesFrom 1).toOption.map (fun r =>
      (r.line, (f.takeLines r 1).1, (f.takeLines r 1).2.line)) = some (0, [], 0) := by
    decide +kernel
  cases started : f.linesFrom 1 with
  | error e =>
    rw [started] at read
    cases read
  | ok r =>
    rw [started] at read
    obtain ⟨first, given, last⟩ : r.line = 0 ∧ (f.takeLines r 1).1 = [] ∧
        (f.takeLines r 1).2.line = 0 := by simpa [Except.toOption] using read
    exact ⟨total, r, rfl, by rw [first]; decide, given, by rw [last]; decide⟩

end IndexedFile

end GcodeJob
