import GcodeJob.File.LineReader
import GcodeJob.Proofs.File.Lines
import GcodeJob.Proofs.Text.Utf8

/-!
# GcodeJob.Proofs.File.LineReader

A reader gives the lines of its file.  While the file keeps its bytes, what
is left of a reader's block is what the file holds at the reader's offset,
in whatever portions the block was read (`LineReader.Follows`), so a reader
uses the bytes of the file one after the other.  It goes by the terminator
that it knows, or else by the first break byte ahead of it.  From any place on
it passes over lines (`skipTo_spec`) and gives them (`Gives.next`); whether
this place was a line start of the file is the index's concern.
-/

namespace GcodeJob

/-- The text of the bytes of a line. -/
def lineText (bytes : List UInt8) : String := .ofList (Utf8.decode bytes)

/-- The bytes of a text are read as that text. -/
theorem lineText_encode (text : String) : lineText (Utf8.encode text) = text := by
  rw [lineText, Utf8.decode_encode, String.ofList_toList]

namespace LineReader

/-- What is left of the block is what the file holds at the offset, and the
reader goes by a terminator. -/
structure Follows (file : RegularFile) (terminator : Option UInt8) (r : LineReader) : Prop where
  block : r.block.data.toList.drop r.used <+: file.content.drop r.offset
  settled : r.terminator.or (terminatorOf? (file.content.drop r.offset)) = terminator
  breaks : ∀ b, terminator = some b → isBreak b = true

namespace Follows
variable {file : RegularFile} {terminator : Option UInt8} {r : LineReader}

theorem refill (h : Follows file terminator r) : Follows file terminator (r.refill file) := by
  unfold LineReader.refill
  split
  · exact h
  · refine ⟨?_, h.settled, h.breaks⟩
    rw [List.drop_zero, RegularFile.toList_read]
    exact List.take_prefix ..

/-- A block is used up only at the end of the file. -/
theorem drop_eq_nil (h : ¬(r.refill file).used < (r.refill file).block.size) :
    file.content.drop r.offset = [] := by
  unfold LineReader.refill at h
  split at h
  next more => exact absurd more h
  next =>
    have size_eq := file.size_read r.offset blockSize
    have give_pos : 0 < file.portions.give r.offset blockSize :=
      file.portions.give_pos r.offset (by decide)
    have length_eq : file.content.length = file.bytes.size := Array.length_toList
    dsimp only at h
    rw [List.drop_eq_nil_iff, length_eq]
    omega

/-- The byte of the block that comes next is that of the file, and so are the ones behind it. -/
theorem getElem_block (h : Follows file terminator r) (left : r.used < r.block.size) :
    file.content.drop r.offset = r.block[r.used] :: file.content.drop (r.offset + 1) ∧
      r.block.data.toList.drop (r.used + 1) <+: file.content.drop (r.offset + 1) := by
  obtain ⟨rest, eq⟩ := h.block
  have lt : r.used < r.block.data.toList.length := left
  rw [List.drop_eq_getElem_cons lt, List.cons_append] at eq
  have tail := congrArg List.tail eq
  rw [List.tail_drop, List.tail_cons] at tail
  exact ⟨by rw [← eq, ← tail]; rfl, rest, tail⟩

end Follows

section
variable (file : RegularFile) (r : LineReader)

@[simp] theorem offset_refill : (r.refill file).offset = r.offset := by
  unfold refill
  split <;> rfl

@[simp] theorem line_refill : (r.refill file).line = r.line := by
  unfold refill
  split <;> rfl

@[simp] theorem totalLines_refill : (r.refill file).totalLines = r.totalLines := by
  unfold refill
  split <;> rfl

@[simp] theorem done_refill : (r.refill file).done = r.done := by
  unfold refill
  split <;> rfl

@[simp] theorem terminator_refill : (r.refill file).terminator = r.terminator := by
  unfold refill
  split <;> rfl

end

/-! ## Single bytes -/

section
variable {file : RegularFile} {terminator : Option UInt8} {r : LineReader}

/-- Behind the last byte there is none. -/
theorem nextByte_of_drop_eq_nil (h : Follows file terminator r)
    (ended : file.content.drop r.offset = []) : r.nextByte file = (none, r.refill file) := by
  have used : ¬(r.refill file).used < (r.refill file).block.size := by
    intro left
    have first := (h.refill.getElem_block left).1
    rw [offset_refill, ended] at first
    cases first
  rw [nextByte]
  dsimp only
  rw [dif_neg used]

/-- Before the end of the file there is a byte in the block, and it is the one of the file. -/
theorem Follows.exists_getElem_block (h : Follows file terminator r) {b : UInt8} {rest : List UInt8}
    (next : file.content.drop r.offset = b :: rest) :
    ∃ left : (r.refill file).used < (r.refill file).block.size,
      (r.refill file).block[(r.refill file).used] = b ∧
        file.content.drop (r.offset + 1) = rest := by
  have left : (r.refill file).used < (r.refill file).block.size := by
    refine Decidable.byContradiction fun empty => ?_
    rw [drop_eq_nil empty] at next
    cases next
  have first := (h.refill.getElem_block left).1
  rw [offset_refill, next] at first
  obtain ⟨first, tail⟩ := List.cons_eq_cons.mp first
  exact ⟨left, first.symm, tail.symm⟩

/-- The byte that comes next settles the terminator that the reader goes by. -/
theorem Follows.settle_or (h : Follows file terminator r) {b : UInt8} {rest : List UInt8}
    (next : file.content.drop r.offset = b :: rest) :
    (settle r.terminator b).or (terminatorOf? rest) = terminator := by
  rw [settle_or_terminatorOf?, ← next, h.settled]

/-- What the byte that comes next is to its line. -/
theorem Follows.role (h : Follows file terminator r) {b : UInt8} {rest : List UInt8}
    (next : file.content.drop r.offset = b :: rest) :
    ByteRole.of r.terminator b =
      if endsLine terminator b then .terminator
      else if isBreak b then .dropped else .content :=
  role_of_upcoming (next ▸ h.settled) h.breaks

/-- The byte of the file at the offset is the one used next. -/
theorem nextByte_of_drop_eq_cons (h : Follows file terminator r) {b : UInt8} {rest : List UInt8}
    (next : file.content.drop r.offset = b :: rest) :
    ∃ r', r.nextByte file = (some b, r') ∧ Follows file terminator r' ∧
      file.content.drop r'.offset = rest ∧ r'.line = r.line ∧ r'.totalLines = r.totalLines := by
  obtain ⟨left, first, tail⟩ := h.exists_getElem_block next
  have block := (h.refill.getElem_block left).2
  have settled := h.settle_or next
  rw [offset_refill, tail] at block
  rw [nextByte]
  dsimp only
  rw [dif_pos left, first]
  simp only [offset_refill, terminator_refill, line_refill, totalLines_refill]
  exact ⟨_, rfl, ⟨by simpa [tail] using block, by simpa [tail] using settled, h.breaks⟩, tail, rfl,
    rfl⟩

/-! ## Passing over lines -/

/-- Where passing over lines ends: in front of line `target`, or at the end of
a file that has no such line.  As many lines are left behind. -/
structure Passed (file : RegularFile) (terminator : Option UInt8) (target : Nat)
    (r r' : LineReader) : Prop where
  follows : Follows file terminator r'
  totalLines : r'.totalLines = r.totalLines
  done : r'.done = r.done
  lines : linesBy terminator (file.content.drop r'.offset) =
    (linesBy terminator (file.content.drop r.offset)).drop (target - r.line)
  place : r'.line = target ∨ r'.line < target ∧ file.content.drop r'.offset = []

/-- Passing over a byte counts the terminators. -/
theorem passByte_spec (h : Follows file terminator r) {b : UInt8} {rest : List UInt8}
    (next : file.content.drop r.offset = b :: rest) :
    let r' := (r.refill file).passByte b
    Follows file terminator r' ∧ file.content.drop r'.offset = rest ∧
      r'.line = r.line + if endsLine terminator b then 1 else 0 := by
  obtain ⟨left, first, tail⟩ := h.exists_getElem_block next
  have block := (h.refill.getElem_block left).2
  have settled := h.settle_or next
  simp only [passByte, offset_refill, line_refill, terminator_refill, h.role next] at block ⊢
  refine ⟨⟨block, by simpa [tail] using settled, h.breaks⟩, tail, ?_⟩
  cases endsLine terminator b <;> cases isBreak b <;> rfl

/-- A reader comes to a line by counting terminators. -/
theorem skipTo_spec {target : Nat} (h : Follows file terminator r) (le : r.line ≤ target) :
    Passed file terminator target r (r.skipTo file target) := by
  induction rest : file.content.drop r.offset generalizing r with
  | nil =>
    rcases Nat.lt_or_eq_of_le le with lt | eq
    · rw [skipTo_of_nextByte_none lt (nextByte_of_drop_eq_nil h rest)]
      exact
        { follows := h.refill
          totalLines := totalLines_refill file r
          done := done_refill file r
          lines := by rw [offset_refill, rest, linesBy_nil, List.drop_nil]
          place := .inr (by simp [lt, rest]) }
    · rw [skipTo_of_le (by omega)]
      exact ⟨h, rfl, rfl, by rw [eq, Nat.sub_self, List.drop_zero], .inl eq⟩
  | cons b rest ih =>
    rcases Nat.lt_or_eq_of_le le with lt | eq
    · obtain ⟨_, used, _⟩ := nextByte_of_drop_eq_cons h ‹_›
      obtain ⟨follows, tail, line⟩ := passByte_spec h ‹_›
      have passed := ih follows (by split at line <;> omega) tail
      have lines := passed.lines
      rw [skipTo_of_nextByte lt used]
      refine
        { follows := passed.follows
          totalLines := passed.totalLines.trans (totalLines_refill file r)
          done := passed.done.trans (done_refill file r)
          lines := ?_
          place := passed.place }
      obtain ⟨n, left⟩ : ∃ n, target - r.line = n + 1 := ⟨target - r.line - 1, by omega⟩
      rw [lines, tail, ‹file.content.drop r.offset = _›, left, drop_linesBy_cons, line]
      congr 1
      split <;> omega
    · rw [skipTo_of_le (by omega)]
      exact ⟨h, rfl, rfl, by rw [eq, Nat.sub_self, List.drop_zero], .inl eq⟩

/-! ## Giving lines -/

/-- A reader that gives certain lines, and no others: those from its place on,
as far as its count of lines goes, and none once it is done. -/
def Gives (file : RegularFile) (r : LineReader) (upcoming : List (List UInt8)) : Prop :=
  ∃ terminator, Follows file terminator r ∧
    upcoming = if r.done then [] else
      (linesBy terminator (file.content.drop r.offset)).take (r.totalLines - r.line)

/-- In front of a line a reader gives the lines from there on. -/
theorem Passed.gives {target : Nat} {r' : LineReader} (h : Passed file terminator target r r')
    (undone : r.done = false) :
    r'.Gives file (((linesBy terminator (file.content.drop r.offset)).drop (target - r.line)).take
      (r.totalLines - target)) := by
  refine ⟨terminator, h.follows, ?_⟩
  rw [h.done, undone, ← h.lines, h.totalLines]
  rcases h.place with place | ⟨-, ended⟩
  · rw [place]
    rfl
  · simp [ended, linesBy_nil]

theorem readBytes_of_nextByte_none {text : List UInt8} {next : LineReader}
    (h : r.nextByte file = (none, next)) :
    r.readBytes file text = (text.reverse, .fileEnded, next) := by
  rw [readBytes]
  split
  next eq =>
    cases h.symm.trans eq
    rfl
  next eq => cases h.symm.trans eq

theorem readBytes_of_nextByte {text : List UInt8} {next : LineReader} {b : UInt8}
    (h : r.nextByte file = (some b, next)) :
    r.readBytes file text =
      match ByteRole.of r.terminator b with
      | .terminator => (text.reverse, .terminated, next)
      | .content => next.readBytes file (b :: text)
      | .dropped => next.readBytes file text := by
  rw [readBytes]
  split
  next eq => cases h.symm.trans eq
  next eq =>
    cases h.symm.trans eq
    cases ByteRole.of r.terminator b <;> rfl

/-- Bytes that do not end the line are gathered, less the break bytes. -/
theorem readBytes_of_append {before rest : List UInt8} (text : List UInt8)
    (h : Follows file terminator r) (inside : ∀ b ∈ before, endsLine terminator b = false)
    (ahead : file.content.drop r.offset = before ++ rest) :
    ∃ r', r.readBytes file text = r'.readBytes file ((withoutBreaks before).reverse ++ text) ∧
      Follows file terminator r' ∧ file.content.drop r'.offset = rest ∧ r'.line = r.line ∧
      r'.totalLines = r.totalLines := by
  induction before generalizing r text with
  | nil => exact ⟨r, rfl, h, ahead, rfl, rfl⟩
  | cons b before ih =>
    rw [List.cons_append] at ahead
    obtain ⟨next, used, follows, tail, line, totalLines⟩ := nextByte_of_drop_eq_cons h ahead
    obtain ⟨last, eq, last_follows, last_tail, last_line, last_totalLines⟩ :=
      ih (if isBreak b then text else b :: text) follows
        (fun c mem => inside c (List.mem_cons_of_mem b mem)) tail
    refine ⟨last, ?_, last_follows, last_tail, last_line.trans line,
      last_totalLines.trans totalLines⟩
    rw [readBytes_of_nextByte used, h.role ahead, inside b List.mem_cons_self]
    cases own : isBreak b <;> rw [own] at eq <;> simpa [own, withoutBreaks] using eq

/-- A line that ends is read up to its terminator. -/
theorem readBytes_of_terminated {before rest : List UInt8} {b : UInt8}
    (h : Follows file terminator r) (inside : ∀ b ∈ before, endsLine terminator b = false)
    (ends : endsLine terminator b = true)
    (ahead : file.content.drop r.offset = before ++ b :: rest) :
    ∃ r', r.readBytes file [] = (withoutBreaks before, .terminated, r') ∧
      Follows file terminator r' ∧ file.content.drop r'.offset = rest ∧ r'.line = r.line ∧
      r'.totalLines = r.totalLines := by
  obtain ⟨last, eq, follows, tail, line, totalLines⟩ := readBytes_of_append [] h inside ahead
  obtain ⟨next, used, next_follows, next_tail, next_line, next_totalLines⟩ :=
    nextByte_of_drop_eq_cons follows tail
  refine ⟨next, ?_, next_follows, next_tail, next_line.trans line,
    next_totalLines.trans totalLines⟩
  rw [eq, readBytes_of_nextByte used, follows.role tail, if_pos ends]
  simp

/-- A line that does not end is read up to the end of the file. -/
theorem readBytes_of_unterminated (h : Follows file terminator r)
    (inside : ∀ b ∈ file.content.drop r.offset, endsLine terminator b = false) :
    ∃ r', r.readBytes file [] = (withoutBreaks (file.content.drop r.offset), .fileEnded, r') ∧
      Follows file terminator r' := by
  obtain ⟨last, eq, follows, tail, -⟩ :=
    readBytes_of_append [] h inside (List.append_nil _).symm
  refine ⟨last.refill file, ?_, follows.refill⟩
  rw [eq, readBytes_of_nextByte_none (nextByte_of_drop_eq_nil follows tail)]
  simp

/-- A reader gives the first of its lines, and then the others. -/
theorem Gives.next {upcoming : List (List UInt8)} (h : Gives file r upcoming) :
    (r.next file).1 = upcoming.head?.map lineText ∧
      Gives file (r.next file).2 upcoming.tail := by
  obtain ⟨terminator, follows, lines⟩ := h
  unfold LineReader.next
  by_cases done : r.done = true
  · rw [if_pos done] at lines
    simpa [done, lines] using ⟨terminator, follows, by simp [done]⟩
  rw [if_neg done] at lines
  by_cases counted : r.totalLines ≤ r.line
  · rw [Nat.sub_eq_zero_of_le counted, List.take_zero] at lines
    simpa [counted, lines] using ⟨terminator, follows, by simp [Nat.sub_eq_zero_of_le counted]⟩
  rw [if_neg (by simp [done, counted])]
  obtain ⟨left, more⟩ : ∃ left, r.totalLines - r.line = left + 1 :=
    ⟨r.totalLines - r.line - 1, by omega⟩
  rcases exists_first_end terminator (file.content.drop r.offset) with
    inside | ⟨before, b, rest, ahead, inside, ends⟩
  · obtain ⟨next, read, next_follows⟩ := readBytes_of_unterminated follows inside
    rw [linesBy_of_not_endsLine inside, more] at lines
    rw [read]
    by_cases empty : withoutBreaks (file.content.drop r.offset) = []
    · rw [if_pos empty] at lines
      simp only [empty, lines]
      exact ⟨rfl, terminator, ⟨next_follows.block, next_follows.settled, follows.breaks⟩, rfl⟩
    · rw [if_neg empty, List.take_succ_cons, List.take_nil] at lines
      simp only [lines, List.isEmpty_eq_false_iff.mpr empty]
      exact ⟨rfl, terminator, ⟨next_follows.block, next_follows.settled, follows.breaks⟩, rfl⟩
  · obtain ⟨next, read, next_follows, tail, line, totalLines⟩ :=
      readBytes_of_terminated follows inside ends ahead
    rw [ahead, linesBy_append_cons inside ends, more, List.take_succ_cons] at lines
    have goes_on : (LineEnd.terminated == LineEnd.fileEnded) = false := rfl
    rw [read, lines]
    simp only [goes_on, Bool.and_false, Bool.false_eq_true, if_false]
    refine ⟨rfl, terminator, ⟨next_follows.block, next_follows.settled, follows.breaks⟩, ?_⟩
    have count : next.totalLines - (next.line + 1) = left := by omega
    simp [tail, count]

end

end LineReader

end GcodeJob
