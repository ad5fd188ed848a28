import GcodeJob.File.LineEnding
import GcodeJob.File.Medium
import GcodeJob.Text.Utf8

/-!
# GcodeJob.File.LineReader

Reading lines one after the other from a known line start.  Bytes come in
blocks; a block once read is used up even if the file is replaced
meanwhile.  The reader counts the lines it passes, both those it skips and
those it gives, and stops at the number of lines the index has.
-/

namespace GcodeJob

structure LineReader where
  terminator : Option UInt8
  /-- File offset of the next byte to use. -/
  offset : Nat
  /-- The block read last. -/
  block : ByteArray := .empty
  /-- Bytes of the block used so far. -/
  used : Nat := 0
  /-- Where the last read left the file cursor. -/
  cursor : Nat
  /-- Index of the line that comes next. -/
  line : Nat
  totalLines : Nat
  /-- The end of the file has been met. -/
  done : Bool := false

namespace LineReader

/-- Bytes asked for in one read. -/
def blockSize : Nat := 65536

/-- The bytes still to come: those left of the block and those in the file
beyond it. -/
def remaining (file : RegularFile) (r : LineReader) : Nat :=
  let left := r.block.size - r.used
  left + (file.bytes.size - (r.offset + left))

/-- Reads the next block if there is nothing left of the last one. -/
def refill (file : RegularFile) (r : LineReader) : LineReader :=
  if r.used < r.block.size then r
  else
    let block := file.read r.offset blockSize
    { r with block, used := 0, cursor := r.offset + block.size }

/-- Uses one byte, reading a block if need be; none at the end of the file. -/
def nextByte (file : RegularFile) (r : LineReader) : Option UInt8 × LineReader :=
  let r := r.refill file
  if h : r.used < r.block.size then
    let b := r.block[r.used]
    (some b,
      { r with used := r.used + 1, offset := r.offset + 1, terminator := settle r.terminator b })
  else (none, r)

theorem remaining_refill (file : RegularFile) (r : LineReader) :
    (r.refill file).remaining file = r.remaining file := by
  unfold refill
  split
  · rfl
  · simp only [remaining, RegularFile.size_read]
    omega

/-- Every byte used is one fewer to come. -/
theorem remaining_nextByte {file : RegularFile} {r r' : LineReader} {b : UInt8}
    (h : r.nextByte file = (some b, r')) : r'.remaining file < r.remaining file := by
  rw [← remaining_refill file r]
  unfold nextByte at h
  dsimp only at h
  split at h
  · obtain ⟨-, rfl⟩ := Prod.mk.inj h
    simp only [remaining]
    omega
  · simp at h

/-! ## Passing over lines -/

/-- Where passing over bytes of a block ends: the bytes used, the line that
comes next, and the terminator.  It ends in front of line `target` or behind
the block. -/
def passBytes (block : ByteArray) (target used line : Nat) (terminator : Option UInt8) :
    Nat × Nat × Option UInt8 :=
  if h : line < target ∧ used < block.size then
    let b := block[used]
    let passed := if ByteRole.of terminator b = .terminator then 1 else 0
    passBytes block target (used + 1) (line + passed) (settle terminator b)
  else (used, line, terminator)
termination_by block.size - used

theorem le_passBytes (block : ByteArray) (target used line : Nat) (terminator : Option UInt8) :
    used ≤ (passBytes block target used line terminator).1 := by
  fun_induction passBytes with
  | case1 used _ _ _ _ _ ih => exact Nat.le_of_succ_le ih
  | case2 => exact Nat.le_refl _

/-- Passes over bytes left of the block until the line of index `target`
comes next. -/
def passBlock (target : Nat) (r : LineReader) : LineReader :=
  let (used, line, terminator) := passBytes r.block target r.used r.line r.terminator
  { r with used, line, terminator, offset := r.offset + (used - r.used) }

theorem remaining_passBlock {file : RegularFile} {target : Nat} {r : LineReader}
    (line : r.line < target) (used : r.used < r.block.size) :
    (r.passBlock target).remaining file < r.remaining file := by
  have fewer : r.used < (passBytes r.block target r.used r.line r.terminator).1 := by
    rw [passBytes, dif_pos ⟨line, used⟩]
    exact le_passBytes ..
  simp only [passBlock, remaining]
  omega

/-- Passes over lines until the one of index `target` comes next, or the file ends. -/
def skipTo (file : RegularFile) (target : Nat) (r : LineReader) : LineReader :=
  if r.line < target then
    let full := r.refill file
    if full.used < full.block.size then skipTo file target (full.passBlock target) else full
  else r
termination_by r.remaining file
decreasing_by
  rw [← remaining_refill file r]
  refine remaining_passBlock ?_ ‹_›
  unfold refill
  split <;> assumption

theorem skipTo_of_le {file : RegularFile} {target : Nat} {r : LineReader} (h : target ≤ r.line) :
    r.skipTo file target = r := by
  rw [skipTo, if_neg (by omega)]

/-- Behind its last byte a file has no more lines to pass over. -/
theorem skipTo_of_nextByte_none {file : RegularFile} {target : Nat} {r next : LineReader}
    (before : r.line < target) (h : r.nextByte file = (none, next)) :
    r.skipTo file target = next := by
  unfold nextByte at h
  dsimp only at h
  split at h
  · simp at h
  · obtain ⟨-, rfl⟩ := Prod.mk.inj h
    rw [skipTo, if_pos before, if_neg ‹_›]

/-- The byte of the block that comes next, passed over. -/
def passByte (r : LineReader) (b : UInt8) : LineReader :=
  { r with
    used := r.used + 1
    offset := r.offset + 1
    line := r.line + (if ByteRole.of r.terminator b = .terminator then 1 else 0)
    terminator := settle r.terminator b }

theorem passBlock_eq_self {target : Nat} {r : LineReader}
    (h : ¬(r.line < target ∧ r.used < r.block.size)) : r.passBlock target = r := by
  rw [passBlock, passBytes, dif_neg h]
  simp

theorem passBlock_passByte {target : Nat} {r : LineReader} (line : r.line < target)
    (used : r.used < r.block.size) :
    (r.passByte r.block[r.used]).passBlock target = r.passBlock target := by
  have fewer := le_passBytes r.block target (r.used + 1)
    (r.line + if ByteRole.of r.terminator r.block[r.used] = .terminator then 1 else 0)
    (settle r.terminator r.block[r.used])
  conv => rhs; rw [passBlock, passBytes, dif_pos ⟨line, used⟩]
  simp only [passBlock, passByte, LineReader.mk.injEq, true_and, and_true]
  omega

/-- Passing over bytes of the block does not change where the skip ends. -/
theorem skipTo_passBlock (file : RegularFile) (target : Nat) (r : LineReader) :
    (r.passBlock target).skipTo file target = r.skipTo file target := by
  by_cases h : r.line < target ∧ r.used < r.block.size
  · conv => rhs; rw [skipTo, if_pos h.1, refill, if_pos h.2]
    rw [if_pos h.2]
  · rw [passBlock_eq_self h]

/-- Lines are passed over byte by byte. -/
theorem skipTo_of_nextByte {file : RegularFile} {target : Nat} {r next : LineReader} {b : UInt8}
    (before : r.line < target) (h : r.nextByte file = (some b, next)) :
    r.skipTo file target = ((r.refill file).passByte b).skipTo file target := by
  have line : (r.refill file).line < target := by unfold refill; split <;> exact before
  unfold nextByte at h
  dsimp only at h
  split at h
  case isFalse => simp at h
  case isTrue left =>
    obtain ⟨byte, -⟩ := Prod.mk.inj h
    cases byte
    rw [skipTo, if_pos before, if_pos left, ← passBlock_passByte line left, skipTo_passBlock]

/-! ## Reading lines -/

/-- How a line's bytes came to an end. -/
inductive LineEnd
  | terminated
  | fileEnded
  deriving DecidableEq, Repr

/-- Reads the bytes of a line after those in `text`, which is latest first. -/
def readBytes (file : RegularFile) (text : List UInt8) (r : LineReader) :
    List UInt8 × LineEnd × LineReader :=
  match _ : r.nextByte file with
  | (none, next) => (text.reverse, .fileEnded, next)
  | (some b, next) =>
    match ByteRole.of r.terminator b with
    | .terminator => (text.reverse, .terminated, next)
    | .content => readBytes file (b :: text) next
    | .dropped => readBytes file text next
termination_by r.remaining file
decreasing_by all_goals exact remaining_nextByte ‹r.nextByte file = _›

/-- The next line.  A rest of the file without a byte of its own is no line. -/
def next (file : RegularFile) (r : LineReader) : Option String × LineReader :=
  if r.done || decide (r.totalLines ≤ r.line) then (none, r)
  else
    let (bytes, ended, after) := r.readBytes file []
    let after := { after with done := ended == .fileEnded }
    if bytes.isEmpty && after.done then (none, after)
    else (some (.ofList (Utf8.decode bytes)), { after with line := after.line + 1 })

end LineReader

end GcodeJob
