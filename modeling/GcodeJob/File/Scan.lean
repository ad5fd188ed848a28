import GcodeJob.File.LineEnding
import GcodeJob.Index.LineIndex

/-!
# GcodeJob.File.Scan

Indexing a file in one pass.  The scan takes the file's bytes in chunks,
counts the terminators, and after each chunk offers the start of the last
line seen to the chain of marks.  Nothing is kept of the bytes themselves,
so where the chunks end changes which lines are marked and nothing else.
-/

namespace GcodeJob

structure Scan where
  /-- Bytes taken so far. -/
  offset : Nat := 0
  /-- Terminators among them. -/
  line : Nat := 0
  /-- Whether the line being read has a byte of its own. -/
  hasContent : Bool := false
  /-- The last line to start, and where. -/
  lastStart : Mark := ⟨0, 0⟩
  ending : Option LineEnding := none
  /-- The offset of the first break byte. -/
  firstBreak : Option Nat := none
  chain : Chain := .start
  deriving DecidableEq, Repr

namespace Scan

def terminator (s : Scan) : Option UInt8 := s.ending.map LineEnding.terminator

/-- The ending once a byte has been seen.  The first break byte decides it,
and a line feed right after a first carriage return makes it the pair. -/
def endingAfter (s : Scan) (b : UInt8) : Option LineEnding :=
  match s.ending with
  | none => if isBreak b then some (.ofBreak b) else none
  | some .cr => some (if b = lineFeed ∧ s.firstBreak.map (· + 1) = some s.offset then .crlf else .cr)
  | some ending => some ending

/-- Takes one byte. -/
def byte (s : Scan) (b : UInt8) : Scan :=
  let next := { s with
    offset := s.offset + 1
    ending := s.endingAfter b
    firstBreak := s.firstBreak.or (if isBreak b then some s.offset else none) }
  match ByteRole.of s.terminator b with
  | .terminator =>
    { next with line := s.line + 1, hasContent := false, lastStart := ⟨s.line + 1, s.offset + 1⟩ }
  | .content => { next with hasContent := true }
  | .dropped => next

/-- Marks the last line to start. -/
def mark (s : Scan) : Scan := { s with chain := s.chain.push s.lastStart }

/-- Takes a chunk. -/
def chunk (s : Scan) (bytes : List UInt8) : Scan := (bytes.foldl byte s).mark

/-- A last line without terminator counts if it has a byte of its own. -/
def totalLines (s : Scan) : Nat := s.line + (if s.hasContent then 1 else 0)

/-- The index of the bytes taken. -/
def index (s : Scan) : LineIndex := .ofChain s.chain s.totalLines

end Scan

end GcodeJob
