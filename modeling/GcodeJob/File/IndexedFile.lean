import GcodeJob.File.LineReader
import GcodeJob.File.Scan
import GcodeJob.Number.Single

/-!
# GcodeJob.File.IndexedFile

A file whose lines can be reached in any order.  Opening it never reads:
the index is built beside, chunk by chunk, and until it is installed no line
can be read.  A build that fails has failed for good, and a closed file
stays closed whatever its build comes to.
-/

namespace GcodeJob

/-- How far the index of a file has got. -/
inductive IndexPhase
  /-- The scan goes on; a chunk may have been read and not yet taken. -/
  | scanning (scan : Scan) (chunk? : Option (List UInt8))
  | built (index : LineIndex) (ending : Option LineEnding)
  | failed (error : Error)
  deriving DecidableEq, Repr

/-- The state of an index as others see it. -/
inductive IndexState
  | building
  | built
  | failed
  | closed
  deriving DecidableEq, Repr

structure IndexedFile where
  path : String
  medium : Medium
  /-- Size in bytes when the file was opened. -/
  size : Nat
  /-- Bytes in a chunk, at least one.  Nothing keeps it from being more than there can be. -/
  chunkSize : Nat
  phase : IndexPhase
  chunksDone : Nat := 0
  /-- Closing has begun: nobody may start to read. -/
  closed : Bool := false
  /-- Closing has let go of the file: nobody can read. -/
  released : Bool := false
  /-- The file cursor, as the last read left it. -/
  cursor : Nat := 0

namespace IndexedFile

/-! ## Opening and closing -/

/-- Opens a file.  One that cannot be opened has a failed index. -/
def openAt (path : String) (medium : Medium) (chunkSize : Nat) : IndexedFile :=
  match medium.openSize with
  | .ok size =>
    { path, medium, size, chunkSize := max chunkSize 1, phase := .scanning {} none }
  | .error fault =>
    { path, medium, size := 0, chunkSize := max chunkSize 1, released := true
      phase := .failed (.unreadable "G-code" path fault) }

/-- From now on the file counts as closed. -/
def markClosed (f : IndexedFile) : IndexedFile := { f with closed := true }

/-- Lets go of the file. -/
def release (f : IndexedFile) : IndexedFile := { f with released := true }

/-! ## Looking at the index -/

def state (f : IndexedFile) : IndexState :=
  if f.closed then .closed
  else
    match f.phase with
    | .scanning .. => .building
    | .built .. => .built
    | .failed _ => .failed

def index? (f : IndexedFile) : Option LineIndex :=
  match f.phase with
  | .built index _ => some index
  | _ => none

def ending? (f : IndexedFile) : Option LineEnding :=
  match f.phase with
  | .built _ ending => ending
  | _ => none

/-- Why opening or indexing failed, if it did. -/
def failure? (f : IndexedFile) : Option Error :=
  match f.phase with
  | .failed error => some error
  | _ => none

/-- The number of lines, zero until the index is built. -/
def totalLines (f : IndexedFile) : Nat := (f.index?.map LineIndex.totalLines).getD 0

/-- The number of chunks the file was expected to have. -/
def totalChunks (f : IndexedFile) : Nat := (f.size + f.chunkSize - 1) / f.chunkSize

/-- The share of chunks scanned so far. -/
def progress (f : IndexedFile) : Single :=
  if f.index?.isSome then .one
  else if f.totalChunks = 0 then .zero
  else (Single.ofCounts f.chunksDone f.totalChunks).min .one

/-- The place of the file cursor, zero when there is none. -/
def position (f : IndexedFile) : Nat := if f.released then 0 else f.cursor

/-! ## Building the index -/

/-- Whether there can be a buffer for a chunk: its bytes are counted in a signed word. -/
def hasBuffer (f : IndexedFile) : Bool := decide ((f.chunkSize : Int) ≤ Word.highest)

/-- Reads the next chunk, unless one is waiting to be taken or the file has
been closed.  A build that can have no buffer is over before it has read, and
its index stays as it was begun. -/
def readChunk (f : IndexedFile) : IndexedFile :=
  match f.phase with
  | .scanning scan none =>
    if f.closed || f.released || !f.hasBuffer then f
    else
      match f.medium.read scan.offset f.chunkSize with
      | .ok bytes =>
        { f with phase := .scanning scan (some bytes), cursor := scan.offset + bytes.length }
      | .error fault => { f with phase := .failed (.indexFailed f.path fault.message) }
  | _ => f

/-- Reads the next chunk for a build that has found the file open before. -/
def readFoundOpen (f : IndexedFile) : IndexedFile :=
  { { f with closed := false }.readChunk with closed := f.closed }

/-- Takes the chunk that was read.  An empty one is the end of the file and
installs the index. -/
def takeChunk (f : IndexedFile) : IndexedFile :=
  match f.phase with
  | .scanning scan (some []) => { f with phase := .built scan.index scan.ending }
  | .scanning scan (some bytes) =>
    { f with phase := .scanning (scan.chunk bytes) none, chunksDone := f.chunksDone + 1 }
  | _ => f

/-- One round of the build. -/
def buildStep (f : IndexedFile) : IndexedFile := f.readChunk.takeChunk

/-- Rounds of the build, one after the other. -/
def buildRounds : Nat → IndexedFile → IndexedFile
  | 0, f => f
  | n + 1, f => buildRounds n f.buildStep

/-- The build of a file that keeps its size: a round for each chunk, and one
that finds the end. -/
def build (f : IndexedFile) : IndexedFile := buildRounds (f.totalChunks + 1) f

/-! ## Reading lines -/

/-- The index to read by, or why there is none. -/
def readable (f : IndexedFile) : Except Error LineIndex :=
  if f.closed then .error (.streamClosed f.path)
  else
    match f.phase with
    | .scanning .. => .error (.indexNotBuilt f.path)
    | .built index _ => .ok index
    | .failed error => .error (.indexFailed f.path error.message)

/-- A line to start at.  The number of lines itself is one: nothing follows. -/
def startInRange (start : Int) (totalLines : Nat) : Except Error Nat :=
  if 0 ≤ start ∧ start ≤ totalLines then .ok start.toNat
  else .error (.lineOutOfRange start totalLines)

/-- Whether reading could start at a line; nothing is read. -/
def checkStart (f : IndexedFile) (start : Int) : Except Error Nat := do
  startInRange start (← f.readable).totalLines

/-- A reader that stands at the marked line before `start`. -/
def readerAt (f : IndexedFile) (index : LineIndex) (start : Nat) : LineReader :=
  let mark := index.floor start
  { terminator := f.ending?.map LineEnding.terminator
    offset := mark.offset
    cursor := f.cursor
    line := mark.line
    totalLines := index.totalLines }

/-- The index to read by and the line to start at; the file is not touched. -/
def placeFor (f : IndexedFile) (start : Int) : Except Error (LineIndex × Nat) := do
  let index ← f.readable
  return (index, ← startInRange start index.totalLines)

/-- Goes to a line that reading may start at, unless the file cannot be read up to there. -/
def reach (f : IndexedFile) (index : LineIndex) (start : Nat) : Except Error LineReader :=
  if f.released then .error (.streamClosed f.path)
  else
    let r := (f.readerAt index start).skipTo f.medium.source start
    match f.medium.fault? with
    | none => .ok r
    | some fault =>
      if r.line < start then .error (.unreadable "G-code" f.path fault) else .ok r

/-- A reader whose next line is `start`.  Reading starts in two steps, and only
the second takes the cursor. -/
def linesFrom (f : IndexedFile) (start : Int) : Except Error LineReader := do
  let (index, line) ← f.placeFor start
  f.reach index line

/-- The next line of a reader of this file.  Where the file ends there is none;
where its bytes cannot be read there is an error, and then nothing more. -/
def nextLine (f : IndexedFile) (r : LineReader) : Option (Except Error String) × LineReader :=
  let (line?, after) := r.next f.medium.source
  match f.medium.fault? with
  | none => (line?.map .ok, after)
  | some fault =>
    if after.done && !r.done then
      (some (.error (.unreadable "G-code" f.path fault)), { after with line := r.line })
    else (line?.map .ok, after)

/-- The next lines of a reader of this file, at most `count`, after those in `taken`, which is
latest first. -/
def takeLinesFrom (f : IndexedFile) (taken : List String) (r : LineReader) :
    Nat → List String × LineReader
  | 0 => (taken.reverse, r)
  | count + 1 =>
    match f.nextLine r with
    | (some (.ok line), r) => takeLinesFrom f (line :: taken) r count
    | (_, r) => (taken.reverse, r)

/-- The next lines of a reader of this file in order, at most `count`. -/
def takeLines (f : IndexedFile) (r : LineReader) (count : Nat) : List String × LineReader :=
  f.takeLinesFrom [] r count

/-- The file after a reader has used it: the cursor stays where it was left. -/
def afterReading (f : IndexedFile) (r : LineReader) : IndexedFile := { f with cursor := r.cursor }

/-- Replaces the content of the file; the index stays as it is. -/
def replaceContent (f : IndexedFile) (content : ByteArray) : IndexedFile :=
  { f with medium := .regular content }

/-- The disk fails behind the first `kept` bytes of the file; the index stays as it is. -/
def damage (f : IndexedFile) (kept : Nat) : IndexedFile :=
  { f with medium := f.medium.damage kept }

end IndexedFile

end GcodeJob
