import GcodeJob.Cache
import GcodeJob.Command.Parse
import GcodeJob.File.IndexedFile

/-!
# GcodeJob.Program.Basic

A program: a file of commands, parsed line by line as they are asked for.
The commands parsed last are kept, so reading a region again touches neither
the file nor the parser, and gives the very command that was issued before.
-/

namespace GcodeJob

structure Program where
  file : IndexedFile
  cache : Cache
  sheet : Timesheet := .empty

namespace Program

/-! ## Opening and closing -/

/-- Opens a program; its index is not built yet. -/
def openAt (path : String) (medium : Medium) (settings : StreamSettings) : Program where
  file := .openAt path medium settings.chunkSize
  cache := .empty settings.cacheCapacity

/-- Opens a program and lets its index be built. -/
def openBuilt (path : String) (medium : Medium) (settings : StreamSettings) : Program :=
  let p := openAt path medium settings
  { p with file := p.file.build }

def state (p : Program) : IndexState := p.file.state

def totalLines (p : Program) : Nat := p.file.totalLines

/-- Forgets the commands that are kept. -/
def forget (p : Program) : Program := { p with cache := p.cache.clear }

/-- Rejects further reads, lets go of the file, and forgets what was kept. -/
def close (p : Program) : Program :=
  if p.file.closed then p.forget else { p with file := p.file.markClosed.release }.forget

/-- Replaces the content of the file in place; index and cache stay. -/
def replaceContent (p : Program) (content : ByteArray) : Program :=
  { p with file := p.file.replaceContent content }

/-- The disk fails behind the first `kept` bytes of the file; index and cache stay. -/
def damage (p : Program) (kept : Nat) : Program := { p with file := p.file.damage kept }

/-! ## The cache -/

/-- The command kept for a line; the file is not touched. -/
def cached? (p : Program) (line : Nat) : Option Issued := p.cache.get? line

def setCacheCapacity (p : Program) (capacity : Nat) : Program :=
  { p with cache := p.cache.setCapacity capacity }

/-- Parses a line and keeps the command, unless one is kept for the line
already, which is then the one to use. -/
def parseAndKeep (p : Program) (line : Nat) (raw : String) : Issued × Program :=
  let (issued, sheet) := p.sheet.issue (.parse line raw)
  let (held, cache) := p.cache.insert issued
  (held, { p with cache, sheet })

/-! ## Execution times -/

def time (p : Program) (i : Issued) : Int := p.sheet.time i

def recordTime (p : Program) (i : Issued) (ms : Int) : Program :=
  { p with sheet := p.sheet.record i ms }

/-! ## Reading -/

/-- The program after a reader has read on. -/
def afterReading (p : Program) (r : LineReader) : Program :=
  { p with file := p.file.afterReading r }

/-- A line index as a place to start reading.  Places are 63-bit; beyond
them the last stands for all, which no file reaches. -/
def startAt (line : Nat) : Int := min line Word.highest

/-- The command on a line, `none` at the end of the program. -/
def getCommand (p : Program) (line : Nat) : Except Error (Option Issued) × Program :=
  match p.cached? line with
  | some held => (.ok (some held), p)
  | none =>
    match p.file.linesFrom (startAt line) with
    | .error e => (.error e, p)
    | .ok reader =>
      match p.file.nextLine reader with
      | (none, reader) => (.ok none, p.afterReading reader)
      | (some (.error e), reader) => (.error e, p.afterReading reader)
      | (some (.ok raw), reader) =>
        let (held, p) := (p.afterReading reader).parseAndKeep line raw
        (.ok (some held), p)

end Program

end GcodeJob
