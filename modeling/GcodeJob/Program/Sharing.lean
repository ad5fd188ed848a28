import GcodeJob.Program.Walk

/-!
# GcodeJob.Program.Sharing

A program that many read at once.  Getting a command and walking on are made
of sections, each under one lock or none: a look at the cache, a look at the
index, the way to the line, the reading of it.  Whoever has come to the file
keeps the cursor's lock until the command it reads for is kept, a walk until
it ends or is dropped.  Between any two sections other readers, the build of
the index, whoever closes the program, and those who hold a command and write
its time may go on.
-/

namespace GcodeJob

/-! ## Readers -/

/-- What is given for a line: a command, an error, or nothing at the end. -/
abbrev Reply := Option (Except Error Issued)

/-- What a reader does next. -/
inductive ReaderPoint
  /-- Has not been asked for anything. -/
  | resting
  /-- Looks whether the command of its line is kept. -/
  | looking
  /-- Looks whether its line can be read. -/
  | admitting
  /-- Takes the cursor and goes to its line. -/
  | reaching (index : LineIndex) (start : Nat)
  /-- Reads the line. -/
  | reading
  /-- Looks once more, with the line that was read. -/
  | rechecking (raw : String)
  /-- Parses the line and keeps the command. -/
  | keeping (raw : String)
  /-- Will not be asked again. -/
  | gone
  deriving DecidableEq, Repr

/-- Who gets one command, or walks through them. -/
structure Reader where
  /-- The line whose command is next. -/
  line : Nat
  /-- Where a walk ends; `none` is for who gets one command. -/
  limit? : Option Nat
  /-- The lines of the file from here on, with the cursor's lock. -/
  lines? : Option LineReader := none
  point : ReaderPoint

namespace Reader

/-- A reader that has been asked for one command. -/
def single (line : Nat) : Reader := { line, limit? := none, point := .looking }

/-- A walk between two of its commands. -/
def ofWalk (w : Walk) : Reader where
  line := w.nextLine
  limit? := some w.totalLines
  lines? := w.reader?
  point := .resting

/-- Behind the command of its line. -/
def passed (r : Reader) : Reader :=
  match r.limit? with
  | some _ => { r with line := r.line + 1, point := .resting }
  | none => { r with lines? := none, point := .gone }

/-- Behind an error or the last line. -/
def ended (r : Reader) : Reader :=
  match r.limit? with
  | some limit => { r with line := limit, lines? := none, point := .resting }
  | none => { r with lines? := none, point := .gone }

/-- A walk that is asked for its next command, and what it gives at once. -/
def asked (r : Reader) : List Reply × Reader :=
  match r.point, r.limit? with
  | .resting, some limit =>
    if limit ≤ r.line then ([none], r)
    else ([], { r with point := if r.lines?.isSome then .reading else .looking })
  | _, _ => ([], r)

/-- A walk that is given up between two of its commands. -/
def dropped (r : Reader) : Reader :=
  match r.point with
  | .resting => { r with lines? := none, point := .gone }
  | _ => r

/-- The next section of a reader, and what it returns with.  Who needs the cursor
waits until it is `free`. -/
def advance (free : Bool) (p : Program) (r : Reader) : List Reply × Program × Reader :=
  match r.point with
  | .resting | .gone => ([], p, r)
  | .looking =>
    match p.cached? r.line with
    | some held => ([some (.ok held)], p, r.passed)
    | none => ([], p, { r with point := .admitting })
  | .admitting =>
    match p.file.placeFor (Program.startAt r.line) with
    | .ok (index, start) => ([], p, { r with point := .reaching index start })
    | .error e => ([some (.error e)], p, r.ended)
  | .reaching index start =>
    if !free then ([], p, r)
    else
      match p.file.reach index start with
      | .ok lines => ([], p, { r with lines? := some lines, point := .reading })
      | .error e => ([some (.error e)], p, r.ended)
  | .reading =>
    match r.lines? with
    | none => ([none], p, r.ended)
    | some lines =>
      match p.file.nextLine lines with
      | (none, lines) => ([none], p.afterReading lines, r.ended)
      | (some (.error e), lines) => ([some (.error e)], p.afterReading lines, r.ended)
      | (some (.ok raw), lines) =>
        let point := if r.limit?.isSome then .rechecking raw else .keeping raw
        ([], p.afterReading lines, { r with lines? := some lines, point })
  | .rechecking raw =>
    match p.cached? r.line with
    | some held => ([some (.ok held)], p, r.passed)
    | none => ([], p, { r with point := .keeping raw })
  | .keeping raw =>
    let (held, p) := p.parseAndKeep r.line raw
    ([some (.ok held)], p, r.passed)

end Reader

/-- What was given for a line, to a reader or to one who just looked. -/
structure Answer where
  reader? : Option Nat
  line : Nat
  reply : Reply

/-- What a call that closes the program does next. -/
inductive Closer
  /-- Rejects further reads. -/
  | marking
  /-- Takes the cursor and lets go of the file. -/
  | releasing
  /-- Forgets what is kept. -/
  | forgetting
  | returned
  deriving DecidableEq, Repr

/-! ## Sections -/

structure Sharing where
  program : Program
  /-- The build has found the file open, and reads a chunk once it has the cursor. -/
  building : Bool := false
  /-- Everyone who ever read. -/
  readers : Array Reader := #[]
  closers : Array Closer := #[]
  /-- What has been given, in order. -/
  answers : List Answer := []

namespace Sharing

/-- A program that nobody has read. -/
def opened (path : String) (medium : Medium) (settings : StreamSettings) : Sharing :=
  { program := .openAt path medium settings }

/-- Whether somebody has the cursor. -/
def busy (s : Sharing) : Bool := s.readers.any (·.lines?.isSome)

/-- A reader as it stands after something, and what it was given for its line. -/
def give (s : Sharing) (number line : Nat) (given : List Reply) (program : Program) (r : Reader) :
    Sharing :=
  { s with
    program
    readers := s.readers.setIfInBounds number r
    answers := s.answers ++ given.map (⟨some number, line, ·⟩) }

/-- The next section of a reader. -/
def advance (s : Sharing) (number : Nat) : Sharing :=
  match s.readers[number]? with
  | none => s
  | some r =>
    let (given, program, after) := r.advance (!s.busy) s.program
    s.give number r.line given program after

/-- Asks a walk for its next command. -/
def ask (s : Sharing) (number : Nat) : Sharing :=
  match s.readers[number]? with
  | none => s
  | some r =>
    let (given, after) := r.asked
    s.give number r.line given s.program after

/-- The next section of closing.  Who finds the program marked as closed leaves
the file to whoever marked it. -/
def advanceCloser (s : Sharing) (number : Nat) : Sharing :=
  let goTo (s : Sharing) (c : Closer) := { s with closers := s.closers.setIfInBounds number c }
  match s.closers[number]? with
  | some .marking =>
    if s.program.file.closed then goTo s .forgetting
    else goTo { s with program := { s.program with file := s.program.file.markClosed } } .releasing
  | some .releasing =>
    if s.busy then s
    else goTo { s with program := { s.program with file := s.program.file.release } } .forgetting
  | some .forgetting => goTo { s with program := s.program.forget } .returned
  | some .returned | none => s

/-- The next section of the build. -/
def build (s : Sharing) : Sharing :=
  match s.program.file.phase with
  | .scanning _ none =>
    if !s.building then { s with building := !s.program.file.closed }
    else if s.busy then s
    else
      { s with
        program := { s.program with file := s.program.file.readFoundOpen }
        building := false }
  | _ => { s with program := { s.program with file := s.program.file.takeChunk } }

/-! ## Courses -/

inductive Event
  /-- Somebody looks for a kept command. -/
  | look (line : Nat)
  /-- Somebody gets a command. -/
  | get (line : Nat)
  /-- Somebody begins a walk. -/
  | begin (start : Int)
  | ask (reader : Nat)
  | drop (reader : Nat)
  | advance (reader : Nat)
  | setCapacity (capacity : Nat)
  /-- Somebody who holds a command writes its time. -/
  | record (held : Issued) (ms : Int)
  /-- Somebody closes the program. -/
  | close
  | advanceCloser (closer : Nat)
  | build
  /-- The file is rewritten in place. -/
  | rewrite (content : ByteArray)
  /-- The disk fails behind some bytes of the file. -/
  | damage (kept : Nat)

def step (s : Sharing) : Event → Sharing
  | .look line =>
    { s with answers := s.answers ++ [⟨none, line, (s.program.cached? line).map .ok⟩] }
  | .get line => { s with readers := s.readers.push (.single line) }
  | .begin start =>
    match Walk.start s.program start with
    | .ok walk => { s with readers := s.readers.push (.ofWalk walk) }
    | .error _ => s
  | .ask reader => s.ask reader
  | .drop reader => { s with readers := s.readers.modify reader .dropped }
  | .advance reader => s.advance reader
  | .setCapacity capacity => { s with program := s.program.setCacheCapacity capacity }
  | .record held ms => { s with program := s.program.recordTime held ms }
  | .close => { s with closers := s.closers.push .marking }
  | .advanceCloser closer => s.advanceCloser closer
  | .build => s.build
  | .rewrite content => { s with program := s.program.replaceContent content }
  | .damage kept => { s with program := s.program.damage kept }

def run (s : Sharing) (events : List Event) : Sharing := events.foldl step s

end Sharing

end GcodeJob
