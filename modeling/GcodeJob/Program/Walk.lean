import GcodeJob.Program.Basic

/-!
# GcodeJob.Program.Walk

Walking through the commands of a program from a line on.  Commands that are
kept are given without touching the file, up to the first line that is not;
from there the rest is read in one pass, and a line is parsed unless its
command is kept by then.
-/

namespace GcodeJob

structure Walk where
  nextLine : Nat
  totalLines : Nat
  /-- The reader, once the walk has come to the file. -/
  reader? : Option LineReader := none

namespace Walk

/-- A walk from a line on; nothing is read yet. -/
def start (p : Program) (line : Int) : Except Error Walk := do
  return { nextLine := ← p.file.checkStart line, totalLines := p.totalLines }

/-- A walk at its end. -/
def finished (w : Walk) : Walk := { w with nextLine := w.totalLines, reader? := none }

/-- What a walk gives next, and the program and the walk after it. -/
abbrev Step := Option (Except Error Issued) × Program × Walk

/-- Takes the next line from the file. -/
def nextFrom (p : Program) (w : Walk) (reader : LineReader) : Step :=
  match p.file.nextLine reader with
  | (none, reader) => (none, p.afterReading reader, w.finished)
  | (some (.error e), reader) => (some (.error e), p.afterReading reader, w.finished)
  | (some (.ok raw), reader) =>
    let p := p.afterReading reader
    let (held, p) :=
      match p.cached? w.nextLine with
      | some held => (held, p)
      | none => p.parseAndKeep w.nextLine raw
    (some (.ok held), p, { w with nextLine := w.nextLine + 1, reader? := some reader })

/-- The next command, `none` at the end.  After an error nothing follows. -/
def next (p : Program) (w : Walk) : Step :=
  if w.totalLines ≤ w.nextLine then (none, p, w)
  else
    match w.reader?, p.cached? w.nextLine with
    | some reader, _ => nextFrom p w reader
    | none, some held => (some (.ok held), p, { w with nextLine := w.nextLine + 1 })
    | none, none =>
      match p.file.linesFrom (Program.startAt w.nextLine) with
      | .ok reader => nextFrom p w reader
      | .error e => (some (.error e), p, w.finished)

/-- The next commands, at most `count`, latest first before those in `taken`. -/
def takeFrom (p : Program) (w : Walk) (taken : List (Except Error Issued)) :
    Nat → List (Except Error Issued) × Program × Walk
  | 0 => (taken.reverse, p, w)
  | count + 1 =>
    match w.next p with
    | (none, p, w) => (taken.reverse, p, w)
    | (some item, p, w) => takeFrom p w (item :: taken) count

/-- The next commands in order, at most `count`. -/
def take (p : Program) (w : Walk) (count : Nat) :
    List (Except Error Issued) × Program × Walk := takeFrom p w [] count

end Walk

end GcodeJob
