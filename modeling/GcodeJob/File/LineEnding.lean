/-!
# GcodeJob.File.LineEnding

Line terminators.  The first break byte of a file, carriage return or line
feed, is its terminator and ends a line wherever it occurs; the other break
byte is dropped wherever it occurs.  So a line's text never holds a break
byte, and a file with the pair as its ending is one terminated by the
carriage return alone.
-/

namespace GcodeJob

def lineFeed : UInt8 := 10

def carriageReturn : UInt8 := 13

def isBreak (b : UInt8) : Bool := b == lineFeed || b == carriageReturn

/-- The convention of a file: one break byte, or the pair. -/
inductive LineEnding
  | lf
  | cr
  | crlf
  deriving DecidableEq, Repr

namespace LineEnding

def name : LineEnding → String
  | .lf => "LF"
  | .cr => "CR"
  | .crlf => "CRLF"

/-- The byte that ends a line. -/
def terminator : LineEnding → UInt8
  | .lf => lineFeed
  | .cr | .crlf => carriageReturn

/-- The convention that a break byte by itself stands for. -/
def ofBreak (b : UInt8) : LineEnding := if b = lineFeed then .lf else .cr

end LineEnding

/-- What a byte is to the line it stands in. -/
inductive ByteRole
  | content
  | terminator
  | dropped
  deriving DecidableEq, Repr

/-- The terminator once a byte has been seen: the first break byte settles it. -/
def settle (terminator : Option UInt8) (b : UInt8) : Option UInt8 :=
  if isBreak b then terminator.or (some b) else terminator

/-- The role of a byte, where `terminator` is what the bytes before settled. -/
def ByteRole.of (terminator : Option UInt8) (b : UInt8) : ByteRole :=
  if isBreak b then (if settle terminator b = some b then .terminator else .dropped) else .content

end GcodeJob
