/-!
# GcodeJob.Index.Chain

The line starts that a scan of a file remembers.  A file of any size is
scanned chunk by chunk, and for each chunk the start of its last line is
offered to the chain; an offer that repeats a line is dropped, so the lines
of a chain strictly increase.
-/

namespace GcodeJob

/-- A line and the byte offset where it starts. -/
structure Mark where
  line : Nat
  offset : Nat
  deriving DecidableEq, Repr

/-- The marks of a scan in the order they were made. -/
structure Chain where
  marks : Array Mark
  deriving DecidableEq, Repr

namespace Chain

/-- Every file has its first line at its first byte. -/
def start : Chain := ⟨#[⟨0, 0⟩]⟩

/-- The line of the last mark. -/
def lastLine (c : Chain) : Nat := (c.marks.back?.map Mark.line).getD 0

/-- Whether a mark is one the chain takes: its line is beyond all before. -/
def accepts (c : Chain) (m : Mark) : Bool := decide (c.lastLine < m.line)

/-- Appends a mark unless its line is there already.  A line longer than a
chunk is offered once per chunk and kept once. -/
def push (c : Chain) (m : Mark) : Chain := if c.accepts m then ⟨c.marks.push m⟩ else c

/-- Appends marks in order. -/
def pushAll (c : Chain) (marks : List Mark) : Chain := marks.foldl push c

def length (c : Chain) : Nat := c.marks.size

def toList (c : Chain) : List Mark := c.marks.toList

@[simp] theorem toList_start : start.toList = [⟨0, 0⟩] := rfl

theorem toList_push (c : Chain) (m : Mark) :
    (c.push m).toList = if c.accepts m then c.toList ++ [m] else c.toList := by
  unfold push toList
  split <;> simp

end Chain

end GcodeJob
