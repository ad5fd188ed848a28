/-!
# GcodeJob.Yaml.Cursor

A place in a YAML text and the characters that matter there.

A text is read from left to right.  The cursor counts the bytes of the whole
text, the lines and the columns: the columns decide the nesting, the other two
limit how far a key on one line may reach.  A column is a character, however
many bytes it takes.
-/

namespace GcodeJob.Yaml

/-! ## Characters -/

/-- The characters that a text may hold: tabs, line breaks and everything
printable. -/
def isAllowed (c : Char) : Bool :=
  c = '\t' || c = '\n' || c = '\r' || (' ' ≤ c && c ≤ '~') || c = '\x85' ||
    ('\u00a0' ≤ c && c ≠ '\ufffe' && c ≠ '\uffff')

/-- A character that ends a line. -/
def isBreak (c : Char) : Bool :=
  c = '\n' || c = '\r' || c = '\x85' || c = '\u2028' || c = '\u2029'

def isBlank (c : Char) : Bool := c = ' ' || c = '\t'

/-- A character that separates words. -/
def isGap (c : Char) : Bool := isBlank c || isBreak c

/-- A character of a name. -/
def isNameChar (c : Char) : Bool := c.isAlphanum || c = '_' || c = '-'

/-- Whether nothing follows, or a character that separates words. -/
def gapFollows : List Char → Bool
  | [] => true
  | c :: _ => isGap c

/-- How many bytes a text takes. -/
def byteCount (text : List Char) : Nat := text.foldl (fun n c => n + c.utf8Size) 0

/-! ## Cursor -/

structure Cursor where
  /-- What has not been read. -/
  rest : List Char
  /-- How many characters the whole text has; what has not been read has no
  more. -/
  size : Nat
  /-- Bytes read. -/
  offset : Nat := 0
  line : Nat := 0
  column : Nat := 0
  deriving Repr

namespace Cursor

/-- The place in front of a text. -/
def start (text : List Char) : Cursor := { rest := text, size := text.length }

/-- Steps that are enough to read what is left if each reads a character. -/
def steps (c : Cursor) : Nat := c.size + 1

/-- The character under the cursor. -/
def peek? (c : Cursor) : Option Char := c.rest.head?

/-- Whether a given character is under the cursor. -/
def sees (c : Cursor) (x : Char) : Bool := c.rest.head? == some x

/-- Moves within a line. -/
def advance (c : Cursor) (n : Nat := 1) : Cursor :=
  { c with
    rest := c.rest.drop n
    offset := c.offset + byteCount (c.rest.take n)
    column := c.column + n }

/-- Moves past a line break, if one is here, and gives the break as it counts
in a text: the separators `U+2028` and `U+2029` are kept, every other break
is a line feed. -/
def lineBreak? (c : Cursor) : Option (Char × Cursor) :=
  match c.rest with
  | '\r' :: '\n' :: rest =>
    some ('\n', { c with rest, offset := c.offset + 2, line := c.line + 1, column := 0 })
  | x :: rest =>
    if isBreak x then
      some (if x = '\u2028' || x = '\u2029' then x else '\n',
        { c with rest, offset := c.offset + x.utf8Size, line := c.line + 1, column := 0 })
    else none
  | [] => none

/-- Reads the longest run of characters of a class that holds no break. -/
def span (c : Cursor) (p : Char → Bool) : List Char × Cursor :=
  let taken := c.rest.takeWhile p
  (taken, c.advance taken.length)

/-- Moves past a byte order mark, which may stand first on every line. -/
def skipOrderMark (c : Cursor) : Cursor :=
  if c.column = 0 && c.sees '\ufeff' then c.advance else c

/-- Moves past blanks. -/
def skipBlanks (c : Cursor) : Cursor := (c.span isBlank).2

/-- Moves to the end of the line when a comment starts here. -/
def skipComment (c : Cursor) : Cursor :=
  if c.sees '#' then (c.span fun x => !isBreak x).2 else c

/-- Moves past blanks, a comment and the line break, all that may still stand
on the line. -/
def endLine? (c : Cursor) : Option Cursor :=
  let c := c.skipBlanks.skipComment
  match c.lineBreak? with
  | some (_, c) => some c
  | none => if c.rest.isEmpty then some c else none

/-- Whether a document begins or ends here: three marks alone at the start of
a line. -/
def atDocumentMark (c : Cursor) : Bool :=
  c.column = 0 && match c.rest with
    | '-' :: '-' :: '-' :: rest => gapFollows rest
    | '.' :: '.' :: '.' :: rest => gapFollows rest
    | _ => false

end Cursor

end GcodeJob.Yaml
