import GcodeJob.Yaml.Tag

/-!
# GcodeJob.Yaml.Layout

The tokens of a YAML text.

Outside flow collections nesting is written by indentation, so the beginning
and the end of a block are tokens without characters of their own.  A block
ends when a line starts further left.  A mapping begins at its first key, and
that a scalar is a key shows only at the colon behind it: until then its place
in front of the scalar is remembered, and the tokens are put in there later.
-/

namespace GcodeJob.Yaml

inductive Token
  | directive (d : Directive)
  | documentStart
  | documentEnd
  | streamEnd
  | blockSequence
  | blockMapping
  | blockEnd
  | flowSequence
  | flowSequenceEnd
  | flowMapping
  | flowMappingEnd
  | entry
  | comma
  | key
  | value
  | anchor (name : String)
  | aliasOf (name : String)
  | tag (t : Tag)
  | scalar (style : Style) (text : String)
  deriving DecidableEq, Repr

/-- The place of something that may turn out to be a key. -/
structure PossibleKey where
  /-- How many tokens stand in front of it. -/
  token : Nat
  /-- A line of a block mapping can hold nothing but a key here. -/
  isRequired : Bool
  offset : Nat
  line : Nat
  column : Nat
  deriving Repr

/-- A text while it is cut into tokens. -/
structure Layout where
  cursor : Cursor
  tokens : Array Token := #[]
  /-- The column of the innermost block, `-1` outside all. -/
  indent : Int := -1
  /-- The columns of the blocks around it. -/
  outer : List Int := []
  /-- Whether a key without a mark may start here. -/
  keyAllowed : Bool := true
  /-- The possible key of the block context. -/
  blockKey? : Option PossibleKey := none
  /-- The possible key of each open flow collection, the innermost first. -/
  flowKeys : List (Option PossibleKey) := []

namespace Layout

def inFlow (s : Layout) : Bool := !s.flowKeys.isEmpty

def emit (s : Layout) (t : Token) : Layout := { s with tokens := s.tokens.push t }

/-- Puts a token in front of the token with a number. -/
def insert (s : Layout) (n : Nat) (t : Token) : Layout :=
  { s with tokens := s.tokens.insertIdxIfInBounds n t }

def allowKey (s : Layout) (allowed : Bool) : Layout := { s with keyAllowed := allowed }

/-- Moves past one character. -/
def skip (s : Layout) (n : Nat := 1) : Layout := { s with cursor := s.cursor.advance n }

/-! ## Possible keys -/

/-- The possible key of the innermost context. -/
def key? (s : Layout) : Option PossibleKey := s.flowKeys.headD s.blockKey?

def setKey (s : Layout) (k : Option PossibleKey) : Layout :=
  match s.flowKeys with
  | [] => { s with blockKey? := k }
  | _ :: rest => { s with flowKeys := k :: rest }

/-- Gives up the possible key.  One that had to be a key is an error. -/
def dropKey (s : Layout) : Option Layout :=
  if s.key?.any PossibleKey.isRequired then none else some (s.setKey none)

/-- Remembers that a key may start here. -/
def saveKey (s : Layout) : Option Layout :=
  if s.keyAllowed then
    s.dropKey.map fun s => s.setKey (some
      { token := s.tokens.size, isRequired := !s.inFlow && s.indent = s.cursor.column
        offset := s.cursor.offset, line := s.cursor.line, column := s.cursor.column })
  else some s

/-- Whether a key has to end before the cursor: it lies on one line and is not
longer than 1024 bytes. -/
def isStale (c : Cursor) (k : PossibleKey) : Bool := k.line < c.line || k.offset + 1024 < c.offset

/-- Whether a possible key, if there is one, should have ended. -/
def hasStale (c : Cursor) (k? : Option PossibleKey) : Bool := k?.any (isStale c)

/-- Gives up the possible key of the innermost context if it should have ended.
One of the block context that had to be a key is an error inside a flow
collection as well; the other ones are looked at when their collection is the
innermost again. -/
def dropStale (s : Layout) : Option Layout :=
  if hasStale s.cursor s.blockKey? && s.blockKey?.any PossibleKey.isRequired then none
  else if hasStale s.cursor s.key? then some (s.setKey none)
  else some s

/-! ## Indentation -/

/-- Ends blocks from the innermost on, `outer` being the columns around them,
as long as they lie right of a column. -/
def unrollTo (column : Int) : List Int → Layout → Layout
  | [], s => s
  | next :: outer, s =>
    if s.indent ≤ column then s
    else unrollTo column outer { s.emit .blockEnd with indent := next, outer }

/-- Ends the blocks that lie right of a column. -/
def unroll (s : Layout) (column : Int) : Layout :=
  if s.inFlow then s else unrollTo column s.outer s

/-- Begins a block at a column right of the innermost one. -/
def roll (s : Layout) (column : Nat) (number : Nat) (t : Token) : Layout :=
  if s.inFlow || (column : Int) ≤ s.indent then s
  else
    let outer := s.indent :: s.outer
    { s.insert number t with indent := column, outer }

/-- Begins a block at the cursor, where a mark of its own shows it. -/
def rollHere (s : Layout) (t : Token) : Option Layout :=
  if s.inFlow then some s
  else if s.keyAllowed then some (s.roll s.cursor.column s.tokens.size t)
  else none

/-! ## Tokens -/

/-- Moves to the next token over white space and comments.  A byte order mark
may stand first on each line.  Where a key may start, a tab is no indentation. -/
def toToken : Nat → Layout → Layout
  | 0, s => s
  | fuel + 1, s =>
    let blanksToo := s.inFlow || !s.keyAllowed
    let c := (s.cursor.skipOrderMark.span fun x => x = ' ' || (x = '\t' && blanksToo)).2
    let c := c.skipComment
    match c.lineBreak? with
    | some (_, c) => toToken fuel { s with cursor := c, keyAllowed := s.keyAllowed || !s.inFlow }
    | none => { s with cursor := c }

/-- Ends all blocks, in front of what belongs to no document. -/
def leaveDocument (s : Layout) : Option Layout :=
  (s.unroll (-1)).dropKey.map (·.allowKey false)

def openFlow (s : Layout) (t : Token) : Option Layout :=
  s.saveKey.map fun s => ({ s with flowKeys := none :: s.flowKeys }.allowKey true).skip.emit t

def closeFlow (s : Layout) (t : Token) : Option Layout :=
  s.dropKey.map fun s => ({ s with flowKeys := s.flowKeys.drop 1 }.allowKey false).skip.emit t

/-- The mark of an entry of a block sequence. -/
def readEntry (s : Layout) : Option Layout :=
  ((s.rollHere .blockSequence).bind dropKey).map fun s => (s.allowKey true).skip.emit .entry

/-- The mark of a key. -/
def readKey (s : Layout) : Option Layout :=
  ((s.rollHere .blockMapping).bind dropKey).map fun s => (s.allowKey !s.inFlow).skip.emit .key

/-- The mark of a value.  What stood in front of it on the line is its key. -/
def readValue (s : Layout) : Option Layout :=
  match s.key? with
  | some k =>
    let s := ((s.insert k.token .key).roll k.column k.token .blockMapping).setKey none
    some ((s.allowKey false).skip.emit .value)
  | none => (s.rollHere .blockMapping).map fun s => (s.allowKey !s.inFlow).skip.emit .value

/-- What may be a key or the beginning of one. -/
def readNode (s : Layout) (read : Cursor → Option (Token × Cursor)) : Option Layout := do
  let s ← s.saveKey
  let (t, c) ← read s.cursor
  return ({ s with cursor := c }.allowKey false).emit t

/-- A plain scalar.  When its last line was left, the next one may start a key. -/
def readPlainScalar (s : Layout) : Option Layout := do
  let s ← s.saveKey
  let (text, leftLine, c) ←
    readPlain s.inFlow (s.indent + 1).toNat s.cursor.steps #[] {} s.cursor
  return ({ s with cursor := c }.allowKey leftLine).emit (.scalar .plain (.ofList text.toList))

/-- A block scalar, which is no key. -/
def readBlockScalar (s : Layout) (isLiteral : Bool) : Option Layout := do
  let s ← s.dropKey
  let (text, c) ← readBlock isLiteral s.indent s.cursor.advance
  return ({ s with cursor := c }.allowKey true).emit
    (.scalar (if isLiteral then .literal else .folded) (.ofList text.toList))

/-- Whether a plain scalar may start with a character, given what follows it. -/
def startsPlain (inFlow : Bool) (x : Char) (rest : List Char) : Bool :=
  if x = '-' then !rest.head?.any isBlank
  else if x = '?' || x = ':' then !inFlow && !gapFollows rest
  else !isGap x && !(",[]\x7b\x7d#&*!|>'\"%@\x60".toList.contains x)

/-- Reads the token that starts with a character at the cursor. -/
def readToken (s : Layout) (x : Char) (rest : List Char) : Option Layout :=
  let atMark := s.cursor.atDocumentMark
  let inFlow := s.inFlow
  if s.cursor.column = 0 && x = '%' then do
    let s ← s.leaveDocument
    let (d, c) ← readDirective s.cursor
    return { s with cursor := c }.emit (.directive d)
  else if atMark && x = '-' then s.leaveDocument.map fun s => (s.skip 3).emit .documentStart
  else if atMark then s.leaveDocument.map fun s => (s.skip 3).emit .documentEnd
  else if x = '[' then s.openFlow .flowSequence
  else if x = '\x7b' then s.openFlow .flowMapping
  else if x = ']' then s.closeFlow .flowSequenceEnd
  else if x = '\x7d' then s.closeFlow .flowMappingEnd
  else if x = ',' then s.dropKey.map fun s => (s.allowKey true).skip.emit .comma
  else if x = '-' && gapFollows rest then s.readEntry
  else if x = '?' && (inFlow || gapFollows rest) then s.readKey
  else if x = ':' && (inFlow || gapFollows rest) then s.readValue
  else if x = '*' then s.readNode fun c => (readAnchor c).map fun (name, c) => (.aliasOf name, c)
  else if x = '&' then s.readNode fun c => (readAnchor c).map fun (name, c) => (.anchor name, c)
  else if x = '!' then s.readNode fun c => (readTag inFlow c).map fun (t, c) => (.tag t, c)
  else if x = '|' && !inFlow then s.readBlockScalar true
  else if x = '>' && !inFlow then s.readBlockScalar false
  else if x = '\'' || x = '"' then s.readNode fun c =>
    (readQuoted x c.steps #[] c.advance).map fun (text, c) =>
      (.scalar .quoted (.ofList text.toList), c)
  else if startsPlain inFlow x rest then s.readPlainScalar
  else none

/-- Reads tokens to the end of the text. -/
def readAll : Nat → Layout → Option (List Token)
  | 0, _ => none
  | fuel + 1, s => do
    let s ← (toToken s.cursor.steps s).dropStale
    let s := s.unroll s.cursor.column
    match s.cursor.rest with
    | [] => (s.unroll (-1)).dropKey.map fun s => (s.tokens.push .streamEnd).toList
    | x :: rest => (s.readToken x rest).bind (readAll fuel)

end Layout

/-- The tokens of a text, `none` if it is not well formed. -/
def tokens? (text : List Char) : Option (List Token) :=
  if text.all isAllowed then Layout.readAll (text.length + 1) { cursor := .start text }
  else none

end GcodeJob.Yaml
