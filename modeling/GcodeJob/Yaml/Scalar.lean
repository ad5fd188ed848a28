import GcodeJob.Yaml.Cursor

/-!
# GcodeJob.Yaml.Scalar

The text of a scalar, in each of its three shapes: plain, quoted, and a block
of indented lines.

Line breaks inside plain and quoted scalars are folded: a single break reads
as a space, and of several breaks the first is dropped.  Reading refuses
what is not well formed and otherwise gives the text and where it ends.
-/

namespace GcodeJob.Yaml

/-- How a scalar is written. -/
inductive Style
  | plain
  | quoted
  | literal
  | folded
  deriving DecidableEq, Repr

/-! ## Gaps -/

/-- The white space between two words of a scalar. -/
structure Gap where
  /-- Blanks, as long as there is no break. -/
  blanks : Array Char := #[]
  /-- Whether the line was left. -/
  isBroken : Bool := false
  /-- The first break, absent when it was escaped. -/
  first? : Option Char := none
  /-- The breaks after it. -/
  more : Array Char := #[]

namespace Gap

/-- What a gap reads as. -/
def text (g : Gap) : Array Char :=
  if g.isBroken then
    if g.first? = some '\n' then if g.more.isEmpty then #[' '] else g.more
    else g.first?.toArray ++ g.more
  else g.blanks

/-- Takes a break into the gap. -/
def addBreak (g : Gap) (x : Char) : Gap :=
  if g.isBroken then { g with more := g.more.push x }
  else { isBroken := true, first? := some x }

/-- Reads a gap to its end.  After a break no tab may stand left of the
column `indent`. -/
def read (indent : Nat) : Nat → Gap → Cursor → Option (Gap × Cursor)
  | 0, _, _ => none
  | fuel + 1, g, c =>
    match c.lineBreak? with
    | some (x, c) => read indent fuel (g.addBreak x) c
    | none =>
      match c.peek? with
      | some x =>
        if !isBlank x then some (g, c)
        else if g.isBroken then
          if x = '\t' && c.column < indent then none else read indent fuel g c.advance
        else read indent fuel { g with blanks := g.blanks.push x } c.advance
      | none => some (g, c)

end Gap

/-! ## Plain scalars -/

/-- The characters that structure a flow collection. -/
def isFlowMark (c : Char) : Bool := c = ',' || c = '[' || c = ']' || c = '{' || c = '}'

/-- Reads a word of a plain scalar on from `word`.  It ends before white space,
before a colon that white space follows and, inside a flow collection, before a
mark; there a colon in front of a mark is refused. -/
def plainWord (inFlow : Bool) (word : Array Char) : List Char → Option (Array Char)
  | [] => some word
  | x :: rest =>
    if isGap x then some word
    else if inFlow && x = ':' && (rest.head?.any fun y => isFlowMark y || y = '?') then none
    else if (x = ':' && gapFollows rest) || (inFlow && isFlowMark x) then some word
    else plainWord inFlow (word.push x) rest

/-- Reads a plain scalar on from `text` and the gap behind it.  Outside flow
collections it ends with the first line that starts left of `indent`.  The
flag says whether the line was left behind the last word. -/
def readPlain (inFlow : Bool) (indent : Nat) :
    Nat → Array Char → Gap → Cursor → Option (Array Char × Bool × Cursor)
  | 0, _, _, _ => none
  | fuel + 1, text, gap, c =>
    if c.atDocumentMark || c.sees '#' then some (text, gap.isBroken, c)
    else do
      let word ← plainWord inFlow #[] c.rest
      if word.isEmpty then return (text, gap.isBroken, c)
      let text := text ++ gap.text ++ word
      let c := c.advance word.size
      if !(c.peek?.any isGap) then return (text, false, c)
      let (gap, c) ← Gap.read indent c.steps {} c
      if !inFlow && c.column < indent then return (text, gap.isBroken, c)
      readPlain inFlow indent fuel text gap c

/-! ## Quoted scalars -/

/-- The value of a hexadecimal digit. -/
def hexDigit? (c : Char) : Option Nat :=
  if c.isDigit then some (c.toNat - '0'.toNat)
  else if 'a' ≤ c && c ≤ 'f' then some (c.toNat - 'a'.toNat + 10)
  else if 'A' ≤ c && c ≤ 'F' then some (c.toNat - 'A'.toNat + 10)
  else none

/-- The number that hexadecimal digits write. -/
def hexNumber? (digits : List Char) : Option Nat :=
  digits.foldlM (fun n d => (hexDigit? d).map (16 * n + ·)) 0

/-- The character with a number, unless it is a surrogate or beyond the last. -/
def charOfNumber? (n : Nat) : Option Char :=
  if n.isValidChar then some (Char.ofNat n) else none

/-- The characters that stand for another one after a backslash. -/
def escaped? : Char → Option Char
  | '0' => some '\x00'
  | 'a' => some '\x07'
  | 'b' => some '\x08'
  | 't' | '\t' => some '\t'
  | 'n' => some '\n'
  | 'v' => some '\x0b'
  | 'f' => some '\x0c'
  | 'r' => some '\r'
  | 'e' => some '\x1b'
  | ' ' => some ' '
  | '"' => some '"'
  | '/' => some '/'
  | '\\' => some '\\'
  | 'N' => some '\x85'
  | '_' => some '\u00a0'
  | 'L' => some '\u2028'
  | 'P' => some '\u2029'
  | _ => none

/-- How many hexadecimal digits a letter after a backslash announces. -/
def digitCount? : Char → Option Nat
  | 'x' => some 2
  | 'u' => some 4
  | 'U' => some 8
  | _ => none

/-- Reads an escape, the cursor being on its backslash. -/
def readEscape (c : Cursor) : Option (Char × Cursor) := do
  let letter ← c.advance.peek?
  match digitCount? letter with
  | none => (escaped? letter).map (·, c.advance 2)
  | some n =>
    let digits := (c.rest.drop 2).take n
    if digits.length ≠ n then none
    else do
      let x ← (hexNumber? digits).bind charOfNumber?
      return (x, c.advance (n + 2))

/-- Reads what stands in quotes on from `text` up to white space or the closing
quote, in single quotes as it is but for a doubled quote, in double quotes with
escapes.  The flag says that an escaped line break ended it. -/
def quotedWord (quote : Char) : Nat → Array Char → Cursor → Option (Array Char × Bool × Cursor)
  | 0, _, _ => none
  | fuel + 1, text, c =>
    match c.rest with
    | [] => some (text, false, c)
    | x :: rest =>
      if isGap x then some (text, false, c)
      else if x = quote then
        if quote = '\'' && rest.head? == some '\'' then
          quotedWord quote fuel (text.push '\'') (c.advance 2)
        else some (text, false, c)
      else if quote = '"' && x = '\\' then
        match c.advance.lineBreak? with
        | some (_, c) => some (text, true, c)
        | none => do
          let (x, c) ← readEscape c
          quotedWord quote fuel (text.push x) c
      else quotedWord quote fuel (text.push x) c.advance

/-- Reads a quoted scalar on from `text`, the opening quote being read.  No
document may begin or end inside it. -/
def readQuoted (quote : Char) : Nat → Array Char → Cursor → Option (Array Char × Cursor)
  | 0, _, _ => none
  | fuel + 1, text, c =>
    if c.atDocumentMark || c.rest.isEmpty then none
    else do
      let (text, escapedBreak, c) ← quotedWord quote c.steps text c
      if c.sees quote then return (text, c.advance)
      let (gap, c) ← Gap.read 0 c.steps { isBroken := escapedBreak } c
      readQuoted quote fuel (text ++ gap.text) c

/-! ## Block scalars -/

/-- What becomes of the line breaks at the end of a block. -/
inductive Chomp
  | strip
  | clip
  | keep
  deriving DecidableEq, Repr

/-- Reads the chomping and indentation indicators of a block, in either order. -/
def readBlockHead (c : Cursor) : Option (Chomp × Nat × Cursor) :=
  let chomp (c : Cursor) : Option (Chomp × Cursor) :=
    if c.sees '+' then some (.keep, c.advance)
    else if c.sees '-' then some (.strip, c.advance)
    else none
  let digit (c : Cursor) : Option (Option Nat × Cursor) :=
    match c.peek? with
    | some x =>
      if !x.isDigit then some (none, c)
      else if x = '0' then none
      else some (some (x.toNat - '0'.toNat), c.advance)
    | none => some (none, c)
  match chomp c with
  | some (how, c) => (digit c).map fun (n, c) => (how, n.getD 0, c)
  | none => do
    let (n, c) ← digit c
    match n, chomp c with
    | some n, some (how, c) => some (how, n, c)
    | n, _ => some (.clip, n.getD 0, c)

/-- Reads indentation and empty lines in front of a line of a block.  While
the indentation `indent` is not known (zero), any number of spaces counts;
`widest` is the largest number seen.  A tab in the indentation is refused. -/
def readBlockBreaks (indent : Nat) :
    Nat → Nat → Array Char → Cursor → Option (Nat × Array Char × Cursor)
  | 0, _, _, _ => none
  | fuel + 1, widest, breaks, c =>
    let spaces := (c.rest.takeWhile (· = ' ')).length
    let c := c.advance (if indent = 0 then spaces else min spaces (indent - c.column))
    let widest := max widest c.column
    if (indent = 0 || c.column < indent) && c.sees '\t' then none
    else
      match c.lineBreak? with
      | some (x, c) => readBlockBreaks indent fuel widest (breaks.push x) c
      | none => some (widest, breaks, c)

/-- What joins the lines of a block: the break of the line before, folded
into a space where both lines start with a word, and the empty lines. -/
def blockJoin (isLiteral wasBlank nowBlank : Bool) (last? : Option Char) (empty : Array Char) :
    Array Char :=
  if !isLiteral && last? = some '\n' && !wasBlank && !nowBlank then
    if empty.isEmpty then #[' '] else empty
  else last?.toArray ++ empty

/-- Reads the lines of a block on from `text`; `last?` is the break of the
line before, `empty` the empty lines after it and `wasBlank` whether that
line started with a blank. -/
def readBlockLines (isLiteral : Bool) (chomp : Chomp) (indent : Nat) :
    Nat → Array Char → Option Char → Array Char → Bool → Cursor → Option (Array Char × Cursor)
  | 0, _, _, _, _, _ => none
  | fuel + 1, text, last?, empty, wasBlank, c =>
    if c.column = indent && !c.rest.isEmpty then do
      let nowBlank := c.peek?.any isBlank
      let (line, c) := c.span fun x => !isBreak x
      let text := text ++ blockJoin isLiteral wasBlank nowBlank last? empty ++ line
      let (last?, c) : Option Char × Cursor := match c.lineBreak? with
        | some (x, c) => (some x, c)
        | none => (none, c)
      let (_, empty, c) ← readBlockBreaks indent c.steps 0 #[] c
      readBlockLines isLiteral chomp indent fuel text last? empty nowBlank c
    else
      match chomp with
      | .strip => some (text, c)
      | .clip => some (text ++ last?.toArray, c)
      | .keep => some (text ++ last?.toArray ++ empty, c)

/-- Reads a block scalar, the cursor being behind its indicator and `outer`
the indentation of what it belongs to, `-1` at the top. -/
def readBlock (isLiteral : Bool) (outer : Int) (c : Cursor) : Option (Array Char × Cursor) := do
  let (chomp, increment, c) ← readBlockHead c
  let c ← c.endLine?
  let given := if increment = 0 then 0 else outer.toNat + increment
  let (widest, empty, c) ← readBlockBreaks given c.steps 0 #[] c
  let indent := if given = 0 then max (max widest (outer + 1).toNat) 1 else given
  readBlockLines isLiteral chomp indent c.steps #[] none empty false c

end GcodeJob.Yaml
