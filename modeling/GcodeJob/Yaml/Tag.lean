import GcodeJob.Text.Utf8
import GcodeJob.Yaml.Scalar

/-!
# GcodeJob.Yaml.Tag

Names that a node carries: anchors and tags, and the directives in front of a
document that tags depend on.

A tag is written with a short handle in front, which stands for a longer
beginning: `!!int` is `tag:yaml.org,2002:int`.
-/

namespace GcodeJob.Yaml

/-- A tag as written.  Without a handle the rest is the whole tag. -/
structure Tag where
  handle : String
  rest : String
  deriving DecidableEq, Repr

/-- What a directive in front of a document says. -/
inductive Directive
  | version (major minor : Nat)
  | handle (name beginning : String)
  deriving DecidableEq, Repr

/-! ## Anchors -/

/-- Reads the name of an anchor or of an alias, the cursor being on its
indicator.  Only white space and a few marks may follow it. -/
def readAnchor (c : Cursor) : Option (String × Cursor) :=
  let (name, c) := c.advance.span isNameChar
  let ends := gapFollows c.rest || c.peek?.any fun x => "?:,]\x7d%@\x60".toList.contains x
  if name.isEmpty || !ends then none else some (.ofList name, c)

/-! ## Tags -/

/-- A character of a tag's text; the marks of flow collections only count
where they cannot be mistaken. -/
def isTagChar (marksToo : Bool) (c : Char) : Bool :=
  isNameChar c || ";/?:@&=+$.%!~*'()".toList.contains c ||
    (marksToo && (c = ',' || c = '[' || c = ']'))

/-- How many bytes a character takes whose first byte is given. -/
def octetCount? (lead : Nat) : Option Nat :=
  if lead < 0x80 then some 1
  else if lead < 0xc0 then none
  else if lead < 0xe0 then some 2
  else if lead < 0xf0 then some 3
  else if lead < 0xf8 then some 4
  else none

/-- One byte written as a percent sign and two digits. -/
def readOctet (c : Cursor) : Option (Nat × Cursor) :=
  match c.rest with
  | '%' :: a :: b :: _ => (hexNumber? [a, b]).map (·, c.advance 3)
  | _ => none

/-- Reads the bytes that complete a character. -/
def readOctets : Nat → Cursor → Option (List UInt8 × Cursor)
  | 0, c => some ([], c)
  | n + 1, c => do
    let (octet, c) ← readOctet c
    if octet / 64 ≠ 2 then none
    else do
      let (octets, c) ← readOctets n c
      return (.ofNat octet :: octets, c)

/-- Reads the text of a tag on from `text` to its end, escapes decoded. -/
def readTagText (marksToo : Bool) : Nat → Array Char → Cursor → Option (Array Char × Cursor)
  | 0, _, _ => none
  | fuel + 1, text, c =>
    match c.peek? with
    | none => some (text, c)
    | some x =>
      if !isTagChar marksToo x then some (text, c)
      else if x = '%' then do
        let (lead, c) ← readOctet c
        let count ← octetCount? lead
        let (octets, c) ← readOctets (count - 1) c
        readTagText marksToo fuel (text ++ Utf8.decode (.ofNat lead :: octets)) c
      else readTagText marksToo fuel (text.push x) c.advance

/-- The text of a tag at the cursor, not empty unless something stands in
front of it.  Whatever follows a zero character is dropped. -/
def readTagRest (marksToo mayBeEmpty : Bool) (c : Cursor) : Option (List Char × Cursor) := do
  let (text, after) ← readTagText marksToo c.steps #[] c
  if after.offset = c.offset && !mayBeEmpty then none
  else return (text.toList.takeWhile (· ≠ '\x00'), after)

/-- Reads a handle: a mark, a name and mostly a second mark. -/
def readHandle (c : Cursor) : Option (List Char × Cursor) :=
  if !c.sees '!' then none
  else
    let (name, c) := c.advance.span isNameChar
    if c.sees '!' then some ('!' :: name ++ ['!'], c.advance) else some ('!' :: name, c)

/-- Reads a tag, the cursor being on its mark. -/
def readTag (inFlow : Bool) (c : Cursor) : Option (Tag × Cursor) := do
  let (tag, c) ← if c.advance.sees '<' then do
      let (rest, c) ← readTagRest true false (c.advance 2)
      if c.sees '>' then some (⟨"", .ofList rest⟩, c.advance) else none
    else do
      let (handle, c) ← readHandle c
      if handle.length ≥ 2 && handle.getLast? = some '!' then do
        let (rest, c) ← readTagRest false false c
        return (⟨.ofList handle, .ofList rest⟩, c)
      else do
        let (rest, c) ← readTagRest false true c
        let rest := handle.drop 1 ++ rest
        return (if rest.isEmpty then ⟨"", "!"⟩ else ⟨"!", .ofList rest⟩, c)
  if gapFollows c.rest || (inFlow && c.sees ',') then some (tag, c) else none

/-! ## Directives -/

/-- Reads a number of at most nine digits. -/
def readVersionNumber (c : Cursor) : Option (Nat × Cursor) :=
  let (digits, c) := c.span Char.isDigit
  if digits.isEmpty || 9 < digits.length then none
  else some (digits.foldl (fun n d => 10 * n + (d.toNat - '0'.toNat)) 0, c)

/-- Reads what a version directive says. -/
def readVersion (c : Cursor) : Option (Directive × Cursor) := do
  let (major, c) ← readVersionNumber c.skipBlanks
  if !c.sees '.' then none
  else do
    let (minor, c) ← readVersionNumber c.advance
    return (.version major minor, c)

/-- Reads what a tag directive says: a handle and what it stands for. -/
def readHandleMeaning (c : Cursor) : Option (Directive × Cursor) := do
  let (handle, c) ← readHandle c.skipBlanks
  if handle.getLast? ≠ some '!' || !c.peek?.any isBlank then none
  else do
    let (beginning, c) ← readTagRest true false c.skipBlanks
    if gapFollows c.rest then some (.handle (.ofList handle) (.ofList beginning), c) else none

/-- Reads a directive and the rest of its line, the cursor being on its mark. -/
def readDirective (c : Cursor) : Option (Directive × Cursor) := do
  let (name, c) := c.advance.span isNameChar
  if !gapFollows c.rest then none
  else do
    let (directive, c) ← if name = "YAML".toList then readVersion c
      else if name = "TAG".toList then readHandleMeaning c
      else none
    let c ← c.endLine?
    return (directive, c)

end GcodeJob.Yaml
