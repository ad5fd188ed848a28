/-!
# GcodeJob.Text.Blank

Blank characters and trimming.  A blank is a character with the Unicode
property White_Space: beside the ASCII blanks these are the next-line and
no-break characters and the typographic spaces.  The zero-width space and
the byte order mark are no blanks.
-/

namespace GcodeJob.Text

/-- The ranges of the property White_Space. -/
def blankRanges : List (Nat × Nat) :=
  [(0x09, 0x0d), (0x20, 0x20), (0x85, 0x85), (0xa0, 0xa0), (0x1680, 0x1680), (0x2000, 0x200a),
   (0x2028, 0x2029), (0x202f, 0x202f), (0x205f, 0x205f), (0x3000, 0x3000)]

def isBlank (c : Char) : Bool :=
  blankRanges.any fun (low, high) => decide (low ≤ c.toNat ∧ c.toNat ≤ high)

/-- The text without its leading blanks. -/
def trimStart (text : List Char) : List Char := text.dropWhile isBlank

/-- The text without its trailing blanks. -/
def trimEnd (text : List Char) : List Char := (text.reverse.dropWhile isBlank).reverse

/-- The text without the blanks around it. -/
def trim (text : List Char) : List Char := trimEnd (trimStart text)

/-- `trim` on strings. -/
def trimmed (text : String) : String := .ofList (trim text.toList)

end GcodeJob.Text
