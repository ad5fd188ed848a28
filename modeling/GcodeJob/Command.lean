import GcodeJob.Number.Double

/-!
# GcodeJob.Command

One line of a program and what it says.  A line holds a command code such
as `G1` with its parameters, or nothing but a comment, or text that is no
command at all; only codes are ever executed.
-/

namespace GcodeJob

/-- The letter of a command code: motion or machine. -/
inductive Letter
  | g
  | m
  deriving DecidableEq, Repr

namespace Letter

/-- Either case of the letter is read. -/
def ofChar? : Char → Option Letter
  | 'G' | 'g' => some .g
  | 'M' | 'm' => some .m
  | _ => none

/-- The upper-case letter is written. -/
def toChar : Letter → Char
  | .g => 'G'
  | .m => 'M'

end Letter

/-- A word after the command code, such as `X10.5`: a name and a value.
`number?` is the value, absent when the text after the name is no finite
number; a bare name has the value zero. -/
structure Parameter where
  name : Char
  number? : Option Double
  raw : String
  deriving DecidableEq, Repr

namespace Parameter

/-- The value, zero where the text is no number. -/
def value (p : Parameter) : Double := p.number?.getD .zero

/-- A parameter is valid when its name is an ASCII letter and it has a value. -/
def isValid (p : Parameter) : Bool := p.name.isAlpha && p.number?.isSome

end Parameter

/-- What a line says. -/
inductive Content
  | code (letter : Letter) (number : Nat) (params : List Parameter) (comment : Option String)
  | blank (comment : Option String)
  | invalid
  deriving DecidableEq, Repr

/-- A line of a program, by its index, its text and what it says. -/
structure Command where
  line : Nat
  raw : String
  content : Content
  deriving DecidableEq, Repr

namespace Command

/-- The letter of the code, if the line holds one. -/
def letter? (c : Command) : Option Letter :=
  match c.content with
  | .code letter .. => some letter
  | _ => none

/-- Only codes are executed. -/
def isExecutable (c : Command) : Bool := c.letter?.isSome

/-- The number of the code, zero when the line holds none. -/
def number (c : Command) : Nat :=
  match c.content with
  | .code _ number .. => number
  | _ => 0

def params (c : Command) : List Parameter :=
  match c.content with
  | .code _ _ params _ => params
  | _ => []

/-- The comment; absent is not the same as empty. -/
def comment (c : Command) : Option String :=
  match c.content with
  | .code _ _ _ comment | .blank comment => comment
  | .invalid => none

/-- The code as it is written, such as `G1`. -/
def code? (c : Command) : Option String :=
  c.letter?.map fun letter => letter.toChar.toString ++ Nat.repr c.number

/-- The first parameter of a name, in either case. -/
def param? (c : Command) (name : Char) : Option Parameter :=
  c.params.find? (·.name.toLower == name.toLower)

def hasInvalidParam (c : Command) : Bool := c.params.any (!·.isValid)

end Command

end GcodeJob
