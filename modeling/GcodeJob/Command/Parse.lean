import GcodeJob.Command
import GcodeJob.Number.Numeral
import GcodeJob.Text.Blank
import GcodeJob.Text.Slice

/-!
# GcodeJob.Command.Parse

Reading a line.  Every text is a line, so reading never fails:

```
line   := space* (code | comment?)
code   := ("G" | "g" | "M" | "m") digit+ ((space word?)* comment?)
comment:= ";" text
```

The code number is below `2 ^ 32` and ends at a space or a semicolon; text
that starts differently, or whose number does not fit, makes the line
invalid.  Only the space separates: a tab belongs to the word it stands in.
Comments are trimmed of all blanks.
-/

namespace GcodeJob

/-- The space, the only character between words. -/
def separator : Char := ' '

/-- The character that starts a comment. -/
def commentStart : Char := ';'

/-- A word is its first character and the rest. -/
abbrev Word := Char × List Char

/-- The words of a text: its longest runs without a space. -/
def words (text : List Char) : List Word :=
  match _ : text.dropWhile (· == separator) with
  | [] => []
  | c :: rest =>
    (c, rest.takeWhile (· != separator)) :: words (rest.dropWhile (· != separator))
termination_by text.length
decreasing_by
  have drop_le := (text.dropWhile_sublist (· == separator)).length_le
  have rest_le := (rest.dropWhile_sublist (· != separator)).length_le
  simp only [‹text.dropWhile _ = _›, List.length_cons] at drop_le
  omega

/-- Reads a parameter.  A bare name stands for zero. -/
def Parameter.ofWord : Word → Parameter
  | (name, text) =>
    { name
      number? := if text.isEmpty then some .zero else Numeral.finite? text
      raw := .ofList (name :: text) }

/-- The code number, if the text is digits only and fits 32 bits. -/
def codeNumber? (digits : List Char) : Option Nat :=
  if !digits.isEmpty && digits.all Char.isDigit then
    some (Numeral.value digits) |>.filter (· < Word.count32)
  else none

/-- The text before the first semicolon and, if there is one, the comment
after it. -/
def splitComment (text : List Char) : List Char × Option String :=
  match text.dropWhile (· != commentStart) with
  | [] => (text, none)
  | _ :: comment => (text.takeWhile (· != commentStart), some (.ofList (Text.trim comment)))

/-- Whether a character ends the number of a code. -/
def endsNumber (c : Char) : Bool := c == separator || c == commentStart

/-- What a code says by the text of its number and what follows it. -/
def Content.ofParts (letter : Letter) (digits rest : List Char) : Content :=
  match codeNumber? digits with
  | none => .invalid
  | some number =>
    let (text, comment) := splitComment rest
    .code letter number ((words text).map .ofWord) comment

/-- Reads what follows the letter of a code.  It is cut at the end of the
number; a place inside a character would give nothing. -/
def Content.ofCode? (letter : Letter) (body : List Char) : Option Content :=
  (Text.cut? (Text.placeOf endsNumber body) body).map fun (digits, rest) =>
    .ofParts letter digits rest

/-- Reads what a line says. -/
def Content.ofText? (text : List Char) : Option Content :=
  match text.dropWhile (· == separator) with
  | [] => some (.blank none)
  | c :: rest =>
    if c = commentStart then some (.blank (some (.ofList (Text.trim rest))))
    else
      match Letter.ofChar? c with
      | some letter => ofCode? letter rest
      | none => some .invalid

/-- The end of a number is a place to cut at. -/
theorem Content.ofCode?_eq (letter : Letter) (body : List Char) :
    ofCode? letter body =
      some (.ofParts letter (body.takeWhile (!endsNumber ·)) (body.dropWhile (!endsNumber ·))) := by
  rw [ofCode?, Text.cut?_placeOf, Option.map_some]

/-- So a line always says something. -/
theorem Content.isSome_ofText? (text : List Char) : (ofText? text).isSome := by
  unfold ofText?
  split
  · rfl
  · split
    · rfl
    · split
      · rw [ofCode?_eq, Option.isSome_some]
      · rfl

/-- Reads the line of index `line`. -/
def Command.parse (line : Nat) (raw : String) : Command :=
  ⟨line, raw, (Content.ofText? raw.toList).get (Content.isSome_ofText? _)⟩

end GcodeJob
