import GcodeJob.Number.Double
import GcodeJob.Number.Word

/-!
# GcodeJob.Number.Numeral

The decimal numerals a parameter value may be written in:

```
numeral  := sign? (digits ("." digits?)? | "." digits) exponent?
exponent := ("e" | "E") sign? digits
```

Nothing else is a numeral: no blanks, no digit separators, no hexadecimal,
no words for infinity.  A numeral too large for the format reads as
infinity, which `finite?` refuses.

There may be any number of digits, and all of them count, but for those of an
exponent: once it has grown past `65535`, its further digits are passed over.
-/

namespace GcodeJob.Numeral

/-- The value of a digit. -/
def digit (c : Char) : Nat := c.toNat - '0'.toNat

/-- A group of digits is full when the power of ten for its length is at least
this. -/
def groupLimit : Nat := Nat.pow 10 255

/-- Reads on behind the digits for `total` and those of a group, which make up
`group` and for whose length `weight` is the power of ten.  A long row is read
group by group, so that few of the products are large. -/
def valueFrom (total group weight : Nat) : List Char → Nat
  | [] => total * weight + group
  | c :: rest =>
    if weight < groupLimit then valueFrom total (10 * group + digit c) (10 * weight) rest
    else valueFrom (total * weight + group) (digit c) 10 rest

/-- The number a row of digits writes in base ten. -/
def value (digits : List Char) : Nat := valueFrom 0 0 1 digits

theorem valueFrom_eq_foldl (total group weight : Nat) (digits : List Char) :
    valueFrom total group weight digits =
      digits.foldl (fun n c => 10 * n + digit c) (total * weight + group) := by
  induction digits generalizing total group weight with
  | nil => rfl
  | cons c rest ih =>
    rw [valueFrom, List.foldl_cons]
    split
    · rw [ih, Nat.mul_left_comm, Nat.mul_add, Nat.add_assoc]
    · rw [ih, Nat.mul_comm _ 10]

/-- Each digit counts ten times as much as the next one. -/
theorem value_eq_foldl (digits : List Char) :
    value digits = digits.foldl (fun n c => 10 * n + digit c) 0 := by
  simp [value, valueFrom_eq_foldl]

/-- A leading sign, true for minus, and what follows it. -/
def takeSign : List Char → Bool × List Char
  | '-' :: rest => (true, rest)
  | '+' :: rest => (false, rest)
  | rest => (false, rest)

/-- The leading digits and what follows them. -/
def takeDigits (text : List Char) : List Char × List Char := text.span Char.isDigit

/-- The fraction digits after a point, if there is one. -/
def takeFraction : List Char → List Char × List Char
  | '.' :: rest => takeDigits rest
  | rest => ([], rest)

/-- No digit is added to the size of an exponent that has reached this. -/
def exponentLimit : Nat := 0x10000

/-- The size of an exponent. -/
def exponentSize (digits : List Char) : Nat :=
  digits.foldl (fun n c => if n < exponentLimit then 10 * n + digit c else n) 0

/-- The exponent that makes up the whole text; no text is exponent zero. -/
def exponent? : List Char → Option Int
  | [] => some 0
  | e :: rest =>
    if e = 'e' ∨ e = 'E' then
      let (negative, rest) := takeSign rest
      match takeDigits rest with
      | ([], _) | (_, _ :: _) => none
      | (digits, []) => some (if negative then -(exponentSize digits : Int) else exponentSize digits)
    else none

/-- The number nearest to the numeral, `none` when the text is not one. -/
def read? (text : List Char) : Option Double :=
  let (negative, rest) := takeSign text
  let (whole, rest) := takeDigits rest
  let (fraction, rest) := takeFraction rest
  let digits := whole ++ fraction
  if digits.isEmpty then none
  else (exponent? rest).map fun e =>
    .ofDecimal negative (value digits) (digits.dropWhile (· == '0')).length (e - fraction.length)

/-- The number nearest to the numeral if that is a finite one. -/
def finite? (text : List Char) : Option Double := (read? text).filter Double.isFinite

end GcodeJob.Numeral
