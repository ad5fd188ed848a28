import GcodeJob.Number.Rounding

/-!
# GcodeJob.Number.Double

Double precision numbers, the format of parameter values: 53 significant
bits, units of `2 ^ -1074`.  A number is its 64 bits.

Reading a numeral is one exact fraction and one rounding (`ofDecimal`).
Writing a number is the search for the fewest decimal digits that read back
(`shortest`): among the decimal grids `10 ^ k`, taken from coarse to fine,
the first that has a point inside the interval of reals rounding to the
number wins, and of its points the nearest.
-/

namespace GcodeJob

/-- A double precision number, by its bits. -/
structure Double where
  bits : UInt64
  deriving DecidableEq, Repr, Inhabited

namespace Double

/-- Significant bits of the format. -/
def precision : Nat := 53

/-- Units in one: the least positive number is `2 ^ -1074`. -/
def unitsInOne : Nat := Nat.pow 2 1074

/-- The pattern of positive infinity. -/
def infinityPattern : Nat := 0x7ff0000000000000

/-- The bit of the sign. -/
def signBit : Nat := 0x8000000000000000

def zero : Double := ⟨0⟩

/-- The sign bit. -/
def negative (x : Double) : Bool := decide (signBit ≤ x.bits.toNat)

/-- The bits without the sign. -/
def magnitude (x : Double) : Nat := x.bits.toNat % signBit

/-- Neither infinite nor not-a-number. -/
def isFinite (x : Double) : Bool := decide (x.magnitude < infinityPattern)

/-- The number with a sign and a pattern; a pattern past infinity is infinity. -/
def ofPattern (negative : Bool) (pattern : Nat) : Double :=
  ⟨.ofNat ((if negative then signBit else 0) + min pattern infinityPattern)⟩

/-! ## From decimal -/

/-- Decimal exponents beyond which every nonzero numeral rounds to infinity,
or to zero.  Cutting there keeps `ofDecimal` from computing huge powers. -/
def decimalReach : Int := 400

/-- The pattern nearest to `digits * 10 ^ exponent`; ties go to the even
significand. -/
def patternOfDecimal (digits : Nat) (exponent : Int) : Nat :=
  if exponent < 0 then
    Rounding.pattern precision (digits * unitsInOne) (Nat.pow 10 (-exponent).toNat)
  else Rounding.pattern precision (digits * Nat.pow 10 exponent.toNat * unitsInOne) 1

/-- The number nearest to `± digits * 10 ^ exponent`, where `digits` is
written with `width` digits and no leading zero. -/
def ofDecimal (negative : Bool) (digits width : Nat) (exponent : Int) : Double :=
  if digits = 0 then ofPattern negative 0
  else if decimalReach < exponent + width then ofPattern negative infinityPattern
  else if exponent + width < -decimalReach then ofPattern negative 0
  else ofPattern negative (patternOfDecimal digits exponent)

/-! ## To decimal -/

/-- Whether `point / scale` half units round to the pattern.  On the scale of
half units the midpoints between neighbouring numbers are whole; the two
around a number belong to it when its significand is even. -/
def roundsTo (pattern point scale : Nat) : Bool :=
  let here := Rounding.units precision pattern
  let low := (Rounding.units precision (pattern - 1) + here) * scale
  let high := (here + Rounding.units precision (pattern + 1)) * scale
  if pattern % 2 = 0 then decide (low ≤ point ∧ point ≤ high)
  else decide (low < point ∧ point < high)

/-- The multiple of `10 ^ k` nearest to the pattern among those that round
to it, in units of `10 ^ k`; of two equally near the greater. -/
def onGrid? (pattern : Nat) (k : Int) : Option Nat :=
  let scale := Nat.pow 10 (-k).toNat
  let step := 2 * unitsInOne * Nat.pow 10 k.toNat
  let value := 2 * Rounding.units precision pattern * scale
  let below := value / step
  let above := below + 1
  match roundsTo pattern (below * step) scale, roundsTo pattern (above * step) scale with
  | true, true => some (if value - below * step < above * step - value then below else above)
  | true, false => some below
  | false, true => some above
  | false, false => none

/-- Tries the grids `10 ^ k`, `10 ^ (k - 1)`, … in turn. -/
def search (pattern : Nat) : Nat → Int → Nat × Int
  | 0, k => (0, k)
  | n + 1, k =>
    match onGrid? pattern k with
    | some digits => (digits, k)
    | none => search pattern n (k - 1)

/-- A power of ten that is no smaller than the number: the bit length times
`log10 2`, rounded up. -/
def topGrid (pattern : Nat) : Int :=
  (((Rounding.units precision pattern).log2 : Int) - 1073) * 30103 / 100000 + 1

/-- Digits and exponent of the shortest decimal that reads back as the
pattern.  Seventeen digits always do, and the search starts at most two
grids above the leading digit. -/
def shortest (pattern : Nat) : Nat × Int := search pattern 20 (topGrid pattern)

/-- The decimal point is written out, however far it is from the digits. -/
def positional (digits : Nat) (exponent : Int) : String :=
  let text := Nat.repr digits
  if 0 ≤ exponent then text ++ "".pushn '0' exponent.toNat
  else
    let places := (-exponent).toNat
    let padded := ("".pushn '0' (places + 1 - text.length) ++ text).toList
    let whole := padded.length - places
    .ofList (padded.take whole ++ '.' :: padded.drop whole)

/-- The shortest decimal that reads back, without exponent; the sign of zero
is kept. -/
def text (x : Double) : String :=
  let (digits, exponent) := shortest x.magnitude
  (if x.negative then "-" else "") ++
    (if x.magnitude = 0 then "0" else positional digits exponent)

end Double

end GcodeJob
