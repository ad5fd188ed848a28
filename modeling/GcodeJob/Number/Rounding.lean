/-!
# GcodeJob.Number.Rounding

Binary floating point as whole numbers of a smallest step.  Every finite
number of a binary format is a multiple of the format's least positive
number, so a magnitude is a natural number of such *units*, and arithmetic
on magnitudes is exact arithmetic on naturals followed by one rounding.

A magnitude is stored as its bit pattern without the sign.  The pattern is
`shift * 2 ^ (precision - 1) + significand` for a significand of at most
`precision` bits scaled by `2 ^ shift`: the leading bit of a normal
significand is what carries into the exponent field, so one formula serves
normal numbers, subnormal numbers and a significand that rounding has
carried up to the next power of two.
-/

namespace GcodeJob.Rounding

/-- The natural number nearest to `num / den`; a tie goes to the even one. -/
def nearest (num den : Nat) : Nat :=
  let down := num / den
  let rest := num % den
  if 2 * rest < den then down
  else if den < 2 * rest then down + 1
  else down + down % 2

/-- How far a magnitude of `num / den` units overflows the significand, in bits. -/
def shift (precision num den : Nat) : Nat := (num / den).log2 + 1 - precision

/-- The pattern of the number nearest to `num / den` units; a tie goes to
the even significand.  No upper bound is applied: a magnitude too large for
the format gives a pattern at or above the one of infinity. -/
def pattern (precision num den : Nat) : Nat :=
  let s := shift precision num den
  s * Nat.pow 2 (precision - 1) + nearest num (den * Nat.pow 2 s)

/-- The units of a pattern, the inverse reading of `pattern`. -/
def units (precision bits : Nat) : Nat :=
  let least := Nat.pow 2 (precision - 1)
  let field := bits / least
  let fraction := bits % least
  if field = 0 then fraction else (least + fraction) * Nat.pow 2 (field - 1)

/-- An exact quotient is its own nearest number. -/
theorem nearest_mul_right (n den : Nat) (h : 0 < den) : nearest (n * den) den = n := by
  simp [nearest, Nat.mul_div_cancel n h, h]

/-- Patterns below the first normal number are the units themselves. -/
theorem units_of_lt (precision bits : Nat) (h : bits < Nat.pow 2 (precision - 1)) :
    units precision bits = bits := by
  simp only [units, Nat.div_eq_of_lt h, Nat.mod_eq_of_lt h, if_true]

end GcodeJob.Rounding
