import GcodeJob.Number.Single

/-!
# GcodeJob.Terminal.Bar

Progress drawn as ten cells.  Each completed tenth is a full cell; the part
of the current tenth, in percent with some decimals, is written out as one
cell; the rest is empty.  All cells are computed from one scaled number, so
together they are always ten.
-/

namespace GcodeJob.Bar

def cells : Nat := 10

/-- The most decimals a bar shows. -/
def maxDigits : Nat := 6

/-- Progress as a whole number of the `10 ^ -digits`-th part of a percent.
Both products round to single precision. -/
def scaled (progress : Single) (digits : Nat) : Nat :=
  ((progress.clamp .zero .one).mul (.ofNat 100)).mul (.ofNat (Nat.pow 10 digits)) |>.truncate.toNat

/-- The bar of a scaled number. -/
def draw (scaled digits : Nat) (complete incomplete : Char) : String :=
  let tenth := 10 * Nat.pow 10 digits
  let full := min (scaled / tenth) cells
  let part := scaled - full * tenth
  let empty := cells - full - (if part = 0 then 0 else 1)
  "".pushn complete full ++ (if part = 0 then "" else Nat.repr part) ++ "".pushn incomplete empty

/-- The bar of a progress in `[0, 1]`; values outside are moved to the
nearer end, and not-a-number shows as no progress. -/
def render (progress : Single) (digits : Nat) (complete incomplete : Char) : String :=
  let digits := min digits maxDigits
  draw (scaled progress digits) digits complete incomplete

end GcodeJob.Bar
