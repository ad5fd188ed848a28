import GcodeJob.Number.Rounding
import GcodeJob.Number.Word

/-!
# GcodeJob.Number.Single

Single precision numbers: 24 significant bits, units of `2 ^ -149`.
Progress of a running command is kept in this format, so every operation
rounds to the nearest representable number, ties to even, and the rounding
shows in the published values.

A number is its 32 bits.  `view` reads them as a sign and a whole number of
units, and each operation is exact arithmetic on that view followed by one
`Rounding.pattern`.
-/

namespace GcodeJob

/-- A single precision number, by its bits. -/
structure Single where
  bits : UInt32
  deriving DecidableEq, Repr, Inhabited

namespace Single

/-! ## Reading and building -/

/-- Significant bits of the format. -/
def precision : Nat := 24

/-- Units in one: the least positive number is `2 ^ -149`. -/
def unitsInOne : Nat := Nat.pow 2 149

/-- The pattern of positive infinity. -/
def infinityPattern : Nat := 0x7f800000

/-- The bit of the sign. -/
def signBit : Nat := 0x80000000

/-- What the bits of a number mean. -/
inductive View
  | nan
  | infinite (negative : Bool)
  | finite (negative : Bool) (units : Nat)
  deriving DecidableEq, Repr

/-- The sign bit. -/
def negative (x : Single) : Bool := decide (signBit ≤ x.bits.toNat)

/-- The bits without the sign. -/
def magnitude (x : Single) : Nat := x.bits.toNat % signBit

def view (x : Single) : View :=
  if infinityPattern < x.magnitude then .nan
  else if x.magnitude = infinityPattern then .infinite x.negative
  else .finite x.negative (Rounding.units precision x.magnitude)

/-- The number with a sign and a pattern; a pattern past infinity is infinity. -/
def ofPattern (negative : Bool) (pattern : Nat) : Single :=
  ⟨.ofNat ((if negative then signBit else 0) + min pattern infinityPattern)⟩

/-- The number nearest to `num / den` units with the given sign. -/
def ofUnits (negative : Bool) (num den : Nat) : Single :=
  ofPattern negative (Rounding.pattern precision num den)

/-- The quiet not-a-number. -/
def nan : Single := ⟨0x7fc00000⟩

def infinity (negative : Bool) : Single := ofPattern negative infinityPattern

/-- The number nearest to the fraction `num / den`. -/
def ofRatio (num den : Nat) : Single := ofUnits false (num * unitsInOne) den

/-- The number nearest to a natural number. -/
def ofNat (n : Nat) : Single := ofRatio n 1

def zero : Single := ⟨0⟩

def one : Single := ⟨0x3f800000⟩

/-- The gap between one and the next number, `2 ^ -23`. -/
def epsilon : Single := ⟨0x34000000⟩

def isNaN (x : Single) : Bool := x.view == .nan

/-! ## Order

Finite numbers compare as signed whole numbers of units; the two zeros are
equal and not-a-number compares with nothing. -/

/-- The signed units of a finite number, with the infinities beyond them all. -/
def rank? (x : Single) : Option Int :=
  let signed (negative : Bool) (n : Nat) : Int := if negative then -n else n
  match x.view with
  | .nan => none
  | .infinite negative => some (signed negative (Nat.pow 2 278))
  | .finite negative n => some (signed negative n)

def lt (x y : Single) : Bool :=
  match x.rank?, y.rank? with
  | some a, some b => decide (a < b)
  | _, _ => false

/-- Restricts a number to `[low, high]`; not-a-number stays. -/
def clamp (x low high : Single) : Single :=
  if x.lt low then low else if high.lt x then high else x

/-- The smaller of two numbers, or the one that is a number. -/
def min (x y : Single) : Single :=
  if x.isNaN then y else if y.lt x then y else x

/-! ## Arithmetic -/

def neg (x : Single) : Single := ⟨x.bits ^^^ 0x80000000⟩

def abs (x : Single) : Single := ⟨x.bits &&& 0x7fffffff⟩

/-- The sum of two signed magnitudes.  An exact zero is positive unless
both terms are negative. -/
def addUnits (nx : Bool) (a : Nat) (ny : Bool) (b : Nat) : Single :=
  if nx = ny then ofUnits nx (a + b) 1
  else if a = b then zero
  else if a < b then ofUnits ny (b - a) 1
  else ofUnits nx (a - b) 1

def add (x y : Single) : Single :=
  match x.view, y.view with
  | .finite nx a, .finite ny b => addUnits nx a ny b
  | .nan, _ | _, .nan => nan
  | .infinite nx, .infinite ny => if nx = ny then infinity nx else nan
  | .infinite nx, _ => infinity nx
  | _, .infinite ny => infinity ny

def sub (x y : Single) : Single := x.add y.neg

def mul (x y : Single) : Single :=
  match x.view, y.view with
  | .finite nx a, .finite ny b => ofUnits (nx != ny) (a * b) unitsInOne
  | .nan, _ | _, .nan => nan
  | .infinite nx, .infinite ny => infinity (nx != ny)
  | .infinite nx, .finite ny b => if b = 0 then nan else infinity (nx != ny)
  | .finite nx a, .infinite ny => if a = 0 then nan else infinity (nx != ny)

/-- The quotient of two counts, rounded once each and once divided. -/
def ofCounts (part whole : Nat) : Single :=
  match (ofNat part).view, (ofNat whole).view with
  | .finite _ a, .finite _ b => if b = 0 then nan else ofUnits false (a * unitsInOne) b
  | _, _ => nan

/-- The whole part as a 64-bit integer: toward zero, kept within the range,
and zero for not-a-number. -/
def truncate (x : Single) : Int :=
  match x.view with
  | .nan => 0
  | .infinite true => Word.lowest
  | .infinite false => Word.highest
  | .finite true n => max (-((n / unitsInOne : Nat) : Int)) Word.lowest
  | .finite false n => Min.min ((n / unitsInOne : Nat) : Int) Word.highest

end Single

end GcodeJob
