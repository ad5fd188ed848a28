/-!
# GcodeJob.Number.Word

The ranges of machine words, where a number is read into one or kept in one.
-/

namespace GcodeJob.Word

/-- How many numbers a word of 32 bits can hold. -/
def count32 : Nat := 0x100000000

/-- How many numbers a word of 64 bits can hold. -/
def count64 : Nat := 0x10000000000000000

/-- The greatest number in a signed word of 64 bits. -/
def highest : Int := 0x7fffffffffffffff

/-- The least number in a signed word of 64 bits. -/
def lowest : Int := -0x8000000000000000

/-- The number after one in a signed word of 64 bits; the least one comes after the greatest. -/
def next (n : Int) : Int := if n = highest then lowest else n + 1

end GcodeJob.Word
