/-!
# GcodeJob.Text.Utf8

Reading bytes as text.  Bytes that are no UTF-8 are read all the same: each
longest run of bytes that begins a character and cannot be completed, and
each byte that begins none, becomes one replacement character `U+FFFD`.
Well-formed text is therefore read as it is.
-/

namespace GcodeJob.Utf8

/-- The character that stands for bytes that are none. -/
def replacement : Char := '\ufffd'

/-- What the first byte of a character promises: its own bits, the range of
the byte after it, and how many bytes follow in all. -/
structure Lead where
  bits : Nat
  low : Nat
  high : Nat
  following : Nat

/-- The promise of a first byte, `none` when no character starts with it.
The narrowed ranges exclude overlong forms, surrogates and numbers beyond
the last character. -/
def lead? (b : UInt8) : Option Lead :=
  let n := b.toNat
  if n < 0x80 then some ⟨n, 0, 0, 0⟩
  else if n < 0xc2 then none
  else if n < 0xe0 then some ⟨n - 0xc0, 0x80, 0xbf, 1⟩
  else if n < 0xf0 then
    some ⟨n - 0xe0, if n = 0xe0 then 0xa0 else 0x80, if n = 0xed then 0x9f else 0xbf, 2⟩
  else if n < 0xf5 then
    some ⟨n - 0xf0, if n = 0xf0 then 0x90 else 0x80, if n = 0xf4 then 0x8f else 0xbf, 3⟩
  else none

/-- Reads the bytes that follow a first byte.  Gives the character's number,
or `none` when a byte is missing or out of range, and the bytes not used;
only the first of them is restricted to `[low, high]`. -/
def continue? (bits : Nat) (low high : Nat) : Nat → List UInt8 → Option Nat × List UInt8
  | 0, rest => (some bits, rest)
  | _ + 1, [] => (none, [])
  | n + 1, b :: rest =>
    if low ≤ b.toNat ∧ b.toNat ≤ high then
      continue? (bits * 64 + b.toNat % 64) 0x80 0xbf n rest
    else (none, b :: rest)

theorem length_continue? (bits low high n : Nat) (bytes : List UInt8) :
    (continue? bits low high n bytes).2.length ≤ bytes.length := by
  induction n generalizing bits low high bytes with
  | zero => simp [continue?]
  | succ n ih =>
    cases bytes with
    | nil => simp [continue?]
    | cons b rest =>
      rw [continue?]
      split
      · exact Nat.le_trans (ih ..) (by simp)
      · simp

/-- The text of some bytes, with replacement characters where they are no UTF-8. -/
def decode : List UInt8 → List Char
  | [] => []
  | b :: rest =>
    match lead? b with
    | none => replacement :: decode rest
    | some lead =>
      let step := continue? lead.bits lead.low lead.high lead.following rest
      (step.1.map Char.ofNat).getD replacement :: decode step.2
termination_by bytes => bytes.length
decreasing_by
  · simp
  · exact Nat.lt_succ_of_le (length_continue? ..)

/-- The bytes of some text. -/
def encode (text : String) : List UInt8 := text.toUTF8.data.toList

end GcodeJob.Utf8
