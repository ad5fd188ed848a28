import GcodeJob.Text.Utf8

/-!
# GcodeJob.Proofs.Text.Utf8

Well-formed bytes are read as the text they stand for: `decode` takes the
encoding of a character off the front of any bytes, so the encoding of a text
is read back as that text (`decode_encode`).
-/

namespace GcodeJob.Utf8

/-! ## One character -/

/-- A byte in the continuing range is passed over, and its six bits are added. -/
theorem continue?_cons {bits low high n : Nat} {b : UInt8} {rest : List UInt8}
    (h : low ≤ b.toNat ∧ b.toNat ≤ high) :
    continue? bits low high (n + 1) (b :: rest) =
      continue? (bits * 64 + b.toNat % 64) 0x80 0xbf n rest := by
  rw [continue?, if_pos h]

/-- What is read when the bytes after a first byte are those it promises. -/
theorem decode_cons {b : UInt8} {bytes : List UInt8} (lead : Lead) (n : Nat) (rest : List UInt8)
    (first : lead? b = some lead)
    (more : continue? lead.bits lead.low lead.high lead.following bytes = (some n, rest)) :
    decode (b :: bytes) = Char.ofNat n :: decode rest := by
  rw [decode, first]
  simp only [more, Option.map_some, Option.getD_some]

theorem toNat_ofNat_of_lt {n : Nat} (h : n < 256) : (UInt8.ofNat n).toNat = n := by
  rw [UInt8.toNat_ofNat', Nat.mod_eq_of_lt h]

/-- A continuing byte carries its six bits. -/
theorem toNat_continuing (n : Nat) : (UInt8.ofNat (n % 64 + 0x80)).toNat = n % 64 + 0x80 :=
  toNat_ofNat_of_lt (by omega)

section
variable {v : Nat}

/-! ### What the first byte of a character promises -/

theorem lead?_one (high : v < 0x80) : lead? (UInt8.ofNat v) = some ⟨v, 0, 0, 0⟩ := by
  have first : (UInt8.ofNat v).toNat = v := toNat_ofNat_of_lt (by omega)
  rw [lead?, first, if_pos high]

theorem lead?_two (low : 0x80 ≤ v) (high : v < 0x800) :
    lead? (UInt8.ofNat (v / 64 % 32 + 0xc0)) = some ⟨v / 64, 0x80, 0xbf, 1⟩ := by
  have first : (UInt8.ofNat (v / 64 % 32 + 0xc0)).toNat = v / 64 + 0xc0 := by
    rw [toNat_ofNat_of_lt (by omega)]
    omega
  rw [lead?, first]
  rw [if_neg (by omega), if_neg (by omega), if_pos (by omega), Nat.add_sub_cancel]

theorem lead?_three (low : 0x800 ≤ v) (high : v < 0x10000) :
    lead? (UInt8.ofNat (v / 4096 % 16 + 0xe0)) =
      some ⟨v / 4096, if v / 4096 + 0xe0 = 0xe0 then 0xa0 else 0x80,
        if v / 4096 + 0xe0 = 0xed then 0x9f else 0xbf, 2⟩ := by
  have first : (UInt8.ofNat (v / 4096 % 16 + 0xe0)).toNat = v / 4096 + 0xe0 := by
    rw [toNat_ofNat_of_lt (by omega)]
    omega
  rw [lead?, first]
  rw [if_neg (by omega), if_neg (by omega), if_neg (by omega), if_pos (by omega),
    Nat.add_sub_cancel]

theorem lead?_four (low : 0x10000 ≤ v) (high : v < 0x110000) :
    lead? (UInt8.ofNat (v / 262144 % 8 + 0xf0)) =
      some ⟨v / 262144, if v / 262144 + 0xf0 = 0xf0 then 0x90 else 0x80,
        if v / 262144 + 0xf0 = 0xf4 then 0x8f else 0xbf, 3⟩ := by
  have first : (UInt8.ofNat (v / 262144 % 8 + 0xf0)).toNat = v / 262144 + 0xf0 := by
    rw [toNat_ofNat_of_lt (by omega)]
    omega
  rw [lead?, first]
  rw [if_neg (by omega), if_neg (by omega), if_neg (by omega), if_neg (by omega),
    if_pos (by omega), Nat.add_sub_cancel]

end

/-- The encoding of a character is read as the character. -/
theorem decode_utf8EncodeChar_append (c : Char) (rest : List UInt8) :
    decode (String.utf8EncodeChar c ++ rest) = c :: decode rest := by
  have valid : c.val.toNat < 0xd800 ∨ 0xdfff < c.val.toNat ∧ c.val.toNat < 0x110000 := c.valid
  have number : Char.ofNat c.val.toNat = c := Char.ofNat_toNat c
  unfold String.utf8EncodeChar
  dsimp only
  generalize c.val.toNat = v at *
  -- As many cases as there are lengths; in each the first byte promises the others.
  split
  · exact (decode_cons _ v rest (lead?_one (by omega)) rfl).trans (by rw [number])
  split
  · refine (decode_cons _ v rest (lead?_two (by omega) (by omega)) ?_).trans (by rw [number])
    dsimp only [List.append_eq, List.cons_append, List.nil_append]
    rw [continue?_cons (by rw [toNat_continuing]; omega), toNat_continuing, continue?]
    congr 2
    omega
  split
  · refine (decode_cons _ v rest (lead?_three (by omega) (by omega)) ?_).trans (by rw [number])
    dsimp only [List.append_eq, List.cons_append, List.nil_append]
    rw [continue?_cons (by rw [toNat_continuing]; split <;> split <;> omega), toNat_continuing,
      continue?_cons (by rw [toNat_continuing]; omega), toNat_continuing, continue?]
    congr 2
    omega
  · refine (decode_cons _ v rest (lead?_four (by omega) (by omega)) ?_).trans (by rw [number])
    dsimp only [List.append_eq, List.cons_append, List.nil_append]
    rw [continue?_cons (by rw [toNat_continuing]; split <;> split <;> omega), toNat_continuing,
      continue?_cons (by rw [toNat_continuing]; omega), toNat_continuing,
      continue?_cons (by rw [toNat_continuing]; omega), toNat_continuing, continue?]
    congr 2
    omega

/-- Only a character below the first continuing byte is encoded with such a byte, and as itself. -/
theorem toNat_eq_of_mem_utf8EncodeChar {c : Char} {b : UInt8} (mem : b ∈ String.utf8EncodeChar c)
    (low : b.toNat < 0x80) : c.toNat = b.toNat := by
  have valid : c.val.toNat < 0xd800 ∨ 0xdfff < c.val.toNat ∧ c.val.toNat < 0x110000 := c.valid
  change c.val.toNat = b.toNat
  unfold String.utf8EncodeChar at mem
  dsimp only at mem
  generalize c.val.toNat = v at *
  split at mem
  · rw [List.mem_singleton] at mem
    rw [mem, toNat_ofNat_of_lt (by omega)]
  -- Every other byte is a first byte or a continuing one, and neither is that low.
  exfalso
  split at mem
  · simp only [List.mem_cons, List.not_mem_nil, or_false] at mem
    rcases mem with rfl | rfl <;> rw [toNat_ofNat_of_lt (by omega)] at low <;> omega
  split at mem
  all_goals
    simp only [List.mem_cons, List.not_mem_nil, or_false] at mem
    rcases mem with rfl | rfl | rfl | rfl <;> rw [toNat_ofNat_of_lt (by omega)] at low <;> omega

/-! ## A text -/

theorem encode_eq_flatMap (text : String) :
    encode text = text.toList.flatMap String.utf8EncodeChar := by
  have bytes : text.toUTF8 = text.toList.utf8Encode := String.utf8Encode_toList.symm
  rw [encode, bytes, List.utf8Encode, List.data_toByteArray]

/-- The bytes of a text are read as that text. -/
theorem decode_encode (text : String) : decode (encode text) = text.toList := by
  rw [encode_eq_flatMap]
  induction text.toList with
  | nil => simp [decode]
  | cons c rest ih => rw [List.flatMap_cons, decode_utf8EncodeChar_append, ih]

/-- A low byte among those of a text is a character of it. -/
theorem exists_mem_toList_of_mem_encode {text : String} {b : UInt8} (mem : b ∈ encode text)
    (low : b.toNat < 0x80) : ∃ c ∈ text.toList, c.toNat = b.toNat := by
  rw [encode_eq_flatMap, List.mem_flatMap] at mem
  obtain ⟨c, hc, hb⟩ := mem
  exact ⟨c, hc, toNat_eq_of_mem_utf8EncodeChar hb low⟩

end GcodeJob.Utf8
