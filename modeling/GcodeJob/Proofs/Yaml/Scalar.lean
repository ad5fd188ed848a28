import GcodeJob.Yaml.Scalar

/-!
# GcodeJob.Proofs.Yaml.Scalar

Plain scalars that are one word of letters, digits and underscores.

Such a word has no character that means anything to a scanner, wherever it
stands, so a scalar goes to the end of the word, `readPlain_word`.  To see
whether it goes on, the reader looks at the next line: `read_gap` says where
that leaves the cursor, at the first word behind the indentation.
-/

namespace GcodeJob.Yaml

/-! ## Words -/

/-- A character that stands for itself wherever it is. -/
def isWordChar (c : Char) : Bool := c.isAlphanum || c = '_'

section
variable {c : Char} {w rest : List Char}

theorem ne_of_isWordChar (h : isWordChar c = true) {d : Char} (mark : isWordChar d = false) :
    c ≠ d := by
  rintro rfl
  rw [h] at mark
  cases mark

theorem isBlank_of_isWordChar (h : isWordChar c = true) : isBlank c = false := by
  have space := ne_of_isWordChar (d := ' ') h rfl
  have tab := ne_of_isWordChar (d := '\t') h rfl
  simp [isBlank, space, tab]

theorem isBreak_of_isWordChar (h : isWordChar c = true) : isBreak c = false := by
  have lf := ne_of_isWordChar (d := '\n') h (by decide)
  have cr := ne_of_isWordChar (d := '\r') h (by decide)
  have nel := ne_of_isWordChar (d := '\x85') h (by decide)
  have ls := ne_of_isWordChar (d := '\u2028') h (by decide)
  have ps := ne_of_isWordChar (d := '\u2029') h (by decide)
  simp [isBreak, lf, cr, nel, ls, ps]

theorem isGap_of_isWordChar (h : isWordChar c = true) : isGap c = false := by
  simp [isGap, isBlank_of_isWordChar h, isBreak_of_isWordChar h]

theorem toNat_of_isWordChar (h : isWordChar c = true) : 48 ≤ c.toNat ∧ c.toNat ≤ 122 := by
  delta isWordChar Char.isAlphanum Char.isAlpha Char.isUpper Char.isLower Char.isDigit at h
  simp only [Bool.or_eq_true, Bool.and_eq_true, decide_eq_true_eq, UInt32.le_iff_toNat_le,
    ge_iff_le] at h
  have : c.toNat = c.val.toNat := rfl
  have : 'Z'.val.toNat = 90 := rfl
  have : 'A'.val.toNat = 65 := rfl
  have : 'z'.val.toNat = 122 := rfl
  have : 'a'.val.toNat = 97 := rfl
  have : '9'.val.toNat = 57 := rfl
  have : '0'.val.toNat = 48 := rfl
  rcases h with h | rfl
  · omega
  · decide

theorem isAllowed_of_isWordChar (h : isWordChar c = true) : isAllowed c = true := by
  have range := toNat_of_isWordChar h
  have printable : ' ' ≤ c ∧ c ≤ '~' := by
    simp only [Char.le_def, UInt32.le_iff_toNat_le]
    have : c.toNat = c.val.toNat := rfl
    have : ' '.val.toNat = 32 := rfl
    have : '~'.val.toNat = 126 := rfl
    omega
  simp [isAllowed, printable]

theorem utf8Size_of_isWordChar (h : isWordChar c = true) : c.utf8Size = 1 := by
  have range := toNat_of_isWordChar h
  have small : c.val ≤ 127 := by
    simp only [UInt32.le_iff_toNat_le]
    have : c.toNat = c.val.toNat := rfl
    have : (127 : UInt32).toNat = 127 := rfl
    omega
  simp [Char.utf8Size, small]

theorem byteCount_eq (chars : ∀ c ∈ w, isWordChar c = true) : byteCount w = w.length := by
  have from_ (n : Nat) : w.foldl (fun n c => n + c.utf8Size) n = n + w.length := by
    induction w generalizing n with
    | nil => rfl
    | cons c w ih =>
      have size := utf8Size_of_isWordChar (chars c (by simp))
      have rest := ih (fun d mem => chars d (by simp [mem])) (n + 1)
      simp only [List.foldl_cons, List.length_cons, size, rest]
      omega
  simpa [byteCount] using from_ 0

/-- A word of a plain scalar is read to its end. -/
theorem plainWord_append (chars : ∀ c ∈ w, isWordChar c = true) (word : Array Char)
    (ends : plainWord false (word ++ w.toArray) rest = some (word ++ w.toArray)) :
    plainWord false word (w ++ rest) = some (word ++ w.toArray) := by
  induction w generalizing word with
  | nil => simpa using ends
  | cons c w ih =>
    have own := chars c (by simp)
    have colon := ne_of_isWordChar (d := ':') own (by decide)
    have grown : word ++ (c :: w).toArray = word.push c ++ w.toArray := by simp
    rw [List.cons_append, plainWord, grown]
    rw [grown] at ends
    simpa [isGap_of_isWordChar own, colon] using ih (fun d mem => chars d (by simp [mem])) _ ends

end

/-- A scalar that is one word of letters, digits and underscores. -/
structure Plain where
  chars : List Char
  isWord : ∀ c ∈ chars, isWordChar c = true
  ne : chars ≠ []

/-- A word that is short enough for a key. -/
structure Key extends Plain where
  short : chars.length ≤ 1024

namespace Plain

variable (w : Plain)

def text : String := .ofList w.chars

theorem length_pos : 0 < w.chars.length := List.length_pos_iff.mpr w.ne

theorem exists_first : ∃ x rest, w.chars = x :: rest ∧ isWordChar x = true := by
  obtain ⟨x, rest, first⟩ := List.exists_cons_of_ne_nil w.ne
  exact ⟨x, rest, first, w.isWord x (by simp [first])⟩

theorem all_isAllowed : w.chars.all isAllowed = true := by
  rw [List.all_eq_true]
  intro c mem
  exact isAllowed_of_isWordChar (w.isWord c mem)

end Plain

/-! ## Places -/

/-- A token begins here, or the text is at its end. -/
def BeginsToken (text : List Char) : Prop :=
  ∀ x, text.head? = some x → isBlank x = false ∧ isBreak x = false ∧ x ≠ '#' ∧ x ≠ '\ufeff'

theorem beginsToken_nil : BeginsToken [] := by
  intro x at_
  simp at at_

theorem beginsToken_of_isWordChar {c : Char} (h : isWordChar c = true) (text : List Char) :
    BeginsToken (c :: text) := by
  intro x at_
  obtain rfl : c = x := by simpa using at_
  exact ⟨isBlank_of_isWordChar h, isBreak_of_isWordChar h, ne_of_isWordChar h (by decide),
    ne_of_isWordChar h (by decide)⟩

theorem Plain.beginsToken (w : Plain) (text : List Char) : BeginsToken (w.chars ++ text) := by
  obtain ⟨x, rest, first, own⟩ := w.exists_first
  rw [first]
  exact beginsToken_of_isWordChar own _

namespace Cursor

@[simp] theorem rest_advance (c : Cursor) (n : Nat) : (c.advance n).rest = c.rest.drop n := rfl

@[simp] theorem column_advance (c : Cursor) (n : Nat) : (c.advance n).column = c.column + n := rfl

@[simp] theorem line_advance (c : Cursor) (n : Nat) : (c.advance n).line = c.line := rfl

@[simp] theorem size_advance (c : Cursor) (n : Nat) : (c.advance n).size = c.size := rfl

@[simp] theorem offset_advance (c : Cursor) (n : Nat) :
    (c.advance n).offset = c.offset + byteCount (c.rest.take n) := rfl

@[simp] theorem advance_zero (c : Cursor) : c.advance 0 = c := by
  simp [advance, byteCount]

section
variable {c : Cursor} {n : Nat} {text : List Char}

/-- Blanks are passed over up to the token behind them. -/
theorem span_blanks (at_ : c.rest = List.replicate n ' ' ++ text) (begins : BeginsToken text)
    {p : Char → Bool} (space : p ' ' = true) (none : ∀ x, isBlank x = false → p x = false) :
    (c.span p).2 = c.advance n := by
  have stops : text.takeWhile p = [] := by
    cases text with
    | nil => rfl
    | cons x text => simp [none x (begins x rfl).1]
  have taken : c.rest.takeWhile p = List.replicate n ' ' := by
    rw [at_, List.takeWhile_append_of_pos]
    · simp [stops]
    · intro x mem
      rw [List.eq_of_mem_replicate mem]
      exact space
  simp [span, taken]

theorem skipComment_eq (begins : BeginsToken c.rest) : c.skipComment = c := by
  unfold skipComment sees
  cases first : c.rest.head? with
  | none => simp
  | some x => simp [(begins x first).2.2.1]

theorem lineBreak?_eq_none (begins : BeginsToken c.rest) : c.lineBreak? = none := by
  unfold lineBreak?
  cases at_ : c.rest with
  | nil => rfl
  | cons x rest =>
    have own := (begins x (by simp [at_])).2.1
    have ne : x ≠ '\r' := by
      rintro rfl
      revert own
      decide
    simp [own, ne]

theorem skipOrderMark_eq (at_ : c.rest = List.replicate n ' ' ++ text) (begins : BeginsToken text) :
    c.skipOrderMark = c := by
  unfold skipOrderMark sees
  rw [at_]
  cases n with
  | succ n => simp [List.replicate_succ]
  | zero =>
    cases first : text.head? with
    | none => simp [first]
    | some x => simp [first, (begins x first).2.2.2]

end

end Cursor

/-! ## Scalars -/

section
variable {text : List Char} {n : Nat}

theorem lineBreak?_lineFeed {c : Cursor} (at_ : c.rest = '\n' :: text) :
    c.lineBreak? = some ('\n', { c with
      rest := text, offset := c.offset + 1, line := c.line + 1, column := 0 }) := by
  have size : Char.utf8Size '\n' = 1 := by decide
  simp [Cursor.lineBreak?, at_, isBreak, size]

theorem atDocumentMark_of_isWordChar {c : Cursor} {x : Char} (h : isWordChar x = true)
    (at_ : c.rest = x :: text) : c.atDocumentMark = false := by
  have minus := ne_of_isWordChar (d := '-') h rfl
  have dot := ne_of_isWordChar (d := '.') h rfl
  unfold Cursor.atDocumentMark
  rw [at_]
  split <;> simp_all

/-- A plain scalar that is one word. -/
theorem readPlain_word (w : Plain) {c : Cursor} (at_ : c.rest = w.chars ++ text)
    (ends : plainWord false w.chars.toArray text = some w.chars.toArray) (column fuel : Nat) :
    readPlain false column (fuel + 1) #[] {} c =
      if !(text.head?.any isGap) then some (w.chars.toArray, false, c.advance w.chars.length)
      else (Gap.read column c.steps {} (c.advance w.chars.length)).bind fun (gap, c) =>
        if c.column < column then some (w.chars.toArray, gap.isBroken, c)
        else readPlain false column fuel w.chars.toArray gap c := by
  have word : plainWord false #[] c.rest = some w.chars.toArray := by
    have read : plainWord false #[] (w.chars ++ text) = some (#[] ++ w.chars.toArray) :=
      plainWord_append w.isWord #[] (by simpa using ends)
    simpa [at_] using read
  have left : (c.advance w.chars.length).rest = text := by simp [at_]
  have peek : (c.advance w.chars.length).peek? = text.head? := by rw [Cursor.peek?, left]
  obtain ⟨x, rest, first, own⟩ := w.exists_first
  have head : c.rest = x :: (rest ++ text) := by simp [at_, first]
  have mark : c.atDocumentMark = false := atDocumentMark_of_isWordChar own head
  have comment : c.sees '#' = false := by
    have hash := ne_of_isWordChar (d := '#') own rfl
    simp [Cursor.sees, head, hash]
  have steps : (c.advance w.chars.length).steps = c.steps := rfl
  rw [readPlain]
  simp [mark, comment, word, w.ne, peek, steps, Gap.text]

/-- Indentation is read to the first word behind it. -/
theorem read_indentation {c : Cursor} {gap : Gap} (broken : gap.isBroken = true) (indent : Nat)
    {fuel : Nat} (at_ : c.rest = List.replicate n ' ' ++ text) (begins : BeginsToken text)
    (enough : n < fuel) : ∃ c', Gap.read indent fuel gap c = some (gap, c') ∧ c'.rest = text ∧
      c'.column = c.column + n ∧ c'.size = c.size := by
  induction n generalizing c fuel with
  | zero =>
    obtain ⟨fuel, rfl⟩ : ∃ k, fuel = k + 1 := ⟨fuel - 1, by omega⟩
    have at_ : c.rest = text := by simpa using at_
    refine ⟨c, ?_, at_, rfl, rfl⟩
    rw [Gap.read, Cursor.lineBreak?_eq_none (at_ ▸ begins), Cursor.peek?, at_]
    cases first : text.head? with
    | none => rfl
    | some x => simp [(begins x first).1]
  | succ n ih =>
    obtain ⟨fuel, rfl⟩ : ∃ k, fuel = k + 1 := ⟨fuel - 1, by omega⟩
    rw [List.replicate_succ, List.cons_append] at at_
    have noBreak : c.lineBreak? = none := by simp [Cursor.lineBreak?, at_, isBreak]
    have next : c.advance.rest = List.replicate n ' ' ++ text := by simp [at_]
    obtain ⟨c', read, rest, column, size⟩ := ih next (show n < fuel by omega)
    refine ⟨c', ?_, rest, by rw [column, Cursor.column_advance]; omega, size⟩
    rw [Gap.read, noBreak, Cursor.peek?, at_]
    simp [isBlank, broken, read]

/-- The gap behind the last word of a line ends at the first word of the next. -/
theorem read_gap {c : Cursor} (indent : Nat) {fuel : Nat}
    (at_ : c.rest = '\n' :: (List.replicate n ' ' ++ text)) (begins : BeginsToken text)
    (enough : n + 1 < fuel) :
    ∃ gap c', Gap.read indent fuel {} c = some (gap, c') ∧ gap.isBroken = true ∧
      c'.rest = text ∧ c'.column = n ∧ c'.size = c.size := by
  obtain ⟨fuel, rfl⟩ : ∃ k, fuel = k + 1 := ⟨fuel - 1, by omega⟩
  have broken : (Gap.addBreak {} '\n').isBroken = true := rfl
  obtain ⟨c', read, rest, column, size⟩ := read_indentation (c := { c with
    rest := List.replicate n ' ' ++ text, offset := c.offset + 1, line := c.line + 1, column := 0 })
    broken indent rfl begins (show n < fuel by omega)
  refine ⟨_, c', ?_, broken, rest, by simpa using column, size⟩
  rw [Gap.read, lineBreak?_lineFeed at_]
  exact read

end

end GcodeJob.Yaml
