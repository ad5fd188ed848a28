import GcodeJob.File.Scan
import GcodeJob.Proofs.File.Lines
import GcodeJob.Proofs.Index.Floor

/-!
# GcodeJob.Proofs.File.Scan

What a scan knows of a file.  However the bytes are cut into chunks, after a
scan of the first bytes its counts and its last line start are those of these
bytes (`Scan.Covers`), and the marks of its chain are line starts.  A scan of
all bytes has counted the lines.
-/

namespace GcodeJob

/-! ## The ending, byte by byte -/

section
variable {own rest : List UInt8} {b x : UInt8}

theorem endingOf?_of_not_isBreak (inside : ∀ b ∈ own, isBreak b = false) :
    endingOf? own = none := by
  have dropped : (own ++ []).dropWhile (!isBreak ·) = [].dropWhile (!isBreak ·) :=
    List.dropWhile_append_of_pos (by simpa using inside)
  rw [List.append_nil, List.dropWhile_nil] at dropped
  rw [endingOf?, dropped]

theorem endingOf?_append_cons (inside : ∀ b ∈ own, isBreak b = false) (first : isBreak x = true) :
    endingOf? (own ++ x :: rest) =
      some (if x = lineFeed then .lf else if rest.head? = some lineFeed then .crlf else .cr) := by
  have dropped : (own ++ x :: rest).dropWhile (!isBreak ·) = x :: rest := by
    rw [List.dropWhile_append_of_pos (by simpa using inside),
      List.dropWhile_cons_of_neg (by simp [first])]
  rw [endingOf?, dropped]

theorem findIdx?_append_cons (inside : ∀ b ∈ own, isBreak b = false) (first : isBreak x = true) :
    (own ++ x :: rest).findIdx? isBreak = some own.length := by
  rw [List.findIdx?_append, List.findIdx?_eq_none_iff.mpr inside, List.findIdx?_cons, if_pos first]
  simp

/-- Some bytes hold no break byte, or a first one. -/
theorem exists_first_break (bytes : List UInt8) :
    (∀ b ∈ bytes, isBreak b = false) ∨
      ∃ own x rest, bytes = own ++ x :: rest ∧ (∀ b ∈ own, isBreak b = false) ∧ isBreak x = true := by
  cases found : bytes.find? isBreak with
  | none => exact .inl (by simpa using found)
  | some x =>
    obtain ⟨first, own, rest, eq, inside⟩ := List.find?_eq_some_iff_append.mp found
    exact .inr ⟨own, x, rest, eq, by simpa using inside, first⟩

/-- The ending names the terminator. -/
theorem terminator_endingOf? (bytes : List UInt8) :
    (endingOf? bytes).map LineEnding.terminator = terminatorOf? bytes := by
  rcases exists_first_break bytes with inside | ⟨own, x, rest, rfl, inside, first⟩
  · rw [endingOf?_of_not_isBreak inside, terminatorOf?, List.find?_eq_none.mpr (by simpa using inside)]
    rfl
  · have found : terminatorOf? (own ++ x :: rest) = some x := by
      rw [terminatorOf?, List.find?_eq_some_iff_append]
      exact ⟨first, own, rest, rfl, by simpa using inside⟩
    rw [endingOf?_append_cons inside first, found, Option.map_some]
    simp only [isBreak, Bool.or_eq_true, beq_iff_eq] at first
    rcases first with rfl | rfl
    · rfl
    · rw [if_neg (by decide)]
      split <;> rfl

/-- Only the first break byte and the one behind it bear on the ending. -/
theorem endingOf?_append_singleton (before : List UInt8) (b : UInt8) :
    endingOf? (before ++ [b]) =
      match endingOf? before with
      | none => if isBreak b then some (.ofBreak b) else none
      | some .cr =>
        some (if b = lineFeed ∧ (before.findIdx? isBreak).map (· + 1) = some before.length
          then .crlf else .cr)
      | some ending => some ending := by
  rcases exists_first_break before with inside | ⟨own, x, rest, rfl, inside, first⟩
  · rw [endingOf?_of_not_isBreak inside]
    by_cases first : isBreak b = true
    · rw [endingOf?_append_cons inside first, if_pos first]
      simp [LineEnding.ofBreak]
    · rw [if_neg first, endingOf?_of_not_isBreak]
      intro c mem
      rcases List.mem_append.mp mem with mem | mem
      · exact inside c mem
      · rw [List.mem_singleton.mp mem]
        simpa using first
  · rw [List.append_assoc, List.cons_append, endingOf?_append_cons inside first,
      endingOf?_append_cons inside first, findIdx?_append_cons inside first]
    by_cases lf : x = lineFeed
    · simp [lf]
    · rw [if_neg lf, if_neg lf]
      cases rest with
      | nil => simp
      | cons y rest => by_cases y = lineFeed <;> simp [*]

end

/-! ## A scan of the first bytes -/

namespace Scan

/-- A scan that has taken the first `offset` of some bytes. -/
structure Covers (bytes : List UInt8) (s : Scan) : Prop where
  offset_le : s.offset ≤ bytes.length
  ending : s.ending = endingOf? (bytes.take s.offset)
  firstBreak : s.firstBreak = (bytes.take s.offset).findIdx? isBreak
  lastStart : LineStart (terminatorOf? bytes) bytes s.lastStart
  lastStart_le : s.lastStart.offset ≤ s.offset
  line : s.line = s.lastStart.line
  inside : ∀ b ∈ (bytes.take s.offset).drop s.lastStart.offset,
    endsLine (terminatorOf? bytes) b = false
  hasContent : s.hasContent = ((bytes.take s.offset).drop s.lastStart.offset).any (!isBreak ·)
  ordered : s.chain.Ordered
  marks : ∀ m ∈ s.chain.toList, LineStart (terminatorOf? bytes) bytes m

namespace Covers
variable {bytes : List UInt8} {s : Scan}

theorem start (bytes : List UInt8) : Covers bytes {} where
  offset_le := Nat.zero_le _
  ending := by simp [endingOf?]
  firstBreak := by simp
  lastStart := .first
  lastStart_le := Nat.le_refl _
  line := rfl
  inside := by simp
  hasContent := by simp
  ordered := .start
  marks := by simp [LineStart.first]

/-- As many terminators as there are lines are among the bytes taken. -/
theorem countP_take (h : Covers bytes s) :
    (bytes.take s.offset).countP (endsLine (terminatorOf? bytes)) = s.line := by
  have split := List.take_append_drop s.lastStart.offset (bytes.take s.offset)
  have none : ((bytes.take s.offset).drop s.lastStart.offset).countP
      (endsLine (terminatorOf? bytes)) = 0 := by
    rw [List.countP_eq_zero]
    simpa using h.inside
  rw [← split, List.countP_append, none, List.take_take, Nat.min_eq_left h.lastStart_le,
    h.lastStart.line, h.line, Nat.add_zero]

theorem terminator_eq (h : Covers bytes s) : s.terminator = terminatorOf? (bytes.take s.offset) := by
  rw [terminator, h.ending, terminator_endingOf?]

theorem take_succ {offset : Nat} {b : UInt8} (next : bytes[offset]? = some b) :
    bytes.take (offset + 1) = bytes.take offset ++ [b] := by
  rw [List.take_add_one, next, Option.toList_some]

theorem endingAfter_eq (h : Covers bytes s) {b : UInt8} (next : bytes[s.offset]? = some b) :
    s.endingAfter b = endingOf? (bytes.take (s.offset + 1)) := by
  have length : (bytes.take s.offset).length = s.offset := List.length_take_of_le h.offset_le
  have known := endingOf?_append_singleton (bytes.take s.offset) b
  rw [← h.ending, ← h.firstBreak, length] at known
  rw [take_succ next, known]
  unfold Scan.endingAfter
  cases s.ending with
  | none => rfl
  | some ending => cases ending <;> rfl

theorem firstBreak_eq (h : Covers bytes s) {b : UInt8} (next : bytes[s.offset]? = some b) :
    s.firstBreak.or (if isBreak b then some s.offset else none) =
      (bytes.take (s.offset + 1)).findIdx? isBreak := by
  have length : (bytes.take s.offset).length = s.offset := List.length_take_of_le h.offset_le
  rw [take_succ next, List.findIdx?_append, ← h.firstBreak, length]
  cases own : isBreak b <;> simp [own]

/-- What the next byte is to its line is known before the bytes behind it are. -/
theorem role_eq (h : Covers bytes s) {b : UInt8} (next : bytes[s.offset]? = some b) :
    ByteRole.of s.terminator b =
      if endsLine (terminatorOf? bytes) b then .terminator
      else if isBreak b then .dropped else .content := by
  obtain ⟨lt, at_offset⟩ := List.getElem?_eq_some_iff.mp next
  have split : bytes.take s.offset ++ b :: bytes.drop (s.offset + 1) = bytes := by
    rw [← at_offset, ← List.drop_eq_getElem_cons lt, List.take_append_drop]
  rw [h.terminator_eq, role_of_take _ (bytes.drop (s.offset + 1)), split,
    role_of_mem (List.mem_of_getElem? next)]

/-- Taking the byte that comes next. -/
theorem byte (h : Covers bytes s) {b : UInt8} (next : bytes[s.offset]? = some b) :
    Covers bytes (s.byte b) := by
  have lt : s.offset < bytes.length := (List.getElem?_eq_some_iff.mp next).1
  have length : (bytes.take s.offset).length = s.offset := List.length_take_of_le h.offset_le
  have role := h.role_eq next
  have dropped : (bytes.take (s.offset + 1)).drop s.lastStart.offset =
      (bytes.take s.offset).drop s.lastStart.offset ++ [b] := by
    rw [take_succ next, List.drop_append_of_le_length (by rw [length]; exact h.lastStart_le)]
  unfold Scan.byte
  dsimp only
  by_cases ends : endsLine (terminatorOf? bytes) b = true
  · rw [if_pos ends] at role
    have next_start := LineStart.of_getElem? next ends
    rw [h.countP_take] at next_start
    have none : (bytes.take (s.offset + 1)).drop (s.offset + 1) = [] :=
      List.drop_eq_nil_of_le (List.length_take_le ..)
    rw [role]
    exact
      { offset_le := lt
        ending := h.endingAfter_eq next
        firstBreak := h.firstBreak_eq next
        lastStart := next_start
        lastStart_le := Nat.le_refl _
        line := rfl
        inside := by simp [none]
        hasContent := by simp [none]
        ordered := h.ordered
        marks := h.marks }
  -- Any other byte leaves the line open; only one of its own makes it count.
  · rw [if_neg ends] at role
    have inside : ∀ c ∈ (bytes.take (s.offset + 1)).drop s.lastStart.offset,
        endsLine (terminatorOf? bytes) c = false := by
      intro c mem
      rw [dropped] at mem
      rcases List.mem_append.mp mem with before | last
      · exact h.inside c before
      · rw [List.mem_singleton.mp last]
        simpa using ends
    have open_line {s' : Scan} (hasContent : s'.hasContent =
          ((bytes.take (s.offset + 1)).drop s.lastStart.offset).any (!isBreak ·))
        (eq : s' = { s with
          offset := s.offset + 1, ending := s.endingAfter b, hasContent := s'.hasContent
          firstBreak := s.firstBreak.or (if isBreak b then some s.offset else none) }) :
        Covers bytes s' := by
      rw [eq]
      exact
        { offset_le := lt
          ending := h.endingAfter_eq next
          firstBreak := h.firstBreak_eq next
          lastStart := h.lastStart
          lastStart_le := Nat.le_succ_of_le h.lastStart_le
          line := h.line
          inside
          hasContent
          ordered := h.ordered
          marks := h.marks }
    by_cases own : isBreak b = true
    · rw [if_pos own] at role
      rw [role]
      exact open_line (by simp [dropped, own, h.hasContent]) rfl
    · rw [if_neg own] at role
      rw [role]
      exact open_line (by simp [dropped, own]) rfl

@[simp] theorem offset_byte (s : Scan) (b : UInt8) : (s.byte b).offset = s.offset + 1 := by
  unfold Scan.byte
  dsimp only
  split <;> rfl

theorem offset_foldl_byte (s : Scan) (chunk : List UInt8) :
    (chunk.foldl Scan.byte s).offset = s.offset + chunk.length := by
  induction chunk generalizing s with
  | nil => rfl
  | cons b chunk ih =>
    rw [List.foldl_cons, ih, offset_byte, List.length_cons]
    omega

/-- Taking the bytes that come next. -/
theorem foldl_byte (h : Covers bytes s) {chunk : List UInt8}
    (next : chunk <+: bytes.drop s.offset) : Covers bytes (chunk.foldl Scan.byte s) := by
  induction chunk generalizing s with
  | nil => exact h
  | cons b chunk ih =>
    obtain ⟨rest, eq⟩ := next
    have first : bytes[s.offset]? = some b := by
      rw [← List.head?_drop, ← eq, List.cons_append, List.head?_cons]
    refine ih (h.byte first) ⟨rest, ?_⟩
    rw [offset_byte, ← List.tail_drop, ← eq, List.cons_append, List.tail_cons]

/-- Marking the last line start. -/
theorem mark (h : Covers bytes s) : Covers bytes s.mark :=
  { h with
    ordered := h.ordered.push _
    marks := fun m mem =>
      match Chain.mem_push mem with
      | .inl before => h.marks m before
      | .inr last => last ▸ h.lastStart }

/-- Taking the chunk that comes next. -/
theorem chunk (h : Covers bytes s) {chunk : List UInt8} (next : chunk <+: bytes.drop s.offset) :
    Covers bytes (s.chunk chunk) := (h.foldl_byte next).mark

/-- All bytes taken, the lines have been counted. -/
theorem totalLines_eq (h : Covers bytes s) (done : s.offset = bytes.length) :
    s.totalLines = (linesOf bytes).length := by
  have inside := h.inside
  have hasContent := h.hasContent
  rw [done, List.take_length] at inside hasContent
  rw [totalLines, linesOf, h.lastStart.length_linesBy inside, h.line, hasContent]

/-- All bytes taken, the ending is theirs. -/
theorem ending_eq (h : Covers bytes s) (done : s.offset = bytes.length) :
    s.ending = endingOf? bytes := by
  rw [h.ending, done, List.take_length]

end Covers

end Scan

end GcodeJob
