import GcodeJob.File.LineEnding
import GcodeJob.Index.Chain

/-!
# GcodeJob.Proofs.File.Lines

What the lines of some bytes are, said without reading them one by one.  The
first break byte is the terminator; the lines are the pieces between its
occurrences, each without its break bytes, and what follows the last
terminator is a line only if it has a byte of its own.

A line is found at its start: behind a line start the lines are those of the
bytes from there on (`linesBy_drop`), and a first line without terminator
inside splits off (`linesBy_append_cons`).
-/

namespace GcodeJob

/-! ## Terminator and ending -/

/-- The terminator of some bytes: the first break byte. -/
def terminatorOf? (bytes : List UInt8) : Option UInt8 := bytes.find? isBreak

/-- The line ending of some bytes: the first break byte and the byte right
after it say which. -/
def endingOf? (bytes : List UInt8) : Option LineEnding :=
  match bytes.dropWhile (!isBreak ·) with
  | [] => none
  | b :: rest =>
    some (if b = lineFeed then .lf else if rest.head? = some lineFeed then .crlf else .cr)

/-- Whether a byte ends a line. -/
def endsLine (terminator : Option UInt8) (b : UInt8) : Bool := terminator == some b

/-! ## Lines -/

/-- The bytes of a line are those that are no break bytes. -/
def withoutBreaks (bytes : List UInt8) : List UInt8 := bytes.filter (!isBreak ·)

/-- The pieces between the occurrences of a terminator. -/
def pieces (terminator : Option UInt8) (bytes : List UInt8) : List (List UInt8) :=
  (bytes.splitOnP (endsLine terminator)).map withoutBreaks

/-- The lines under a terminator.  A last piece that is empty is none. -/
def linesBy (terminator : Option UInt8) (bytes : List UInt8) : List (List UInt8) :=
  let pieces := pieces terminator bytes
  if pieces.getLast? = some [] then pieces.dropLast else pieces

/-- The lines of some bytes. -/
def linesOf (bytes : List UInt8) : List (List UInt8) := linesBy (terminatorOf? bytes) bytes

section
variable {terminator : Option UInt8} {bytes before rest : List UInt8} {b : UInt8}

theorem pieces_ne_nil (terminator : Option UInt8) (bytes : List UInt8) : pieces terminator bytes ≠ [] := by
  simp [pieces]

theorem pieces_append_cons (h : endsLine terminator b = true) :
    pieces terminator (before ++ b :: rest) =
      pieces terminator before ++ pieces terminator rest := by
  rw [pieces, List.splitOnP_append_cons _ _ h, List.map_append]
  rfl

theorem pieces_eq_singleton (h : ∀ b ∈ bytes, endsLine terminator b = false) :
    pieces terminator bytes = [withoutBreaks bytes] := by
  rw [pieces, List.splitOnP_eq_singleton h, List.map_singleton]

/-- Each terminator makes one piece more. -/
theorem length_pieces : (pieces terminator bytes).length = bytes.countP (endsLine terminator) + 1 := by
  rw [pieces, List.length_map]
  induction bytes with
  | nil => rfl
  | cons b rest ih =>
    rw [List.splitOnP_cons_eq_if_modifyHead, List.countP_cons]
    split
    · rw [List.length_cons, ih]
    · rw [List.length_modifyHead, ih]

/-- Whatever stands before a terminator is lines of its own. -/
theorem linesBy_append_cons_eq_append (h : endsLine terminator b = true) :
    linesBy terminator (before ++ b :: rest) =
      pieces terminator before ++ linesBy terminator rest := by
  have ne_nil := pieces_ne_nil terminator rest
  rw [linesBy, linesBy, pieces_append_cons h]
  rw [List.getLast?_append, List.getLast?_eq_some_getLast ne_nil, Option.some_or,
    List.dropLast_append_of_ne_nil ne_nil]
  split <;> rfl

/-- A first line that ends splits off. -/
theorem linesBy_append_cons (inside : ∀ b ∈ before, endsLine terminator b = false)
    (h : endsLine terminator b = true) :
    linesBy terminator (before ++ b :: rest) =
      withoutBreaks before :: linesBy terminator rest := by
  rw [linesBy_append_cons_eq_append h, pieces_eq_singleton inside, List.singleton_append]

/-- Bytes without a terminator are one line if they hold a byte of their own. -/
theorem linesBy_of_not_endsLine (h : ∀ b ∈ bytes, endsLine terminator b = false) :
    linesBy terminator bytes =
      if withoutBreaks bytes = [] then [] else [withoutBreaks bytes] := by
  rw [linesBy, pieces_eq_singleton h]
  simp

@[simp] theorem linesBy_nil (terminator : Option UInt8) : linesBy terminator [] = [] := by
  simp [linesBy, pieces, withoutBreaks]

/-- Some bytes end a line, or none does. -/
theorem exists_first_end (terminator : Option UInt8) (bytes : List UInt8) :
    (∀ b ∈ bytes, endsLine terminator b = false) ∨
      ∃ before b rest, bytes = before ++ b :: rest ∧
        (∀ b ∈ before, endsLine terminator b = false) ∧ endsLine terminator b = true := by
  cases found : bytes.find? (endsLine terminator) with
  | none => exact .inl (by simpa using found)
  | some b =>
    obtain ⟨ends, before, rest, eq, inside⟩ := List.find?_eq_some_iff_append.mp found
    exact .inr ⟨before, b, rest, eq, by simpa using inside, ends⟩

/-- There are at most as many lines as pieces. -/
theorem length_linesBy_le (terminator : Option UInt8) (bytes : List UInt8) :
    (linesBy terminator bytes).length ≤ bytes.countP (endsLine terminator) + 1 := by
  rw [linesBy, ← length_pieces]
  split
  · rw [List.length_dropLast]
    omega
  · exact Nat.le_refl _

/-- A byte more in front makes a line more if it is a terminator, and otherwise
concerns the first line only. -/
theorem drop_linesBy_cons (terminator : Option UInt8) (b : UInt8) (rest : List UInt8) (n : Nat) :
    (linesBy terminator (b :: rest)).drop (n + 1) =
      (linesBy terminator rest).drop (if endsLine terminator b then n else n + 1) := by
  by_cases ends : endsLine terminator b = true
  · have split : linesBy terminator (b :: rest) = [] :: linesBy terminator rest :=
      linesBy_append_cons (fun _ mem => absurd mem List.not_mem_nil) ends
    rw [if_pos ends, split, List.drop_succ_cons]
  have other : endsLine terminator b = false := by simpa using ends
  rw [if_neg ends]
  rcases exists_first_end terminator rest with inside | ⟨before, c, after, rfl, inside, last⟩
  · have one {bytes : List UInt8} (inside : ∀ b ∈ bytes, endsLine terminator b = false) :
        (linesBy terminator bytes).drop (n + 1) = [] := by
      rw [linesBy_of_not_endsLine inside]
      split <;> simp
    rw [one inside, one (by simpa [other] using inside)]
  · have inside' : ∀ c ∈ b :: before, endsLine terminator c = false := by
      simpa [other] using inside
    rw [← List.cons_append, linesBy_append_cons inside' last, linesBy_append_cons inside last,
      List.drop_succ_cons, List.drop_succ_cons]

/-- A line has a byte of its own or a terminator, so there are no more lines than bytes. -/
theorem length_linesBy_le_length (terminator : Option UInt8) (bytes : List UInt8) :
    (linesBy terminator bytes).length ≤ bytes.length := by
  have countP_le := List.countP_le_length (p := endsLine terminator) (l := bytes)
  have le := length_linesBy_le terminator bytes
  rcases Nat.lt_or_eq_of_le countP_le with lt | eq
  · omega
  -- Where every byte is a terminator, the piece behind the last one is empty.
  rcases List.eq_nil_or_concat bytes with rfl | ⟨before, b, rfl⟩
  · rw [linesBy_nil]
    exact Nat.le_refl _
  · rw [List.concat_eq_append] at eq le ⊢
    have ends : endsLine terminator b = true := List.countP_eq_length.mp eq b (by simp)
    rw [linesBy_append_cons_eq_append ends, linesBy_nil, List.append_nil, length_pieces]
    have countP_le := List.countP_le_length (p := endsLine terminator) (l := before)
    rw [List.length_append, List.length_singleton]
    omega

end

/-! ## Line starts -/

/-- Where a line starts: at the first byte or right behind a terminator.  Its
line is as many as there are terminators before it. -/
structure LineStart (terminator : Option UInt8) (bytes : List UInt8) (m : Mark) : Prop where
  offset_le : m.offset ≤ bytes.length
  line : (bytes.take m.offset).countP (endsLine terminator) = m.line
  behind : ∀ b, (bytes.take m.offset).getLast? = some b → endsLine terminator b = true

namespace LineStart
variable {terminator : Option UInt8} {bytes : List UInt8} {m : Mark}

theorem first : LineStart terminator bytes ⟨0, 0⟩ where
  offset_le := Nat.zero_le _
  line := by simp
  behind := by simp

/-- Behind a terminator the next line starts. -/
theorem of_getElem? {offset : Nat} {b : UInt8} (h : bytes[offset]? = some b)
    (ends : endsLine terminator b = true) :
    LineStart terminator bytes
      ⟨(bytes.take offset).countP (endsLine terminator) + 1, offset + 1⟩ := by
  have lt : offset < bytes.length := (List.getElem?_eq_some_iff.mp h).1
  have take_succ : bytes.take (offset + 1) = bytes.take offset ++ [b] := by
    rw [List.take_add_one, h, Option.toList_some]
  refine ⟨lt, ?_, ?_⟩
  · simp [take_succ, ends]
  · simp [take_succ, ends]

/-- The lines before a line start are as many as its line says, and those
from it on are the lines of the bytes from there on. -/
theorem exists_eq_append (h : LineStart terminator bytes m) :
    ∃ closed, closed.length = m.line ∧
      linesBy terminator bytes = closed ++ linesBy terminator (bytes.drop m.offset) := by
  have line := h.line
  have behind := h.behind
  have split := List.take_append_drop m.offset bytes
  rcases List.eq_nil_or_concat (bytes.take m.offset) with none | ⟨before, b, some⟩
  · rw [none] at line split
    refine ⟨[], line, ?_⟩
    rw [List.nil_append] at split
    rw [split, List.nil_append]
  · have ends : endsLine terminator b = true := behind b (by simp [some])
    refine ⟨pieces terminator before, ?_, ?_⟩
    · rw [length_pieces, ← line, some]
      simp [ends]
    · rw [some, List.concat_eq_append, List.append_assoc, List.singleton_append] at split
      conv => lhs; rw [← split]
      rw [linesBy_append_cons_eq_append ends]

/-- From a line start on the lines are those of the bytes behind it. -/
theorem linesBy_drop (h : LineStart terminator bytes m) :
    linesBy terminator (bytes.drop m.offset) = (linesBy terminator bytes).drop m.line := by
  obtain ⟨closed, length, eq⟩ := h.exists_eq_append
  rw [eq, ← length, List.drop_left]

/-- The number of lines, where the last terminator is known. -/
theorem length_linesBy (h : LineStart terminator bytes m)
    (rest : ∀ b ∈ bytes.drop m.offset, endsLine terminator b = false) :
    (linesBy terminator bytes).length =
      m.line + if (bytes.drop m.offset).any (!isBreak ·) then 1 else 0 := by
  obtain ⟨closed, length, eq⟩ := h.exists_eq_append
  have own : withoutBreaks (bytes.drop m.offset) = [] ↔
      ¬(bytes.drop m.offset).any (!isBreak ·) = true := by
    simp [withoutBreaks, List.filter_eq_nil_iff]
  rw [eq, List.length_append, length, linesBy_of_not_endsLine rest]
  by_cases h : (bytes.drop m.offset).any (!isBreak ·) = true
  · rw [if_pos h, if_neg (fun none => own.mp none h), List.length_singleton]
  · rw [if_neg h, if_pos (own.mpr h), List.length_nil]

end LineStart

/-! ## What a terminator makes of a byte -/

section
variable {bytes before rest : List UInt8} {b : UInt8}

theorem terminatorOf?_append (before rest : List UInt8) :
    terminatorOf? (before ++ rest) = (terminatorOf? before).or (terminatorOf? rest) :=
  List.find?_append

/-- The bytes from some place on tell nothing more of the terminator. -/
theorem terminatorOf?_or_drop (bytes : List UInt8) (offset : Nat) :
    (terminatorOf? bytes).or (terminatorOf? (bytes.drop offset)) = terminatorOf? bytes := by
  have split := terminatorOf?_append (bytes.take offset) (bytes.drop offset)
  rw [List.take_append_drop] at split
  rw [split, Option.or_assoc, Option.or_self]

/-- One byte more settles the terminator if nothing did before. -/
theorem settle_terminatorOf? (before : List UInt8) (b : UInt8) :
    settle (terminatorOf? before) b = terminatorOf? (before ++ [b]) := by
  rw [terminatorOf?_append, settle]
  cases h : isBreak b <;> simp [terminatorOf?, h]

theorem isBreak_of_terminatorOf? (h : terminatorOf? bytes = some b) : isBreak b = true :=
  List.find?_some h

/-- A break byte among some bytes settles their terminator. -/
theorem isSome_terminatorOf? (mem : b ∈ bytes) (h : isBreak b = true) :
    (terminatorOf? bytes).isSome := by
  rw [terminatorOf?, List.find?_isSome]
  exact ⟨b, mem, h⟩

/-- Bytes of a file leave its terminator as it is. -/
theorem settle_of_mem (mem : b ∈ bytes) :
    settle (terminatorOf? bytes) b = terminatorOf? bytes := by
  unfold settle
  split
  · obtain ⟨t, ht⟩ := Option.isSome_iff_exists.mp (isSome_terminatorOf? mem ‹_›)
    rw [ht, Option.some_or]
  · rfl

/-- What a byte of a file is to the line it stands in. -/
theorem role_of_mem (mem : b ∈ bytes) :
    ByteRole.of (terminatorOf? bytes) b =
      if endsLine (terminatorOf? bytes) b then .terminator
      else if isBreak b then .dropped else .content := by
  rw [ByteRole.of, settle_of_mem mem]
  by_cases h : terminatorOf? bytes = some b
  · simp [endsLine, h, isBreak_of_terminatorOf? h]
  · simp [endsLine, h]

/-- What was known before a byte and what stands from it on say the same as
what is known behind it and what stands there. -/
theorem settle_or_terminatorOf? (known : Option UInt8) (b : UInt8) (rest : List UInt8) :
    (settle known b).or (terminatorOf? rest) = known.or (terminatorOf? (b :: rest)) := by
  unfold settle terminatorOf?
  rw [List.find?_cons]
  cases isBreak b <;> cases known <;> rfl

/-- What a byte is to the line it stands in, as far as the terminator is known
before it or stands from it on. -/
theorem role_of_upcoming {known terminator : Option UInt8} {b : UInt8} {rest : List UInt8}
    (upcoming : known.or (terminatorOf? (b :: rest)) = terminator)
    (breaks : ∀ c, terminator = some c → isBreak c = true) :
    ByteRole.of known b =
      if endsLine terminator b then .terminator
      else if isBreak b then .dropped else .content := by
  rw [ByteRole.of, settle]
  cases own : isBreak b with
  | false =>
    have other : endsLine terminator b = false := by
      refine Bool.eq_false_iff.mpr fun ends => ?_
      have same : terminator = some b := by simpa [endsLine] using ends
      cases own.symm.trans (breaks b same)
    simp [other]
  | true =>
    have first : terminatorOf? (b :: rest) = some b := by simp [terminatorOf?, own]
    rw [first] at upcoming
    simp [upcoming, endsLine]

/-- A byte has the same role whether the bytes behind it are known or not. -/
theorem role_of_take (before rest : List UInt8) (b : UInt8) :
    ByteRole.of (terminatorOf? before) b = ByteRole.of (terminatorOf? (before ++ b :: rest)) b := by
  have mem : b ∈ before ++ b :: rest := by simp
  have more : before ++ b :: rest = before ++ [b] ++ rest := by simp
  rw [ByteRole.of, ByteRole.of, settle_of_mem mem, settle_terminatorOf?]
  split
  next h =>
    have known : (terminatorOf? (before ++ [b])).isSome := isSome_terminatorOf? (by simp) h
    obtain ⟨t, ht⟩ := Option.isSome_iff_exists.mp known
    rw [more, terminatorOf?_append _ rest, ht, Option.some_or]
  next => rfl

end

/-! ## Lines written one after the other -/

/-- The bytes of a line ending. -/
def LineEnding.bytes : LineEnding → List UInt8
  | .lf => [lineFeed]
  | .cr => [carriageReturn]
  | .crlf => [carriageReturn, lineFeed]

/-- A line ending is its terminator, and perhaps a byte to be dropped. -/
theorem LineEnding.exists_bytes_eq (ending : LineEnding) :
    isBreak ending.terminator = true ∧ ∃ dropped, ending.bytes = ending.terminator :: dropped ∧
      ∀ b ∈ dropped, isBreak b = true ∧ endsLine (some ending.terminator) b = false := by
  cases ending
  · exact ⟨rfl, [], rfl, by simp⟩
  · exact ⟨rfl, [], rfl, by simp⟩
  · exact ⟨rfl, [lineFeed], rfl, fun b mem => by rw [List.mem_singleton.mp mem]; decide⟩

section
variable {ending : LineEnding} {texts : List (List UInt8)}

/-- What an ending leaves of itself behind its terminator goes with the next line. -/
theorem linesBy_append_flatMap (dropped : List UInt8)
    (free : ∀ text ∈ texts, ∀ b ∈ text, isBreak b = false)
    (drops : ∀ b ∈ dropped, isBreak b = true ∧ endsLine (some ending.terminator) b = false) :
    linesBy (some ending.terminator) (dropped ++ texts.flatMap (· ++ ending.bytes)) = texts := by
  have nothing {dropped : List UInt8}
      (drops : ∀ b ∈ dropped, isBreak b = true ∧ endsLine (some ending.terminator) b = false) :
      withoutBreaks dropped = [] := by
    rw [withoutBreaks, List.filter_eq_nil_iff]
    exact fun b mem => by simp [(drops b mem).1]
  induction texts generalizing dropped with
  | nil =>
    rw [List.flatMap_nil, List.append_nil, linesBy_of_not_endsLine fun b mem => (drops b mem).2,
      if_pos (nothing drops)]
  | cons text texts ih =>
    obtain ⟨breaks, tail, bytes, tail_drops⟩ := ending.exists_bytes_eq
    have own : ∀ b ∈ text, isBreak b = false := free text List.mem_cons_self
    have inside : ∀ b ∈ dropped ++ text, endsLine (some ending.terminator) b = false := by
      intro b mem
      rcases List.mem_append.mp mem with before | mem
      · exact (drops b before).2
      · have ne : b ≠ ending.terminator := by
          intro eq
          rw [← eq, own b mem] at breaks
          cases breaks
        simpa [endsLine] using ne.symm
    have shape : dropped ++ (text :: texts).flatMap (· ++ ending.bytes) =
        dropped ++ text ++ ending.terminator :: (tail ++ texts.flatMap (· ++ ending.bytes)) := by
      simp [bytes]
    have kept : withoutBreaks text = text := by
      rw [withoutBreaks, List.filter_eq_self]
      exact fun b mem => by simp [own b mem]
    rw [shape, linesBy_append_cons inside (by simp [endsLine]),
      ih tail (fun text mem => free text (List.mem_cons_of_mem _ mem)) tail_drops]
    rw [withoutBreaks, List.filter_append, ← withoutBreaks, ← withoutBreaks, nothing drops, kept,
      List.nil_append]

/-- Lines free of break bytes, each followed by the same ending, are found again. -/
theorem linesOf_flatMap (free : ∀ text ∈ texts, ∀ b ∈ text, isBreak b = false) :
    linesOf (texts.flatMap (· ++ ending.bytes)) = texts := by
  cases texts with
  | nil => simp [linesOf, linesBy, pieces, withoutBreaks]
  | cons text rest =>
    obtain ⟨breaks, tail, bytes, -⟩ := ending.exists_bytes_eq
    have found : terminatorOf? ((text :: rest).flatMap (· ++ ending.bytes)) =
        some ending.terminator := by
      rw [terminatorOf?, List.find?_eq_some_iff_append]
      refine ⟨breaks, text, tail ++ rest.flatMap (· ++ ending.bytes), by simp [bytes], ?_⟩
      exact fun b mem => by simp [free text List.mem_cons_self b mem]
    rw [linesOf, found]
    exact linesBy_append_flatMap [] free (by simp)

end

end GcodeJob
