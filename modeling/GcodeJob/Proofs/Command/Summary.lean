import GcodeJob.Command.Summary
import GcodeJob.Proofs.Command.Spelling
import GcodeJob.Proofs.Number.Decimal
import Mathlib.Data.List.Forall2

/-!
# GcodeJob.Proofs.Command.Summary

A summary tells commands apart.  Its first two tabs end the line index and the
code, the semicolon of the comment ends the parameters, and a space ends each of
them: there is no tab in a code, no semicolon in a parameter and no space
either.  A question mark tells an invalid parameter from a valid one, whose
value is the only finite number with its text.

**Main result** (`Command.summary_eq_iff`): two commands that were read from
lines, neither of them invalid, have the same summary just if they agree in all
that it shows.
-/

namespace GcodeJob

/-! ## One parameter -/

/-- Parameters that agree in what is shown of them: both are valid, with one name
and one value, or neither is, and they have one text. -/
structure Parameter.Alike (p q : Parameter) : Prop where
  valid : p.isValid = q.isValid
  of_valid : p.isValid = true → p.name = q.name ∧ p.value = q.value
  of_invalid : p.isValid = false → p.raw = q.raw

namespace Parameter

theorem toList_summary_of_valid {p : Parameter} (h : p.isValid = true) :
    p.summary.toList = p.name :: '=' :: p.value.text.toList := by
  simp [summary, h]

theorem toList_summary_of_invalid {p : Parameter} (h : p.isValid = false) :
    p.summary.toList = p.raw.toList ++ ['?'] := by
  simp [summary, h]

/-- The value of a parameter is finite, as only finite numbers are read. -/
theorem isFinite_value_ofWord (w : Word) : (ofWord w).value.isFinite = true := by
  have stands := ofWord_standsFor w
  have zero : Double.zero.isFinite = true := by decide
  cases read : Numeral.finite? w.2 with
  | none => rwa [stands.other read]
  | some x =>
    rw [stands.number x read]
    exact (Option.filter_eq_some_iff.mp read).2

/-- A valid parameter is shown in letters, digits and three other characters. -/
theorem of_mem_summary {p : Parameter} (valid : p.isValid = true) {c : Char}
    (mem : c ∈ p.summary.toList) :
    c.isAlpha = true ∨ c.isDigit = true ∨ c = '=' ∨ c = '.' ∨ c = '-' := by
  have letter : p.name.isAlpha = true := (Bool.and_eq_true_iff.mp valid).1
  rw [toList_summary_of_valid valid] at mem
  simp only [List.mem_cons] at mem
  rcases mem with rfl | rfl | mem
  · exact .inl letter
  · simp
  · exact .inr ((Double.of_mem_text mem).imp_right .inr)

/-- A question mark is shown of the invalid ones only. -/
theorem mem_summary_iff {p : Parameter} : '?' ∈ p.summary.toList ↔ p.isValid = false := by
  constructor
  · intro mem
    by_contra valid
    exact absurd (of_mem_summary (eq_true_of_ne_false valid) mem) (by decide)
  · intro invalid
    simp [toList_summary_of_invalid invalid]

theorem summary_ne_nil (p : Parameter) : p.summary.toList ≠ [] := by
  by_cases valid : p.isValid = true
  · simp [toList_summary_of_valid valid]
  · simp [toList_summary_of_invalid (eq_false_of_ne_true valid)]

/-- What is shown of a word has no more spaces and semicolons than the word. -/
theorem plain_summary {w : Word} (plain : ∀ c ∈ w.text, c ≠ ' ' ∧ c ≠ ';') :
    ∀ c ∈ (ofWord w).summary.toList, c ≠ ' ' ∧ c ≠ ';' := by
  intro c mem
  by_cases valid : (ofWord w).isValid = true
  · constructor
    · rintro rfl
      exact absurd (of_mem_summary valid mem) (by decide)
    · rintro rfl
      exact absurd (of_mem_summary valid mem) (by decide)
  · rw [toList_summary_of_invalid (eq_false_of_ne_true valid), (ofWord_standsFor w).raw,
      List.mem_append, List.mem_singleton] at mem
    rcases mem with mem | rfl
    · exact plain c mem
    · decide

/-- Parameters are shown in the same way just if they agree in what is shown. -/
theorem summary_ofWord_eq_iff {w w' : Word} :
    (ofWord w).summary = (ofWord w').summary ↔ (ofWord w).Alike (ofWord w') := by
  constructor
  · intro same
    have valid_eq : (ofWord w).isValid = (ofWord w').isValid := by
      rw [← Bool.not_inj_iff, Bool.eq_iff_iff]
      simp [← mem_summary_iff, same]
    have lists := congrArg String.toList same
    refine ⟨valid_eq, fun valid => ?_, fun invalid => ?_⟩
    · rw [toList_summary_of_valid valid, toList_summary_of_valid (valid_eq ▸ valid)] at lists
      simp only [List.cons.injEq, true_and, String.toList_inj] at lists
      exact ⟨lists.1, Double.text_injective (isFinite_value_ofWord w) (isFinite_value_ofWord w')
        lists.2⟩
    · rw [toList_summary_of_invalid invalid, toList_summary_of_invalid (valid_eq ▸ invalid)]
        at lists
      exact String.toList_inj.mp (List.append_cancel_right lists)
  · intro alike
    unfold summary
    rw [← alike.valid]
    split
    next valid => rw [(alike.of_valid valid).1, (alike.of_valid valid).2]
    next invalid => rw [alike.of_invalid (eq_false_of_ne_true invalid)]

end Parameter

/-! ## Cutting a summary up -/

theorem Letter.toChar_inj {l l' : Letter} : l.toChar = l'.toChar ↔ l = l' := by
  cases l <;> cases l' <;> decide

/-- A number in digits is told from other numbers. -/
theorem toDigits_inj {m n : Nat} : Nat.toDigits 10 m = Nat.toDigits 10 n ↔ m = n := by
  constructor
  · intro same
    have read (k : Nat) : Nat.ofDigitChars 10 (Nat.toDigits 10 k) 0 = k :=
      Nat.ofDigitChars_toDigits (by decide) (by decide)
    rw [← read m, same, read n]
  · rintro rfl
    rfl

theorem not_mem_toDigits {c : Char} (other : c.isDigit = false) (n : Nat) :
    c ∉ Nat.toDigits 10 n := by
  intro mem
  rw [Nat.isDigit_of_mem_toDigits (by decide) (by decide) mem] at other
  cases other

/-- A text is cut at the first of a character in one way. -/
theorem append_cons_inj {c : Char} {before before' after after' : List Char} (first : c ∉ before)
    (first' : c ∉ before') :
    before ++ c :: after = before' ++ c :: after' ↔ before = before' ∧ after = after' := by
  induction before generalizing before' with
  | nil => cases before' <;> simp_all
  | cons d before ih =>
    simp only [List.mem_cons, not_or] at first
    cases before' with
    | nil => simp [Ne.symm first.1]
    | cons d' before' =>
      simp only [List.mem_cons, not_or] at first'
      simp [ih first.2 first'.2, and_assoc]

/-- Words that are joined by spaces are found again. -/
theorem filter_splitOn_intercalate {texts : List (List Char)}
    (plain : ∀ text ∈ texts, text ≠ [] ∧ ' ' ∉ text) :
    (([' '].intercalate texts).splitOn ' ').filter (· ≠ []) = texts := by
  cases texts with
  | nil => rfl
  | cons text texts =>
    rw [List.splitOn_intercalate _ (fun t mem => (plain t mem).2) (by simp), List.filter_eq_self]
    exact fun t mem => by simpa using (plain t mem).1

/-- Joining words by spaces adds nothing but spaces. -/
theorem not_mem_intercalate {c : Char} (other : c ≠ ' ') {texts : List (List Char)}
    (nowhere : ∀ text ∈ texts, c ∉ text) : c ∉ [' '].intercalate texts := by
  cases texts with
  | nil => simp
  | cons text texts =>
    rw [List.forall_mem_cons] at nowhere
    rw [intercalate_cons_eq_flatMap, List.mem_append, List.mem_flatMap]
    rintro (mem | ⟨t, t_mem, mem⟩)
    · exact nowhere.1 mem
    · exact nowhere.2 t t_mem ((List.mem_cons.mp mem).resolve_left other)

/-- How a summary ends: with a tab and the comment behind a semicolon, if there is one. -/
def summaryRemark : Option String → List Char
  | none => []
  | some comment => '\t' :: ';' :: ' ' :: comment.toList

/-- The end is told from what stands in front of it by its semicolon. -/
theorem append_summaryRemark_inj {part part' : List Char} {comment comment' : Option String}
    (nowhere : ';' ∉ part) (nowhere' : ';' ∉ part') :
    part ++ summaryRemark comment = part' ++ summaryRemark comment' ↔
      part = part' ∧ comment = comment' := by
  have mem_iff {part : List Char} (nowhere : ';' ∉ part) (comment : Option String) :
      ';' ∈ part ++ summaryRemark comment ↔ comment.isSome := by
    cases comment <;> simp [summaryRemark, nowhere]
  constructor
  · intro same
    have both : comment.isSome = comment'.isSome := by
      rw [Bool.eq_iff_iff, ← mem_iff nowhere, ← mem_iff nowhere', same]
    cases comment with
    | none =>
      obtain rfl : comment' = none := by simpa using both.symm
      exact ⟨List.append_cancel_right same, rfl⟩
    | some c =>
      obtain ⟨c', rfl⟩ : ∃ c', comment' = some c' :=
        Option.isSome_iff_exists.mp (both.symm.trans rfl)
      rw [show part ++ summaryRemark (some c) = (part ++ ['\t']) ++ ';' :: ' ' :: c.toList by
          simp [summaryRemark],
        show part' ++ summaryRemark (some c') = (part' ++ ['\t']) ++ ';' :: ' ' :: c'.toList by
          simp [summaryRemark],
        append_cons_inj (by simpa using nowhere) (by simpa using nowhere')] at same
      simpa [String.toList_inj] using same
  · rintro ⟨rfl, rfl⟩
    rfl

namespace Command

/-- What is shown of the parameters, one by one. -/
def paramTexts (c : Command) : List (List Char) := c.params.map (·.summary.toList)

theorem toList_summary (c : Command) :
    c.summary.toList = Nat.toDigits 10 c.line ++ '\t' :: (c.codeSummary.toList ++ '\t' ::
      ([' '].intercalate c.paramTexts ++ summaryRemark c.comment)) := by
  have joined : (" ".intercalate (c.params.map Parameter.summary)).toList =
      [' '].intercalate c.paramTexts := by
    rw [String.toList_intercalate, paramTexts, List.map_map]
    rfl
  have ending : ((c.comment.map ("\t; " ++ ·)).getD "").toList = summaryRemark c.comment := by
    cases c.comment <;> simp [summaryRemark]
  simp only [summary, String.toList_append, joined, ending]
  simp

section
variable {c d : Command}

/-- The code of a line that is not invalid is a dash, or a letter and a number. -/
theorem codeSummary_eq (h : c.content ≠ .invalid) :
    c.letter? = none ∧ c.number = 0 ∧ c.codeSummary = "-" ∨
      ∃ letter, c.letter? = some letter ∧
        c.codeSummary.toList = letter.toChar :: Nat.toDigits 10 c.number := by
  unfold letter? Command.number codeSummary
  cases content : c.content with
  | code letter number params comment => exact .inr ⟨letter, by simp⟩
  | blank comment => exact .inl ⟨rfl, rfl, rfl⟩
  | invalid => exact absurd content h

theorem codeSummary_eq_iff (hc : c.content ≠ .invalid) (hd : d.content ≠ .invalid) :
    c.codeSummary = d.codeSummary ↔ c.letter? = d.letter? ∧ c.number = d.number := by
  have dash (l : Letter) : l.toChar ≠ '-' := by cases l <;> decide
  rw [← String.toList_inj]
  rcases codeSummary_eq hc with ⟨c_letter, c_number, c_code⟩ | ⟨l, c_letter, c_code⟩ <;>
    rcases codeSummary_eq hd with ⟨d_letter, d_number, d_code⟩ | ⟨l', d_letter, d_code⟩
  · simp [*]
  · simp [*, Ne.symm (dash l')]
  · simp [*]
  · simp [*, Letter.toChar_inj, toDigits_inj]

theorem not_mem_codeSummary (h : c.content ≠ .invalid) : '\t' ∉ c.codeSummary.toList := by
  rcases codeSummary_eq h with ⟨-, -, code⟩ | ⟨l, -, code⟩
  · rw [code]
    decide
  · rw [code, List.mem_cons, not_or]
    exact ⟨by cases l <;> decide, not_mem_toDigits (by decide) _⟩

end

/-- The parameters of a line are words without spaces and semicolons. -/
theorem exists_words (line : Nat) (raw : String) :
    ∃ ws : List Word, (parse line raw).params = ws.map .ofWord ∧
      ∀ w ∈ ws, ∀ c ∈ w.text, c ≠ ' ' ∧ c ≠ ';' := by
  unfold params
  cases content : (parse line raw).content with
  | code letter number params comment =>
    have read := ofText?_eq line raw
    rw [content] at read
    exact (Content.exists_words_of_ofText? read).2.1
  | blank comment => exact ⟨[], by simp⟩
  | invalid => exact ⟨[], by simp⟩

/-- So their summaries are words of this kind, too. -/
theorem plain_paramTexts {line : Nat} {raw : String} :
    ∀ text ∈ (parse line raw).paramTexts, text ≠ [] ∧ ' ' ∉ text ∧ ';' ∉ text := by
  obtain ⟨ws, params_eq, plain⟩ := exists_words line raw
  rw [paramTexts, params_eq, List.map_map, List.forall_mem_map]
  intro w mem
  have plain_text := Parameter.plain_summary (plain w mem)
  exact ⟨Parameter.summary_ne_nil _, fun mem => (plain_text _ mem).1 rfl,
    fun mem => (plain_text _ mem).2 rfl⟩

theorem filter_splitOn_paramTexts {line : Nat} {raw : String} :
    (([' '].intercalate (parse line raw).paramTexts).splitOn ' ').filter (· ≠ []) =
      (parse line raw).paramTexts :=
  filter_splitOn_intercalate fun text mem =>
    ⟨(plain_paramTexts text mem).1, (plain_paramTexts text mem).2.1⟩

theorem not_mem_paramTexts {line : Nat} {raw : String} :
    ';' ∉ [' '].intercalate (parse line raw).paramTexts :=
  not_mem_intercalate (by decide) fun text mem => (plain_paramTexts text mem).2.2

/-- The texts of the parameters are alike just if the parameters are. -/
theorem paramTexts_eq_iff {line line' : Nat} {raw raw' : String} :
    (parse line raw).paramTexts = (parse line' raw').paramTexts ↔
      List.Forall₂ Parameter.Alike (parse line raw).params (parse line' raw').params := by
  obtain ⟨ws, params_eq, -⟩ := exists_words line raw
  obtain ⟨ws', params_eq', -⟩ := exists_words line' raw'
  rw [paramTexts, paramTexts, params_eq, params_eq', ← List.forall₂_eq_eq_eq]
  simp only [List.forall₂_map_left_iff, List.forall₂_map_right_iff, String.toList_inj,
    Parameter.summary_ofWord_eq_iff]

/-- Commands that agree in all that their summaries show: in the line, in the
code and its number, in the comment and in the parameters one by one. -/
structure Alike (c d : Command) : Prop where
  line : c.line = d.line
  letter : c.letter? = d.letter?
  number : c.number = d.number
  comment : c.comment = d.comment
  params : List.Forall₂ Parameter.Alike c.params d.params

/-- **A summary tells commands apart.**  Two commands that were read from lines,
neither of them invalid, have one summary just if they agree in the line, the
code, the comment and each of the parameters. -/
theorem summary_eq_iff {line line' : Nat} {raw raw' : String}
    (valid : (parse line raw).content ≠ .invalid) (valid' : (parse line' raw').content ≠ .invalid) :
    (parse line raw).summary = (parse line' raw').summary ↔
      (parse line raw).Alike (parse line' raw') := by
  have joined_iff : [' '].intercalate (parse line raw).paramTexts =
      [' '].intercalate (parse line' raw').paramTexts ↔
        (parse line raw).paramTexts = (parse line' raw').paramTexts := by
    refine ⟨fun same => ?_, congrArg _⟩
    rw [← filter_splitOn_paramTexts, same, filter_splitOn_paramTexts]
  have no_tab (n : Nat) : '\t' ∉ Nat.toDigits 10 n := not_mem_toDigits (by decide) n
  rw [← String.toList_inj, toList_summary, toList_summary, append_cons_inj (no_tab _) (no_tab _),
    append_cons_inj (not_mem_codeSummary valid) (not_mem_codeSummary valid'),
    append_summaryRemark_inj not_mem_paramTexts not_mem_paramTexts, joined_iff,
    paramTexts_eq_iff, String.toList_inj, toDigits_inj, codeSummary_eq_iff valid valid']
  constructor
  · rintro ⟨line, ⟨letter, number⟩, params, comment⟩
    exact ⟨line, letter, number, comment, params⟩
  · rintro ⟨line, letter, number, comment, params⟩
    exact ⟨line, ⟨letter, number⟩, params, comment⟩

/-- Two spellings of a code are shown alike, and have one value for their first
parameter; what is shown of their second one is no valid parameter. -/
theorem summary_eq_iff_of_spellings :
    let raw := "G1 X10 Y=2 ; a"
    let raw' := "g01  X1e1 Y=2;a"
    (parse 7 raw).content ≠ .invalid ∧ (parse 7 raw').content ≠ .invalid ∧
      (parse 7 raw).summary = "7\tG1\tX=10 Y=2?\t; a" ∧ (parse 7 raw).Alike (parse 7 raw') := by
  intro raw raw'
  have valid : (parse 7 raw).content ≠ .invalid := by decide +kernel
  have valid' : (parse 7 raw').content ≠ .invalid := by decide +kernel
  have shown : (parse 7 raw).summary = "7\tG1\tX=10 Y=2?\t; a" := by decide +kernel
  have shown' : (parse 7 raw').summary = "7\tG1\tX=10 Y=2?\t; a" := by decide +kernel
  exact ⟨valid, valid', shown, (summary_eq_iff valid valid').mp (shown.trans shown'.symm)⟩

end Command

end GcodeJob
