import GcodeJob.Proofs.Yaml.Layout
import GcodeJob.Proofs.Yaml.Mapping

/-!
# GcodeJob.Proofs.Yaml.Outline

A mapping of two levels, written a section or a field to the line:

```
buffer:
  capacity: 5
  read_interval_ms: 2
stream:
```

Its tokens are those of a block mapping whose values are block mappings again,
`tokens?_outline`.  A line is read from its first word to the first word of the
next line, so the induction over the lines carries the columns of the open
blocks: none in front of the first section, one in front of every other
section, and two in front of every field but the first of a section.
-/

namespace GcodeJob.Yaml

/-! ## Outlines -/

/-- A section with its fields. -/
structure Section where
  name : Key
  fields : List (Key × Plain)

/-- A field behind its indentation, with the end of the line. -/
def fieldLine (f : Key × Plain) : List Char :=
  f.1.chars ++ ':' :: ' ' :: (f.2.chars ++ ['\n'])

/-- The fields of a section with their indentation. -/
def fieldLines (fields : List (Key × Plain)) : List Char :=
  fields.flatMap fun f => ' ' :: ' ' :: fieldLine f

def Section.lines (sec : Section) : List Char :=
  sec.name.chars ++ ':' :: '\n' :: fieldLines sec.fields

/-- The text of an outline. -/
def outline (sections : List Section) : List Char := sections.flatMap Section.lines

def fieldTokens (f : Key × Plain) : List Token :=
  [.key, .scalar .plain f.1.text, .value, .scalar .plain f.2.text]

/-- The tokens of a section's fields. -/
def Section.body (sec : Section) : List Token :=
  blockTokens (sec.fields.map fun f => (f.1.text, [.scalar .plain f.2.text]))

def Section.tokens (sec : Section) : List Token :=
  .key :: .scalar .plain sec.name.text :: .value :: sec.body

/-- The tokens of an outline. -/
def outlineTokens (sections : List Section) : List Token :=
  blockTokens (sections.map fun sec => (sec.name.text, sec.body))

theorem Section.body_eq {sec : Section} (ne : sec.fields ≠ []) :
    sec.body = .blockMapping :: (sec.fields.flatMap fieldTokens ++ [.blockEnd]) :=
  blockTokens_eq ne

theorem outlineTokens_eq {sections : List Section} (ne : sections ≠ []) :
    outlineTokens sections = .blockMapping :: (sections.flatMap Section.tokens ++ [.blockEnd]) :=
  blockTokens_eq ne

/-! ## Characters -/

theorem beginsToken_fieldLine (f : Key × Plain) (text : List Char) :
    BeginsToken (fieldLine f ++ text) := by
  simpa [fieldLine] using f.1.beginsToken _

theorem beginsToken_outline (sections : List Section) : BeginsToken (outline sections) := by
  cases sections with
  | nil => exact beginsToken_nil
  | cons sec sections => simpa [outline, Section.lines] using sec.name.beginsToken _

theorem all_isAllowed_outline (sections : List Section) :
    (outline sections).all isAllowed = true := by
  have space : isAllowed ' ' = true := by decide
  have colon : isAllowed ':' = true := by decide
  have lf : isAllowed '\n' = true := by decide
  have field (f : Key × Plain) : (fieldLine f).all isAllowed = true := by
    simp [fieldLine, Plain.all_isAllowed, space, colon, lf, -List.all_eq_true]
  have lines (sec : Section) : sec.lines.all isAllowed = true := by
    rw [Section.lines, fieldLines, List.all_append, List.all_cons, List.all_cons,
      List.all_flatMap, sec.name.all_isAllowed, colon, lf, List.all_eq_true.mpr]
    · rfl
    · intro f _
      rw [List.all_cons, List.all_cons, space, field]
      rfl
  rw [outline, List.all_flatMap, List.all_eq_true]
  intro sec _
  exact lines sec

/-! ## Lines -/

namespace Layout

variable {s : Layout} {text : List Char} {n column : Nat} {tokens : List Token} {indent : Int}
  {outer : List Int}

/-- **A field** is read up to the first word of the next line, which lies no
further right. -/
theorem readAll_field (f : Key × Plain) (begins : BeginsToken text) (right : n ≤ column)
    (at_ : s.At (fieldLine f ++ (List.replicate n ' ' ++ text)) column tokens indent outer true)
    (le : indent ≤ column) :
    ∃ s', s'.At text n
        (tokens ++ opening indent column ++ fieldTokens f) column (around indent outer column) true ∧
      Reads 3 s s' := by
  have line : fieldLine f ++ (List.replicate n ' ' ++ text) =
      f.1.chars ++ ':' :: (' ' :: (f.2.chars ++ '\n' :: (List.replicate n ' ' ++ text))) := by
    simp [fieldLine]
  rw [line] at at_
  obtain ⟨t, at_t, key⟩ :=
    readAll_key f.1 (by simp [gapFollows, isGap, isBlank]) (at_.atLine le) le
  rw [Int.max_eq_right le] at at_t
  obtain ⟨u, at_u, value⟩ := readAll_word f.2 begins at_t (by omega) (by omega)
  refine ⟨u, ?_, key.trans value⟩
  simpa [fieldTokens] using at_u

/-- The fields of a section, from the first word of the first one to the first
word of the line behind them. -/
theorem readAll_fields (f : Key × Plain) (fields : List (Key × Plain)) (begins : BeginsToken text)
    (at_ : s.At (fieldLine f ++ (fieldLines fields ++ text)) 2 tokens indent outer true)
    (le : indent ≤ (2 : Nat)) :
    ∃ s', s'.At text 0 (tokens ++ opening indent 2 ++ (f :: fields).flatMap fieldTokens) 2
        (around indent outer 2) true ∧
      Reads (3 * (fields.length + 1)) s s' := by
  induction fields generalizing f s tokens indent outer with
  | nil =>
    obtain ⟨s', at_', reads⟩ := readAll_field (n := 0) f begins (by omega)
      (by simpa [fieldLines] using at_) le
    exact ⟨s', by simpa using at_', reads⟩
  | cons g fields ih =>
    obtain ⟨t, at_t, first⟩ := readAll_field (n := 2) f (beginsToken_fieldLine g _) (by omega)
      (by simpa [fieldLines, List.replicate] using at_) le
    obtain ⟨s', at_', rest⟩ := ih g at_t (Int.le_refl _)
    refine ⟨s', ?_, ?_⟩
    · simpa [opening, around] using at_'
    · have steps : 3 * ((g :: fields).length + 1) = 3 + 3 * (fields.length + 1) := by
        simp only [List.length_cons]
        omega
      rw [steps]
      exact first.trans rest

theorem length_fields (fields : List (Key × Plain)) :
    3 * fields.length ≤ (fieldLines fields).length := by
  induction fields with
  | nil => simp
  | cons f fields ih =>
    have line : fieldLines (f :: fields) = ' ' :: ' ' :: (fieldLine f ++ fieldLines fields) := by
      simp [fieldLines]
    rw [line]
    simp only [List.length_append, List.length_cons, fieldLine]
    omega

/-- **A section** is read up to the first word of the next one. -/
theorem readAll_section (sec : Section) (begins : BeginsToken text)
    (at_ : s.AtLine (sec.lines ++ text) 0 tokens indent outer) (le : indent ≤ 0) :
    ∃ s', s'.AtLine text 0 (tokens ++ opening indent 0 ++ sec.tokens) 0
        (around indent outer 0) ∧
      ∃ k ≤ sec.lines.length, Reads k s s' := by
  have long := length_fields sec.fields
  have positive := sec.name.length_pos
  have line : sec.lines ++ text = sec.name.chars ++ ':' ::
      ('\n' :: (fieldLines sec.fields ++ text)) := by
    simp [Section.lines]
  rw [line] at at_
  obtain ⟨t, at_t, key⟩ := readAll_key sec.name (by simp [gapFollows, isGap, isBlank, isBreak]) at_
    (by simpa using le)
  rw [Int.max_eq_right (by simpa using le)] at at_t
  cases present : sec.fields with
  | nil =>
    obtain ⟨s', at_', line⟩ := readAll_lineFeed (n := 0) begins
      (by simpa [fieldLines, present] using at_t)
    refine ⟨s', ?_, 2, ?_, key.trans line⟩
    · simpa [Section.tokens, Section.body, present, blockTokens] using at_'.atLine (by simp)
    · simp only [Section.lines, List.length_append, List.length_cons]
      omega
  | cons f fields =>
    obtain ⟨u, at_u, line⟩ := readAll_lineFeed (n := 2) (beginsToken_fieldLine f _)
      (by simpa [fieldLines, present, List.replicate] using at_t)
    obtain ⟨s', at_', body⟩ := readAll_fields f fields begins at_u (by simp)
    refine ⟨s', ?_, _, ?_, (key.trans line).trans body⟩
    · -- The first field began a block, and the next section ends it.
      have left : s'.AtLine text 0 _ 0 _ := at_'.atLine_left (by simp) (by simp)
      rw [Section.tokens, Section.body_eq (by simp [present]), present]
      simpa [opening] using left
    · simp only [Section.lines, present, List.length_append, List.length_cons] at long ⊢
      omega

/-- The sections of an outline, up to the end of the text. -/
theorem readAll_sections (sections : List Section)
    (at_ : s.AtLine (outline sections) 0 tokens 0 outer) :
    ∃ s', s'.AtLine [] 0 (tokens ++ sections.flatMap Section.tokens) 0 outer ∧
      ∃ k ≤ (outline sections).length, Reads k s s' := by
  induction sections generalizing s tokens with
  | nil => exact ⟨s, by simpa [outline] using at_, 0, by simp, .refl s⟩
  | cons sec sections ih =>
    have lines : outline (sec :: sections) = sec.lines ++ outline sections := by simp [outline]
    rw [lines] at at_ ⊢
    obtain ⟨t, at_t, k, short, first⟩ :=
      readAll_section sec (beginsToken_outline sections) at_ (Int.le_refl 0)
    obtain ⟨s', at_', l, short', rest⟩ := ih (by simpa [around] using at_t)
    refine ⟨s', by simpa [opening] using at_', k + l, ?_, first.trans rest⟩
    rw [List.length_append]
    omega

end Layout

/-- **An outline is cut into the tokens of a mapping of mappings.** -/
theorem tokens?_outline (sections : List Section) :
    tokens? (outline sections) = some (outlineTokens sections ++ [.streamEnd]) := by
  have start : Layout.At { cursor := .start (outline sections) } (outline sections) 0 [] (-1) []
      true := by
    constructor <;> simp [Cursor.start]
  rw [tokens?, all_isAllowed_outline, if_pos rfl]
  cases sections with
  | nil => exact Layout.readAll_nil (start.atLine (by simp)) start 0
  | cons sec sections =>
    -- The first section begins the outer block, and the others find it begun.
    have lines : outline (sec :: sections) = sec.lines ++ outline sections := by simp [outline]
    rw [lines] at start ⊢
    obtain ⟨t, at_t, k, short, first⟩ := Layout.readAll_section sec (beginsToken_outline sections)
      (start.atLine (by simp)) (by simp)
    obtain ⟨s', at_', l, short', rest⟩ := Layout.readAll_sections sections at_t
    have all : ((s'.unroll (0 : Nat)).unroll (-1)).At [] 0 _ (-1) [] true :=
      at_'.inside.unroll (by simp) (by simp)
    obtain ⟨fuel, enough⟩ : ∃ fuel, (sec.lines ++ outline sections).length = fuel + (k + l) :=
      ⟨(sec.lines ++ outline sections).length - (k + l), by rw [List.length_append]; omega⟩
    rw [enough, (first.trans rest) fuel, Layout.readAll_nil at_' all]
    simp [outlineTokens_eq, Layout.opening]

/-- The events of a section's fields. -/
def Section.events (sec : Section) : List Event :=
  mapping (sec.fields.map fun f => (f.1.text, [.scalar .plain none f.2.text]))

/-- **An outline is the document of a mapping of mappings.** -/
theorem Document.read_outline (sections : List Section) :
    Document.read (outline sections) =
      some { events := mapping (sections.map fun sec => (sec.name.text, sec.events)) } := by
  refine Document.read_block sections (tokens?_outline sections) ?_
  intro sec _
  exact Reading.readAs_block sec.fields fun f _ => Reading.readAs_scalar f.2.text

end GcodeJob.Yaml
