import GcodeJob.Proofs.Settings.Given

/-!
# GcodeJob.Proofs.Settings.Sheet

Settings files that are written, rather than read: records of records of
numbers (`Sheet`), a section or a field to the line.

The text is an outline, so its document is known (`Document.read_outline`), and
the fields of a record can be looked up in what was written
(`Record.exists_fields`), first the sections and then the numbers in them.  So
such a file is read without fail, whichever sections it has and whichever fields
they have, and what comes out is what comes of any file that gives the same.
-/

namespace GcodeJob

open Yaml

namespace Settings

/-! ## Records -/

/-- A record as it is written: names with what they stand for, no name twice. -/
structure Record (α : Type) where
  entries : List (Key × α)
  distinct : (entries.map fun e => e.1.text).Nodup

namespace Record

variable {α : Type} (r : Record α)

/-- What a name stands for. -/
def get? (name : String) : Option α := (r.entries.map fun e => (e.1.text, e.2)).lookup name

/-- The fields of a mapping that a record was written as.  What is read of a value may
not depend on what stands behind it. -/
theorem exists_fields (d : Document) {node : α → List Event} (nodes : ∀ a, IsNode (node a))
    (rest : List Event) :
    ∃ fields,
      d.fields? (mapping (r.entries.map fun e => (e.1.text, node e.2)) ++ rest) = some fields ∧
      ∀ {γ : Type} {read : List Event → Option γ} {value : α → γ},
        (∀ a more, read (node a ++ more) = some (value a)) → ∀ name default,
        field? fields name default read = some (((r.get? name).map value).getD default) := by
  have values : ∀ e ∈ r.entries, IsNode (node e.2) := fun e _ => nodes e.2
  obtain ⟨fields, at_, alike⟩ := fields?_mapping (fun e : Key × α => e.1.text) d values rest
  refine ⟨fields, at_, fun {γ read value} reads name default => ?_⟩
  refine field?_eq (fun written a => ∃ more, written = node a ++ more)
    ((List.forall₂_map_right_iff ..).mpr alike) ?_ ?_ name default
  · simpa [Function.comp_def] using r.distinct
  · rintro _ a ⟨more, rfl⟩
    exact reads a more

end Record

/-! ## Sheets -/

/-- A number that a settings file can hold. -/
abbrev Number := Fin Word.count64

theorem isWordChar_of_mem_toDigits {n : Nat} : ∀ c ∈ Nat.toDigits 10 n, isWordChar c = true := by
  intro c mem
  have digit := Nat.isDigit_of_mem_toDigits (by omega) (by omega) mem
  simp [isWordChar, Char.isAlphanum, digit]

/-- The decimal digits of a number. -/
def digits (n : Nat) : Plain where
  chars := Nat.toDigits 10 n
  isWord := isWordChar_of_mem_toDigits
  ne := Nat.toDigits_ne_nil

/-- A settings file as it is written: sections with fields and their numbers. -/
abbrev Sheet := Record (Record Number)

namespace Sheet

variable (sheet : Sheet)

def sections : List Section :=
  sheet.entries.map fun e => { name := e.1, fields := e.2.entries.map fun f => (f.1, digits f.2) }

/-- The content of the file. -/
def content : ByteArray := (String.ofList (outline sheet.sections)).toUTF8

/-- The numbers of a section's fields. -/
def numbers (fields : Record Number) (field : String) : Option Nat :=
  (fields.get? field).map Fin.val

/-- What the file gives. -/
def given : Given := fun name => (sheet.get? name).map numbers

/-- The events of a section. -/
def events (fields : Record Number) : List Event :=
  mapping (fields.entries.map fun f => (f.1.text, [.scalar .plain none (digits f.2).text]))

theorem isNode_events (fields : Record Number) : IsNode (events fields) :=
  isNode_mapping fun _ _ => isNode_scalar ..

theorem number?_digits (d : Document) (n : Number) (more : List Event) :
    d.number? ([.scalar .plain none (digits n).text] ++ more) = some n.val := by
  simpa [Document.number?, Document.resolve, Plain.text, digits] using number?_toDigits n.isLt

section
variable (d : Document) (fields : Record Number) (more : List Event)

/-- The fields of a section are its numbers. -/
theorem exists_numbers :
    ∃ found, d.fields? (events fields ++ more) = some found ∧ ∀ name default,
      field? found name default d.number? = some ((numbers fields name).getD default) := by
  obtain ⟨found, at_, field⟩ :=
    fields.exists_fields d (fun n => isNode_scalar .plain none (digits n).text) more
  exact ⟨found, at_, field (number?_digits d)⟩

theorem read_stream :
    StreamSettings.read d (events fields ++ more) = some (streamOf (numbers fields)) := by
  obtain ⟨found, at_, number⟩ := exists_numbers d fields more
  simp [StreamSettings.read, at_, number, streamOf]

theorem read_buffer :
    BufferSettings.read d (events fields ++ more) = some (bufferOf (numbers fields)) := by
  obtain ⟨found, at_, number⟩ := exists_numbers d fields more
  simp [BufferSettings.read, at_, number, bufferOf]

theorem read_job :
    JobSettings.read d (events fields ++ more) = some (jobOf (numbers fields)) := by
  obtain ⟨found, at_, number⟩ := exists_numbers d fields more
  simp [JobSettings.read, at_, number, jobOf]

end

theorem read_outline :
    Document.read (outline sheet.sections) =
      some { events := mapping (sheet.entries.map fun e => (e.1.text, events e.2)) } := by
  rw [Document.read_outline, sections, List.map_map]
  simp [Function.comp_def, Section.events, events]

/-- **A file that gives any fields of any sections** can be read, and its settings come
of what it gives. -/
theorem ofContent?_content : ofContent? sheet.content = some sheet.given.settings := by
  have text : String.fromUTF8? sheet.content = some (.ofList (outline sheet.sections)) := by
    unfold String.fromUTF8? content
    rw [String.toUTF8_eq_toByteArray, dif_pos (String.isValidUTF8 _)]
    rfl
  generalize document : ({ events := mapping (sheet.entries.map fun e => (e.1.text, events e.2)) } :
    Document) = d
  obtain ⟨found, at_, field⟩ := sheet.exists_fields d isNode_events []
  have top : d.fields? d.events = some found := by simpa [← document] using at_
  have stream := field (read_stream d)
  have buffer := field (read_buffer d)
  have job := field (read_job d)
  simp only [ofContent?, text, bind, Option.bind_some, String.toList_ofList, read_outline,
    document, ofDocument, top, stream, buffer, job, pure, Given.settings, given, Option.map_map,
    Function.comp_def]

end Sheet

/-! ## Settings files -/

/-- The document in the content of a file. -/
def document? (content : ByteArray) : Option Document := do
  let text ← String.fromUTF8? content
  Document.read text.toList

/-- **Settings fall back field by field.**  A file that gives any fields of any sections
can be read; and of whatever file settings are read, in whatever way it is written,
each field is what the file gives, and its default where the file gives nothing.  Only
the kept commands of a stream section that leaves them out are fewer. -/
theorem falls_back_by_field (sheet : Sheet) (content : ByteArray) :
    (∃ s, ofContent? sheet.content = some s ∧ sheet.given.Yields s) ∧
      ∀ s, ofContent? content = some s →
        ∃ d, document? content = some d ∧ (givenBy d).Yields s := by
  constructor
  · exact ⟨_, sheet.ofContent?_content, sheet.given.yields_settings⟩
  · intro s read
    simp only [ofContent?, bind, Option.bind_eq_some_iff] at read
    obtain ⟨text, decoded, d, document, read⟩ := read
    refine ⟨d, by simp [document?, decoded, document], ?_⟩
    rw [eq_settings_of_ofDocument read]
    exact (givenBy d).yields_settings

theorem falls_back_of_capacity :
    let capacity : Key :=
      ⟨⟨"capacity".toList, List.all_eq_true.mp (by decide), by decide⟩, by decide⟩
    let buffer : Key := ⟨⟨"buffer".toList, List.all_eq_true.mp (by decide), by decide⟩, by decide⟩
    let sheet : Sheet := ⟨[(buffer, ⟨[(capacity, ⟨5, by decide⟩)], by decide⟩)], by decide⟩
    let content := "buffer:\n  capacity: 5\n".toUTF8
    let s : Settings := { buffer := { capacity := 5 } }
    sheet.content = content ∧ (∃ s, ofContent? sheet.content = some s ∧ sheet.given.Yields s) ∧
      ofContent? content = some s ∧ ∃ d, document? content = some d ∧ (givenBy d).Yields s := by
  intro capacity buffer sheet content s
  have written : sheet.content = content := by decide +kernel
  have read : ofContent? content = some s := by decide +kernel
  have falls_back := falls_back_by_field sheet content
  exact ⟨written, falls_back.1, read, falls_back.2 s read⟩

/-- A stream section with nothing but a chunk size: the number of kept commands is not
given, and is not its default. -/
theorem not_default_of_stream_section :
    let content := "stream:\n  chunk_size: 64\n".toUTF8
    ((document? content).map fun d =>
        ((givenBy d).of? .chunkSize, (givenBy d).of? .cacheCapacity)) = some (some 64, none) ∧
      ((ofContent? content).map fun s =>
        (Field.of s .chunkSize, Field.of s .cacheCapacity)) = some (64, 200) ∧
      Field.of {} .cacheCapacity = 500 := by
  decide +kernel

end Settings

end GcodeJob
