import GcodeJob.Program.Sharing

/-!
# GcodeJob.Proofs.Program.Sharing

What many readers do to what they share.  A section of a reader gives the kept
command of its line, or parses the line and gives the command that is then
kept, or gives no command at all (`Reader.acts_advance`); everything else that
may happen lets entries of the cache go, or leaves it alone
(`Sharing.acts_step`).  The sections of one reader, with nothing in between,
are the operation they are the sections of (`Reader.sections_single`,
`Reader.sections_ofWalk`).
-/

namespace GcodeJob

/-! ## What a reader can do -/

namespace Reader

/-- All that a section of a reader can give for its line, and do to the program. -/
inductive Acts (p : Program) (line : Nat) (given : List Reply) (p' : Program) : Prop
  /-- It gives no command. -/
  | idles (cache : p'.cache = p.cache) (sheet : p'.sheet = p.sheet)
      (none : ∀ reply ∈ given, ∀ held, reply ≠ some (.ok held))
  | looks (held : Issued) (cached : p.cached? line = some held)
      (reply : given = [some (.ok held)]) (same : p' = p)
  | parses (raw : String) (reply : given = [some (.ok (p.parseAndKeep line raw).1)])
      (kept : p' = (p.parseAndKeep line raw).2)

theorem acts_advance (free : Bool) (p : Program) (r : Reader) :
    Acts p r.line (r.advance free p).1 (r.advance free p).2.1 := by
  unfold advance
  cases r.point with
  | resting | gone => exact .idles rfl rfl (by simp)
  | looking | rechecking =>
    dsimp only
    cases cached : p.cached? r.line with
    | some held => exact .looks held cached rfl rfl
    | none => exact .idles rfl rfl (by simp)
  | admitting =>
    dsimp only
    cases p.file.placeFor (Program.startAt r.line) <;> exact .idles rfl rfl (by simp)
  | reaching index start =>
    dsimp only
    split
    · exact .idles rfl rfl (by simp)
    · cases p.file.reach index start <;> exact .idles rfl rfl (by simp)
  | reading =>
    dsimp only
    cases r.lines? with
    | none => exact .idles rfl rfl (by simp)
    | some lines =>
      dsimp only
      obtain ⟨_ | _ | raw, after⟩ := p.file.nextLine lines <;> exact .idles rfl rfl (by simp)
  | keeping raw => exact .parses raw rfl rfl

/-- A walk that is asked gives no command at once. -/
theorem ne_ok_of_mem_asked {r : Reader} {reply : Reply} (mem : reply ∈ r.asked.1) (held : Issued) :
    reply ≠ some (.ok held) := by
  unfold asked at mem
  split at mem
  · split at mem <;> simp_all
  · simp at mem

/-! ## Sections one after the other -/

/-- Sections of one reader with nothing in between, and all it returns with. -/
def sections (p : Program) (r : Reader) : Nat → List Reply × Program × Reader
  | 0 => ([], p, r)
  | n + 1 =>
    let (given, p, r) := r.advance true p
    let (more, p, r) := sections p r n
    (given ++ more, p, r)

/-- An answer to who gets a command, as a reply. -/
def replyOf : Except Error (Option Issued) → Reply
  | .ok none => none
  | .ok (some held) => some (.ok held)
  | .error e => some (.error e)

/-- The sections of getting a command are getting it. -/
theorem sections_single (p : Program) (line : Nat) :
    sections p (single line) 5 =
      ([replyOf (p.getCommand line).1], (p.getCommand line).2,
        { line, limit? := none, point := .gone }) := by
  unfold Program.getCommand IndexedFile.linesFrom
  cases cached : p.cached? line with
  | some held => simp [sections, single, advance, cached, passed, replyOf]
  | none =>
    cases place : p.file.placeFor (Program.startAt line) with
    | error e => simp [sections, single, advance, cached, place, ended, replyOf, bind, Except.bind]
    | ok found =>
      obtain ⟨index, start⟩ := found
      cases reached : p.file.reach index start with
      | error e =>
        simp [sections, single, advance, cached, place, reached, ended, replyOf, bind, Except.bind]
      | ok lines =>
        rcases read : p.file.nextLine lines with ⟨_ | _ | raw, after⟩ <;>
          simp [sections, single, advance, cached, place, reached, read, passed, ended, replyOf,
            bind, Except.bind]

theorem sections_add (p : Program) (r : Reader) (m n : Nat) :
    sections p r (m + n) =
      ((sections p r m).1 ++ (sections (sections p r m).2.1 (sections p r m).2.2 n).1,
        (sections (sections p r m).2.1 (sections p r m).2.2 n).2) := by
  induction m generalizing p r with
  | zero => simp [sections]
  | succ m ih => simp [Nat.succ_add, sections, ih]

/-- Who has not been asked has no sections to go through. -/
theorem sections_of_resting {r : Reader} (resting : r.point = .resting) (p : Program) (n : Nat) :
    sections p r n = ([], p, r) := by
  induction n with
  | zero => rfl
  | succ n ih => simp [sections, advance, resting, ih]

/-- A walk reads on, or from the line that it has gone to. -/
theorem sections_reading (p : Program) (w : Walk) (lines : LineReader) :
    sections p { ofWalk w with lines? := some lines, point := .reading } 3 =
      ([(w.nextFrom p lines).1], (w.nextFrom p lines).2.1, ofWalk (w.nextFrom p lines).2.2) := by
  unfold Walk.nextFrom
  rcases read : p.file.nextLine lines with ⟨_ | _ | raw, after⟩
  · simp [sections, ofWalk, advance, read, ended, Walk.finished]
  · simp [sections, ofWalk, advance, read, ended, Walk.finished]
  · cases cached : (p.afterReading after).cached? w.nextLine <;>
      simp [sections, ofWalk, advance, read, cached, passed]

/-- The sections of a walk that is asked short of its end are the next step of it. -/
theorem sections_ofWalk (p : Program) {w : Walk} (before : w.nextLine < w.totalLines) :
    (ofWalk w).asked.1 = [] ∧
      sections p (ofWalk w).asked.2 6 =
        ([(w.next p).1], (w.next p).2.1, ofWalk (w.next p).2.2) := by
  have on : ¬w.totalLines ≤ w.nextLine := Nat.not_le_of_lt before
  refine ⟨by simp [asked, ofWalk, on], ?_⟩
  rw [Walk.next, if_neg on, IndexedFile.linesFrom]
  have rests (p : Program) (w : Walk) (n : Nat) : sections p (ofWalk w) n = ([], p, ofWalk w) :=
    sections_of_resting rfl p n
  cases reader : w.reader? with
  | some lines =>
    have reads :
        (ofWalk w).asked.2 = { ofWalk w with lines? := some lines, point := .reading } := by
      simp [asked, ofWalk, on, reader]
    rw [reads, sections_add p _ 3 3, sections_reading, rests]
    simp
  | none =>
    cases cached : p.cached? w.nextLine with
    | some held => simp [sections, asked, ofWalk, on, reader, advance, cached, passed]
    | none =>
      cases place : p.file.placeFor (Program.startAt w.nextLine) with
      | error e =>
        simp [sections, asked, ofWalk, on, reader, advance, cached, place, ended, Walk.finished,
          bind, Except.bind]
      | ok found =>
        obtain ⟨index, start⟩ := found
        cases reached : p.file.reach index start with
        | error e =>
          simp [sections, asked, ofWalk, on, reader, advance, cached, place, reached, ended,
            Walk.finished, bind, Except.bind]
        | ok lines =>
          have comes : sections p (ofWalk w).asked.2 3 =
              ([], p, { ofWalk w with lines? := some lines, point := .reading }) := by
            simp [sections, asked, ofWalk, on, reader, advance, cached, place, reached]
          rw [sections_add p _ 3 3, comes, sections_reading]
          simp [reached, bind, Except.bind]

end Reader

/-! ## A program that shares its commands -/

namespace Timesheet

/-- A sheet as it was, or with one more command issued. -/
def Grown (t t' : Timesheet) : Prop := t' = t ∨ ∃ c, t' = (t.issue c).2

@[simp] theorem size_issue (t : Timesheet) (c : Command) :
    (t.issue c).2.times.size = t.times.size + 1 := by simp [issue]

theorem Grown.size_le {t t' : Timesheet} (h : t.Grown t') : t.times.size ≤ t'.times.size := by
  rcases h with rfl | ⟨c, rfl⟩ <;> simp

/-- Issuing a command leaves the times of all others alone. -/
theorem Grown.time_eq {t t' : Timesheet} (h : t.Grown t') {i : Issued}
    (issued : i.serial < t.times.size) : t'.time i = t.time i := by
  rcases h with rfl | ⟨c, rfl⟩
  · rfl
  · have ne : i.serial ≠ t.times.size := Nat.ne_of_lt issued
    simp [issue, time, Array.getElem?_push, ne]

end Timesheet

namespace Program

/-- A line that is kept is parsed for nothing. -/
theorem parseAndKeep_of_cached {p : Program} {line : Nat} {held : Issued}
    (cached : p.cached? line = some held) (raw : String) :
    p.parseAndKeep line raw = (held, { p with sheet := (p.sheet.issue (.parse line raw)).2 }) := by
  have found : p.cache.get? (p.sheet.issue (.parse line raw)).1.line = some held := cached
  simp [parseAndKeep, Cache.insert_of_get? found]

/-- The command just issued for a line that is not kept finds its place free. -/
theorem get?_issue {p : Program} {line : Nat} {raw : String} (none : p.cached? line = none) :
    p.cache.get? (p.sheet.issue (.parse line raw)).1.line = Option.none := none

/-- A line that is not kept is kept from then on, if there is room. -/
theorem parseAndKeep_of_none {p : Program} {line : Nat} (none : p.cached? line = none)
    (raw : String) :
    p.parseAndKeep line raw =
      let (new, sheet) := p.sheet.issue (.parse line raw)
      let entries := Cache.evict p.cache.capacity (p.cache.entries ++ [new])
      (new, { p with cache := { p.cache with entries }, sheet }) := by
  simp [parseAndKeep, Cache.insert, get?_issue none]

end Program

/-! ## What a step can do -/

namespace Sharing

/-- All that a step that writes no time can do to the cache, the timesheet and
the answers. -/
inductive Acts (s t : Sharing) : Prop
  /-- No command is given. -/
  | idles (new : List Answer) (cache : t.program.cache = s.program.cache)
      (sheet : t.program.sheet = s.program.sheet) (answers : t.answers = s.answers ++ new)
      (none : ∀ answer ∈ new, ∀ held, answer.reply ≠ some (.ok held))
  /-- The kept command of a line is given; the line may have been parsed in vain. -/
  | gives (reader? : Option Nat) (line : Nat) (held : Issued)
      (cached : s.program.cached? line = some held) (cache : t.program.cache = s.program.cache)
      (sheet : s.program.sheet.Grown t.program.sheet)
      (answers : t.answers = s.answers ++ [⟨reader?, line, some (.ok held)⟩])
  /-- A line that is not kept is parsed, and its command is kept if there is room. -/
  | keeps (reader line : Nat) (raw : String) (none : s.program.cached? line = none)
      (sheet : t.program.sheet = (s.program.sheet.issue (.parse line raw)).2)
      (cache : t.program.cache.entries <:+
        s.program.cache.entries ++ [(s.program.sheet.issue (.parse line raw)).1])
      (answers : t.answers = s.answers ++
        [⟨some reader, line, some (.ok (s.program.sheet.issue (.parse line raw)).1)⟩])
  /-- Entries of the cache go, the oldest first. -/
  | sheds (cache : t.program.cache.entries <:+ s.program.cache.entries)
      (sheet : t.program.sheet = s.program.sheet) (answers : t.answers = s.answers)

section
variable {s t : Sharing}

/-- Neither the cache nor the timesheet nor the answers are touched. -/
theorem Acts.rest (cache : t.program.cache = s.program.cache)
    (sheet : t.program.sheet = s.program.sheet) (answers : t.answers = s.answers) : s.Acts t :=
  .idles [] cache sheet (by simp [answers]) (by simp)

/-- Such a step issues at most one command. -/
theorem Acts.sheet_grown (h : s.Acts t) : s.program.sheet.Grown t.program.sheet := by
  cases h with
  | idles _ _ sheet | sheds _ sheet => exact .inl sheet
  | gives _ _ _ _ _ sheet => exact sheet
  | keeps _ line raw _ sheet => exact .inr ⟨.parse line raw, sheet⟩

theorem acts_advance (s : Sharing) (number : Nat) : s.Acts (s.advance number) := by
  unfold advance
  cases s.readers[number]? with
  | none => exact .rest rfl rfl rfl
  | some r =>
    have acts := r.acts_advance (!s.busy) s.program
    dsimp only
    generalize r.advance (!s.busy) s.program = after at acts
    obtain ⟨given, program, r'⟩ := after
    cases acts with
    | idles cache sheet none =>
      exact .idles (given.map (⟨some number, r.line, ·⟩)) cache sheet rfl (by simpa using none)
    | looks held cached reply same =>
      subst reply same
      exact .gives (some number) r.line held cached rfl (.inl rfl) rfl
    | parses raw reply kept =>
      cases cached : s.program.cached? r.line with
      | some held =>
        rw [Program.parseAndKeep_of_cached cached] at reply kept
        subst reply kept
        exact .gives (some number) r.line held cached rfl (.inr ⟨.parse r.line raw, rfl⟩) rfl
      | none =>
        rw [Program.parseAndKeep_of_none cached] at reply kept
        subst reply kept
        exact .keeps number r.line raw cached rfl (Cache.evict_suffix ..) rfl

/-- Rewriting leaves all but the file alone. -/
theorem exists_file_of_rewrite (s : Sharing) (content : ByteArray) :
    ∃ file, s.step (.rewrite content) = { s with program := { s.program with file } } := ⟨_, rfl⟩

/-- The build leaves all but the file and its own place alone. -/
theorem exists_file_of_build (s : Sharing) :
    ∃ file building, s.step .build = { s with program := { s.program with file }, building } := by
  unfold step build
  dsimp only
  split
  · split
    · exact ⟨_, _, rfl⟩
    · split <;> exact ⟨_, _, rfl⟩
  · exact ⟨_, _, rfl⟩

theorem acts_step (s : Sharing) {e : Event} (other : ∀ held ms, e ≠ .record held ms) :
    s.Acts (s.step e) := by
  cases e with
  | look line =>
    cases cached : s.program.cached? line with
    | some held => exact .gives none line held cached rfl (.inl rfl) (by simp [step, cached])
    | none => exact .idles [⟨none, line, none⟩] rfl rfl (by simp [step, cached]) (by simp)
  | get | close | drop => exact .rest rfl rfl rfl
  | begin start =>
    unfold step
    dsimp only
    split <;> exact .rest rfl rfl rfl
  | ask number =>
    unfold step ask
    dsimp only
    cases s.readers[number]? with
    | none => exact .rest rfl rfl rfl
    | some r =>
      refine .idles (r.asked.1.map (⟨some number, r.line, ·⟩)) rfl rfl rfl ?_
      simpa using fun reply mem => Reader.ne_ok_of_mem_asked mem
  | advance number => exact s.acts_advance number
  | setCapacity capacity => exact .sheds (Cache.evict_suffix ..) rfl rfl
  | record held ms => exact absurd rfl (other held ms)
  | advanceCloser number =>
    unfold step advanceCloser
    dsimp only
    split
    · split <;> exact .rest rfl rfl rfl
    · split <;> exact .rest rfl rfl rfl
    · exact .sheds (List.nil_suffix ..) rfl rfl
    · exact .rest rfl rfl rfl
    · exact .rest rfl rfl rfl
  | build =>
    obtain ⟨file, building, after⟩ := s.exists_file_of_build
    rw [after]
    exact .rest rfl rfl rfl
  | rewrite content =>
    obtain ⟨file, after⟩ := s.exists_file_of_rewrite content
    rw [after]
    exact .rest rfl rfl rfl
  | damage kept => exact .rest rfl rfl rfl

end

end Sharing

end GcodeJob
