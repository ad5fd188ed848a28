import GcodeJob.Program.Walk
import GcodeJob.Proofs.Program.Commands
import Mathlib.Algebra.Group.Nat.Defs

/-!
# GcodeJob.Proofs.Program.Walks

Walks read what is there.  A walk keeps two places, its own and that of its
reader, and while the reader gives the lines from the walk's place on
(`Walk.Sound`) they stay in step: whatever others read, keep and evict
between two of its commands, a walk gives the next one (`Walk.Sound.next`).

**Main result** (`Reading.cache_invisible`): however often a program is
read, by whomever and with whatever room for kept commands, what is read are
its commands.
-/

namespace GcodeJob

namespace Walk

/-- A walk through a program.  Short of the end, its reader gives the lines from its place on,
and nothing keeps the file from being read. -/
structure Sound (p : Program) (w : Walk) : Prop where
  totalLines : w.totalLines = p.commands.length
  reader : ∀ r, w.reader? = some r → w.nextLine < w.totalLines →
    p.file.medium.fault? = none ∧ r.Gives p.file.medium.source (p.file.lines.drop w.nextLine)

/-- What is next on a walk, and how the walk stands behind it. -/
structure Gave (p : Program) (w : Walk) (step : Step) : Prop where
  program : step.2.1.Sound
  walk : step.2.2.Sound step.2.1
  item : match step.1 with
    | some (.ok held) =>
      p.commands[w.nextLine]? = some held.command ∧ step.2.2.nextLine = w.nextLine + 1
    | some (.error e) =>
      w.nextLine < w.totalLines ∧ p.file.linesFrom (Program.startAt w.nextLine) = .error e ∧
        step.2.2.totalLines ≤ step.2.2.nextLine
    | none => w.totalLines ≤ w.nextLine ∧ step.2.2 = w

/-- Reading from the file leaves it as it is, but for the cursor. -/
theorem sameFile_nextFrom (p : Program) (w : Walk) (reader : LineReader) :
    p.SameFile (w.nextFrom p reader).2.1 := by
  unfold nextFrom
  obtain ⟨_ | _ | raw, after⟩ := p.file.nextLine reader
  · rfl
  · rfl
  · dsimp only
    cases (p.afterReading after).cached? w.nextLine <;> rfl

/-- So does a walk. -/
theorem sameFile_next (p : Program) (w : Walk) : p.SameFile (w.next p).2.1 := by
  unfold next
  split
  · rfl
  split
  · exact sameFile_nextFrom ..
  · rfl
  split
  · exact sameFile_nextFrom ..
  · rfl

namespace Sound
variable {p : Program} {w : Walk}

/-- Only the bytes of the file matter to a walk. -/
theorem of_medium (h : Sound p w) {p' : Program} (medium : p'.file.medium = p.file.medium) :
    Sound p' w := by
  refine ⟨?_, ?_⟩
  · rw [Program.commands_of_medium medium]
    exact h.totalLines
  · rw [IndexedFile.lines, medium]
    exact h.reader

/-- A walk that starts has no reader yet. -/
theorem start (sound : p.Sound) {line : Int} (eq : Walk.start p line = .ok w) :
    Sound p w ∧ p.state = .built ∧ 0 ≤ line ∧ w.nextLine = line.toNat ∧
      line ≤ p.commands.length := by
  unfold Walk.start IndexedFile.checkStart at eq
  simp only [bind, Except.bind] at eq
  cases readable : p.file.readable with
  | error e => simp [readable] at eq
  | ok index =>
    have built : p.state = .built ∧ p.file.index? = some index := by
      unfold IndexedFile.readable at readable
      unfold Program.state IndexedFile.state IndexedFile.index?
      split at readable
      · cases readable
      next opened => split at readable <;> simp_all
    have counted := sound.file.totalLines_eq built.1
    have total : index.totalLines = p.file.lines.length := by
      rw [← counted, IndexedFile.totalLines, built.2]
      rfl
    simp only [readable, IndexedFile.startInRange, total] at eq
    split at eq
    · cases eq
    next line' started =>
      split at started
      next range =>
        cases started
        cases eq
        refine ⟨⟨?_, fun r none => by cases none⟩, built.1, range.1, rfl, ?_⟩
        · rw [Program.length_commands]
          exact counted
        · rw [Program.length_commands]
          exact range.2
      next => cases started

/-- From the file the next line comes, kept by now or not. -/
theorem nextFrom (h : Sound p w) (sound : p.Sound) (before : w.nextLine < w.totalLines)
    {reader : LineReader} (sane : p.file.medium.fault? = none)
    (gives : reader.Gives p.file.medium.source (p.file.lines.drop w.nextLine)) :
    Gave p w (w.nextFrom p reader) := by
  have lt := before
  rw [h.totalLines, Program.length_commands] at lt
  have parsed : p.commands[w.nextLine]? =
      some (.parse w.nextLine (lineText p.file.lines[w.nextLine])) := by
    rw [Program.getElem?_commands, List.getElem?_eq_getElem lt, Option.map_some]
  obtain ⟨first, others⟩ := gives.next
  rw [List.head?_drop, List.getElem?_eq_getElem lt, Option.map_some] at first
  rw [List.tail_drop] at others
  unfold Walk.nextFrom
  rw [IndexedFile.nextLine_of_fault?_eq_none sane]
  generalize reader.next p.file.medium.source = read at first others
  obtain ⟨raw, after⟩ := read
  obtain rfl : raw = some (lineText p.file.lines[w.nextLine]) := first
  have sound := sound.afterReading after
  simp only [Option.map_some]
  cases cached : (p.afterReading after).cached? w.nextLine with
  | some held =>
    exact
      { program := sound
        walk := ⟨h.totalLines, fun r eq _ => by cases eq; exact ⟨sane, others⟩⟩
        item := ⟨sound.of_cached? cached, rfl⟩ }
  | none =>
    obtain ⟨own, kept⟩ := sound.parseAndKeep parsed
    exact
      { program := kept
        walk := ⟨h.totalLines, fun r eq _ => by cases eq; exact ⟨sane, others⟩⟩
        item := ⟨by rw [own]; exact parsed, rfl⟩ }

/-- A walk gives the next command, whatever others have kept and evicted. -/
theorem next (h : Sound p w) (sound : p.Sound) : Gave p w (w.next p) := by
  unfold Walk.next
  split
  next ended => exact ⟨sound, h, ended, rfl⟩
  next before =>
    have before : w.nextLine < w.totalLines := Nat.lt_of_not_le before
    split
    next reader _ _ is_reader =>
      obtain ⟨sane, gives⟩ := h.reader _ is_reader before
      exact h.nextFrom sound before sane gives
    next held none cached =>
      exact
        { program := sound
          walk := ⟨h.totalLines, fun r some => by simp [none] at some⟩
          item := ⟨sound.of_cached? cached, rfl⟩ }
    next _ _ =>
      split
      next reader started =>
        have le : w.nextLine ≤ p.commands.length := by rw [← h.totalLines]; omega
        rw [Program.startAt_of_le le] at started
        obtain ⟨built, -, -, gives⟩ := sound.file.of_linesFrom started
        rw [Int.toNat_natCast] at gives
        exact h.nextFrom sound before (sound.file.fault?_eq_none built) gives
      next e failed =>
        exact
          { program := sound
            walk := ⟨h.totalLines, fun r some => by simp [finished] at some⟩
            item := ⟨before, failed, Nat.le_refl _⟩ }

end Sound

end Walk

/-! ## A program and its readers -/

/-- A walk with the line it began at and all it gave, answer by answer. -/
structure Visit where
  start : Nat
  walk : Walk
  answers : List (Option (Except Error Issued)) := []

/-- A program and the walks begun through it. -/
structure Reading where
  program : Program
  visits : Array Visit := #[]

/-- What a visit was given: the commands from its start on, then nothing more,
and that only at their end or behind the one error of a closed program. -/
def Visit.Reads (commands : List Command) (closed : Prop) (v : Visit) : Prop :=
  ∃ (given : List Issued) (rest : List (Option (Except Error Issued))),
    v.answers = given.map (fun held => some (.ok held)) ++ rest ∧
    given.map Issued.command = (commands.drop v.start).take given.length ∧
    (rest = [] ∨ (∃ n, rest = List.replicate n none) ∧ v.start + given.length = commands.length ∨
      closed ∧ ∃ e n, rest = some (.error e) :: List.replicate n none)

namespace Reading

/-- What may happen to a program between any two reads of it. -/
inductive Event
  | get (line : Nat)
  | setCapacity (capacity : Nat)
  | record (held : Issued) (ms : Int)
  | close
  | begin (line : Int)
  | ask (visit : Nat)
  deriving DecidableEq

def step (s : Reading) : Event → Reading
  | .get line => { s with program := (s.program.getCommand line).2 }
  | .setCapacity capacity => { s with program := s.program.setCacheCapacity capacity }
  | .record held ms => { s with program := s.program.recordTime held ms }
  | .close => { s with program := s.program.close }
  | .begin line =>
    match Walk.start s.program line with
    | .ok walk => { s with visits := s.visits.push { start := line.toNat, walk } }
    | .error _ => s
  | .ask number =>
    match s.visits[number]? with
    | some v =>
      let (item, program, walk) := v.walk.next s.program
      { program
        visits := s.visits.setIfInBounds number { v with walk, answers := v.answers ++ [item] } }
    | none => s

def run (s : Reading) (events : List Event) : Reading := events.foldl step s

/-- A visit whose walk goes on where its answers end. -/
structure Faithful (p : Program) (v : Visit) : Prop where
  walk : v.walk.Sound p
  start_le : v.start ≤ p.commands.length
  answers : ∃ (given : List Issued) (rest : List (Option (Except Error Issued))),
    v.answers = given.map (fun held => some (.ok held)) ++ rest ∧
    given.map Issued.command = (p.commands.drop v.start).take given.length ∧
    (rest = [] ∧ v.walk.nextLine = v.start + given.length ∨
      v.walk.totalLines ≤ v.walk.nextLine ∧
        ((∃ n, rest = List.replicate n none) ∧ v.start + given.length = p.commands.length ∨
          p.state = .closed ∧ ∃ e n, rest = some (.error e) :: List.replicate n none))

/-- The program of an unchanged file, built or closed, and faithful visits. -/
structure Valid (file : RegularFile) (s : Reading) : Prop where
  program : s.program.Sound
  medium : s.program.file.medium = .file file
  state : s.program.state = .built ∧ s.program.file.released = false ∨ s.program.state = .closed
  visits : ∀ v ∈ s.visits, Faithful s.program v

section
variable {p p' : Program} {v : Visit}

theorem Faithful.of_file (h : Faithful p v) (medium : p'.file.medium = p.file.medium)
    (closed : p.state = .closed → p'.state = .closed) : Faithful p' v := by
  have commands := Program.commands_of_medium medium
  obtain ⟨given, rest, answers, read, place⟩ := h.answers
  refine ⟨h.walk.of_medium medium, commands ▸ h.start_le, given, rest, answers, commands ▸ read, ?_⟩
  rw [commands]
  rcases place with on | ⟨ended, finished | ⟨was_closed, error⟩⟩
  · exact .inl on
  · exact .inr ⟨ended, .inl finished⟩
  · exact .inr ⟨ended, .inr ⟨closed was_closed, error⟩⟩

/-- A visit that asks once more. -/
theorem Faithful.ask (h : Faithful p v) (sound : p.Sound)
    (state : p.state = .built ∧ p.file.released = false ∨ p.state = .closed) :
    let step := v.walk.next p
    Faithful step.2.1 { v with walk := step.2.2, answers := v.answers ++ [step.1] } := by
  have gave := h.walk.next sound
  intro step
  have same : p.SameFile step.2.1 := v.walk.sameFile_next p
  have commands := Program.commands_of_medium same.medium
  obtain ⟨given, rest, answers, read, place⟩ := h.answers
  have length := congrArg List.length read
  rw [List.length_map, List.length_take, List.length_drop] at length
  have start_le := h.start_le
  refine ⟨gave.walk, commands ▸ start_le, ?_⟩
  rw [commands, same.state]
  have total := h.walk.totalLines
  have item := gave.item
  dsimp only
  rw [answers]
  change match step.1 with | some (.ok held) => _ | some (.error e) => _ | none => _ at item
  generalize step.1 = answer at item
  match answer with
  | some (.ok held) =>
    obtain ⟨at_line, next⟩ := item
    have lt := (List.getElem?_eq_some_iff.mp at_line).1
    rcases place with ⟨rfl, at_place⟩ | ⟨ended, -⟩
    · refine ⟨given ++ [held], [], by simp, ?_, .inl ⟨rfl, ?_⟩⟩
      · rw [List.length_append, List.length_singleton, List.take_add_one, ← read, List.getElem?_drop,
          ← at_place, at_line]
        simp
      · rw [List.length_append, List.length_singleton, ← Nat.add_assoc, ← at_place]
        exact next
    · omega
  | some (.error e) =>
    obtain ⟨lt, failed, ended⟩ := item
    rcases place with ⟨rfl, at_place⟩ | ⟨ended, -⟩
    · have closed : p.state = .closed := by
        refine state.resolve_left fun ⟨built, held⟩ => ?_
        have le : v.walk.nextLine ≤ p.commands.length := by omega
        rw [Program.startAt_of_le le] at failed
        rw [Program.length_commands] at le
        obtain ⟨r, started, -⟩ := sound.file.exists_linesFrom built held le
        cases started.symm.trans failed
      exact ⟨given, [some (.error e)], by simp, read, .inr ⟨ended, .inr ⟨closed, e, 0, rfl⟩⟩⟩
    · omega
  | none =>
    obtain ⟨ended, same⟩ := item
    have walk : step.2.2 = v.walk := same
    rw [walk]
    refine ⟨given, rest ++ [none], by simp, read, .inr ⟨ended, ?_⟩⟩
    rcases place with ⟨rfl, at_place⟩ | ⟨-, ⟨⟨n, rfl⟩, all⟩ | ⟨closed, e, n, rfl⟩⟩
    · exact .inl ⟨⟨1, rfl⟩, by omega⟩
    · exact .inl ⟨⟨n + 1, by rw [List.replicate_succ']⟩, all⟩
    · exact .inr ⟨closed, e, n + 1, by rw [List.replicate_succ', List.cons_append]⟩

end

namespace Valid
variable {file : RegularFile} {s : Reading}

/-- Reads and changes of the cache leave the file as it is, but for the cursor. -/
theorem withProgram (h : Valid file s) {p : Program} (sound : p.Sound)
    (same : s.program.SameFile p) : Valid file { s with program := p } := by
  refine ⟨sound, same.medium.trans h.medium, ?_,
    fun v mem => (h.visits v mem).of_file same.medium fun closed => same.state.trans closed⟩
  dsimp only
  rw [same.state, same.released]
  exact h.state

theorem close (h : Valid file s) : Valid file { s with program := s.program.close } := by
  unfold Program.close
  split
  next closed =>
    exact ⟨h.program.forget, h.medium, h.state, fun v mem => (h.visits v mem).of_file rfl id⟩
  next =>
    have state : ({ s.program with file := s.program.file.markClosed.release }.forget).state =
        .closed := rfl
    exact ⟨h.program.markClosed.release.forget, h.medium, .inr state,
      fun v mem => (h.visits v mem).of_file rfl fun _ => state⟩

theorem step (h : Valid file s) (e : Event) : Valid file (s.step e) := by
  cases e with
  | get line => exact h.withProgram (h.program.getCommand line).1 (s.program.sameFile_getCommand line)
  | setCapacity capacity => exact h.withProgram (h.program.setCacheCapacity capacity) rfl
  | record held ms => exact h.withProgram (h.program.recordTime held ms) rfl
  | close => exact h.close
  | begin line =>
    unfold Reading.step
    dsimp only
    split
    next walk started =>
      obtain ⟨sound, -, nonneg, at_start, le⟩ := Walk.Sound.start h.program started
      refine ⟨h.program, h.medium, h.state, fun v mem => ?_⟩
      rcases Array.mem_push.mp mem with before | rfl
      · exact h.visits v before
      · exact ⟨sound, by dsimp only; omega, [], [], rfl, rfl, .inl ⟨rfl, at_start⟩⟩
    next => exact h
  | ask number =>
    unfold Reading.step
    dsimp only
    split
    next v found =>
      have faithful := h.visits v (Array.mem_of_getElem? found)
      have gave := faithful.walk.next h.program
      have others := h.withProgram gave.program (v.walk.sameFile_next s.program)
      refine ⟨others.program, others.medium, others.state, fun u mem => ?_⟩
      rcases Array.mem_or_eq_of_mem_setIfInBounds mem with before | rfl
      · exact others.visits u before
      · exact faithful.ask h.program h.state
    next => exact h

theorem run (h : Valid file s) (events : List Event) : Valid file (s.run events) := by
  induction events generalizing s with
  | nil => exact h
  | cons e events ih => exact ih (h.step e)

end Valid

/-- Only closing a program ends reading it. -/
theorem state_step {s : Reading} {e : Event} (other : e ≠ .close) :
    (s.step e).program.state = s.program.state := by
  cases e with
  | close => exact absurd rfl other
  | get line => exact (s.program.sameFile_getCommand line).state
  | setCapacity | record => rfl
  | begin line =>
    unfold Reading.step
    dsimp only
    split <;> rfl
  | ask number =>
    unfold Reading.step
    dsimp only
    split
    · exact (Walk.sameFile_next ..).state
    · rfl

theorem state_run {s : Reading} {events : List Event} (others : .close ∉ events) :
    (s.run events).program.state = s.program.state := by
  induction events generalizing s with
  | nil => rfl
  | cons e events ih =>
    rw [List.mem_cons, not_or] at others
    exact (ih others.2).trans (state_step (Ne.symm others.1))

theorem Valid.openBuilt (path : String) (file : RegularFile) (settings : StreamSettings)
    (room : (settings.chunkSize : Int) ≤ Word.highest) :
    Valid file { program := .openBuilt path (.file file) settings } ∧
      (Program.openBuilt path (.file file) settings).state = .built := by
  have fields := IndexedFile.build_eq (.openAt path (.file file) settings.chunkSize)
  have released : (Program.openBuilt path (.file file) settings).file.released = false :=
    congrArg IndexedFile.released fields
  have built : (Program.openBuilt path (.file file) settings).state = .built :=
    (IndexedFile.state_build_eq_built_iff path file _).mpr room
  exact ⟨⟨.openBuilt path (.file file) settings, congrArg IndexedFile.medium fields,
    .inl ⟨built, released⟩, fun v mem => by simp at mem⟩, built⟩

/-- A program can be walked from each of its lines and from its end. -/
theorem exists_start_iff {p : Program} (sound : p.Sound) (built : p.state = .built) (line : Int) :
    (∃ w, Walk.start p line = .ok w) ↔ 0 ≤ line ∧ line ≤ p.commands.length := by
  refine ⟨fun ⟨w, started⟩ => ?_, fun ⟨nonneg, le⟩ => ?_⟩
  · obtain ⟨-, -, nonneg, -, le⟩ := Walk.Sound.start sound started
    exact ⟨nonneg, le⟩
  · obtain ⟨opened, index, ending, phase, index_of⟩ := sound.file.exists_indexOf built
    have readable : p.file.readable = .ok index := by
      simp [IndexedFile.readable, opened, phase]
    have range : 0 ≤ line ∧ line ≤ index.totalLines := by
      rw [index_of.totalLines_eq]
      rw [Program.length_commands] at le
      exact ⟨nonneg, le⟩
    refine ⟨{ nextLine := line.toNat, totalLines := p.totalLines }, ?_⟩
    simp only [Walk.start, IndexedFile.checkStart, readable, IndexedFile.startInRange,
      if_pos range, bind, Except.bind]
    rfl

/-! ## Without an index -/

/-- A program without an index, of which nothing can have been read. -/
structure Unread (s : Reading) : Prop where
  index : s.program.file.index? = none
  forgotten : s.program.cache.entries = []
  visits : s.visits = #[]

namespace Unread
variable {s : Reading}

/-- Where there is no index, there is a reason not to read. -/
theorem exists_readable_eq (h : Unread s) : ∃ e, s.program.file.readable = .error e := by
  have none := h.index
  unfold IndexedFile.index? at none
  unfold IndexedFile.readable
  split
  · exact ⟨_, rfl⟩
  · cases phase : s.program.file.phase with
    | scanning | failed => exact ⟨_, rfl⟩
    | built => simp [phase] at none

theorem cached?_eq_none (h : Unread s) (line : Nat) : s.program.cached? line = none := by
  rw [Program.cached?, Cache.get?, h.forgotten]
  rfl

/-- Nothing is read, so nothing changes. -/
theorem getCommand_eq (h : Unread s) (line : Nat) : (s.program.getCommand line).2 = s.program := by
  obtain ⟨e, refused⟩ := h.exists_readable_eq
  rw [Program.getCommand, h.cached?_eq_none]
  simp [IndexedFile.linesFrom, IndexedFile.placeFor, refused, bind, Except.bind]

theorem step (h : Unread s) (e : Event) : Unread (s.step e) := by
  cases e with
  | get line =>
    unfold Reading.step
    dsimp only
    rw [h.getCommand_eq]
    exact h
  | setCapacity capacity =>
    refine ⟨h.index, ?_, h.visits⟩
    exact List.suffix_nil.mp (h.forgotten ▸ Cache.evict_suffix capacity s.program.cache.entries)
  | record held ms => exact ⟨h.index, h.forgotten, h.visits⟩
  | close =>
    unfold Reading.step Program.close
    dsimp only
    split <;> exact ⟨h.index, rfl, h.visits⟩
  | begin line =>
    obtain ⟨e, refused⟩ := h.exists_readable_eq
    simpa [Reading.step, Walk.start, IndexedFile.checkStart, refused, bind, Except.bind] using h
  | ask number =>
    simpa [Reading.step, h.visits] using h

theorem run (h : Unread s) (events : List Event) : Unread (s.run events) := by
  induction events generalizing s with
  | nil => exact h
  | cons e events ih => exact ih (h.step e)

end Unread

/-- Where there can be no buffer for a chunk, nothing is ever read. -/
theorem unread_openBuilt (path : String) (file : RegularFile) {settings : StreamSettings}
    (noRoom : ¬(settings.chunkSize : Int) ≤ Word.highest) :
    Unread { program := .openBuilt path (.file file) settings } :=
  ⟨congrArg IndexedFile.index? (IndexedFile.build_of_no_room path file noRoom), rfl, rfl⟩

/-! ## What is read -/

/-- **What is kept does not show in what is read.**  After any reads, changes
of capacity and walks begun and left anywhere, what is kept for a line is its
command; while the program is open, if there could be an index, getting a line
gives its command, nothing at the end and an error beyond; and every walk gives
the commands from its start on, one by one, and then nothing more. -/
theorem cache_invisible (path : String) (file : RegularFile) (settings : StreamSettings)
    (events : List Event) :
    let s := run { program := .openBuilt path (.file file) settings } events
    let commands := commandsOf file.content
    (∀ line held, s.program.cached? line = some held → commands[line]? = some held.command) ∧
      (.close ∉ events → (settings.chunkSize : Int) ≤ Word.highest →
        (∀ line, (s.program.getCommand line).1.map (·.map Issued.command) =
          if line ≤ commands.length then .ok commands[line]?
          else .error (.lineOutOfRange (Program.startAt line) commands.length)) ∧
        ∀ line, (∃ w, Walk.start s.program line = .ok w) ↔ 0 ≤ line ∧ line ≤ commands.length) ∧
      ∀ v ∈ s.visits, v.Reads commands (.close ∈ events) := by
  intro s commands
  by_cases room : (settings.chunkSize : Int) ≤ Word.highest
  case neg =>
    have unread : Unread s := (unread_openBuilt path file room).run events
    refine ⟨fun line held cached => ?_, fun _ has => absurd has room, fun v mem => ?_⟩
    · cases (unread.cached?_eq_none line).symm.trans cached
    · rw [unread.visits] at mem
      simp at mem
  obtain ⟨start, start_built⟩ := Valid.openBuilt path file settings room
  have valid : Valid file s := start.run events
  have commands_eq : s.program.commands = commands := by
    rw [Program.commands, valid.medium]
    rfl
  have built (others : .close ∉ events) : s.program.state = .built :=
    (state_run others).trans start_built
  refine ⟨fun line held cached => ?_, fun others _ => ⟨fun line => ?_, fun line => ?_⟩, ?_⟩
  · rw [← commands_eq]
    exact valid.program.of_cached? cached
  · have held : s.program.file.released = false := by
      rcases valid.state with ⟨-, held⟩ | closed
      · exact held
      · cases closed.symm.trans (built others)
    rw [← commands_eq]
    exact valid.program.getCommand_of_built (built others) held line
  · rw [← commands_eq]
    exact exists_start_iff valid.program (built others) line
  · intro v mem
    obtain ⟨given, rest, answers, read, place⟩ := (valid.visits v mem).answers
    rw [commands_eq] at read place
    refine ⟨given, rest, answers, read, ?_⟩
    rcases place with ⟨on, -⟩ | ⟨-, finished | ⟨closed, error⟩⟩
    · exact .inl on
    · exact .inr (.inl finished)
    · refine .inr (.inr ⟨Decidable.byContradiction fun others => ?_, error⟩)
      cases closed.symm.trans (built others)

/-- Two lines and no room to keep a command: a walk begun and left, and what is read behind it. -/
theorem cache_invisible_without_room :
    let file : RegularFile := ⟨⟨#[71, 49, 10, 77, 50]⟩, by decide, .whole⟩
    let events : List Event := [.begin 0, .get 1, .setCapacity 0]
    let s := run { program := .openBuilt "job" (.file file) ⟨2, 1⟩ } events
    (s.program.getCommand 1).1.map (·.map Issued.command) = .ok (some (.parse 1 "M2")) ∧
      (s.program.getCommand 2).1.map (·.map Issued.command) = .ok none ∧
      (s.program.getCommand (2 ^ 63)).1.map (·.map Issued.command) =
        .error (.lineOutOfRange Word.highest 2) ∧
      (∃ w, Walk.start s.program 2 = .ok w) ∧
      ∃ v ∈ s.visits, v.start = 0 ∧
        v.Reads [.parse 0 "G1", .parse 1 "M2"] (.close ∈ events) := by
  intro file events s
  have commands : commandsOf file.content = [.parse 0 "G1", .parse 1 "M2"] := by decide +kernel
  obtain ⟨-, reads, visits⟩ := cache_invisible "job" file ⟨2, 1⟩ events
  have room : ((2 : Nat) : Int) ≤ Word.highest := by decide
  obtain ⟨get, start⟩ := reads (by decide) room
  rw [commands] at get start visits
  refine ⟨get 1, get 2, get (2 ^ 63), (start 2).mpr (by decide), ?_⟩
  obtain ⟨valid, built⟩ := Valid.openBuilt "job" file ⟨2, 1⟩ room
  obtain ⟨w, started⟩ := (exists_start_iff valid.program built 0).mpr ⟨by decide, by omega⟩
  have begun : (⟨0, w, []⟩ : Visit) ∈ s.visits := by
    change _ ∈ (Reading.step _ (.begin 0)).visits
    simp [Reading.step, started]
  exact ⟨_, begun, rfl, visits _ begun⟩

end Reading

end GcodeJob
