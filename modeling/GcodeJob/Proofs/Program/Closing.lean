import GcodeJob.Proofs.File.Lifetime
import GcodeJob.Proofs.Program.Sharing

/-!
# GcodeJob.Proofs.Program.Closing

Closing is final, whoever else reads or builds.  Closing takes three sections
with anything in between: the file is marked, then let go of, then what is kept
is forgotten.  The second waits for the cursor, and a reader on its way from a
line of the file to keeping the command of it has the cursor
(`Reader.HoldsCursor`).  So once the file has been let go of, every reader is
away from it (`Reader.Away`) and no step keeps anything any more
(`Sharing.Sealed`): what is then forgotten stays forgotten.

**Main result** (`Sharing.closing_is_final`): the state of the index only goes
on, the number of lines changes once, and when the one call that closes the
program has returned, all reading is refused for good.
-/

namespace GcodeJob

/-! ## Where a reader is -/

/-- Whether a reader has something to do for a line of the file. -/
def ReaderPoint.needsCursor : ReaderPoint → Bool
  | .reading | .rechecking _ | .keeping _ => true
  | _ => false

namespace Reader

/-- From a line of the file to the command that is kept, a reader has the cursor. -/
def HoldsCursor (r : Reader) : Prop := r.point.needsCursor = true → r.lines?.isSome = true

/-- A reader away from the file. -/
structure Away (r : Reader) : Prop where
  free : r.lines? = none
  outside : r.point.needsCursor = false

/-- Nothing follows but the end: one command has been given or refused, or a
walk is at its end. -/
def isOver (r : Reader) : Bool :=
  match r.point, r.limit? with
  | .gone, _ => true
  | .resting, some limit => limit ≤ r.line
  | _, _ => false

/-- All that a step can make of one reader, and what it is given by it. -/
inductive Turn (free : Bool) (p : Program) (r : Reader) : List Reply → Reader → Prop
  | waits : Turn free p r [] r
  | advances : Turn free p r (r.advance free p).1 (r.advance free p).2.2
  | asked : Turn free p r r.asked.1 r.asked.2
  | drops : Turn free p r [] r.dropped

section
variable {free : Bool} {p : Program} {r r' : Reader} {given : List Reply}

/-! ## The way to the cursor -/

theorem holdsCursor_passed (r : Reader) : r.passed.HoldsCursor := by
  unfold passed HoldsCursor
  split <;> simp [ReaderPoint.needsCursor]

theorem holdsCursor_ended (r : Reader) : r.ended.HoldsCursor := by
  unfold ended HoldsCursor
  split <;> simp [ReaderPoint.needsCursor]

theorem HoldsCursor.advance (h : r.HoldsCursor) (free : Bool) (p : Program) :
    (r.advance free p).2.2.HoldsCursor := by
  unfold Reader.advance
  cases at_ : r.point with
  | resting | gone => exact h
  | looking =>
    dsimp only
    cases p.cached? r.line with
    | some held => exact r.holdsCursor_passed
    | none => simp [HoldsCursor, ReaderPoint.needsCursor]
  | admitting =>
    dsimp only
    cases p.file.placeFor (Program.startAt r.line) with
    | ok found => simp [HoldsCursor, ReaderPoint.needsCursor]
    | error e => exact r.holdsCursor_ended
  | reaching index start =>
    dsimp only
    split
    · exact h
    cases p.file.reach index start with
    | ok lines => simp [HoldsCursor]
    | error e => exact r.holdsCursor_ended
  | reading =>
    dsimp only
    cases r.lines? with
    | none => exact r.holdsCursor_ended
    | some lines =>
      dsimp only
      obtain ⟨_ | _ | raw, after⟩ := p.file.nextLine lines
      · exact r.holdsCursor_ended
      · exact r.holdsCursor_ended
      · simp [HoldsCursor]
  | rechecking raw =>
    dsimp only
    cases p.cached? r.line with
    | some held => exact r.holdsCursor_passed
    | none =>
      have holds : r.lines?.isSome = true := h (by simp [at_, ReaderPoint.needsCursor])
      simpa [HoldsCursor] using fun _ => holds
  | keeping raw => exact r.holdsCursor_passed

theorem HoldsCursor.asked (h : r.HoldsCursor) : r.asked.2.HoldsCursor := by
  unfold Reader.asked
  split
  · split
    · exact h
    by_cases holds : r.lines?.isSome = true
    · simp [HoldsCursor, holds]
    · simp [HoldsCursor, holds, ReaderPoint.needsCursor]
  · exact h

theorem HoldsCursor.dropped (h : r.HoldsCursor) : r.dropped.HoldsCursor := by
  unfold Reader.dropped
  split
  · simp [HoldsCursor, ReaderPoint.needsCursor]
  · exact h

theorem HoldsCursor.turn (h : r.HoldsCursor) (turn : Turn free p r given r') :
    r'.HoldsCursor := by
  cases turn with
  | waits => exact h
  | advances => exact h.advance free p
  | asked => exact h.asked
  | drops => exact h.dropped

/-- Who does not have the cursor is away from the file. -/
theorem HoldsCursor.away (h : r.HoldsCursor) (none : r.lines? = none) : r.Away := by
  refine ⟨none, ?_⟩
  cases needs : r.point.needsCursor with
  | false => rfl
  | true =>
    have holds := h needs
    simp [none] at holds

/-- No section of a reader closes the file. -/
theorem works_advance (free : Bool) (p : Program) (r : Reader) :
    p.file.Works (r.advance free p).2.1.file := by
  unfold advance
  cases r.point with
  | resting | gone => exact .refl p.file
  | looking | rechecking =>
    dsimp only
    cases p.cached? r.line <;> exact .refl p.file
  | admitting =>
    dsimp only
    cases p.file.placeFor (Program.startAt r.line) <;> exact .refl p.file
  | reaching index start =>
    dsimp only
    split
    · exact .refl p.file
    · cases p.file.reach index start <;> exact .refl p.file
  | reading =>
    dsimp only
    cases r.lines? with
    | none => exact .refl p.file
    | some lines =>
      dsimp only
      obtain ⟨_ | _ | raw, after⟩ := p.file.nextLine lines <;> exact p.file.works_afterReading after
  | keeping raw => exact .refl p.file

/-! ## A reader of a file that has been let go of -/

theorem Away.passed (h : r.Away) : r.passed.Away := by
  unfold Reader.passed
  split
  · exact ⟨h.free, rfl⟩
  · exact ⟨rfl, rfl⟩

theorem away_ended (r : Reader) : r.ended.Away := by
  unfold ended
  split <;> exact ⟨rfl, rfl⟩

theorem isOver_ended (r : Reader) : r.ended.isOver = true := by
  unfold ended
  cases r.limit? <;> simp [isOver]

/-- A section of a reader that is away from a file that has been let go of
leaves it away, and the program as it is. -/
theorem Away.advance (h : r.Away) (released : p.file.released = true) (free : Bool) :
    (r.advance free p).2.1 = p ∧ (r.advance free p).2.2.Away := by
  unfold Reader.advance
  have outside := h.outside
  cases at_ : r.point with
  | resting | gone => exact ⟨rfl, h⟩
  | looking =>
    dsimp only
    cases p.cached? r.line with
    | some held => exact ⟨rfl, h.passed⟩
    | none => exact ⟨rfl, h.free, rfl⟩
  | admitting =>
    dsimp only
    cases p.file.placeFor (Program.startAt r.line) with
    | ok found => exact ⟨rfl, h.free, rfl⟩
    | error e => exact ⟨rfl, r.away_ended⟩
  | reaching index start =>
    dsimp only
    split
    · exact ⟨rfl, h⟩
    · rw [IndexedFile.reach, if_pos released]
      exact ⟨rfl, r.away_ended⟩
  | reading | rechecking raw | keeping raw => simp [at_, ReaderPoint.needsCursor] at outside

theorem Away.turn (h : r.Away) (released : p.file.released = true) (turn : Turn free p r given r') :
    r'.Away := by
  cases turn with
  | waits => exact h
  | advances => exact (h.advance released free).2
  | asked =>
    unfold Reader.asked
    split
    · split
      · exact h
      · exact ⟨h.free, by simp [h.free, ReaderPoint.needsCursor]⟩
    · exact h
  | drops =>
    unfold Reader.dropped
    split
    · exact ⟨rfl, rfl⟩
    · exact h

end

end Reader

/-! ## When nothing can be read -/

/-- The file is closed and let go of, and nothing is kept. -/
structure Program.Shut (p : Program) : Prop where
  closed : p.file.closed = true
  released : p.file.released = true
  forgotten : p.cache.entries = []

namespace Program.Shut

variable {p : Program}

theorem cached?_eq_none (h : p.Shut) (line : Nat) : p.cached? line = none := by
  simp [cached?, Cache.get?, h.forgotten]

theorem readable_eq (h : p.Shut) : p.file.readable = .error (.streamClosed p.file.path) := by
  simp [IndexedFile.readable, h.closed]

theorem placeFor_eq (h : p.Shut) (start : Int) :
    p.file.placeFor start = .error (.streamClosed p.file.path) := by
  simp [IndexedFile.placeFor, h.readable_eq, bind, Except.bind]

theorem linesFrom_eq (h : p.Shut) (start : Int) :
    p.file.linesFrom start = .error (.streamClosed p.file.path) := by
  simp [IndexedFile.linesFrom, h.placeFor_eq, bind, Except.bind]

theorem checkStart_eq (h : p.Shut) (start : Int) :
    p.file.checkStart start = .error (.streamClosed p.file.path) := by
  simp [IndexedFile.checkStart, h.readable_eq, bind, Except.bind]

theorem start_eq (h : p.Shut) (start : Int) :
    Walk.start p start = .error (.streamClosed p.file.path) := by
  simp [Walk.start, h.checkStart_eq, bind, Except.bind]

theorem getCommand_eq (h : p.Shut) (line : Nat) :
    p.getCommand line = (.error (.streamClosed p.file.path), p) := by
  simp [getCommand, h.cached?_eq_none, h.linesFrom_eq]

end Program.Shut

namespace Reader

/-- The end, again and again, and before it at most one error of a closed program. -/
def RefusedOnce (path : String) (replies : List Reply) : Prop :=
  ∃ n, replies = List.replicate n none ∨
    replies = some (.error (.streamClosed path)) :: List.replicate n none

/-- A reader has been given nothing, or it is over and has been refused at most
once.  Who gets one command is given the error and no end. -/
def Refused (path : String) (r : Reader) (replies : List Reply) : Prop :=
  replies = [] ∨ r.isOver = true ∧ RefusedOnce path replies ∧
    (r.limit? = none → replies = [some (.error (.streamClosed path))])

section
variable {free : Bool} {p : Program} {r r' : Reader} {given : List Reply}

theorem RefusedOnce.concat {path : String} {replies : List Reply} (h : RefusedOnce path replies) :
    RefusedOnce path (replies ++ [none]) := by
  obtain ⟨n, rfl | rfl⟩ := h
  · exact ⟨n + 1, .inl List.replicate_succ'.symm⟩
  · exact ⟨n + 1, .inr (by rw [List.replicate_succ', List.cons_append])⟩

theorem limit?_ended (r : Reader) : r.ended.limit? = r.limit? := by
  unfold ended
  split <;> simp [*]

/-- A reader that is over goes on to be, and is given nothing but the end. -/
theorem turn_of_isOver (over_ : r.isOver = true) (turn : Turn free p r given r') :
    r'.isOver = true ∧ r'.limit? = r.limit? ∧ (given = [] ∨ given = [none] ∧ r.limit?.isSome) := by
  unfold isOver at over_
  split at over_
  next gone =>
    have stays : r.asked = ([], r) := by simp [Reader.asked, gone]
    have same : r.dropped = r := by simp [Reader.dropped, gone]
    have still : r.isOver = true := by simp [isOver, gone]
    cases turn with
    | waits => simp [still]
    | advances => simp [Reader.advance, gone, still]
    | asked => simp [stays, still]
    | drops => simp [same, still]
  next limit resting at_ =>
    have le : limit ≤ r.line := by simpa using over_
    have still : r.isOver = true := by simp [isOver, resting, at_, le]
    cases turn with
    | waits => simp [still]
    | advances => simp [Reader.advance, resting, still]
    | asked => simp [Reader.asked, resting, at_, le, still]
    | drops => simp [Reader.dropped, resting, isOver]
  next => cases over_

/-- A reader of a program that is shut is given nothing, or the error and is over then, or
the end where it is over already. -/
theorem turn_of_shut (shut : p.Shut) (away : r.Away) (turn : Turn free p r given r') :
    r'.limit? = r.limit? ∧
      (given = [] ∨ given = [some (.error (.streamClosed p.file.path))] ∧ r'.isOver = true ∨
        given = [none] ∧ r.isOver = true) := by
  cases turn with
  | waits => simp
  | advances =>
    have outside := away.outside
    unfold Reader.advance
    cases at_ : r.point with
    | resting | gone => simp
    | looking => simp [shut.cached?_eq_none]
    | admitting => simp [shut.placeFor_eq, limit?_ended, isOver_ended]
    | reaching index start =>
      cases free
      · simp
      · simp [IndexedFile.reach, shut.released, limit?_ended, isOver_ended]
    | reading | rechecking raw | keeping raw => simp [at_, ReaderPoint.needsCursor] at outside
  | asked =>
    unfold Reader.asked
    split
    next limit resting at_ =>
      split
      next le => simp [isOver, resting, at_, le]
      next => simp
    next => simp
  | drops =>
    unfold Reader.dropped
    split <;> simp

/-- Refusing goes on, turn by turn. -/
theorem Refused.turn {replies : List Reply} (h : Refused p.file.path r replies) (shut : p.Shut)
    (away : r.Away) (turn : Turn free p r given r') :
    Refused p.file.path r' (replies ++ given) := by
  rcases h with rfl | ⟨over_, once, single⟩
  · obtain ⟨limit, rfl | ⟨rfl, over_⟩ | ⟨rfl, over_⟩⟩ := turn_of_shut shut away turn
    · exact .inl rfl
    · exact .inr ⟨over_, ⟨0, .inr rfl⟩, fun _ => rfl⟩
    · obtain ⟨still, -, nothing | ⟨-, walks⟩⟩ := turn_of_isOver over_ turn
      · cases nothing
      · exact .inr ⟨still, ⟨1, .inl rfl⟩, fun alone => by simp [← limit, alone] at walks⟩
  · obtain ⟨still, limit, rfl | ⟨rfl, walks⟩⟩ := turn_of_isOver over_ turn
    · rw [List.append_nil]
      exact .inr ⟨still, once, fun alone => single (limit ▸ alone)⟩
    · exact .inr ⟨still, once.concat, fun alone => by simp [← limit, alone] at walks⟩

end

end Reader

namespace Sharing

/-- All that a reader has been given, in order. -/
def repliesTo (s : Sharing) (number : Nat) : List Reply :=
  (s.answers.filter (·.reader? == some number)).map Answer.reply

/-! ## What a step does to the file and to each reader -/

section
variable {s : Sharing}

/-- No step but those of closing closes the file. -/
theorem works_step (s : Sharing) {e : Event} (other : ∀ number, e ≠ .advanceCloser number) :
    s.program.file.Works (s.step e).program.file := by
  cases e with
  | look | get | drop | setCapacity | record | close => exact .refl s.program.file
  | begin start =>
    unfold step
    dsimp only
    split <;> exact .refl _
  | ask number =>
    unfold step ask
    dsimp only
    split <;> exact .refl _
  | advance number =>
    unfold step Sharing.advance
    dsimp only
    split
    · exact .refl _
    · exact Reader.works_advance ..
  | advanceCloser number => exact absurd rfl (other number)
  | build =>
    unfold step build
    dsimp only
    split
    · split
      · exact .refl _
      · split
        · exact .refl _
        · exact IndexedFile.works_readFoundOpen _
    · exact IndexedFile.works_takeChunk _
  | rewrite content => exact IndexedFile.works_replaceContent ..
  | damage kept => exact IndexedFile.works_withMedium ..

theorem goesOn_step (s : Sharing) (e : Event) :
    s.program.file.GoesOn (s.step e).program.file := by
  cases e with
  | advanceCloser number =>
    unfold step advanceCloser
    dsimp only
    split
    · split
      · exact .refl _
      · exact IndexedFile.goesOn_markClosed _
    · split
      · exact .refl _
      · exact IndexedFile.goesOn_release _
    · exact .refl _
    · exact .refl _
    · exact .refl _
  | _ => exact (s.works_step (by simp)).goesOn

theorem goesOn_run (s : Sharing) (events : List Event) :
    s.program.file.GoesOn (s.run events).program.file := by
  induction events generalizing s with
  | nil => exact .refl s.program.file
  | cons e events ih => exact (s.goesOn_step e).trans (ih (s.step e))

/-- All that a step can do to the readers and to what they have been given. -/
inductive Moves (s t : Sharing) : Prop
  | rests (readers : t.readers = s.readers) (replies : ∀ n, t.repliesTo n = s.repliesTo n)
  /-- Somebody comes, away from the file. -/
  | comes (r : Reader) (away : r.Away) (readers : t.readers = s.readers.push r)
      (replies : ∀ n, t.repliesTo n = s.repliesTo n)
  /-- One reader takes a turn. -/
  | turns (number : Nat) (r : Reader) (found : s.readers[number]? = some r) (given : List Reply)
      (r' : Reader) (turn : r.Turn (!s.busy) s.program given r')
      (readers : t.readers = s.readers.setIfInBounds number r')
      (replies : ∀ n, t.repliesTo n = s.repliesTo n ++ if n = number then given else [])

theorem repliesTo_give (s : Sharing) (number line : Nat) (given : List Reply) (program : Program)
    (r : Reader) (n : Nat) :
    (s.give number line given program r).repliesTo n =
      s.repliesTo n ++ if n = number then given else [] := by
  by_cases same : n = number
  · simp [repliesTo, give, List.filter_map, Function.comp_def, same]
  · simp [repliesTo, give, List.filter_map, Function.comp_def, same, Ne.symm same]

theorem moves_step (s : Sharing) (e : Event) : s.Moves (s.step e) := by
  cases e with
  | look line => exact .rests rfl (by simp [step, repliesTo])
  | get line => exact .comes (.single line) ⟨rfl, rfl⟩ rfl fun _ => rfl
  | begin start =>
    unfold step
    dsimp only
    cases begun : Walk.start s.program start with
    | error e => exact .rests rfl fun _ => rfl
    | ok walk =>
      refine .comes (.ofWalk walk) ⟨?_, rfl⟩ rfl fun _ => rfl
      unfold Walk.start at begun
      cases checked : s.program.file.checkStart start <;>
        simp [checked, bind, Except.bind, pure, Except.pure] at begun
      rw [← begun]
      rfl
  | setCapacity | record | close | damage => exact .rests rfl fun _ => rfl
  | rewrite content =>
    obtain ⟨file, after⟩ := s.exists_file_of_rewrite content
    rw [after]
    exact .rests rfl fun _ => rfl
  | build =>
    obtain ⟨file, building, after⟩ := s.exists_file_of_build
    rw [after]
    exact .rests rfl fun _ => rfl
  | advanceCloser number =>
    unfold step advanceCloser
    dsimp only
    split
    · split <;> exact .rests rfl fun _ => rfl
    · split <;> exact .rests rfl fun _ => rfl
    · exact .rests rfl fun _ => rfl
    · exact .rests rfl fun _ => rfl
    · exact .rests rfl fun _ => rfl
  | ask number =>
    unfold step ask
    dsimp only
    cases found : s.readers[number]? with
    | none => exact .rests rfl fun _ => rfl
    | some r => exact .turns number r found _ _ .asked rfl (s.repliesTo_give number r.line _ _ _)
  | advance number =>
    unfold step Sharing.advance
    dsimp only
    cases found : s.readers[number]? with
    | none => exact .rests rfl fun _ => rfl
    | some r => exact .turns number r found _ _ .advances rfl (s.repliesTo_give number r.line _ _ _)
  | drop number =>
    unfold step
    dsimp only
    cases found : s.readers[number]? with
    | none =>
      refine .rests (Array.ext_getElem? fun n => ?_) fun _ => rfl
      rw [Array.getElem?_modify]
      split <;> simp_all
    | some r =>
      have lt := (Array.getElem?_eq_some_iff.mp found).1
      refine .turns number r found [] r.dropped .drops (Array.ext_getElem? fun n => ?_)
        (by simp [repliesTo])
      rw [Array.getElem?_modify, Array.getElem?_setIfInBounds]
      split <;> simp_all

/-- What holds of those who come, and through every turn, holds of all readers. -/
theorem Moves.each {t : Sharing} {P : Reader → Prop} (h : s.Moves t)
    (all : ∀ (n : Nat) r, s.readers[n]? = some r → P r) (comes : ∀ r, r.Away → P r)
    (turns : ∀ r given r', P r → r.Turn (!s.busy) s.program given r' → P r') :
    ∀ (n : Nat) r, t.readers[n]? = some r → P r := by
  intro n r' found
  cases h with
  | rests readers => exact all n r' (readers ▸ found)
  | comes new away readers =>
    rw [readers, Array.getElem?_push] at found
    split at found
    · cases found
      exact comes r' away
    · exact all n r' found
  | turns number r before given r'' turn readers =>
    rw [readers, Array.getElem?_setIfInBounds] at found
    split at found
    · split at found
      · cases found
        exact turns r given r' (all number r before) turn
      · cases found
    · exact all n r' found

end

/-! ## A file that has been let go of -/

/-- Nobody can come to the file any more, and nobody is there. -/
structure Sealed (s : Sharing) : Prop where
  closed : s.program.file.closed = true
  released : s.program.file.released = true
  away : ∀ (n : Nat) r, s.readers[n]? = some r → r.Away

section
variable {s : Sharing}

theorem Sealed.step (h : s.Sealed) (e : Event) : (s.step e).Sealed where
  closed := (s.goesOn_step e).closed h.closed
  released := (s.goesOn_step e).released h.released
  away := (s.moves_step e).each h.away (fun _ away => away)
    fun _ _ _ away turn => away.turn h.released turn

/-- Nothing is kept after nothing has been. -/
theorem Sealed.entries_step (h : s.Sealed) (forgotten : s.program.cache.entries = []) (e : Event) :
    (s.step e).program.cache.entries = [] := by
  cases e with
  | look | get | drop | record | close | damage => exact forgotten
  | begin start =>
    unfold Sharing.step
    dsimp only
    split <;> exact forgotten
  | ask number =>
    unfold Sharing.step ask
    dsimp only
    split <;> exact forgotten
  | advance number =>
    unfold Sharing.step Sharing.advance
    dsimp only
    split
    next => exact forgotten
    next r found =>
      have same := ((h.away number r found).advance h.released (!s.busy)).1
      simpa [give, same] using forgotten
  | setCapacity capacity =>
    have fewer := Cache.evict_suffix capacity s.program.cache.entries
    exact List.suffix_nil.mp (forgotten ▸ fewer)
  | advanceCloser number =>
    unfold Sharing.step advanceCloser
    dsimp only
    split
    · split <;> exact forgotten
    · split <;> exact forgotten
    · rfl
    · exact forgotten
    · exact forgotten
  | build =>
    obtain ⟨file, building, after⟩ := s.exists_file_of_build
    rw [after]
    exact forgotten
  | rewrite content =>
    obtain ⟨file, after⟩ := s.exists_file_of_rewrite content
    rw [after]
    exact forgotten

/-- Closing is over: the file has been let go of, and nothing is kept. -/
structure Finished (s : Sharing) : Prop extends s.Sealed where
  forgotten : s.program.cache.entries = []

theorem Finished.shut (h : s.Finished) : s.program.Shut := ⟨h.closed, h.released, h.forgotten⟩

theorem Finished.step (h : s.Finished) (e : Event) : (s.step e).Finished :=
  ⟨h.toSealed.step e, h.toSealed.entries_step h.forgotten e⟩

theorem Finished.run (h : s.Finished) (events : List Event) : (s.run events).Finished := by
  induction events generalizing s with
  | nil => exact h
  | cons e events ih => exact ih (h.step e)

/-! ## The sections of closing -/

/-- What holds when the only call that closes the program has come to a section. -/
def Reached (s : Sharing) : Closer → Prop
  | .marking => s.program.file.closed = false
  | .releasing => s.program.file.closed = true
  | .forgetting => s.Sealed
  | .returned => s.Finished

/-- How far closing has come, as long as there is one call of it at most. -/
structure Closing (s : Sharing) : Prop where
  holds : ∀ (n : Nat) r, s.readers[n]? = some r → r.HoldsCursor
  unmarked : s.closers = #[] → s.program.file.closed = false
  reached : ∀ c, s.closers = #[c] → s.Reached c

theorem closing_opened (path : String) (medium : Medium) (settings : StreamSettings) :
    (opened path medium settings).Closing where
  holds n r found := by simp [opened] at found
  unmarked _ := IndexedFile.closed_openAt path medium settings.chunkSize
  reached c only := by simp [opened] at only

/-- A step that is not one of closing leaves it where it is. -/
theorem Reached.step {c : Closer} (h : s.Reached c) {e : Event}
    (other : ∀ number, e ≠ .advanceCloser number) : (s.step e).Reached c := by
  have closed := (s.works_step other).closed
  cases c with
  | marking | releasing => exact closed.trans h
  | forgetting => exact Sealed.step h e
  | returned => exact Finished.step h e

/-- Only calls that close the program come to closing. -/
theorem closers_step (s : Sharing) {e : Event} (close : e ≠ .close)
    (other : ∀ number, e ≠ .advanceCloser number) : (s.step e).closers = s.closers := by
  cases e with
  | look | get | drop | setCapacity | record | damage => rfl
  | begin start =>
    unfold Sharing.step
    dsimp only
    split <;> rfl
  | ask number =>
    unfold Sharing.step ask
    dsimp only
    split <;> rfl
  | advance number =>
    unfold Sharing.step Sharing.advance
    dsimp only
    split <;> rfl
  | close => exact absurd rfl close
  | advanceCloser number => exact absurd rfl (other number)
  | build =>
    obtain ⟨file, building, after⟩ := s.exists_file_of_build
    rw [after]
  | rewrite content =>
    obtain ⟨file, after⟩ := s.exists_file_of_rewrite content
    rw [after]

/-- Nobody has the cursor. -/
theorem lines?_of_idle (idle : s.busy = false) {n : Nat} {r : Reader}
    (found : s.readers[n]? = some r) : r.lines? = none := by
  obtain ⟨lt, rfl⟩ := Array.getElem?_eq_some_iff.mp found
  have free : ∀ (n : Nat) (lt : n < s.readers.size), s.readers[n].lines? = none := by
    simpa [busy, Array.any_eq_false] using idle
  exact free n lt

/-- Whoever closes the program lets go of the file once nobody has the cursor, so
all readers are away by then. -/
theorem Closing.sealed_release (h : s.Closing) (closed : s.program.file.closed = true)
    (idle : s.busy = false) {t : Sharing} (file : t.program.file = s.program.file.release)
    (readers : t.readers = s.readers) : t.Sealed where
  closed := by
    rw [file]
    exact closed
  released := by
    rw [file]
    rfl
  away n r found := by
    rw [readers] at found
    exact (h.holds n r found).away (lines?_of_idle idle found)

theorem Closing.advanceCloser (h : s.Closing) {c : Closer} (only : s.closers = #[c]) :
    ∃ c', (s.advanceCloser 0).closers = #[c'] ∧ (s.advanceCloser 0).Reached c' := by
  have reached := h.reached c only
  unfold Sharing.advanceCloser
  dsimp only
  rw [only]
  cases c with
  | marking =>
    have unmarked : s.program.file.closed = false := reached
    simp [unmarked, Reached, IndexedFile.markClosed]
  | releasing =>
    cases idle : s.busy
    · refine ⟨.forgetting, by simp, ?_⟩
      exact h.sealed_release reached idle rfl rfl
    · exact ⟨.releasing, by simp [only], by simpa using reached⟩
  | forgetting =>
    refine ⟨.returned, by simp, ?_⟩
    have sealed_ : s.Sealed := reached
    exact ⟨⟨sealed_.closed, sealed_.released, sealed_.away⟩, rfl⟩
  | returned => exact ⟨.returned, by simp [only], by simpa using reached⟩

/-- A section of closing is one of a call there is. -/
theorem advanceCloser_eq (s : Sharing) (number : Nat) :
    s.advanceCloser number = s ∨ number < s.closers.size ∧ ∃ program c,
      s.advanceCloser number =
        { s with program, closers := s.closers.setIfInBounds number c } := by
  unfold Sharing.advanceCloser
  dsimp only
  cases found : s.closers[number]? with
  | none => exact .inl rfl
  | some c =>
    have lt := (Array.getElem?_eq_some_iff.mp found).1
    cases c with
    | marking =>
      dsimp only
      split <;> exact .inr ⟨lt, _, _, rfl⟩
    | releasing =>
      dsimp only
      split
      · exact .inl rfl
      · exact .inr ⟨lt, _, _, rfl⟩
    | forgetting => exact .inr ⟨lt, _, _, rfl⟩
    | returned => exact .inl rfl

theorem Closing.step (h : s.Closing) (e : Event) : (s.step e).Closing := by
  have holds : ∀ (n : Nat) r, (s.step e).readers[n]? = some r → r.HoldsCursor :=
    (s.moves_step e).each h.holds (fun r away => by simp [Reader.HoldsCursor, away.outside])
      fun _ _ _ holds turn => holds.turn turn
  by_cases close : e = .close
  · subst close
    refine ⟨holds, fun none => by simp [Sharing.step] at none, fun c only => ?_⟩
    have pushed : s.closers.push .marking = #[].push c := only
    obtain ⟨rfl, none⟩ := Array.push_eq_push.mp pushed
    exact h.unmarked none
  by_cases closing : ∃ number, e = .advanceCloser number
  · obtain ⟨number, rfl⟩ := closing
    rcases s.advanceCloser_eq number with same | ⟨lt, program, c, eq⟩
    · rw [Sharing.step, same]
      exact h
    · have size : (s.step (.advanceCloser number)).closers.size = s.closers.size := by
        rw [Sharing.step, eq, Array.size_setIfInBounds]
      refine ⟨holds, fun none => ?_, fun c' only => ?_⟩
      · rw [none, Array.size_empty] at size
        omega
      · rw [only, List.size_toArray, List.length_singleton] at size
        obtain rfl : number = 0 := by omega
        obtain ⟨c₀, only₀⟩ := Array.size_eq_one_iff.mp size.symm
        obtain ⟨c₁, only₁, reached⟩ := h.advanceCloser only₀
        rw [Sharing.step, only₁] at only
        cases only
        exact reached
  have other : ∀ number, e ≠ .advanceCloser number := fun number eq => closing ⟨number, eq⟩
  have closers := s.closers_step close other
  refine ⟨holds, fun none => ?_, fun c only => ?_⟩
  · rw [closers] at none
    exact (s.works_step other).closed.trans (h.unmarked none)
  · rw [closers] at only
    exact (h.reached c only).step other

theorem Closing.run (h : s.Closing) (events : List Event) : (s.run events).Closing := by
  induction events generalizing s with
  | nil => exact h
  | cons e events ih => exact ih (h.step e)

/-! ## Refusals -/

/-- What a reader has been given since closing was over; who has not come has been given nothing. -/
def RefusedTo (s : Sharing) (number : Nat) (given : List Reply) : Prop :=
  match s.readers[number]? with
  | none => given = []
  | some r => r.Refused s.program.file.path given

theorem Finished.refusedTo_step (h : s.Finished) {number : Nat} {given : List Reply}
    (refused : s.RefusedTo number given) (e : Event) :
    ∃ new, (s.step e).repliesTo number = s.repliesTo number ++ new ∧
      (s.step e).RefusedTo number (given ++ new) := by
  have path := (s.goesOn_step e).path
  unfold RefusedTo at refused ⊢
  rw [path]
  cases s.moves_step e with
  | rests readers replies => exact ⟨[], by simp [replies], by simpa [readers] using refused⟩
  | comes r away readers replies =>
    refine ⟨[], by simp [replies], ?_⟩
    rw [readers, Array.getElem?_push, List.append_nil]
    by_cases last : number = s.readers.size
    · have none : s.readers[number]? = none := by simp [last]
      simp only [none] at refused
      rw [if_pos last]
      exact .inl refused
    · rw [if_neg last]
      exact refused
  | turns n r found new r' turn readers replies =>
    refine ⟨if number = n then new else [], replies number, ?_⟩
    have lt := (Array.getElem?_eq_some_iff.mp found).1
    rw [readers, Array.getElem?_setIfInBounds]
    by_cases same : n = number
    · subst same
      simp only [found] at refused
      simpa [lt] using refused.turn h.shut (h.away n r found) turn
    · simpa [same, Ne.symm same] using refused

theorem Finished.refusedTo_run (h : s.Finished) {number : Nat} {given : List Reply}
    (refused : s.RefusedTo number given) (events : List Event) :
    ∃ new, (s.run events).repliesTo number = s.repliesTo number ++ new ∧
      (s.run events).RefusedTo number (given ++ new) := by
  induction events generalizing s given with
  | nil => exact ⟨[], by simp [Sharing.run], by simpa [Sharing.run] using refused⟩
  | cons e events ih =>
    obtain ⟨first, to_step, refused⟩ := h.refusedTo_step refused e
    obtain ⟨rest, to_run, refused⟩ := ih (h.step e) refused
    refine ⟨first ++ rest, ?_, ?_⟩
    · rw [← List.append_assoc, ← to_step, ← to_run]
      rfl
    · rw [← List.append_assoc]
      exact refused

end

/-! ## Closing is final -/

/-- What a look at the state of the index gives that begins now, with all that
goes on between its looks at the closing mark, at the index and for a failure. -/
def seen (s : Sharing) (between between' : List Event) : IndexState :=
  IndexedFile.seen s.program.file (s.run between).program.file
    ((s.run between).run between').program.file

theorem run_append (s : Sharing) (events events' : List Event) :
    s.run (events ++ events') = (s.run events).run events' := List.foldl_append

/-- Whatever goes on during two looks and between them, the second sees the
state go on. -/
theorem goesTo_seen (s : Sharing) (a a' gap b b' : List Event) :
    (s.seen a a').GoesTo ((s.run (a ++ a' ++ gap)).seen b b') := by
  rw [run_append, run_append]
  exact IndexedFile.goesTo_seen (goesOn_run ..) (goesOn_run ..) (goesOn_run ..) (goesOn_run ..)
    (goesOn_run ..)

/-- The file of a program that has been opened keeps its path. -/
theorem path_run_opened (path : String) (medium : Medium) (settings : StreamSettings)
    (events : List Event) :
    ((opened path medium settings).run events).program.file.path = path := by
  rw [(goesOn_run ..).path]
  exact IndexedFile.path_openAt path medium settings.chunkSize

/-- Whoever is at a closed program is refused at most once and meets the end from then
on, and whoever gets one command is refused. -/
theorem Finished.replies_run {s : Sharing} (finished : s.Finished) (later : List Event)
    (number : Nat) {path : String} (at_path : (s.run later).program.file.path = path) :
    ∃ given, (s.run later).repliesTo number = s.repliesTo number ++ given ∧
      Reader.RefusedOnce path given ∧
      ∀ r, (s.run later).readers[number]? = some r → r.limit? = none →
        given = [] ∨ given = [some (.error (.streamClosed path))] := by
  have nothing : s.RefusedTo number [] := by
    unfold RefusedTo
    cases s.readers[number]? with
    | none => rfl
    | some r => exact .inl rfl
  obtain ⟨given, replies, refused⟩ := finished.refusedTo_run nothing later
  refine ⟨given, replies, ?_⟩
  rw [List.nil_append, RefusedTo, at_path] at refused
  cases found : (s.run later).readers[number]? with
  | none =>
    rw [found] at refused
    exact ⟨⟨0, .inl refused⟩, nofun⟩
  | some r =>
    rw [found] at refused
    rcases refused with rfl | ⟨-, once, single⟩
    · exact ⟨⟨0, .inl rfl⟩, fun _ _ _ => .inl rfl⟩
    · refine ⟨once, fun r' same alone => .inr (single ?_)⟩
      obtain rfl := Option.some.inj same
      exact alone

/-- **Closing is final** for a program that has been opened, through all that
happens to it.  Each look at the state of the index sees what an earlier one saw,
or what may follow that, even if much happens during the looks.  There are no
lines until the index is installed, and from then on always as many.  Once the
only call that closes the program has returned, nothing is kept and nothing can
be got, walked or read, for good; whoever is at it is refused at most once and
meets the end from then on, and whoever gets one command is refused. -/
theorem closing_is_final (path : String) (medium : Medium) (settings : StreamSettings)
    (events : List Event) :
    let s := (opened path medium settings).run events
    (∀ a a' gap b b' : List Event, (s.seen a a').GoesTo ((s.run (a ++ a' ++ gap)).seen b b')) ∧
    (s.program.file.index? = none → s.program.totalLines = 0) ∧
    (s.program.file.index?.isSome = true → ∀ later : List Event,
      (s.run later).program.totalLines = s.program.totalLines) ∧
    (s.closers = #[.returned] → ∀ later : List Event,
      let t := s.run later
      t.program.state = .closed ∧ t.program.cache.length = 0 ∧
      (∀ line, t.program.cached? line = none) ∧
      (∀ line, t.program.getCommand line = (.error (.streamClosed path), t.program)) ∧
      (∀ start, Walk.start t.program start = .error (.streamClosed path)) ∧
      (∀ start, t.program.file.linesFrom start = .error (.streamClosed path)) ∧
      (∀ start, t.program.file.checkStart start = .error (.streamClosed path)) ∧
      ∀ number, ∃ given, t.repliesTo number = s.repliesTo number ++ given ∧
        Reader.RefusedOnce path given ∧
        ∀ r, t.readers[number]? = some r → r.limit? = none →
          given = [] ∨ given = [some (.error (.streamClosed path))]) := by
  intro s
  refine ⟨s.goesTo_seen, fun absent => ?_, fun built later => ?_, fun returned later => ?_⟩
  · simp [Program.totalLines, IndexedFile.totalLines, absent]
  · rw [Program.totalLines, Program.totalLines, IndexedFile.totalLines, IndexedFile.totalLines,
      (s.goesOn_run later).index?_eq built]
  have finished : s.Finished :=
    ((closing_opened path medium settings).run events).reached .returned returned
  intro t
  have at_path : (s.run later).program.file.path = path := by
    rw [← run_append]
    exact path_run_opened path medium settings (events ++ later)
  have shut : t.program.Shut := (finished.run later).shut
  refine ⟨?_, ?_, shut.cached?_eq_none, fun line => ?_, fun start => ?_, fun start => ?_,
    fun start => ?_, fun number => ?_⟩
  · simp [Program.state, IndexedFile.state, shut.closed]
  · simp [Cache.length, shut.forgotten]
  · rw [shut.getCommand_eq, at_path]
  · rw [shut.start_eq, at_path]
  · rw [shut.linesFrom_eq, at_path]
  · rw [shut.checkStart_eq, at_path]
  · exact finished.replies_run later number at_path

/-- Closing waits for a reader at its line and is then final: a walk that is
given the command of that line before it is forgotten is refused at the next,
and so is who comes later. -/
theorem closing_is_final_of_waiting :
    let file : RegularFile := ⟨⟨#[71, 49, 10, 71, 50, 10]⟩, by decide, .whole⟩
    let fresh := opened "job" (.file file) ⟨9, 1⟩
    let advance (reader count : Nat) : List Event := List.replicate count (.advance reader)
    let close : List Event := [.advanceCloser 0]
    let halfway := List.replicate 4 .build
    let reads := halfway ++ [.build, .build, .get 0, .begin 0] ++ advance 0 4
    let waits := reads ++ [.close] ++ close ++ close
    let events := waits ++ advance 0 1 ++ close ++ [.ask 1] ++ advance 1 1 ++ close
    let later : List Event :=
      [.ask 1] ++ advance 1 2 ++ [.ask 1, .get 1] ++ advance 2 2 ++ [.begin 0]
    let s := fresh.run events
    let t := s.run later
    (fresh.run halfway).program.file.index? = none ∧ (fresh.run halfway).program.totalLines = 0 ∧
      (fresh.run waits).closers = #[.releasing] ∧ (fresh.run waits).busy = true ∧
      s.program.file.index?.isSome = true ∧ t.program.totalLines = s.program.totalLines ∧
      s.closers = #[.returned] ∧ t.program.cache.length = 0 ∧
      t.program.getCommand 0 = (.error (.streamClosed "job"), t.program) ∧
      (s.repliesTo 1).map Option.isSome = [true] ∧
      (t.repliesTo 1).map Option.isSome = [true, true, false] ∧
      (t.repliesTo 2).map Option.isSome = [true] ∧ t.readers.size = 3 ∧
      ∃ given, t.repliesTo 1 = s.repliesTo 1 ++ given ∧ Reader.RefusedOnce "job" given := by
  intro file fresh advance close halfway reads waits events later s t
  have absent : (fresh.run halfway).program.file.index? = none := by decide +kernel
  have waiting : (fresh.run waits).closers = #[.releasing] ∧ (fresh.run waits).busy = true := by
    decide +kernel
  have built : s.program.file.index?.isSome = true := by decide +kernel
  have returned : s.closers = #[.returned] := by decide +kernel
  have replies : (s.repliesTo 1).map Option.isSome = [true] ∧
      (t.repliesTo 1).map Option.isSome = [true, true, false] ∧
      (t.repliesTo 2).map Option.isSome = [true] ∧ t.readers.size = 3 := by
    decide +kernel
  have at_half : (opened "job" (.file file) ⟨9, 1⟩).run halfway = fresh.run halfway := rfl
  have at_s : (opened "job" (.file file) ⟨9, 1⟩).run events = s := rfl
  have at_t : s.run later = t := rfl
  have before := closing_is_final "job" (.file file) ⟨9, 1⟩ halfway
  have after := closing_is_final "job" (.file file) ⟨9, 1⟩ events
  dsimp only at before after
  rw [at_half] at before
  rw [at_s] at after
  have lines := after.2.2.1 built later
  have final := after.2.2.2 returned later
  rw [at_t] at lines final
  obtain ⟨-, empty, -, get, -, -, -, refused⟩ := final
  obtain ⟨given, to_walk, once, -⟩ := refused 1
  exact ⟨absent, before.2.1 absent, waiting.1, waiting.2, built, lines, returned, empty, get 0,
    replies.1, replies.2.1, replies.2.2.1, replies.2.2.2, given, to_walk, once⟩

end Sharing

end GcodeJob
