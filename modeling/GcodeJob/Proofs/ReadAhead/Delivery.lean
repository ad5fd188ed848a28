import GcodeJob.Proofs.ReadAhead.Buffer

/-!
# GcodeJob.Proofs.ReadAhead.Delivery

Reading ahead loses nothing, doubles nothing and keeps the order.  The
producer looks at the position, reads and hands over in separate steps, and
between any two of them the queue may be taken from, the index go on, others
read and the program close.

**Main result** (`Feeding.delivery`): at every moment of a run, what has been
taken and what is queued are the commands to be executed before the position,
and the buffer is exhausted only when nothing is left to take.
-/

namespace GcodeJob

/-- A program and the buffer that reads it ahead. -/
structure Feeding where
  program : Program
  buffer : Buffer
  /-- What has been taken since the last start. -/
  taken : List Issued := []
  /-- What was queued has been dropped by a stop since then. -/
  dropped : Bool := false

namespace Feeding

/-- What may happen between any two steps of a producer. -/
inductive Event
  | start
  | stop
  | produce (number now : Nat)
  | next
  | readChunk
  | takeChunk
  | get (line : Nat)
  | setCapacity (capacity : Nat)
  | markClosed
  | release
  | forget
  deriving DecidableEq

def step (s : Feeding) : Event → Feeding
  | .start =>
    match s.buffer.start (some s.program.state) with
    | .ok buffer => { s with buffer, taken := [], dropped := false }
    | .error _ => s
  | .stop => { s with buffer := s.buffer.stop, dropped := true }
  | .produce number now =>
    let (program, buffer) := s.buffer.stepProducer now s.program number
    { s with program, buffer }
  | .next =>
    match s.buffer.next with
    | (.ready _ held, buffer) => { s with buffer, taken := s.taken ++ [held] }
    | (_, buffer) => { s with buffer }
  | .readChunk => { s with program := { s.program with file := s.program.file.readChunk } }
  | .takeChunk => { s with program := { s.program with file := s.program.file.takeChunk } }
  | .get line => { s with program := (s.program.getCommand line).2 }
  | .setCapacity capacity => { s with program := s.program.setCacheCapacity capacity }
  | .markClosed => { s with program := { s.program with file := s.program.file.markClosed } }
  | .release => { s with program := { s.program with file := s.program.file.release } }
  | .forget => { s with program := s.program.forget }

def run (s : Feeding) (events : List Event) : Feeding := events.foldl step s

/-- The unchanged file, its program, and a buffer that reads it ahead. -/
structure Valid (commands : List Command) (s : Feeding) : Prop where
  program : s.program.Sound
  commands_eq : s.program.commands = commands
  buffer : s.buffer.Sound commands
  delivers : s.dropped = false → s.buffer.Delivers commands s.taken

/-! ## What a step keeps -/

variable {commands : List Command} {s : Feeding}

namespace Valid

theorem opened (path : String) (medium : Medium) (stream : StreamSettings)
    (settings : BufferSettings) :
    Valid (commandsOf medium.source.content)
      { program := .openAt path medium stream, buffer := { settings } } :=
  ⟨.openAt path medium stream, Program.commands_openAt .., .fresh _ settings, fun _ => rfl⟩

/-- What others do to the program does not concern the buffer. -/
theorem withProgram (h : Valid commands s) {p : Program} (sound : p.Sound)
    (medium : p.file.medium = s.program.file.medium) : Valid commands { s with program := p } :=
  ⟨sound, (Program.commands_of_medium medium).trans h.commands_eq, h.buffer, h.delivers⟩

/-- What has been taken is what was queued first. -/
theorem next (h : Valid commands s) : Valid commands (s.step .next) := by
  obtain ⟨sound, gives⟩ := h.buffer.next
  unfold Feeding.step
  dsimp only
  generalize s.buffer.next = taken at sound gives
  obtain ⟨fetch, after⟩ := taken
  cases fetch with
  | ready position held =>
    obtain ⟨-, queued, same⟩ := gives
    refine ⟨h.program, h.commands_eq, sound, fun kept => ?_⟩
    have delivers := h.delivers kept
    unfold Buffer.Delivers at delivers ⊢
    dsimp only at same queued
    rw [same, ← delivers, queued, List.append_assoc, List.singleton_append]
  | empty position =>
    obtain rfl : after = s.buffer := gives.2.1
    exact h
  | exhausted reachedEnd =>
    obtain rfl : after = s.buffer := gives.1
    exact h

theorem produce (h : Valid commands s) (number now : Nat) :
    Valid commands (s.step (.produce number now)) := by
  obtain ⟨⟨sound, same⟩, buffer, delivers, -⟩ :=
    h.buffer.stepProducer h.program h.commands_eq now number
  exact ⟨sound, (Program.commands_of_medium same.medium).trans h.commands_eq, buffer,
    fun kept => delivers _ (h.delivers kept)⟩

theorem step (h : Valid commands s) (e : Event) : Valid commands (s.step e) := by
  cases e with
  | start =>
    unfold Feeding.step
    dsimp only
    split
    next buffer started =>
      obtain ⟨sound, delivers⟩ := h.buffer.start started
      exact ⟨h.program, h.commands_eq, sound, fun _ => delivers⟩
    next => exact h
  | stop => exact ⟨h.program, h.commands_eq, h.buffer.stop, nofun⟩
  | produce number now => exact h.produce number now
  | next => exact h.next
  | readChunk => exact h.withProgram h.program.readChunk (IndexedFile.medium_readChunk _)
  | takeChunk => exact h.withProgram h.program.takeChunk (IndexedFile.medium_takeChunk _)
  | get line =>
    exact h.withProgram (h.program.getCommand line).1 (s.program.sameFile_getCommand line).medium
  | setCapacity capacity => exact h.withProgram (h.program.setCacheCapacity capacity) rfl
  | markClosed => exact h.withProgram h.program.markClosed rfl
  | release => exact h.withProgram h.program.release rfl
  | forget => exact h.withProgram h.program.forget rfl

theorem run (h : Valid commands s) (events : List Event) : Valid commands (s.run events) := by
  induction events generalizing s with
  | nil => exact h
  | cons e events ih => exact ih (h.step e)

end Valid

/-! ## What a run keeps -/

/-- Whatever is queued stays in its place until it is taken. -/
theorem queued_prefix_step (h : Valid commands s) {e : Event} (start : e ≠ .start)
    (stop : e ≠ .stop) :
    s.taken ++ s.buffer.queue.items <+: (s.step e).taken ++ (s.step e).buffer.queue.items := by
  cases e with
  | start => exact absurd rfl start
  | stop => exact absurd rfl stop
  | produce number now =>
    obtain ⟨-, -, -, ⟨more, queued⟩, -⟩ :=
      h.buffer.stepProducer h.program h.commands_eq now number
    refine ⟨more, ?_⟩
    rw [List.append_assoc, ← queued]
    rfl
  | next =>
    have gives := h.buffer.next.2
    unfold Feeding.step
    dsimp only
    generalize s.buffer.next = taken at gives
    obtain ⟨fetch, after⟩ := taken
    cases fetch with
    | ready position held =>
      obtain ⟨-, queued, -⟩ := gives
      dsimp only at queued ⊢
      exact ⟨[], by rw [queued]; simp⟩
    | empty position =>
      obtain rfl : after = s.buffer := gives.2.1
      exact List.prefix_refl _
    | exhausted reachedEnd =>
      obtain rfl : after = s.buffer := gives.1
      exact List.prefix_refl _
  | _ => exact List.prefix_refl _

theorem queued_prefix_run (h : Valid commands s) {events : List Event}
    (others : .start ∉ events ∧ .stop ∉ events) :
    s.taken ++ s.buffer.queue.items <+:
      (s.run events).taken ++ (s.run events).buffer.queue.items := by
  induction events generalizing s with
  | nil => exact List.prefix_refl _
  | cons e events ih =>
    simp only [List.mem_cons, not_or] at others
    exact (queued_prefix_step h (Ne.symm others.1.1) (Ne.symm others.2.1)).trans
      (ih (h.step e) ⟨others.1.2, others.2.2⟩)

/-- **Nothing is lost, doubled or moved on the way through the buffer.**  As
long as no stop has dropped what was queued, what has been taken since the
start and what is queued are the commands to be executed before the position;
a command that is taken lies before the position, and the position within the
program; and a buffer that says it is exhausted has given all that was queued,
and if it says it reached the end, every command to be executed. -/
theorem delivery (path : String) (medium : Medium) (stream : StreamSettings)
    (settings : BufferSettings) (events : List Event) :
    let s := run { program := .openAt path medium stream, buffer := { settings } } events
    let commands := commandsOf medium.source.content
    (s.dropped = false →
        (s.taken ++ s.buffer.queue.items).map Issued.command =
          executables (commands.take s.buffer.queue.position) ∧
        ((s.taken ++ s.buffer.queue.items).map Issued.line).Pairwise (· < ·)) ∧
      (∀ position held, s.buffer.next.1 = .ready position held →
        held.line < position ∧ position ≤ commands.length) ∧
      (s.dropped = false → s.buffer.next.1 = .exhausted true →
        s.taken.map Issued.command = executables commands) ∧
      ∀ later reachedEnd, .start ∉ later → .stop ∉ later →
        (s.run later).buffer.next.1 = .exhausted reachedEnd →
        s.taken ++ s.buffer.queue.items <+: (s.run later).taken := by
  intro s commands
  have valid : Valid commands s := (Valid.opened path medium stream settings).run events
  have gives := valid.buffer.next.2
  refine ⟨fun kept => ⟨valid.delivers kept, ?_⟩, fun position held ready => ?_,
    fun kept exhausted => ?_, ?_⟩
  · have increasing := Numbered.pairwise_executables_take (numbered_commandsOf medium.source.content)
      s.buffer.queue.position
    rwa [← valid.delivers kept, List.map_map] at increasing
  · rw [ready] at gives
    obtain ⟨rfl, queued, -⟩ := gives
    exact ⟨(valid.buffer.queue.queued held (by simp [queued])).1, valid.buffer.queue.position_le⟩
  · rw [exhausted] at gives
    obtain ⟨-, queued, -, finished⟩ := gives
    have delivers := valid.delivers kept
    unfold Buffer.Delivers at delivers
    rwa [queued, List.append_nil, valid.buffer.queue.finished (finished.mp rfl), List.take_length]
      at delivers
  · intro later reachedEnd start stop exhausted
    have kept := queued_prefix_run valid ⟨start, stop⟩
    have last := (valid.run later).buffer.next.2
    rw [exhausted] at last
    rwa [last.2.1, List.append_nil] at kept

/-- Two commands and a comment, read ahead to the end and then taken. -/
theorem delivery_of_two_commands :
    let file : RegularFile := ⟨⟨#[71, 49, 10, 59, 10, 77, 50]⟩, by decide, .whole⟩
    let events : List Event := [.readChunk, .takeChunk, .readChunk, .takeChunk, .start] ++
      (List.range 40).map fun second => .produce 0 (second * 1000000000)
    let run := run { program := .openAt "job" (.file file) ⟨9, 1⟩, buffer := { settings := {} } }
    let s := run events
    let t := run (events ++ [.next, .next])
    (s.taken ++ s.buffer.queue.items).map Issued.command =
        executables ((commandsOf file.content).take 3) ∧
      (∃ held, s.buffer.next.1 = .ready 3 held ∧ held.line < 3) ∧
      t.taken.map Issued.command = executables (commandsOf file.content) ∧
      s.taken ++ s.buffer.queue.items <+: t.taken := by
  intro file events run s t
  have open_ : s.dropped = false ∧ t.dropped = false := by decide +kernel
  have position : s.buffer.queue.position = 3 := by decide +kernel
  have first : s.buffer.next.1 = .ready 3 ⟨0, .parse 0 "G1"⟩ := by decide +kernel
  have last : t.buffer.next.1 = .exhausted true := by decide +kernel
  have later : t = s.run [.next, .next] := List.foldl_append ..
  have at_s : run events = s := rfl
  have at_t : run (events ++ [.next, .next]) = t := rfl
  have delivered := delivery "job" (.file file) ⟨9, 1⟩ {} events
  have exhausted := (delivery "job" (.file file) ⟨9, 1⟩ {} (events ++ [.next, .next])).2.2.1
  dsimp only [run] at at_s at_t
  dsimp only at delivered
  rw [at_s] at delivered
  rw [at_t] at exhausted
  -- From here on the two are any states of which this much is known.
  clear_value s t
  obtain ⟨together, ready, -, kept⟩ := delivered
  rw [later] at last
  refine ⟨position ▸ (together open_.1).1, ⟨_, first, (ready 3 _ first).1⟩,
    exhausted open_.2 (later ▸ last), ?_⟩
  rw [later]
  exact kept [.next, .next] true (by decide) (by decide) last

end Feeding

end GcodeJob
