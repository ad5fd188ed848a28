import GcodeJob.Proofs.Program.Rewritten
import GcodeJob.Proofs.ReadAhead.Delivery

/-!
# GcodeJob.Proofs.ReadAhead.Rewriting

Reading ahead while the file is rewritten in place.  What comes back may be
lines of any of its contents, but a producer never skips a line: what it has
got since the start are commands for the lines up to its position, one each
and in order (`ProducerPoint.Tells`).

**Main result** (`Rewriting.read_to_end_or_lacking`): a run is finished only
if every line that the index counts has been read, or if a read found no such
line in the file as it was then.  The latter is an end like any other, so a
file that is cut short under its index is read to the end before its time
(`Rewriting.exhausted_of_truncated`).
-/

namespace GcodeJob

/-! ## What has been read -/

/-- What the run that was started last has read. -/
structure Transcript where
  /-- The commands that its producer got, in the order of its reads. -/
  fetched : List Issued := []
  /-- The file as it was at the read that gave no command. -/
  ended? : Option IndexedFile := none

namespace Transcript

/-- The transcript after the next step of a producer. -/
def after (t : Transcript) (p : Program) (w : Producer) : Transcript :=
  match w.point with
  | .fetching line =>
    match (p.getCommand line).1 with
    | .ok (some held) => { t with fetched := t.fetched ++ [held] }
    | .ok none => { t with ended? := some p.file }
    | .error _ => t
  | _ => t

theorem ended?_after {t : Transcript} {p : Program} {w : Producer} {f : IndexedFile}
    (ended : (t.after p w).ended? = some f) : t.ended? = some f ∨ f = p.file := by
  unfold after at ended
  split at ended
  · split at ended
    · exact .inl ended
    · exact .inr (Option.some.inj ended).symm
    · exact .inl ended
  · exact .inl ended

/-- The lines before a position have been read, and no others. -/
def Reaches (t : Transcript) (position : Nat) : Prop :=
  t.fetched.map Issued.line = List.range position

/-- They have been read, and reading ended behind them. -/
structure Ends (t : Transcript) (position : Nat) : Prop where
  reaches : t.Reaches position
  ended : ∃ f, t.ended? = some f ∧ f.EndsAt position

/-- The next line has been read. -/
theorem Reaches.fetch {t : Transcript} {position : Nat} (h : t.Reaches position) {held : Issued}
    (next : held.line = position) :
    Reaches { t with fetched := t.fetched ++ [held] } (position + 1) := by
  unfold Reaches at h ⊢
  rw [List.map_append, h, List.map_singleton, next, List.range_succ]

end Transcript

/-- What a live producer does next agrees with what has been read.  A command
that it has got and not handed over is the one of the position. -/
def ProducerPoint.Tells (t : Transcript) (position : Nat) : ProducerPoint → Prop
  | .fetching line => line = position ∧ t.Reaches position
  | .delivering line _ => line = position ∧ t.Reaches (position + 1)
  | .leaving outcome => outcome = .failed ∨ outcome = .finished ∧ t.Ends position
  | _ => t.Reaches position

/-- A step of a live producer, whatever has become of the file. -/
theorem Producer.steps_step (settings : BufferSettings) (now : Nat) {s : Shared} {w : Producer}
    {t : Transcript} (live : w.IsLive) (file : s.program.file.Searchable)
    (tells : w.point.Tells t s.queue.position)
    (on : s.queue.run = w.run ∧ s.queue.stage = .running) :
    let after := w.step settings now s
    w.Steps (ProducerPoint.Tells (t.after s.program w)) s.queue after.1.queue after.2 ∧
      (after.1.queue.stage = .finished →
        (t.after s.program w).Ends after.1.queue.position) := by
  obtain ⟨run, cancelled, point⟩ := w
  obtain ⟨uncancelled, there⟩ := live
  obtain rfl : cancelled = false := uncancelled
  have stays {before point : ProducerPoint} {t' : Transcript} (there : point ≠ .gone)
      (tells : point.Tells t' s.queue.position) :
      Producer.Steps (ProducerPoint.Tells t') s.queue ⟨run, false, before⟩ s.queue
          ⟨run, false, point⟩ ∧
        (s.queue.stage = .finished → t'.Ends s.queue.position) :=
    ⟨⟨rfl, rfl, ⟨fun _ => on.2, fun _ => ⟨rfl, there⟩⟩, fun _ => tells⟩,
      fun finished => nomatch on.2.symm.trans finished⟩
  -- Only a read adds to the transcript; everywhere else it is the one from before.
  cases point with
  | checking => exact stays (by simp) tells
  | sourcing =>
    unfold step
    dsimp only
    cases s.program.state with
    | built | building => exact stays (by simp) tells
    | failed | closed => exact stays (by simp) (.inl rfl)
  | measuring =>
    unfold step
    dsimp only
    split <;> exact stays (by simp) tells
  | locating => exact stays (by simp) ⟨rfl, tells⟩
  | fetching position =>
    obtain ⟨rfl, reaches⟩ := tells
    have answer := Program.getCommand_of_searchable file s.queue.position
    unfold step Transcript.after
    dsimp only
    generalize (s.program.getCommand s.queue.position).1 = reply at answer ⊢
    cases reply with
    | error e => exact stays (by simp) (.inl rfl)
    | ok command? =>
      cases command? with
      | none => exact stays (by simp) (.inr ⟨rfl, reaches, _, rfl, answer⟩)
      | some held => exact stays (by simp) ⟨rfl, reaches.fetch answer⟩
  | delivering position held =>
    obtain ⟨rfl, reaches⟩ := tells
    unfold step
    simp only [Bool.false_eq_true, if_false]
    refine ⟨⟨rfl, rfl, ⟨fun _ => on.2, fun _ => ⟨rfl, ?_⟩⟩, fun _ => ?_⟩,
      fun finished => nomatch on.2.symm.trans finished⟩
    · cases held.command.isExecutable <;> simp
    · cases held.command.isExecutable <;> exact reaches
  | resting moment =>
    unfold step
    dsimp only
    split <;> exact stays (by simp) tells
  | leaving outcome =>
    have concludes : s.queue.conclude run outcome = { s.queue with stage := outcome } := if_pos on
    have gone : ¬Producer.IsLive ⟨run, false, .gone⟩ := fun live => live.2 rfl
    unfold step
    dsimp only
    rw [concludes]
    refine ⟨⟨rfl, rfl, ⟨fun live => absurd live gone, fun still => ?_⟩,
      fun live => absurd live gone⟩, fun finished => ?_⟩
    · rcases tells with rfl | ⟨rfl, -⟩ <;> cases still
    · rcases tells with rfl | ⟨-, ends⟩
      · cases finished
      · exact ends
  | gone => exact absurd rfl there

/-! ## Reading ahead of a file that changes -/

/-- A program that is read ahead while its file is rewritten, and what has been read of it. -/
structure Rewriting extends Feeding where
  read : Transcript := {}

namespace Rewriting

/-- What may happen between any two steps of a producer. -/
inductive Change
  | event (e : Feeding.Event)
  | rewrite (file : RegularFile)
  /-- The disk fails behind the first `kept` bytes of the file. -/
  | damage (kept : Nat)

/-- What has been read after an event.  Only the producer of the run that is on adds to it. -/
def readAfter (s : Rewriting) : Feeding.Event → Transcript
  | .start =>
    match s.buffer.start (some s.program.state) with
    | .ok _ => {}
    | .error _ => s.read
  | .produce number _ =>
    match s.buffer.producers[number]? with
    | some w =>
      if s.buffer.queue.run = w.run ∧ s.buffer.queue.stage = .running
      then s.read.after s.program w else s.read
    | none => s.read
  | _ => s.read

def step (s : Rewriting) : Change → Rewriting
  | .event e => { toFeeding := s.toFeeding.step e, read := s.readAfter e }
  | .rewrite file =>
    { s with program := { s.program with file := s.program.file.withBytes file } }
  | .damage kept => { s with program := s.program.damage kept }

def run (s : Rewriting) (changes : List Change) : Rewriting := changes.foldl step s

/-- Whatever the file has become, reading has gone line by line, and a run that
is finished has come to where reading ends. -/
structure Valid (s : Rewriting) : Prop where
  file : s.program.file.Searchable
  runs : s.buffer.Runs (ProducerPoint.Tells s.read)
  finished : s.buffer.queue.stage = .finished → s.read.Ends s.buffer.queue.position
  index : ∀ f, s.read.ended? = some f → ∀ index, f.index? = some index →
    s.program.file.index? = some index

/-! ## What a step keeps -/

namespace Valid
variable {s : Rewriting}

theorem opened (path : String) (file : RegularFile) (stream : StreamSettings)
    (settings : BufferSettings) :
    Valid { program := .openAt path (.file file) stream, buffer := { settings } } :=
  ⟨.openAt path file stream.chunkSize, .fresh _ settings, nofun, fun _ none => nomatch none⟩

/-- What others do to the program does not concern the buffer. -/
theorem withProgram (h : Valid s) {p : Program} (file : p.file.Searchable)
    (kept : ∀ index, s.program.file.index? = some index → p.file.index? = some index) :
    Valid { s with program := p } :=
  ⟨file, h.runs, h.finished, fun f ended index own => kept index (h.index f ended index own)⟩

/-- A start forgets what has been read. -/
theorem start (h : Valid s) : Valid (s.step (.event .start)) := by
  unfold Rewriting.step Feeding.step readAfter
  dsimp only
  cases started : s.buffer.start (some s.program.state) with
  | error e => exact h
  | ok buffer =>
    have runs : buffer.Runs (ProducerPoint.Tells {}) := h.runs.start started rfl
    obtain ⟨-, rfl⟩ := Buffer.start_eq_ok started
    exact ⟨h.file, runs, nofun, fun _ none => nomatch none⟩

theorem stop (h : Valid s) : Valid (s.step (.event .stop)) :=
  ⟨h.file, h.runs.stop,
    fun finished => h.finished (Queue.stage_of_discard (q := s.buffer.queue) finished), h.index⟩

theorem next (h : Valid s) : Valid (s.step (.event .next)) := by
  have runs := h.runs.next
  have same : (s.toFeeding.step .next).program = s.program ∧
      (s.toFeeding.step .next).buffer = s.buffer.next.2 := by
    unfold Feeding.step
    dsimp only
    obtain ⟨_ | _ | _, after⟩ := s.buffer.next <;> exact ⟨rfl, rfl⟩
  have finished (stage : s.buffer.next.2.queue.stage = .finished) :
      s.read.Ends s.buffer.next.2.queue.position := by
    rw [Buffer.next_eq] at stage ⊢
    exact h.finished stage
  unfold Rewriting.step
  dsimp only
  generalize s.toFeeding.step .next = after at same
  obtain ⟨program, buffer, taken, dropped⟩ := after
  obtain ⟨rfl, rfl⟩ := same
  exact ⟨h.file, runs, finished, h.index⟩

/-- A step of the producer of the run that is on reads a line, hands it over, or
comes to an end.  The others change nothing. -/
theorem produce (h : Valid s) (number now : Nat) :
    Valid (s.step (.event (.produce number now))) := by
  unfold Rewriting.step Feeding.step readAfter Buffer.stepProducer
  dsimp only
  cases found : s.buffer.producers[number]? with
  | none => exact h
  | some w =>
    have works := h.runs.works number w found
    have same := Producer.sameFile_step s.buffer.settings now (s := ⟨s.program, s.buffer.queue⟩)
      (w := w)
    have file := h.file.of_eq same.phase same.medium
    have index := IndexedFile.index?_of_phase same.phase
    dsimp only
    by_cases on : s.buffer.queue.run = w.run ∧ s.buffer.queue.stage = .running
    · have live := works.live_iff.mpr on
      obtain ⟨steps, finished⟩ := Producer.steps_step s.buffer.settings now
        (s := ⟨s.program, s.buffer.queue⟩) live h.file (works.holds live) on
      rw [if_pos on]
      refine ⟨file, h.runs.of_steps found live steps, finished, fun f ended i own => ?_⟩
      rcases Transcript.ended?_after ended with before | rfl
      · exact index.trans (h.index f before i own)
      · exact index.trans own
    -- One whose run is off may be in the middle of a read, which then concerns nobody.
    · have idle := mt works.live_iff.mp on
      obtain ⟨queue, run, stays⟩ := Producer.idles_step s.buffer.settings now
        (s := ⟨s.program, s.buffer.queue⟩) idle on
      have runs := h.runs.of_idles found idle run stays
      rw [if_neg on, queue]
      exact ⟨file, runs, h.finished, fun f ended i own => index.trans (h.index f ended i own)⟩

theorem step (h : Valid s) (c : Change) : Valid (s.step c) := by
  cases c with
  | rewrite file => exact h.withProgram (h.file.withBytes file) fun _ same => same
  | damage kept => exact h.withProgram (h.file.damage kept) fun _ same => same
  | event e =>
    cases e with
    | start => exact h.start
    | stop => exact h.stop
    | produce number now => exact h.produce number now
    | next => exact h.next
    | readChunk => exact h.withProgram h.file.readChunk fun _ => IndexedFile.index?_readChunk
    | takeChunk => exact h.withProgram h.file.takeChunk fun _ => IndexedFile.index?_takeChunk
    | get line =>
      have same := s.program.sameFile_getCommand line
      exact h.withProgram (h.file.of_eq same.phase same.medium) fun _ index =>
        (IndexedFile.index?_of_phase same.phase).trans index
    | setCapacity | markClosed | release | forget =>
      exact h.withProgram (h.file.of_eq rfl rfl) fun _ same => same

theorem run (h : Valid s) (changes : List Change) : Valid (s.run changes) := by
  induction changes generalizing s with
  | nil => exact h
  | cons c changes ih => exact ih (h.step c)

end Valid

/-! ## What a run comes to -/

/-- **A run does not end before its time unless the file does.**  However the
file is rewritten while it is read ahead, and whatever else goes on, a run is
finished, and its buffer exhausted with the end reached, only if the producer
has got a command for every line that the index counts, in order; or for
every line before one that the file lacked when the producer came to it. -/
theorem read_to_end_or_lacking (path : String) (file : RegularFile) (stream : StreamSettings)
    (settings : BufferSettings) (changes : List Change) :
    let s := run { program := .openAt path (.file file) stream, buffer := { settings } } changes
    s.buffer.queue.stage = .finished ∨ s.buffer.next.1 = .exhausted true →
      ∃ index, s.program.file.index? = some index ∧
        (s.read.fetched.map Issued.line = List.range index.totalLines ∨
          ∃ f line, s.read.ended? = some f ∧ f.index? = some index ∧
            line < index.totalLines ∧ f.Lacks index line ∧
              s.read.fetched.map Issued.line = List.range line) := by
  intro s ended
  have valid : Valid s := (Valid.opened path file stream settings).run changes
  have finished : s.buffer.queue.stage = .finished := by
    rcases ended with finished | exhausted
    · exact finished
    · have gives := s.buffer.next_spec
      rw [exhausted] at gives
      exact gives.2.2.2.mp rfl
  obtain ⟨reaches, f, lacked, index, own, last⟩ := valid.finished finished
  refine ⟨index, valid.index f lacked index own, ?_⟩
  rcases last with all | ⟨before, lacks⟩
  · exact .inl (all ▸ reaches)
  · exact .inr ⟨f, _, lacked, own, before, lacks, reaches⟩

/-- Two lines, the second of which is another by the time it is read. -/
theorem read_to_end_of_rewritten :
    let file : RegularFile := ⟨⟨#[71, 49, 10, 71, 50, 10]⟩, by decide, .whole⟩
    let other : RegularFile := ⟨⟨#[77, 51, 10, 77, 52, 10]⟩, by decide, .whole⟩
    let begun := [.readChunk, .takeChunk, .readChunk, .takeChunk, .start].map Change.event
    let work := (List.range 30).map fun second => Change.event (.produce 0 (second * 1000000000))
    let s := run { program := .openAt "job" (.file file) ⟨9, 1⟩, buffer := { settings := {} } }
      (begun ++ work.take 8 ++ .rewrite other :: work)
    s.buffer.queue.stage = .finished ∧ s.read.fetched.map (·.command.raw) = ["G1", "M4"] ∧
      ∃ index, s.program.file.index? = some index ∧
        s.read.fetched.map Issued.line = List.range index.totalLines := by
  intro file other begun work s
  have finished : s.buffer.queue.stage = .finished := by decide +kernel
  have texts : s.read.fetched.map (·.command.raw) = ["G1", "M4"] := by decide +kernel
  have total : s.program.totalLines = 2 := by decide +kernel
  have at_s : run { program := .openAt "job" (.file file) ⟨9, 1⟩, buffer := { settings := {} } }
    (begun ++ work.take 8 ++ .rewrite other :: work) = s := rfl
  have ends := read_to_end_or_lacking "job" file ⟨9, 1⟩ {}
    (begun ++ work.take 8 ++ .rewrite other :: work)
  dsimp only at ends
  rw [at_s] at ends
  -- From here on the state is any of which this much is known.
  clear_value s
  obtain ⟨index, own, all | ⟨f, line, -, -, before, -, upto⟩⟩ := ends (.inl finished)
  · exact ⟨finished, texts, index, own, all⟩
  -- Two commands are as many as there are lines, so no line was lacking.
  · have counted : index.totalLines = 2 := by
      rw [← total, Program.totalLines, IndexedFile.totalLines, own]
      rfl
    have lines := congrArg List.length upto
    have both := congrArg List.length texts
    simp only [List.length_map, List.length_range, List.length_cons, List.length_nil] at lines both
    omega

/-- A file of three lines that is cut to nothing after the first has been read:
the run is finished, and the buffer says that the end was reached. -/
theorem exhausted_of_truncated :
    let file : RegularFile := ⟨⟨#[71, 49, 10, 71, 50, 10, 71, 51, 10]⟩, by decide, .whole⟩
    let begun := [.readChunk, .takeChunk, .readChunk, .takeChunk, .start].map Change.event
    let work := (List.range 20).map fun second => Change.event (.produce 0 (second * 1000000000))
    let s := run { program := .openAt "job" (.file file) ⟨9, 1⟩, buffer := { settings := {} } }
      (begun ++ work.take 6 ++ [.rewrite .empty, .event .next] ++ work)
    s.program.totalLines = 3 ∧ s.read.fetched.map Issued.line = [0] ∧
      s.buffer.queue.stage = .finished ∧ s.buffer.next.1 = .exhausted true := by
  decide +kernel

end Rewriting

end GcodeJob
