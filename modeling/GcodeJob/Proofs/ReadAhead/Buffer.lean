import GcodeJob.Proofs.ReadAhead.Producer
import GcodeJob.ReadAhead.Buffer

/-!
# GcodeJob.Proofs.ReadAhead.Buffer

What a buffer keeps, whoever works at it.  At most one of its producers is
live, and it works for the run that is on (`Buffer.Runs`).  So what a live
producer holds may be settled by its own steps: whatever the others still do,
the position of a queue of some commands (`Buffer.Sound`) moves line by line,
and what has been taken since the start and what is queued are together the
commands to be executed that lie before it (`Buffer.Delivers`).
-/

namespace GcodeJob

/-! ## Commands to be executed -/

theorem executables_take_succ {commands : List Command} {line : Nat} {command : Command}
    (h : commands[line]? = some command) :
    executables (commands.take (line + 1)) =
      executables (commands.take line) ++ if command.isExecutable then [command] else [] := by
  rw [List.take_add_one, h, Option.toList_some, executables, List.filter_append]
  cases own : command.isExecutable <;> simp [executables, own]

/-! ## Producers and queues -/

/-- A producer of a number, as its queue finds it: live if and only if its run
is on, and then something holds of the position and of what it does next. -/
structure Producer.Works (holds : Nat → ProducerPoint → Prop) (q : Queue) (number : Nat)
    (w : Producer) : Prop where
  run : w.run = number + 1
  live_iff : w.IsLive ↔ q.run = w.run ∧ q.stage = .running
  holds : w.IsLive → holds q.position w.point

/-- What a step of a live producer leaves behind: a queue of the same run, and
the producer, live as long as that run is on. -/
structure Producer.Steps (holds : Nat → ProducerPoint → Prop) (q : Queue) (w : Producer)
    (q' : Queue) (w' : Producer) : Prop where
  queue_run : q'.run = q.run
  run : w'.run = w.run
  live_iff : w'.IsLive ↔ q'.stage = .running
  holds : w'.IsLive → holds q'.position w'.point

/-- A queue that reads these commands ahead. -/
structure Queue.Sound (commands : List Command) (q : Queue) : Prop where
  position_le : q.position ≤ commands.length
  queued : ∀ held ∈ q.items, held.line < q.position ∧ held.command.isExecutable = true
  finished : q.stage = .finished → q.position = commands.length

section
variable {commands : List Command} {holds holds' : Nat → ProducerPoint → Prop} {q q' : Queue}
  {number : Nat} {w w' : Producer}

/-- What another producer does to its own run is nothing to this one. -/
theorem Producer.Works.of_other (h : w.Works holds q number) (run : q'.run = q.run)
    (other : q.run ≠ w.run) : w.Works holds' q' number := by
  have idle : ¬w.IsLive := fun live => other (h.live_iff.mp live).1
  refine ⟨h.run, ⟨fun live => absurd live idle, fun on => ?_⟩, fun live => absurd live idle⟩
  exact absurd (run.symm.trans on.1) other

/-- After a step of its own a live producer is one that its queue knows. -/
theorem Producer.Works.of_steps (h : w.Works holds q number) (live : w.IsLive)
    (steps : w.Steps holds' q q' w') : w'.Works holds' q' number := by
  have on : q'.run = w'.run := by rw [steps.queue_run, steps.run, (h.live_iff.mp live).1]
  refine ⟨steps.run.trans h.run, ?_, steps.holds⟩
  exact steps.live_iff.trans ⟨fun stage => ⟨on, stage⟩, fun both => both.2⟩

/-- A step in order of a live producer. -/
theorem Producer.Moves.steps (moves : w.Moves commands q q' w') (stage : q.stage = .running) :
    w.Steps (ProducerPoint.Holds commands) q q' w' := by
  cases moves with
  | stays w' same live holds => exact ⟨rfl, same, ⟨fun _ => stage, fun _ => live⟩, fun _ => holds⟩
  | delivers held w' same live holds =>
    exact ⟨rfl, same, ⟨fun _ => stage, fun _ => live⟩, fun _ => holds _⟩
  | concludes outcome how =>
    have off : outcome ≠ .running := by
      rcases how with rfl | ⟨rfl, -⟩ <;> nofun
    have gone : ¬Producer.IsLive { w with point := .gone } := fun live => live.2 rfl
    exact ⟨rfl, rfl, ⟨fun live => absurd live gone, fun on => absurd on off⟩,
      fun live => absurd live gone⟩

/-- A live producer keeps its queue sound. -/
theorem Queue.Sound.of_moves (h : q.Sound commands) (stage : q.stage = .running)
    (numbered : Numbered commands) (moves : w.Moves commands q q' w') : q'.Sound commands := by
  cases moves with
  | stays => exact h
  | delivers held w' same is_live holds at_line =>
    have lt := (List.getElem?_eq_some_iff.mp at_line).1
    refine ⟨lt, fun queued mem => ?_, fun finished => ?_⟩
    · have before (mem : queued ∈ q.items) : queued.line < q.position + 1 ∧
          queued.command.isExecutable = true :=
        ⟨Nat.lt_succ_of_lt (h.queued queued mem).1, (h.queued queued mem).2⟩
      unfold Queue.deliver at mem
      dsimp only at mem
      split at mem
      next own =>
        rcases List.mem_append.mp mem with mem | last
        · exact before mem
        · obtain rfl := List.mem_singleton.mp last
          exact ⟨Nat.lt_succ_of_le (Nat.le_of_eq (numbered at_line)), own⟩
      next => exact before mem
    · cases stage.symm.trans finished
  | concludes outcome how =>
    refine ⟨h.position_le, h.queued, fun finished => ?_⟩
    rcases how with rfl | ⟨-, at_end⟩
    · cases finished
    · exact at_end

/-- Ending a run does not make it a finished one. -/
theorem Queue.stage_of_discard (finished : q.discard.stage = .finished) : q.stage = .finished := by
  unfold discard at finished
  dsimp only at finished
  split at finished
  · cases finished
  · exact finished

end

namespace Buffer

/-- A buffer whose producers work for its runs, the one of the run that is on
being the only one that is live. -/
structure Runs (holds : Nat → ProducerPoint → Prop) (b : Buffer) : Prop where
  size : b.producers.size = b.queue.run
  works : ∀ number (w : Producer), b.producers[number]? = some w → w.Works holds b.queue number
  token : b.queue.stage = .running → b.token? = some b.queue.run

/-- A buffer that reads these commands ahead. -/
structure Sound (commands : List Command) (b : Buffer) : Prop where
  runs : b.Runs (ProducerPoint.Holds commands)
  queue : b.queue.Sound commands

/-- What has been taken since the start and what is queued are the commands to
be executed before the position. -/
def Delivers (commands : List Command) (b : Buffer) (taken : List Issued) : Prop :=
  (taken ++ b.queue.items).map Issued.command = executables (commands.take b.queue.position)

variable {commands : List Command} {holds holds' : Nat → ProducerPoint → Prop} {b b' : Buffer}

theorem Runs.fresh (holds : Nat → ProducerPoint → Prop) (settings : BufferSettings) :
    Runs holds { settings } where
  size := rfl
  works := by simp
  token := nofun

theorem Sound.fresh (commands : List Command) (settings : BufferSettings) :
    Sound commands { settings } :=
  ⟨.fresh _ settings, Nat.zero_le _, nofun, nofun⟩

/-! ## Starting and stopping -/

/-- When a start is accepted, and what it makes of a buffer. -/
theorem start_eq_ok {source? : Option IndexState} (eq : b.start source? = .ok b') :
    b.queue.stage ≠ .running ∧ b' = { b with queue := b.queue.begin }.spawn.keepToken := by
  unfold start at eq
  cases checked : checkSource source? with
  | error e => simp [checked, bind, Except.bind] at eq
  | ok _ =>
    by_cases on : b.queue.stage = .running
    · simp [checked, beginRun, on, bind, Except.bind] at eq
    · simp only [checked, beginRun, if_neg on, bind, Except.bind] at eq
      cases eq
      exact ⟨on, rfl⟩

/-- A buffer in which no run is on can be started, unless its program is closed. -/
theorem start_of_stage_ne {b : Buffer} {state : IndexState} (off : b.queue.stage ≠ .running) :
    b.start (some state) ≠ .error .bufferRunning ∧
      (state ≠ .closed → ∃ b', b.start (some state) = .ok b') := by
  have begins : b.beginRun = .ok { b with queue := b.queue.begin } := if_neg off
  cases state <;> simp [start, checkSource, begins, bind, Except.bind, pure, Except.pure]

/-- What a start without a thread does, if it begins at all. -/
theorem startThreadless_cases (b : Buffer) (source? : Option IndexState) :
    b.startThreadless source? = b ∨ b.queue.stage ≠ .running ∧
      b.startThreadless source? = { b with queue := b.queue.begin }.abandon := by
  unfold startThreadless beginRun
  by_cases on : b.queue.stage = .running
  · rw [if_pos on]
    split
    next eq => cases eq
    next => exact .inl rfl
  · rw [if_neg on]
    split
    next eq =>
      cases eq
      exact .inr ⟨on, rfl⟩
    next => exact .inl rfl

/-- Where no run is on, one more may begin, whose producer is live just if the run is on. -/
theorem Runs.push (h : Runs holds b) (off : b.queue.stage ≠ .running) {q : Queue} {w : Producer}
    {token? : Option Nat} (next : q.run = b.queue.run + 1) (own : w.run = q.run)
    (live_iff : w.IsLive ↔ q.stage = .running) (first : w.IsLive → holds' q.position w.point)
    (token : q.stage = .running → token? = some q.run) :
    Runs holds' { b with queue := q, producers := b.producers.push w, token? } := by
  have size := h.size
  refine ⟨by simp [next, size], fun number u found => ?_, token⟩
  rw [Array.getElem?_push] at found
  split at found
  next last =>
    cases found
    refine ⟨?_, ?_, first⟩
    · rw [own, next, last, size]
    · exact live_iff.trans ⟨fun on => ⟨own.symm, on⟩, fun both => both.2⟩
  next other =>
    have works := h.works number u found
    have run := works.run
    have lt : number < b.producers.size := (Array.getElem?_eq_some_iff.mp found).1
    have idle : ¬u.IsLive := fun live => off (works.live_iff.mp live).2
    refine ⟨run, ⟨fun live => absurd live idle, fun on => ?_⟩, fun live => absurd live idle⟩
    have same : q.run = u.run := on.1
    omega

/-- A start is a new run from the first line on, and no other is on with it. -/
theorem Runs.start (h : Runs holds b) {source? : Option IndexState}
    (eq : b.start source? = .ok b') (first : holds' 0 .checking) : Runs holds' b' := by
  obtain ⟨off, rfl⟩ := start_eq_ok eq
  have live : Producer.IsLive { run := b.queue.begin.run } := ⟨rfl, nofun⟩
  exact h.push off rfl rfl ⟨fun _ => rfl, fun _ => live⟩ (fun _ => first) fun _ => rfl

/-- One that gets no thread is over at once. -/
theorem Runs.startThreadless (h : Runs holds b) (source? : Option IndexState) :
    Runs holds (b.startThreadless source?) := by
  rcases b.startThreadless_cases source? with same | ⟨off, begun⟩
  · rwa [same]
  · rw [begun]
    have gone : ¬Producer.IsLive { run := b.queue.begin.run, point := .gone } := fun live =>
      live.2 rfl
    exact h.push off rfl rfl ⟨fun live => absurd live gone, nofun⟩ (fun live => absurd live gone)
      nofun

/-- Nothing is queued or taken yet after a start. -/
theorem Sound.start (h : Sound commands b) {source? : Option IndexState}
    (eq : b.start source? = .ok b') : Sound commands b' ∧ Delivers commands b' [] := by
  have runs : Runs (ProducerPoint.Holds commands) b' := h.runs.start eq trivial
  obtain ⟨-, rfl⟩ := start_eq_ok eq
  exact ⟨⟨runs, Nat.zero_le _, nofun, nofun⟩, rfl⟩

theorem Sound.startThreadless (h : Sound commands b) (source? : Option IndexState) :
    Sound commands (b.startThreadless source?) := by
  refine ⟨h.runs.startThreadless source?, ?_⟩
  rcases b.startThreadless_cases source? with same | ⟨-, begun⟩
  · rw [same]
    exact h.queue
  · rw [begun]
    exact ⟨Nat.zero_le _, nofun, nofun⟩

/-- A stop leaves no live producer. -/
theorem Runs.stop (h : Runs holds b) : Runs holds b.stop := by
  have off : b.stop.queue.stage ≠ .running := b.stage_stop_ne
  refine ⟨?_, ?_, fun on => absurd on off⟩
  · simpa [Buffer.stop, cancelToken, discard, Queue.discard] using h.size
  · intro number w found
    simp only [Buffer.stop, discard, cancelToken, Array.getElem?_map,
      Option.map_eq_some_iff] at found
    obtain ⟨before, found, rfl⟩ := found
    have works := h.works number before found
    have idle : ¬Producer.IsLive
        (if b.token? = some before.run then { before with cancelled := true } else before) := by
      split
      next => exact fun live => nomatch live.1
      next kept =>
        intro live
        obtain ⟨run, on⟩ := works.live_iff.mp live
        exact kept (run ▸ h.token on)
    refine ⟨?_, ⟨fun live => absurd live idle, fun on => absurd on.2 off⟩,
      fun live => absurd live idle⟩
    split <;> exact works.run

/-- Nothing is queued after a stop. -/
theorem Sound.stop (h : Sound commands b) : Sound commands b.stop :=
  ⟨h.runs.stop, h.queue.position_le, nofun,
    fun finished => h.queue.finished (Queue.stage_of_discard (q := b.queue) finished)⟩

/-! ## Taking -/

/-- What taking gives: what is queued first, and if nothing is, what the run has come to. -/
theorem next_spec (b : Buffer) :
    match b.next.1 with
    | .ready position held =>
      position = b.queue.position ∧ b.queue.items = held :: b.next.2.queue.items ∧
        b.next.2.queue.position = b.queue.position
    | .empty position => position = b.queue.position ∧ b.next.2 = b ∧ b.queue.items = []
    | .exhausted reachedEnd => b.next.2 = b ∧ b.queue.items = [] ∧ b.queue.stage ≠ .running ∧
        (reachedEnd = true ↔ b.queue.stage = .finished) := by
  unfold Buffer.next Queue.next
  cases queued : b.queue.items with
  | cons held rest => exact ⟨rfl, rfl, rfl⟩
  | nil =>
    dsimp only
    cases stage : b.queue.stage <;> simp

/-- Taking changes what is queued, and nothing else. -/
theorem next_eq (b : Buffer) :
    b.next.2 = { b with queue := { b.queue with items := b.next.2.queue.items } } := by
  obtain ⟨settings, ⟨items, stage, run, position⟩, producers, token?⟩ := b
  cases items with
  | cons held rest => rfl
  | nil => cases stage <;> rfl

theorem Runs.next (h : Runs holds b) : Runs holds b.next.2 := by
  rw [next_eq]
  refine ⟨h.size, fun number w found => ?_, h.token⟩
  have works := h.works number w found
  exact ⟨works.run, works.live_iff, works.holds⟩

/-- Taking gives what is queued first. -/
theorem Sound.next (h : Sound commands b) : Sound commands b.next.2 ∧
    match b.next.1 with
    | .ready position held =>
      position = b.queue.position ∧ b.queue.items = held :: b.next.2.queue.items ∧
        b.next.2.queue.position = b.queue.position
    | .empty position => position = b.queue.position ∧ b.next.2 = b ∧ b.queue.items = []
    | .exhausted reachedEnd => b.next.2 = b ∧ b.queue.items = [] ∧ b.queue.stage ≠ .running ∧
        (reachedEnd = true ↔ b.queue.stage = .finished) := by
  have gives := b.next_spec
  refine ⟨⟨h.runs.next, ?_⟩, gives⟩
  have fewer : ∀ held ∈ b.next.2.queue.items, held ∈ b.queue.items := by
    intro held mem
    split at gives
    next => exact gives.2.1 ▸ List.mem_cons_of_mem _ mem
    next => exact gives.2.1 ▸ mem
    next => exact gives.1 ▸ mem
  rw [next_eq]
  exact ⟨h.queue.position_le, fun held mem => h.queue.queued held (fewer held mem),
    h.queue.finished⟩

/-! ## Producers at work -/

/-- One producer changed, and the queue by it.  After a live one something
else may hold. -/
theorem Runs.setProducer (h : Runs holds b) {q : Queue} {number : Nat} {w w' : Producer}
    (found : b.producers[number]? = some w) (works : w'.Works holds' q number)
    (run : q.run = b.queue.run) (own : q = b.queue ∧ holds' = holds ∨ w.IsLive) :
    Runs holds' { b with queue := q, producers := b.producers.setIfInBounds number w' } := by
  have before := h.works number w found
  have stage : q.stage = .running → b.queue.stage = .running := by
    rcases own with ⟨rfl, -⟩ | live
    · exact id
    · exact fun _ => (before.live_iff.mp live).2
  refine ⟨?_, fun other u at_other => ?_, fun on => ?_⟩
  · dsimp only
    rw [Array.size_setIfInBounds, run]
    exact h.size
  · rw [Array.getElem?_setIfInBounds] at at_other
    split at at_other
    next same =>
      obtain rfl := same
      split at at_other
      · cases at_other
        exact works
      · cases at_other
    next ne =>
      have untouched := h.works other u at_other
      rcases own with ⟨rfl, rfl⟩ | live
      · exact untouched
      · refine untouched.of_other run fun same => ne ?_
        have := (before.live_iff.mp live).1.symm.trans same
        rw [before.run, untouched.run] at this
        omega
  · dsimp only
    rw [run]
    exact h.token (stage on)

/-- A step of a live producer. -/
theorem Runs.of_steps (h : Runs holds b) {q : Queue} {number : Nat} {w w' : Producer}
    (found : b.producers[number]? = some w) (live : w.IsLive)
    (steps : w.Steps holds' b.queue q w') :
    Runs holds' { b with queue := q, producers := b.producers.setIfInBounds number w' } :=
  h.setProducer found ((h.works number w found).of_steps live steps) steps.queue_run (.inr live)

/-- A step of any other producer. -/
theorem Runs.of_idles (h : Runs holds b) {number : Nat} {w w' : Producer}
    (found : b.producers[number]? = some w) (idle : ¬w.IsLive) (run : w'.run = w.run)
    (stays : ¬w'.IsLive) :
    Runs holds { b with queue := b.queue, producers := b.producers.setIfInBounds number w' } := by
  have works := h.works number w found
  refine h.setProducer found ⟨run.trans works.run, ⟨fun live => absurd live stays, fun on => ?_⟩,
    fun live => absurd live stays⟩ rfl (.inl ⟨rfl, rfl⟩)
  exact absurd (works.live_iff.mpr (run ▸ on)) idle

/-- A step of a producer of the buffer, live or not. -/
theorem Sound.stepProducer (h : Sound commands b) {p : Program} (sound : p.Sound)
    (same : p.commands = commands) (now number : Nat) :
    let after := b.stepProducer now p number
    (after.1.Sound ∧ p.SameFile after.1) ∧ Sound commands after.2 ∧
      (∀ taken, Delivers commands b taken → Delivers commands after.2 taken) ∧
      (∃ more, after.2.queue.items = b.queue.items ++ more) ∧
      (b.queue.stage ≠ .running → after.2.queue = b.queue) := by
  unfold Buffer.stepProducer
  cases found : b.producers[number]? with
  | none => exact ⟨⟨sound, rfl⟩, h, fun _ delivers => delivers, ⟨[], by simp⟩, fun _ => rfl⟩
  | some w =>
    have works := h.runs.works number w found
    have program := Producer.program_step b.settings now (s := ⟨p, b.queue⟩) (w := w) sound
    dsimp only
    by_cases live : w.IsLive
    · have on := works.live_iff.mp live
      have moves := Producer.moves_step b.settings now (s := ⟨p, b.queue⟩) live sound same
        (works.holds live) on
      generalize w.step b.settings now ⟨p, b.queue⟩ = after at program moves
      obtain ⟨⟨program', q⟩, w'⟩ := after
      have numbered : Numbered commands := same ▸ numbered_commandsOf _
      have runs := h.runs.of_steps found live (moves.steps on.2)
      refine ⟨program, ⟨runs, h.queue.of_moves on.2 numbered moves⟩, ?_, ?_,
        fun off => absurd on.2 off⟩
      · intro taken delivers
        cases moves with
        | stays | concludes => exact delivers
        | delivers held _ _ _ _ at_line =>
          unfold Delivers at delivers ⊢
          rw [executables_take_succ at_line, ← delivers]
          cases own : held.command.isExecutable <;> simp
      · cases moves with
        | stays | concludes => exact ⟨[], by simp⟩
        | delivers held =>
          dsimp only
          cases held.command.isExecutable
          · exact ⟨[], by simp⟩
          · exact ⟨[held], by simp⟩
    · have idles := Producer.idles_step b.settings now (s := ⟨p, b.queue⟩) live
        (mt works.live_iff.mpr live)
      generalize w.step b.settings now ⟨p, b.queue⟩ = after at program idles
      obtain ⟨⟨program', q⟩, w'⟩ := after
      obtain ⟨queue, run, idle⟩ := idles
      obtain rfl : q = b.queue := queue
      exact ⟨program, ⟨h.runs.of_idles found live run idle, h.queue⟩, fun _ delivers => delivers,
        ⟨[], by simp⟩, fun _ => rfl⟩

end Buffer

end GcodeJob
