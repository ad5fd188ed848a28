import GcodeJob.Proofs.ReadAhead.Traffic

/-!
# GcodeJob.Proofs.ReadAhead.Isolation

A run of a buffer does not notice the runs before it.  Their producers may be
late by any number of steps, but a step of theirs leaves the queue alone, so
forgetting them commutes with everything that happens (`Traffic.run_asFirst`).

**Main result** (`Traffic.isolation`): when calls do not overlap, a late
producer changes nothing, nothing is queued behind a stop until the next start,
and each run goes on as it would as the first run of a buffer that is new.
-/

namespace GcodeJob

/-! ## Forgetting earlier runs -/

/-- The same producer, as one of a first run. -/
def Producer.ofFirst (w : Producer) : Producer := { w with run := 1 }

/-- The buffer as if its last run were its first. -/
def Buffer.withoutPast (b : Buffer) : Buffer where
  settings := b.settings
  queue := { b.queue with run := 1 }
  producers := (b.producers[b.queue.run - 1]?.map Producer.ofFirst).toArray
  token? := if b.token? = some b.queue.run then some 1 else none

/-- What a step of a producer may mean to others: it reads a line. -/
def Producer.reads (w : Producer) : List Traffic.Event :=
  match w.point with
  | .fetching line => [.change (.get line)]
  | _ => []

namespace Traffic

/-- The buffer is as if its last run were its first, all else is as it is. -/
def withoutPast (s : Traffic) : Traffic := { s with buffer := s.buffer.withoutPast }

/-- What happens in a later run, in terms of a first one: the producer of the
run is the first, and one of an earlier run just reads from the program. -/
def asFirst (s : Traffic) : Event → List Event
  | .produce number now =>
    if number + 1 = s.buffer.queue.run then [.produce 0 now]
    else
      match s.buffer.producers[number]? with
      | some w => w.reads
      | none => []
  | e => [e]

def courseAsFirst (s : Traffic) : List Event → List Event
  | [] => []
  | e :: events => s.asFirst e ++ (s.step e).courseAsFirst events

end Traffic

/-! ## A producer and its number -/

namespace Producer

/-- The number of the run matters only in that it is the one of the queue. -/
theorem step_ofFirst (settings : BufferSettings) (now : Nat) (p : Program) {q : Queue}
    {w : Producer} (own : w.run = q.run) :
    w.ofFirst.step settings now ⟨p, { q with run := 1 }⟩ =
      (⟨(w.step settings now ⟨p, q⟩).1.program,
        { (w.step settings now ⟨p, q⟩).1.queue with run := 1 }⟩,
        (w.step settings now ⟨p, q⟩).2.ofFirst) := by
  obtain ⟨run, cancelled, point⟩ := w
  obtain rfl : run = q.run := own
  cases point with
  | checking | sourcing | measuring | locating | fetching | gone => rfl
  | delivering position held => cases cancelled <;> rfl
  | resting moment =>
    unfold ofFirst step
    dsimp only
    split <;> rfl
  | leaving outcome =>
    unfold ofFirst step Queue.conclude
    dsimp only
    by_cases on : q.stage = .running <;> simp [on]

/-- To the program a step is no more than what it reads. -/
theorem program_run_reads (settings : BufferSettings) (now : Nat) (s : Traffic) (q : Queue)
    (w : Producer) :
    s.run w.reads = { s with program := (w.step settings now ⟨s.program, q⟩).1.program } := by
  obtain ⟨run, cancelled, point⟩ := w
  cases point with
  | delivering position held => cases cancelled <;> rfl
  | _ => rfl

end Producer

/-! ## What forgetting commutes with -/

namespace Buffer.Coherent
variable {b : Buffer} {phase : Phase}

/-- Until its run has a producer, a buffer without its past has none. -/
theorem getElem?_of_spawning (h : b.Coherent .spawning) : b.producers[b.queue.run - 1]? = none := by
  have size : b.queue.run = b.producers.size + 1 := h.size
  rw [Array.getElem?_eq_none (by omega)]

/-- Then the next producer is the one of its run. -/
theorem getElem?_push_of_spawning (h : b.Coherent .spawning) (w : Producer) :
    (b.producers.push w)[b.queue.run - 1]? = some w := by
  have size : b.queue.run = b.producers.size + 1 := h.size
  simp [size]

theorem withoutPast_spawn (h : b.Coherent .spawning) :
    b.spawn.withoutPast = b.withoutPast.spawn := by
  simp only [Buffer.spawn, withoutPast, h.getElem?_of_spawning, h.getElem?_push_of_spawning]
  rfl

theorem withoutPast_abandon (h : b.Coherent .spawning) :
    b.abandon.withoutPast = b.withoutPast.abandon := by
  simp only [Buffer.abandon, withoutPast, h.getElem?_of_spawning, h.getElem?_push_of_spawning]
  rfl

/-- The token of the run that is on is the kept one, or no live producer has it. -/
theorem withoutPast_cancelToken (h : b.Coherent phase) :
    b.cancelToken.withoutPast = b.withoutPast.cancelToken := by
  simp only [Buffer.cancelToken, withoutPast, Array.getElem?_map]
  cases found : b.producers[b.queue.run - 1]? with
  | none => simp
  | some w =>
    have run : w.run = b.queue.run := by
      have lt := (Array.getElem?_eq_some_iff.mp found).1
      have size := h.size
      have own := h.run _ w found
      split at size <;> omega
    by_cases kept : b.token? = some b.queue.run <;> simp [kept, run, Producer.ofFirst]

theorem withoutPast_next (b : Buffer) :
    b.withoutPast.next = (b.next.1, b.next.2.withoutPast) := by
  obtain ⟨settings, ⟨items, stage, run, position⟩, producers, token?⟩ := b
  cases items with
  | cons held rest => rfl
  | nil => cases stage <;> rfl

/-- A step of the producer of the run that is on. -/
theorem withoutPast_stepProducer (h : b.Coherent phase) {number : Nat}
    (own : number + 1 = b.queue.run) (now : Nat) (p : Program) :
    b.withoutPast.stepProducer now p 0 =
      ((b.stepProducer now p number).1, (b.stepProducer now p number).2.withoutPast) := by
  have first : b.withoutPast.producers[0]? = b.producers[number]?.map Producer.ofFirst := by
    rw [withoutPast, ← own, Nat.add_sub_cancel]
    cases b.producers[number]? <;> rfl
  unfold Buffer.stepProducer
  rw [first]
  cases found : b.producers[number]? with
  | none => simp
  | some w =>
    have lt := (Array.getElem?_eq_some_iff.mp found).1
    have step := Producer.step_ofFirst b.settings now p ((h.run number w found).trans own)
    have same := (w.acts_step b.settings now ⟨p, b.queue⟩).queue_run
    simp only [Option.map_some, withoutPast] at step ⊢
    rw [step]
    simp [same, ← own, lt]

/-- A step of any other producer leaves nothing behind but in the program. -/
theorem withoutPast_stepProducer_of_ne (h : b.Coherent phase) {number : Nat} {w : Producer}
    (found : b.producers[number]? = some w) (other : number + 1 ≠ b.queue.run) (now : Nat)
    (p : Program) : (b.stepProducer now p number).2.withoutPast = b.withoutPast := by
  have run : w.run ≠ b.queue.run := by
    rw [h.run number w found]
    exact other
  have queue := h.queue_step_of_ne found run now p
  have lt := (Array.getElem?_eq_some_iff.mp found).1
  have size := h.size
  have ne : number ≠ b.queue.run - 1 := by split at size <;> omega
  simp [Buffer.stepProducer, found, withoutPast, queue, ne]

end Buffer.Coherent

namespace Traffic

/-- No start is under way that may still begin a run. -/
def NoneBegins (s : Traffic) : Prop := ∀ call ∈ s.calls, call ≠ .checking ∧ call ≠ .beginning

section
variable {s : Traffic}

namespace NoneBegins

theorem not_beginning (h : s.NoneBegins) (number : Nat) : s.calls[number]? ≠ some .beginning :=
  fun at_ => (h _ (Array.mem_of_getElem? at_)).2 rfl

theorem apart (h : s.NoneBegins) (e : Event) : s.Apart e := by
  cases e with
  | advance call spawns => exact fun at_ => absurd at_ (h.not_beginning call)
  | _ => trivial

theorem step (h : s.NoneBegins) {e : Event} (other : e ≠ .start) : (s.step e).NoneBegins := by
  cases e with
  | start => exact absurd rfl other
  | stop => exact Array.forall_mem_push.mpr ⟨by simp, h⟩
  | advance call spawns =>
    have advances := s.advances_advance call spawns
    unfold Traffic.step
    dsimp only
    generalize s.advance call spawns = t at advances
    cases advances with
    | waits => exact h
    | checks _ at_ => exact absurd rfl (h _ (Array.mem_of_getElem? at_)).1
    | refused at_ | begins at_ => exact absurd at_ (h.not_beginning call)
    | spawns | abandons | keeps | cancels | discards => exact forall_mem_moved h (by simp) call
  | next | produce | change => exact h

end NoneBegins

/-- No section but the one that begins a run tells a later run from a first one. -/
theorem withoutPast_advance (h : s.Guarded) {number : Nat}
    (outside : s.calls[number]? ≠ some .beginning) (spawns : Bool) :
    s.withoutPast.advance number spawns = (s.advance number spawns).withoutPast := by
  obtain ⟨phase, stands, coherent⟩ := h
  have calls : s.withoutPast.calls[number]? = s.calls[number]? := rfl
  unfold advance
  rw [calls]
  cases at_ : s.calls[number]? with
  | none => rfl
  | some call =>
    cases call with
    | checking =>
      dsimp only
      have state : s.withoutPast.program = s.program := rfl
      rw [state]
      split <;> rfl
    | beginning => exact absurd at_ outside
    | spawning =>
      obtain ⟨rfl, -⟩ : phase = .spawning ∧ _ := stands.calls number _ at_
      cases spawns with
      | true => simp [withoutPast, goTo, coherent.withoutPast_spawn]
      | false => simp [withoutPast, goTo, coherent.withoutPast_abandon]
    | keeping => simp [withoutPast, goTo, Buffer.keepToken, Buffer.withoutPast]
    | cancelling =>
      have holder : s.withoutPast.holder? = s.holder? := rfl
      dsimp only
      rw [holder]
      split
      · rfl
      · simp [withoutPast, goTo, coherent.withoutPast_cancelToken]
    | discarding => rfl
    | returned => rfl

/-- Whatever happens in a later run happens in the first one of a new buffer. -/
theorem withoutPast_step (h : s.Guarded) (none : s.NoneBegins) (e : Event) :
    s.withoutPast.run (s.asFirst e) = (s.step e).withoutPast := by
  obtain ⟨phase, stands, coherent⟩ := id h
  cases e with
  | start | stop | change => rfl
  | advance call spawns => exact withoutPast_advance h (none.not_beginning call) spawns
  | next =>
    have taken := Buffer.Coherent.withoutPast_next s.buffer
    simp [asFirst, run, step, withoutPast, taken]
  | produce number now =>
    unfold asFirst
    dsimp only
    by_cases own : number + 1 = s.buffer.queue.run
    · have stepped := coherent.withoutPast_stepProducer own now s.program
      simp [if_pos own, run, step, withoutPast, stepped]
    · rw [if_neg own]
      cases found : s.buffer.producers[number]? with
      | none => simp [run, step, Buffer.stepProducer, found]
      | some w =>
        have read := w.program_run_reads s.buffer.settings now s.withoutPast s.buffer.queue
        have same := coherent.withoutPast_stepProducer_of_ne found own now s.program
        dsimp only
        rw [read]
        simp only [step, withoutPast, same]
        simp [Buffer.stepProducer, found]

/-- Forgetting what was before a run commutes with all that happens in it. -/
theorem run_asFirst (h : s.Guarded) (none : s.NoneBegins) {later : List Event}
    (others : .start ∉ later) :
    s.withoutPast.run (s.courseAsFirst later) = (s.run later).withoutPast := by
  induction later generalizing s with
  | nil => rfl
  | cons e later ih =>
    simp only [List.mem_cons, not_or] at others
    have rest := ih (h.step (none.apart e)) (none.step (Ne.symm others.1)) others.2
    calc s.withoutPast.run (s.asFirst e ++ (s.step e).courseAsFirst later)
      _ = (s.withoutPast.run (s.asFirst e)).run ((s.step e).courseAsFirst later) :=
        List.foldl_append ..
      _ = (s.step e).withoutPast.run ((s.step e).courseAsFirst later) := by
        rw [withoutPast_step h none e]
      _ = ((s.step e).run later).withoutPast := rest

/-! ## A start in turn -/

namespace InTurn

/-- A call under way is the only one. -/
theorem returned_of_ne (h : s.InTurn) {number n : Nat} {call c : Call}
    (at_ : s.calls[number]? = some call) (busy : call ≠ .returned) (found : s.calls[n]? = some c)
    (ne : n ≠ number) : c = .returned :=
  Decidable.byContradiction fun busy' => ne (h n number c call found at_ busy' busy)

/-- A stop under way finds no start on its way. -/
theorem none_starts (h : s.InTurn) {number : Nat} (at_ : s.calls[number]? = some .discarding) :
    ∀ call ∈ s.calls, call.isStart = false := by
  intro call mem
  obtain ⟨n, found⟩ := Array.getElem?_of_mem mem
  by_cases same : n = number
  · subst same
    obtain rfl := Option.some.inj (found.symm.trans at_)
    rfl
  · rw [h.returned_of_ne at_ nofun found same]
    rfl

/-- A start that comes to begin its run finds the lock free. -/
theorem free (h : s.InTurn) (guarded : s.Guarded) {number : Nat}
    (at_ : s.calls[number]? = some .beginning) : s.holder? = none := by
  obtain ⟨phase, stands, -⟩ := guarded
  have holds := stands.holder
  cases phase with
  | calm | dropping => exact holds
  | spawning | keeping =>
    obtain ⟨n, -, other⟩ := holds
    obtain rfl := h n number _ _ other at_ nofun nofun
    cases other.symm.trans at_

/-- While its run goes on, no other start is under way. -/
theorem noneBegins (h : s.InTurn) {number : Nat} (at_ : s.calls[number]? = some .beginning)
    {t : Traffic} (calls : t.calls = s.calls.setIfInBounds number .spawning) : t.NoneBegins := by
  intro call mem
  rw [calls] at mem
  obtain ⟨n, found⟩ := Array.getElem?_of_mem mem
  rcases eq_or_of_getElem?_setIfInBounds found with ⟨-, rfl⟩ | ⟨ne, found⟩
  · simp
  · simp [h.returned_of_ne at_ nofun found ne]

end InTurn

/-- A run begins as the first one of a buffer that is new. -/
theorem advance_fresh_of_beginning (h : s.Guarded) {number : Nat}
    (at_ : s.calls[number]? = some .beginning) (free : s.holder? = none)
    (off : s.buffer.queue.stage ≠ .running) (spawns : Bool) :
    { s with buffer := { settings := s.buffer.settings } }.advance number spawns =
      (s.advance number spawns).withoutPast := by
  obtain ⟨phase, stands, coherent⟩ := h
  have size : s.buffer.queue.run = s.buffer.producers.size := by
    rcases stands.of_free free with rfl | rfl <;> exact coherent.size
  have unkept : s.buffer.token? ≠ some (s.buffer.producers.size + 1) := fun kept =>
    absurd (coherent.token_le _ kept) (by omega)
  let fresh : Traffic := { s with buffer := { settings := s.buffer.settings } }
  have there : fresh.calls[number]? = some .beginning := at_
  have idle : fresh.buffer.queue.stage ≠ .running := by simp [fresh]
  rw [advance_of_beginning at_ free off, advance_of_beginning there free idle]
  simp [fresh, withoutPast, goTo, Buffer.withoutPast, Queue.begin, unkept, size]

end

/-! ## Runs apart from one another -/

/-- **No run is told from a first one.**  Whatever calls are made one after
another, and however late the producers of all runs are: a producer of another
run than the one that is on leaves the queue as it is, with its position and
its stage; once a stop has returned, nothing is queued until somebody calls for
a start; and a run begins at the first line with nothing queued, and from there
on is, with all it delivers, the first run of a new buffer, to which producers
of earlier runs are no more than others that read from the same program. -/
theorem isolation (path : String) (medium : Medium) (stream : StreamSettings)
    (settings : BufferSettings) (events : List Event)
    (alone : (opened path medium stream settings).Throughout Alone events) :
    let s := (opened path medium stream settings).run events
    (∀ (number now : Nat) (w : Producer), s.buffer.producers[number]? = some w →
      w.run ≠ s.buffer.queue.run → (s.step (.produce number now)).buffer.queue = s.buffer.queue) ∧
    (∀ (call : Nat) (spawns : Bool) (later : List Event), s.calls[call]? = some .discarding →
      .start ∉ later → ((s.advance call spawns).run later).buffer.queue.items = []) ∧
    ∀ (call : Nat) (spawns : Bool), s.calls[call]? = some .beginning →
      s.buffer.queue.stage ≠ .running →
      let t := s.advance call spawns
      t.buffer.queue = ⟨[], .running, s.buffer.queue.run + 1, 0⟩ ∧ t.given = [] ∧
        ∀ later : List Event, .start ∉ later →
          ({ s with buffer := { settings := s.buffer.settings } }.advance call spawns).run
              (t.courseAsFirst later) =
            (t.run later).withoutPast := by
  intro s
  have turns := inTurn_opened path medium stream settings
  have inTurn : s.InTurn := turns.run alone
  have guarded : s.Guarded :=
    (guarded_opened path medium stream settings).run (turns.throughout_apart alone)
  refine ⟨fun number now w found other => ?_, fun call spawns later at_ others => ?_,
    fun call spawns at_ off => ?_⟩
  · obtain ⟨phase, -, coherent⟩ := guarded
    have same := coherent.queue_step_of_ne found other now s.program
    simp only [step, Buffer.stepProducer, found, same]
  · exact ((Still.of_discarding guarded at_ (inTurn.none_starts at_) spawns).run others).items
  · have free := inTurn.free guarded at_
    have begun := advance_of_beginning at_ free off spawns
    have noneBegins := inTurn.noneBegins at_ (congrArg Traffic.calls begun)
    intro t
    refine ⟨congrArg (·.buffer.queue) begun, congrArg Traffic.given begun, fun later others => ?_⟩
    rw [advance_fresh_of_beginning guarded at_ free off]
    exact run_asFirst (guarded.advance call spawns (inTurn.apart _)) noneBegins others

/-- A producer that holds a command when its run is stopped, and is late until
the next run has its own. -/
theorem isolation_of_late_producer :
    let file : RegularFile := ⟨⟨#[71, 49, 10, 71, 50, 10]⟩, by decide, .whole⟩
    let fresh := opened "job" (.file file) ⟨9, 1⟩ {}
    let built := [.readChunk, .takeChunk, .readChunk, .takeChunk].map Event.change
    let advance (call count : Nat) : List Event := List.replicate count (.advance call true)
    let work (number count : Nat) : List Event := List.replicate count (.produce number 0)
    let stopping := built ++ [.start] ++ advance 0 4 ++ work 0 5 ++ [.stop] ++ advance 1 1
    let restarting := stopping ++ advance 1 1 ++ [.start] ++ advance 2 1
    let course := advance 2 3 ++ work 1 6 ++ work 0 1 ++ [.next]
    let s := fresh.run stopping
    let t := fresh.run restarting
    let u := fresh.run (restarting ++ course)
    fresh.Throughout Alone (restarting ++ course) ∧ s.calls[1]? = some .discarding ∧
      ((s.advance 1 true).run (work 0 2)).buffer.queue.items = [] ∧
      t.calls[2]? = some .beginning ∧ t.buffer.queue.stage ≠ .running ∧
      (t.advance 2 true).buffer.queue = ⟨[], .running, t.buffer.queue.run + 1, 0⟩ ∧
      ({ t with buffer := { settings := t.buffer.settings } }.advance 2 true).run
          ((t.advance 2 true).courseAsFirst course) =
        ((t.advance 2 true).run course).withoutPast ∧
      (∃ w, u.buffer.producers[0]? = some w ∧ w.run ≠ u.buffer.queue.run) ∧
      (u.step (.produce 0 0)).buffer.queue = u.buffer.queue := by
  intro file fresh built advance work stopping restarting course s t u
  have alone : fresh.Throughout Alone stopping := by decide +kernel
  have alone' : fresh.Throughout Alone restarting := by decide +kernel
  have alone'' : fresh.Throughout Alone (restarting ++ course) := by decide +kernel
  have at_s : s.calls[1]? = some .discarding := by decide +kernel
  have at_t : t.calls[2]? = some .beginning := by decide +kernel
  have off : t.buffer.queue.stage ≠ .running := by decide +kernel
  obtain ⟨w, found, other⟩ :
      ∃ w, u.buffer.producers[0]? = some w ∧ w.run ≠ u.buffer.queue.run := by
    refine ⟨{ run := 1, cancelled := true, point := .leaving .stopped }, ?_⟩
    decide +kernel
  have others : .start ∉ work 0 2 := by simp [work]
  have others' : .start ∉ course := by simp [course, advance, work]
  have s_eq : (opened "job" (.file file) ⟨9, 1⟩ {}).run stopping = s := rfl
  have t_eq : (opened "job" (.file file) ⟨9, 1⟩ {}).run restarting = t := rfl
  have u_eq : (opened "job" (.file file) ⟨9, 1⟩ {}).run (restarting ++ course) = u := rfl
  have first := isolation "job" (.file file) ⟨9, 1⟩ {} stopping alone
  have second := isolation "job" (.file file) ⟨9, 1⟩ {} restarting alone'
  have third := isolation "job" (.file file) ⟨9, 1⟩ {} (restarting ++ course) alone''
  dsimp only at first second third
  rw [s_eq] at first
  rw [t_eq] at second
  rw [u_eq] at third
  -- From here on the three are any states of which this much is known.
  clear_value s t u course
  have begun := second.2.2 2 true at_t off
  exact ⟨alone'', at_s, first.2.1 1 true _ at_s others, at_t, off, begun.1,
    begun.2.2 course others', ⟨w, found, other⟩, third.1 0 0 w found other⟩

end Traffic

end GcodeJob
