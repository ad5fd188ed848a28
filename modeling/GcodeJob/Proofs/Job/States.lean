import GcodeJob.Proofs.Job.Steps
import Mathlib.Data.List.Chain

/-!
# GcodeJob.Proofs.Job.States

The states of a controller.  Whatever is asked for and in whatever order, a
controller rests (`Controller.Rests`) or it executes exactly one run
(`Controller.Executes`), and then the place of the run, the signal that waits
and the state that is shown fit together.  This excludes all changes of the
state but those that are meant.  Nothing here rests on what is in the files,
which may be replaced at any time.

**Main result** (`Controller.state_graph`): the statuses published one after
the other follow the graph of states.
-/

namespace GcodeJob

/-- The states that may come next. -/
def State.successors : State → List State
  | .shutdown => [.selfTest]
  | .selfTest => [.idle, .shutdown]
  | .idle => [.shutdown, .waiting]
  | .waiting => [.printing, .failed, .canceled]
  | .printing => [.paused, .idle, .failed, .canceled]
  | .paused => [.printing, .idle, .canceled]
  | .failed | .canceled => [.idle]

/-- A status that may be published after another. -/
def Status.Follows (next before : Status) : Prop :=
  next.state = before.state ∨ next.state ∈ before.state.successors

/-- The operation that a signal was noted by. -/
def Signal.operation? : Signal → Option Operation
  | .none => Option.none
  | .pause => some .pause
  | .resume => some .resume
  | .stop => some .stop

/-- Whether an operation is for a run in flight. -/
def Operation.isForRun : Operation → Bool
  | .pause | .resume | .stop | .cancel => true
  | _ => false

theorem Operation.isActive_of_allowed {o : Operation} {state : State}
    (allowed : state ∈ o.allowed) : state.isActive = o.isForRun := by
  cases o <;> simp only [Operation.allowed, List.mem_cons, List.not_mem_nil, or_false] at allowed
  case cancel => rcases allowed with rfl | rfl | rfl <;> rfl
  case stop | reset => rcases allowed with rfl | rfl <;> rfl
  all_goals
    rw [allowed]
    rfl

/-- What a run in flight shows is an active state. -/
theorem RunPoint.isActive_of_mem_states {point : RunPoint} {state : State}
    (mem : state ∈ point.states) : state.isActive = true := by
  have errand {errand : Errand} (same : state = errand.state) : state.isActive = true := by
    cases errand <;> exact same ▸ rfl
  have source {outcome : Outcome} (mem : state ∈ outcome.sources) : state.isActive = true := by
    cases outcome <;> simp only [Outcome.sources, List.mem_cons, List.not_mem_nil, or_false] at mem
    case completed => exact mem ▸ rfl
    case canceled => rcases mem with rfl | rfl | rfl <;> rfl
    all_goals rcases mem with rfl | rfl <;> rfl
  cases point with
  | dozing | asleep => exact errand (List.mem_singleton.mp mem)
  | leaving | concluding => exact source mem
  | ended => cases mem
  | _ => exact List.mem_singleton.mp mem ▸ rfl

/-- The state in which a run leaves the controller is meant to come next. -/
theorem Outcome.state_mem_successors {outcome : Outcome} {state : State}
    (mem : state ∈ outcome.sources) : outcome.state ∈ state.successors := by
  cases outcome <;> simp only [Outcome.sources, List.mem_cons, List.not_mem_nil, or_false] at mem
  case completed =>
    rw [mem]
    decide
  case canceled => rcases mem with rfl | rfl | rfl <;> decide
  all_goals rcases mem with rfl | rfl <;> decide

namespace Controller

/-! ## What can happen -/

/-- Everything that can happen to a controller whose files may change. -/
inductive Incident
  | event (e : Event)
  /-- The content of a file is replaced in place. -/
  | replace (program : Nat) (content : ByteArray)
  /-- The disk fails behind some bytes of a file. -/
  | damage (program kept : Nat)

def meet (c : Controller) : Incident → Controller
  | .event e => c.after e
  | .replace program content => c.onProgram program (·.replaceContent content)
  | .damage program kept => c.onProgram program (·.damage kept)

/-- Whether something goes on in the background: nothing is asked for, and no
run takes a step. -/
def Event.isBackground : Event → Bool
  | .powerOn | .shutDown | .load _ | .execute _ | .pause | .resume | .stop | .cancel | .reset
  | .stepRun .. => false
  | _ => true

/-- What a course of incidents makes of a controller. -/
def course (c : Controller) (incidents : List Incident) : Controller := incidents.foldl meet c

/-- Whether a run has begun and not ended. -/
def isInFlight (c : Controller) (number : Nat) : Bool := c.runs[number]?.any (!·.hasEnded)

theorem isInFlight_iff {c : Controller} {number : Nat} : c.isInFlight number = true ↔
    ∃ r, c.runs[number]? = some r ∧ r.hasEnded = false := by
  simp [isInFlight, Option.any_eq_true]

/-- No run is in flight, and nothing waits for one. -/
structure Rests (c : Controller) : Prop where
  ended : ∀ {number : Nat} {r : Run}, c.runs[number]? = some r → r.hasEnded = true
  state : c.status.state.isActive = false
  signal : c.signal = .none

/-- One run is in flight, and all that is said of it fits together. -/
structure Executes (c : Controller) (number : Nat) (r : Run) : Prop where
  found : c.runs[number]? = some r
  inFlight : r.hasEnded = false
  alone : ∀ {other : Nat} {q : Run}, c.runs[other]? = some q → q.hasEnded = false → other = number
  token : c.token? = some number
  state : c.status.state ∈ r.point.states
  signal : ∀ o, c.signal.operation? = some o → c.status.state ∈ o.allowed

theorem Rests.isInFlight {c : Controller} (h : c.Rests) (n : Nat) : c.isInFlight n = false := by
  refine Bool.eq_false_iff.mpr fun at_ => ?_
  obtain ⟨r, found, inFlight⟩ := isInFlight_iff.mp at_
  rw [h.ended found] at inFlight
  cases inFlight

theorem Executes.isInFlight {c : Controller} {number : Nat} {r : Run} (h : c.Executes number r) :
    c.isInFlight number = true :=
  isInFlight_iff.mpr ⟨r, h.found, h.inFlight⟩

theorem Executes.eq_of_isInFlight {c : Controller} {number : Nat} {r : Run}
    (h : c.Executes number r) {n : Nat} (at_ : c.isInFlight n = true) : n = number := by
  obtain ⟨q, found, inFlight⟩ := isInFlight_iff.mp at_
  exact h.alone found inFlight

/-- A controller that rests or executes one run. -/
def Orderly (c : Controller) : Prop := c.Rests ∨ ∃ number r, c.Executes number r

theorem Executes.orderly {c : Controller} {number : Nat} {r : Run} (h : c.Executes number r) :
    c.Orderly := .inr ⟨number, r, h⟩

theorem Orderly.executes {c : Controller} (h : c.Orderly) {number : Nat}
    (inFlight : c.isInFlight number = true) : ∃ r, c.Executes number r := by
  rcases h with rests | ⟨other, r, executes⟩
  · cases (rests.isInFlight number).symm.trans inFlight
  · exact ⟨r, executes.eq_of_isInFlight inFlight ▸ executes⟩

/-- A history goes on from another by changes of the state that are meant. -/
structure Continues (before after : List Status) : Prop where
  suffix : before <:+ after
  isChain : before.IsChain Status.Follows → after.IsChain Status.Follows

/-! ## Histories -/

theorem Continues.refl (history : List Status) : Continues history history :=
  ⟨List.suffix_refl history, id⟩

theorem Continues.of_eq {before after : List Status} (same : after = before) :
    Continues before after :=
  same ▸ .refl _

theorem Continues.trans {first second third : List Status} (h : Continues first second)
    (h' : Continues second third) : Continues first third :=
  ⟨h.suffix.trans h'.suffix, fun chain => h'.isChain (h.isChain chain)⟩

/-- At most one status more. -/
theorem Continues.of_follows {c c' : Controller} (follows : c'.status.Follows c.status)
    (history : c'.history = c.history ∨ c'.past = c.history) :
    Continues c.history c'.history := by
  rcases history with same | past
  · exact .of_eq same
  · have more : c'.history = c'.status :: c.history := by rw [← past, history]
    rw [more]
    exact ⟨List.suffix_cons .., fun chain => List.isChain_cons_cons.mpr ⟨follows, chain⟩⟩

section
variable {c c' : Controller} {number : Nat} {r r' : Run}

/-! ## A step of the run in flight -/

theorem Way.of_ended {point : RunPoint} {signal : Signal} {state : State}
    (way : c.Way r point signal state) (ended : r.point = .ended) :
    point = .ended ∧ signal = c.signal ∧ state = c.status.state := by
  cases way with
  | onward onward =>
    rw [ended] at onward
    cases onward
    exact ⟨rfl, rfl, rfl⟩
  | notices _ takes | stops takes | pauses takes | resumes takes =>
    rw [ended] at takes
    cases takes
  | announces at_ | concludes at_ =>
    rw [ended] at at_
    cases at_
  | forced outcome =>
    rw [forced?, ended] at outcome
    cases outcome

/-- What the feed forces on a run is meant for where the run is. -/
theorem mem_sources_of_forced {outcome : Outcome} (forced : c.forced? r = some outcome)
    {state : State} (mem : state ∈ r.point.states) : state ∈ outcome.sources := by
  rcases forced?_eq_some forced with ⟨rfl, at_ | at_⟩ | ⟨rfl | rfl, at_⟩
  all_goals
    rw [at_] at mem
    exact List.mem_singleton.mp mem ▸ by decide

/-- A way from the place of the run in flight is meant for the state that is
shown, and it leads to a place that fits or to rest. -/
theorem Executes.way (h : c.Executes number r) {point : RunPoint} {signal : Signal} {state : State}
    (way : c.Way r point signal state) :
    (state = c.status.state ∨ state ∈ c.status.state.successors) ∧
      (point ≠ .ended ∧ state ∈ point.states ∧
          (∀ o, signal.operation? = some o → state ∈ o.allowed) ∨
        point = .ended ∧ state.isActive = false ∧ signal = .none) := by
  have still : r.point ≠ .ended := fun ended => by simpa [Run.hasEnded, ended] using h.inFlight
  have unasked (state : State) (o : Operation) (own : Signal.none.operation? = some o) :
      state ∈ o.allowed := by cases own
  cases way with
  | onward onward =>
    exact ⟨.inl rfl, .inl ⟨onward.ne_ended still, onward.mem_states h.state, h.signal⟩⟩
  | announces at_ =>
    have waiting := h.state
    rw [at_] at waiting
    have waiting : c.status.state = .waiting := List.mem_singleton.mp waiting
    refine ⟨.inr (waiting ▸ by decide), .inl ⟨by simp, List.mem_singleton_self _, fun o own => ?_⟩⟩
    -- While a run waits for the index nothing but a cancel is accepted.
    have allowed := h.signal o own
    rw [waiting] at allowed
    cases pending : c.signal <;> rw [pending] at own <;> cases own <;> revert allowed <;> decide
  | notices =>
    have active := RunPoint.isActive_of_mem_states h.state
    refine ⟨.inl rfl, .inl ⟨by simp, ?_, h.signal⟩⟩
    generalize c.status.state = state at active
    cases state <;> first | decide | cases active
  | stops _ pending =>
    exact ⟨.inl rfl, .inl ⟨by simp, h.signal .stop (by rw [pending]; rfl), unasked _⟩⟩
  | pauses _ pending =>
    have printing := List.mem_singleton.mp (h.signal .pause (by rw [pending]; rfl))
    exact ⟨.inr (printing ▸ by decide), .inl ⟨by simp, List.mem_singleton_self _, unasked _⟩⟩
  | resumes _ pending =>
    have paused := List.mem_singleton.mp (h.signal .resume (by rw [pending]; rfl))
    exact ⟨.inr (paused ▸ by decide), .inl ⟨by simp, List.mem_singleton_self _, unasked _⟩⟩
  | forced outcome =>
    exact ⟨.inl rfl, .inl ⟨by simp, mem_sources_of_forced outcome h.state, h.signal⟩⟩
  | @concludes outcome at_ =>
    have mem := h.state
    rw [at_] at mem
    refine ⟨.inr (Outcome.state_mem_successors mem), .inr ⟨rfl, ?_, rfl⟩⟩
    cases outcome <;> rfl

/-- A run other than the one that takes a step stays as it is. -/
theorem Goes.found_other (goes : c.Goes c' number r r') {other : Nat} (ne : other ≠ number) :
    c'.runs[other]? = c.runs[other]? := by
  rw [goes.runs, Array.getElem?_setIfInBounds, if_neg ne.symm]

theorem Goes.found (goes : c.Goes c' number r r') (found : c.runs[number]? = some r) :
    c'.runs[number]? = some r' := by
  have lt := (Array.getElem?_eq_some_iff.mp found).1
  rw [goes.runs, Array.getElem?_setIfInBounds, if_pos rfl, if_pos lt]

theorem Goes.size (goes : c.Goes c' number r r') : c'.runs.size = c.runs.size := by
  rw [goes.runs, Array.size_setIfInBounds]

/-- A step of the run in flight. -/
theorem Executes.goes (h : c.Executes number r) (goes : c.Goes c' number r r') :
    Continues c.history c'.history ∧
      (c'.Executes number r' ∨ r'.hasEnded = true ∧ c'.Rests) := by
  obtain ⟨follows, ⟨still, state, signal⟩ | ⟨gone, rest, signal⟩⟩ := h.way goes.way
  all_goals refine ⟨.of_follows follows goes.history, ?_⟩
  · have inFlight : r'.hasEnded = false := by simpa [Run.hasEnded] using still
    refine .inl ⟨goes.found h.found, inFlight, fun {other q} found' inFlight' => ?_,
      (goes.token (inFlight.trans h.inFlight.symm)).trans h.token, state, signal⟩
    by_contra ne
    exact ne (h.alone (goes.found_other ne ▸ found') inFlight')
  · have ended : r'.hasEnded = true := by simpa [Run.hasEnded] using gone
    refine .inr ⟨ended, fun {other q} found' => ?_, rest, signal⟩
    by_cases own : other = number
    · rw [own, goes.found h.found] at found'
      exact Option.some.inj found' ▸ ended
    · by_contra inFlight'
      exact own (h.alone (goes.found_other own ▸ found') (by simpa using inFlight'))

/-- A step of a run that has ended. -/
theorem Goes.of_ended (goes : c.Goes c' number r r') (ended : r.hasEnded = true) :
    r'.hasEnded = true ∧ c'.signal = c.signal ∧ c'.status.state = c.status.state ∧
      c'.token? = c.token? := by
  obtain ⟨gone, signal, state⟩ := goes.way.of_ended (by simpa [Run.hasEnded] using ended)
  have ended' : r'.hasEnded = true := by simpa [Run.hasEnded] using gone
  exact ⟨ended', signal, state, goes.token (ended'.trans ended.symm)⟩

/-! ## What does not concern the run in flight -/

/-- Whatever leaves the runs, what waits for them and what is shown as they are. -/
structure Untouched (c c' : Controller) : Prop where
  runs : c'.runs = c.runs
  token : c'.token? = c.token?
  signal : c'.signal = c.signal
  history : c'.history = c.history

theorem Untouched.status (h : c.Untouched c') : c'.status = c.status :=
  (List.cons.inj h.history).1

theorem Untouched.refl (c : Controller) : c.Untouched c := ⟨rfl, rfl, rfl, rfl⟩

theorem untouched_onFeed (c : Controller) (feed : Nat) (f : Program → Buffer → Program × Buffer) :
    c.Untouched (c.onFeed feed f) := by
  rw [onFeed_eq]
  exact ⟨rfl, rfl, rfl, rfl⟩

theorem untouched_after (c : Controller) {e : Event} (background : e.isBackground = true) :
    c.Untouched (c.after e) := by
  cases e with
  | stepProducer feed number =>
    exact c.untouched_onFeed feed fun p b => b.stepProducer c.now p number
  | «open» | markClosed | release | forget | readChunk | takeChunk | getCommand
  | setCacheCapacity | advanceTo | setThreads => exact ⟨rfl, rfl, rfl, rfl⟩
  | _ => cases background

theorem Executes.of_untouched (h : c.Executes number r) (untouched : c.Untouched c') :
    c'.Executes number r :=
  ⟨untouched.runs ▸ h.found, h.inFlight, fun {_ _} found => h.alone (untouched.runs ▸ found),
    untouched.token.trans h.token, untouched.status ▸ h.state,
    untouched.signal ▸ untouched.status ▸ h.signal⟩

theorem Rests.of_untouched (h : c.Rests) (untouched : c.Untouched c') : c'.Rests :=
  ⟨fun {_ _} found => h.ended (untouched.runs ▸ found), untouched.status ▸ h.state,
    untouched.signal.trans h.signal⟩

/-! ## What is asked for -/

theorem continues_publish (c : Controller) {change : Status → Status}
    (follows : (change c.status).Follows c.status) :
    Continues c.history (c.publish change).history :=
  .of_follows follows (.inr rfl)

theorem continues_setState (c : Controller) {state : State}
    (mem : state ∈ c.status.state.successors) : Continues c.history (c.setState state).history :=
  c.continues_publish (.inr mem)

/-- An operation that is refused leaves everything as it is. -/
theorem allowing_induction {P : Controller → Prop} {o : Operation} {act : Controller → Reply}
    (refused : P c) (accepted : c.status.state ∈ o.allowed → P (act c).2) :
    P (c.allowing o act).2 := by
  rcases c.allowing_cases o act with ⟨e, eq⟩ | ⟨allowed, eq⟩
  · rw [eq]
    exact refused
  · rw [eq]
    exact accepted allowed

/-- What a controller may become.  A run that has ended stays so. -/
structure Becomes (c c' : Controller) : Prop where
  continues : Continues c.history c'.history
  orderly : c'.Orderly
  sizes : c.runs.size ≤ c'.runs.size
  isInFlight : ∀ n < c.runs.size, c'.isInFlight n = true → c.isInFlight n = true

theorem Becomes.trans {c'' : Controller} (h : c.Becomes c') (h' : c'.Becomes c'') :
    c.Becomes c'' :=
  ⟨h.continues.trans h'.continues, h'.orderly, Nat.le_trans h.sizes h'.sizes, fun n lt inFlight =>
    h.isInFlight n lt (h'.isInFlight n (Nat.lt_of_lt_of_le lt h.sizes) inFlight)⟩

/-- Whatever leaves the runs alone and ends at rest. -/
theorem Rests.becomes (h : c.Rests) (continues : Continues c.history c'.history)
    (runs : c'.runs = c.runs) (signal : c'.signal = c.signal)
    (rest : c'.status.state.isActive = false) : c.Becomes c' where
  continues := continues
  orderly := .inl ⟨fun {_ _} found => h.ended (runs ▸ found), rest, signal.trans h.signal⟩
  sizes := by rw [runs]
  isInFlight n _ inFlight := by rwa [Controller.isInFlight, ← runs]

theorem Rests.becomes_untouched (h : c.Rests) (untouched : c.Untouched c') : c.Becomes c' :=
  h.becomes (.of_eq untouched.history) untouched.runs untouched.signal
    (untouched.status ▸ h.state)

theorem Rests.becomes_self (h : c.Rests) : c.Becomes c := h.becomes_untouched (.refl c)

theorem Rests.becomes_of_eq (h : c.Rests) (same : c' = c) : c.Becomes c' := same ▸ h.becomes_self

theorem Rests.powerOn (h : c.Rests) : c.Becomes c.powerOn.2 := by
  refine allowing_induction h.becomes_self fun allowed => ?_
  have off : c.status.state = .shutdown := List.mem_singleton.mp allowed
  have testing : Continues c.history (c.setState .selfTest).history :=
    c.continues_setState (by rw [off]; decide)
  have tested {state : State} (mem : state ∈ State.selfTest.successors) :=
    testing.trans ((c.setState .selfTest).continues_setState mem)
  dsimp only
  split
  · exact h.becomes (tested (by decide)) rfl rfl rfl
  · exact h.becomes (tested (by decide)) rfl rfl rfl

theorem untouched_stopLoaded (c : Controller) : c.Untouched c.stopLoaded := by
  rw [stopLoaded_eq]
  exact ⟨rfl, rfl, rfl, rfl⟩

theorem untouched_closeReplaced (c : Controller) (program : Nat) :
    c.Untouched (c.closeReplaced program) := by
  rw [closeReplaced_eq]
  exact ⟨rfl, rfl, rfl, rfl⟩

theorem Rests.shutDown (h : c.Rests) : c.Becomes c.shutDown.2 := by
  refine allowing_induction h.becomes_self fun allowed => ?_
  have idle : c.status.state = .idle := List.mem_singleton.mp allowed
  have off : Continues c.history (c.setState .shutdown).history :=
    c.continues_setState (by rw [idle]; decide)
  have stopped := (c.setState .shutdown).untouched_stopLoaded
  refine h.becomes ?_ stopped.runs stopped.signal ?_
  · rw [← stopped.history] at off
    exact off
  · simp only [stopped.status]
    rfl

theorem Rests.load (h : c.Rests) (program : Nat) : c.Becomes (c.load program).2 := by
  refine allowing_induction h.becomes_self fun allowed => ?_
  have idle : c.status.state = .idle := List.mem_singleton.mp allowed
  have stopped := c.untouched_stopLoaded
  have closed := c.stopLoaded.untouched_closeReplaced program
  have status : (c.stopLoaded.closeReplaced program).status = c.status :=
    closed.status.trans stopped.status
  refine h.becomes (.of_follows (.inl ?_) (.inr ?_)) (closed.runs.trans stopped.runs)
    (closed.signal.trans stopped.signal) ?_
  · simp [Status.setLine, status]
  · exact closed.history.trans stopped.history
  · simp [Status.setLine, status, idle, State.isActive]

theorem Rests.reset (h : c.Rests) : c.Becomes c.reset.2 := by
  refine allowing_induction h.becomes_self fun allowed => ?_
  simp only [Operation.allowed, List.mem_cons, List.not_mem_nil, or_false] at allowed
  have idle : Continues c.history (c.setState .idle).history :=
    c.continues_setState (by rcases allowed with state | state <;> rw [state] <;> decide)
  exact h.becomes (idle.trans (continues_publish _ (.inl rfl))) rfl rfl rfl

/-- A run begins. -/
theorem Rests.execute (h : c.Rests) (hasRuntime : Bool) : c.Becomes (c.execute hasRuntime).2 := by
  unfold Controller.execute
  split
  · exact h.becomes_self
  refine allowing_induction h.becomes_self fun allowed => ?_
  have idle : c.status.state = .idle := List.mem_singleton.mp allowed
  have alone {other : Nat} {q : Run} (found : (c.runs.push { feed? := c.loaded? })[other]? = some q)
      (inFlight : q.hasEnded = false) : other = c.runs.size := by
    by_contra ne
    rw [Array.getElem?_push, if_neg ne] at found
    rw [h.ended found] at inFlight
    cases inFlight
  refine ⟨c.continues_setState (by rw [idle]; decide),
    .inr ⟨c.runs.size, { feed? := c.loaded? }, ?_⟩, ?_, fun n lt at_ => ?_⟩
  · exact ⟨Array.getElem?_push_size, rfl, alone, rfl, List.mem_singleton_self _, nofun⟩
  · exact Array.size_push .. ▸ Nat.le_succ _
  · obtain ⟨q, found, inFlight⟩ := isInFlight_iff.mp at_
    exact absurd (alone found inFlight) (Nat.ne_of_lt lt)

/-- What is for a run in flight is refused at rest. -/
theorem Rests.allowing_eq (h : c.Rests) {o : Operation} (forRun : o.isForRun = true)
    {act : Controller → Reply} : (c.allowing o act).2 = c := by
  have refused : c.status.state ∉ o.allowed := fun allowed => by
    have active := Operation.isActive_of_allowed allowed
    rw [forRun, h.state] at active
    cases active
  rw [allowing_of_refused act refused]

theorem Rests.request_eq (h : c.Rests) {o : Operation} (forRun : o.isForRun = true)
    (signal : Signal) : (c.request o signal).2 = c := by
  unfold Controller.request
  split
  · rfl
  · exact h.allowing_eq forRun

/-- Nothing is left to do for a run that has ended. -/
theorem Rests.goes (h : c.Rests) (found : c.runs[number]? = some r) (goes : c.Goes c' number r r') :
    c.Becomes c' := by
  obtain ⟨ended', signal, state, -⟩ := goes.of_ended (h.ended found)
  have rests : c'.Rests := by
    refine ⟨fun {other q} found' => ?_, state ▸ h.state, signal.trans h.signal⟩
    by_cases own : other = number
    · rw [own, goes.found found] at found'
      exact Option.some.inj found' ▸ ended'
    · exact h.ended (goes.found_other own ▸ found')
  refine ⟨.of_follows (.inl state) goes.history, .inl rests, Nat.le_of_eq goes.size.symm,
    fun n _ at_ => ?_⟩
  rw [rests.isInFlight n] at at_
  cases at_

/-! ## What is asked of a run in flight -/

/-- What the run in flight keeps until it takes its next step: it is where it
was, and neither a cancel nor a stop is taken back. -/
structure Keeps (c c' : Controller) (number : Nat) (r r' : Run) : Prop where
  continues : Continues c.history c'.history
  executes : c'.Executes number r'
  size : c'.runs.size = c.runs.size
  point : r'.point = r.point
  cancelled : r.cancelled = true → r'.cancelled = true
  stop : c.signal = .stop → c'.signal = .stop

theorem Executes.keeps_of_untouched (h : c.Executes number r) (untouched : c.Untouched c') :
    ∃ r', c.Keeps c' number r r' :=
  ⟨r, .of_eq untouched.history, h.of_untouched untouched, by rw [untouched.runs], rfl, id,
    fun stop => untouched.signal.trans stop⟩

theorem Executes.keeps_self (h : c.Executes number r) : ∃ r', c.Keeps c number r r' :=
  h.keeps_of_untouched (.refl c)

/-- What is asked of a run in flight is refused, or the run keeps what it has. -/
theorem Executes.keeps_allowing (h : c.Executes number r) {o : Operation}
    {act : Controller → Reply}
    (accepted : c.status.state ∈ o.allowed → ∃ r', c.Keeps (act c).2 number r r') :
    ∃ r', c.Keeps (c.allowing o act).2 number r r' :=
  allowing_induction (P := fun c' => ∃ r', c.Keeps c' number r r') h.keeps_self accepted

/-- What is not for a run in flight is refused. -/
theorem Executes.refuses (h : c.Executes number r) {o : Operation} (other : o.isForRun = false)
    {act : Controller → Reply} : ∃ r', c.Keeps (c.allowing o act).2 number r r' :=
  h.keeps_allowing fun allowed => by
    have active := RunPoint.isActive_of_mem_states h.state
    rw [Operation.isActive_of_allowed allowed, other] at active
    cases active

/-- A signal that is noted by the operation that it stands for. -/
theorem Executes.note (h : c.Executes number r) {o : Operation} {signal : Signal}
    (own : signal.operation? = some o) (allowed : c.status.state ∈ o.allowed) :
    { c with signal }.Executes number r :=
  ⟨h.found, h.inFlight, h.alone, h.token, h.state, fun _ own' =>
    Option.some.inj (own.symm.trans own') ▸ allowed⟩

theorem Executes.request (h : c.Executes number r) {o : Operation} {signal : Signal}
    (own : signal.operation? = some o) : ∃ r', c.Keeps (c.request o signal).2 number r r' := by
  unfold Controller.request
  split
  · exact h.keeps_self
  next none =>
    refine h.keeps_allowing fun allowed => ?_
    exact ⟨r, .refl _, h.note own allowed, rfl, rfl, id, fun stop => absurd stop none⟩

theorem cancelToken_eq (h : c.Executes number r) : c.cancelToken =
    { c with runs := c.runs.modify number fun r => { r with cancelled := true } } := by
  simp [Controller.cancelToken, h.token]

/-- A cancel that is accepted reaches the run in flight. -/
theorem Executes.cancelToken (h : c.Executes number r) :
    c.cancelToken.Executes number { r with cancelled := true } := by
  rw [cancelToken_eq h]
  refine ⟨?_, h.inFlight, fun {other q} found inFlight => ?_, h.token, h.state, h.signal⟩
  · rw [Array.getElem?_modify, if_pos rfl, h.found, Option.map_some]
  · simp only [Array.getElem?_modify] at found
    split at found
    next own => exact own.symm
    next => exact h.alone found inFlight

theorem Executes.cancel (h : c.Executes number r) : ∃ r', c.Keeps c.cancel.2 number r r' := by
  refine h.keeps_allowing fun _ => ⟨{ r with cancelled := true }, ?_⟩
  have executes := h.cancelToken
  dsimp only
  rw [cancelToken_eq h] at executes ⊢
  exact ⟨.refl _, executes, Array.size_modify, rfl, fun _ => rfl, id⟩

/-- The runs that have ended have nothing left to do. -/
theorem Executes.goes_other (h : c.Executes number r) {other : Nat} (ne : other ≠ number)
    {q q' : Run} (found : c.runs[other]? = some q) (goes : c.Goes c' other q q') :
    ∃ r', c.Keeps c' number r r' := by
  have ended : q.hasEnded = true := by
    by_contra inFlight
    exact ne (h.alone found (by simpa using inFlight))
  obtain ⟨ended', signal, state, token⟩ := goes.of_ended ended
  refine ⟨r, .of_follows (.inl state) goes.history, ?_, goes.size, rfl, id,
    fun stop => signal.trans stop⟩
  refine ⟨goes.found_other ne.symm ▸ h.found, h.inFlight, fun {third p} found' inFlight => ?_,
    token.trans h.token, state ▸ h.state, state ▸ signal ▸ h.signal⟩
  by_cases own : third = other
  · rw [own, goes.found found] at found'
    rw [← Option.some.inj found', ended'] at inFlight
    cases inFlight
  · exact h.alone (goes.found_other own ▸ found') inFlight

/-! ## One incident -/

theorem stepRun_of_none (chance : Chance) (none : c.runs[number]? = none) :
    c.stepRun chance number = c := by
  rw [stepRun, none]

/-- Whatever happens to a controller that rests. -/
theorem Rests.meet (h : c.Rests) (i : Incident) : c.Becomes (c.meet i) := by
  cases i with
  | replace | damage => exact h.becomes_untouched ⟨rfl, rfl, rfl, rfl⟩
  | event e =>
    by_cases background : e.isBackground = true
    · exact h.becomes_untouched (c.untouched_after background)
    cases e with
    | powerOn => exact h.powerOn
    | shutDown => exact h.shutDown
    | load program =>
      unfold Controller.meet after
      dsimp only
      split
      · exact h.load program
      · exact h.becomes_self
    | execute hasRuntime => exact h.execute hasRuntime
    | pause | resume | stop => exact h.becomes_of_eq (h.request_eq rfl _)
    | cancel => exact h.becomes_of_eq (h.allowing_eq rfl)
    | reset => exact h.reset
    | stepRun chance number =>
      cases found : c.runs[number]? with
      | none =>
        have same : c.meet (.event (.stepRun chance number)) = c := stepRun_of_none chance found
        rw [same]
        exact h.becomes_self
      | some r =>
        obtain ⟨r', goes⟩ := c.goes_stepRun chance found
        exact h.goes found goes
    | _ => exact absurd rfl background

/-- Whatever happens to a controller that executes a run, but for the next step of this run. -/
theorem Executes.meet (h : c.Executes number r) {i : Incident}
    (other : ∀ chance, i ≠ .event (.stepRun chance number)) :
    ∃ r', c.Keeps (c.meet i) number r r' := by
  cases i with
  | replace | damage => exact h.keeps_of_untouched ⟨rfl, rfl, rfl, rfl⟩
  | event e =>
    by_cases background : e.isBackground = true
    · exact h.keeps_of_untouched (c.untouched_after background)
    cases e with
    | powerOn | shutDown | reset => exact h.refuses rfl
    | load program =>
      unfold Controller.meet after
      dsimp only
      split
      · exact h.refuses rfl
      · exact h.keeps_self
    | execute hasRuntime =>
      unfold Controller.meet after Controller.execute
      dsimp only
      split
      · exact h.keeps_self
      · exact h.refuses rfl
    | pause | resume | stop => exact h.request rfl
    | cancel => exact h.cancel
    | stepRun chance third =>
      have ne : third ≠ number := fun same => other chance (same ▸ rfl)
      cases found : c.runs[third]? with
      | none =>
        have same : c.meet (.event (.stepRun chance third)) = c := stepRun_of_none chance found
        rw [same]
        exact h.keeps_self
      | some q =>
        obtain ⟨q', goes⟩ := c.goes_stepRun chance found
        exact h.goes_other ne found goes
    | _ => exact absurd rfl background

/-- One incident, whatever it is. -/
theorem Orderly.meet (h : c.Orderly) (i : Incident) : c.Becomes (c.meet i) := by
  rcases h with rests | ⟨number, r, executes⟩
  · exact rests.meet i
  by_cases own : ∃ chance, i = .event (.stepRun chance number)
  · obtain ⟨chance, rfl⟩ := own
    obtain ⟨r', goes⟩ := c.goes_stepRun chance executes.found
    obtain ⟨continues, still | ⟨-, rests⟩⟩ := executes.goes goes
    · exact ⟨continues, still.orderly, Nat.le_of_eq goes.size.symm, fun n _ at_ =>
        still.eq_of_isInFlight at_ ▸ executes.isInFlight⟩
    · exact ⟨continues, .inl rests, Nat.le_of_eq goes.size.symm, fun n _ at_ =>
        absurd at_ (Bool.eq_false_iff.mp (rests.isInFlight n))⟩
  · obtain ⟨r', keeps⟩ := executes.meet fun chance same => own ⟨chance, same⟩
    exact ⟨keeps.continues, keeps.executes.orderly, Nat.le_of_eq keeps.size.symm,
      fun n _ at_ => keeps.executes.eq_of_isInFlight at_ ▸ executes.isInFlight⟩

/-- A whole course of incidents. -/
theorem Orderly.course (h : c.Orderly) (incidents : List Incident) :
    c.Becomes (c.course incidents) := by
  induction incidents generalizing c with
  | nil => exact ⟨.refl _, h, Nat.le_refl _, fun _ _ => id⟩
  | cons i later ih =>
    have met := h.meet i
    exact met.trans (ih met.orderly)

theorem orderly_fresh (settings : Settings) : Orderly { settings } :=
  .inl ⟨fun {_ _} found => by simp at found, rfl, rfl⟩

theorem Orderly.rests_of_idle (h : c.Orderly) (idle : c.status.state = .idle) : c.Rests := by
  rcases h with rests | ⟨_, _, executes⟩
  · exact rests
  · have active := RunPoint.isActive_of_mem_states executes.state
    rw [idle] at active
    cases active

/-- At most one run is in flight, and the state is an active one just as long as one is. -/
theorem Orderly.isActive_iff (h : c.Orderly) :
    (∀ m n, c.isInFlight m = true → c.isInFlight n = true → m = n) ∧
      (c.status.state.isActive = true ↔ ∃ n, c.isInFlight n = true) := by
  rcases h with rests | ⟨number, r, executes⟩
  · simp [rests.isInFlight, rests.state]
  · refine ⟨fun m n at_m at_n => ?_, fun _ => ⟨number, executes.isInFlight⟩, fun _ => ?_⟩
    · rw [executes.eq_of_isInFlight at_m, executes.eq_of_isInFlight at_n]
    · exact RunPoint.isActive_of_mem_states executes.state

end

/-- **The state graph.**  Whatever is asked for, and however this is mixed
with the steps of producers, runs, readers and indexes: no status is lost
once it is published, every change of the state is one that is meant, at
most one run is in flight, and the state is an active one just as long. -/
theorem state_graph (settings : Settings) (incidents later : List Incident) :
    let c := course { settings } incidents
    c.history <:+ (c.course later).history ∧ c.history.IsChain Status.Follows ∧
      (∀ m n, c.isInFlight m = true → c.isInFlight n = true → m = n) ∧
      (c.status.state.isActive = true ↔ ∃ n, c.isInFlight n = true) := by
  have now := (orderly_fresh settings).course incidents
  have then_ := now.orderly.course later
  exact ⟨then_.continues.suffix, now.continues.isChain (.singleton _), now.orderly.isActive_iff⟩

/-- A job that waits never rests or pauses at once, and a pause never ends in a failure. -/
example : State.idle ∉ State.waiting.successors ∧ State.paused ∉ State.waiting.successors ∧
    State.failed ∉ State.paused.successors := by decide

end Controller

end GcodeJob
