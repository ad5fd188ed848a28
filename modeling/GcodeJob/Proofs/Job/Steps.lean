import GcodeJob.Proofs.Job.Logs

/-!
# GcodeJob.Proofs.Job.Steps

What one step of a run can do.  A run goes on in the loop, or it leaves it,
and there are four ways out: it notices that it was cancelled, it takes a stop,
its feed is at an end or out of order, and, last, it publishes its end.
`Controller.goes_stepRun` says which, and what is published on the way; all
that is known of the states of a job and of its end is read off it.
-/

namespace GcodeJob

/-! ## Places -/

/-- The state in which a run sleeps for an errand. -/
def Errand.state : Errand → State
  | .index => .waiting
  | .nextCommand | .tick .. => .printing
  | .signal => .paused

/-- The states that an outcome can be decided in. -/
def Outcome.sources : Outcome → List State
  | .completed => [.printing]
  | .stopped => [.printing, .paused]
  | .canceled => [.waiting, .printing, .paused]
  | .failed => [.waiting, .printing]

namespace RunPoint

/-- The states that a run in flight at a place shows. -/
def states : RunPoint → List State
  | .starting | .indexing | .announcing => [.waiting]
  | .heading | .fetching | .polling | .beginning _ | .advancing .. | .recording _ | .checkpoint =>
    [.printing]
  | .holding => [.paused]
  | .dozing errand | .asleep errand _ => [errand.state]
  | .leaving outcome | .concluding outcome => outcome.sources
  | .ended => []

/-- The outcome of a run that is on its way out. -/
def outcome? : RunPoint → Option Outcome
  | .leaving outcome | .concluding outcome => some outcome
  | _ => none

/-- Whether what a run does next depends on its feed. -/
def reads : RunPoint → Bool
  | .starting | .indexing | .fetching => true
  | _ => false

/-- Whether a run looks at its token before it goes on. -/
def looks : RunPoint → Bool
  | .heading | .dozing _ => true
  | _ => false

/-- Whether a run may notice that it was cancelled: where it looks, and in its sleep. -/
def notices : RunPoint → Bool
  | .heading | .dozing _ | .asleep .. => true
  | _ => false

/-- Whether a run takes a stop that waits. -/
def takesStop : RunPoint → Bool
  | .polling | .checkpoint | .holding => true
  | _ => false

/-- Whether a run takes a pause that waits, or the end of one. -/
def takesPause : RunPoint → Bool
  | .checkpoint | .holding => true
  | _ => false

theorem takesStop_of_takesPause {point : RunPoint} (h : point.takesPause = true) :
    point.takesStop = true := by
  cases point <;> first | rfl | cases h

/-- The ways on from place to place on which a run publishes no state. -/
inductive Onward : RunPoint → RunPoint → Prop
  | started : Onward .starting .indexing
  | built : Onward .indexing .announcing
  | building : Onward .indexing (.dozing .index)
  | uncancelled : Onward .heading .fetching
  | ready (command : Issued) : Onward .fetching (.beginning command)
  | empty : Onward .fetching .polling
  | polled : Onward .polling (.dozing .nextCommand)
  | begun (command : Issued) : Onward (.beginning command) (.dozing (.tick command .zero))
  | sleeps (errand : Errand) (moment : Nat) : Onward (.dozing errand) (.asleep errand moment)
  | sleepsOn (errand : Errand) (moment : Nat) :
    Onward (.asleep errand moment) (.asleep errand moment)
  | wakes (errand : Errand) (moment : Nat) : Onward (.asleep errand moment) errand.next
  | ticked (command : Issued) (progress progress' : Single) :
    Onward (.advancing command progress) (.dozing (.tick command progress'))
  | finished (command : Issued) (progress : Single) :
    Onward (.advancing command progress) (.recording command)
  | recorded (command : Issued) : Onward (.recording command) .checkpoint
  | unasked : Onward .checkpoint .heading
  | heldOn : Onward .holding (.dozing .signal)
  | left (outcome : Outcome) : Onward (.leaving outcome) (.concluding outcome)
  | ended : Onward .ended .ended

/-- On the way the state that is shown stays the right one. -/
theorem Onward.mem_states {point point' : RunPoint} (h : point.Onward point') {state : State}
    (mem : state ∈ point.states) : state ∈ point'.states := by
  cases h with
  | wakes errand => cases errand <;> exact mem
  | _ => exact mem

/-- Nothing decides the outcome on the way. -/
theorem Onward.outcome?_eq {point point' : RunPoint} (h : point.Onward point') :
    point'.outcome? = point.outcome? := by
  cases h with
  | wakes errand => cases errand <;> rfl
  | _ => rfl

/-- A run in flight does not end on the way. -/
theorem Onward.ne_ended {point point' : RunPoint} (h : point.Onward point')
    (inFlight : point ≠ .ended) : point' ≠ .ended := by
  cases h with
  | wakes errand => cases errand <;> nofun
  | ended => exact absurd rfl inFlight
  | _ => nofun

end RunPoint

namespace Controller

/-- The outcome that the feed of a run forces on it, whatever is asked for: it
cannot be started, for want of a thread or for another reason, its program
cannot be read, or it is exhausted. -/
def forced? (c : Controller) (r : Run) : Option Outcome :=
  match r.point with
  | .starting =>
    match r.feed?.bind c.feed? with
    | none => some .failed
    | some (feed, p) =>
      match feed.buffer.start (some p.state) with
      | .error _ => some .failed
      | .ok _ => if c.hasThreads then none else some .failed
  | .indexing =>
    match (c.programOf? r).map Program.state with
    | some .built | some .building => none
    | some .failed | some .closed | none => some .failed
  | .fetching =>
    match (r.feed?.bind c.feed?).map fun (feed, _) => feed.buffer.next.1 with
    | some (.ready ..) | some (.empty _) => none
    | some (.exhausted true) => some .completed
    | some (.exhausted false) | none => some .failed
  | _ => none

/-- The feed is asked at three places, and it never cancels or stops a run. -/
theorem forced?_eq_some {c : Controller} {r : Run} {outcome : Outcome}
    (forced : c.forced? r = some outcome) :
    outcome = .failed ∧ (r.point = .starting ∨ r.point = .indexing) ∨
      (outcome = .completed ∨ outcome = .failed) ∧ r.point = .fetching := by
  unfold forced? at forced
  grind

/-- An entry replaced by itself. -/
theorem setIfInBounds_of_getElem? {α : Type} {entries : Array α} {number : Nat} {entry : α}
    (found : entries[number]? = some entry) : entries.setIfInBounds number entry = entries := by
  apply Array.ext_getElem?
  intro n
  rw [Array.getElem?_setIfInBounds]
  split
  next same =>
    have lt := (Array.getElem?_eq_some_iff.mp found).1
    rw [if_pos lt, ← same, found]
  next => rfl

/-! ## One step -/

/-- What a step of a run comes to: the place where it leads, the signal that
still waits, and the state that is shown. -/
inductive Way (c : Controller) (r : Run) : RunPoint → Signal → State → Prop
  | onward {point : RunPoint} : r.point.Onward point → c.forced? r = none →
    (r.point.looks = true → r.cancelled = false) → (r.point.takesStop = true → c.signal ≠ .stop) →
    (r.point.takesPause = true → c.signal = .none) → Way c r point c.signal c.status.state
  | announces : r.point = .announcing → Way c r .heading c.signal .printing
  | notices : r.cancelled = true → r.point.notices = true →
    Way c r (.leaving .canceled) c.signal c.status.state
  | stops : r.point.takesStop = true → c.signal = .stop →
    Way c r (.leaving .stopped) .none c.status.state
  | pauses : r.point.takesPause = true → c.signal = .pause →
    Way c r (.dozing .signal) .none .paused
  | resumes : r.point.takesPause = true → c.signal = .resume →
    Way c r .heading .none .printing
  | forced {outcome : Outcome} : c.forced? r = some outcome →
    Way c r (.leaving outcome) c.signal c.status.state
  | concludes {outcome : Outcome} : r.point = .concluding outcome →
    Way c r .ended .none outcome.state

/-- All statuses, the one shown now first. -/
def history (c : Controller) : List Status := c.status :: c.past

/-- A step of a run, as far as it concerns who asks for what and what is shown. -/
structure Goes (c c' : Controller) (number : Nat) (r r' : Run) : Prop where
  way : c.Way r r'.point c'.signal c'.status.state
  runs : c'.runs = c.runs.setIfInBounds number r'
  cancelled : r'.cancelled = r.cancelled
  token : r'.hasEnded = r.hasEnded → c'.token? = c.token?
  history : c'.history = c.history ∨ c'.past = c.history

section
variable {c : Controller} {number : Nat} {r : Run}

/-- A step that only moves the run, after something has happened to programs and feeds. -/
theorem Goes.of_goTo {c' : Controller} {point : RunPoint}
    (frame : c' = { c with programs := c'.programs, feeds := c'.feeds })
    (way : c.Way r point c.signal c.status.state) :
    c.Goes (c'.goTo number r point) number r { r with point } := by
  rw [frame]
  exact ⟨way, rfl, rfl, fun _ => rfl, .inl rfl⟩

/-- A way on from a place where nothing is looked at and nothing is taken. -/
theorem Way.freely {point : RunPoint} (onward : r.point.Onward point)
    (free : c.forced? r = none) (quiet : r.point.looks = false ∧ r.point.takesStop = false) :
    c.Way r point c.signal c.status.state :=
  .onward onward free (by simp [quiet.1]) (by simp [quiet.2]) fun takes =>
    absurd (RunPoint.takesStop_of_takesPause takes) (by simp [quiet.2])

/-- Elsewhere than where it reads, a run is not concerned with its feed. -/
theorem forced?_eq_none (elsewhere : r.point.reads = false) : c.forced? r = none := by
  unfold forced?
  split
  case h_4 => rfl
  all_goals simp_all [RunPoint.reads]

/-- The same where nothing is read either. -/
theorem Way.quietly {point : RunPoint} (onward : r.point.Onward point)
    (quiet : r.point.reads = false ∧ r.point.looks = false ∧ r.point.takesStop = false) :
    c.Way r point c.signal c.status.state :=
  .freely onward (forced?_eq_none quiet.1) quiet.2

theorem goes_startFeed (at_ : r.point = .starting) :
    ∃ r', c.Goes (c.startFeed number r) number r r' := by
  unfold startFeed
  cases feed : r.feed? with
  | none => exact ⟨_, .of_goTo rfl (.forced (by simp [forced?, at_, feed]))⟩
  | some f =>
    cases found : c.feed? f with
    | none =>
      simpa [found] using ⟨_, .of_goTo rfl (.forced (by simp [forced?, at_, feed, found]))⟩
    | some reader =>
      obtain ⟨reads, p⟩ := reader
      by_cases threads : c.hasThreads = true
      case neg =>
        have forced : c.forced? r = some .failed := by
          cases started : reads.buffer.start (some p.state) <;>
            simp [forced?, at_, feed, found, started, threads]
        simpa [found, threads] using ⟨_, .of_goTo rfl (.forced forced)⟩
      cases started : reads.buffer.start (some p.state) with
      | error e =>
        simpa [found, started, threads] using
          ⟨_, .of_goTo rfl (.forced (by simp [forced?, at_, feed, found, started]))⟩
      | ok buffer =>
        have way : c.Way r .indexing c.signal c.status.state :=
          .freely (at_ ▸ .started) (by simp [forced?, at_, feed, found, started, threads])
            (at_ ▸ ⟨rfl, rfl⟩)
        simpa [found, started, threads] using ⟨_, .of_goTo rfl way⟩

theorem goes_lookAtIndex (at_ : r.point = .indexing) :
    ∃ r', c.Goes (c.lookAtIndex number r) number r r' := by
  refine ⟨_, .of_goTo rfl ?_⟩
  split
  next built =>
    exact .freely (at_ ▸ .built) (by simp [forced?, at_, built]) (at_ ▸ ⟨rfl, rfl⟩)
  next building =>
    exact .freely (at_ ▸ .building) (by simp [forced?, at_, building]) (at_ ▸ ⟨rfl, rfl⟩)
  all_goals exact .forced (by simp [forced?, *])

theorem goes_announce (at_ : r.point = .announcing) :
    ∃ r', c.Goes (c.announce number r) number r r' :=
  ⟨_, .announces at_, rfl, rfl, fun _ => rfl, .inr rfl⟩

theorem goes_head (at_ : r.point = .heading) :
    ∃ r', c.Goes (c.goTo number r (if r.cancelled then .leaving .canceled else .fetching))
      number r r' := by
  refine ⟨_, .of_goTo rfl ?_⟩
  split
  next cancelled => exact .notices cancelled (at_ ▸ rfl)
  next uncancelled =>
    exact .onward (at_ ▸ .uncancelled) (forced?_eq_none (at_ ▸ rfl))
      (fun _ => by simpa using uncancelled) (by simp [at_, RunPoint.takesStop])
      (by simp [at_, RunPoint.takesPause])

theorem goes_fetch (at_ : r.point = .fetching) :
    ∃ r', c.Goes (c.fetch number r) number r r' := by
  unfold fetch
  cases feed : r.feed? with
  | none => exact ⟨_, .of_goTo rfl (.forced (by simp [forced?, at_, feed]))⟩
  | some f =>
    cases found : c.feed? f with
    | none =>
      simpa [found] using ⟨_, .of_goTo rfl (.forced (by simp [forced?, at_, feed, found]))⟩
    | some reader =>
      obtain ⟨reads, p⟩ := reader
      simp only [Option.bind_some, found, Option.map_some]
      refine ⟨_, .of_goTo rfl ?_⟩
      have free (h : c.forced? r = none) {point : RunPoint} (onward : r.point.Onward point) :
          c.Way r point c.signal c.status.state := .freely onward h (at_ ▸ ⟨rfl, rfl⟩)
      have forced (outcome : Outcome) (h : c.forced? r = some outcome) :
          c.Way r (.leaving outcome) c.signal c.status.state := .forced h
      simp only [forced?, at_, feed, Option.bind_some, found, Option.map_some] at free forced
      generalize reads.buffer.next.1 = answer at free forced
      cases answer with
      | ready position command => exact free rfl (.ready command)
      | empty position => exact free rfl .empty
      | exhausted reachedEnd => cases reachedEnd <;> exact forced _ rfl

theorem goes_poll (at_ : r.point = .polling) : ∃ r', c.Goes (c.poll number r) number r r' := by
  unfold poll
  split
  next pending => exact ⟨_, .stops (at_ ▸ rfl) pending, rfl, rfl, fun _ => rfl, .inl rfl⟩
  next none =>
    exact ⟨_, .of_goTo rfl (.onward (at_ ▸ .polled) (forced?_eq_none (at_ ▸ rfl))
      (by simp [at_, RunPoint.looks]) (fun _ => none) (by simp [at_, RunPoint.takesPause]))⟩

theorem goes_beginCommand {command : Issued} (at_ : r.point = .beginning command) :
    ∃ r', c.Goes (c.beginCommand number r command) number r r' :=
  ⟨_, .quietly (at_ ▸ .begun command) (at_ ▸ ⟨rfl, rfl, rfl⟩), rfl, rfl, fun _ => rfl, .inr rfl⟩

theorem goes_doze {errand : Errand} (at_ : r.point = .dozing errand) :
    ∃ r', c.Goes (c.doze number r errand) number r r' := by
  refine ⟨_, .of_goTo rfl ?_⟩
  split
  next cancelled => exact .notices cancelled (at_ ▸ rfl)
  next uncancelled =>
    exact .onward (at_ ▸ .sleeps ..) (forced?_eq_none (at_ ▸ rfl))
      (fun _ => by simpa using uncancelled) (by simp [at_, RunPoint.takesStop])
      (by simp [at_, RunPoint.takesPause])

theorem goes_wake (chance : Chance) (found : c.runs[number]? = some r) {errand : Errand}
    {moment : Nat} (at_ : r.point = .asleep errand moment) :
    ∃ r', c.Goes (c.wake chance number r errand moment) number r r' := by
  unfold wake
  split
  next =>
    exact ⟨_, .of_goTo rfl (.quietly (at_ ▸ .wakes errand moment) (at_ ▸ ⟨rfl, rfl, rfl⟩))⟩
  next =>
    split
    next cancelled => exact ⟨_, .of_goTo rfl (.notices cancelled (at_ ▸ rfl))⟩
    next =>
      have same := setIfInBounds_of_getElem? found
      exact ⟨r, .quietly (at_ ▸ .sleepsOn errand moment) (at_ ▸ ⟨rfl, rfl, rfl⟩), same.symm, rfl,
        fun _ => rfl, .inl rfl⟩

theorem goes_tick (chance : Chance) {command : Issued} {progress : Single}
    (at_ : r.point = .advancing command progress) :
    ∃ r', c.Goes (c.tick chance number r command progress) number r r' := by
  unfold tick
  dsimp only
  split
  next =>
    exact ⟨_, .quietly (at_ ▸ .finished command progress) (at_ ▸ ⟨rfl, rfl, rfl⟩), rfl, rfl,
      fun _ => rfl, .inr rfl⟩
  next =>
    exact ⟨_, .quietly (at_ ▸ .ticked command progress _) (at_ ▸ ⟨rfl, rfl, rfl⟩), rfl, rfl,
      fun _ => rfl, .inr rfl⟩

theorem goes_recordTime {command : Issued} (at_ : r.point = .recording command) :
    ∃ r', c.Goes (c.recordTime number r command) number r r' := by
  have way : c.Way r .checkpoint c.signal c.status.state :=
    .quietly (at_ ▸ .recorded command) (at_ ▸ ⟨rfl, rfl, rfl⟩)
  unfold recordTime
  dsimp only
  split
  next f _ =>
    rw [onFeed_eq]
    exact ⟨_, way, rfl, rfl, fun _ => rfl, .inr rfl⟩
  next => exact ⟨_, way, rfl, rfl, fun _ => rfl, .inr rfl⟩

theorem goes_check (at_ : r.point = .checkpoint) : ∃ r', c.Goes (c.check number r) number r r' := by
  unfold check takeSignal
  cases pending : c.signal with
  | none =>
    have way : c.Way r .heading c.signal c.status.state :=
      .onward (at_ ▸ .unasked) (forced?_eq_none (at_ ▸ rfl)) (by simp [at_, RunPoint.looks])
        (by simp [pending]) fun _ => pending
    rw [pending] at way
    exact ⟨_, way, rfl, rfl, fun _ => rfl, .inl rfl⟩
  | stop => exact ⟨_, .stops (at_ ▸ rfl) pending, rfl, rfl, fun _ => rfl, .inl rfl⟩
  | pause => exact ⟨_, .pauses (at_ ▸ rfl) pending, rfl, rfl, fun _ => rfl, .inr rfl⟩
  | resume => exact ⟨_, .resumes (at_ ▸ rfl) pending, rfl, rfl, fun _ => rfl, .inr rfl⟩

theorem goes_hold (at_ : r.point = .holding) : ∃ r', c.Goes (c.hold number r) number r r' := by
  unfold hold takeSignal
  cases pending : c.signal with
  | none =>
    have way : c.Way r (.dozing .signal) c.signal c.status.state :=
      .onward (at_ ▸ .heldOn) (forced?_eq_none (at_ ▸ rfl)) (by simp [at_, RunPoint.looks])
        (by simp [pending]) fun _ => pending
    rw [pending] at way
    exact ⟨_, way, rfl, rfl, fun _ => rfl, .inl rfl⟩
  | stop => exact ⟨_, .stops (at_ ▸ rfl) pending, rfl, rfl, fun _ => rfl, .inl rfl⟩
  | pause => exact ⟨_, .pauses (at_ ▸ rfl) pending, rfl, rfl, fun _ => rfl, .inr rfl⟩
  | resume => exact ⟨_, .resumes (at_ ▸ rfl) pending, rfl, rfl, fun _ => rfl, .inr rfl⟩

theorem goes_leave {outcome : Outcome} (at_ : r.point = .leaving outcome) :
    ∃ r', c.Goes (c.leave number r outcome) number r r' := by
  have way : c.Way r (.concluding outcome) c.signal c.status.state :=
    .quietly (at_ ▸ .left outcome) (at_ ▸ ⟨rfl, rfl, rfl⟩)
  unfold leave
  dsimp only
  split <;> exact ⟨_, .of_goTo rfl way⟩

theorem goes_conclude {outcome : Outcome} (at_ : r.point = .concluding outcome) :
    ∃ r', c.Goes (c.conclude number r outcome) number r r' := by
  refine ⟨_, ?_, rfl, rfl, fun same => ?_, .inr rfl⟩
  · have way : c.Way r .ended .none outcome.state := .concludes at_
    cases outcome <;> exact way
  · simp [Run.hasEnded, at_] at same

/-- **One step of a run**, whatever it finds. -/
theorem goes_stepRun (c : Controller) (chance : Chance) {number : Nat} {r : Run}
    (found : c.runs[number]? = some r) : ∃ r', c.Goes (c.stepRun chance number) number r r' := by
  unfold stepRun
  rw [found]
  dsimp only
  cases at_ : r.point with
  | starting => exact goes_startFeed at_
  | indexing => exact goes_lookAtIndex at_
  | announcing => exact goes_announce at_
  | heading => exact goes_head at_
  | fetching => exact goes_fetch at_
  | polling => exact goes_poll at_
  | beginning => exact goes_beginCommand at_
  | dozing => exact goes_doze at_
  | asleep => exact goes_wake chance found at_
  | advancing => exact goes_tick chance at_
  | recording => exact goes_recordTime at_
  | checkpoint => exact goes_check at_
  | holding => exact goes_hold at_
  | leaving => exact goes_leave at_
  | concluding => exact goes_conclude at_
  | ended =>
    have same := setIfInBounds_of_getElem? found
    exact ⟨r, .quietly (at_ ▸ .ended) (at_ ▸ ⟨rfl, rfl, rfl⟩), same.symm, rfl, fun _ => rfl,
      .inl rfl⟩

end

end Controller

end GcodeJob
