import GcodeJob.CommandLine.Invocation
import GcodeJob.Proofs.Job.Schedule
import GcodeJob.Proofs.Terminal.Reporter

/-!
# GcodeJob.Proofs.CommandLine.Session

How a session ends.  A session takes notice of one thing at a time, and
between two of them anything may go on in the background; statuses published
meanwhile are seen late or not at all.  As long as its job is in flight a
session looks and waits, and once the job has ended nothing that is asked of
it changes the controller any more (`Session.Stage`).

**Main result** (`Session.landing`): a session that is over leaves a controller
that can be put away, and a code that tells how the job ended.  A session that
takes its turns by the clock is one of those it speaks of
(`Session.exists_course_run`).
-/

namespace GcodeJob

/-! ## What may happen during a session -/

namespace Controller

/-- Whether nothing is asked for but what is for a run in flight. -/
def Incident.isForRun : Incident → Bool
  | .event e => e.operation?.all Operation.isForRun
  | .replace .. | .damage .. => true

section
variable {c : Controller}

/-- At rest neither controls nor what goes on by itself shows. -/
theorem Rests.untouched_meet (h : c.Rests) {i : Incident} (forRun : i.isForRun = true) :
    c.Untouched (c.meet i) := by
  have unchanged (same : c.meet i = c) : c.Untouched (c.meet i) := by
    rw [same]
    exact .refl c
  cases i with
  | replace | damage => exact ⟨rfl, rfl, rfl, rfl⟩
  | event e =>
    by_cases background : e.isBackground = true
    · exact c.untouched_after background
    cases e with
    | pause | resume | stop => exact unchanged (h.request_eq rfl _)
    | cancel => exact unchanged (h.allowing_eq rfl)
    | stepRun chance number =>
      refine unchanged ?_
      unfold Controller.meet after
      dsimp only
      cases found : c.runs[number]? with
      | none => exact stepRun_of_none chance found
      | some r => simp [stepRun, found, Run.hasEnded_iff.mp (h.ended found)]
    | powerOn | shutDown | load | execute | reset => cases forRun
    | _ => exact absurd rfl background

/-! ## Before and after a job -/

/-- What an idle controller loads leaves it idle. -/
theorem exists_load_of_idle (idle : c.status.state = .idle) (program : Nat) :
    ∃ c', c.load program = (.ok (), c') ∧ c'.status.state = .idle ∧ c'.runs = c.runs := by
  have untouched := c.stopLoaded.untouched_closeReplaced program
  have stopped := c.untouched_stopLoaded
  refine ⟨_, if_pos (by rw [idle]; rfl), ?_, untouched.runs.trans stopped.runs⟩
  exact (congrArg Status.state (untouched.status.trans stopped.status)).trans idle

/-- What an idle controller executes is the next run. -/
theorem Rests.exists_execute (h : c.Rests) (idle : c.status.state = .idle) :
    ∃ c' r, c.execute true = (.ok (), c') ∧ c'.Executes c.runs.size r := by
  have begun : c.execute true = (.ok (), (c.setState .waiting).beginRun) := by
    rw [execute_eq]
    exact if_pos (by rw [idle]; rfl)
  have orderly := (h.execute true).orderly
  rw [begun] at orderly
  have inFlight : (c.setState .waiting).beginRun.isInFlight c.runs.size = true :=
    isInFlight_iff.mpr ⟨{ feed? := c.loaded? }, Array.getElem?_push_size, rfl⟩
  obtain ⟨r, executes⟩ := orderly.executes inFlight
  exact ⟨_, r, begun, executes⟩

theorem shutDown_of_idle (idle : c.status.state = .idle) :
    c.shutDown.1 = .ok () ∧ c.shutDown.2.status.state = .shutdown := by
  have done : c.shutDown =
      (.ok (), { (c.setState .shutdown).stopLoaded with loaded? := none }) :=
    if_pos (by rw [idle]; rfl)
  rw [done]
  exact ⟨rfl, congrArg Status.state (untouched_stopLoaded _).status⟩

theorem exists_reset (ended : c.status.state ∈ Operation.reset.allowed) :
    ∃ c', c.reset = (.ok (), c') ∧ c'.status.state = .idle :=
  ⟨_, if_pos (List.contains_iff_mem.mpr ended), rfl⟩

end

end Controller

namespace Session

/-! ## Sessions, one event at a time -/

/-- What a session may take notice of, and what may go on meanwhile. -/
inductive Event
  /-- It goes on by itself, or because of a change of the status. -/
  | goOn
  /-- A control is heard. -/
  | hear (control : Control)
  /-- No more controls will come. -/
  | hangUp
  | interrupt
  /-- Something happens in the background. -/
  | meanwhile (i : Controller.Incident)

/-- What an event makes of a session.  It is heard only while the session
waits, and in the background nothing is asked for that would begin a job or
put the controller away. -/
def after (s : Session) (e : Event) : Session :=
  match e, s.point with
  | .meanwhile i, _ => if i.isForRun then s.background (·.meet i) else s
  | .goOn, .waiting => if s.hasNews then { s with point := .looking } else s
  | .goOn, _ => s.notice
  | .hear control, .waiting => if s.hears then s.hear control else s
  | .hangUp, .waiting => if s.hears then s.stopHearing else s
  | .interrupt, .waiting => if s.interrupted then s else s.interrupt
  | _, _ => s

/-- What events, one after the other, make of a session. -/
def course (s : Session) (events : List Event) : Session := events.foldl after s

/-- A run ends in the course of a session, with the outcome that it had come to. -/
def EndsAs (s : Session) (number : Nat) (outcome : Outcome) (events : List Event) : Prop :=
  ∃ before e after r, events = before ++ e :: after ∧
    (s.course before).controller.runs[number]? = some r ∧ r.point = .concluding outcome ∧
    (s.course (before ++ [e])).controller.isInFlight number = false

section
variable {s s' : Session} {number : Nat} {outcome : Outcome} {events : List Event}

theorem course_cons (s : Session) (e : Event) (events : List Event) :
    s.course (e :: events) = (s.after e).course events := rfl

theorem course_concat (s : Session) (events : List Event) (e : Event) :
    s.course (events ++ [e]) = (s.course events).after e := List.foldl_append

theorem EndsAs.concat (h : s.EndsAs number outcome events) (e : Event) :
    s.EndsAs number outcome (events ++ [e]) := by
  obtain ⟨before, ending, after, r, rfl, found, concluding, ended⟩ := h
  exact ⟨before, ending, after ++ [e], r, by simp, found, concluding, ended⟩

/-- What one event does to the controller and to the place of a session, its
output being one that does not fail. -/
inductive Moves (s s' : Session) : Prop
  | stays (controller : s'.controller = s.controller) (point : s'.point = s.point)
  | meets (i : Controller.Incident) (forRun : i.isForRun = true)
    (controller : s'.controller = s.controller.meet i)
    (point : s'.point = s.point ∨ s.point = .waiting ∧ s'.point = .looking)
  | looks (at_ : s.point = .looking) (controller : s'.controller = s.controller)
    (point : s'.point = if s.controller.status.state.isActive then .waiting else .joining)
  | returns (at_ : s.point = .waiting) (controller : s'.controller = s.controller)
    (point : s'.point = .looking)
  | joins (at_ : s.point = .joining) (controller : s'.controller = s.controller)
    (point : s'.point = .finishing)
  | finishes (at_ : s.point = .finishing) (controller : s'.controller = s.controller)
    (point : s'.point = .over (.ok s.controller.status))

theorem exists_report (h : s.reporter.sink.Works) (next : SessionPoint) :
    ∃ reporter, s.report next = { s with reporter, point := next } ∧ reporter.sink.Works := by
  unfold report
  split
  next => exact ⟨s.reporter, rfl, h⟩
  next p _ =>
    obtain ⟨reporter, reported, works⟩ := Reporter.exists_report p s.controller.status h
    refine ⟨reporter, ?_, works⟩
    rw [reported]

theorem exists_finish (h : s.reporter.sink.Works) :
    ∃ reporter, s.finish = { s with reporter, point := .over (.ok s.controller.status) } ∧
      reporter.sink.Works := by
  obtain ⟨reporter, reported, works⟩ := exists_report h (.over (.ok s.controller.status))
  unfold finish
  dsimp only
  rw [reported]
  dsimp only
  cases s.controller.programs[s.program]? with
  | none => exact ⟨reporter, rfl, works⟩
  | some p =>
    obtain ⟨reporter', finished, works⟩ := Reporter.exists_finish p works
    refine ⟨reporter', ?_, works⟩
    dsimp only
    rw [finished]

/-- A control is passed on to the controller, or it only makes the session look again. -/
theorem moves_hear (at_ : s.point = .waiting) (control : Control) : s.Moves (s.hear control) := by
  cases control with
  | help => exact .returns at_ rfl rfl
  | pause => exact .meets (.event .pause) rfl rfl (.inr ⟨at_, rfl⟩)
  | resume => exact .meets (.event .resume) rfl rfl (.inr ⟨at_, rfl⟩)
  | stop => exact .meets (.event .stop) rfl rfl (.inr ⟨at_, rfl⟩)
  | cancel => exact .meets (.event .cancel) rfl rfl (.inr ⟨at_, rfl⟩)

theorem moves_notice (h : s.reporter.sink.Works) (elsewhere : s.point ≠ .waiting) :
    s.Moves s.notice ∧ s.notice.reporter.sink.Works := by
  unfold notice
  split
  next at_ =>
    obtain ⟨reporter, reported, works⟩ := exists_report
      (s := { s with seen := s.controller.published }) h
      (if s.controller.status.state.isActive then .waiting else .joining)
    rw [look, reported]
    exact ⟨.looks at_ rfl rfl, works⟩
  next at_ => exact absurd at_ elsewhere
  next at_ =>
    unfold join
    split
    · exact ⟨.joins at_ rfl rfl, h⟩
    · exact ⟨.stays rfl rfl, h⟩
  next at_ =>
    obtain ⟨reporter, finished, works⟩ := exists_finish h
    rw [finished]
    exact ⟨.finishes at_ rfl rfl, works⟩
  next => exact ⟨.stays rfl rfl, h⟩

/-- One event, whatever it is. -/
theorem moves_after (h : s.reporter.sink.Works) (e : Event) :
    s.Moves (s.after e) ∧ (s.after e).reporter.sink.Works := by
  unfold after
  split
  next i =>
    split
    next forRun => exact ⟨.meets i forRun rfl (.inl rfl), h⟩
    next => exact ⟨.stays rfl rfl, h⟩
  next at_ =>
    split
    · exact ⟨.returns at_ rfl rfl, h⟩
    · exact ⟨.stays rfl rfl, h⟩
  next elsewhere => exact moves_notice h elsewhere
  next control at_ =>
    split
    · refine ⟨moves_hear at_ control, ?_⟩
      cases control <;> exact h
    · exact ⟨.stays rfl rfl, h⟩
  next at_ =>
    split
    · exact ⟨.returns at_ rfl rfl, h⟩
    · exact ⟨.stays rfl rfl, h⟩
  next at_ =>
    split
    · exact ⟨.stays rfl rfl, h⟩
    · exact ⟨.meets (.event .cancel) rfl rfl (.inr ⟨at_, rfl⟩), h⟩
  next => exact ⟨.stays rfl rfl, h⟩

/-! ## How far a session has come -/

/-- Either the job of a session is in flight, and the session looks and waits,
or it has ended with an outcome, which the controller shows from then on. -/
inductive Stage (s : Session) (number : Nat) : Option Outcome → Prop
  | running {r : Run} (executes : s.controller.Executes number r)
    (point : s.point = .looking ∨ s.point = .waiting) : Stage s number none
  | landed {outcome : Outcome} (rests : s.controller.Rests)
    (state : s.controller.status.state = outcome.state)
    (result : ∀ result, s.point = .over result → result = .ok s.controller.status) :
    Stage s number (some outcome)

/-- While the job is in flight, any event leaves it so or ends it. -/
theorem Stage.moves_running (h : s.Stage number none) (moves : s.Moves s') :
    s'.Stage number none ∨ ∃ outcome r, s'.Stage number (some outcome) ∧
      s.controller.runs[number]? = some r ∧ r.point = .concluding outcome ∧
      s'.controller.isInFlight number = false := by
  obtain ⟨executes, point⟩ := h
  cases moves with
  | stays controller same => exact .inl (.running (controller ▸ executes) (same ▸ point))
  | meets i _ controller point' =>
    have place : s'.point = .looking ∨ s'.point = .waiting := by
      rcases point' with same | ⟨-, looking⟩
      · exact same ▸ point
      · exact .inl looking
    rcases executes.meet_or_ends i with ⟨r', still⟩ | ⟨ends, rests⟩
    · exact .inl (.running (controller ▸ still) place)
    · obtain ⟨outcome, concluding, state, -⟩ := executes.status_of_ends ends
      rw [← controller] at rests state
      refine .inr ⟨outcome, _, .landed rests state fun result there => ?_, executes.found,
        concluding, rests.isInFlight number⟩
      rcases place with place | place <;> cases there.symm.trans place
  | looks _ controller point' =>
    rw [RunPoint.isActive_of_mem_states executes.state] at point'
    exact .inl (.running (controller ▸ executes) (.inr point'))
  | returns _ controller looking => exact .inl (.running (controller ▸ executes) (.inl looking))
  | joins at_ | finishes at_ => rcases point with point | point <;> cases at_.symm.trans point

/-- Once the job has ended, no event brings anything back. -/
theorem Stage.moves_landed (h : s.Stage number (some outcome)) (moves : s.Moves s') :
    s'.Stage number (some outcome) := by
  obtain _ | ⟨rests, state, result⟩ := h
  cases moves with
  | stays controller same =>
    exact .landed (controller ▸ rests) (controller ▸ state) (controller ▸ same ▸ result)
  | meets i forRun controller point =>
    have untouched := rests.untouched_meet forRun
    rw [← controller] at untouched
    refine .landed (rests.of_untouched untouched) (untouched.status ▸ state) fun last there => ?_
    rcases point with same | ⟨-, looking⟩
    · rw [untouched.status]
      exact result last (same ▸ there)
    · cases there.symm.trans looking
  | looks _ controller point =>
    refine .landed (controller ▸ rests) (controller ▸ state) fun last there => ?_
    rw [point] at there
    split at there <;> cases there
  | returns _ controller point | joins _ controller point =>
    exact .landed (controller ▸ rests) (controller ▸ state) fun _ there => by
      cases there.symm.trans point
  | finishes _ controller point =>
    refine .landed (controller ▸ rests) (controller ▸ state) fun last there => ?_
    rw [controller]
    exact SessionPoint.over.inj (there.symm.trans point)

/-- From a job in flight on, whatever happens. -/
theorem Stage.course (h : s.Stage number none) (works : s.reporter.sink.Works)
    (events : List Event) :
    (s.course events).reporter.sink.Works ∧ ∃ outcome?, (s.course events).Stage number outcome? ∧
      ∀ outcome, outcome? = some outcome → s.EndsAs number outcome events := by
  induction events using List.reverseRecOn with
  | nil => exact ⟨works, none, h, nofun⟩
  | append_singleton before e ih =>
    obtain ⟨works, outcome?, stage, ended⟩ := ih
    obtain ⟨moves, works⟩ := moves_after works e
    rw [course_concat]
    refine ⟨works, ?_⟩
    cases outcome? with
    | some outcome =>
      exact ⟨some outcome, stage.moves_landed moves, fun _ same => (ended _ same).concat e⟩
    | none =>
      rcases stage.moves_running moves with running | ⟨outcome, r, landed, found, concluding, gone⟩
      · exact ⟨none, running, nofun⟩
      · refine ⟨some outcome, landed, fun _ same => Option.some.inj same ▸ ?_⟩
        exact ⟨before, e, [], r, rfl, found, concluding, by rwa [course_concat]⟩

/-- A session that begins on an idle controller has its job in flight. -/
theorem stage_start {c : Controller} (rests : c.Rests) (idle : c.status.state = .idle)
    (program : Nat) (sink : Sink) :
    (start c program sink).Stage c.runs.size none ∧
      (start c program sink).reporter.sink = sink := by
  obtain ⟨loaded, load, still_idle, runs⟩ := Controller.exists_load_of_idle idle program
  have loaded_rests : loaded.Rests := by
    have orderly := (rests.load program).orderly
    rw [load] at orderly
    exact orderly.rests_of_idle still_idle
  obtain ⟨begun, r, execute, executes⟩ := loaded_rests.exists_execute still_idle
  rw [runs] at executes
  unfold start
  dsimp only
  rw [load]
  dsimp only
  rw [execute]
  exact ⟨.running executes (.inl rfl), rfl⟩

/-! ## After a session -/

/-- What a job leaves behind can be put away. -/
theorem putAway_of_ended {c : Controller} (state : c.status.state = outcome.state) :
    (c.status.state ≠ .idle → c.reset.1 = .ok ()) ∧
      (putAway c).1 = .ok () ∧ (putAway c).2.status.state = .shutdown := by
  unfold putAway
  by_cases idle : c.status.state = .idle
  · rw [if_pos idle]
    exact ⟨fun other => absurd idle other, Controller.shutDown_of_idle idle⟩
  · have ended : c.status.state ∈ Operation.reset.allowed := by
      rw [state] at idle ⊢
      cases outcome <;> first | decide | exact absurd rfl idle
    obtain ⟨c', reset, idle'⟩ := Controller.exists_reset ended
    rw [if_neg idle, reset]
    exact ⟨fun _ => rfl, Controller.shutDown_of_idle idle'⟩

/-- The code of a session that is over tells the state of its job. -/
theorem exists_exit_of_ended {status : Status} (result : s.result? = some (.ok status))
    (put_away : (putAway s.controller).1 = .ok ()) :
    ∃ exit, Exit.ofSession? s = some exit ∧ (exit.code = 0 ↔ status.state = .idle) := by
  rw [Exit.ofSession?, result]
  generalize putAway s.controller = reply at put_away ⊢
  obtain ⟨answer, c⟩ := reply
  obtain rfl : answer = .ok () := put_away
  refine ⟨_, rfl, ?_⟩
  dsimp only
  split <;> simp [*]

end

/-- **The session lands.**  On an idle controller a session is begun with any
program, on an output that does not fail.  Whatever is heard, and whatever goes
on meanwhile: once the session is over, it gives the current status; the state
is idle, failed or canceled, and no run is in flight.  So the controller can be
reset if it is not idle, and shut down, and the code is zero just if the job was
completed or stopped. -/
theorem landing (settings : Settings) (incidents : List Controller.Incident) (program : Nat)
    (sink : Sink) (events : List Event) {result : Except Error Status} :
    let c := Controller.course { settings } incidents
    let started := start c program sink
    let s := started.course events
    c.status.state = .idle → sink.Works → s.result? = some result →
      result = .ok s.controller.status ∧
      s.controller.status.state ∈ [.idle, .failed, .canceled] ∧
      (∀ number, s.controller.isInFlight number = false) ∧
      (s.controller.status.state ≠ .idle → s.controller.reset.1 = .ok ()) ∧
      (putAway s.controller).1 = .ok () ∧
      (putAway s.controller).2.status.state = .shutdown ∧
      ∃ outcome exit, started.EndsAs c.runs.size outcome events ∧
        Exit.ofSession? s = some exit ∧
        (exit.code = 0 ↔ outcome = .completed ∨ outcome = .stopped) := by
  intro c started s idle works is_result
  have rests : c.Rests :=
    ((Controller.orderly_fresh settings).course incidents).orderly.rests_of_idle idle
  obtain ⟨running, output⟩ := stage_start rests idle program sink
  have works : started.reporter.sink.Works := output ▸ works
  obtain ⟨-, outcome?, stage, ended⟩ := running.course works events
  have place : s.point = .over result := by
    unfold result? at is_result
    split at is_result
    next at_ => exact at_.trans (congrArg SessionPoint.over (Option.some.inj is_result))
    next => cases is_result
  cases stage with
  | running _ point => rcases point with point | point <;> cases place.symm.trans point
  | @landed outcome rests state last =>
    obtain rfl := last result place
    obtain ⟨reset, put_away, off⟩ := putAway_of_ended state
    obtain ⟨exit, is_exit, code⟩ := exists_exit_of_ended is_result put_away
    refine ⟨rfl, ?_, rests.isInFlight, reset, put_away, off, outcome, exit, ended outcome rfl,
      is_exit, code.trans ?_⟩
    · rw [state]
      cases outcome <;> decide
    · rw [state]
      cases outcome <;> decide

/-- A pause that comes too early, and an interrupt while the job waits for its index. -/
theorem landing_after_interrupt :
    let file : RegularFile := ⟨⟨#[71, 49, 10]⟩, by decide, .whole⟩
    let incidents : List Controller.Incident :=
      [.event .powerOn, .event (.open "job" (.file file) ⟨9, 1⟩)]
    let step : Event := .meanwhile (.event (.stepRun {} 0))
    let events : List Event :=
      [.goOn, .hear .pause, .goOn, step, step, .interrupt, step, step, step, .goOn, .goOn, .goOn]
    let c := Controller.course { settings := {} } incidents
    let s := (start c 0 {}).course events
    ∃ status, s.result? = some (.ok status) ∧ status.state = .canceled ∧
      (putAway s.controller).1 = .ok () ∧ (putAway s.controller).2.status.state = .shutdown := by
  intro file incidents step events c s
  have idle : c.status.state = .idle := by decide +kernel
  have is_over : s.result?.isSome = true := by decide +kernel
  have canceled : s.controller.status.state = .canceled := by decide +kernel
  obtain ⟨result, is_result⟩ := Option.isSome_iff_exists.mp is_over
  have at_s : (start (Controller.course { settings := {} } incidents) 0 {}).course events = s := rfl
  have landed := landing {} incidents 0 {} events idle ⟨rfl, rfl⟩ is_result
  rw [at_s] at landed
  clear_value s
  obtain ⟨rfl, -, -, -, put_away, off, -⟩ := landed
  exact ⟨_, is_result, canceled, put_away, off⟩

/-! ## A session by the clock -/

section
variable {s s' : Session} {o o' : Operator} {chance : Chance}

/-- What goes on by itself is what happens in the background. -/
theorem exists_course_background {c : Controller} (goes : s.controller.GoesOnTo c) :
    ∃ events, s.background (fun _ => c) = s.course events := by
  obtain ⟨happened, unasked, rfl⟩ := goes
  refine ⟨happened.map fun e => .meanwhile (.event e), ?_⟩
  induction happened generalizing s with
  | nil => rfl
  | cons e later ih =>
    have forRun : (Controller.Incident.event e).isForRun = true := by
      simp [Controller.Incident.isForRun, unasked e List.mem_cons_self]
    have step : s.after (.meanwhile (.event e)) = s.background (·.meet (.event e)) := if_pos forRun
    have rest := ih (s := s.background (·.meet (.event e)))
      fun e mem => unasked e (List.mem_cons_of_mem _ mem)
    rw [List.map_cons, List.map_cons, course_cons, step, ← rest]
    rfl

@[simp] theorem hears_report (s : Session) (next : SessionPoint) :
    (s.report next).hears = s.hears := by
  unfold report
  split
  · rfl
  · split <;> rfl

@[simp] theorem hears_finish (s : Session) : s.finish.hears = s.hears := by
  unfold finish
  dsimp only
  split
  · split <;> simp
  · simp

/-- What a session that waits takes notice of while no control waits to be heard. -/
theorem exists_course_wait (at_ : s.point = .waiting) (none : o.controls = [])
    (turn : s.turn? chance o = some (o', s')) : o' = o ∧ ∃ events, s' = s.course events := by
  simp only [turn?, at_, none] at turn
  split at turn
  next stops =>
    cases turn
    exact ⟨rfl, [.hangUp], by simp [course, after, at_, (Bool.and_eq_true_iff.mp stops).1]⟩
  next =>
    split at turn
    next news =>
      cases turn
      exact ⟨rfl, [.goOn], by simp [course, after, at_, news]⟩
    next =>
      split at turn
      next due =>
        cases turn
        have still : s.interrupted = false := by
          refine Bool.eq_false_iff.mpr fun interrupted => ?_
          simp [pendingInterrupt?, interrupted] at due
        exact ⟨rfl, [.interrupt], by simp [course, after, at_, still]⟩
      next =>
        split at turn
        next c turned =>
          cases turn
          exact ⟨rfl, exists_course_background (Controller.goesOnTo_turn? turned)⟩
        next =>
          obtain ⟨moment, -, eq⟩ := Option.map_eq_some_iff.mp turn
          cases eq
          exact ⟨rfl, exists_course_background
            (Controller.goesOnTo_after _ (e := .advanceTo moment) rfl)⟩

/-- One turn is a course of events, and controls are left only while they may still come. -/
theorem exists_course_turn (turn : s.turn? chance o = some (o', s'))
    (hears : o.controls ≠ [] → s.hears = true) :
    (o'.controls ≠ [] → s'.hears = true) ∧ ∃ events, s' = s.course events := by
  cases at_ : s.point with
  | «over» => simp [turn?, at_] at turn
  | looking =>
    obtain ⟨rfl, rfl⟩ : o = o' ∧ s.look = s' := by simpa [turn?, at_] using turn
    exact ⟨by simpa [look] using hears, [.goOn], by simp [course, after, at_, notice]⟩
  | finishing =>
    obtain ⟨rfl, rfl⟩ : o = o' ∧ s.finish = s' := by simpa [turn?, at_] using turn
    exact ⟨by simpa using hears, [.goOn], by simp [course, after, at_, notice]⟩
  | joining =>
    simp only [turn?, at_] at turn
    split at turn
    next ended =>
      cases turn
      exact ⟨by simpa [join, ended] using hears, [.goOn], by simp [course, after, at_, notice]⟩
    next =>
      obtain ⟨c, turned, eq⟩ := Option.map_eq_some_iff.mp turn
      cases eq
      exact ⟨hears, exists_course_background (Controller.goesOnTo_turn? turned)⟩
  | waiting =>
    cases waits : o.controls with
    | nil =>
      obtain ⟨rfl, events⟩ := exists_course_wait at_ waits turn
      exact ⟨fun some => absurd waits some, events⟩
    | cons control rest =>
      obtain ⟨rfl, rfl⟩ : { o with controls := rest } = o' ∧ s.hear control = s' := by
        simpa [turn?, at_, waits] using turn
      have open_ : s.hears = true := hears (by simp [waits])
      refine ⟨fun _ => ?_, [.hear control], by simp [course, after, at_, open_]⟩
      cases control <;> exact open_

/-- **A session by the clock** is a course of events. -/
theorem exists_course_run (chance : Nat → Chance) (turns : Nat)
    (hears : o.controls ≠ [] → s.hears = true) :
    ∃ events, s.run chance turns o = s.course events := by
  induction turns generalizing s o with
  | zero => exact ⟨[], rfl⟩
  | succ n ih =>
    rw [run]
    split
    next o' s' turn =>
      obtain ⟨hears, events, rfl⟩ := exists_course_turn turn hears
      obtain ⟨later, eq⟩ := ih hears
      refine ⟨events ++ later, eq.trans ?_⟩
      rw [course, course, course, List.foldl_append]
    next => exact ⟨[], rfl⟩

end

end Session

end GcodeJob
