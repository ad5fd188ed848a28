import GcodeJob.Proofs.Job.Buffers
import GcodeJob.Proofs.Job.Signals

/-!
# GcodeJob.Proofs.Job.Pauses

A pause holds the machine between two commands.  While a run executes a
command, from the moment it has taken it to the look for a signal after it,
the line of this command is shown (`Controller.executedLine`), and only at its
end is its progress one (`Controller.Shown`).  A pause begins there and
nowhere else.

**Main result** (`Controller.pause_between_commands`).
-/

namespace GcodeJob

namespace RunPoint

/-- Whether a run executes a command: it has taken the command, and has not
looked for a signal since. -/
def executes : RunPoint → Bool
  | .beginning _ | .dozing (.tick ..) | .asleep (.tick ..) _ | .advancing .. | .recording _
  | .checkpoint => true
  | _ => false

/-- Whether the command that a run executes is finished. -/
def finished : RunPoint → Bool
  | .recording _ | .checkpoint => true
  | _ => false

/-- A run that executes a command goes on with it, or it has just taken it. -/
theorem Onward.of_executes {point point' : RunPoint} (h : point.Onward point')
    (executes : point'.executes = true) :
    point.executes = true ∨ ∃ command, point' = .beginning command := by
  cases h with
  | ready command => exact .inr ⟨command, rfl⟩
  | begun | ticked | finished | recorded => exact .inl rfl
  | sleeps errand | sleepsOn errand | wakes errand =>
    cases errand <;> first | exact .inl rfl | cases executes
  | _ => cases executes

/-- While it executes a command a run takes no other. -/
theorem Onward.ne_beginning {point point' : RunPoint} (h : point.Onward point')
    (executes : point.executes = true) (command : Issued) : point' ≠ .beginning command := by
  cases h with
  | ready => cases executes
  | wakes errand => cases errand <;> nofun
  | _ => nofun

/-- While it executes a command a run goes on with it up to its end. -/
theorem Onward.executes {point point' : RunPoint} (h : point.Onward point')
    (executes : point.executes = true) : point'.executes = true ∨ point = .checkpoint := by
  cases h with
  | unasked => exact .inr rfl
  | begun | ticked | finished | recorded => exact .inl rfl
  | sleeps errand | sleepsOn errand | wakes errand =>
    cases errand <;> first | exact .inl rfl | cases executes
  | _ => cases executes

theorem executes_of_finished {point : RunPoint} (finished : point.finished = true) :
    point.executes = true := by
  cases point <;> first | rfl | cases finished

theorem hasEnded_of_executes {r : Run} (executes : r.point.executes = true) :
    r.hasEnded = false := by
  by_contra ended
  rw [Run.hasEnded_iff.mp (by simpa using ended)] at executes
  cases executes

/-- A command is finished by its last tick. -/
theorem Onward.of_finished {point point' : RunPoint} (h : point.Onward point')
    (finished : point'.finished = true) :
    (∃ command progress, point = .advancing command progress) ∨ ∃ command, point = .recording command := by
  cases h with
  | finished command progress => exact .inl ⟨command, progress, rfl⟩
  | recorded command => exact .inr ⟨command, rfl⟩
  | wakes errand => cases errand <;> cases finished
  | _ => cases finished

end RunPoint

namespace Controller

/-- The line of the command that a run executes, shown already or about to be. -/
def executedLine (c : Controller) (r : Run) : Int :=
  match r.point with
  | .beginning command => lineOf command
  | _ => c.status.line

/-- What is shown of the command that a run executes, and while the run is paused. -/
structure Shown (c : Controller) (r : Run) : Prop where
  line : r.point.executes = true → 0 ≤ c.executedLine r
  finished : r.point.finished = true → c.status.progress = .one
  paused : c.status.state = .paused → 0 ≤ c.status.line ∧ c.status.progress = .one

section
variable {c c' : Controller} {number : Nat} {r r' : Run}

theorem lineOf_nonneg (command : Issued) : 0 ≤ lineOf command := by
  unfold lineOf Word.highest
  omega

theorem executedLine_eq (begun : ∀ command, r.point ≠ .beginning command) :
    c.executedLine r = c.status.line := by
  unfold executedLine
  split
  next command at_ => exact absurd at_ (begun command)
  next => rfl

theorem executedLine_congr (point : r'.point = r.point) (status : c'.status = c.status) :
    c'.executedLine r' = c.executedLine r := by
  unfold executedLine
  rw [point, status]

/-- Whoever executes a command got there by a way on which nothing is decided. -/
theorem Way.onward_of_executes {point : RunPoint} {signal : Signal} {state : State}
    (way : c.Way r point signal state) (executes : point.executes = true) : r.point.Onward point := by
  cases way with
  | onward onward => exact onward
  | _ => cases executes

/-- A step from the execution of a command shows its line. -/
theorem Shows.line_eq {point : RunPoint} {status : Status} (h : c.Shows r point status)
    (executes : r.point.executes = true) : status.line = c.executedLine r := by
  unfold executedLine
  cases h with
  | silent point silent =>
    split
    next at_ => rw [at_] at silent; cases silent
    next => rfl
  | begins at_ => simp [at_, Status.setLine]
  | progresses _ at_ | finishes at_ | records _ at_ => simp [at_, Status.setProgress]
  | takes _ _ takes =>
    split
    next at_ => rw [at_] at takes; cases takes
    next => rfl
  | announces _ at_ | concludes at_ =>
    rw [at_] at executes
    cases executes

/-- The line that is shown is the one of the command, as long as it is executed. -/
theorem Goes.executedLine_eq (goes : c.Goes c' number r r') (displays : c.Displays c' number r r')
    (executes : r.point.executes = true) (still : r'.point.executes = true) :
    c'.executedLine r' = c.executedLine r := by
  have onward := goes.way.onward_of_executes still
  rw [Controller.executedLine_eq (onward.ne_beginning executes)]
  exact displays.shows.line_eq executes

/-- What is shown by a step of the run in flight. -/
theorem Shown.goes (shown : c.Shown r) (h : c.Executes number r) (goes : c.Goes c' number r r')
    (displays : c.Displays c' number r r') : c'.Shown r' where
  line executes := by
    rcases (goes.way.onward_of_executes executes).of_executes executes with before | ⟨command, at_⟩
    · rw [goes.executedLine_eq displays before executes]
      exact shown.line before
    · rw [executedLine, at_]
      exact lineOf_nonneg command
  finished finished := by
    have onward := goes.way.onward_of_executes (RunPoint.executes_of_finished finished)
    have before := onward.of_finished finished
    have shows := displays.shows
    generalize r'.point = point at shows finished
    generalize c'.status = status at shows ⊢
    cases shows with
    | finishes => rfl
    | records _ at_ => exact shown.finished (at_ ▸ rfl)
    | silent _ silent | takes _ _ silent =>
      rcases before with ⟨command, progress, at_⟩ | ⟨command, at_⟩ <;> rw [at_] at silent <;>
        cases silent
    | announces | begins | progresses | concludes => cases finished
  paused paused := by
    have state := h.state
    have shows := displays.shows
    generalize r'.point = point at shows
    generalize c'.status = status at shows paused ⊢
    cases shows with
    | silent => exact shown.paused paused
    | announces => cases paused
    | begins at_ | progresses _ at_ | finishes at_ | records _ at_ =>
      rw [at_] at state
      cases (List.mem_singleton.mp state).symm.trans paused
    | takes _ _ takes =>
      -- A pause begins at the end of a command, and goes on while the run holds.
      cases at_ : r.point with
      | checkpoint =>
        have line := shown.line (at_ ▸ rfl)
        rw [executedLine_eq (by simp [at_])] at line
        exact ⟨line, shown.finished (at_ ▸ rfl)⟩
      | holding =>
        rw [at_] at state
        exact shown.paused (List.mem_singleton.mp state)
      | _ =>
        rw [at_] at takes
        cases takes
    | @concludes outcome => cases outcome <;> cases paused

/-- What is shown stays so until the run takes its next step. -/
theorem Shown.of_hears (shown : c.Shown r) {i : Incident} {signal : Signal}
    (status : c'.status = c.status) (hears : c.Hears r i signal r') : c'.Shown r' := by
  have point : r'.point = r.point := by cases hears <;> rfl
  refine ⟨?_, ?_, ?_⟩
  · rw [executedLine_congr point status, point]
    exact shown.line
  · rw [point, status]
    exact shown.finished
  · rw [status]
    exact shown.paused

/-- What is shown of the run in flight, at any time. -/
theorem shown_course (settings : Settings) (incidents : List Incident)
    (h : (course { settings } incidents).Executes number r) :
    (course { settings } incidents).Shown r := by
  refine run_invariant settings ?begins ?step incidents h
  case begins =>
    intro c feed? waiting
    refine ⟨nofun, nofun, fun paused => ?_⟩
    cases waiting.symm.trans paused
  case step =>
    intro c number r r' i _ h shown h'
    rcases h.meet_cases h' with ⟨chance, rfl, goes, displays⟩ | ⟨status, hears⟩
    · exact shown.goes h goes displays
    · exact shown.of_hears status hears

/-! ## While a run is paused -/

/-- By a step of its own a run takes the end of a pause, or it ends. -/
def EndsPause (c : Controller) (i : Incident) : Prop :=
  ∃ chance number, i = .event (.stepRun chance number) ∧
    (c.ends number i = true ∨
      (∃ r, c.runs[number]? = some r ∧ r.point = .holding) ∧ c.signal = .resume ∧
        (c.meet i).status = { c.status with state := .printing })

/-- By a step of its own a run that is on its way out drops what is queued. -/
def Drops (c : Controller) (i : Incident) : Prop :=
  ∃ chance number r outcome, i = .event (.stepRun chance number) ∧
    c.runs[number]? = some r ∧ r.point = .leaving outcome

/-- A step of a paused run shows nothing, unless the pause is at its end. -/
theorem Executes.endsPause_or (h : c.Executes number r) {chance : Chance}
    (paused : c.status.state = .paused)
    (goes : c.Goes (c.stepRun chance number) number r r')
    (displays : c.Displays (c.stepRun chance number) number r r') :
    c.EndsPause (.event (.stepRun chance number)) ∨ (c.stepRun chance number).status = c.status := by
  have state := h.state
  have way := goes.way
  have shows := displays.shows
  generalize at_' : r'.point = point at way shows
  generalize after : (c.stepRun chance number).status = status at way shows ⊢
  generalize (c.stepRun chance number).signal = signal at way
  cases shows with
  | silent => exact .inr rfl
  | announces _ at_ | begins at_ | progresses _ at_ | finishes at_ | records _ at_ =>
    rw [at_] at state
    cases (List.mem_singleton.mp state).symm.trans paused
  | concludes => exact .inl ⟨chance, number, rfl, .inl (goes.ends h.found h.inFlight at_')⟩
  | takes _ state' takes =>
    dsimp only at way
    cases way with
    | onward | notices | stops | forced => exact .inr rfl
    | pauses =>
      rw [← paused]
      exact .inr rfl
    | resumes _ pending =>
      refine .inl ⟨chance, number, rfl, .inr ⟨⟨r, h.found, ?_⟩, pending, after⟩⟩
      cases at_ : r.point with
      | holding => rfl
      | checkpoint =>
        rw [at_] at state
        cases (List.mem_singleton.mp state).symm.trans paused
      | _ =>
        rw [at_] at takes
        cases takes
    | announces at_ | concludes at_ =>
      rw [at_] at takes
      cases takes

/-- While a run is paused nothing is shown, up to the end of the pause. -/
theorem Orderly.endsPause_or (h : c.Orderly) (paused : c.status.state = .paused) (i : Incident) :
    c.EndsPause i ∨ (c.meet i).status = c.status := by
  obtain ⟨number, r, executes⟩ : ∃ number r, c.Executes number r :=
    h.executes_of_allowed (o := .cancel) rfl (by simp [paused, Operation.allowed])
  rcases executes.goes_or_hears i with ⟨chance, r', rfl, goes, displays⟩ | ⟨status, -⟩
  · exact executes.endsPause_or paused goes displays
  · exact .inr status

/-- While a run is paused nothing is taken from a feed. -/
theorem Orderly.queued_of_paused (h : c.Orderly) (feeds : c.HasFeeds)
    (paused : c.status.state = .paused) (i : Incident) {feed : Nat} {f : Feed}
    (found : c.feeds[feed]? = some f) :
    ∃ f', (c.meet i).feeds[feed]? = some f' ∧
      (f.buffer.queue.items <+: f'.buffer.queue.items ∨ c.Drops i) := by
  obtain ⟨b, after, handles⟩ := (c.handlesFeeds_meet i).kept found
  refine ⟨_, after, ?_⟩
  -- A run that starts or takes shows another state.
  have elsewhere {number : Nat} {r : Run} (at_run : c.runs[number]? = some r)
      (inFlight : r.hasEnded = false) : State.paused ∈ r.point.states :=
    paused ▸ h.state_of_found at_run inFlight
  generalize at_ : f.buffer = before at handles
  cases handles with
  | leaves => exact .inl (List.prefix_refl _)
  | produces p number => exact .inl ((at_ ▸ feeds.inOrder found).stepProducer c.now p number).2.2.1
  | starts at_run point | lacks _ _ at_run point | takes _ at_run point =>
    have state := elsewhere at_run (by simp [Run.hasEnded, point])
    rw [point] at state
    cases List.mem_singleton.mp state
  | stops _ at_run leaving => exact .inr ⟨_, _, _, _, rfl, at_run, leaving⟩
  | unloads _ _ idle => cases idle.symm.trans paused

/-! ## From the request to the pause -/

/-- A run executes the command of a line and a pause waits for it.  The run
begins no command, unless it was about to when the pause was asked for. -/
structure Awaits (number : Nat) (asked : Run) (line : Int) (c : Controller) (r : Run) : Prop where
  executes : c.Executes number r
  uncancelled : r.cancelled = false
  signal : c.signal = .pause
  within : r.point.executes = true
  line : c.executedLine r = line
  begins : ∀ command, r.point = .beginning command → asked.point = .beginning command

/-- The pause begins at a line, or a stop or a cancel comes first. -/
def PausesAt (line : Int) (c : Controller) (i : Incident) : Prop :=
  (c.meet i).status.state = .paused ∧ (c.meet i).status.line = line ∨
    ∃ e, i = .event e ∧ c.Accepts e ∧
      (e.operation? = some .stop ∨ e.operation? = some .cancel)

theorem Awaits.printing {asked : Run} {line : Int} (h : Awaits number asked line c r) :
    c.status.state = .printing :=
  List.mem_singleton.mp (h.executes.signal .pause (by rw [h.signal]; rfl))

/-- A step of a run for which a pause waits. -/
theorem Awaits.goes {asked : Run} {line : Int} (h : Awaits number asked line c r) {chance : Chance}
    (goes : c.Goes (c.stepRun chance number) number r r')
    (displays : c.Displays (c.stepRun chance number) number r r') :
    PausesAt line c (.event (.stepRun chance number)) ∨
      Awaits number asked line (c.stepRun chance number) r' := by
  have shown := (displays.shows.line_eq h.within).trans h.line
  have way := goes.way
  generalize at_' : r'.point = point at way
  generalize waits : (c.stepRun chance number).signal = signal at way
  generalize state : (c.stepRun chance number).status.state = after at way
  have elsewhere {point : RunPoint} (at_ : r.point = point) (outside : point.executes = false) :
      False := by
    have within := h.within
    rw [at_, outside] at within
    cases within
  cases way with
  | onward onward _ _ _ takes =>
    have within : r'.point.executes = true := by
      rw [at_']
      refine (onward.executes h.within).resolve_right fun at_ => ?_
      cases (takes (at_ ▸ rfl)).symm.trans h.signal
    have still := RunPoint.hasEnded_of_executes within
    have executes := (h.executes.goes goes).2.resolve_right fun rests => by
      cases still.symm.trans rests.1
    refine .inr ⟨executes, goes.cancelled.trans h.uncancelled, waits.trans h.signal, within,
      (goes.executedLine_eq displays h.within within).trans h.line, fun command at_ => ?_⟩
    exact absurd (at_'.symm.trans at_) (onward.ne_beginning h.within command)
  | pauses => exact .inl (.inl ⟨state, shown⟩)
  | notices cancelled => cases h.uncancelled.symm.trans cancelled
  | stops _ pending | resumes _ pending => cases h.signal.symm.trans pending
  | forced forced =>
    rcases forced?_eq_some forced with ⟨-, at_ | at_⟩ | ⟨-, at_⟩ <;> exact (elsewhere at_ rfl).elim
  | announces at_ | concludes at_ => exact (elsewhere at_ rfl).elim

/-- What a run hears for which a pause waits. -/
theorem Awaits.hears {asked : Run} {line : Int} (h : Awaits number asked line c r) {i : Incident}
    (status : (c.meet i).status = c.status) (executes : (c.meet i).Executes number r')
    (hears : c.Hears r i (c.meet i).signal r') :
    PausesAt line c i ∨ Awaits number asked line (c.meet i) r' := by
  have waits (same : r' = r) (signal : (c.meet i).signal = .pause) :
      Awaits number asked line (c.meet i) r' := by
    subst same
    exact ⟨executes, h.uncancelled, signal, h.within,
      (executedLine_congr rfl status).trans h.line, h.begins⟩
  generalize signal_eq : (c.meet i).signal = signal at hears
  cases hears with
  | nothing => exact .inr (waits rfl (signal_eq.trans h.signal))
  | @signal e o _ accepted asks own =>
    have allowed := executes.signal o (signal_eq ▸ own)
    rw [status, h.printing] at allowed
    cases signal with
    | none => cases own
    | pause => exact .inr (waits rfl signal_eq)
    | resume =>
      cases own
      simp [Operation.allowed] at allowed
    | stop => exact .inl (.inr ⟨e, rfl, accepted, .inl (asks.trans own.symm)⟩)
  | cancel accepted => exact .inl (.inr ⟨.cancel, rfl, accepted, .inr rfl⟩)

/-- One incident while a pause waits. -/
theorem Awaits.meet {asked : Run} {line : Int} (h : Awaits number asked line c r) (i : Incident) :
    PausesAt line c i ∨ ∃ r', Awaits number asked line (c.meet i) r' := by
  rcases h.executes.goes_or_hears i with
    ⟨chance, r', rfl, goes, displays⟩ | ⟨status, r', executes, hears⟩
  · exact (h.goes goes displays).imp_right fun awaits => ⟨r', awaits⟩
  · exact (h.hears status executes hears).imp_right fun awaits => ⟨r', awaits⟩

end

/-- **A pause holds the machine between commands.**  While a run is paused, the
line of a finished command is shown, no command is taken, and the status stays
as it is until the end of the pause is taken or the run ends.  A pause that is
accepted while a command is executed begins at the line of this command, the
run being at this command until then, unless a stop or a cancel is accepted
first. -/
theorem pause_between_commands (settings : Settings) (incidents : List Incident) :
    let c := course { settings } incidents
    (c.status.state = .paused →
      0 ≤ c.status.line ∧ c.status.progress = .one ∧
        (∀ (i : Incident) (feed : Nat) (f : Feed), c.feeds[feed]? = some f →
          ∃ f', (c.meet i).feeds[feed]? = some f' ∧
            (f.buffer.queue.items <+: f'.buffer.queue.items ∨ c.Drops i)) ∧
        ∀ later, c.LastsUntil (fun d => d.status = c.status) EndsPause later) ∧
      ∀ (number : Nat) (r : Run), c.pause.1 = .ok () → c.runs[number]? = some r →
        r.point.executes = true → r.cancelled = false → ∀ later,
        c.pause.2.LastsUntil (fun d => ∃ q, Awaits number r (c.executedLine r) d q)
          (PausesAt (c.executedLine r)) later := by
  intro c
  have orderly : c.Orderly := ((orderly_fresh settings).course incidents).orderly
  have feeds : c.HasFeeds := (hasFeeds_fresh settings).course incidents
  refine ⟨fun paused => ?_, fun number r accepted found within uncancelled later => ?_⟩
  · obtain ⟨number, r, executes⟩ : ∃ number r, c.Executes number r :=
      orderly.executes_of_allowed (o := .cancel) rfl (by simp [paused, Operation.allowed])
    obtain ⟨line, progress⟩ := (shown_course settings incidents executes).paused paused
    refine ⟨line, progress, fun i feed f => orderly.queued_of_paused feeds paused i, fun later => ?_⟩
    refine .of_kept (fun _ => And.right) (fun d i kept => ?_) (And.intro orderly rfl)
    obtain ⟨orderly, same⟩ := kept
    exact (orderly.endsPause_or (same ▸ paused) i).imp_right fun shown =>
      ⟨(orderly.meet i).orderly, shown.trans same⟩
  · have executes : c.Executes number r :=
      orderly.executes_of_found found (RunPoint.hasEnded_of_executes within)
    obtain ⟨allowed, done⟩ := request_of_accepted accepted
    have noted : c.pause.2 = { c with signal := .pause } := congrArg Prod.snd done
    have awaits : Awaits number r (c.executedLine r) c.pause.2 r := by
      rw [noted]
      exact ⟨executes.note rfl allowed, uncancelled, rfl, within, rfl, fun _ => id⟩
    refine .of_kept (fun _ => id) (fun d i kept => ?_) ⟨r, awaits⟩
    obtain ⟨q, awaits⟩ := kept
    exact awaits.meet i

/-- A pause that is asked for in the middle of the only command of a job, and
the course of it to its end and beyond. -/
theorem pause_between_commands_while_executing :
    let file : RegularFile := ⟨⟨#[71, 49, 10]⟩, by decide, .whole⟩
    let step : Incident := .event (.stepRun { word := 0xffffffff } 0)
    let incidents : List Incident :=
      [.event .powerOn, .event (.open "job" (.file file) ⟨9, 1⟩), .event (.readChunk 0),
        .event (.takeChunk 0), .event (.readChunk 0), .event (.takeChunk 0), .event (.load 0),
        .event (.execute true), step] ++
      List.replicate 6 (.event (.stepProducer 0 0)) ++ List.replicate 6 step
    let c := course { settings := {} } incidents
    let later : List Incident := (List.range 15).flatMap fun second =>
      [.event (.advanceTo ((second + 1) * 1000000000)), step, step, step]
    let d := c.pause.2.course later
    c.pause.1 = .ok () ∧ d.status.state = .paused ∧ 0 ≤ d.status.line ∧ d.status.progress = .one ∧
      ∃ r, c.pause.2.LastsUntil (fun d => ∃ q, Awaits 0 r 0 d q) (PausesAt 0) later := by
  intro file step incidents c later d
  have accepted : c.pause.1 = .ok () := by decide +kernel
  have paused : d.status.state = .paused := by decide +kernel
  have executing : c.runs[0]?.map (fun r => (r.point.executes, r.cancelled, c.executedLine r)) =
      some (true, false, 0) := by decide +kernel
  have at_c : course { settings := {} } incidents = c := rfl
  have at_d : course { settings := {} } (incidents ++ .event .pause :: later) = d :=
    course_event _ incidents .pause later
  obtain ⟨-, awaits⟩ := pause_between_commands {} incidents
  obtain ⟨held, -⟩ := pause_between_commands {} (incidents ++ .event .pause :: later)
  rw [at_c] at awaits
  rw [at_d] at held
  clear_value d
  clear_value c later
  obtain ⟨r, found, executes⟩ := Option.map_eq_some_iff.mp executing
  obtain ⟨within, uncancelled, line⟩ : _ ∧ _ ∧ _ := by simpa using executes
  obtain ⟨shown, progress, -⟩ := held paused
  exact ⟨accepted, paused, shown, progress, r,
    line ▸ awaits 0 r accepted found within uncancelled later⟩

end Controller

end GcodeJob
