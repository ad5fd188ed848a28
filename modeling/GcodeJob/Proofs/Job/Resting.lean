import GcodeJob.Proofs.Job.Cancels
import GcodeJob.Proofs.ReadAhead.Phases

/-!
# GcodeJob.Proofs.Job.Resting

A controller and the buffers of its feeds, in step (`Controller.InStep`).  A
buffer that is not quiet belongs to a feed in use (`Controller.Uses`): a run has
started it and not stopped it yet.  All ways out of the execution loop lead past
a stop, so a run that has ended, in whatever way, uses no feed; and as at most
one run is in flight, the next one finds none in use.

One thing is told here beside the incidents (`Controller.Occurrence`): the stop
that a run ends with has two sections, between which anything else may happen.

**Main result** (`Controller.resting_buffer`): while no run is in flight the
loaded buffer is empty and its producer is not running, and no run finds it
running when it starts it.
-/

namespace GcodeJob

/-- Whether a run is past the start of its feed and has not stopped it yet. -/
def RunPoint.usesFeed : RunPoint → Bool
  | .starting | .concluding _ | .ended => false
  | _ => true

theorem Run.hasEnded_of_usesFeed {r : Run} (uses : r.point.usesFeed = true) :
    r.hasEnded = false := by
  refine Bool.eq_false_iff.mpr fun ended => ?_
  rw [hasEnded_iff.mp ended] at uses
  cases uses

namespace Controller

/-! ## What can happen -/

/-- Everything that can happen to a controller, a stop being told in two sections. -/
inductive Occurrence
  | incident (i : Incident)
  /-- A run that is to stop its feed goes through the first section of the stop.
  What is left of it is done by the next step of the run. -/
  | cancelProducer (number : Nat)

def happen (c : Controller) : Occurrence → Controller
  | .incident i => c.meet i
  | .cancelProducer number =>
    match c.runs[number]? with
    | some r => if r.point matches .leaving _ then c.cancelProducer r else c
    | none => c

/-- What a course of occurrences makes of a controller. -/
def undergo (c : Controller) (occurrences : List Occurrence) : Controller :=
  occurrences.foldl happen c

/-! ## Controllers and buffers -/

/-- A feed is in use: a run has started it and not stopped it yet. -/
def Uses (c : Controller) (feed : Nat) : Prop :=
  ∃ (number : Nat) (r : Run), c.runs[number]? = some r ∧ r.feed? = some feed ∧
    r.point.usesFeed = true

/-- A controller that rests or executes one run, and buffers that are quiet
unless their feed is in use. -/
structure InStep (c : Controller) : Prop where
  orderly : c.Orderly
  loaded : ∀ {feed : Nat}, c.loaded? = some feed → feed < c.feeds.size
  coherent : ∀ {feed : Nat} {f : Feed}, c.feeds[feed]? = some f → f.buffer.Coherent .calm
  quiet : ∀ {feed : Nat} {f : Feed}, c.feeds[feed]? = some f → c.Uses feed ∨ f.buffer.Quiet

section
variable {c c' : Controller} {i : Incident} {feed number : Nat} {f f' : Feed} {r : Run}

theorem inStep_fresh (settings : Settings) : InStep { settings } where
  orderly := orderly_fresh settings
  loaded := nofun
  coherent found := by simp at found
  quiet found := by simp at found

/-- At rest no feed is in use. -/
theorem InStep.quiet_of_rests (h : c.InStep) (rests : c.status.state.isActive = false)
    (found : c.feeds[feed]? = some f) : f.buffer.Quiet := by
  refine (h.quiet found).resolve_left ?_
  rintro ⟨number, r, at_run, -, uses⟩
  have inFlight := isInFlight_iff.mpr ⟨r, at_run, Run.hasEnded_of_usesFeed uses⟩
  have active := h.orderly.isActive_iff.2.mpr ⟨number, inFlight⟩
  rw [rests] at active
  cases active

/-- While a run has yet to start its feed, no feed is in use. -/
theorem InStep.quiet_of_starting (h : c.InStep) (at_run : c.runs[number]? = some r)
    (at_ : r.point = .starting) (found : c.feeds[feed]? = some f) : f.buffer.Quiet := by
  have executes := h.orderly.executes_of_found at_run (by simp [Run.hasEnded, at_])
  refine (h.quiet found).resolve_left ?_
  rintro ⟨other, q, at_q, -, uses⟩
  -- The run that uses it would be another one in flight.
  obtain rfl := executes.alone at_q (Run.hasEnded_of_usesFeed uses)
  obtain rfl := Option.some.inj (at_run.symm.trans at_q)
  rw [at_] at uses
  cases uses

/-! ## Steps of runs -/

/-- A run that uses its feed, or is to start it, uses it after its next step,
unless this is the stop. -/
theorem Way.usesFeed {point : RunPoint} {signal : Signal} {state : State}
    (way : c.Way r point signal state) (inside : r.point = .starting ∨ r.point.usesFeed = true) :
    point.usesFeed = true ∨ ∃ outcome, r.point = .leaving outcome := by
  cases way with
  | onward onward =>
    generalize r.point = before at onward inside
    cases onward with
    | left outcome => exact .inr ⟨outcome, rfl⟩
    | ended => rcases inside with at_ | uses <;> contradiction
    | wakes errand => cases errand <;> exact .inl rfl
    | _ => exact .inl rfl
  | concludes at_ =>
    rw [at_] at inside
    rcases inside with at_ | uses <;> contradiction
  | _ => exact .inl rfl

/-- So the feed of the run is in use after the step. -/
theorem uses_stepRun (chance : Chance) (at_run : c.runs[number]? = some r)
    (own : r.feed? = some feed) (inside : r.point = .starting ∨ r.point.usesFeed = true) :
    (c.stepRun chance number).Uses feed ∨ ∃ outcome, r.point = .leaving outcome := by
  obtain ⟨r', goes⟩ := c.goes_stepRun chance at_run
  have feed_eq := (displays_of_goes at_run goes).feed?
  exact (goes.way.usesFeed inside).imp_left fun uses =>
    ⟨number, r', goes.found at_run, feed_eq.trans own, uses⟩

/-! ## One incident -/

theorem Handles.coherent {b b' : Buffer} (h : c.Handles feed i b b') (coherent : b.Coherent .calm) :
    b'.Coherent .calm := by
  cases h with
  | leaves => exact coherent
  | produces p number => exact coherent.stepProducer c.now p number
  | starts _ _ _ started => exact coherent.start started
  | lacks state => exact coherent.startThreadless (some state)
  | takes => exact coherent.next
  | stops | unloads => exact coherent.stop

/-- A feed that is in use stays so until its run stops it. -/
theorem Uses.meet (h : c.Uses feed) (found : c.feeds[feed]? = some f)
    (found' : (c.meet i).feeds[feed]? = some f') : (c.meet i).Uses feed ∨ f'.buffer.Quiet := by
  obtain ⟨number, r, at_run, own, inside⟩ := h
  by_cases steps : ∃ chance, i = .event (.stepRun chance number)
  · obtain ⟨chance, rfl⟩ := steps
    rcases uses_stepRun chance at_run own (.inr inside) with uses | ⟨outcome, leaving⟩
    · exact .inl uses
    · rw [stopped_of_leaving at_run leaving own found found']
      exact .inr (Buffer.quiet_stop _)
  · obtain ⟨cancelled, still, -⟩ := exists_run_of_meet at_run fun chance eq => steps ⟨chance, eq⟩
    exact .inl ⟨number, _, still, own, inside⟩

theorem InStep.meet (h : c.InStep) (i : Incident) : (c.meet i).InStep where
  orderly := (h.orderly.meet i).orderly
  loaded loaded :=
    (c.loaded?_meet i loaded).elim
      (fun before => Nat.lt_of_lt_of_le (h.loaded before) (c.handlesFeeds_meet i).size_le) id
  coherent {feed f'} found' := by
    rcases (c.handlesFeeds_meet i).fresh_or_handles found' with fresh | ⟨f, found, handles⟩
    · rw [fresh]
      exact .fresh _
    · exact handles.coherent (h.coherent found)
  quiet {feed f'} found' := by
    rcases (c.handlesFeeds_meet i).fresh_or_handles found' with fresh | ⟨f, found, handles⟩
    · rw [fresh]
      exact .inr ⟨rfl, nofun⟩
    rcases h.quiet found with uses | quiet
    · exact uses.meet found found'
    have idle := (h.coherent found).queue_stepProducer quiet.stage c.now
    rcases handles.quiet idle quiet with ⟨quiet, -⟩ | ⟨-, chance, number, r, rfl, at_run, at_, own⟩
    · exact .inr quiet
    rcases uses_stepRun chance at_run own (.inl at_) with uses | ⟨outcome, leaving⟩
    · exact .inl uses
    · cases at_.symm.trans leaving

/-! ## Other occurrences -/

theorem Orderly.of_untouched (h : c.Orderly) (untouched : c.Untouched c') : c'.Orderly :=
  h.imp (·.of_untouched untouched) fun ⟨number, r, executes⟩ =>
    ⟨number, r, executes.of_untouched untouched⟩

/-- The first section of a stop leaves the queue as it is. -/
theorem InStep.cancelToken (h : c.InStep) (number : Nat) :
    (c.onBuffer number Buffer.cancelToken).InStep where
  orderly := h.orderly.of_untouched ⟨rfl, rfl, rfl, rfl⟩
  loaded own := by simpa [onBuffer] using h.loaded own
  coherent found' := by
    rw [getElem?_feeds_onBuffer, Option.map_eq_some_iff] at found'
    obtain ⟨f, found, rfl⟩ := found'
    split
    · exact ((h.coherent found).cancelToken (.inl rfl)).calm_of_dropping
    · exact h.coherent found
  quiet found' := by
    rw [getElem?_feeds_onBuffer, Option.map_eq_some_iff] at found'
    obtain ⟨f, found, rfl⟩ := found'
    split
    · exact (h.quiet found).imp_right fun quiet => ⟨quiet.items, quiet.stage⟩
    · exact h.quiet found

theorem InStep.cancelProducer (h : c.InStep) (r : Run) : (c.cancelProducer r).InStep := by
  unfold Controller.cancelProducer
  split
  · exact h.cancelToken _
  · exact h

/-! ## All that can happen -/

theorem InStep.happen (h : c.InStep) (o : Occurrence) : (c.happen o).InStep := by
  cases o with
  | incident i => exact h.meet i
  | cancelProducer number =>
    unfold Controller.happen
    dsimp only
    split
    next r _ =>
      split
      next => exact h.cancelProducer r
      next => exact h
    next => exact h

theorem InStep.undergo (h : c.InStep) (occurrences : List Occurrence) :
    (c.undergo occurrences).InStep := by
  induction occurrences generalizing c with
  | nil => exact h
  | cons o later ih => exact ih (h.happen o)

end

/-- **A resting controller has a resting buffer.**  Whatever has been asked for,
executed and read, whichever programs were closed or rewritten, however the runs
before have ended and however late their producers are: while the state is not
that of a run in flight, the loaded buffer is empty and its producer is not running.
And no run that is to start its feed finds it running, so the start is refused
only if the program is closed. -/
theorem resting_buffer (settings : Settings) (occurrences : List Occurrence) :
    let c := undergo { settings } occurrences
    (c.status.state ∉ [State.waiting, .printing, .paused] → ∀ feed, c.loaded? = some feed →
      ∃ f, c.feeds[feed]? = some f ∧ f.buffer.queue.items = [] ∧
        f.buffer.queue.stage ≠ .running) ∧
    ∀ (number : Nat) (r : Run) (feed : Nat) (f : Feed) (p : Program), c.runs[number]? = some r →
      r.point = .starting → r.feed? = some feed → c.feed? feed = some (f, p) →
      f.buffer.start (some p.state) ≠ .error .bufferRunning ∧
        (p.state ≠ .closed → ∃ b, f.buffer.start (some p.state) = .ok b) := by
  intro c
  have inStep : c.InStep := (inStep_fresh settings).undergo occurrences
  refine ⟨fun resting feed loaded => ?_, fun number r feed f p at_run at_ own reader => ?_⟩
  · have rests : c.status.state.isActive = false := by
      generalize c.status.state = state at resting
      cases state <;> first | rfl | exact absurd (by decide) resting
    have found := Array.getElem?_eq_getElem (inStep.loaded loaded)
    have quiet := inStep.quiet_of_rests rests found
    exact ⟨_, found, quiet.items, quiet.stage⟩
  · have quiet := inStep.quiet_of_starting at_run at_ (feed?_eq_some.mp reader).1
    exact Buffer.start_of_stage_ne quiet.stage

/-- A program of two commands whose first run gets no thread.  The second is
canceled with a command queued and another about to be, between the sections of
its stop; and when the state is reset a third run can start the same buffer. -/
theorem resting_buffer_of_reruns :
    let file : RegularFile := ⟨⟨#[71, 49, 10, 71, 50, 10]⟩, by decide, .whole⟩
    let event (e : Event) : Occurrence := .incident (.event e)
    let steps (number count : Nat) : List Occurrence :=
      List.replicate count (event (.stepRun {} number))
    let produces (count : Nat) : List Occurrence :=
      List.replicate count (event (.stepProducer 0 1))
    let opens : List Occurrence :=
      [.powerOn, .open "job" (.file file) ⟨9, 1⟩, .readChunk 0, .takeChunk 0, .readChunk 0,
        .takeChunk 0, .load 0, .execute true].map event
    let rerun : List Occurrence := [event .reset, event (.execute true)]
    let working := opens ++ [event (.setThreads false)] ++ steps 0 3 ++
      [event (.setThreads true)] ++ rerun ++ steps 1 3 ++ produces 7 ++
      [event (.advanceTo 1000000000)] ++ produces 6
    let canceled := working ++ [event .cancel] ++ steps 1 1 ++ [.cancelProducer 1] ++ produces 1 ++
      steps 1 2
    let b := undergo { settings := {} } working
    let c := undergo { settings := {} } canceled
    let d := undergo { settings := {} } (canceled ++ rerun)
    b.feeds.map (·.buffer.queue.items.map Issued.line) = #[[0]] ∧
      (c.status.state ∉ [State.waiting, .printing, .paused] ∧ c.loaded? = some 0 ∧
        ∃ f, c.feeds[0]? = some f ∧ f.buffer.queue.items = [] ∧
          f.buffer.queue.stage ≠ .running) ∧
      ∃ f p buffer, d.runs[2]? = some { feed? := some 0 } ∧ d.feed? 0 = some (f, p) ∧
        p.state ≠ .closed ∧ f.buffer.start (some p.state) = .ok buffer := by
  intro file event steps produces opens rerun working canceled b c d
  have queued : b.feeds.map (·.buffer.queue.items.map Issued.line) = #[[0]] := by decide +kernel
  have resting : c.status.state ∉ [State.waiting, .printing, .paused] := by decide +kernel
  have loaded : c.loaded? = some 0 := by decide +kernel
  have starting : d.runs[2]? = some { feed? := some 0 } := by decide +kernel
  have built : (d.feed? 0).map (·.2.state) = some .built := by decide +kernel
  have at_c : undergo { settings := {} } canceled = c := rfl
  have at_d : undergo { settings := {} } (canceled ++ rerun) = d := rfl
  have before := resting_buffer {} canceled
  have after := resting_buffer {} (canceled ++ rerun)
  dsimp only at before after
  rw [at_c] at before
  rw [at_d] at after
  -- From here on they are any controllers of which this much is known.
  clear_value b c d
  obtain ⟨⟨f, p⟩, reader, state⟩ := Option.map_eq_some_iff.mp built
  have opened : p.state ≠ .closed := by
    dsimp only at state
    rw [state]
    nofun
  obtain ⟨-, starts⟩ := after.2 2 _ 0 f p starting rfl rfl reader
  obtain ⟨buffer, started⟩ := starts opened
  exact ⟨queued, ⟨resting, loaded, before.1 resting 0 loaded⟩, f, p, buffer, starting, reader,
    opened, started⟩

end Controller

end GcodeJob
