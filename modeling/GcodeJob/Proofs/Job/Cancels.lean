import GcodeJob.Proofs.Job.Buffers

/-!
# GcodeJob.Proofs.Job.Cancels

What still happens after a cancel.  A run looks at its token at the head of
the loop and around every sleep, but a sleep that is over at the same moment
may still succeed.  So a run that is cancelled while it is suspended may go on
to its next look, and on this way there is one tick at most and no command
(`RunPoint.ticksLeft`).

**Main result** (`Controller.nothing_begins_after_cancel`): after a cancel no
command begins and at most one tick of progress is shown, and when the run has
ended nothing is queued for it any more.
-/

namespace GcodeJob

namespace RunPoint

/-- Whether a run is suspended: it has not been polled yet, or it sleeps. -/
def isSuspended : RunPoint → Bool
  | .starting | .asleep .. => true
  | _ => false

/-- Whether a run takes a command, or begins the one that it has taken. -/
def takesCommand : RunPoint → Bool
  | .fetching | .polling | .beginning _ => true
  | _ => false

/-- Whether a run begins a command in its next step. -/
def begins : RunPoint → Bool
  | .beginning _ => true
  | _ => false

/-- Whether a run shows the progress of a command in its next step. -/
def ticks : RunPoint → Bool
  | .advancing .. => true
  | _ => false

/-- How many ticks a cancelled run may still show. -/
def ticksLeft : RunPoint → Nat
  | .asleep (.tick ..) _ | .advancing .. => 1
  | _ => 0

theorem ticksLeft_le_one (point : RunPoint) : point.ticksLeft ≤ 1 := by
  unfold ticksLeft
  split <;> decide

end RunPoint

namespace Controller

/-- Whether an incident is a step of a run from where something holds. -/
def stepsFrom (c : Controller) (number : Nat) (holds : RunPoint → Bool) : Incident → Bool
  | .event (.stepRun _ other) => decide (other = number) && c.runs[number]?.any (holds ·.point)
  | _ => false

/-- How often in a course of incidents a run takes a step from where something holds. -/
def countSteps (c : Controller) (number : Nat) (holds : RunPoint → Bool) : List Incident → Nat
  | [] => 0
  | i :: later =>
    (c.stepsFrom number holds i).toNat + (c.meet i).countSteps number holds later

section
variable {c c' : Controller} {number : Nat} {r r' : Run} {holds : RunPoint → Bool} {i : Incident}

theorem stepsFrom_own (chance : Chance) (found : c.runs[number]? = some r) :
    c.stepsFrom number holds (.event (.stepRun chance number)) = holds r.point := by
  simp [stepsFrom, found]

theorem stepsFrom_other (other : ∀ chance, i ≠ .event (.stepRun chance number)) :
    c.stepsFrom number holds i = false := by
  unfold stepsFrom
  split
  next chance third =>
    have ne : third ≠ number := fun own => other chance (own ▸ rfl)
    simp [ne]
  next => rfl

/-! ## After a cancel -/

/-- On its way to the next look at its token a cancelled run takes no command
and shows one tick at most. -/
theorem Way.ticksLeft_le {point : RunPoint} {signal : Signal} {state : State}
    (way : c.Way r point signal state) (cancelled : r.cancelled = true)
    (outside : r.point.takesCommand = false) :
    point.takesCommand = false ∧ r.point.ticks.toNat + point.ticksLeft ≤ r.point.ticksLeft := by
  generalize at_ : r.point = before at *
  -- Where a run looks, takes or reads it does not tick.
  have leaves {point : RunPoint} (still : before.ticks = false)
      (away : point.takesCommand = false ∧ point.ticksLeft = 0) :
      point.takesCommand = false ∧ before.ticks.toNat + point.ticksLeft ≤ before.ticksLeft :=
    ⟨away.1, by simp [still, away.2]⟩
  cases way with
  | onward onward _ looks =>
    rw [at_] at onward looks
    cases onward with
    | uncancelled | sleeps => cases cancelled.symm.trans (looks rfl)
    | wakes errand | sleepsOn errand => cases errand <;> exact ⟨rfl, Nat.le_refl _⟩
    | ready | empty | polled | begun => cases outside
    | ticked | finished => exact ⟨rfl, Nat.le_refl _⟩
    | _ => exact leaves rfl ⟨rfl, rfl⟩
  | announces announcing =>
    rw [at_] at announcing
    exact leaves (announcing ▸ rfl) ⟨rfl, rfl⟩
  | concludes concluding =>
    rw [at_] at concluding
    exact leaves (concluding ▸ rfl) ⟨rfl, rfl⟩
  | notices _ met | stops met | pauses met | resumes met =>
    rw [at_] at met
    refine leaves ?_ ⟨rfl, rfl⟩
    cases before <;> first | rfl | cases met
  | forced forced =>
    refine leaves ?_ ⟨rfl, rfl⟩
    rcases forced?_eq_some forced with ⟨-, reads | reads⟩ | ⟨-, reads⟩ <;>
      exact at_.symm.trans reads ▸ rfl

/-- A run that was cancelled where it takes no command takes none any more, and
shows one tick at most. -/
theorem exists_run_of_cancelled (found : c.runs[number]? = some r) (cancelled : r.cancelled = true)
    (outside : r.point.takesCommand = false) (later : List Incident) :
    (∃ r', (c.course later).runs[number]? = some r' ∧ r'.feed? = r.feed? ∧
        r'.point.takesCommand = false) ∧
      c.countSteps number RunPoint.begins later = 0 ∧
      c.countSteps number RunPoint.ticks later ≤ r.point.ticksLeft := by
  induction later generalizing c r with
  | nil => exact ⟨⟨r, found, rfl, outside⟩, rfl, Nat.zero_le _⟩
  | cons i later ih =>
    simp only [countSteps]
    by_cases own : ∃ chance, i = .event (.stepRun chance number)
    · obtain ⟨chance, rfl⟩ := own
      obtain ⟨q, goes⟩ := c.goes_stepRun chance found
      obtain ⟨still, left⟩ := goes.way.ticksLeft_le cancelled outside
      obtain ⟨⟨r', there, feed, away⟩, none, ticks⟩ :=
        ih (c := c.stepRun chance number) (goes.found found) (goes.cancelled.trans cancelled) still
      have own_feed := (displays_of_goes found goes).feed?
      rw [stepsFrom_own chance found, stepsFrom_own chance found]
      have begins : r.point.begins = false := by
        cases at_ : r.point <;> rw [at_] at outside <;> first | rfl | cases outside
      refine ⟨⟨r', there, feed.trans own_feed, away⟩, ?_, ?_⟩
      · rw [begins, Bool.toNat_false, Nat.zero_add]
        exact none
      · exact Nat.le_trans (Nat.add_le_add_left ticks _) left
    · have other (chance : Chance) : i ≠ .event (.stepRun chance number) := fun eq => own ⟨chance, eq⟩
      obtain ⟨again, found', keeps⟩ := exists_run_of_meet found other
      obtain ⟨there, none, ticks⟩ := ih found' (keeps cancelled) outside
      rw [stepsFrom_other other, stepsFrom_other other]
      exact ⟨there, by simpa using none, by simpa using ticks⟩

/-! ## When the run has ended -/

/-- Whatever handles a quiet buffer in which no producer is at work leaves it quiet,
unless the run that executes the feed starts it. -/
theorem Handles.quiet {feed : Nat} {b b' : Buffer} (h : c.Handles feed i b b')
    (still : ∀ p number, (b.stepProducer c.now p number).2.queue = b.queue) (quiet : b.Quiet) :
    b'.Quiet ∧ b'.queue.run = b.queue.run ∨ b.queue.run < b'.queue.run ∧
      ∃ (chance : Chance) (n : Nat) (q : Run), i = .event (.stepRun chance n) ∧
        c.runs[n]? = some q ∧ q.point = .starting ∧ q.feed? = some feed := by
  cases h with
  | leaves => exact .inl ⟨quiet, rfl⟩
  | produces p number =>
    have same := still p number
    exact .inl ⟨⟨same ▸ quiet.items, same ▸ quiet.stage⟩, same ▸ rfl⟩
  | starts found at_ own started =>
    obtain ⟨-, rfl⟩ := Buffer.start_eq_ok started
    exact .inr ⟨Nat.lt_succ_self _, _, _, _, rfl, found, at_, own⟩
  | lacks state _ found at_ own =>
    rcases b.startThreadless_cases (some state) with same | ⟨-, begun⟩
    · rw [same]
      exact .inl ⟨quiet, rfl⟩
    · rw [begun]
      exact .inr ⟨Nat.lt_succ_self _, _, _, _, rfl, found, at_, own⟩
  | takes =>
    rw [quiet.next]
    exact .inl ⟨quiet, rfl⟩
  | stops | unloads => exact .inl ⟨b.quiet_stop, rfl⟩

/-- The runs of a buffer are numbered upwards. -/
theorem Handles.run_le {feed : Nat} {b b' : Buffer} (h : c.Handles feed i b b')
    (inOrder : b.InOrder) : b.queue.run ≤ b'.queue.run := by
  cases h with
  | produces p number => exact Nat.le_of_eq (inOrder.stepProducer c.now p number).2.1.symm
  | starts _ _ _ started =>
    obtain ⟨-, rfl⟩ := Buffer.start_eq_ok started
    exact Nat.le_succ _
  | lacks state =>
    rcases b.startThreadless_cases (some state) with same | ⟨-, begun⟩
    · rw [same]
    · rw [begun]
      exact Nat.le_succ _
  | takes =>
    rw [Buffer.next_eq]
  | _ => exact Nat.le_refl _

theorem HasFeeds.run_le_course (h : c.HasFeeds) {feed : Nat} {f f' : Feed}
    (found : c.feeds[feed]? = some f) {rest : List Incident}
    (found' : (c.course rest).feeds[feed]? = some f') :
    f.buffer.queue.run ≤ f'.buffer.queue.run := by
  induction rest generalizing c f with
  | nil => exact Nat.le_of_eq (Option.some.inj (found.symm.trans found') ▸ rfl)
  | cons i rest ih =>
    obtain ⟨b, after, handles⟩ := (c.handlesFeeds_meet i).kept found
    exact Nat.le_trans (handles.run_le (h.inOrder found)) (ih (h.meet i) after found')

/-- A quiet buffer stays quiet as long as no other run of it begins. -/
theorem HasFeeds.quiet_course (h : c.HasFeeds) {feed : Nat} {f f' : Feed}
    (found : c.feeds[feed]? = some f) (quiet : f.buffer.Quiet) {rest : List Incident}
    (found' : (c.course rest).feeds[feed]? = some f')
    (same : f'.buffer.queue.run = f.buffer.queue.run) : f'.buffer.Quiet := by
  induction rest generalizing c f with
  | nil => exact Option.some.inj (found.symm.trans found') ▸ quiet
  | cons i rest ih =>
    obtain ⟨b, after, handles⟩ := (c.handlesFeeds_meet i).kept found
    have upward : b.queue.run ≤ f'.buffer.queue.run := (h.meet i).run_le_course after found'
    have idle := (h.inOrder found).queue_stepProducer quiet.stage c.now
    rcases handles.quiet idle quiet with ⟨still, run⟩ | ⟨more, -⟩
    · exact ih (h.meet i) after still found' (same.trans run.symm)
    · omega

/-- The feed of a run that has left the loop is quiet. -/
def Parted (c : Controller) (r : Run) : Prop :=
  ∀ outcome feed f, r.point = .concluding outcome → r.feed? = some feed →
    c.feeds[feed]? = some f → f.buffer.Quiet

/-- A run is about to publish its end when it has stopped its feed. -/
theorem Way.of_concluding {signal : Signal} {state : State} {outcome : Outcome}
    (way : c.Way r (.concluding outcome) signal state) : r.point = .leaving outcome := by
  generalize at_' : RunPoint.concluding outcome = point at way
  cases way with
  | onward onward =>
    generalize r.point = before at onward
    cases onward with
    | left => exact RunPoint.concluding.inj at_' ▸ rfl
    | wakes errand => cases errand <;> cases at_'
    | _ => cases at_'
  | _ => cases at_'

/-- A run that leaves the loop stops its feed. -/
theorem stopped_of_leaving {chance : Chance} {outcome : Outcome} {feed : Nat} {f f' : Feed}
    (at_run : c.runs[number]? = some r) (at_ : r.point = .leaving outcome)
    (own : r.feed? = some feed) (found : c.feeds[feed]? = some f)
    (found' : (c.stepRun chance number).feeds[feed]? = some f') : f'.buffer = f.buffer.stop := by
  have left : (c.stepRun chance number).feeds = (c.onBuffer feed Buffer.stop).feeds := by
    simp [stepRun, at_run, at_, leave, own, goTo, setRun]
  rw [left, getElem?_feeds_onBuffer, found, Option.map_some, if_pos rfl] at found'
  exact Option.some.inj found' ▸ rfl

/-- While a run is about to end nothing is queued for it. -/
theorem Executes.quiet_meet (h : c.Executes number r) (feeds : c.HasFeeds) {outcome : Outcome}
    (at_ : r.point = .concluding outcome) {feed : Nat} {f f' : Feed}
    (found : c.feeds[feed]? = some f) (quiet : f.buffer.Quiet)
    (found' : (c.meet i).feeds[feed]? = some f') : f'.buffer.Quiet := by
  obtain ⟨b, after, handles⟩ := (c.handlesFeeds_meet i).kept found
  obtain rfl := Option.some.inj (after.symm.trans found')
  have idle := (feeds.inOrder found).queue_stepProducer quiet.stage c.now
  rcases handles.quiet idle quiet with ⟨still, -⟩ | ⟨-, -, n, q, -, at_run, starting, -⟩
  · exact still
  · -- No other run is in flight that might start the feed.
    obtain rfl := h.alone at_run (by simp [Run.hasEnded, starting])
    obtain rfl := Option.some.inj (h.found.symm.trans at_run)
    cases at_.symm.trans starting

theorem parted_course (settings : Settings) (incidents : List Incident)
    (h : (course { settings } incidents).Executes number r) :
    (course { settings } incidents).Parted r := by
  refine run_invariant settings ?begins ?step incidents h
  case begins => exact fun _ => nofun
  case step =>
    intro c number r r' i feeds h parted h' outcome feed f' at_' own found'
    have own_before : r.feed? = some feed := by
      have same := feed?_of_meet h'.found
      rw [h.found] at same
      exact same.symm.trans own
    have lt := feeds.executed h.found own_before
    have found := Array.getElem?_eq_getElem lt
    rcases h.meet_cases h' with ⟨chance, rfl, goes, -⟩ | ⟨-, hears⟩
    · have leaving := Way.of_concluding (at_' ▸ goes.way)
      rw [stopped_of_leaving h.found leaving own_before found found']
      exact Buffer.quiet_stop _
    · have point : r'.point = r.point := by
        generalize (c.meet i).signal = signal at hears
        cases hears <;> rfl
      rw [point] at at_'
      exact h.quiet_meet feeds at_' found (parted outcome feed _ at_' own_before found) found'

/-- When a run has ended nothing is queued for it, then and later. -/
theorem Executes.quiet_of_ends {settings : Settings} {incidents : List Incident}
    (h : (course { settings } incidents).Executes number r)
    (ends : (course { settings } incidents).ends number i = true) {feed : Nat}
    (own : r.feed? = some feed) :
    ∃ f, ((course { settings } incidents).meet i).feeds[feed]? = some f ∧ f.buffer.Quiet := by
  have feeds := (hasFeeds_fresh settings).course incidents
  have parted := parted_course settings incidents h
  generalize course { settings } incidents = c at *
  obtain ⟨outcome, at_, -⟩ := h.status_of_ends ends
  have found := Array.getElem?_eq_getElem (feeds.executed h.found own)
  obtain ⟨b, after, -⟩ := (c.handlesFeeds_meet i).kept found
  exact ⟨_, after, h.quiet_meet feeds at_ found (parted outcome feed _ at_ own found) after⟩

end

/-- **Nothing begins after a cancel** that is accepted while the run in flight
is suspended: the run begins no command and shows one tick of progress at most,
none of its steps shows a line, and from its end on nothing is queued for it,
as long as no other run begins to read the same feed. -/
theorem nothing_begins_after_cancel (settings : Settings) (incidents : List Incident)
    (accepted : (course { settings } incidents).cancel.1 = .ok ())
    (suspended : ∀ (number : Nat) (r : Run), (course { settings } incidents).runs[number]? = some r →
      r.hasEnded = false → r.point.isSuspended = true) :
    let c := course { settings } incidents
    ∃ number r, c.runs[number]? = some r ∧ r.hasEnded = false ∧ ∀ later,
      c.cancel.2.countSteps number RunPoint.begins later = 0 ∧
      c.cancel.2.countSteps number RunPoint.ticks later ≤ 1 ∧
      (∀ before chance after, later = before ++ .event (.stepRun chance number) :: after →
        let d := c.cancel.2.course before
        (d.stepRun chance number).status.line = d.status.line ∨
          (d.stepRun chance number).status.line = noLine) ∧
      ∀ i feed, (c.cancel.2.course later).ends number i = true → r.feed? = some feed →
        let d := (c.cancel.2.course later).meet i
        ∃ f, d.feeds[feed]? = some f ∧ f.buffer.queue.items = [] ∧
          ∀ (rest : List Incident) (f' : Feed), (d.course rest).feeds[feed]? = some f' →
            f'.buffer.queue.run = f.buffer.queue.run → f'.buffer.queue.items = [] := by
  intro c
  have orderly : c.Orderly := ((orderly_fresh settings).course incidents).orderly
  obtain ⟨allowed, done⟩ := allowing_of_accepted accepted
  obtain ⟨number, r, executes⟩ := orderly.executes_of_allowed rfl allowed
  have after : c.cancel.2.Executes number { r with cancelled := true } := by
    rw [show c.cancel = (.ok (), c.cancelToken) from done]
    exact executes.cancelToken
  have at_ := suspended number r executes.found executes.inFlight
  have outside : r.point.takesCommand = false := by
    cases point : r.point <;> rw [point] at at_ <;> first | rfl | cases at_
  refine ⟨number, r, executes.found, executes.inFlight, fun later => ?_⟩
  obtain ⟨-, none, ticks⟩ := exists_run_of_cancelled after.found rfl outside later
  refine ⟨none, Nat.le_trans ticks r.point.ticksLeft_le_one, fun before chance _ _ => ?_,
    fun i feed ends own => ?_⟩
  · obtain ⟨⟨q, found, -, outside⟩, -⟩ := exists_run_of_cancelled after.found rfl outside before
    refine line_stepRun _ chance found fun command at_ => ?_
    rw [at_] at outside
    cases outside
  · have same : course { settings } (incidents ++ .event .cancel :: later) =
        c.cancel.2.course later := course_event _ incidents .cancel later
    obtain ⟨⟨q, found, feed_eq, -⟩, -⟩ := exists_run_of_cancelled after.found rfl outside later
    have ending : (c.cancel.2.course later).Executes number q := by
      have inFlight := (Bool.and_eq_true_iff.mp ends).1
      obtain ⟨p, ending⟩ := (after.orderly.course later).orderly.executes inFlight
      exact Option.some.inj (ending.found.symm.trans found) ▸ ending
    have feeds : ((c.cancel.2.course later).meet i).HasFeeds :=
      same ▸ ((hasFeeds_fresh settings).course _).meet i
    rw [← same] at ending ends
    obtain ⟨f, at_feed, quiet⟩ := ending.quiet_of_ends ends (feed_eq.trans own)
    rw [same] at at_feed
    exact ⟨f, at_feed, quiet.items, fun rest f' found' run =>
      (feeds.quiet_course at_feed quiet found' run).items⟩

/-- A job that is cancelled while it sleeps in the middle of a command, and does
not notice as its time has come: it shows one tick more and ends. -/
theorem nothing_begins_after_cancel_while_executing :
    let file : RegularFile := ⟨⟨#[71, 49, 10]⟩, by decide, .whole⟩
    let step : Incident := .event (.stepRun {} 0)
    let incidents : List Incident :=
      [.event .powerOn, .event (.open "job" (.file file) ⟨9, 1⟩), .event (.readChunk 0),
        .event (.takeChunk 0), .event (.readChunk 0), .event (.takeChunk 0), .event (.load 0),
        .event (.execute true), step] ++
      List.replicate 6 (.event (.stepProducer 0 0)) ++ List.replicate 6 step
    let c := course { settings := {} } incidents
    let later : List Incident := [.event (.advanceTo 1000000000), step, step, step, step]
    let d := c.cancel.2.course later
    c.cancel.1 = .ok () ∧ d.ends 0 step = true ∧
      c.cancel.2.countSteps 0 RunPoint.begins later = 0 ∧
      c.cancel.2.countSteps 0 RunPoint.ticks later ≤ 1 ∧
      ∃ f, (d.meet step).feeds[0]? = some f ∧ f.buffer.queue.items = [] := by
  intro file step incidents c later d
  have accepted : c.cancel.1 = .ok () := by decide +kernel
  have ends : d.ends 0 step = true := by decide +kernel
  have size : c.runs.size = 1 := by decide +kernel
  have asleep : c.runs[0]?.map (fun r => (r.point.isSuspended, r.feed?)) = some (true, some 0) := by
    decide +kernel
  have at_c : course { settings := {} } incidents = c := rfl
  have only {number : Nat} {r : Run} (found : c.runs[number]? = some r) : number = 0 := by
    have lt := (Array.getElem?_eq_some_iff.mp found).1
    omega
  have suspended (number : Nat) (r : Run) (found : c.runs[number]? = some r) :
      r.point.isSuspended = true := by
    obtain rfl := only found
    rw [found] at asleep
    exact (Prod.mk.inj (Option.some.inj asleep)).1
  have nothing := nothing_begins_after_cancel {} incidents accepted fun number r found _ =>
    suspended number r found
  dsimp only at nothing
  rw [at_c] at nothing
  clear_value c later
  obtain ⟨number, r, found, -, after⟩ := nothing
  obtain rfl := only found
  rw [found] at asleep
  obtain ⟨begins, ticks, -, quiet⟩ := after later
  obtain ⟨f, at_feed, items, -⟩ := quiet step 0 ends (Prod.mk.inj (Option.some.inj asleep)).2
  exact ⟨accepted, ends, begins, ticks, f, at_feed, items⟩

end Controller

end GcodeJob
