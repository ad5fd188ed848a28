import GcodeJob.Proofs.Job.States

/-!
# GcodeJob.Proofs.Job.Endings

How a run ends that was asked to.  The outcome of a run is decided when it
leaves the loop, and what it was asked for counts only if it looks there in
time.

**Main results.**  A cancel decides the outcome unless the run had left the
loop already, or its feed forces it out or it takes a stop before it looks at
its token (`Controller.canceled_iff_of_cancel`).  A stop decides the outcome
unless the run had left the loop already, is cancelled, or was looking for a
command and finds its feed exhausted (`Controller.rests_of_stop`).
-/

namespace GcodeJob

namespace RunPoint

/-- Whether a run may still end with an outcome. -/
def allows (point : RunPoint) (outcome : Outcome) : Bool := point.outcome?.all (· = outcome)

/-- Whether a run looks for a command. -/
def seeks : RunPoint → Bool
  | .heading | .fetching | .polling | .dozing .nextCommand | .asleep .nextCommand _ => true
  | _ => false

/-- On the way a run begins to look for a command only where it would take a stop first. -/
theorem Onward.seeks {point point' : RunPoint} (h : point.Onward point')
    (seeks : point'.seeks = true) : point.seeks = true ∨ point.takesStop = true := by
  cases h with
  | uncancelled | empty => exact .inl rfl
  | polled | unasked => exact .inr rfl
  | sleeps errand | sleepsOn errand | wakes errand =>
    cases errand <;> first | exact .inl rfl | cases seeks
  | _ => cases seeks

/-- Where a run may notice a cancel, nothing is decided yet and nothing else is looked for. -/
theorem of_notices {point : RunPoint} (notices : point.notices = true) :
    point.outcome? = none ∧ point.reads = false ∧ point.takesStop = false := by
  cases point <;> first | exact ⟨rfl, rfl, rfl⟩ | cases notices

/-- Where a run takes a stop, nothing is decided yet and nothing is read. -/
theorem of_takesStop {point : RunPoint} (takes : point.takesStop = true) :
    point.outcome? = none ∧ point.reads = false := by
  cases point <;> first | exact ⟨rfl, rfl⟩ | cases takes

theorem allows_of_outcome?_eq_none {point : RunPoint} (none : point.outcome? = none)
    (outcome : Outcome) : point.allows outcome = true := by
  rw [allows, none]
  rfl

end RunPoint

namespace Controller

/-! ## Ends -/

/-- Whether a run ends by an incident. -/
def ends (c : Controller) (number : Nat) (i : Incident) : Bool :=
  c.isInFlight number && !(c.meet i).isInFlight number

/-- Whether the feed of a run decides its outcome in the next step. -/
def isForced (c : Controller) (r : Run) : Bool := (c.forced? r).isSome

/-- Whether a run leaves the loop in the next step without a look at its token. -/
def quits (c : Controller) (r : Run) : Bool :=
  c.isForced r || r.point.takesStop && decide (c.signal = .stop)

/-- In a course of incidents a run takes a step from where something holds. -/
def StepsWhere (c : Controller) (number : Nat) (holds : Controller → Run → Bool)
    (incidents : List Incident) : Prop :=
  ∃ before chance after r, incidents = before ++ .event (.stepRun chance number) :: after ∧
    (c.course before).runs[number]? = some r ∧ holds (c.course before) r = true

section
variable {c c' : Controller} {number : Nat} {r r' : Run} {holds : Controller → Run → Bool}

theorem not_stepsWhere_nil : ¬c.StepsWhere number holds [] := by
  rintro ⟨before, chance, after, r, eq, -⟩
  simp at eq

theorem stepsWhere_own {chance : Chance} {later : List Incident}
    (found : c.runs[number]? = some r) :
    c.StepsWhere number holds (.event (.stepRun chance number) :: later) ↔
      holds c r = true ∨ (c.stepRun chance number).StepsWhere number holds later := by
  constructor
  · rintro ⟨before, chance', after, q, eq, at_, met⟩
    cases before with
    | nil => exact .inl (Option.some.inj (found.symm.trans at_) ▸ met)
    | cons i before =>
      obtain ⟨rfl, rfl⟩ := List.cons.inj eq
      exact .inr ⟨before, chance', after, q, rfl, at_, met⟩
  · rintro (met | ⟨before, chance', after, q, rfl, at_, met⟩)
    · exact ⟨[], chance, later, r, rfl, found, met⟩
    · exact ⟨_ :: before, chance', after, q, rfl, at_, met⟩

theorem stepsWhere_other {i : Incident} (other : ∀ chance, i ≠ .event (.stepRun chance number))
    {later : List Incident} :
    c.StepsWhere number holds (i :: later) ↔ (c.meet i).StepsWhere number holds later := by
  constructor
  · rintro ⟨before, chance, after, q, eq, at_, met⟩
    cases before with
    | nil => exact absurd (List.cons.inj eq).1 (other chance)
    | cons i before =>
      obtain ⟨rfl, rfl⟩ := List.cons.inj eq
      exact ⟨before, chance, after, q, rfl, at_, met⟩
  · rintro ⟨before, chance, after, q, rfl, at_, met⟩
    exact ⟨i :: before, chance, after, q, rfl, at_, met⟩

/-- What holds of a run that is in flight all the time: for every course of
incidents, by the first of them. -/
theorem Executes.course_induction {P : Controller → Run → List Incident → Prop}
    (nil : ∀ {c r}, c.Executes number r → P c r [])
    (other : ∀ {c r r' i later}, c.Executes number r →
      (∀ chance, i ≠ .event (.stepRun chance number)) → c.Keeps (c.meet i) number r r' →
      P (c.meet i) r' later → P c r (i :: later))
    (own : ∀ {c r r' chance later}, c.Executes number r →
      c.Goes (c.stepRun chance number) number r r' → r'.point ≠ .ended →
      P (c.stepRun chance number) r' later → P c r (.event (.stepRun chance number) :: later))
    (h : c.Executes number r) (later : List Incident)
    (inFlight : (c.course later).isInFlight number = true) : P c r later := by
  induction later generalizing c r with
  | nil => exact nil h
  | cons i later ih =>
    by_cases step : ∃ chance, i = .event (.stepRun chance number)
    · obtain ⟨chance, rfl⟩ := step
      obtain ⟨r', goes⟩ := c.goes_stepRun chance h.found
      obtain ⟨-, still | ⟨-, rests⟩⟩ := h.goes goes
      · have still_ne : r'.point ≠ .ended := by simpa [Run.hasEnded] using still.inFlight
        exact own h goes still_ne (ih still inFlight)
      · -- A run that has ended would not be in flight later.
        have lt : number < (c.stepRun chance number).runs.size := by
          rw [goes.size]
          exact (Array.getElem?_eq_some_iff.mp h.found).1
        have before := (Orderly.course (.inl rests) later).isInFlight number lt inFlight
        rw [rests.isInFlight] at before
        cases before
    · have step : ∀ chance, i ≠ .event (.stepRun chance number) :=
        fun chance eq => step ⟨chance, eq⟩
      obtain ⟨r', keeps⟩ := h.meet step
      exact other h step keeps (ih keeps.executes inFlight)

theorem Way.concludes_of_ended {point : RunPoint} {signal : Signal} {state : State}
    (way : c.Way r point signal state) (inFlight : r.point ≠ .ended) (ended : point = .ended) :
    ∃ outcome, r.point = .concluding outcome := by
  cases way with
  | concludes at_ => exact ⟨_, at_⟩
  | onward onward => exact absurd ended (onward.ne_ended inFlight)
  | _ => cases ended

/-- The run in flight stays in flight, or it ends and leaves the controller at rest. -/
theorem Executes.meet_or_ends (h : c.Executes number r) (i : Incident) :
    (∃ r', (c.meet i).Executes number r') ∨ c.ends number i = true ∧ (c.meet i).Rests := by
  by_cases own : ∃ chance, i = .event (.stepRun chance number)
  · obtain ⟨chance, rfl⟩ := own
    obtain ⟨r', goes⟩ := c.goes_stepRun chance h.found
    obtain ⟨-, still | ⟨-, rests⟩⟩ := h.goes goes
    · exact .inl ⟨r', still⟩
    · refine .inr ⟨?_, rests⟩
      have ended := rests.isInFlight number
      simp only [Controller.ends, h.isInFlight, Bool.true_and]
      exact (congrArg (!·) ended).trans rfl
  · obtain ⟨r', keeps⟩ := h.meet fun chance same => own ⟨chance, same⟩
    exact .inl ⟨r', keeps.executes⟩

/-- A run ends by its own last step, which publishes its outcome. -/
theorem Executes.status_of_ends (h : c.Executes number r) {i : Incident}
    (ends : c.ends number i = true) : ∃ outcome, r.point = .concluding outcome ∧
      (c.meet i).status.state = outcome.state ∧
      (outcome = .stopped →
        (c.meet i).status.line = noLine ∧ (c.meet i).status.progress = .zero) := by
  have ended : (c.meet i).isInFlight number = false := by
    simpa using (Bool.and_eq_true_iff.mp ends).2
  by_cases own : ∃ chance, i = .event (.stepRun chance number)
  · obtain ⟨chance, rfl⟩ := own
    obtain ⟨r', goes⟩ := c.goes_stepRun chance h.found
    obtain ⟨-, still | ⟨gone, -⟩⟩ := h.goes goes
    · cases still.isInFlight.symm.trans ended
    have inFlight : r.point ≠ .ended := by simpa [Run.hasEnded] using h.inFlight
    have ended' : r'.point = .ended := by simpa [Run.hasEnded] using gone
    obtain ⟨outcome, at_⟩ := goes.way.concludes_of_ended inFlight ended'
    have step : c.meet (.event (.stepRun chance number)) = c.conclude number r outcome := by
      simp [Controller.meet, after, stepRun, h.found, at_]
    refine ⟨outcome, at_, ?_⟩
    rw [step]
    cases outcome <;> simp [conclude, goTo, setRun, publish, Status.setLine, Outcome.state]
  · obtain ⟨r', keeps⟩ := h.meet fun chance eq => own ⟨chance, eq⟩
    cases keeps.executes.isInFlight.symm.trans ended

/-- An operation that is accepted was allowed, and did what it is for. -/
theorem allowing_of_accepted {o : Operation} {act : Controller → Reply}
    (accepted : (c.allowing o act).1 = .ok ()) :
    c.status.state ∈ o.allowed ∧ c.allowing o act = act c := by
  rcases c.allowing_cases o act with ⟨e, refused⟩ | allowed
  · rw [refused] at accepted
    cases accepted
  · exact allowed

/-- A signal that is accepted is noted. -/
theorem request_of_accepted {o : Operation} {signal : Signal}
    (accepted : (c.request o signal).1 = .ok ()) :
    c.status.state ∈ o.allowed ∧ c.request o signal = (.ok (), { c with signal }) := by
  unfold Controller.request at accepted ⊢
  split at accepted
  · cases accepted
  next none =>
    rw [if_neg none]
    exact allowing_of_accepted accepted

/-- What is accepted for a run in flight finds one. -/
theorem Orderly.executes_of_allowed (h : c.Orderly) {o : Operation} (forRun : o.isForRun = true)
    (allowed : c.status.state ∈ o.allowed) : ∃ number r, c.Executes number r := by
  rcases h with rests | executes
  · rw [← Operation.isActive_of_allowed allowed, rests.state] at forRun
    cases forRun
  · exact executes

/-! ## After a cancel -/

theorem quits_eq_false_iff : c.quits r = false ↔
    c.forced? r = none ∧ (r.point.takesStop = true → c.signal ≠ .stop) := by
  simp [quits, isForced]

/-- A cancelled run goes on to a place from which it may end as canceled just
if it could before and does not quit. -/
theorem Way.allows_canceled {point : RunPoint} {signal : Signal} {state : State}
    (way : c.Way r point signal state) (still : point ≠ .ended) :
    point.allows .canceled = true ↔ r.point.allows .canceled = true ∧ c.quits r = false := by
  -- Most ways lead from a place where nothing is decided to another one.
  have stays (before : r.point.outcome? = none) (after : point.allows .canceled = true)
      (free : c.forced? r = none) (on : r.point.takesStop = true → c.signal ≠ .stop) :
      point.allows .canceled = true ↔ r.point.allows .canceled = true ∧ c.quits r = false := by
    simp only [after, RunPoint.allows_of_outcome?_eq_none before, quits_eq_false_iff, true_and,
      true_iff]
    exact ⟨free, on⟩
  cases way with
  | onward onward free _ on =>
    simp only [RunPoint.allows, onward.outcome?_eq, quits_eq_false_iff]
    exact ⟨fun allows => ⟨allows, free, on⟩, And.left⟩
  | announces at_ =>
    exact stays (at_ ▸ rfl) rfl (forced?_eq_none (at_ ▸ rfl)) (by simp [at_, RunPoint.takesStop])
  | notices _ notices =>
    obtain ⟨none, elsewhere, quiet⟩ := RunPoint.of_notices notices
    exact stays none rfl (forced?_eq_none elsewhere) (by simp [quiet])
  | stops takes pending =>
    simp [RunPoint.allows, RunPoint.outcome?, quits, takes, pending]
  | pauses takes pending | resumes takes pending =>
    obtain ⟨none, elsewhere⟩ := RunPoint.of_takesStop (RunPoint.takesStop_of_takesPause takes)
    exact stays none rfl (forced?_eq_none elsewhere) (by simp [pending])
  | @forced outcome forced =>
    have other : outcome ≠ .canceled := by
      rcases forced?_eq_some forced with ⟨rfl, -⟩ | ⟨rfl | rfl, -⟩ <;> decide
    simp [RunPoint.allows, RunPoint.outcome?, other, quits, isForced, forced]
  | concludes => exact absurd rfl still

/-- A cancelled run that is in flight all the time. -/
theorem Executes.allows_canceled (h : c.Executes number r) (cancelled : r.cancelled = true)
    {later : List Incident} (inFlight : (c.course later).isInFlight number = true) {q : Run}
    (found : (c.course later).runs[number]? = some q) :
    q.point.allows .canceled = true ↔
      r.point.allows .canceled = true ∧ ¬c.StepsWhere number quits later := by
  refine Executes.course_induction (P := fun c r later => r.cancelled = true →
    (c.course later).runs[number]? = some q → (q.point.allows .canceled = true ↔
      r.point.allows .canceled = true ∧ ¬c.StepsWhere number quits later))
    (fun h _ found => ?_) (fun h other keeps ih cancelled found => ?_)
    (fun h goes still ih cancelled found => ?_) h later inFlight cancelled found
  · rw [Option.some.inj (h.found.symm.trans found)]
    simp [not_stepsWhere_nil]
  · rw [ih (keeps.cancelled cancelled) found, keeps.point, stepsWhere_other other]
  · rw [ih (goes.cancelled.trans cancelled) found, goes.way.allows_canceled still,
      stepsWhere_own h.found]
    grind

/-- **A cancel decides the outcome** of the run in flight, unless this run is
on its way out with another one, or it quits by itself before it looks at its
token: its feed forces it out, or it takes a stop. -/
theorem canceled_iff_of_cancel (settings : Settings) (incidents : List Incident)
    (accepted : (course { settings } incidents).cancel.1 = .ok ()) :
    let c := course { settings } incidents
    ∃ number r, c.runs[number]? = some r ∧ r.hasEnded = false ∧
      ∀ later i, (c.cancel.2.course later).ends number i = true →
        (((c.cancel.2.course later).meet i).status.state = .canceled ↔
          r.point.allows .canceled = true ∧ ¬c.cancel.2.StepsWhere number quits later) := by
  intro c
  have orderly : c.Orderly := ((orderly_fresh settings).course incidents).orderly
  obtain ⟨allowed, eq⟩ := allowing_of_accepted accepted
  obtain ⟨number, r, executes⟩ := orderly.executes_of_allowed rfl allowed
  have after : c.cancel.2.Executes number { r with cancelled := true } := by
    rw [show c.cancel = (.ok (), c.cancelToken) from eq]
    exact executes.cancelToken
  refine ⟨number, r, executes.found, executes.inFlight, fun later i ends => ?_⟩
  have inFlight := (Bool.and_eq_true_iff.mp ends).1
  obtain ⟨q, executes'⟩ := (after.orderly.course later).orderly.executes inFlight
  obtain ⟨outcome, at_, state, -⟩ := executes'.status_of_ends ends
  rw [← after.allows_canceled rfl inFlight executes'.found, at_, state]
  cases outcome <;> decide

/-- A job that waits for its index, is cancelled there and ends: it did not
quit by itself, so it is canceled. -/
theorem canceled_while_indexing :
    let file : RegularFile := ⟨⟨#[71, 49, 10]⟩, by decide, .whole⟩
    let step : Incident := .event (.stepRun {} 0)
    let incidents : List Incident := [.event .powerOn, .event (.open "job" (.file file) ⟨9, 1⟩),
      .event (.load 0), .event (.execute true), step, step]
    let c := course { settings := {} } incidents
    let d := c.cancel.2.course [step, step]
    c.cancel.1 = .ok () ∧ d.ends 0 step = true ∧ (d.meet step).status.state = .canceled ∧
      ¬c.cancel.2.StepsWhere 0 quits [step, step] := by
  intro file step incidents c d
  have accepted : c.cancel.1 = .ok () := by decide +kernel
  have ends : d.ends 0 step = true := by decide +kernel
  have state : (d.meet step).status.state = .canceled := by decide +kernel
  have size : c.runs.size = 1 := by decide +kernel
  have at_c : course { settings := {} } incidents = c := rfl
  have decided := canceled_iff_of_cancel {} incidents accepted
  dsimp only at decided
  rw [at_c] at decided
  -- From here on it is any controller of which this much is known.
  clear_value c
  obtain ⟨number, r, found, -, iff⟩ := decided
  obtain rfl : number = 0 := by
    have lt := (Array.getElem?_eq_some_iff.mp found).1
    omega
  exact ⟨accepted, ends, state, ((iff _ _ ends).mp state).2⟩

/-- A job with nothing loaded that is cancelled before it looks for its feed:
it fails all the same. -/
theorem failed_after_cancel :
    let step : Incident := .event (.stepRun {} 0)
    let c := course { settings := {} } [.event .powerOn, .event (.execute true)]
    let d := c.cancel.2.course [step, step]
    c.cancel.1 = .ok () ∧ d.ends 0 step = true ∧ (d.meet step).status.state = .failed := by
  decide +kernel

/-! ## After a stop -/

/-- A stop waits for a run or has been taken by it. -/
def Stopping (c : Controller) (r : Run) : Prop :=
  c.signal = .stop ∧ r.point.outcome? = none ∨ r.point.outcome? = some .stopped

theorem Stopping.allows (h : c.Stopping r) : r.point.allows .stopped = true := by
  rcases h with ⟨-, none⟩ | taken
  · exact RunPoint.allows_of_outcome?_eq_none none _
  · simp [RunPoint.allows, taken]

/-- A stop waits only while commands are executed or the job is paused. -/
theorem Executes.not_waiting_of_stop (h : c.Executes number r) (pending : c.signal = .stop) :
    c.status.state ≠ .waiting := by
  have allowed := h.signal .stop (by rw [pending]; rfl)
  intro waiting
  rw [waiting] at allowed
  revert allowed
  decide

/-- A run that is not cancelled and not forced out goes on to take a stop that
waits for it, and it does not look for a command before it has. -/
theorem Executes.stopping_of_way (h : c.Executes number r) (stopping : c.Stopping r)
    (uncancelled : r.cancelled = false) (free : r.point.seeks = true → c.forced? r = none)
    {point : RunPoint} {signal : Signal} {state : State} (way : c.Way r point signal state)
    (still : point ≠ .ended) :
    (signal = .stop ∧ point.outcome? = none ∨ point.outcome? = some .stopped) ∧
      (point.seeks = true → r.point.seeks = true) := by
  have pending (none : r.point.outcome? = none) : c.signal = .stop := by
    rcases stopping with ⟨pending, -⟩ | taken
    · exact pending
    · cases none.symm.trans taken
  have not_waiting (at_ : r.point.states = [.waiting]) (none : r.point.outcome? = none) : False :=
    h.not_waiting_of_stop (pending none) (List.mem_singleton.mp (at_ ▸ h.state))
  cases way with
  | onward onward _ _ on =>
    refine ⟨onward.outcome?_eq ▸ stopping, fun seeks => (onward.seeks seeks).resolve_right ?_⟩
    exact fun takes => on takes (pending (RunPoint.of_takesStop takes).1)
  | announces at_ => exact (not_waiting (at_ ▸ rfl) (at_ ▸ rfl)).elim
  | notices cancelled => cases uncancelled.symm.trans cancelled
  | stops => exact ⟨.inr rfl, nofun⟩
  | pauses takes other | resumes takes other =>
    have none := (RunPoint.of_takesStop (RunPoint.takesStop_of_takesPause takes)).1
    cases (pending none).symm.trans other
  | forced forced =>
    rcases forced?_eq_some forced with ⟨-, at_ | at_⟩ | ⟨-, at_⟩
    · exact (not_waiting (at_ ▸ rfl) (at_ ▸ rfl)).elim
    · exact (not_waiting (at_ ▸ rfl) (at_ ▸ rfl)).elim
    · cases (free (at_ ▸ rfl)).symm.trans forced
  | concludes => exact absurd rfl still

/-- A run in flight all the time for which a stop waits. -/
theorem Executes.allows_stopped (h : c.Executes number r) (stopping : c.Stopping r)
    {later : List Incident} (inFlight : (c.course later).isInFlight number = true)
    (free : r.point.seeks = true → ¬c.StepsWhere number isForced later) {q : Run}
    (found : (c.course later).runs[number]? = some q) (uncancelled : q.cancelled = false) :
    q.point.allows .stopped = true := by
  refine (Executes.course_induction (P := fun c r later =>
    (c.course later).runs[number]? = some q → r.cancelled = false ∧
      (c.Stopping r → (r.point.seeks = true → ¬c.StepsWhere number isForced later) →
        q.point.allows .stopped = true))
    (fun h found => ?_) (fun h other keeps ih found => ?_) (fun h goes still ih found => ?_)
    h later inFlight found).2 stopping free
  · rw [Option.some.inj (h.found.symm.trans found)]
    exact ⟨uncancelled, fun stopping _ => stopping.allows⟩
  · obtain ⟨uncancelled', allows⟩ := ih found
    refine ⟨?_, fun stopping free => allows ?_ ?_⟩
    · by_contra cancelled
      rw [keeps.cancelled (by simpa using cancelled)] at uncancelled'
      cases uncancelled'
    · rw [Stopping, keeps.point]
      exact stopping.imp_left (And.imp_left keeps.stop)
    · rw [keeps.point, ← stepsWhere_other other]
      exact free
  · obtain ⟨uncancelled', allows⟩ := ih found
    rw [goes.cancelled] at uncancelled'
    refine ⟨uncancelled', fun stopping free => ?_⟩
    rw [stepsWhere_own h.found] at free
    have unforced (seeks : _) : _ := not_or.mp (free seeks)
    obtain ⟨stopping', seeks⟩ := h.stopping_of_way stopping uncancelled'
      (fun seeks => by simpa [isForced] using (unforced seeks).1) goes.way still
    exact allows stopping' fun seeks' => (unforced (seeks seeks')).2

/-- **A stop decides the outcome** of the run in flight, unless it is on its
way out already, it is cancelled, or it was looking for a command and its feed
then forces it out.  The job ends at rest, with no line and no progress. -/
theorem rests_of_stop (settings : Settings) (incidents : List Incident)
    (accepted : (course { settings } incidents).stop.1 = .ok ()) :
    let c := course { settings } incidents
    ∃ number r, c.runs[number]? = some r ∧ r.hasEnded = false ∧
      ∀ later i q, (c.stop.2.course later).ends number i = true →
        (c.stop.2.course later).runs[number]? = some q → q.cancelled = false →
        r.point.allows .stopped = true →
        (r.point.seeks = true → ¬c.stop.2.StepsWhere number isForced later) →
        let status := ((c.stop.2.course later).meet i).status
        status.state = .idle ∧ status.line = noLine ∧ status.progress = .zero := by
  intro c
  have orderly : c.Orderly := ((orderly_fresh settings).course incidents).orderly
  obtain ⟨allowed, eq⟩ := request_of_accepted accepted
  obtain ⟨number, r, executes⟩ := orderly.executes_of_allowed rfl allowed
  have after : c.stop.2.Executes number r := by
    rw [show c.stop = (.ok (), { c with signal := .stop }) from eq]
    exact executes.note rfl allowed
  have pending : c.stop.2.signal = .stop := by
    rw [show c.stop = (.ok (), { c with signal := .stop }) from eq]
  refine ⟨number, r, executes.found, executes.inFlight,
    fun later i q ends found uncancelled allows free => ?_⟩
  have stopping : c.stop.2.Stopping r := by
    cases decided : r.point.outcome? with
    | none => exact .inl ⟨pending, decided⟩
    | some outcome => exact .inr (by simpa [RunPoint.allows, decided] using allows)
  have inFlight := (Bool.and_eq_true_iff.mp ends).1
  obtain ⟨q', executes'⟩ := (after.orderly.course later).orderly.executes inFlight
  obtain rfl := Option.some.inj (found.symm.trans executes'.found)
  obtain ⟨outcome, at_, state, nothing⟩ := executes'.status_of_ends ends
  have stopped := after.allows_stopped stopping inFlight free found uncancelled
  rw [at_] at stopped
  obtain rfl : outcome = .stopped := by simpa [RunPoint.allows, RunPoint.outcome?] using stopped
  exact ⟨state, nothing rfl⟩

/-- A job that is stopped while it executes a command. -/
theorem rests_of_stop_while_executing :
    let file : RegularFile := ⟨⟨#[71, 49, 10]⟩, by decide, .whole⟩
    let step : Incident := .event (.stepRun { word := 0xffffffff } 0)
    let incidents : List Incident :=
      [.event .powerOn, .event (.open "job" (.file file) ⟨9, 1⟩), .event (.readChunk 0),
        .event (.takeChunk 0), .event (.readChunk 0), .event (.takeChunk 0), .event (.load 0),
        .event (.execute true), step] ++
      List.replicate 6 (.event (.stepProducer 0 0)) ++ List.replicate 5 step
    let c := course { settings := {} } incidents
    let later : List Incident := ((List.range 29).flatMap fun second =>
      [.event (.advanceTo (second * 1000000000)), step, step]) ++ [step]
    let d := c.stop.2.course later
    c.stop.1 = .ok () ∧ d.ends 0 step = true ∧ (d.meet step).status.state = .idle ∧
      (d.meet step).status.line = noLine := by
  intro file step incidents c later d
  have accepted : c.stop.1 = .ok () := by decide +kernel
  have ends : d.ends 0 step = true := by decide +kernel
  have size : c.runs.size = 1 := by decide +kernel
  have executing : c.runs[0]?.map (fun r => (r.point.allows .stopped, r.point.seeks)) =
    some (true, false) := by decide +kernel
  have uncancelled : d.runs[0]?.map (·.cancelled) = some false := by decide +kernel
  have at_c : course { settings := {} } incidents = c := rfl
  have decided := rests_of_stop {} incidents accepted
  dsimp only at decided
  rw [at_c] at decided
  clear_value c later
  obtain ⟨number, r, found, -, rests⟩ := decided
  obtain rfl : number = 0 := by
    have lt := (Array.getElem?_eq_some_iff.mp found).1
    omega
  rw [found] at executing
  obtain ⟨allows, executing⟩ := Prod.mk.inj (Option.some.inj executing)
  obtain ⟨q, found', uncancelled⟩ := Option.map_eq_some_iff.mp uncancelled
  obtain ⟨idle, line, -⟩ := rests later step q ends found' uncancelled allows fun seeks => by
    cases executing.symm.trans seeks
  exact ⟨accepted, ends, idle, line⟩

/-- A job that is stopped while there is no command yet, and whose program is
then closed: the stop is not looked at and the job fails. -/
theorem failed_after_stop :
    let file : RegularFile := ⟨⟨#[71, 49, 10]⟩, by decide, .whole⟩
    let step : Incident := .event (.stepRun {} 0)
    let c := course { settings := {} } <|
      [.event .powerOn, .event (.open "job" (.file file) ⟨9, 1⟩), .event (.readChunk 0),
        .event (.takeChunk 0), .event (.readChunk 0), .event (.takeChunk 0), .event (.load 0),
        .event (.execute true)] ++ List.replicate 7 step
    let d := c.stop.2.course <|
      [.event (.markClosed 0), .event (.stepProducer 0 0), .event (.stepProducer 0 0),
        .event (.stepProducer 0 0), .event (.advanceTo 1000000000)] ++ List.replicate 4 step
    c.stop.1 = .ok () ∧ d.ends 0 step = true ∧ (d.meet step).status.state = .failed := by
  decide +kernel

end

end Controller

end GcodeJob
