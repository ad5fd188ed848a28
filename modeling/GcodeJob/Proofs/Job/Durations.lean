import GcodeJob.Proofs.Job.Schedule
import GcodeJob.Proofs.Job.Stopwatch

/-!
# GcodeJob.Proofs.Job.Durations

How long commands take.  The stopwatch of a run is started where execution
begins, it stands where the run is paused, and what it shows is read where a
command is finished (`Controller.Paces`).  So it runs exactly while the state
that is shown is that of a job being executed (`Run.Timed`), what a command
took is never below zero, and the sum of all is what the stopwatch showed at
the last finish.

**Main result** (`Controller.running_time`).
-/

namespace GcodeJob

/-- A run in flight that is not on its way out is at a place of one state. -/
theorem RunPoint.exists_states {point : RunPoint} (inFlight : point ≠ .ended)
    (staying : point.outcome? = none) : ∃ state, point.states = [state] := by
  cases point with
  | leaving | concluding => cases staying
  | ended => exact absurd rfl inFlight
  | _ => exact ⟨_, rfl⟩

namespace Controller

/-- How long a state is shown along a course of incidents. -/
def timeIn (c : Controller) (state : State) : List Incident → Nat
  | [] => 0
  | i :: later =>
    (if c.status.state = state then (c.meet i).now - c.now else 0) + (c.meet i).timeIn state later

/-- A finished command: what the stopwatch shows, and what the command took. -/
structure Finish where
  reading : Nat
  duration : Nat
  deriving DecidableEq, Repr

/-- The command that a run finishes by a step of its own. -/
def finish? (c : Controller) (number : Nat) : Incident → Option Finish
  | .event (.stepRun _ n) =>
    if n = number then
      c.runs[number]?.bind fun r =>
        match r.point with
        | .recording _ =>
          some ⟨r.stopwatch.elapsed c.now, r.stopwatch.elapsed c.now - r.lastFinish⟩
        | _ => none
    else none
  | _ => none

/-- The commands that a run finishes along a course of incidents. -/
def finishes (c : Controller) (number : Nat) : List Incident → List Finish
  | [] => []
  | i :: later => (c.finish? number i).toList ++ (c.meet i).finishes number later

/-! ## The stopwatch in one step -/

/-- What a step of a run makes of its stopwatch and of what it showed at the
last finish, by the place where the step leads.  A place that belongs to one
state alone comes from one that belongs to the same state, but for the ways
into and out of a pause and for the begin of the execution. -/
inductive Paces (now : Nat) (r : Run) : RunPoint → Stopwatch → Nat → Prop
  | keeps {point : RunPoint} : (∀ command, r.point ≠ .recording command) →
    (∀ state, point.states = [state] → r.point.states = [state]) →
    Paces now r point r.stopwatch r.lastFinish
  | announces : r.point = .announcing → Paces now r .heading (.started now) 0
  | records {command : Issued} : r.point = .recording command →
    Paces now r .checkpoint r.stopwatch (r.stopwatch.elapsed now)
  | pauses : r.point = .checkpoint → Paces now r (.dozing .signal) (r.stopwatch.pause now) r.lastFinish
  | resumes : r.point = .holding → Paces now r .heading (r.stopwatch.start now) r.lastFinish
  | stops : r.point = .holding → Paces now r (.leaving .stopped) (r.stopwatch.start now) r.lastFinish

/-- A step of a run, as far as it concerns its stopwatch. -/
structure Measures (c c' : Controller) (number : Nat) (r r' : Run) : Prop where
  paces : Paces c.now r r'.point r'.stopwatch r'.lastFinish
  runs : c'.runs = c.runs.setIfInBounds number r'
  now : c'.now = c.now

section
variable {c : Controller} {number : Nat} {r : Run}

/-- A step that only moves the run, after something has happened to anything but runs and clock. -/
theorem Measures.of_goTo {c' : Controller} {point : RunPoint} (runs : c'.runs = c.runs)
    (now : c'.now = c.now) (quiet : ∀ command, r.point ≠ .recording command)
    (states : ∀ state, point.states = [state] → r.point.states = [state]) :
    c.Measures (c'.goTo number r point) number r { r with point } :=
  ⟨.keeps quiet states, by rw [← runs]; rfl, now⟩

theorem measures_startFeed (at_ : r.point = .starting) :
    ∃ r', c.Measures (c.startFeed number r) number r r' := by
  have quiet (command : Issued) : r.point ≠ .recording command := by rw [at_]; nofun
  have failed : c.Measures (c.goTo number r (.leaving .failed)) number r _ :=
    .of_goTo rfl rfl quiet nofun
  unfold startFeed
  split
  next => exact ⟨_, failed⟩
  next =>
    split
    next =>
      split
      next => exact ⟨_, failed⟩
      next => exact ⟨_, .of_goTo rfl rfl quiet fun _ only => at_ ▸ only⟩
    next => exact ⟨_, .of_goTo rfl rfl quiet nofun⟩

theorem measures_lookAtIndex (at_ : r.point = .indexing) :
    ∃ r', c.Measures (c.lookAtIndex number r) number r r' := by
  refine ⟨_, .of_goTo rfl rfl (by rw [at_]; nofun) ?_⟩
  split
  next => exact fun _ only => at_ ▸ only
  next => exact fun _ only => at_ ▸ only
  all_goals nofun

theorem measures_head (at_ : r.point = .heading) :
    ∃ r', c.Measures (c.goTo number r (if r.cancelled then .leaving .canceled else .fetching))
      number r r' := by
  refine ⟨_, .of_goTo rfl rfl (by rw [at_]; nofun) ?_⟩
  split
  next => nofun
  next => exact fun _ only => at_ ▸ only

theorem measures_fetch (at_ : r.point = .fetching) :
    ∃ r', c.Measures (c.fetch number r) number r r' := by
  have quiet (command : Issued) : r.point ≠ .recording command := by rw [at_]; nofun
  unfold fetch
  split
  next => exact ⟨_, .of_goTo rfl rfl quiet nofun⟩
  next =>
    refine ⟨_, .of_goTo rfl rfl quiet ?_⟩
    split
    case h_4 => nofun
    all_goals exact fun _ only => at_ ▸ only

theorem measures_poll (at_ : r.point = .polling) :
    ∃ r', c.Measures (c.poll number r) number r r' := by
  have quiet (command : Issued) : r.point ≠ .recording command := by rw [at_]; nofun
  unfold poll
  split
  next => exact ⟨_, .of_goTo rfl rfl quiet nofun⟩
  next => exact ⟨_, .of_goTo rfl rfl quiet fun _ only => at_ ▸ only⟩

theorem measures_doze {errand : Errand} (at_ : r.point = .dozing errand) :
    ∃ r', c.Measures (c.doze number r errand) number r r' := by
  refine ⟨_, .of_goTo rfl rfl (by rw [at_]; nofun) ?_⟩
  split
  next => nofun
  next => exact fun _ only => at_ ▸ only

theorem measures_wake (chance : Chance) (found : c.runs[number]? = some r) {errand : Errand}
    {moment : Nat} (at_ : r.point = .asleep errand moment) :
    ∃ r', c.Measures (c.wake chance number r errand moment) number r r' := by
  have quiet (command : Issued) : r.point ≠ .recording command := by rw [at_]; nofun
  unfold wake
  split
  next => exact ⟨_, .of_goTo rfl rfl quiet fun _ only => by cases errand <;> exact at_ ▸ only⟩
  next =>
    split
    next => exact ⟨_, .of_goTo rfl rfl quiet nofun⟩
    next => exact ⟨r, .keeps quiet fun _ => id, (setIfInBounds_of_getElem? found).symm, rfl⟩

theorem measures_tick (chance : Chance) {command : Issued} {progress : Single}
    (at_ : r.point = .advancing command progress) :
    ∃ r', c.Measures (c.tick chance number r command progress) number r r' := by
  refine ⟨_, .of_goTo rfl rfl (by rw [at_]; nofun) ?_⟩
  split <;> exact fun _ only => at_ ▸ only

theorem measures_recordTime {command : Issued} (at_ : r.point = .recording command) :
    ∃ r', c.Measures (c.recordTime number r command) number r r' := by
  unfold recordTime
  dsimp only
  split
  · rw [onFeed_eq]
    exact ⟨_, .records at_, rfl, rfl⟩
  · exact ⟨_, .records at_, rfl, rfl⟩

theorem measures_check (at_ : r.point = .checkpoint) :
    ∃ r', c.Measures (c.check number r) number r r' := by
  have quiet (command : Issued) : r.point ≠ .recording command := by rw [at_]; nofun
  unfold check takeSignal
  cases c.signal with
  | pause => exact ⟨_, .pauses at_, rfl, rfl⟩
  | stop => exact ⟨_, .of_goTo rfl rfl quiet nofun⟩
  | none | resume => exact ⟨_, .of_goTo rfl rfl quiet fun _ only => at_ ▸ only⟩

theorem measures_hold (at_ : r.point = .holding) :
    ∃ r', c.Measures (c.hold number r) number r r' := by
  have quiet (command : Issued) : r.point ≠ .recording command := by rw [at_]; nofun
  unfold hold takeSignal
  cases c.signal with
  | resume => exact ⟨_, .resumes at_, rfl, rfl⟩
  | stop => exact ⟨_, .stops at_, rfl, rfl⟩
  | none | pause => exact ⟨_, .of_goTo rfl rfl quiet fun _ only => at_ ▸ only⟩

theorem measures_leave {outcome : Outcome} (at_ : r.point = .leaving outcome) :
    ∃ r', c.Measures (c.leave number r outcome) number r r' := by
  have quiet (command : Issued) : r.point ≠ .recording command := by rw [at_]; nofun
  unfold leave
  dsimp only
  split <;> exact ⟨_, .of_goTo rfl rfl quiet fun _ only => at_ ▸ only⟩

/-- **One step of a run**, as far as it concerns its stopwatch. -/
theorem measures_stepRun (c : Controller) (chance : Chance) {number : Nat} {r : Run}
    (found : c.runs[number]? = some r) :
    ∃ r', c.Measures (c.stepRun chance number) number r r' := by
  unfold stepRun
  rw [found]
  dsimp only
  cases at_ : r.point with
  | starting => exact measures_startFeed at_
  | indexing => exact measures_lookAtIndex at_
  | announcing => exact ⟨_, .announces at_, rfl, rfl⟩
  | heading => exact measures_head at_
  | fetching => exact measures_fetch at_
  | polling => exact measures_poll at_
  | beginning => exact ⟨_, .of_goTo rfl rfl (by rw [at_]; nofun) fun _ only => at_ ▸ only⟩
  | dozing => exact measures_doze at_
  | asleep => exact measures_wake chance found at_
  | advancing => exact measures_tick chance at_
  | recording => exact measures_recordTime at_
  | checkpoint => exact measures_check at_
  | holding => exact measures_hold at_
  | leaving => exact measures_leave at_
  | concluding => exact ⟨_, .of_goTo rfl rfl (by rw [at_]; nofun) nofun⟩
  | ended =>
    exact ⟨r, .keeps (by rw [at_]; nofun) fun _ => id, (setIfInBounds_of_getElem? found).symm, rfl⟩

/-! ## What the stopwatch shows -/

/-- The stopwatch of a run at a place, and what it showed at the last finish. -/
structure Timed (now : Nat) (point : RunPoint) (w : Stopwatch) (lastFinish : Nat) : Prop where
  started : w.StartedBy now
  finish : lastFinish ≤ w.elapsed now
  waiting : point.states = [.waiting] → w = {} ∧ lastFinish = 0
  printing : point.states = [.printing] → w.isRunning = true
  paused : point.states = [.paused] → w.isRunning = false

theorem Timed.mono {now later lastFinish : Nat} {point : RunPoint} {w : Stopwatch}
    (h : Timed now point w lastFinish) (le : now ≤ later) : Timed later point w lastFinish :=
  { h with
    started := h.started.mono le
    finish := Nat.le_trans h.finish (h.started.elapsed_mono le) }

/-- A step keeps all that is known of the stopwatch. -/
theorem Timed.paces {now lastFinish : Nat} {point : RunPoint} {w : Stopwatch}
    (h : Timed now r.point r.stopwatch r.lastFinish) (paces : Paces now r point w lastFinish) :
    Timed now point w lastFinish := by
  cases paces with
  | keeps _ states =>
    exact ⟨h.started, h.finish, fun only => h.waiting (states _ only),
      fun only => h.printing (states _ only), fun only => h.paused (states _ only)⟩
  | announces =>
    have fresh : Stopwatch.StartedBy {} now := Stopwatch.startedBy_of_not_running rfl
    exact ⟨fresh.start (Nat.le_refl _), Nat.zero_le _, nofun, fun _ => rfl, nofun⟩
  | records at_ =>
    exact ⟨h.started, Nat.le_refl _, nofun, fun _ => h.printing (at_ ▸ rfl), nofun⟩
  | pauses =>
    have still := r.stopwatch.isRunning_pause now
    refine ⟨Stopwatch.startedBy_of_not_running still, ?_, nofun, nofun, fun _ => still⟩
    rw [Stopwatch.elapsed_pause]
    exact h.finish
  | resumes =>
    refine ⟨h.started.start (Nat.le_refl _), ?_, nofun, fun _ => rfl, nofun⟩
    rw [Stopwatch.elapsed_start]
    exact h.finish
  | stops =>
    refine ⟨h.started.start (Nat.le_refl _), ?_, nofun, nofun, nofun⟩
    rw [Stopwatch.elapsed_start]
    exact h.finish

/-- A step takes no time, so the stopwatch shows after it what it showed before. -/
theorem Timed.elapsed_paces {now lastFinish : Nat} {point : RunPoint} {w : Stopwatch}
    (h : Timed now r.point r.stopwatch r.lastFinish) (paces : Paces now r point w lastFinish) :
    w.elapsed now = r.stopwatch.elapsed now := by
  cases paces with
  | keeps | records => rfl
  | announces at_ =>
    rw [Stopwatch.started, Stopwatch.elapsed_start, (h.waiting (at_ ▸ rfl)).1]
  | pauses => exact Stopwatch.elapsed_pause ..
  | resumes | stops => exact Stopwatch.elapsed_start ..

/-- A place that belongs to one state alone comes from such a place. -/
theorem Paces.exists_states {now lastFinish : Nat} {point : RunPoint} {w : Stopwatch}
    (paces : Paces now r point w lastFinish) {state : State} (only : point.states = [state]) :
    ∃ state, r.point.states = [state] := by
  cases paces with
  | keeps _ states => exact ⟨state, states state only⟩
  | announces at_ | records at_ | pauses at_ | resumes at_ => exact ⟨_, congrArg RunPoint.states at_⟩
  | stops => cases only

/-- The stopwatch runs where execution is shown. -/
theorem Timed.isRunning_eq {now lastFinish : Nat} {point : RunPoint} {w : Stopwatch}
    (h : Timed now point w lastFinish) {state : State} (only : point.states = [state]) :
    w.isRunning = decide (state = .printing) := by
  have active : state.isActive = true := RunPoint.isActive_of_mem_states (by rw [only]; simp)
  cases state with
  | waiting =>
    rw [(h.waiting only).1]
    rfl
  | printing => exact h.printing only
  | paused => exact h.paused only
  | _ => cases active

/-! ## The clock -/

theorem now_request (c : Controller) (o : Operation) (signal : Signal) :
    (c.request o signal).2.now = c.now := by
  unfold request
  split
  · rfl
  · exact allowing_induction (P := fun d => d.now = c.now) rfl fun _ => rfl

/-- Time never goes back. -/
theorem now_le_meet (c : Controller) (i : Incident) : c.now ≤ (c.meet i).now := by
  have still {d : Controller} (same : d.now = c.now) : c.now ≤ d.now := Nat.le_of_eq same.symm
  cases i with
  | replace | damage => exact still rfl
  | event e =>
    cases e with
    | advanceTo moment => exact Nat.le_max_left ..
    | stepRun chance number =>
      cases found : c.runs[number]? with
      | none => exact still (congrArg now (stepRun_of_none chance found))
      | some r =>
        obtain ⟨_, measures⟩ := c.measures_stepRun chance found
        exact still measures.now
    | stepProducer => exact still (c.now_onFeed ..)
    | pause | resume | stop => exact still (c.now_request ..)
    | powerOn =>
      refine allowing_induction (P := fun d => c.now ≤ d.now) (still rfl) fun _ => ?_
      dsimp only
      split <;> exact still rfl
    | shutDown =>
      refine allowing_induction (P := fun d => c.now ≤ d.now) (still rfl) fun _ => ?_
      dsimp only
      rw [stopLoaded_eq]
      exact still rfl
    | load program =>
      unfold meet after
      dsimp only
      split
      · refine allowing_induction (P := fun d => c.now ≤ d.now) (still rfl) fun _ => ?_
        obtain ⟨programs, replaced⟩ := c.exists_eq_closeReplaced program
        dsimp only
        rw [replaced]
        exact still rfl
      · exact still rfl
    | execute hasRuntime =>
      cases hasRuntime with
      | false => exact still rfl
      | true =>
        unfold meet after
        dsimp only
        rw [execute_eq]
        exact allowing_induction (P := fun d => c.now ≤ d.now) (still rfl) fun _ => still rfl
    | cancel =>
      refine allowing_induction (P := fun d => c.now ≤ d.now) (still rfl) fun _ => ?_
      dsimp only
      rw [cancelToken_frame]
    | reset =>
      exact allowing_induction (P := fun d => c.now ≤ d.now) (still rfl) fun _ => still rfl
    | «open» | markClosed | release | forget | readChunk | takeChunk | getCommand
    | setCacheCapacity | setThreads => exact still rfl

/-! ## Along a course -/

/-- A run at two moments: what it has finished in between, and how long
execution was shown. -/
structure Accounts (c d : Controller) (r r' : Run) (finished : List Finish) (printing : Nat) :
    Prop where
  timed : Timed d.now r'.point r'.stopwatch r'.lastFinish
  sum : r'.lastFinish = r.lastFinish + (finished.map Finish.duration).sum
  last : r'.lastFinish = (finished.getLast?.map Finish.reading).getD r.lastFinish
  elapsed : ∀ state, r'.point.states = [state] → (∃ state, r.point.states = [state]) ∧
    r'.stopwatch.elapsed d.now = r.stopwatch.elapsed c.now + printing

theorem Accounts.refl (timed : Timed c.now r.point r.stopwatch r.lastFinish) :
    Accounts c c r r [] 0 :=
  ⟨timed, rfl, rfl, fun state only => ⟨⟨state, only⟩, rfl⟩⟩

theorem Accounts.trans {d e : Controller} {r' r'' : Run} {finished finished' : List Finish}
    {printing printing' : Nat} (h : Accounts c d r r' finished printing)
    (h' : Accounts d e r' r'' finished' printing') :
    Accounts c e r r'' (finished ++ finished') (printing + printing') where
  timed := h'.timed
  sum := by
    rw [h'.sum, h.sum, List.map_append, List.sum_append, Nat.add_assoc]
  last := by
    rw [h'.last, h.last, List.getLast?_append]
    cases finished'.getLast? <;> rfl
  elapsed state only := by
    obtain ⟨⟨state', only'⟩, between'⟩ := h'.elapsed state only
    obtain ⟨before, between⟩ := h.elapsed state' only'
    exact ⟨before, by rw [between', between, Nat.add_assoc]⟩

/-- By a step of its own a run finishes a command or none. -/
theorem Measures.finish?_eq {chance : Chance} {r' : Run} (found : c.runs[number]? = some r)
    (timed : Timed c.now r.point r.stopwatch r.lastFinish)
    (h : c.Measures (c.stepRun chance number) number r r') :
    c.finish? number (.event (.stepRun chance number)) = none ∧ r'.lastFinish = r.lastFinish ∨
      c.finish? number (.event (.stepRun chance number)) =
        some ⟨r'.lastFinish, r'.lastFinish - r.lastFinish⟩ ∧ r.lastFinish ≤ r'.lastFinish := by
  have paces := h.paces
  generalize r'.point = point, r'.stopwatch = w, r'.lastFinish = finish at paces ⊢
  rw [finish?, if_pos rfl, found, Option.bind_some]
  cases paces with
  | keeps quiet =>
    refine .inl ⟨?_, rfl⟩
    split
    next command at_ => exact absurd at_ (quiet command)
    next => rfl
  | announces at_ => exact .inl ⟨by rw [at_], (timed.waiting (at_ ▸ rfl)).2.symm⟩
  | records at_ => exact .inr ⟨by rw [at_], timed.finish⟩
  | pauses at_ | resumes at_ | stops at_ => exact .inl ⟨by rw [at_], rfl⟩

/-- A step of the run itself. -/
theorem Measures.accounts {chance : Chance} {r' : Run} (found : c.runs[number]? = some r)
    (timed : Timed c.now r.point r.stopwatch r.lastFinish)
    (h : c.Measures (c.stepRun chance number) number r r') :
    Accounts c (c.stepRun chance number) r r'
      (c.finish? number (.event (.stepRun chance number))).toList 0 where
  timed := h.now ▸ timed.paces h.paces
  sum := by
    rcases h.finish?_eq found timed with ⟨none, same⟩ | ⟨some, le⟩
    · simp [none, same]
    · simp [some, le]
  last := by
    rcases h.finish?_eq found timed with ⟨none, same⟩ | ⟨some, le⟩
    · simp [none, same]
    · simp [some]
  elapsed state only :=
    ⟨h.paces.exists_states only, by rw [h.now, timed.elapsed_paces h.paces, Nat.add_zero]⟩

/-- Anything but a step of the run itself. -/
theorem Timed.accounts (timed : Timed c.now r.point r.stopwatch r.lastFinish) {d : Controller}
    (le : c.now ≤ d.now) (shown : ∀ state, r.point.states = [state] → c.status.state = state)
    (cancelled : Bool) :
    Accounts c d r { r with cancelled } []
      (if c.status.state = .printing then d.now - c.now else 0) where
  timed := timed.mono le
  sum := rfl
  last := rfl
  elapsed state only := by
    refine ⟨⟨state, only⟩, ?_⟩
    rw [shown state only]
    simpa [timed.isRunning_eq only] using timed.started.elapsed_eq le

/-- Nothing but a step of its own finishes a command of a run. -/
theorem finish?_of_other {i : Incident} (other : ∀ chance, i ≠ .event (.stepRun chance number)) :
    c.finish? number i = none := by
  unfold finish?
  split
  next chance n =>
    split
    next own => exact absurd (own ▸ rfl) (other chance)
    next => rfl
  next => rfl

/-- One incident. -/
theorem exists_accounts_meet (h : c.Orderly) (found : c.runs[number]? = some r)
    (timed : Timed c.now r.point r.stopwatch r.lastFinish) (i : Incident) :
    ∃ r', (c.meet i).runs[number]? = some r' ∧
      Accounts c (c.meet i) r r' (c.finish? number i).toList
        (if c.status.state = .printing then (c.meet i).now - c.now else 0) := by
  by_cases own : ∃ chance, i = .event (.stepRun chance number)
  · obtain ⟨chance, rfl⟩ := own
    obtain ⟨r', measures⟩ := c.measures_stepRun chance found
    have lt := (Array.getElem?_eq_some_iff.mp found).1
    have found' : (c.stepRun chance number).runs[number]? = some r' := by
      rw [measures.runs, Array.getElem?_setIfInBounds, if_pos rfl, if_pos lt]
    have still : (c.meet (.event (.stepRun chance number))).now - c.now = 0 :=
      Nat.sub_eq_zero_of_le (Nat.le_of_eq measures.now)
    rw [still, ite_self]
    exact ⟨r', found', measures.accounts found timed⟩
  · have other (chance : Chance) : i ≠ .event (.stepRun chance number) := fun eq => own ⟨chance, eq⟩
    obtain ⟨cancelled, found', -⟩ := exists_run_of_meet found other
    rw [finish?_of_other other]
    refine ⟨_, found', timed.accounts (c.now_le_meet i) (fun state only => ?_) cancelled⟩
    have inFlight : r.hasEnded = false := by
      rw [Run.hasEnded, decide_eq_false_iff_not]
      intro ended
      rw [ended] at only
      cases only
    have mem := (h.executes_of_found found inFlight).state
    rw [only] at mem
    exact List.mem_singleton.mp mem

/-- A course of incidents. -/
theorem exists_accounts (h : c.Orderly) (found : c.runs[number]? = some r)
    (timed : Timed c.now r.point r.stopwatch r.lastFinish) (later : List Incident) :
    ∃ r', (c.course later).runs[number]? = some r' ∧
      Accounts c (c.course later) r r' (c.finishes number later) (c.timeIn .printing later) := by
  induction later generalizing c r with
  | nil => exact ⟨r, found, .refl timed⟩
  | cons i later ih =>
    obtain ⟨q, found_q, first⟩ := exists_accounts_meet h found timed i
    obtain ⟨r', found', rest⟩ := ih (h.meet i).orderly found_q first.timed
    exact ⟨r', found', first.trans rest⟩

/-- A run that has not begun has finished nothing. -/
theorem finish?_of_none (none : c.runs[number]? = none) (i : Incident) :
    c.finish? number i = .none := by
  unfold finish?
  rw [none]
  split
  next => exact ite_self _
  next => rfl

/-- A run that begins has not been timed yet. -/
theorem timed_fresh (now : Nat) : Timed now .starting {} 0 :=
  ⟨Stopwatch.startedBy_of_not_running rfl, Nat.zero_le _, fun _ => ⟨rfl, rfl⟩, nofun, nofun⟩

/-- All that a run has finished since it began. -/
theorem finishes_of_none (h : c.Orderly) (none : c.runs[number]? = none) {later : List Incident}
    {r' : Run} (found' : (c.course later).runs[number]? = some r') :
    Timed (c.course later).now r'.point r'.stopwatch r'.lastFinish ∧
      ((c.finishes number later).map Finish.duration).sum = r'.lastFinish ∧
      ((c.finishes number later).getLast?.map Finish.reading).getD 0 = r'.lastFinish := by
  induction later generalizing c with
  | nil => cases none.symm.trans found'
  | cons i later ih =>
    rw [finishes, finish?_of_none none, Option.toList_none, List.nil_append]
    have becomes := c.run_meet i number
    have orderly := (h.meet i).orderly
    rw [none] at becomes
    generalize at_ : (c.meet i).runs[number]? = q? at becomes
    cases becomes with
    | stays => exact ih orderly at_ found'
    | begins =>
      obtain ⟨q, found, accounts⟩ := exists_accounts orderly at_ (timed_fresh _) later
      obtain rfl := Option.some.inj (found.symm.trans found')
      exact ⟨accounts.timed, (accounts.sum.trans (Nat.zero_add _)).symm, accounts.last.symm⟩

/-- What a run shows when it records how long a command took. -/
theorem time_recordTime (found : c.runs[number]? = some r) {command : Issued}
    (at_ : r.point = .recording command) (chance : Chance) :
    (c.stepRun chance number).status.time =
      min ((r.stopwatch.elapsed c.now - r.lastFinish : Int) / 1000000) Word.highest := by
  rw [stepRun, found]
  dsimp only
  rw [at_]
  rfl

/-- A command that is finished is the one that is about to be recorded. -/
theorem exists_run_of_finish? {i : Incident} {f : Finish} (finishes : c.finish? number i = some f) :
    ∃ r command, c.runs[number]? = some r ∧ r.point = .recording command ∧
      f = ⟨r.stopwatch.elapsed c.now, r.stopwatch.elapsed c.now - r.lastFinish⟩ := by
  unfold finish? at finishes
  split at finishes
  next =>
    split at finishes
    next =>
      obtain ⟨r, found, at_⟩ := Option.bind_eq_some_iff.mp finishes
      split at at_
      next command recording => exact ⟨r, command, found, recording, (Option.some.inj at_).symm⟩
      next => cases at_
    next => cases finishes
  next => cases finishes

end

/-- **A stopwatch measures running time only, and the times of the commands add
up.**  At any time a stopwatch shows the length of the stretches in which it ran
up to then, so what it shows never decreases.  In every course of incidents what
a run's stopwatch shows is never below what it showed at the last finish; the
next command is shown with the difference, in whole milliseconds, and all these
differences add up to what it showed at the last finish.  It goes on by the time
for which execution is shown, as long as the run is not on its way out, so a
command takes this time from the finish before to its own, and a pause is not
counted. -/
theorem running_time :
    (∀ (presses : List Press) (moment : Nat), presses.Pairwise (·.moment ≤ ·.moment) →
      (∀ p ∈ presses, p.moment ≤ moment) →
      (Stopwatch.pressed presses).elapsed moment = Stopwatch.runningTime presses moment ∧
        ∀ (more : List Press) (later : Nat), (presses ++ more).Pairwise (·.moment ≤ ·.moment) →
          (∀ p ∈ more, moment ≤ p.moment ∧ p.moment ≤ later) → moment ≤ later →
          (Stopwatch.pressed presses).elapsed moment ≤
            (Stopwatch.pressed (presses ++ more)).elapsed later) ∧
      ∀ (settings : Settings) (before later : List Incident) (number : Nat) (r' : Run),
        let c := course { settings } before
        let d := c.course later
        let finished := finishes { settings } number (before ++ later)
        d.runs[number]? = some r' →
        r'.lastFinish ≤ r'.stopwatch.elapsed d.now ∧
          (finished.map Finish.duration).sum = r'.lastFinish ∧
          (finished.getLast?.map Finish.reading).getD 0 = r'.lastFinish ∧
          (∀ command chance, r'.point = .recording command →
            (d.stepRun chance number).status.time =
              min ((r'.stopwatch.elapsed d.now - r'.lastFinish : Int) / 1000000) Word.highest) ∧
          ∀ r, c.runs[number]? = some r →
            (r'.hasEnded = false → r'.point.outcome? = none →
              r'.stopwatch.elapsed d.now = r.stopwatch.elapsed c.now + c.timeIn .printing later) ∧
              ∀ i f, r.lastFinish = r.stopwatch.elapsed c.now → c.finishes number later = [] →
                d.finish? number i = some f → f.duration = c.timeIn .printing later := by
  refine ⟨fun presses moment sorted past => ⟨Stopwatch.elapsed_pressed sorted past,
    fun more later sorted next le => ?_⟩, fun settings before later number r' => ?_⟩
  · exact Stopwatch.elapsed_pressed_mono le sorted past (fun p mem => (next p mem).1)
      fun p mem => (next p mem).2
  intro c d finished found'
  have orderly : c.Orderly := ((orderly_fresh settings).course before).orderly
  have unbegun : (({ settings } : Controller).runs[number]?) = none := rfl
  have whole : course { settings } (before ++ later) = d := course_append ..
  obtain ⟨timed, sum, last⟩ := finishes_of_none (orderly_fresh settings) unbegun (whole ▸ found')
  rw [whole] at timed
  refine ⟨timed.finish, sum, last, fun command chance at_ => time_recordTime found' at_ chance,
    fun r found => ?_⟩
  obtain ⟨timed, -⟩ := finishes_of_none (orderly_fresh settings) unbegun found
  obtain ⟨q, found_q, accounts⟩ := exists_accounts orderly found timed later
  obtain rfl := Option.some.inj (found'.symm.trans found_q)
  refine ⟨fun inFlight staying => ?_, fun i f fresh none finishes => ?_⟩
  · obtain ⟨state, only⟩ := RunPoint.exists_states (by simpa [Run.hasEnded] using inFlight) staying
    exact (accounts.elapsed state only).2
  · obtain ⟨q, command, found_q, at_, duration⟩ := exists_run_of_finish? finishes
    obtain rfl := Option.some.inj (found'.symm.trans found_q)
    have same : r'.lastFinish = r.lastFinish := by simpa [none] using accounts.sum
    have elapsed := (accounts.elapsed .printing (at_ ▸ rfl)).2
    rw [duration, elapsed, same, fresh, Nat.add_sub_cancel_left]

/-- A stopwatch that is pressed twice each time, and a job of two commands that is
paused for eight seconds after the first and then takes twenty-one seconds for
the second. -/
theorem running_time_of_paused :
    let presses : List Press := [.start 3, .start 4, .pause 10, .pause 12, .start 20]
    let file : RegularFile := ⟨⟨#[71, 49, 10, 77, 50]⟩, by decide, .whole⟩
    let step : Incident := .event (.stepRun { word := 0xffffffff } 0)
    let second (n : Nat) : List Incident :=
      [.event (.advanceTo (n * 1000000000)), .event (.stepProducer 0 0), step, step]
    let before : List Incident :=
      [.event .powerOn, .event (.open "job" (.file file) ⟨9, 1⟩), .event (.readChunk 0),
        .event (.takeChunk 0), .event (.readChunk 0), .event (.takeChunk 0), .event (.load 0),
        .event (.execute true)] ++ (List.range 23).flatMap fun n => second n ++ [step]
    let later : List Incident :=
      [.event .pause, step] ++ ((List.range' 23 7).flatMap fun n => second n ++ [step]) ++
        .event .resume :: ((List.range' 30 21).flatMap fun n => second n ++ [step]) ++ second 51
    let c := course { settings := {} } before
    let d := c.course later
    (Stopwatch.pressed presses).elapsed 25 = 12 ∧ Stopwatch.runningTime presses 25 = 12 ∧
      (Stopwatch.pressed presses).elapsed 25 ≤
        (Stopwatch.pressed (presses ++ [.pause 30])).elapsed 40 ∧
      c.timeIn .paused later = 8000000000 ∧ c.timeIn .printing later = 21000000000 ∧
      ∃ r', d.runs[0]? = some r' ∧ r'.lastFinish = 22000000000 ∧
        r'.stopwatch.elapsed d.now = 22000000000 + c.timeIn .printing later ∧
        (∀ chance, (d.stepRun chance 0).status.time = 21000) := by
  intro presses file step second before later c d
  have finish_c : c.runs[0]?.map (fun r => (r.lastFinish, r.stopwatch.elapsed c.now)) =
      some (22000000000, 22000000000) := by decide +kernel
  have finish_d : d.finish? 0 step = some ⟨43000000000, 21000000000⟩ := by decide +kernel
  have unfinished : c.finishes 0 later = [] := by decide +kernel
  have paused : c.timeIn .paused later = 8000000000 := by decide +kernel
  have ran : Stopwatch.runningTime presses 25 = 12 := by decide
  obtain ⟨measured, timed⟩ := running_time
  obtain ⟨shown, more⟩ := measured presses 25 (by decide) (by decide)
  have grown := more [.pause 30] 40 (by decide) (by decide) (by decide)
  have timed := timed {} before later 0
  dsimp only at timed
  rw [show course { settings := {} } before = c from rfl, show c.course later = d from rfl] at timed
  clear_value d
  clear_value c later
  obtain ⟨r, found, finish⟩ := Option.map_eq_some_iff.mp finish_c
  obtain ⟨r', command, found', at_, reading⟩ := exists_run_of_finish? finish_d
  obtain ⟨elapsed, duration⟩ := Finish.mk.inj reading
  obtain ⟨lastFinish, fresh⟩ := Prod.mk.inj finish
  obtain ⟨le, -, -, time, since⟩ := timed r' found'
  obtain ⟨grows, takes⟩ := since r found
  have printing : 21000000000 = c.timeIn .printing later :=
    takes step _ (lastFinish.trans fresh.symm) unfinished finish_d
  have inFlight : r'.hasEnded = false := by rw [Run.hasEnded, at_]; rfl
  have staying : r'.point.outcome? = none := by rw [at_]; rfl
  have last : r'.lastFinish = 22000000000 := by omega
  refine ⟨shown.trans ran, ran, grown, paused, printing.symm, r', found', last, ?_, fun chance => ?_⟩
  · rw [grows inFlight staying, fresh]
  · rw [time command chance at_, ← elapsed, last]
    decide

end Controller

end GcodeJob
