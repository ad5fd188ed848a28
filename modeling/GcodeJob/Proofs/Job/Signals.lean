import GcodeJob.Proofs.Job.Effects

/-!
# GcodeJob.Proofs.Job.Signals

The signal that waits for the run in flight.  It is written by requests that
may come again and again, and cleared where a run takes it, where a run ends
and where one begins; the state that it was accepted in changes meanwhile only
where the signal is taken.

**Main result** (`Controller.signal_fits`): the signal fits the state, a stop
stays until it is taken or the run ends, and a run sees only what was asked
for while it was in flight itself.
-/

namespace GcodeJob.Controller

/-- By a step of its own a run takes the stop that waits, or it ends. -/
def EndsStop (c : Controller) (i : Incident) : Prop :=
  ∃ chance number, i = .event (.stepRun chance number) ∧
    (c.ends number i = true ∨
      (∃ r, c.runs[number]? = some r ∧ r.point.takesStop = true) ∧
        ∃ r', (c.meet i).runs[number]? = some r' ∧ r'.point = .leaving .stopped)

/-- In a course of incidents the signal that waits at its end was asked for,
and it has waited ever since while a run was in flight. -/
def NotedFor (c : Controller) (number : Nat) (signal : Signal) (incidents : List Incident) : Prop :=
  ∃ before e after, incidents = before ++ .event e :: after ∧
    e.operation? = signal.operation? ∧ (c.course before).Accepts e ∧
    (c.course before).isInFlight number = true ∧
    ∀ between, between <+: after →
      (c.course (before ++ .event e :: between)).signal = signal ∧
        (c.course (before ++ .event e :: between)).isInFlight number = true

/-- What an incident makes of the signal. -/
inductive SignalBecomes (c : Controller) : Incident → Signal → Prop
  | stays (i : Incident) : c.SignalBecomes i c.signal
  | noted {e : Event} {signal : Signal} : c.Accepts e → e.operation? = signal.operation? →
    c.signal ≠ .stop → c.SignalBecomes (.event e) signal
  | taken {chance : Chance} {number : Nat} {r : Run} : c.runs[number]? = some r →
    r.point.takesStop = true →
    (c.signal = .stop → ∃ r', (c.stepRun chance number).runs[number]? = some r' ∧
      r'.point = .leaving .stopped) → c.SignalBecomes (.event (.stepRun chance number)) .none
  | ended {chance : Chance} {number : Nat} :
    c.ends number (.event (.stepRun chance number)) = true →
    c.SignalBecomes (.event (.stepRun chance number)) .none

section
variable {c c' : Controller} {number : Nat} {r r' : Run}

/-- A step of a run, as far as it concerns the signal. -/
theorem signalBecomes_of_goes {chance : Chance} (found : c.runs[number]? = some r)
    (goes : c.Goes (c.stepRun chance number) number r r') :
    c.SignalBecomes (.event (.stepRun chance number)) (c.stepRun chance number).signal := by
  have found' := goes.found found
  have way := goes.way
  generalize at_ : r'.point = point at way
  generalize (c.stepRun chance number).signal = signal at way ⊢
  generalize (c.stepRun chance number).status.state = state at way
  cases way with
  | onward | announces | notices | forced => exact .stays _
  | stops takes _ => exact .taken found takes fun _ => ⟨r', found', at_⟩
  | pauses takes pending | resumes takes pending =>
    refine .taken found (RunPoint.takesStop_of_takesPause takes) fun stop => ?_
    cases pending.symm.trans stop
  | concludes ending =>
    exact .ended (goes.ends found (by simp [Run.hasEnded, ending]) at_)

/-- One incident, as far as it concerns the signal: no run more begins, or none waits. -/
theorem signal_meet (c : Controller) (i : Incident) :
    (c.meet i).runs.size = c.runs.size ∧ c.SignalBecomes i (c.meet i).signal ∨
      c.status.state = .idle ∧ (c.meet i).signal = .none := by
  have effect := c.effect_meet i
  generalize eq : c.meet i = c' at effect ⊢
  cases effect with
  | executes idle => exact .inr ⟨idle, rfl⟩
  | steps chance found =>
    obtain ⟨r', goes⟩ := c.goes_stepRun chance found
    exact .inl ⟨goes.size, signalBecomes_of_goes found goes⟩
  | notes accepted asked own free => exact .inl ⟨rfl, .noted ⟨_, accepted⟩ (asked.trans own.symm) free⟩
  | cancels => exact .inl ⟨c.size_runs_cancelToken, .stays _⟩
  | _ => exact .inl ⟨rfl, .stays _⟩

/-- The signal fits the state. -/
theorem Orderly.allowed_of_signal (h : c.Orderly) {o : Operation}
    (own : c.signal.operation? = some o) : c.status.state ∈ o.allowed := by
  rcases h with rests | ⟨number, r, executes⟩
  · rw [rests.signal] at own
    cases own
  · exact executes.signal o own

/-- Where a run takes signals, the state fits the place. -/
theorem Orderly.state_of_found (h : c.Orderly) (found : c.runs[number]? = some r)
    (inFlight : r.hasEnded = false) : c.status.state ∈ r.point.states :=
  (h.executes_of_found found inFlight).state

/-- A stop is kept by every incident but those that end it. -/
theorem Orderly.stop_meet (h : c.Orderly) (stop : c.signal = .stop) (i : Incident) :
    c.EndsStop i ∨ (c.meet i).signal = .stop := by
  rcases c.signal_meet i with ⟨-, becomes⟩ | ⟨idle, -⟩
  · generalize eq : (c.meet i).signal = signal at becomes
    cases becomes with
    | stays => exact .inr stop
    | noted _ _ free => exact absurd stop free
    | @taken chance number r found takes leaving =>
      exact .inl ⟨chance, number, rfl, .inr ⟨⟨r, found, takes⟩, leaving stop⟩⟩
    | @ended chance number ends => exact .inl ⟨chance, number, rfl, .inl ends⟩
  · have allowed : c.status.state ∈ Operation.stop.allowed := h.allowed_of_signal (by rw [stop]; rfl)
    simp [idle, Operation.allowed] at allowed

/-! ## Where a signal comes from -/

/-- A signal goes on waiting. -/
theorem NotedFor.concat {signal : Signal} {incidents : List Incident} {i : Incident}
    (noted : c.NotedFor number signal incidents)
    (waits : (c.course (incidents ++ [i])).signal = signal)
    (inFlight : (c.course (incidents ++ [i])).isInFlight number = true) :
    c.NotedFor number signal (incidents ++ [i]) := by
  obtain ⟨before, e, after, rfl, asked, accepted, begun, since⟩ := noted
  refine ⟨before, e, after ++ [i], by simp, asked, accepted, begun, fun between first => ?_⟩
  rcases List.prefix_concat_iff.mp first with rfl | first
  · rw [List.append_assoc, List.cons_append] at waits inFlight
    exact ⟨waits, inFlight⟩
  · exact since between first

/-- A signal that has just been noted. -/
theorem notedFor_of_accepts {before : List Incident} {e : Event}
    (accepted : (c.course before).Accepts e)
    (asked : e.operation? = (c.course (before ++ [.event e])).signal.operation?)
    (begun : (c.course before).isInFlight number = true)
    (inFlight : (c.course (before ++ [.event e])).isInFlight number = true) :
    c.NotedFor number (c.course (before ++ [.event e])).signal (before ++ [.event e]) := by
  refine ⟨before, e, [], rfl, asked, accepted, begun, fun between first => ?_⟩
  obtain rfl := List.prefix_nil.mp first
  exact ⟨rfl, inFlight⟩

/-- A run sees only signals that were asked for while it was in flight. -/
theorem Orderly.notedFor (h : c.Orderly) (free : c.signal = .none) (incidents : List Incident)
    (inFlight : (c.course incidents).isInFlight number = true)
    (pending : (c.course incidents).signal ≠ .none) :
    c.NotedFor number (c.course incidents).signal incidents := by
  induction incidents using List.reverseRecOn with
  | nil => exact absurd free pending
  | append_singleton before i ih =>
    have step := (c.course before).signal_meet i
    rw [← course_concat] at step
    obtain ⟨size, becomes⟩ := step.resolve_right fun rests => pending rests.2
    -- No run has begun since, so the run in flight is the one before.
    have begun : (c.course before).isInFlight number = true := by
      obtain ⟨r, found, -⟩ := isInFlight_iff.mp inFlight
      have lt := size ▸ (Array.getElem?_eq_some_iff.mp found).1
      rw [course_concat] at inFlight
      exact ((h.course before).orderly.meet i).isInFlight number lt inFlight
    generalize waits : (c.course (before ++ [i])).signal = signal at becomes pending ⊢
    cases becomes with
    | stays => exact (ih begun pending).concat waits inFlight
    | noted accepted asked => exact waits ▸ notedFor_of_accepts accepted (waits ▸ asked) begun inFlight
    | taken | ended => exact absurd rfl pending

end

/-- **The pending signal.**  However requests are mixed with the steps of
runs: a signal waits only in the states in which it is asked for, a stop that
waits stays until a run takes it or ends, a pause is not taken to end a pause
nor the end of one between commands, and the signal that waits for a run was
asked for while this run was in flight. -/
theorem signal_fits (settings : Settings) (incidents : List Incident) :
    let c := course { settings } incidents
    (c.signal = .pause → c.status.state = .printing) ∧
      (c.signal = .resume → c.status.state = .paused) ∧
      (c.signal = .stop → c.status.state = .printing ∨ c.status.state = .paused) ∧
      (c.status.state ≠ .printing → c.status.state ≠ .paused → c.signal = .none) ∧
      (c.signal = .stop → ∀ later, c.LastsUntil (·.signal = .stop) EndsStop later) ∧
      (∀ (number : Nat) (r : Run), c.runs[number]? = some r →
        (r.point = .holding → c.takeSignal.1 ≠ .pause) ∧
          (r.point = .checkpoint → c.takeSignal.1 ≠ .resume)) ∧
      ∀ number, c.isInFlight number = true → c.signal ≠ .none →
        NotedFor { settings } number c.signal incidents := by
  intro c
  have orderly : c.Orderly := ((orderly_fresh settings).course incidents).orderly
  have pause (pending : c.signal = .pause) : c.status.state = .printing :=
    List.mem_singleton.mp (orderly.allowed_of_signal (o := .pause) (by rw [pending]; rfl))
  have resume (pending : c.signal = .resume) : c.status.state = .paused :=
    List.mem_singleton.mp (orderly.allowed_of_signal (o := .resume) (by rw [pending]; rfl))
  have stop (pending : c.signal = .stop) : c.status.state = .printing ∨ c.status.state = .paused := by
    have allowed : c.status.state ∈ Operation.stop.allowed :=
      orderly.allowed_of_signal (by rw [pending]; rfl)
    simpa [Operation.allowed] using allowed
  have taken : c.takeSignal.1 = c.signal := by
    unfold takeSignal
    cases c.signal <;> rfl
  refine ⟨pause, resume, stop, fun printing paused => ?_, fun pending later => ?_,
    fun number r found => ⟨fun at_ holds => ?_, fun at_ continues => ?_⟩,
    fun number inFlight pending => (orderly_fresh settings).notedFor rfl incidents inFlight pending⟩
  · cases pending : c.signal with
    | none => rfl
    | pause => exact absurd (pause pending) printing
    | resume => exact absurd (resume pending) paused
    | stop => rcases stop pending with state | state <;> contradiction
  · refine .of_kept (fun _ => And.right) (fun c i kept => ?_) (And.intro orderly pending)
    obtain ⟨orderly, pending⟩ := kept
    exact (orderly.stop_meet pending i).imp_right fun still => ⟨(orderly.meet i).orderly, still⟩
  · have state := orderly.state_of_found found (by simp [Run.hasEnded, at_])
    rw [at_, pause (taken.symm.trans holds)] at state
    cases List.mem_singleton.mp state
  · have state := orderly.state_of_found found (by simp [Run.hasEnded, at_])
    rw [at_, resume (taken.symm.trans continues)] at state
    cases List.mem_singleton.mp state

end GcodeJob.Controller
