import GcodeJob.Proofs.Job.Endings
import GcodeJob.Proofs.Job.Feeds
import GcodeJob.Proofs.Job.Showing

/-!
# GcodeJob.Proofs.Job.Effects

What one incident does to a controller, in one place (`Controller.Effect`):
whatever is claimed of all incidents is read off it.  An operation that is
accepted finds the controller in a state in which it is allowed, and anything
else changes programs, feeds and the clock alone, or is a step of a run.

What lasts along a course of incidents, from its start on or until something
is met, is `Controller.LastsUntil`.
-/

namespace GcodeJob.Controller

/-! ## What is asked for -/

/-- The operation that an event asks for, if it asks for one. -/
def Event.operation? : Event → Option Operation
  | .powerOn => some .powerOn
  | .shutDown => some .shutDown
  | .load _ => some .load
  | .execute _ => some .execute
  | .pause => some .pause
  | .resume => some .resume
  | .stop => some .stop
  | .cancel => some .cancel
  | .reset => some .reset
  | _ => none

/-- What is answered to an event that asks for something, and the controller after it. -/
def reply? (c : Controller) : Event → Option Reply
  | .powerOn => some c.powerOn
  | .shutDown => some c.shutDown
  | .load program => if program < c.programs.size then some (c.load program) else none
  | .execute hasRuntime => some (c.execute hasRuntime)
  | .pause => some c.pause
  | .resume => some c.resume
  | .stop => some c.stop
  | .cancel => some c.cancel
  | .reset => some c.reset
  | _ => none

/-- An event asks for something, and this is done. -/
def Accepts (c : Controller) (e : Event) : Prop := ∃ c', c.reply? e = some (.ok (), c')

/-- An event that asks for something does what the operation that answers it does. -/
theorem after_eq_of_reply? {c : Controller} {e : Event} {reply : Reply}
    (asked : c.reply? e = some reply) : c.after e = reply.2 := by
  cases e with
  | load program =>
    unfold reply? at asked
    unfold after
    dsimp only at asked ⊢
    split at asked
    next there =>
      rw [if_pos there, Option.some.inj asked]
    next => cases asked
  | _ => cases asked <;> rfl

/-! ## One incident -/

/-- What an incident makes of a controller. -/
inductive Effect (c : Controller) : Incident → Controller → Prop
  /-- What is asked for is refused, or there is nothing to do. -/
  | nothing (i : Incident) : c.Effect i c
  /-- Programs go on, or the clock does, or there are threads or none. -/
  | background (i : Incident) (programs : Array Program) (now : Nat) (hasThreads : Bool) :
    c.Effect i { c with programs, now, hasThreads }
  | produces (feed number : Nat) :
    c.Effect (.event (.stepProducer feed number))
      { c with
        programs := (c.stepProducer feed number).programs
        feeds := (c.stepProducer feed number).feeds }
  | steps (chance : Chance) {number : Nat} {r : Run} : c.runs[number]? = some r →
    c.Effect (.event (.stepRun chance number)) (c.stepRun chance number)
  /-- At rest another status is shown. -/
  | shows (i : Incident) (status : Status) (past : List Status) (published : Nat) :
    c.status.state.isActive = false → status.state.isActive = false →
    c.Effect i { c with status, past, published }
  | unloads (status : Status) (past : List Status) (published : Nat) :
    c.status.state = .idle → status.state = .shutdown →
    c.Effect (.event .shutDown)
      { c with feeds := c.stopLoaded.feeds, loaded? := none, status, past, published }
  | loads {program : Nat} (programs : Array Program) (status : Status) (past : List Status)
    (published : Nat) : c.status.state = .idle → status.state = .idle →
    c.Effect (.event (.load program))
      { c with
        programs
        feeds := c.stopLoaded.feeds.push { program, buffer := { settings := c.settings.buffer } }
        loaded? := some c.stopLoaded.feeds.size
        status
        past
        published }
  | executes : c.status.state = .idle →
    c.Effect (.event (.execute true)) (c.setState .waiting).beginRun
  | notes {e : Event} {o : Operation} {signal : Signal} : c.reply? e = some (.ok (), { c with signal }) →
    e.operation? = some o → signal.operation? = some o → c.signal ≠ .stop →
    c.status.state ∈ o.allowed → c.Effect (.event e) { c with signal }
  | cancels : c.Accepts .cancel → c.Effect (.event .cancel) { c with runs := c.cancelToken.runs }

section
variable {c c' : Controller} {number : Nat}

/-- A signal that is asked for is refused, or it is noted. -/
theorem effect_request {e : Event} {o : Operation} {signal : Signal}
    (asked : c.reply? e = some (c.request o signal)) (event : e.operation? = some o)
    (own : signal.operation? = some o) : c.Effect (.event e) (c.after e) := by
  rw [after_eq_of_reply? asked]
  unfold request at asked ⊢
  split at asked
  next pending =>
    rw [if_pos pending]
    exact .nothing _
  next free =>
    rw [if_neg free]
    rcases c.allowing_cases o fun c => (.ok (), { c with signal }) with ⟨error, refused⟩ | ⟨allowed, eq⟩
    · rw [refused]
      exact .nothing _
    · rw [eq] at asked ⊢
      exact .notes asked event own free allowed

theorem feeds_stopLoaded_congr (loaded : c'.loaded? = c.loaded?) (feeds : c'.feeds = c.feeds) :
    c'.stopLoaded.feeds = c.stopLoaded.feeds := by
  unfold stopLoaded
  rw [loaded]
  cases c.loaded? <;> simp [onBuffer, feeds]

/-- Before another program is loaded, the feed before it is stopped and its program closed. -/
theorem exists_eq_closeReplaced (c : Controller) (program : Nat) :
    ∃ programs, c.stopLoaded.closeReplaced program =
      { c with programs, feeds := c.stopLoaded.feeds } := by
  refine ⟨(c.stopLoaded.closeReplaced program).programs, ?_⟩
  rw [closeReplaced_eq]
  generalize (c.stopLoaded.closeReplaced program).programs = programs
  rw [stopLoaded_eq]

theorem effect_load (c : Controller) {program : Nat} :
    c.Effect (.event (.load program)) (c.load program).2 := by
  refine allowing_induction (P := c.Effect _) (.nothing _) fun allowed => ?_
  have idle : c.status.state = .idle := List.mem_singleton.mp allowed
  obtain ⟨programs, replaced⟩ := c.exists_eq_closeReplaced program
  dsimp only
  rw [replaced]
  exact .loads programs _ _ _ idle idle

theorem cancelToken_frame (c : Controller) : c.cancelToken = { c with runs := c.cancelToken.runs } := by
  unfold cancelToken
  split <;> rfl

theorem size_runs_cancelToken (c : Controller) : c.cancelToken.runs.size = c.runs.size := by
  unfold cancelToken
  split
  next => exact Array.size_modify
  next => rfl

/-- With something to run jobs on only the state decides. -/
theorem execute_eq (c : Controller) : c.execute true =
    c.allowing .execute fun c => (.ok (), (c.setState .waiting).beginRun) := if_neg (by decide)

/-- **One incident**, whatever it is. -/
theorem effect_meet (c : Controller) (i : Incident) : c.Effect i (c.meet i) := by
  cases i with
  | replace | damage => exact .background _ _ c.now c.hasThreads
  | event e =>
    cases e with
    | powerOn =>
      refine allowing_induction (P := c.Effect _) (.nothing _) fun allowed => ?_
      have off : c.status.state = .shutdown := List.mem_singleton.mp allowed
      have rest : c.status.state.isActive = false := by rw [off]; rfl
      dsimp only
      split <;> exact .shows _ _ _ _ rest rfl
    | shutDown =>
      refine allowing_induction (P := c.Effect _) (.nothing _) fun allowed => ?_
      have feeds : (c.setState .shutdown).stopLoaded.feeds = c.stopLoaded.feeds :=
        feeds_stopLoaded_congr rfl rfl
      dsimp only
      rw [stopLoaded_eq, feeds]
      exact .unloads _ _ _ (List.mem_singleton.mp allowed) rfl
    | load program =>
      unfold meet after
      dsimp only
      split
      · exact c.effect_load
      · exact .nothing _
    | execute hasRuntime =>
      cases hasRuntime with
      | false => exact .nothing _
      | true =>
        unfold meet after
        dsimp only
        rw [execute_eq]
        refine allowing_induction (P := c.Effect _) (.nothing _) fun allowed => ?_
        exact .executes (List.mem_singleton.mp allowed)
    | pause | resume | stop => exact effect_request rfl rfl rfl
    | cancel =>
      unfold meet after cancel
      rcases c.allowing_cases .cancel fun c => (.ok (), c.cancelToken) with ⟨error, refused⟩ | ⟨-, done⟩
      · rw [refused]
        exact .nothing _
      · rw [done]
        dsimp only
        rw [cancelToken_frame]
        exact .cancels ⟨_, congrArg some done⟩
    | reset =>
      refine allowing_induction (P := c.Effect _) (.nothing _) fun allowed => ?_
      exact .shows _ _ _ _ (Operation.isActive_of_allowed allowed) rfl
    | stepProducer feed number =>
      have frame : c.stepProducer feed number = _ := onFeed_eq ..
      unfold meet after
      dsimp only
      rw [frame]
      exact .produces feed number
    | stepRun chance number =>
      cases found : c.runs[number]? with
      | none =>
        have same : c.meet (.event (.stepRun chance number)) = c := stepRun_of_none chance found
        rw [same]
        exact .nothing _
      | some r => exact .steps chance found
    | «open» path medium settings => exact .background _ _ c.now c.hasThreads
    | advanceTo moment => exact .background _ c.programs _ c.hasThreads
    | setThreads hasThreads => exact .background _ c.programs c.now _
    | markClosed program | release program | forget program | readChunk program
    | takeChunk program | getCommand program line | setCacheCapacity program capacity =>
      exact .background _ _ c.now c.hasThreads

/-! ## What is read off -/

theorem course_append (c : Controller) (before after : List Incident) :
    c.course (before ++ after) = (c.course before).course after := List.foldl_append

theorem course_event (c : Controller) (before : List Incident) (e : Event) (later : List Incident) :
    c.course (before ++ .event e :: later) = ((c.course before).after e).course later :=
  c.course_append before (.event e :: later)

theorem course_concat (c : Controller) (before : List Incident) (i : Incident) :
    c.course (before ++ [i]) = (c.course before).meet i := c.course_append before [i]

/-- What an incident makes of the run of a number, if there is one. -/
inductive RunBecomes (c c' : Controller) (number : Nat) : Incident → Option Run → Option Run → Prop
  | stays (i : Incident) (r? : Option Run) : RunBecomes c c' number i r? r?
  | steps {chance : Chance} {r r' : Run} : c.runs[number]? = some r → c.Goes c' number r r' →
    c.Displays c' number r r' →
    RunBecomes c c' number (.event (.stepRun chance number)) (some r) (some r')
  | begins (i : Incident) : c'.status.state = .waiting →
    RunBecomes c c' number i none (some { feed? := c.loaded? })
  | cancelled (r : Run) :
    RunBecomes c c' number (.event .cancel) (some r) (some { r with cancelled := true })

/-- Nothing but a step of its own moves a run on. -/
theorem run_meet (c : Controller) (i : Incident) (number : Nat) :
    c.RunBecomes (c.meet i) number i c.runs[number]? (c.meet i).runs[number]? := by
  have effect := c.effect_meet i
  generalize c.meet i = c' at effect ⊢
  cases effect with
  | @steps chance third r found =>
    obtain ⟨r', goes⟩ := c.goes_stepRun chance found
    by_cases own : third = number
    · subst own
      rw [found, goes.found found]
      exact .steps found goes (displays_of_goes found goes)
    · rw [goes.found_other (Ne.symm own)]
      exact .stays _ _
  | executes =>
    simp only [beginRun, setState, publish, Array.getElem?_push]
    split
    next last =>
      rw [last, Array.getElem?_eq_none (Nat.le_refl _)]
      exact .begins _ rfl
    next => exact .stays _ _
  | cancels =>
    dsimp only
    unfold cancelToken
    split
    next third token =>
      rw [Array.getElem?_modify]
      split
      next =>
        cases c.runs[number]? with
        | none => exact .stays _ _
        | some r => exact .cancelled r
      next => exact .stays _ _
    next => exact .stays _ _
  | _ => exact .stays _ _

/-- A run stays where it is until its next step, and no cancel is taken back. -/
theorem exists_run_of_meet {r : Run} {i : Incident} (found : c.runs[number]? = some r)
    (other : ∀ chance, i ≠ .event (.stepRun chance number)) :
    ∃ cancelled, (c.meet i).runs[number]? = some { r with cancelled } ∧
      (r.cancelled = true → cancelled = true) := by
  have becomes := c.run_meet i number
  rw [found] at becomes
  generalize (c.meet i).runs[number]? = r?' at becomes ⊢
  cases becomes with
  | stays => exact ⟨r.cancelled, rfl, id⟩
  | steps => exact absurd rfl (other _)
  | cancelled => exact ⟨true, rfl, fun _ => rfl⟩

/-- What the run in flight hears of an incident that is not its own step: it is
cancelled, a signal is noted for it, or nothing. -/
inductive Hears (c : Controller) (r : Run) : Incident → Signal → Run → Prop
  | nothing (i : Incident) : c.Hears r i c.signal r
  | signal {e : Event} {o : Operation} {signal : Signal} : c.Accepts e → e.operation? = some o →
    signal.operation? = some o → c.Hears r (.event e) signal r
  | cancel : c.Accepts .cancel → c.Hears r (.event .cancel) c.signal { r with cancelled := true }

/-- An incident that is not a step of the run in flight. -/
theorem Executes.hears {r : Run} (h : c.Executes number r) {i : Incident}
    (other : ∀ chance, i ≠ .event (.stepRun chance number)) :
    (c.meet i).status = c.status ∧
      ∃ r', (c.meet i).Executes number r' ∧ c.Hears r i (c.meet i).signal r' := by
  obtain ⟨q, keeps⟩ := h.meet other
  have executes := keeps.executes
  suffices heard : (c.meet i).status = c.status ∧
      ∃ r', (c.meet i).runs[number]? = some r' ∧ c.Hears r i (c.meet i).signal r' by
    obtain ⟨status, r', found, hears⟩ := heard
    obtain rfl := Option.some.inj (executes.found.symm.trans found)
    exact ⟨status, q, executes, hears⟩
  have active := RunPoint.isActive_of_mem_states h.state
  have busy (idle : c.status.state = .idle) : False := by
    rw [idle] at active
    cases active
  have effect := c.effect_meet i
  clear keeps executes
  generalize c.meet i = c' at effect ⊢
  cases effect with
  | nothing | background | produces => exact ⟨rfl, r, h.found, .nothing _⟩
  | @steps chance third p at_ =>
    -- Any other run has ended, so its step shows nothing.
    have ne : third ≠ number := fun own => other chance (own ▸ rfl)
    have ended : p.hasEnded = true := by
      by_contra inFlight
      exact ne (h.alone at_ (by simpa using inFlight))
    obtain ⟨p', goes⟩ := c.goes_stepRun chance at_
    obtain ⟨-, signal, -⟩ := goes.of_ended ended
    have shows := (displays_of_goes at_ goes).shows.eq_of_silent
      (by rw [Run.hasEnded_iff.mp ended]; rfl)
    refine ⟨shows, r, (goes.found_other ne.symm).trans h.found, ?_⟩
    rw [signal]
    exact .nothing _
  | shows _ _ _ _ rest => cases active.symm.trans rest
  | unloads _ _ _ idle | loads _ _ _ _ idle | executes idle => exact (busy idle).elim
  | notes accepted asked own => exact ⟨rfl, r, h.found, .signal ⟨_, accepted⟩ asked own⟩
  | cancels accepted =>
    rw [cancelToken_eq h]
    refine ⟨rfl, { r with cancelled := true }, ?_, .cancel accepted⟩
    simp [Array.getElem?_modify, h.found]

/-- An incident is a step of the run in flight, or the run hears of it. -/
theorem Executes.goes_or_hears {r : Run} (h : c.Executes number r) (i : Incident) :
    (∃ chance r', i = .event (.stepRun chance number) ∧ c.Goes (c.meet i) number r r' ∧
        c.Displays (c.meet i) number r r') ∨
      (c.meet i).status = c.status ∧
        ∃ r', (c.meet i).Executes number r' ∧ c.Hears r i (c.meet i).signal r' := by
  by_cases own : ∃ chance, i = .event (.stepRun chance number)
  · obtain ⟨chance, rfl⟩ := own
    obtain ⟨r', goes⟩ := c.goes_stepRun chance h.found
    exact .inl ⟨chance, r', rfl, goes, displays_of_goes h.found goes⟩
  · exact .inr (h.hears fun chance eq => own ⟨chance, eq⟩)

/-- An incident that leaves the run in flight, told by what the run is after it. -/
theorem Executes.meet_cases {r r' : Run} (h : c.Executes number r) {i : Incident}
    (h' : (c.meet i).Executes number r') :
    (∃ chance, i = .event (.stepRun chance number) ∧ c.Goes (c.meet i) number r r' ∧
        c.Displays (c.meet i) number r r') ∨
      (c.meet i).status = c.status ∧ c.Hears r i (c.meet i).signal r' := by
  rcases h.goes_or_hears i with ⟨chance, q, eq, goes, displays⟩ | ⟨status, q, executes, hears⟩
  · obtain rfl := Option.some.inj ((goes.found h.found).symm.trans h'.found)
    exact .inl ⟨chance, eq, goes, displays⟩
  · obtain rfl := Option.some.inj (executes.found.symm.trans h'.found)
    exact .inr ⟨status, hears⟩

/-- A run that is found in flight is the one that is executed. -/
theorem Orderly.executes_of_found {r : Run} (h : c.Orderly) (found : c.runs[number]? = some r)
    (inFlight : r.hasEnded = false) : c.Executes number r := by
  obtain ⟨q, executes⟩ := h.executes (isInFlight_iff.mpr ⟨r, found, inFlight⟩)
  exact Option.some.inj (executes.found.symm.trans found) ▸ executes

/-- A run ends by the step that leads to its end. -/
theorem Goes.ends {r r' : Run} {chance : Chance} (found : c.runs[number]? = some r)
    (goes : c.Goes (c.stepRun chance number) number r r') (inFlight : r.hasEnded = false)
    (ended : r'.point = .ended) : c.ends number (.event (.stepRun chance number)) = true := by
  have found' := goes.found found
  simp [Controller.ends, isInFlight, meet, after, found, found', inFlight, Run.hasEnded_iff.mpr ended]

theorem settings_meet (c : Controller) (i : Incident) : (c.meet i).settings = c.settings := by
  have effect := c.effect_meet i
  generalize c.meet i = c' at effect ⊢
  cases effect with
  | steps chance found =>
    obtain ⟨r', displays⟩ := c.displays_stepRun chance found
    exact displays.settings
  | _ => rfl

theorem settings_course (c : Controller) (incidents : List Incident) :
    (c.course incidents).settings = c.settings := by
  induction incidents generalizing c with
  | nil => rfl
  | cons i later ih => exact (ih (c.meet i)).trans (c.settings_meet i)

/-! ## What lasts -/

/-- Something holds all along a course of incidents, or until an incident that
is met as it is meant to end. -/
def LastsUntil (c : Controller) (holds : Controller → Prop) (ending : Controller → Incident → Prop) :
    List Incident → Prop
  | [] => holds c
  | i :: later => holds c ∧ (ending c i ∨ (c.meet i).LastsUntil holds ending later)

/-- What is kept by every incident but those that are meant to end it lasts. -/
theorem LastsUntil.of_kept {holds keeps : Controller → Prop} {ending : Controller → Incident → Prop}
    (implies : ∀ c, keeps c → holds c)
    (kept : ∀ c i, keeps c → ending c i ∨ keeps (c.meet i)) {later : List Incident} (h : keeps c) :
    c.LastsUntil holds ending later := by
  induction later generalizing c with
  | nil => exact implies c h
  | cons i later ih => exact ⟨implies c h, (kept c i h).imp_right ih⟩

end

end GcodeJob.Controller
