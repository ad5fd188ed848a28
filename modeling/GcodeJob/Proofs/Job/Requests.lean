import GcodeJob.Proofs.Job.Logs

/-!
# GcodeJob.Proofs.Job.Requests

Controller and logs stay in agreement (`Job.Valid`) through whatever an
operator asks for and through everything that goes on in the background.
-/

namespace GcodeJob

open Controller (Event)

/-- A controller and the logs of its runs agree.  Only the run executed last
may be in flight, and the state says whether it is. -/
structure Job.Valid (j : Job) : Prop where
  fed : j.controller.Fed
  loaded_lt : ∀ feed, j.controller.loaded? = some feed → feed < j.controller.feeds.size
  logs : j.logs.size = j.controller.runs.size
  last : ∀ number (r : Run), j.controller.runs[number]? = some r → r.hasEnded = false →
    number + 1 = j.controller.runs.size
  active : j.controller.status.state.isActive = true ↔
    ∃ (number : Nat) (r : Run), j.controller.runs[number]? = some r ∧ r.hasEnded = false
  signal : j.controller.signal = .stop →
    ∃ log, j.logs[j.logs.size - 1]? = some log ∧ log.stopped = true
  records : ∀ (number : Nat) (r : Run) (log : Log), j.controller.runs[number]? = some r →
    j.logs[number]? = some log → j.controller.Records r log

/-- A job that has gone on from another: all still agrees, and every run is to
execute the lines that it was. -/
structure Job.Continues (j j' : Job) : Prop where
  valid : j'.Valid
  runs : ∀ (number : Nat) (r : Run), j.controller.runs[number]? = some r →
    ∃ r', j'.controller.runs[number]? = some r' ∧
      j'.controller.toExecute r' = j.controller.toExecute r

/-- What of a run its log depends on. -/
def Run.place (r : Run) : Option Nat × RunPoint := (r.feed?, r.point)

namespace Job.Valid
variable {j : Job}

theorem continues (h : j.Valid) : j.Continues j := ⟨h, fun _ r found => ⟨r, found, rfl⟩⟩

theorem exists_log (h : j.Valid) {number : Nat} {r : Run}
    (found : j.controller.runs[number]? = some r) : ∃ log, j.logs[number]? = some log := by
  have lt := (Array.getElem?_eq_some_iff.mp found).1
  exact ⟨_, Array.getElem?_eq_getElem (h.logs ▸ lt)⟩

/-- A run that reads the same feed, with the same commands in it, is to execute the same lines. -/
theorem toExecute (h : j.Valid) {c : Controller} (same : j.controller.SameCommands c) {number : Nat}
    {r r' : Run} (found : j.controller.runs[number]? = some r) (feed : r'.feed? = r.feed?) :
    c.toExecute r' = j.controller.toExecute r := by
  obtain ⟨log, at_log⟩ := h.exists_log found
  have commands := (h.records number r log found at_log).commands h.fed same
  rw [Controller.toExecute_eq, Controller.toExecute_eq, feed, linesRead_congr commands]

/-- At rest all runs have ended. -/
theorem ended_of_rest (h : j.Valid) (rest : j.controller.status.state.isActive = false) {number : Nat}
    {r : Run} (found : j.controller.runs[number]? = some r) : r.hasEnded = true := by
  refine (Bool.not_eq_false _).mp fun inFlight => ?_
  rw [h.active.mpr ⟨number, r, found, inFlight⟩] at rest
  cases rest

/-- Whatever leaves the places of all runs as they are. -/
theorem samePlaces (h : j.Valid) {c : Controller} (fed : c.Fed)
    (same : j.controller.SameCommands c)
    (loaded : ∀ feed, c.loaded? = some feed → feed < c.feeds.size)
    (places : c.runs.map Run.place = j.controller.runs.map Run.place)
    (active : c.status.state.isActive = j.controller.status.state.isActive)
    (signal : c.signal = .stop → j.controller.signal = .stop)
    (records : ∀ (number : Nat) (r : Run) (log : Log), j.controller.runs[number]? = some r →
      j.controller.Records r log → c.Records r log) :
    j.Continues { j with controller := c } := by
  have size : c.runs.size = j.controller.runs.size := by
    simpa using congrArg Array.size places
  have place (number : Nat) : c.runs[number]?.map Run.place =
      j.controller.runs[number]?.map Run.place := by
    rw [← Array.getElem?_map, ← Array.getElem?_map, places]
  have forth {number : Nat} {r : Run} (found : j.controller.runs[number]? = some r) :
      ∃ r', c.runs[number]? = some r' ∧ r'.feed? = r.feed? ∧ r'.point = r.point := by
    have at_ := place number
    rw [found, Option.map_some, Option.map_eq_some_iff] at at_
    obtain ⟨r', found', same⟩ := at_
    exact ⟨r', found', congrArg Prod.fst same, congrArg Prod.snd same⟩
  have back {number : Nat} {r' : Run} (found' : c.runs[number]? = some r') :
      ∃ r, j.controller.runs[number]? = some r ∧ r'.feed? = r.feed? ∧ r'.point = r.point := by
    have at_ := place number
    rw [found', Option.map_some, eq_comm, Option.map_eq_some_iff] at at_
    obtain ⟨r, found, same⟩ := at_
    exact ⟨r, found, congrArg Prod.fst same.symm, congrArg Prod.snd same.symm⟩
  have ended {r r' : Run} (point : r'.point = r.point) : r'.hasEnded = r.hasEnded := by
    rw [Run.hasEnded, Run.hasEnded, point]
  refine { valid := ?valid, runs := fun number r found => ?runs }
  case valid =>
    exact
      { fed, loaded_lt := loaded, logs := h.logs.trans size.symm
        last := fun number r' found' inFlight => by
          obtain ⟨r, found, -, point⟩ := back found'
          exact (h.last number r found (ended point ▸ inFlight)).trans size.symm
        active := by
          rw [active, h.active]
          constructor
          · rintro ⟨number, r, found, inFlight⟩
            obtain ⟨r', found', -, point⟩ := forth found
            exact ⟨number, r', found', (ended point).trans inFlight⟩
          · rintro ⟨number, r', found', inFlight⟩
            obtain ⟨r, found, -, point⟩ := back found'
            exact ⟨number, r, found, (ended point).symm.trans inFlight⟩
        signal := fun pending => h.signal (signal pending)
        records := fun number r' log found' at_log => by
          obtain ⟨r, found, feed, point⟩ := back found'
          have record := records number r log found (h.records number r log found at_log)
          exact record.of_place feed point }
  case runs =>
    obtain ⟨r', found', feed, -⟩ := forth found
    exact ⟨r', found', h.toExecute same found feed⟩

/-- Whatever takes nothing from what the feeds deliver. -/
theorem background (h : j.Valid) {c : Controller} (fed : c.Fed)
    (advances : j.controller.Advances c) (sizes : j.controller.feeds.size ≤ c.feeds.size)
    (loaded : c.loaded? = j.controller.loaded?)
    (places : c.runs.map Run.place = j.controller.runs.map Run.place)
    (status : c.status = j.controller.status)
    (signal : c.signal = .stop → j.controller.signal = .stop) :
    j.Continues { j with controller := c } :=
  h.samePlaces fed advances.sameCommands
    (fun feed at_ => Nat.lt_of_lt_of_le (h.loaded_lt feed (loaded ▸ at_)) sizes) places
    (status ▸ rfl) signal fun _ _ _ _ record => record.advance h.fed advances sizes

/-- Whatever happens at rest and leaves the controller at rest. -/
theorem atRest (h : j.Valid) (rest : j.controller.status.state.isActive = false) {c : Controller}
    (fed : c.Fed) (same : j.controller.SameCommands c)
    (sizes : j.controller.feeds.size ≤ c.feeds.size)
    (loaded : ∀ feed, c.loaded? = some feed → feed < c.feeds.size)
    (runs : c.runs = j.controller.runs) (still : c.status.state.isActive = false)
    (signal : c.signal = j.controller.signal) : j.Continues { j with controller := c } :=
  h.samePlaces fed same loaded (runs ▸ rfl) (still.trans rest.symm) (fun pending => signal ▸ pending)
    fun _ _ _ found record => record.of_ended h.fed same sizes (h.ended_of_rest rest found)

/-- An operation that is refused leaves a job as it is. -/
theorem allowing (h : j.Valid) {o : Operation} {act : Controller → Controller.Reply}
    (acts : j.controller.status.state ∈ o.allowed →
      j.Continues { j with controller := (act j.controller).2 }) :
    j.Continues { j with controller := (j.controller.allowing o act).2 } := by
  rcases j.controller.allowing_cases o act with ⟨e, refused⟩ | ⟨allowed, accepted⟩
  · rw [refused]
    exact h.continues
  · rw [accepted]
    exact acts allowed

/-! ## What an operator asks for at rest -/

theorem powerOn (h : j.Valid) : j.Continues { j with controller := j.controller.powerOn.2 } := by
  refine h.allowing fun allowed => ?_
  have rest : j.controller.status.state.isActive = false := by
    rw [List.mem_singleton.mp allowed]
    rfl
  dsimp only
  split
  all_goals
    exact h.atRest rest (h.fed.congr rfl rfl) (.congr rfl rfl) (Nat.le_refl _) h.loaded_lt rfl rfl rfl

theorem reset (h : j.Valid) : j.Continues { j with controller := j.controller.reset.2 } := by
  refine h.allowing fun allowed => ?_
  have rest : j.controller.status.state.isActive = false := by
    simp only [Operation.allowed, List.mem_cons, List.not_mem_nil, or_false] at allowed
    rcases allowed with state | state <;> rw [state] <;> rfl
  exact h.atRest rest (h.fed.congr rfl rfl) (.congr rfl rfl) (Nat.le_refl _) h.loaded_lt rfl rfl rfl

theorem shutDown (h : j.Valid) : j.Continues { j with controller := j.controller.shutDown.2 } := by
  refine h.allowing fun allowed => ?_
  have rest : j.controller.status.state.isActive = false := by
    rw [List.mem_singleton.mp allowed]
    rfl
  have still : (j.controller.setState .shutdown).Fed := h.fed.congr rfl rfl
  obtain ⟨fed, same⟩ := still.stopLoaded
  have frame := (j.controller.setState .shutdown).stopLoaded_eq
  have sizes := (j.controller.setState .shutdown).size_feeds_stopLoaded
  dsimp only
  generalize (j.controller.setState .shutdown).stopLoaded = c at *
  refine h.atRest rest (fed.congr rfl rfl) (.trans (.congr rfl rfl) (same.trans (.congr rfl rfl)))
    (Nat.le_of_eq sizes.symm) nofun ?_ ?_ ?_ <;> rw [frame] <;> rfl

theorem load (h : j.Valid) {program : Nat} (there : program < j.controller.programs.size) :
    j.Continues { j with controller := (j.controller.load program).2 } := by
  refine h.allowing fun allowed => ?_
  have rest : j.controller.status.state.isActive = false := by
    rw [List.mem_singleton.mp allowed]
    rfl
  obtain ⟨fed_stopped, stopped⟩ := h.fed.stopLoaded
  obtain ⟨fed_closed, closed⟩ := fed_stopped.closeReplaced program
  have frame_stopped := j.controller.stopLoaded_eq
  have frame := j.controller.stopLoaded.closeReplaced_eq program
  have feeds : (j.controller.stopLoaded.closeReplaced program).feeds.size =
      j.controller.feeds.size := by
    rw [frame]
    exact j.controller.size_feeds_stopLoaded
  have programs : (j.controller.stopLoaded.closeReplaced program).programs.size =
      j.controller.programs.size := by
    rw [Controller.size_programs_closeReplaced, frame_stopped]
  dsimp only
  generalize j.controller.stopLoaded.closeReplaced program = c at *
  have found := Array.getElem?_eq_getElem (programs ▸ there)
  obtain ⟨fed, added⟩ := fed_closed.addFeed found c.settings.buffer
  refine h.atRest rest (fed.congr rfl rfl)
    (stopped.trans (closed.trans (added.trans (.congr rfl rfl)))) ?_ ?_ ?_ ?_ ?_
  · simp only [Controller.publish, Array.size_push]
    omega
  · rintro feed ⟨⟩
    simp [Controller.publish]
  · rw [frame, frame_stopped]
    rfl
  · rw [frame, frame_stopped]
    exact rest
  · rw [frame, frame_stopped]
    rfl

/-- A run more, which has begun nothing yet. -/
theorem beginRun (h : j.Valid) (rest : j.controller.status.state.isActive = false) {c : Controller}
    (eq : (j.controller.setState .waiting).beginRun = c) :
    j.Continues { controller := c, logs := j.logs.push {} } := by
  have runs : c.runs = j.controller.runs.push { feed? := j.controller.loaded? } := by
    rw [← eq]
    rfl
  have state : c.status.state = .waiting := by
    rw [← eq]
    rfl
  have feeds : c.feeds = j.controller.feeds := by
    rw [← eq]
    rfl
  have programs : c.programs = j.controller.programs := by
    rw [← eq]
    rfl
  have advances : j.controller.Advances c := .congr programs feeds
  have found_last : c.runs[j.controller.runs.size]? = some { feed? := j.controller.loaded? } := by
    rw [runs, Array.getElem?_push, if_pos rfl]
  have found_other {number : Nat} (other : number ≠ j.controller.runs.size) :
      c.runs[number]? = j.controller.runs[number]? := by
    rw [runs, Array.getElem?_push, if_neg other]
  refine { valid := ?valid, runs := fun number r found => ?runs }
  case valid =>
    exact
      { fed := h.fed.congr programs feeds
        loaded_lt := by
          rw [← eq]
          exact h.loaded_lt
        logs := by rw [runs, Array.size_push, Array.size_push, h.logs]
        last := fun number r found inFlight => by
          by_cases last : number = j.controller.runs.size
          · rw [last, runs, Array.size_push]
          · rw [h.ended_of_rest rest (found_other last ▸ found)] at inFlight
            cases inFlight
        active := by
          rw [state]
          exact ⟨fun _ => ⟨_, _, found_last, rfl⟩, fun _ => rfl⟩
        signal := by
          rw [← eq]
          nofun
        records := fun number r log found at_log => by
          rw [Array.getElem?_push, h.logs] at at_log
          split at at_log
          next last =>
            obtain rfl := Option.some.inj at_log
            obtain rfl := Option.some.inj (found_last.symm.trans (last ▸ found))
            exact ⟨fun feed at_ => feeds ▸ h.loaded_lt feed at_, fun _ => rfl, rfl⟩
          next other =>
            have record := h.records number r log (found_other other ▸ found) at_log
            exact record.advance h.fed advances (Nat.le_of_eq (congrArg Array.size feeds).symm) }
  case runs =>
    have lt := (Array.getElem?_eq_some_iff.mp found).1
    exact ⟨r, (found_other (Nat.ne_of_lt lt)).trans found, h.toExecute advances.sameCommands found rfl⟩

theorem execute (h : j.Valid) (hasRuntime : Bool) : j.Continues (j.step (.execute hasRuntime)) := by
  rw [Job.step_execute, Controller.execute]
  cases hasRuntime with
  | false => exact h.continues
  | true =>
    rcases j.controller.allowing_cases .execute _ with ⟨e, refused⟩ | ⟨allowed, accepted⟩
    · rw [if_neg (by decide), refused]
      exact h.continues
    · have rest : j.controller.status.state.isActive = false := by
        rw [List.mem_singleton.mp allowed]
        rfl
      rw [if_neg (by decide), accepted]
      exact h.beginRun rest rfl

/-! ## What an operator asks of a run in flight -/

theorem request (h : j.Valid) (o : Operation) {signal : Signal} (other : signal ≠ .stop) :
    j.Continues { j with controller := (j.controller.request o signal).2 } := by
  unfold Controller.request
  split
  · exact h.continues
  · refine h.allowing fun _ => ?_
    exact h.background (h.fed.congr rfl rfl) (.congr rfl rfl) (Nat.le_refl _) rfl rfl rfl
      fun pending => absurd pending other

theorem stop (h : j.Valid) : j.Continues (j.step .stop) := by
  rw [Job.step_stop, Controller.stop, Controller.request]
  by_cases pending : j.controller.signal = .stop
  · rw [if_pos pending]
    exact h.continues
  rw [if_neg pending]
  rcases j.controller.allowing_cases .stop _ with ⟨e, refused⟩ | ⟨allowed, accepted⟩
  · rw [refused]
    exact h.continues
  rw [accepted]
  have active : j.controller.status.state.isActive = true := by
    simp only [Operation.allowed, List.mem_cons, List.not_mem_nil, or_false] at allowed
    rcases allowed with state | state <;> rw [state] <;> rfl
  obtain ⟨number, r, found, inFlight⟩ := h.active.mp active
  obtain ⟨log, at_log⟩ := h.exists_log found
  have last : number = j.logs.size - 1 := by
    have := h.last number r found inFlight
    have := h.logs
    omega
  have same : j.controller.SameCommands { j.controller with signal := .stop } := .congr rfl rfl
  refine ⟨⟨h.fed.congr rfl rfl, h.loaded_lt, ?_, h.last, h.active, fun _ => ?_, ?_⟩,
    fun number r found => ⟨r, found, h.toExecute same found rfl⟩⟩
  · rw [Array.size_modify, h.logs]
  · refine ⟨{ log with stopped := true }, ?_, rfl⟩
    rw [Array.size_modify, Array.getElem?_modify, if_pos rfl, ← last, at_log, Option.map_some]
  · intro number r log found at_log
    rw [Array.getElem?_modify] at at_log
    split at at_log
    next =>
      rw [Option.map_eq_some_iff] at at_log
      obtain ⟨before, at_log, rfl⟩ := at_log
      obtain ⟨feed_lt, inFlight, begun⟩ := h.records number r before found at_log
      exact ⟨feed_lt, inFlight, begun.stop⟩
    next =>
      obtain ⟨feed_lt, inFlight, begun⟩ := h.records number r log found at_log
      exact ⟨feed_lt, inFlight, begun⟩

theorem cancel (h : j.Valid) : j.Continues { j with controller := j.controller.cancel.2 } := by
  refine h.allowing fun _ => ?_
  unfold Controller.cancelToken
  dsimp only
  split
  next number _ =>
    refine h.background (h.fed.congr rfl rfl) (.congr rfl rfl) (Nat.le_refl _) rfl ?_ rfl id
    refine Array.ext_getElem? fun other => ?_
    rw [Array.getElem?_map, Array.getElem?_map, Array.getElem?_modify]
    split
    · cases j.controller.runs[other]? <;> rfl
    · rfl
  next => exact h.continues

/-! ## What goes on in the background -/

/-- Whatever happens to a program but to the bytes of its file. -/
theorem onProgram (h : j.Valid) (number : Nat) {f : Program → Program}
    (keeps : ∀ p : Program, p.Sound → (f p).Sound ∧ (f p).file.medium = p.file.medium) :
    j.Continues { j with controller := j.controller.onProgram number f } := by
  obtain ⟨fed, advances⟩ := h.fed.advances_onProgram number keeps
  exact h.background fed advances (Nat.le_refl _) rfl rfl rfl id

theorem addProgram (h : j.Valid) {p : Program} (sound : p.Sound) :
    j.Continues { j with controller := j.controller.addProgram p } := by
  obtain ⟨fed, advances⟩ := h.fed.addProgram sound
  exact h.background fed advances (Nat.le_refl _) rfl rfl rfl id

theorem stepProducer (h : j.Valid) (feed number : Nat) :
    j.Continues { j with controller := j.controller.stepProducer feed number } := by
  obtain ⟨fed, advances⟩ := h.fed.stepProducer feed number
  have sizes : (j.controller.stepProducer feed number).feeds.size = j.controller.feeds.size :=
    j.controller.size_feeds_onFeed ..
  have frame : j.controller.stepProducer feed number = { j.controller with
      programs := (j.controller.stepProducer feed number).programs
      feeds := (j.controller.stepProducer feed number).feeds } := j.controller.onFeed_eq ..
  generalize j.controller.stepProducer feed number = c at *
  refine h.background fed advances (Nat.le_of_eq sizes.symm) ?_ ?_ ?_ fun pending => ?_
  · rw [frame]
  · rw [frame]
  · rw [frame]
  · rwa [frame] at pending

/-- Everything but the steps of runs. -/
theorem event (h : j.Valid) {e : Event} (other : ∀ chance number, e ≠ .stepRun chance number) :
    j.Continues (j.step e) := by
  cases e with
  | powerOn => exact h.powerOn
  | shutDown => exact h.shutDown
  | load program =>
    unfold Job.step Controller.after
    dsimp only
    split
    next there => exact h.load there
    next => exact h.continues
  | execute hasRuntime => exact h.execute hasRuntime
  | pause => exact h.request .pause nofun
  | resume => exact h.request .resume nofun
  | stop => exact h.stop
  | cancel => exact h.cancel
  | reset => exact h.reset
  | «open» path medium settings => exact h.addProgram (.openAt path medium settings)
  | markClosed program => exact h.onProgram program fun p sound => ⟨sound.markClosed, rfl⟩
  | release program => exact h.onProgram program fun p sound => ⟨sound.release, rfl⟩
  | forget program => exact h.onProgram program fun p sound => ⟨sound.forget, rfl⟩
  | readChunk program =>
    exact h.onProgram program fun p sound => ⟨sound.readChunk, p.file.medium_readChunk⟩
  | takeChunk program =>
    exact h.onProgram program fun p sound => ⟨sound.takeChunk, p.file.medium_takeChunk⟩
  | getCommand program line =>
    exact h.onProgram program fun p sound =>
      ⟨(sound.getCommand line).1, (Program.sameFile_getCommand p line).medium⟩
  | setCacheCapacity program capacity =>
    exact h.onProgram program fun p sound => ⟨sound.setCacheCapacity capacity, rfl⟩
  | stepProducer feed number => exact h.stepProducer feed number
  | stepRun chance number => exact absurd rfl (other chance number)
  | advanceTo | setThreads =>
    exact h.background (h.fed.congr rfl rfl) (.congr rfl rfl) (Nat.le_refl _) rfl rfl rfl id

end Job.Valid

end GcodeJob
