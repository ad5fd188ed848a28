import GcodeJob.Proofs.Job.Requests

/-!
# GcodeJob.Proofs.Job.Order

A job executes its program in order.  Whatever is asked of a controller and
in whatever order everything takes its turn, a run begins the lines to be
executed one after the other, from the first one on.

**Main result** (`Job.begun_in_order`): the lines that a run has begun are
the first of those to be executed, and all of them once it has ended at rest
without a stop.
-/

namespace GcodeJob

open Controller (Event)

/-- The feed that a run executes, as the loop finds it. -/
theorem Controller.reads?_of_source {c : Controller} {r : Run} {f : Nat} {feed : Feed} {p : Program}
    (source : (r.feed?.bind fun f => (c.feed? f).map (f, ·)) = some (f, feed, p)) :
    r.feed? = some f ∧ c.reads? f = some (p.commands, feed.buffer) := by
  rw [Option.bind_eq_some_iff] at source
  obtain ⟨f', at_feed, source⟩ := source
  rw [Option.map_eq_some_iff] at source
  obtain ⟨reader, found, same⟩ := source
  cases same
  exact ⟨at_feed, by rw [reads?, found, Option.map_some]⟩

/-- What a step of a run makes of a controller and of the run, but for its feed. -/
structure Controller.Moves (c c' : Controller) (number : Nat) (r r' : Run) : Prop where
  frame : c' = { c with
    runs := c.runs.setIfInBounds number r'
    signal := c'.signal
    token? := c'.token?
    status := c'.status
    past := c'.past
    published := c'.published }
  feed : r'.feed? = r.feed?
  active : c'.status.state.isActive = !r'.hasEnded
  signal : c'.signal = .stop → c.signal = .stop

namespace Job.Valid
variable {j : Job} {number : Nat} {r r' : Run} {point : RunPoint}

/-! ## Steps of a run in flight -/

theorem hasEnded_of_point (at_ : r.point = point) (inFlight : point ≠ .ended) :
    r.hasEnded = false := by
  rw [Bool.eq_false_iff, Ne, Run.hasEnded_iff, at_]
  exact inFlight

theorem isActive_of_point (h : j.Valid) (found : j.controller.runs[number]? = some r)
    (at_ : r.point = point) (inFlight : point ≠ .ended) :
    j.controller.status.state.isActive = true :=
  h.active.mpr ⟨number, r, found, hasEnded_of_point at_ inFlight⟩

/-- A stop that waits is one for the run in flight. -/
theorem stopped_of_signal (h : j.Valid) (found : j.controller.runs[number]? = some r)
    (at_ : r.point = point) (inFlight : point ≠ .ended) (pending : j.controller.signal = .stop)
    {log : Log} (at_log : j.logs[number]? = some log) : log.stopped = true := by
  obtain ⟨last, at_last, stopped⟩ := h.signal pending
  have := h.last number r found (hasEnded_of_point at_ inFlight)
  have := h.logs
  have own : j.logs.size - 1 = number := by omega
  rw [own, at_log] at at_last
  rw [Option.some.inj at_last]
  exact stopped

/-- While a run is in flight, all others have ended. -/
theorem others_ended (h : j.Valid) (found : j.controller.runs[number]? = some r)
    (inFlight : r.hasEnded = false) {other : Nat} {q : Run} (ne : number ≠ other)
    (found' : j.controller.runs[other]? = some q) : q.hasEnded = true := by
  refine (Bool.not_eq_false _).mp fun inFlight' => ne ?_
  have := h.last number r found inFlight
  have := h.last other q found' inFlight'
  omega

/-- A step of a run in flight that may note something in its log.  First
something may happen to its feed, which makes of the controller `c`. -/
theorem noting (h : j.Valid) (found : j.controller.runs[number]? = some r) (at_ : r.point = point)
    (inFlight : point ≠ .ended) {c c' : Controller} (fed : c.Fed)
    (same : j.controller.SameCommands c) (sizes : c.feeds.size = j.controller.feeds.size)
    (frame : c = { j.controller with programs := c.programs, feeds := c.feeds })
    (moves : c.Moves c' number r r') {f : Log → Log}
    (stopped : ∀ log, (f log).stopped = log.stopped)
    (endedIn : r'.hasEnded = false → ∀ log, (f log).endedIn? = log.endedIn?)
    (begun : ∀ log, j.logs[number]? = some log →
      point.Begun (r.feed?.bind j.controller.reads?) log →
      r'.point.Begun (r.feed?.bind c.reads?) (f log)) :
    j.Continues { controller := c', logs := j.logs.modify number f } := by
  have inFlight := hasEnded_of_point at_ inFlight
  have last := h.last number r found inFlight
  obtain ⟨moved, feed, active, signal⟩ := moves
  have programs : c'.programs = c.programs := by rw [moved]
  have feeds : c'.feeds = c.feeds := by rw [moved]
  have signal_eq : c.signal = j.controller.signal := by rw [frame]
  have loaded : c'.loaded? = j.controller.loaded? := by rw [moved, frame]
  have runs : c'.runs = j.controller.runs.setIfInBounds number r' := by rw [moved, frame]
  have at_number : c'.runs[number]? = some r' := by
    rw [runs, Array.getElem?_setIfInBounds, if_pos rfl, if_pos (by omega)]
  have at_other {other : Nat} {q : Run} (ne : number ≠ other) (found' : c'.runs[other]? = some q) :
      j.controller.runs[other]? = some q ∧ q.hasEnded = true := by
    rw [runs, Array.getElem?_setIfInBounds, if_neg ne] at found'
    exact ⟨found', h.others_ended found inFlight ne found'⟩
  have same' : j.controller.SameCommands c' := same.trans (.congr programs feeds)
  have sizes' : c'.feeds.size = j.controller.feeds.size := by rw [feeds, sizes]
  refine { valid := ?valid, runs := fun other q found' => ?runs }
  case valid =>
    exact
      { fed := fed.congr programs feeds
        loaded_lt := fun own loaded' => sizes' ▸ h.loaded_lt own (loaded ▸ loaded')
        logs := by rw [Array.size_modify, runs, Array.size_setIfInBounds, h.logs]
        last := fun other q found' inFlight' => by
          by_cases ne : number = other
          · rw [← ne, runs, Array.size_setIfInBounds, last]
          · rw [(at_other ne found').2] at inFlight'
            cases inFlight'
        active := by
          rw [active]
          constructor
          · intro on
            exact ⟨number, r', at_number, (Bool.not_eq_true' _).mp on⟩
          · rintro ⟨other, q, found', inFlight'⟩
            by_cases ne : number = other
            · rw [← ne, at_number] at found'
              rw [Option.some.inj found', inFlight']
              rfl
            · rw [(at_other ne found').2] at inFlight'
              cases inFlight'
        signal := fun pending => by
          obtain ⟨log, at_log, own⟩ := h.signal (signal_eq ▸ signal pending)
          have own_log : number = j.logs.size - 1 := by
            have := h.logs
            omega
          refine ⟨f log, ?_, (stopped log).trans own⟩
          rw [Array.size_modify, Array.getElem?_modify, if_pos own_log, at_log, Option.map_some]
        records := fun other q log found' at_log => by
          rw [Array.getElem?_modify] at at_log
          split at at_log
          next own =>
            rw [← own, Option.map_eq_some_iff] at at_log
            obtain ⟨before, at_log, rfl⟩ := at_log
            obtain rfl : r' = q := Option.some.inj (at_number.symm.trans (own ▸ found'))
            have record := h.records number r before found at_log
            exact
              { feed_lt := fun own at_feed => sizes' ▸ record.feed_lt own (feed ▸ at_feed)
                inFlight := fun on => (endedIn on before).trans (record.inFlight inFlight)
                begun := by
                  rw [Controller.reads?_congr programs feeds, feed]
                  exact begun before at_log (at_ ▸ record.begun) }
          next ne =>
            obtain ⟨found, ended⟩ := at_other ne found'
            have record := h.records other q log found at_log
            exact record.of_ended h.fed same' (Nat.le_of_eq sizes'.symm) ended }
  case runs =>
    by_cases ne : number = other
    · obtain rfl : r = q := Option.some.inj (found.symm.trans (ne ▸ found'))
      exact ⟨r', ne ▸ at_number, h.toExecute same' found feed⟩
    · refine ⟨q, ?_, h.toExecute same' found' rfl⟩
      rw [runs, Array.getElem?_setIfInBounds, if_neg ne, found']

theorem modify_of_eq {logs : Array Log} {f : Log → Log} (quiet : ∀ log, f log = log) :
    logs.modify number f = logs := by
  refine Array.ext_getElem? fun other => ?_
  rw [Array.getElem?_modify]
  split
  · cases logs[other]? with
    | none => rfl
    | some log => rw [Option.map_some, quiet]
  · rfl

/-- A step of a run in flight that notes nothing. -/
theorem feeding (h : j.Valid) (found : j.controller.runs[number]? = some r) (at_ : r.point = point)
    (inFlight : point ≠ .ended) {c c' : Controller} (fed : c.Fed)
    (same : j.controller.SameCommands c) (sizes : c.feeds.size = j.controller.feeds.size)
    (frame : c = { j.controller with programs := c.programs, feeds := c.feeds })
    (moves : c.Moves c' number r r')
    (begun : ∀ log, j.logs[number]? = some log →
      point.Begun (r.feed?.bind j.controller.reads?) log →
      r'.point.Begun (r.feed?.bind c.reads?) log) :
    j.Continues { j with controller := c' } := by
  have noted := h.noting found at_ inFlight fed same sizes frame moves (f := id)
    (fun _ => rfl) (fun _ _ => rfl) begun
  rwa [modify_of_eq (f := id) fun _ => rfl] at noted

/-- A step of a run in flight that does nothing to its feed. -/
theorem going (h : j.Valid) (found : j.controller.runs[number]? = some r) (at_ : r.point = point)
    (inFlight : point ≠ .ended) {c' : Controller}
    (moves : j.controller.Moves c' number r r')
    (begun : ∀ log, j.logs[number]? = some log →
      point.Begun (r.feed?.bind j.controller.reads?) log →
      r'.point.Begun (r.feed?.bind j.controller.reads?) log) :
    j.Continues { j with controller := c' } :=
  h.feeding found at_ inFlight h.fed (Controller.Advances.refl _).sameCommands rfl rfl moves begun

/-! ## The steps of the loop -/

theorem startFeed (h : j.Valid) (found : j.controller.runs[number]? = some r)
    (at_ : r.point = .starting) :
    j.Continues { j with controller := j.controller.startFeed number r } := by
  have active := h.isActive_of_point found at_ nofun
  have fails : j.Continues { j with controller := j.controller.goTo number r (.leaving .failed) } :=
    h.going found at_ nofun ⟨rfl, rfl, active, id⟩ fun log _ (begun : log.begun = []) =>
      ⟨begun ▸ List.nil_prefix, nofun, nofun⟩
  unfold Controller.startFeed
  split
  next => exact fails
  next f feed p source =>
    obtain ⟨at_feed, reads⟩ := Controller.reads?_of_source source
    split
    next =>
      split
      next => exact fails
      next buffer started =>
        obtain ⟨sound, delivers⟩ := (h.fed.buffers f _ _ reads).start started
        obtain ⟨fed, same, reads'⟩ := h.fed.setBuffer reads sound
        refine h.feeding found at_ nofun fed same Array.size_modify rfl ⟨rfl, rfl, active, id⟩
          fun log _ begun => ⟨p.commands, buffer, [], ?_, delivers, begun⟩
        rw [at_feed]
        exact reads'
    next =>
      obtain ⟨fed, same⟩ := h.fed.onBuffer f (f := (·.startThreadless (some p.state)))
        fun commands b reads' => (h.fed.buffers f commands b reads').startThreadless _
      exact h.feeding found at_ nofun fed same Array.size_modify rfl ⟨rfl, rfl, active, id⟩
        fun log _ (begun : log.begun = []) => ⟨begun ▸ List.nil_prefix, nofun, nofun⟩

theorem lookAtIndex (h : j.Valid) (found : j.controller.runs[number]? = some r)
    (at_ : r.point = .indexing) :
    j.Continues { j with controller := j.controller.lookAtIndex number r } := by
  have active := h.isActive_of_point found at_ nofun
  unfold Controller.lookAtIndex
  split
  · exact h.going found at_ nofun ⟨rfl, rfl, active, id⟩ fun _ _ begun => begun
  · exact h.going found at_ nofun ⟨rfl, rfl, active, id⟩ fun _ _ begun => begun
  all_goals
    exact h.going found at_ nofun ⟨rfl, rfl, active, id⟩ fun _ _ begun =>
      Log.Takes.leaves begun nofun nofun

theorem announce (h : j.Valid) (found : j.controller.runs[number]? = some r)
    (at_ : r.point = .announcing) :
    j.Continues { j with controller := j.controller.announce number r } :=
  h.going found at_ nofun ⟨rfl, rfl, rfl, id⟩ fun _ _ begun => begun

theorem head (h : j.Valid) (found : j.controller.runs[number]? = some r) (at_ : r.point = .heading) :
    j.Continues { j with
      controller := j.controller.goTo number r
        (if r.cancelled then .leaving .canceled else .fetching) } := by
  have active := h.isActive_of_point found at_ nofun
  split
  · exact h.going found at_ nofun ⟨rfl, rfl, active, id⟩ fun _ _ begun =>
      Log.Takes.leaves begun nofun nofun
  · exact h.going found at_ nofun ⟨rfl, rfl, active, id⟩ fun _ _ begun => begun

theorem fetch (h : j.Valid) (found : j.controller.runs[number]? = some r)
    (at_ : r.point = .fetching) : j.Continues { j with controller := j.controller.fetch number r } := by
  have active := h.isActive_of_point found at_ nofun
  unfold Controller.fetch
  split
  next =>
    exact h.going found at_ nofun ⟨rfl, rfl, active, id⟩ fun _ _ begun =>
      Log.Takes.leaves begun nofun nofun
  next f feed p source =>
    obtain ⟨at_feed, reads⟩ := Controller.reads?_of_source source
    have sound := h.fed.buffers f _ _ reads
    obtain ⟨fed, same, reads'⟩ := h.fed.setBuffer reads sound.next.1
    have goes {log : Log} (begun : log.Takes (some (p.commands, feed.buffer)) []) := begun.next sound
    generalize feed.buffer.next = next at fed same reads' goes ⊢
    obtain ⟨answer, buffer⟩ := next
    refine h.feeding found at_ nofun fed same Array.size_modify rfl ⟨rfl, rfl, ?_, id⟩
      fun log _ (begun : log.Takes _ []) => ?_
    · cases answer with
      | exhausted reachedEnd => cases reachedEnd <;> exact active
      | _ => exact active
    · rw [at_feed, Option.bind_some] at begun ⊢
      rw [reads] at begun
      rw [reads']
      exact goes begun

theorem poll (h : j.Valid) (found : j.controller.runs[number]? = some r) (at_ : r.point = .polling) :
    j.Continues { j with controller := j.controller.poll number r } := by
  have active := h.isActive_of_point found at_ nofun
  unfold Controller.poll
  split
  next pending =>
    exact h.going found at_ nofun ⟨rfl, rfl, active, nofun⟩ fun _ at_log begun =>
      Log.Takes.leaves begun nofun fun _ => h.stopped_of_signal found at_ nofun pending at_log
  next => exact h.going found at_ nofun ⟨rfl, rfl, active, id⟩ fun _ _ begun => begun

/-- The line that is published is the one of the command. -/
theorem beginCommand (h : j.Valid) (found : j.controller.runs[number]? = some r) {command : Issued}
    (at_ : r.point = .beginning command) :
    j.Continues
      { controller := j.controller.beginCommand number r command
        logs := j.logs.modify number fun log =>
          { log with begun := log.begun ++ [Controller.lineOf command] } } := by
  have moves : j.controller.Moves (j.controller.beginCommand number r command) number r
      { r with point := .dozing (.tick command .zero) } :=
    ⟨rfl, rfl, h.isActive_of_point found at_ nofun, id⟩
  refine h.noting found at_ nofun h.fed (Controller.Advances.refl _).sameCommands rfl rfl moves
    (fun _ => rfl) (fun _ _ => rfl) fun log _ begun => ?_
  obtain ⟨commands, b, taken, reads, delivers, begun⟩ := begun
  refine ⟨commands, b, taken ++ [command], reads, (List.append_nil _).symm ▸ delivers, ?_⟩
  have line : Controller.lineOf command = (command.line : Int) := by
    rw [Option.bind_eq_some_iff] at reads
    obtain ⟨f, -, reads⟩ := reads
    obtain ⟨feed, p, -, -, rfl, -⟩ := Controller.reads?_eq_some.mp reads
    exact lineOf_of_delivers (numbered_commandsOf _) p.length_commands_lt delivers
  rw [begun, line, List.map_append]
  rfl

theorem doze (h : j.Valid) (found : j.controller.runs[number]? = some r) {errand : Errand}
    (at_ : r.point = .dozing errand) :
    j.Continues { j with controller := j.controller.doze number r errand } := by
  have active := h.isActive_of_point found at_ nofun
  unfold Controller.doze
  split
  · exact h.going found at_ nofun ⟨rfl, rfl, active, id⟩ fun _ _ begun =>
      Log.Takes.leaves begun nofun nofun
  · exact h.going found at_ nofun ⟨rfl, rfl, active, id⟩ fun _ _ begun => begun

theorem wake (h : j.Valid) (chance : Chance) (found : j.controller.runs[number]? = some r)
    {errand : Errand} {moment : Nat} (at_ : r.point = .asleep errand moment) :
    j.Continues { j with controller := j.controller.wake chance number r errand moment } := by
  have active := h.isActive_of_point found at_ nofun
  unfold Controller.wake
  split
  · cases errand <;>
      exact h.going found at_ nofun ⟨rfl, rfl, active, id⟩ fun _ _ begun => begun
  · split
    · exact h.going found at_ nofun ⟨rfl, rfl, active, id⟩ fun _ _ begun =>
        Log.Takes.leaves begun nofun nofun
    · exact h.continues

theorem tick (h : j.Valid) (chance : Chance) (found : j.controller.runs[number]? = some r)
    {command : Issued} {progress : Single} (at_ : r.point = .advancing command progress) :
    j.Continues { j with controller := j.controller.tick chance number r command progress } := by
  have active := h.isActive_of_point found at_ nofun
  unfold Controller.tick
  dsimp only
  split
  all_goals exact h.going found at_ nofun ⟨rfl, rfl, active, id⟩ fun _ _ begun => begun

theorem recordTime (h : j.Valid) (found : j.controller.runs[number]? = some r) {command : Issued}
    (at_ : r.point = .recording command) :
    j.Continues { j with controller := j.controller.recordTime number r command } := by
  have active := h.isActive_of_point found at_ nofun
  unfold Controller.recordTime
  dsimp only
  split
  next f at_feed =>
    generalize min _ Word.highest = time
    obtain ⟨fed, advances⟩ := h.fed.onFeed f (f := fun p b => (p.recordTime command time, b))
      fun p b sound buffer => ⟨sound.recordTime command time, rfl, buffer, fun _ delivers => delivers⟩
    have frame := j.controller.onFeed_eq f fun p b => (p.recordTime command time, b)
    have sizes := j.controller.size_feeds_onFeed f fun p b => (p.recordTime command time, b)
    generalize j.controller.onFeed f _ = c at *
    have state : c.status.state.isActive = true := by
      rw [frame]
      exact active
    refine h.feeding found at_ nofun fed advances.sameCommands sizes frame
      ⟨rfl, rfl, state, id⟩ fun log _ begun => ?_
    obtain ⟨commands, b, taken, reads, delivers, begun⟩ := begun
    rw [at_feed, Option.bind_some] at reads
    obtain ⟨b', reads', keeps⟩ := advances f commands b reads
    refine ⟨commands, b', taken, ?_, keeps _ delivers, begun⟩
    rw [at_feed, Option.bind_some, reads']
  next => exact h.going found at_ nofun ⟨rfl, rfl, active, id⟩ fun _ _ begun => begun

theorem check (h : j.Valid) (found : j.controller.runs[number]? = some r)
    (at_ : r.point = .checkpoint) :
    j.Continues { j with controller := j.controller.check number r } := by
  have active := h.isActive_of_point found at_ nofun
  unfold Controller.check Controller.takeSignal
  cases pending : j.controller.signal with
  | stop =>
    exact h.going found at_ nofun ⟨rfl, rfl, active, nofun⟩ fun _ at_log begun =>
      Log.Takes.leaves begun nofun fun _ => h.stopped_of_signal found at_ nofun pending at_log
  | none => exact h.going found at_ nofun ⟨rfl, rfl, active, nofun⟩ fun _ _ begun => begun
  | _ => exact h.going found at_ nofun ⟨rfl, rfl, rfl, nofun⟩ fun _ _ begun => begun

theorem hold (h : j.Valid) (found : j.controller.runs[number]? = some r) (at_ : r.point = .holding) :
    j.Continues { j with controller := j.controller.hold number r } := by
  have active := h.isActive_of_point found at_ nofun
  unfold Controller.hold Controller.takeSignal
  cases pending : j.controller.signal with
  | stop =>
    exact h.going found at_ nofun ⟨rfl, rfl, active, nofun⟩ fun _ at_log begun =>
      Log.Takes.leaves begun nofun fun _ => h.stopped_of_signal found at_ nofun pending at_log
  | none => exact h.going found at_ nofun ⟨rfl, rfl, active, nofun⟩ fun _ _ begun => begun
  | _ => exact h.going found at_ nofun ⟨rfl, rfl, rfl, nofun⟩ fun _ _ begun => begun

theorem leave (h : j.Valid) (found : j.controller.runs[number]? = some r) {outcome : Outcome}
    (at_ : r.point = .leaving outcome) :
    j.Continues { j with controller := j.controller.leave number r outcome } := by
  have active := h.isActive_of_point found at_ nofun
  unfold Controller.leave
  split
  next f at_feed =>
    obtain ⟨fed, same⟩ := h.fed.onBuffer f (f := Buffer.stop) fun commands b reads =>
      (h.fed.buffers f commands b reads).stop
    refine h.feeding found at_ nofun fed same Array.size_modify rfl ⟨rfl, rfl, active, id⟩
      fun log at_log begun => ?_
    have lines := linesRead_congr ((h.records number r log found at_log).commands h.fed same)
    unfold RunPoint.Begun at begun ⊢
    rw [lines]
    exact begun
  next => exact h.going found at_ nofun ⟨rfl, rfl, active, id⟩ fun _ _ begun => begun

theorem conclude (h : j.Valid) (found : j.controller.runs[number]? = some r) {outcome : Outcome}
    (at_ : r.point = .concluding outcome) :
    j.Continues
      { controller := j.controller.conclude number r outcome
        logs := j.logs.modify number fun log => { log with endedIn? := some outcome.state } } := by
  have moves : j.controller.Moves (j.controller.conclude number r outcome) number r
      { r with point := .ended } := by
    refine ⟨rfl, rfl, ?_, nofun⟩
    cases outcome <;> rfl
  refine h.noting found at_ nofun h.fed (Controller.Advances.refl _).sameCommands rfl rfl moves
    (fun _ => rfl) nofun fun log _ begun => ?_
  obtain ⟨first, completed, stopped⟩ := begun
  refine ⟨first, fun idle => ?_⟩
  cases outcome with
  | completed => exact .inr (completed rfl)
  | stopped => exact .inl (stopped rfl)
  | canceled | failed => cases idle

/-- One step of any run. -/
theorem stepRun (h : j.Valid) (chance : Chance) (number : Nat) :
    j.Continues (j.step (.stepRun chance number)) := by
  rw [Job.step_stepRun]
  cases found : j.controller.runs[number]? with
  | none => exact h.continues
  | some r =>
    have step := Controller.stepRun.eq_def j.controller chance number
    rw [found] at step
    have unnoted {c : Controller} (quiet : ∀ log, Log.note log r.point c.status = log)
        (eq : j.controller.stepRun chance number = c)
        (continues : j.Continues { j with controller := c }) :
        j.Continues
          { controller := j.controller.stepRun chance number
            logs := j.logs.modify number
              (·.note r.point (j.controller.stepRun chance number).status) } := by
      rw [eq, modify_of_eq quiet]
      exact continues
    dsimp only at step ⊢
    cases at_ : r.point
    all_goals rw [at_] at step unnoted
    case starting => exact unnoted (fun _ => rfl) step (h.startFeed found at_)
    case indexing => exact unnoted (fun _ => rfl) step (h.lookAtIndex found at_)
    case announcing => exact unnoted (fun _ => rfl) step (h.announce found at_)
    case heading => exact unnoted (fun _ => rfl) step (h.head found at_)
    case fetching => exact unnoted (fun _ => rfl) step (h.fetch found at_)
    case polling => exact unnoted (fun _ => rfl) step (h.poll found at_)
    case beginning =>
      rw [step]
      exact h.beginCommand found at_
    case dozing => exact unnoted (fun _ => rfl) step (h.doze found at_)
    case asleep => exact unnoted (fun _ => rfl) step (h.wake chance found at_)
    case advancing => exact unnoted (fun _ => rfl) step (h.tick chance found at_)
    case recording => exact unnoted (fun _ => rfl) step (h.recordTime found at_)
    case checkpoint => exact unnoted (fun _ => rfl) step (h.check found at_)
    case holding => exact unnoted (fun _ => rfl) step (h.hold found at_)
    case leaving => exact unnoted (fun _ => rfl) step (h.leave found at_)
    case concluding outcome =>
      rw [step]
      have noted := h.conclude found at_
      cases outcome <;> exact noted
    case ended => exact unnoted (fun _ => rfl) step h.continues

/-- Whatever happens, a job goes on. -/
theorem step (h : j.Valid) (e : Event) : j.Continues (j.step e) := by
  cases e with
  | stepRun chance number => exact h.stepRun chance number
  | _ => exact h.event nofun

end Job.Valid

/-! ## Whole jobs -/

theorem Job.Continues.trans {j j' j'' : Job} (first : j.Continues j') (second : j'.Continues j'') :
    j.Continues j'' := by
  refine ⟨second.valid, fun number r found => ?_⟩
  obtain ⟨r', found', same⟩ := first.runs number r found
  obtain ⟨r'', found'', same'⟩ := second.runs number r' found'
  exact ⟨r'', found'', same'.trans same⟩

theorem Job.Valid.run {j : Job} (h : j.Valid) (events : List Event) : j.Continues (j.run events) := by
  induction events generalizing j with
  | nil => exact h.continues
  | cons e rest ih => exact (h.step e).trans (ih (h.step e).valid)

/-- Before anything happens. -/
theorem Job.Valid.fresh (settings : Settings) : Valid { controller := { settings } } where
  fed := ⟨by simp, by simp, by simp [Controller.reads?, Controller.feed?]⟩
  loaded_lt := nofun
  logs := rfl
  last := by simp
  active := by simp [State.isActive]
  signal := nofun
  records := by simp

namespace Job

/-- Whatever has happened and in whatever order, what a run has begun are the
first of the lines that it is to execute, each of which comes after the ones
before, and all of them if it has ended at rest without a stop.  Which lines
these are does not depend on what happens later. -/
theorem begun_in_order (settings : Settings) (events later : List Event) :
    let j := run { controller := { settings } } events
    j.logs.size = j.controller.runs.size ∧
      ∀ (number : Nat) (r : Run) (log : Log),
        j.controller.runs[number]? = some r → j.logs[number]? = some log →
        log.begun <+: j.controller.toExecute r ∧
        (log.endedIn? = some .idle → log.stopped = false →
          log.begun = j.controller.toExecute r) ∧
        (j.controller.toExecute r).Pairwise (· < ·) ∧
        ∃ r', (j.run later).controller.runs[number]? = some r' ∧
          (j.run later).controller.toExecute r' = j.controller.toExecute r := by
  intro j
  have valid : j.Valid := ((Valid.fresh settings).run events).valid
  refine ⟨valid.logs, fun number r log found at_log => ?_⟩
  have record := valid.records number r log found at_log
  refine ⟨?_, fun idle unstopped => ?_, j.controller.pairwise_toExecute r,
    (valid.run later).runs number r found⟩
  · rw [Controller.toExecute_eq]
    exact record.begun.first
  · rw [Controller.toExecute_eq]
    cases inFlight : r.hasEnded with
    | false => cases (record.inFlight inFlight).symm.trans idle
    | true =>
      have begun := record.begun
      rw [Run.hasEnded_iff.mp inFlight] at begun
      refine (begun.2 idle).resolve_left fun stopped => ?_
      cases stopped.symm.trans unstopped

/-- Two commands and a comment, executed to the end. -/
theorem begun_in_order_of_two_commands :
    let file : RegularFile := ⟨⟨#[71, 49, 10, 59, 10, 77, 50]⟩, by decide, .whole⟩
    let events : List Event :=
      [.powerOn, .open "job" (.file file) ⟨9, 1⟩, .readChunk 0, .takeChunk 0, .readChunk 0,
        .takeChunk 0, .load 0, .execute true] ++
      (List.range 50).flatMap fun second =>
        [.advanceTo (second * 1000000000), .stepProducer 0 0, .stepRun { word := 0xffffffff } 0,
          .stepRun { word := 0xffffffff } 0, .stepRun { word := 0xffffffff } 0]
    let j := run { controller := { settings := {} } } events
    ∃ r log, j.controller.runs[0]? = some r ∧ j.logs[0]? = some log ∧
      log.endedIn? = some .idle ∧ log.stopped = false ∧
      log.begun = [0, 2] ∧ log.begun = j.controller.toExecute r := by
  intro file events j
  have started : j.controller.runs.size = 1 := by decide +kernel
  have ended : j.logs[0]? = some ⟨[0, 2], false, some .idle⟩ := by decide +kernel
  have at_j : run { controller := { settings := {} } } events = j := rfl
  have ordered := begun_in_order {} events []
  dsimp only at ordered
  rw [at_j] at ordered
  -- From here on it is any job of which this much is known.
  clear_value j
  have found : j.controller.runs[0]? = some j.controller.runs[0] := Array.getElem?_eq_getElem _
  exact ⟨_, _, found, ended, rfl, rfl, rfl, (ordered.2 0 _ _ found ended).2.1 rfl rfl⟩

end Job

end GcodeJob
