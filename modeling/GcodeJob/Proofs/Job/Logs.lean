import GcodeJob.Proofs.Job.Feeds

/-!
# GcodeJob.Proofs.Job.Logs

The log of a run: the lines it has begun, and how it ended.  At every moment
what a run has begun is what its feed has delivered to it, less the command it
is about to begin (`RunPoint.Begun`), and what a feed delivers are the lines
to be executed, in their order.
-/

namespace GcodeJob

open Controller (Event)

theorem Run.hasEnded_iff {r : Run} : r.hasEnded = true ↔ r.point = .ended := decide_eq_true_iff

/-- What is known of a run. -/
structure Log where
  /-- The lines published as executed, in the order they were. -/
  begun : List Int := []
  /-- A stop was accepted while it was in flight. -/
  stopped : Bool := false
  /-- The state it left behind. -/
  endedIn? : Option State := none
  deriving DecidableEq

/-- A controller and the logs of its runs. -/
structure Job where
  controller : Controller
  logs : Array Log := #[]

/-- What a step of a run adds to its log, by the status that is published
then: the line of a command that it begins, or the state in which it ends. -/
def Log.note (log : Log) (point : RunPoint) (status : Status) : Log :=
  match point with
  | .beginning _ => { log with begun := log.begun ++ [status.line] }
  | .concluding _ => { log with endedIn? := some status.state }
  | _ => log

namespace Controller

@[simp] theorem status_goTo (c : Controller) (number : Nat) (r : Run) (point : RunPoint) :
    (c.goTo number r point).status = c.status := rfl

@[simp] theorem status_setRun (c : Controller) (number : Nat) (r : Run) :
    (c.setRun number r).status = c.status := rfl

@[simp] theorem status_onBuffer (c : Controller) (number : Nat) (f : Buffer → Buffer) :
    (c.onBuffer number f).status = c.status := rfl

/-- No step of a run but the one that is noted shows another line. -/
theorem line_stepRun (c : Controller) (chance : Chance) {number : Nat} {r : Run}
    (found : c.runs[number]? = some r) (other : ∀ command, r.point ≠ .beginning command) :
    (c.stepRun chance number).status.line = c.status.line ∨
      (c.stepRun chance number).status.line = noLine := by
  unfold stepRun
  rw [found]
  dsimp only
  cases at_ : r.point with
  | beginning command => exact absurd at_ (other command)
  | starting =>
    simp only [startFeed]
    split
    · simp
    · repeat' split
      all_goals simp
  | announcing => simp [announce, Status.setLine]
  | fetching =>
    simp only [fetch]
    split <;> simp
  | polling =>
    simp only [poll]
    split <;> simp
  | asleep =>
    simp only [wake]
    split
    · simp
    · split <;> simp
  | advancing => simp [tick, Status.setProgress]
  | recording =>
    simp only [recordTime]
    split <;> simp [status_onFeed]
  | checkpoint =>
    simp only [check, takeSignal]
    cases c.signal <;> simp [setState]
  | holding =>
    simp only [hold, takeSignal]
    cases c.signal <;> simp [setState]
  | leaving =>
    simp only [leave]
    split <;> simp
  | concluding outcome => cases outcome <;> simp [conclude, Status.setLine]
  | _ => simp [lookAtIndex, doze]

end Controller

namespace Job

def step (j : Job) (e : Event) : Job :=
  let c := j.controller.after e
  match e with
  | .execute hasRuntime =>
    match (j.controller.execute hasRuntime).1 with
    | .ok () => { controller := c, logs := j.logs.push {} }
    | .error _ => { j with controller := c }
  | .stop =>
    match j.controller.stop.1 with
    | .ok () =>
      { controller := c
        logs := j.logs.modify (j.logs.size - 1) fun log => { log with stopped := true } }
    | .error _ => { j with controller := c }
  | .stepRun _ number =>
    match j.controller.runs[number]? with
    | some r => { controller := c, logs := j.logs.modify number (·.note r.point c.status) }
    | none => { j with controller := c }
  | _ => { j with controller := c }

def run (j : Job) (events : List Event) : Job := events.foldl step j

theorem step_execute (j : Job) (hasRuntime : Bool) : j.step (.execute hasRuntime) =
    match j.controller.execute hasRuntime with
    | (.ok (), c) => { controller := c, logs := j.logs.push {} }
    | (.error _, c) => { j with controller := c } := by
  unfold step Controller.after
  dsimp only
  generalize j.controller.execute hasRuntime = reply
  obtain ⟨_ | _, c⟩ := reply <;> rfl

theorem step_stop (j : Job) : j.step .stop =
    match j.controller.stop with
    | (.ok (), c) =>
      { controller := c
        logs := j.logs.modify (j.logs.size - 1) fun log => { log with stopped := true } }
    | (.error _, c) => { j with controller := c } := by
  unfold step Controller.after
  dsimp only
  generalize j.controller.stop = reply
  obtain ⟨_ | _, c⟩ := reply <;> rfl

theorem step_stepRun (j : Job) (chance : Chance) (number : Nat) : j.step (.stepRun chance number) =
    match j.controller.runs[number]? with
    | some r =>
      { controller := j.controller.stepRun chance number
        logs := j.logs.modify number (·.note r.point (j.controller.stepRun chance number).status) }
    | none => j := by
  unfold step Controller.after
  dsimp only
  cases found : j.controller.runs[number]? with
  | some r => rfl
  | none =>
    unfold Controller.stepRun
    rw [found]

end Job

/-! ## What a run has begun -/

/-- The lines to be executed, in their order. -/
def linesToExecute (commands : List Command) : List Int :=
  (executables commands).map fun command => (command.line : Int)

/-- The lines to be executed of what a feed reads. -/
def Controller.toExecute (c : Controller) (r : Run) : List Int :=
  linesToExecute (((c.programOf? r).map Program.commands).getD [])

/-- The lines to be executed of what a feed reads, `none` being no feed. -/
def linesRead (reads? : Option (List Command × Buffer)) : List Int :=
  linesToExecute ((reads?.map Prod.fst).getD [])

theorem linesRead_congr {reads? reads?' : Option (List Command × Buffer)}
    (commands : reads?'.map Prod.fst = reads?.map Prod.fst) : linesRead reads?' = linesRead reads? := by
  rw [linesRead, commands, linesRead]

theorem Controller.toExecute_eq (c : Controller) (r : Run) :
    c.toExecute r = linesRead (r.feed?.bind c.reads?) := by
  unfold toExecute programOf? linesRead reads?
  cases r.feed? with
  | none => rfl
  | some f =>
    rw [Option.bind_some, Option.bind_some]
    cases c.feed? f <;> rfl

/-- Each line is to be executed once, and after the lines before it. -/
theorem Controller.pairwise_toExecute (c : Controller) (r : Run) :
    (c.toExecute r).Pairwise (· < ·) := by
  unfold toExecute linesToExecute
  cases c.programOf? r with
  | none => exact .nil
  | some p =>
    have numbered : Numbered p.commands := numbered_commandsOf _
    have lines := numbered.pairwise_executables_take p.commands.length
    rw [List.take_length] at lines
    rw [Option.map_some, Option.getD_some, ← Function.comp_def, ← List.map_map, List.pairwise_map]
    exact lines.imp Int.ofNat_lt.mpr

/-- What has been begun and what comes next are what the feed has delivered. -/
def Log.Takes (log : Log) (reads? : Option (List Command × Buffer)) (next : List Issued) : Prop :=
  ∃ commands b taken, reads? = some (commands, b) ∧ b.Delivers commands (taken ++ next) ∧
    log.begun = taken.map fun held => (held.line : Int)

/-- What the log of a run says, by what the run does next and what its feed reads. -/
def RunPoint.Begun (reads? : Option (List Command × Buffer)) (log : Log) : RunPoint → Prop
  | .starting => log.begun = []
  | .beginning command => log.Takes reads? [command]
  | .leaving outcome | .concluding outcome =>
    log.begun <+: linesRead reads? ∧
      (outcome = .completed → log.begun = linesRead reads?) ∧
      (outcome = .stopped → log.stopped = true)
  | .ended =>
    log.begun <+: linesRead reads? ∧
      (log.endedIn? = some .idle → log.stopped = true ∨ log.begun = linesRead reads?)
  | _ => log.Takes reads? []

/-- A run and its log. -/
structure Controller.Records (c : Controller) (r : Run) (log : Log) : Prop where
  feed_lt : ∀ feed, r.feed? = some feed → feed < c.feeds.size
  inFlight : r.hasEnded = false → log.endedIn? = none
  begun : r.point.Begun (r.feed?.bind c.reads?) log

/-! ## What a run has begun, and what its feed delivers -/

section
variable {commands : List Command} {b : Buffer} {taken : List Issued}

/-- What a feed has delivered are the first of the lines to be executed. -/
theorem Buffer.Delivers.first (h : b.Delivers commands taken) :
    (taken.map fun held => (held.line : Int)) <+: linesToExecute commands := by
  have first : taken.map Issued.command <+: executables commands := by
    refine List.IsPrefix.trans ?_ ((List.take_prefix b.queue.position commands).filter _)
    refine ⟨b.queue.items.map Issued.command, ?_⟩
    rw [← List.map_append]
    exact h
  have lines := first.map fun command => (command.line : Int)
  rwa [List.map_map] at lines

/-- A feed that is exhausted at the end of its program has delivered all of them. -/
theorem Buffer.Delivers.all (h : b.Delivers commands taken) (sound : b.Sound commands)
    (empty : b.queue.items = []) (finished : b.queue.stage = .finished) :
    (taken.map fun held => (held.line : Int)) = linesToExecute commands := by
  unfold Buffer.Delivers at h
  rw [empty, List.append_nil, sound.queue.finished finished, List.take_length] at h
  rw [linesToExecute, ← h, List.map_map]
  rfl

/-- A line that is delivered is published as it is. -/
theorem lineOf_of_delivers (numbered : Numbered commands)
    (few : (commands.length : Int) < Word.highest) {command : Issued}
    (h : b.Delivers commands (taken ++ [command])) :
    Controller.lineOf command = (command.line : Int) := by
  have mem : command.command ∈ commands := by
    have queued : command.command ∈ (taken ++ [command] ++ b.queue.items).map Issued.command := by
      simp
    rw [h] at queued
    exact List.mem_of_mem_take (List.mem_filter.mp queued |>.1)
  obtain ⟨line, lt, at_line⟩ := List.getElem_of_mem mem
  have own : command.line = line := numbered (List.getElem?_eq_some_iff.mpr ⟨lt, at_line⟩)
  unfold Controller.lineOf
  omega

end

section
variable {reads? reads?' : Option (List Command × Buffer)} {log : Log} {point : RunPoint}

theorem Log.Takes.first (h : log.Takes reads? []) : log.begun <+: linesRead reads? := by
  obtain ⟨commands, b, taken, rfl, delivers, begun⟩ := h
  rw [List.append_nil] at delivers
  rw [begun]
  exact delivers.first

/-- A run that leaves early has begun no more than the first of its lines. -/
theorem Log.Takes.leaves (h : log.Takes reads? []) {outcome : Outcome} (early : outcome ≠ .completed)
    (stopped : outcome = .stopped → log.stopped = true) :
    (RunPoint.leaving outcome).Begun reads? log :=
  ⟨h.first, fun completed => absurd completed early, stopped⟩

/-- What it means to a run that it asks its feed for a command. -/
theorem Log.Takes.next {commands : List Command} {b : Buffer} (h : log.Takes (some (commands, b)) [])
    (sound : b.Sound commands) :
    RunPoint.Begun (some (commands, b.next.2)) log
      (match b.next.1 with
        | .ready _ command => .beginning command
        | .empty _ => .polling
        | .exhausted true => .leaving .completed
        | .exhausted false => .leaving .failed) := by
  obtain ⟨_, _, taken, ⟨rfl, rfl⟩, delivers, begun⟩ := h
  rw [List.append_nil] at delivers
  have gives := sound.next.2
  generalize b.next = next at gives ⊢
  obtain ⟨answer, b'⟩ := next
  dsimp only at gives ⊢
  cases answer with
  | ready position command =>
    obtain ⟨-, items, position⟩ := gives
    refine ⟨commands, b', taken, rfl, ?_, begun⟩
    unfold Buffer.Delivers at delivers ⊢
    rw [List.append_assoc, List.singleton_append, ← items, delivers, position]
  | empty position =>
    obtain ⟨-, rfl, -⟩ := gives
    exact ⟨commands, b', taken, rfl, (List.append_nil taken).symm ▸ delivers, begun⟩
  | exhausted reachedEnd =>
    obtain ⟨rfl, empty, -, finished⟩ := gives
    cases reachedEnd with
    | true =>
      have all : log.begun = linesToExecute commands := by
        rw [begun]
        exact delivers.all sound empty (finished.mp rfl)
      exact ⟨all ▸ List.prefix_refl _, fun _ => all, nofun⟩
    | false =>
      have takes : log.Takes (some (commands, b')) [] :=
        ⟨commands, b', taken, rfl, (List.append_nil taken).symm ▸ delivers, begun⟩
      exact takes.leaves nofun nofun

/-- At every moment a run has begun the first of its lines. -/
theorem RunPoint.Begun.first (h : point.Begun reads? log) : log.begun <+: linesRead reads? := by
  cases point with
  | starting => exact h ▸ List.nil_prefix
  | beginning command =>
    obtain ⟨commands, b, taken, rfl, delivers, begun⟩ := h
    refine List.IsPrefix.trans ?_ delivers.first
    rw [begun, List.map_append]
    exact List.prefix_append _ _
  | leaving | concluding | ended => exact h.1
  | _ => exact Log.Takes.first h

/-- Nothing that is known of a run is lost as long as its feed delivers what it did. -/
theorem RunPoint.Begun.of_delivers (h : point.Begun reads? log)
    (none : reads? = none → reads?' = none)
    (delivers : ∀ commands b, reads? = some (commands, b) → ∃ b', reads?' = some (commands, b') ∧
      ∀ taken, b.Delivers commands taken → b'.Delivers commands taken) :
    point.Begun reads?' log := by
  have takes {next : List Issued} (h : log.Takes reads? next) : log.Takes reads?' next := by
    obtain ⟨commands, b, taken, reads, delivered, begun⟩ := h
    obtain ⟨b', reads', keeps⟩ := delivers commands b reads
    exact ⟨commands, b', taken, reads', keeps _ delivered, begun⟩
  have lines : linesRead reads?' = linesRead reads? := by
    cases eq : reads? with
    | none => rw [none eq]
    | some reads =>
      obtain ⟨b', eq', -⟩ := delivers reads.1 reads.2 eq
      rw [eq']
      rfl
  cases point with
  | starting => exact h
  | leaving | concluding | ended =>
    unfold RunPoint.Begun at h ⊢
    rw [lines]
    exact h
  | _ => exact takes h

/-- Of a run that has ended it is enough that its feed reads what it did. -/
theorem RunPoint.Begun.of_ended (h : RunPoint.ended.Begun reads? log)
    (commands : reads?'.map Prod.fst = reads?.map Prod.fst) : RunPoint.ended.Begun reads?' log := by
  unfold RunPoint.Begun at h ⊢
  rw [linesRead_congr commands]
  exact h

/-- A stop takes nothing back. -/
theorem RunPoint.Begun.stop (h : point.Begun reads? log) :
    point.Begun reads? { log with stopped := true } := by
  cases point with
  | leaving | concluding => exact ⟨h.1, h.2.1, fun _ => rfl⟩
  | ended => exact ⟨h.1, fun _ => .inl rfl⟩
  | _ => exact h

end

/-! ## What the steps of a run keep -/

namespace Controller.Records
variable {c c' : Controller} {r : Run} {log : Log}

theorem reads_eq_none (h : c.Records r log) (fed : c.Fed) (none : r.feed?.bind c.reads? = none) :
    r.feed? = .none := by
  cases feed : r.feed? with
  | none => rfl
  | some f =>
    obtain ⟨commands, b, reads⟩ := fed.reads f (h.feed_lt f feed)
    rw [feed, Option.bind_some, reads] at none
    cases none

/-- What goes on in the background changes nothing about a run. -/
theorem advance (h : c.Records r log) (fed : c.Fed) (advances : Advances c c')
    (sizes : c.feeds.size ≤ c'.feeds.size) : c'.Records r log := by
  refine ⟨fun feed at_ => Nat.lt_of_lt_of_le (h.feed_lt feed at_) sizes, h.inFlight,
    h.begun.of_delivers (fun none => ?_) fun commands b reads => ?_⟩
  · rw [h.reads_eq_none fed none]
    rfl
  · cases feed : r.feed? with
    | none => simp [feed] at reads
    | some f =>
      rw [feed, Option.bind_some] at reads
      exact advances f commands b reads

/-- A feed that reads what it did means the same lines to a run. -/
theorem commands (h : c.Records r log) (fed : c.Fed) (same : SameCommands c c') :
    (r.feed?.bind c'.reads?).map Prod.fst = (r.feed?.bind c.reads?).map Prod.fst := by
  cases feed : r.feed? with
  | none => rfl
  | some f =>
    obtain ⟨commands, b, reads⟩ := fed.reads f (h.feed_lt f feed)
    obtain ⟨b', reads'⟩ := same f commands b reads
    rw [Option.bind_some, Option.bind_some, reads, reads']
    rfl

/-- Nothing changes about a run that has ended. -/
theorem of_ended (h : c.Records r log) (fed : c.Fed) (same : SameCommands c c')
    (sizes : c.feeds.size ≤ c'.feeds.size) (ended : r.hasEnded = true) : c'.Records r log := by
  have point := Run.hasEnded_iff.mp ended
  refine ⟨fun feed at_ => Nat.lt_of_lt_of_le (h.feed_lt feed at_) sizes, h.inFlight, ?_⟩
  have begun := h.begun
  rw [point] at begun ⊢
  exact begun.of_ended (h.commands fed same)

/-- What a run does not show to its log does not matter. -/
theorem of_place {r' : Run} (h : c.Records r log) (feed : r'.feed? = r.feed?)
    (point : r'.point = r.point) : c.Records r' log := by
  refine ⟨feed ▸ h.feed_lt, fun inFlight => h.inFlight ?_, ?_⟩
  · unfold Run.hasEnded at inFlight ⊢
    rwa [← point]
  · rw [feed, point]
    exact h.begun

end Controller.Records

end GcodeJob
