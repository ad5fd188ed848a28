import GcodeJob.Proofs.File.Lifetime
import GcodeJob.Proofs.Job.Buffers

/-!
# GcodeJob.Proofs.Job.Closing

Which programs a controller closes.  An incident closes a program if it is an
explicit call to do so, or if another program is loaded while this one is
(`Controller.Closes`); whatever else happens to programs, and that is most of
what happens at all, leaves it as it is whether they are closed
(`Controller.LeavesClosed`).

**Main result** (`Controller.closed_iff_closes`): a program is closed exactly if
something in the course so far has closed it, and what is loaded is read ahead
from its first line.
-/

namespace GcodeJob.Controller

/-! ## What closes a program -/

/-- The program of the feed that is loaded. -/
def loadedProgram? (c : Controller) : Option Nat := (c.loaded?.bind (c.feeds[·]?)).map Feed.program

/-- An incident closes a program that is there. -/
inductive Closes (c : Controller) (number : Nat) : Incident → Prop
  | explicitly (there : number < c.programs.size) : c.Closes number (.event (.markClosed number))
  /-- Another program is loaded in its place. -/
  | replacing {other : Nat} (there : number < c.programs.size)
      (loaded : c.loadedProgram? = some number) (ne : other ≠ number)
      (accepted : c.Accepts (.load other)) : c.Closes number (.event (.load other))

/-- Programs that are there are as closed as before, and none comes closed. -/
structure LeavesClosed (c c' : Controller) : Prop where
  kept : ∀ {number : Nat} {p : Program}, c.programs[number]? = some p →
    ∃ p', c'.programs[number]? = some p' ∧ p'.file.closed = p.file.closed
  fresh : ∀ {number : Nat} {p' : Program}, c'.programs[number]? = some p' →
    c.programs[number]? = none → p'.file.closed = false

section
variable {c c' c'' : Controller}

/-! ## What leaves programs as they are -/

theorem LeavesClosed.of_same (same : c'.programs = c.programs) : c.LeavesClosed c' where
  kept {_ p} found := ⟨p, by rw [same, found], rfl⟩
  fresh found none := by
    rw [same, none] at found
    cases found

theorem LeavesClosed.onProgram (c : Controller) (number : Nat) {f : Program → Program}
    (keeps : ∀ p, c.programs[number]? = some p → (f p).file.closed = p.file.closed) :
    c.LeavesClosed (c.onProgram number f) where
  kept {n p} found := by
    unfold Controller.onProgram
    dsimp only
    rw [Array.getElem?_modify, found]
    split
    next same => exact ⟨f p, rfl, keeps p (same ▸ found)⟩
    next => exact ⟨p, rfl, rfl⟩
  fresh {n p'} found none := by
    unfold Controller.onProgram at found
    dsimp only at found
    rw [Array.getElem?_modify, none] at found
    split at found <;> cases found

theorem LeavesClosed.onFeed (c : Controller) (feed : Nat) {f : Program → Buffer → Program × Buffer}
    (keeps : ∀ p b, (f p b).1.file.closed = p.file.closed) : c.LeavesClosed (c.onFeed feed f) := by
  cases reader : c.feed? feed with
  | none =>
    unfold Controller.onFeed
    rw [reader]
    exact .of_same rfl
  | some reading =>
    obtain ⟨g, p⟩ := reading
    have at_program := (feed?_eq_some.mp reader).2
    have onProgram := LeavesClosed.onProgram c g.program (f := fun _ => (f p g.buffer).1)
      fun q found => by
        obtain rfl := Option.some.inj (at_program.symm.trans found)
        exact keeps p g.buffer
    rw [onFeed_of_feed? reader]
    exact ⟨onProgram.kept, onProgram.fresh⟩

/-- The programs are those of a controller for which this is known. -/
theorem LeavesClosed.congr (h : c.LeavesClosed c') (same : c''.programs = c'.programs) :
    c.LeavesClosed c'' where
  kept found := same ▸ h.kept found
  fresh found := h.fresh (same ▸ found)

theorem LeavesClosed.addProgram (c : Controller) {p : Program} (opened : p.file.closed = false) :
    c.LeavesClosed (c.addProgram p) where
  kept {n q} found := by
    have lt := (Array.getElem?_eq_some_iff.mp found).1
    refine ⟨q, ?_, rfl⟩
    rw [Controller.addProgram, Array.getElem?_push_lt lt, ← Array.getElem?_eq_getElem lt, found]
  fresh {n p'} found none := by
    rw [Controller.addProgram, Array.getElem?_push, none] at found
    split at found
    · exact Option.some.inj found ▸ opened
    · cases found

/-! ## Steps of runs and producers -/

theorem LeavesClosed.stepProducer (c : Controller) (feed number : Nat) :
    c.LeavesClosed (c.stepProducer feed number) := by
  refine .onFeed c feed fun p b => ?_
  unfold Buffer.stepProducer
  cases b.producers[number]? with
  | none => rfl
  | some w => exact (w.sameFile_step b.settings c.now (s := ⟨p, b.queue⟩)).closed

/-- A run that ends closes nothing, and no step before that does. -/
theorem LeavesClosed.stepRun (c : Controller) (chance : Chance) (number : Nat) :
    c.LeavesClosed (c.stepRun chance number) := by
  unfold Controller.stepRun
  cases c.runs[number]? with
  | none => exact .of_same rfl
  | some r =>
    dsimp only
    cases r.point with
    | starting =>
      unfold startFeed
      dsimp only
      split
      · exact .of_same rfl
      · repeat' split
        all_goals exact .of_same rfl
    | fetching =>
      unfold fetch
      dsimp only
      split <;> exact .of_same rfl
    | polling =>
      unfold poll
      dsimp only
      split <;> exact .of_same rfl
    | asleep errand moment =>
      unfold wake
      dsimp only
      split
      · exact .of_same rfl
      · split <;> exact .of_same rfl
    | recording command =>
      unfold Controller.recordTime
      dsimp only
      split
      · exact (LeavesClosed.onFeed c _ fun p b => rfl).congr rfl
      · exact .of_same rfl
    | checkpoint =>
      unfold check takeSignal
      cases c.signal <;> exact .of_same rfl
    | holding =>
      unfold hold takeSignal
      cases c.signal <;> exact .of_same rfl
    | leaving outcome =>
      unfold leave
      dsimp only
      split <;> exact .of_same rfl
    | _ => exact .of_same rfl

/-! ## Loading -/

theorem loadedProgram?_stopLoaded (c : Controller) :
    c.stopLoaded.loadedProgram? = c.loadedProgram? := by
  unfold stopLoaded
  cases loaded : c.loaded? with
  | none => rfl
  | some feed =>
    have kept : (c.onBuffer feed Buffer.stop).loaded? = some feed := loaded
    rw [loadedProgram?, loadedProgram?, kept, loaded, Option.bind_some, Option.bind_some,
      getElem?_feeds_onBuffer]
    cases c.feeds[feed]? <;> simp

theorem closeReplaced_eq_onProgram (c : Controller) (program : Nat) :
    c.closeReplaced program =
      match c.loadedProgram? with
      | some number => if number = program then c else c.onProgram number Program.close
      | none => c := by
  unfold closeReplaced loadedProgram?
  cases c.loaded?.bind (c.feeds[·]?) <;> rfl

theorem closed_close (p : Program) : p.close.file.closed = true := by
  unfold Program.close
  split
  next closed => exact closed
  next => rfl

/-- The programs after one has been loaded. -/
theorem programs_load (c : Controller) (program : Nat) (idle : c.status.state = .idle) :
    (c.load program).2.programs =
      match c.loadedProgram? with
      | some number =>
        if number = program then c.programs else c.programs.modify number Program.close
      | none => c.programs := by
  have allowed : c.status.state ∈ Operation.load.allowed := by simp [Operation.allowed, idle]
  have programs : (c.load program).2.programs = (c.stopLoaded.closeReplaced program).programs := by
    rw [load, allowing, if_pos (List.contains_iff_mem.mpr allowed)]
    rfl
  rw [programs, closeReplaced_eq_onProgram, loadedProgram?_stopLoaded, stopLoaded_eq]
  split
  · split <;> rfl
  · rfl

/-- A program is loaded at rest, and only if it is there. -/
theorem Accepts.load {program : Nat} (accepted : c.Accepts (.load program)) :
    program < c.programs.size ∧ c.status.state = .idle := by
  obtain ⟨c', reply⟩ := accepted
  unfold reply? at reply
  dsimp only at reply
  split at reply
  next there =>
    refine ⟨there, ?_⟩
    by_contra busy
    have refused : c.status.state ∉ Operation.load.allowed := by simp [Operation.allowed, busy]
    rw [Controller.load, allowing_of_refused _ refused] at reply
    cases Prod.mk.inj (Option.some.inj reply) with
    | intro eq => cases eq
  next => cases reply

/-- What is asked for at rest is done. -/
theorem accepts_load {program : Nat} (there : program < c.programs.size)
    (idle : c.status.state = .idle) : c.Accepts (.load program) := by
  have allowed : c.status.state ∈ Operation.load.allowed := by simp [Operation.allowed, idle]
  refine ⟨(c.load program).2, ?_⟩
  rw [reply?, if_pos there, Controller.load, allowing, if_pos (List.contains_iff_mem.mpr allowed)]

/-! ## One incident -/

/-- What an incident does to programs: those it closes are closed, all others are as closed
as before, and none comes closed. -/
structure ClosesOnly (c : Controller) (i : Incident) (c' : Controller) : Prop where
  kept : ∀ {number : Nat} {p : Program}, c.programs[number]? = some p →
    ∃ p', c'.programs[number]? = some p' ∧
      (p'.file.closed = true ↔ p.file.closed = true ∨ c.Closes number i)
  fresh : ∀ {number : Nat} {p' : Program}, c'.programs[number]? = some p' →
    c.programs[number]? = none → p'.file.closed = false

theorem LeavesClosed.closesOnly {i : Incident} (h : c.LeavesClosed c')
    (nothing : ∀ number, ¬c.Closes number i) : c.ClosesOnly i c' where
  kept {number p} found := by
    obtain ⟨p', found', same⟩ := h.kept found
    exact ⟨p', found', by simp [same, nothing number]⟩
  fresh := h.fresh

/-- One program is closed, the one that is meant. -/
theorem closesOnly_of_modify {i : Incident} {closed : Nat} {f : Program → Program}
    (closes : ∀ p, (f p).file.closed = true)
    (only : ∀ number < c.programs.size, c.Closes number i ↔ closed = number)
    (programs : c'.programs = c.programs.modify closed f) : c.ClosesOnly i c' where
  kept {number p} found := by
    have there := (Array.getElem?_eq_some_iff.mp found).1
    rw [programs, Array.getElem?_modify, found, only number there]
    by_cases same : closed = number
    · exact ⟨f p, by simp [same], by simp [closes, same]⟩
    · exact ⟨p, by simp [same], by simp [same]⟩
  fresh {number p'} found none := by
    rw [programs, Array.getElem?_modify, none] at found
    split at found <;> cases found

theorem closesOnly_markClosed (c : Controller) (program : Nat) :
    c.ClosesOnly (.event (.markClosed program)) (c.after (.markClosed program)) := by
  have programs : (c.after (.markClosed program)).programs =
      c.programs.modify program fun p => { p with file := p.file.markClosed } := rfl
  refine closesOnly_of_modify (fun _ => rfl) (fun number there => ⟨?_, ?_⟩) programs
  · rintro ⟨⟩
    rfl
  · rintro rfl
    exact .explicitly there

/-- What is replaced by a program is the one loaded before, if that is another. -/
theorem closes_load_iff {number program : Nat} (there : number < c.programs.size)
    (accepted : c.Accepts (.load program)) : c.Closes number (.event (.load program)) ↔
      c.loadedProgram? = some number ∧ program ≠ number := by
  constructor
  · intro closes
    cases closes with
    | replacing _ loaded ne => exact ⟨loaded, ne⟩
  · rintro ⟨loaded, ne⟩
    exact .replacing there loaded ne accepted

theorem closesOnly_load (c : Controller) (program : Nat) :
    c.ClosesOnly (.event (.load program)) (c.after (.load program)) := by
  by_cases accepted : c.Accepts (.load program)
  · obtain ⟨there, idle⟩ := accepted.load
    have programs := c.programs_load program idle
    have after_eq : c.after (.load program) = (c.load program).2 := if_pos there
    rw [after_eq]
    cases loaded : c.loadedProgram? with
    | none =>
      rw [loaded] at programs
      refine (LeavesClosed.of_same programs).closesOnly fun number closes => ?_
      cases closes with
      | replacing _ other => cases loaded.symm.trans other
    | some before =>
      rw [loaded] at programs
      by_cases same : before = program
      · refine (LeavesClosed.of_same (by simpa [same] using programs)).closesOnly
          fun number closes => ?_
        cases closes with
        | replacing _ other ne =>
          cases loaded.symm.trans other
          exact ne same.symm
      · refine closesOnly_of_modify closed_close (fun number there => ?_)
          (by simpa [same] using programs)
        rw [closes_load_iff there accepted, loaded, Option.some.injEq]
        exact ⟨And.left, fun own => ⟨own, fun eq => same (own.trans eq.symm)⟩⟩
  · have nothing (number : Nat) : ¬c.Closes number (.event (.load program)) := by
      rintro ⟨⟩
      contradiction
    refine LeavesClosed.closesOnly (.of_same ?_) nothing
    unfold after
    dsimp only
    split
    next there =>
      have busy : c.status.state ∉ Operation.load.allowed := fun allowed =>
        accepted (accepts_load there (List.mem_singleton.mp allowed))
      rw [Controller.load, allowing_of_refused _ busy]
    next => rfl

/-- What an operation keeps that is allowed, it keeps altogether. -/
theorem leavesClosed_allowing (o : Operation) {act : Controller → Reply}
    (keeps : (act c).2.programs = c.programs) : c.LeavesClosed (c.allowing o act).2 := by
  rcases c.allowing_cases o act with ⟨error, refused⟩ | ⟨-, done⟩
  · rw [refused]
    exact .of_same rfl
  · rw [done]
    exact .of_same keeps

theorem leavesClosed_request (c : Controller) (o : Operation) (signal : Signal) :
    c.LeavesClosed (c.request o signal).2 := by
  unfold request
  split
  · exact .of_same rfl
  · exact leavesClosed_allowing o rfl

/-- Whatever happens, other than a call to close a program and loading. -/
theorem leavesClosed_after {e : Event} (mark : ∀ program, e ≠ .markClosed program)
    (load : ∀ program, e ≠ .load program) : c.LeavesClosed (c.after e) := by
  cases e with
  | markClosed program => exact absurd rfl (mark program)
  | load program => exact absurd rfl (load program)
  | powerOn =>
    refine leavesClosed_allowing .powerOn ?_
    dsimp only
    split <;> rfl
  | shutDown =>
    refine leavesClosed_allowing .shutDown ?_
    dsimp only
    rw [stopLoaded_eq]
    rfl
  | execute hasRuntime =>
    unfold after execute
    dsimp only
    split
    · exact .of_same rfl
    · exact leavesClosed_allowing .execute rfl
  | pause | resume | stop => exact c.leavesClosed_request _ _
  | cancel =>
    refine leavesClosed_allowing .cancel ?_
    dsimp only
    rw [cancelToken_frame]
  | reset => exact leavesClosed_allowing .reset rfl
  | «open» path medium settings =>
    exact .addProgram c (IndexedFile.closed_openAt path medium settings.chunkSize)
  | release program | forget program | setCacheCapacity program =>
    exact .onProgram c program fun _ _ => rfl
  | readChunk program => exact .onProgram c program fun p _ => p.file.works_readChunk.closed
  | takeChunk program => exact .onProgram c program fun p _ => p.file.works_takeChunk.closed
  | getCommand program line =>
    exact .onProgram c program fun p _ => (p.sameFile_getCommand line).closed
  | stepProducer feed number => exact .stepProducer c feed number
  | stepRun chance number => exact .stepRun c chance number
  | advanceTo | setThreads => exact .of_same rfl

/-- **One incident** closes the programs that it is said to, and no others. -/
theorem closesOnly_meet (c : Controller) (i : Incident) : c.ClosesOnly i (c.meet i) := by
  cases i with
  | replace program content =>
    have left : c.LeavesClosed (c.onProgram program (·.replaceContent content)) :=
      .onProgram c program fun p _ => (p.file.works_replaceContent content).closed
    exact left.closesOnly nofun
  | damage program kept =>
    have left : c.LeavesClosed (c.onProgram program (·.damage kept)) :=
      .onProgram c program fun _ _ => rfl
    exact left.closesOnly nofun
  | event e =>
    by_cases mark : ∃ program, e = .markClosed program
    · obtain ⟨program, rfl⟩ := mark
      exact c.closesOnly_markClosed program
    by_cases load : ∃ program, e = .load program
    · obtain ⟨program, rfl⟩ := load
      exact c.closesOnly_load program
    refine (leavesClosed_after (fun program eq => mark ⟨program, eq⟩)
      fun program eq => load ⟨program, eq⟩).closesOnly fun number closes => ?_
    cases closes with
    | explicitly => exact mark ⟨number, rfl⟩
    | replacing => exact load ⟨_, rfl⟩

/-! ## A course of incidents -/

/-- Something in a course has closed a program. -/
def HasClosed (c : Controller) (number : Nat) (incidents : List Incident) : Prop :=
  ∃ before i later, incidents = before ++ i :: later ∧ (c.course before).Closes number i

theorem Closes.there {number : Nat} {i : Incident} (h : c.Closes number i) :
    number < c.programs.size := by
  cases h <;> assumption

/-- Programs stay. -/
theorem size_programs_meet (c : Controller) (i : Incident) :
    c.programs.size ≤ (c.meet i).programs.size := by
  by_contra fewer
  have there := Nat.lt_of_not_le fewer
  obtain ⟨p, found, -⟩ := (c.closesOnly_meet i).kept (Array.getElem?_eq_getElem there)
  have lt := (Array.getElem?_eq_some_iff.mp found).1
  omega

theorem hasClosed_concat {number : Nat} {incidents : List Incident} {i : Incident} :
    c.HasClosed number (incidents ++ [i]) ↔
      c.HasClosed number incidents ∨ (c.course incidents).Closes number i := by
  constructor
  · rintro ⟨before, j, later, eq, closes⟩
    rcases List.eq_nil_or_concat later with rfl | ⟨later, k, rfl⟩
    · obtain ⟨rfl, rfl⟩ : incidents = before ∧ i = j := by simpa using eq
      exact .inr closes
    · have ends : incidents ++ [i] = (before ++ j :: later) ++ [k] := by simpa using eq
      obtain ⟨rfl, -⟩ := List.append_inj' ends rfl
      exact .inl ⟨before, j, later, rfl, closes⟩
  · rintro (⟨before, j, later, rfl, closes⟩ | closes)
    · exact ⟨before, j, later ++ [i], by simp, closes⟩
    · exact ⟨incidents, i, [], rfl, closes⟩

/-- What has been closed is there. -/
theorem HasClosed.there {number : Nat} {incidents : List Incident}
    (h : c.HasClosed number incidents) : number < (c.course incidents).programs.size := by
  induction incidents using List.reverseRecOn with
  | nil =>
    obtain ⟨before, i, later, eq, -⟩ := h
    simp at eq
  | append_singleton incidents i ih =>
    have grows := (c.course incidents).size_programs_meet i
    rw [course_concat]
    rcases hasClosed_concat.mp h with before | closes
    · exact Nat.lt_of_lt_of_le (ih before) grows
    · exact Nat.lt_of_lt_of_le closes.there grows

/-- A program is closed exactly if something has closed it. -/
theorem closed_course (none : c.programs = #[]) (incidents : List Incident) {number : Nat}
    {p : Program} (found : (c.course incidents).programs[number]? = some p) :
    p.file.closed = true ↔ c.HasClosed number incidents := by
  induction incidents using List.reverseRecOn generalizing p with
  | nil =>
    rw [show c.course [] = c from rfl, none] at found
    simp at found
  | append_singleton incidents i ih =>
    rw [course_concat] at found
    have step := (c.course incidents).closesOnly_meet i
    rw [hasClosed_concat]
    cases before : (c.course incidents).programs[number]? with
    | none =>
      have absent : ¬number < (c.course incidents).programs.size := by
        simpa using before
      rw [step.fresh found before]
      constructor
      · nofun
      · rintro (closed | closes)
        · exact absurd closed.there absent
        · exact absurd closes.there absent
    | some q =>
      obtain ⟨q', found', iff⟩ := step.kept before
      obtain rfl := Option.some.inj (found'.symm.trans found)
      rw [iff, ih before]

/-! ## What is loaded -/

/-- What a controller is like that has just loaded a program. -/
structure HasLoaded (c : Controller) (number : Nat) (p : Program) : Prop where
  program : c.programs[number]? = some p
  feed : c.loaded?.bind (c.feeds[·]?) =
    some { program := number, buffer := { settings := c.settings.buffer } }
  status : c.status = { state := .idle, line := -1, totalLines := p.totalLines }

/-- The program that is loaded is not one that is closed for it. -/
theorem getElem?_programs_load {number : Nat} (idle : c.status.state = .idle) :
    (c.load number).2.programs[number]? = c.programs[number]? := by
  rw [programs_load c number idle]
  cases c.loadedProgram? with
  | none => rfl
  | some before =>
    dsimp only
    split
    · rfl
    · rw [Array.getElem?_modify, if_neg (by assumption)]

theorem hasLoaded_load {number : Nat} {p : Program} (found : c.programs[number]? = some p)
    (idle : c.status.state = .idle) : (c.load number).2.HasLoaded number p := by
  have allowed : c.status.state ∈ Operation.load.allowed := by simp [Operation.allowed, idle]
  have kept := (getElem?_programs_load idle).trans found
  rw [Controller.load, allowing, if_pos (List.contains_iff_mem.mpr allowed)] at kept ⊢
  have at_program : (c.stopLoaded.closeReplaced number).programs[number]? = some p := kept
  obtain ⟨programs, replaced⟩ := c.exists_eq_closeReplaced number
  have settings : (c.stopLoaded.closeReplaced number).settings = c.settings := by rw [replaced]
  have status : (c.stopLoaded.closeReplaced number).status = c.status := by rw [replaced]
  clear replaced kept
  generalize c.stopLoaded.closeReplaced number = before at *
  refine ⟨at_program, by simp [publish], ?_⟩
  simp [publish, Status.setLine, noLine, status, idle, at_program]

end

/-! ## Which programs are closed -/

/-- **Which programs are closed.**  However loading, jobs and explicit calls to
close programs are mixed, a program is closed exactly if it has been closed
explicitly or another has been loaded while it was the one that is loaded.  And
whatever has been loaded before, a program that is loaded stays as it is and is read
ahead from its first line by a fresh buffer, its lines are shown, and nothing else is. -/
theorem closed_iff_closes (settings : Settings) (incidents : List Incident) :
    let c := course { settings } incidents
    (∀ (number : Nat) (p : Program), c.programs[number]? = some p →
      (p.state = .closed ↔ ∃ before i later, incidents = before ++ i :: later ∧
        (course { settings } before).Closes number i)) ∧
    ∀ (number : Nat) (c' : Controller), c.reply? (.load number) = some (.ok (), c') →
      ∃ p feed, c.programs[number]? = some p ∧ c'.programs[number]? = some p ∧
        c'.loaded?.bind (c'.feeds[·]?) = some feed ∧ feed.program = number ∧
        feed.buffer = { settings := settings.buffer } ∧ feed.buffer.queue.stage = .idle ∧
        feed.buffer.queue.items = [] ∧ feed.buffer.queue.position = 0 ∧
        c'.status.state = .idle ∧ c'.status.line = -1 ∧ c'.status.progress = .zero ∧
        c'.status.time = 0 ∧ c'.status.totalLines = p.totalLines := by
  intro c
  refine ⟨fun number p found => ?_, fun number c' reply => ?_⟩
  · have closed : p.state = .closed ↔ p.file.closed = true := by
      unfold Program.state IndexedFile.state
      cases p.file.closed <;> cases p.file.phase <;> simp
    rw [closed]
    exact closed_course rfl incidents found
  · obtain ⟨there, idle⟩ := Accepts.load ⟨c', reply⟩
    have found := Array.getElem?_eq_getElem there
    have after_eq : c.after (.load number) = (c.load number).2 := if_pos there
    obtain rfl : (c.load number).2 = c' := after_eq.symm.trans (after_eq_of_reply? reply)
    have same : (c.load number).2.settings = settings := by
      rw [← after_eq]
      exact (c.settings_meet (.event (.load number))).trans (settings_course _ incidents)
    have loaded := hasLoaded_load found idle
    have feed := loaded.feed
    rw [same] at feed
    refine ⟨_, _, found, loaded.program, feed, rfl, rfl, rfl, rfl, rfl, ?_⟩
    simp [loaded.status]

/-- A program that is loaded twice and executed stays open, until a job of it has
been canceled and another program is loaded.  It may be loaded again and stays closed. -/
theorem closed_iff_closes_of_replaced :
    let file : RegularFile := ⟨⟨#[71, 49, 10]⟩, by decide, .whole⟩
    let load (program : Nat) : Incident := .event (.load program)
    let opens (path : String) : Incident := .event (.open path (.file file) {})
    let job : List Incident := [.event (.execute true), .event (.stepRun {} 0), .event .cancel] ++
      List.replicate 6 (.event (.stepRun {} 0)) ++ [.event .reset]
    let chunk : List Incident := [.event (.readChunk 0), .event (.takeChunk 0)]
    let before := [.event .powerOn, opens "a", opens "b", load 0, load 0] ++ job ++ chunk ++ chunk
    let c := course { settings := {} } before
    let d := course { settings := {} } (before ++ [load 1])
    c.programs.map Program.state = #[.built, .building] ∧
      d.programs.map Program.state = #[.closed, .building] ∧
      (∃ first i later, before ++ [load 1] = first ++ i :: later ∧
        (course { settings := {} } first).Closes 0 i) ∧
      ∃ d', d.reply? (.load 0) = some (.ok (), d') ∧ d'.status.line = -1 ∧
        d'.status.totalLines = 1 := by
  intro file load opens job chunk before c d
  have open_ : c.programs.map Program.state = #[.built, .building] := by decide +kernel
  have closed : d.programs.map Program.state = #[.closed, .building] := by decide +kernel
  obtain ⟨p, found, state⟩ : ∃ p, d.programs[0]? = some p ∧ p.state = .closed := by
    have first : (d.programs.map Program.state)[0]? = some .closed := by rw [closed]; rfl
    rw [Array.getElem?_map] at first
    exact Option.map_eq_some_iff.mp first
  have at_d : course { settings := {} } (before ++ [load 1]) = d := rfl
  have closes := closed_iff_closes {} (before ++ [load 1])
  dsimp only at closes
  rw [at_d] at closes
  have accepted : d.Accepts (.load 0) := accepts_load (by decide +kernel) (by decide +kernel)
  obtain ⟨d', reply⟩ := accepted
  obtain ⟨q, feed, found', -, -, -, -, -, -, -, -, line, -, -, lines⟩ := closes.2 0 d' reply
  have one : q.totalLines = 1 := by
    have all : (d.programs.map Program.totalLines)[0]? = some 1 := by decide +kernel
    rw [Array.getElem?_map, found'] at all
    exact Option.some.inj all
  exact ⟨open_, closed, (closes.1 0 p found).mp state, d', reply, line, lines.trans one⟩

end GcodeJob.Controller
