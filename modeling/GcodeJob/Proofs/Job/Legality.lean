import GcodeJob.Proofs.Job.Effects

/-!
# GcodeJob.Proofs.Job.Legality

When an operation is accepted, and what is left of one that is not.  The
guards differ, a look at the state, at a pending stop, at the settings or at
the runtime, but a refusal is the same for all of them: it leaves everything
as it was, and only a self test that fails shows two statuses on the way.

**Main result** (`Controller.lawful_course`): every controller keeps to these
laws, whatever has happened to it.
-/

namespace GcodeJob.Controller

/-- What can be asked of a controller, when it is done, and what a refusal leaves. -/
structure Lawful (settings : Settings) (c : Controller) : Prop where
  powerOn : c.powerOn.1 = .ok () ↔ c.status.state = .shutdown ∧ settings.validate = .ok ()
  poweredOn : c.powerOn.1 = .ok () → c.powerOn.2.status.state = .idle
  selfTest : ∀ error, c.status.state = .shutdown → settings.validate = .error error →
    c.powerOn.1 = .error error ∧ c.powerOn.2.status.state = .shutdown
  shutDown : c.shutDown.1 = .ok () ↔ c.status.state = .idle
  load : ∀ program, (c.load program).1 = .ok () ↔ c.status.state = .idle
  execute : (c.execute true).1 = .ok () ↔ c.status.state = .idle
  outside : (c.execute false).1 = .error .noRuntime
  reset : c.reset.1 = .ok () ↔ c.status.state = .failed ∨ c.status.state = .canceled
  afterReset : c.reset.1 = .ok () →
    c.reset.2.status.state = .idle ∧ c.reset.2.status.line = -1
  cancel : c.cancel.1 = .ok () ↔
    c.status.state = .waiting ∨ c.status.state = .printing ∨ c.status.state = .paused
  stopPending :
    (c.pause.1 = .error (.stopPending .pause) ↔ c.signal = .stop) ∧
    (c.resume.1 = .error (.stopPending .resume) ↔ c.signal = .stop) ∧
    (c.stop.1 = .error (.stopPending .stop) ↔ c.signal = .stop)
  pause : c.signal ≠ .stop → (c.pause.1 = .ok () ↔ c.status.state = .printing)
  resume : c.signal ≠ .stop → (c.resume.1 = .ok () ↔ c.status.state = .paused)
  stop : c.signal ≠ .stop →
    (c.stop.1 = .ok () ↔ c.status.state = .printing ∨ c.status.state = .paused)
  /-- Only the statuses shown before may be more. -/
  refused : ∀ (e : Event) (error : Error) (c' : Controller),
    c.reply? e = some (.error error, c') →
    c' = { c with past := c'.past, published := c'.published }

section
variable {c c' : Controller} {o : Operation} {error : Error}

/-- What never fails by itself is done just if it is allowed. -/
theorem allowing_eq_ok_iff {act : Controller → Controller} :
    (c.allowing o fun c => (.ok (), act c)).1 = .ok () ↔ c.status.state ∈ o.allowed := by
  by_cases allowed : c.status.state ∈ o.allowed <;> simp [allowing, allowed]

/-- What never fails by itself leaves everything as it is if it is refused. -/
theorem eq_of_allowing_eq_error {act : Controller → Controller}
    (refused : c.allowing o (fun c => (.ok (), act c)) = (.error error, c')) : c' = c := by
  by_cases allowed : c.status.state ∈ o.allowed <;> simp [allowing, allowed] at refused
  exact refused.2.symm

theorem request_eq_stopPending_iff {signal : Signal} :
    (c.request o signal).1 = .error (.stopPending o) ↔ c.signal = .stop := by
  by_cases pending : c.signal = .stop
  · simp [request, pending]
  · by_cases allowed : c.status.state ∈ o.allowed <;> simp [request, allowing, pending, allowed]

theorem request_eq_ok_iff {signal : Signal} (free : c.signal ≠ .stop) :
    (c.request o signal).1 = .ok () ↔ c.status.state ∈ o.allowed := by
  rw [request, if_neg free]
  exact allowing_eq_ok_iff

theorem eq_of_request_eq_error {signal : Signal}
    (refused : c.request o signal = (.error error, c')) : c' = c := by
  unfold request at refused
  split at refused
  next => exact (Prod.mk.inj refused).2.symm
  next => exact eq_of_allowing_eq_error refused

/-! ## Power -/

theorem powerOn_eq_ok_iff :
    c.powerOn.1 = .ok () ↔ c.status.state = .shutdown ∧ c.settings.validate = .ok () := by
  by_cases off : c.status.state = .shutdown
  · cases tested : c.settings.validate <;>
      simp [powerOn, allowing, Operation.allowed, off, setState, publish, tested]
  · simp [powerOn, allowing, Operation.allowed, off]

theorem state_powerOn (accepted : c.powerOn.1 = .ok ()) : c.powerOn.2.status.state = .idle := by
  obtain ⟨off, tested⟩ := powerOn_eq_ok_iff.mp accepted
  simp [powerOn, allowing, Operation.allowed, off, setState, publish, tested]

/-- A self test that fails has shown two statuses, the last one as before. -/
theorem powerOn_of_fault (off : c.status.state = .shutdown)
    (fault : c.settings.validate = .error error) :
    c.powerOn = (.error error,
      { c with past := { c.status with state := .selfTest } :: c.status :: c.past
               published := c.published + 1 + 1 }) := by
  have again : { c.status with state := .shutdown } = c.status := by rw [← off]
  simp [powerOn, allowing, Operation.allowed, off, setState, publish, fault, again]

theorem eq_of_powerOn_eq_error (refused : c.powerOn = (.error error, c')) :
    c' = { c with past := c'.past, published := c'.published } := by
  by_cases off : c.status.state = .shutdown
  · cases tested : c.settings.validate with
    | error fault =>
      rw [powerOn_of_fault off tested] at refused
      rw [← (Prod.mk.inj refused).2]
    | ok _ =>
      have accepted := powerOn_eq_ok_iff.mpr ⟨off, tested⟩
      rw [refused] at accepted
      cases accepted
  · have allowed : c.status.state ∉ Operation.powerOn.allowed := by simpa [Operation.allowed] using off
    rw [powerOn, allowing_of_refused _ allowed] at refused
    rw [← (Prod.mk.inj refused).2]

/-! ## All operations -/

/-- **A refusal** leaves everything but the record of what was shown as it was. -/
theorem eq_of_reply?_eq_error {e : Event} (refused : c.reply? e = some (.error error, c')) :
    c' = { c with past := c'.past, published := c'.published } := by
  -- But for the self test, nothing at all has changed.
  have same (unchanged : c' = c) : c' = { c with past := c'.past, published := c'.published } :=
    unchanged ▸ rfl
  cases e with
  | powerOn => exact eq_of_powerOn_eq_error (Option.some.inj refused)
  | load program =>
    unfold reply? at refused
    dsimp only at refused
    split at refused
    next => exact same (eq_of_allowing_eq_error (Option.some.inj refused))
    next => cases refused
  | execute hasRuntime =>
    have refused := Option.some.inj refused
    unfold Controller.execute at refused
    split at refused
    next => exact same (Prod.mk.inj refused).2.symm
    next => exact same (eq_of_allowing_eq_error refused)
  | pause | resume | stop => exact same (eq_of_request_eq_error (Option.some.inj refused))
  | shutDown | cancel | reset => exact same (eq_of_allowing_eq_error (Option.some.inj refused))
  | _ => cases refused

end

/-- The laws, of any controller. -/
theorem lawful (c : Controller) : Lawful c.settings c where
  powerOn := powerOn_eq_ok_iff
  poweredOn := state_powerOn
  selfTest error off fault := by
    rw [powerOn_of_fault off fault]
    exact ⟨rfl, off⟩
  shutDown := allowing_eq_ok_iff.trans List.mem_singleton
  load _ := allowing_eq_ok_iff.trans List.mem_singleton
  execute := by
    rw [execute_eq]
    exact allowing_eq_ok_iff.trans List.mem_singleton
  outside := rfl
  reset := allowing_eq_ok_iff.trans (by simp [Operation.allowed])
  afterReset accepted := by
    rw [reset, (allowing_of_accepted accepted).2]
    exact ⟨rfl, rfl⟩
  cancel := allowing_eq_ok_iff.trans (by simp [Operation.allowed])
  stopPending := ⟨request_eq_stopPending_iff, request_eq_stopPending_iff, request_eq_stopPending_iff⟩
  pause free := (request_eq_ok_iff free).trans List.mem_singleton
  resume free := (request_eq_ok_iff free).trans List.mem_singleton
  stop free := (request_eq_ok_iff free).trans (by simp [Operation.allowed])
  refused _ _ _ := eq_of_reply?_eq_error

/-- **Legality and atomicity** of all that can be asked of a controller,
whatever has happened to it since it was made with its settings. -/
theorem lawful_course (settings : Settings) (incidents : List Incident) :
    Lawful settings (course { settings } incidents) := by
  have laws := (course { settings } incidents).lawful
  rwa [settings_course] at laws

end GcodeJob.Controller
