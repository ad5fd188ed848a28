import GcodeJob.Job.Loop
import GcodeJob.Job.Operations

/-!
# GcodeJob.Proofs.Job.Events

Everything that can happen to a controller, one thing at a time and in any
order: what an operator asks for, the steps of the producers and of the runs,
the steps of the index, other readers, programs that are closed from outside,
and a system that has no thread left.
-/

namespace GcodeJob.Controller

inductive Event
  | powerOn
  | shutDown
  | load (program : Nat)
  | execute (hasRuntime : Bool)
  | pause
  | resume
  | stop
  | cancel
  | reset
  /-- A program is opened. -/
  | open (path : String) (medium : Medium) (settings : StreamSettings)
  /-- Closing a program goes through three steps. -/
  | markClosed (program : Nat)
  | release (program : Nat)
  | forget (program : Nat)
  /-- The index of a program goes on by a read and by taking what was read. -/
  | readChunk (program : Nat)
  | takeChunk (program : Nat)
  /-- Others read from a program, and change the room for kept commands. -/
  | getCommand (program line : Nat)
  | setCacheCapacity (program capacity : Nat)
  | stepProducer (feed number : Nat)
  | stepRun (chance : Chance) (number : Nat)
  | advanceTo (moment : Nat)
  /-- The system runs out of threads for producers, or has some again. -/
  | setThreads (hasThreads : Bool)

/-- Lets something happen to a program. -/
def onProgram (c : Controller) (number : Nat) (f : Program → Program) : Controller :=
  { c with programs := c.programs.modify number f }

/-- What an event makes of a controller.  Only a program that exists is loaded. -/
def after (c : Controller) : Event → Controller
  | .powerOn => c.powerOn.2
  | .shutDown => c.shutDown.2
  | .load program => if program < c.programs.size then (c.load program).2 else c
  | .execute hasRuntime => (c.execute hasRuntime).2
  | .pause => c.pause.2
  | .resume => c.resume.2
  | .stop => c.stop.2
  | .cancel => c.cancel.2
  | .reset => c.reset.2
  | .open path medium settings => c.addProgram (.openAt path medium settings)
  | .markClosed program => c.onProgram program fun p => { p with file := p.file.markClosed }
  | .release program => c.onProgram program fun p => { p with file := p.file.release }
  | .forget program => c.onProgram program Program.forget
  | .readChunk program => c.onProgram program fun p => { p with file := p.file.readChunk }
  | .takeChunk program => c.onProgram program fun p => { p with file := p.file.takeChunk }
  | .getCommand program line => c.onProgram program fun p => (p.getCommand line).2
  | .setCacheCapacity program capacity => c.onProgram program (·.setCacheCapacity capacity)
  | .stepProducer feed number => c.stepProducer feed number
  | .stepRun chance number => c.stepRun chance number
  | .advanceTo moment => c.advanceTo moment
  | .setThreads hasThreads => c.setThreads hasThreads

/-- An operation is refused, or it is allowed and does what it is for. -/
theorem allowing_cases (c : Controller) (o : Operation) (act : Controller → Reply) :
    (∃ e, c.allowing o act = (.error e, c)) ∨
      c.status.state ∈ o.allowed ∧ c.allowing o act = act c := by
  by_cases allowed : c.status.state ∈ o.allowed
  · exact .inr ⟨allowed, if_pos (List.contains_iff_mem.mpr allowed)⟩
  · exact .inl ⟨_, allowing_of_refused act allowed⟩

end GcodeJob.Controller
