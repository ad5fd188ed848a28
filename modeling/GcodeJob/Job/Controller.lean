import GcodeJob.Job.Run
import GcodeJob.Job.Status
import GcodeJob.ReadAhead.Buffer

/-!
# GcodeJob.Job.Controller

Everything a job touches: the programs that are open, the feeds that read
them ahead, the runs that execute them, the published status, and what an
operator has asked for.  Programs, feeds and runs are numbered and never
removed, so a late producer still finds what it works on.
-/

namespace GcodeJob

/-- A program that is read ahead. -/
structure Feed where
  /-- The number of the program. -/
  program : Nat
  buffer : Buffer

structure Controller where
  settings : Settings
  /-- The time in nanoseconds. -/
  now : Nat := 0
  /-- Whether the system has a thread left for a producer. -/
  hasThreads : Bool := true
  programs : Array Program := #[]
  feeds : Array Feed := #[]
  runs : Array Run := #[]
  /-- The feed to execute. -/
  loaded? : Option Nat := none
  /-- The request that waits for the run in flight. -/
  signal : Signal := .none
  /-- The run whose token a cancel reaches. -/
  token? : Option Nat := none
  /-- The run executed last. -/
  latestRun? : Option Nat := none
  status : Status := {}
  /-- The statuses published before, the latest first. -/
  past : List Status := []
  /-- How many statuses have been published. -/
  published : Nat := 0

namespace Controller

/-! ## Parts -/

/-- Publishes a change of the status. -/
def publish (c : Controller) (change : Status → Status) : Controller :=
  { c with
    status := change c.status
    past := c.status :: c.past
    published := c.published + 1 }

/-- Publishes a change of the state alone. -/
def setState (c : Controller) (state : State) : Controller :=
  c.publish fun s => { s with state }

/-- Adds a program and gives it the next number. -/
def addProgram (c : Controller) (p : Program) : Controller :=
  { c with programs := c.programs.push p }

/-- Closes a program. -/
def close (c : Controller) (program : Nat) : Controller :=
  { c with programs := c.programs.modify program Program.close }

def setRun (c : Controller) (number : Nat) (r : Run) : Controller :=
  { c with runs := c.runs.setIfInBounds number r }

/-- The feed with a number and the program it reads. -/
def feed? (c : Controller) (number : Nat) : Option (Feed × Program) :=
  c.feeds[number]?.bind fun f => c.programs[f.program]?.map fun p => (f, p)

/-- Lets something happen to the buffer of a feed. -/
def onBuffer (c : Controller) (number : Nat) (f : Buffer → Buffer) : Controller :=
  { c with feeds := c.feeds.modify number fun feed => { feed with buffer := f feed.buffer } }

/-- Lets something happen to a feed's program and buffer. -/
def onFeed (c : Controller) (number : Nat) (f : Program → Buffer → Program × Buffer) :
    Controller :=
  match c.feed? number with
  | none => c
  | some (feed, p) =>
    let (p, buffer) := f p feed.buffer
    { c with
      programs := c.programs.setIfInBounds feed.program p
      feeds := c.feeds.setIfInBounds number { feed with buffer } }

/-- The run executed last, unless it has ended. -/
def inFlight? (c : Controller) : Option Nat :=
  c.latestRun?.filter fun number => c.runs[number]?.any fun r => !r.hasEnded

@[simp] theorem status_publish (c : Controller) (change : Status → Status) :
    (c.publish change).status = change c.status := rfl

/-- The buffer of a feed does not show in the status. -/
theorem status_onFeed (c : Controller) (number : Nat)
    (f : Program → Buffer → Program × Buffer) : (c.onFeed number f).status = c.status := by
  unfold onFeed
  split <;> rfl

/-! ## Background work -/

/-- One step of a producer of a feed. -/
def stepProducer (c : Controller) (feed number : Nat) : Controller :=
  c.onFeed feed fun p b => b.stepProducer c.now p number

/-- Lets time pass up to a moment. -/
def advanceTo (c : Controller) (moment : Nat) : Controller := { c with now := max c.now moment }

/-- Lets the system run out of threads, or have some again. -/
def setThreads (c : Controller) (hasThreads : Bool) : Controller := { c with hasThreads }

end Controller

end GcodeJob
