import GcodeJob.ReadAhead.Producer

/-!
# GcodeJob.ReadAhead.Buffer

A read-ahead buffer: a queue, the producers of all its runs, and the token
of the current one.  Starting and stopping are made of sections under two
locks, one for the token and one for the queue, and are given here both
section by section and as a whole.
-/

namespace GcodeJob

structure Buffer where
  settings : BufferSettings
  queue : Queue := {}
  /-- One producer for each run ever started. -/
  producers : Array Producer := #[]
  /-- The run whose token would be cancelled by stopping. -/
  token? : Option Nat := none
  deriving DecidableEq

namespace Buffer

/-! ## Starting -/

/-- Whether a program in this state can be read ahead; `none` is no program. -/
def checkSource : Option IndexState → Except Error Unit
  | none | some .closed => .error .bufferWithoutSource
  | some _ => .ok ()

/-- Begins a run, unless one is on. -/
def beginRun (b : Buffer) : Except Error Buffer :=
  if b.queue.stage = .running then .error .bufferRunning
  else .ok { b with queue := b.queue.begin }

/-- Sends a producer for the run just begun on its way. -/
def spawn (b : Buffer) : Buffer := { b with producers := b.producers.push { run := b.queue.run } }

/-- Gives up the run just begun, for want of a thread for its producer. -/
def abandon (b : Buffer) : Buffer :=
  { b with
    queue := { b.queue with stage := .failed }
    producers := b.producers.push { run := b.queue.run, point := .gone } }

/-- Keeps the token of the run just begun. -/
def keepToken (b : Buffer) : Buffer := { b with token? := some b.queue.run }

/-- Starts reading ahead from the first line of a program in the given state. -/
def start (b : Buffer) (source? : Option IndexState) : Except Error Buffer := do
  checkSource source?
  return (← b.beginRun).spawn.keepToken

/-- What is left behind by a start that can get no thread for its producer: it
gives up the run that it has begun. -/
def startThreadless (b : Buffer) (source? : Option IndexState) : Buffer :=
  match checkSource source?, b.beginRun with
  | .ok (), .ok b => b.abandon
  | _, _ => b

/-! ## Stopping -/

/-- Cancels the producer of the kept token and gives the token up. -/
def cancelToken (b : Buffer) : Buffer :=
  { b with
    producers := b.producers.map fun w =>
      if b.token? = some w.run then { w with cancelled := true } else w
    token? := none }

/-- Drops what is queued and ends the run. -/
def discard (b : Buffer) : Buffer := { b with queue := b.queue.discard }

/-- Asks the producer to exit and drops the queue; nothing is queued after it. -/
def stop (b : Buffer) : Buffer := b.cancelToken.discard

/-- No run is on after a stop. -/
theorem stage_stop_ne (b : Buffer) : b.stop.queue.stage ≠ .running :=
  Queue.stage_discard_ne _

/-! ## Taking -/

/-- Takes the next command without waiting for one. -/
def next (b : Buffer) : Fetch × Buffer :=
  let (fetch, queue) := b.queue.next
  (fetch, { b with queue })

/-! ## Producers at work -/

/-- One step of the producer of a number. -/
def stepProducer (now : Nat) (p : Program) (b : Buffer) (number : Nat) : Program × Buffer :=
  match b.producers[number]? with
  | none => (p, b)
  | some w =>
    let (shared, w) := w.step b.settings now ⟨p, b.queue⟩
    (shared.program,
      { b with queue := shared.queue, producers := b.producers.setIfInBounds number w })

/-- One step of every producer, in order. -/
def stepAll (now : Nat) (p : Program) (b : Buffer) : Program × Buffer :=
  (List.range b.producers.size).foldl (fun (p, b) number => b.stepProducer now p number) (p, b)

/-- Steps enough for a producer to read the rest of a program and exit: it
takes at most seven for a line, and some to begin and to end. -/
def stepsToEnd (p : Program) (b : Buffer) : Nat := 8 * (p.totalLines + 3 - b.queue.position)

/-- Lets the producers work at a standing time until all of them rest or have exited. -/
def work (now : Nat) : Nat → Program → Buffer → Program × Buffer
  | 0, p, b => (p, b)
  | n + 1, p, b =>
    if b.producers.any (·.isReady now) then
      let (p, b) := b.stepAll now p
      work now n p b
    else (p, b)

/-- Nothing more will be queued for now: the run is over, the program has no
index yet, or the queue is full. -/
def isSettled (p : Program) (b : Buffer) : Bool :=
  b.queue.stage != .running || p.state == .building ||
    (p.state == .built && decide (b.settings.capacity ≤ b.queue.items.length))

/-- Lets the producers work without resting until nothing more is queued. -/
def settleFor (now : Nat) : Nat → Program → Buffer → Program × Buffer
  | 0, p, b => (p, b)
  | n + 1, p, b =>
    if b.isSettled p then (p, b)
    else
      let (p, b) := { b with producers := b.producers.map Producer.wake }.stepAll now p
      settleFor now n p b

def settle (now : Nat) (p : Program) (b : Buffer) : Program × Buffer :=
  settleFor now (b.stepsToEnd p) p b

end Buffer

end GcodeJob
