import GcodeJob.ReadAhead.Buffer

/-!
# GcodeJob.ReadAhead.Traffic

A buffer that many use at once.  A start and a stop are made of sections, each
under the lock of the token or of the queue.  A start holds the token's lock
from the beginning of its run until it has kept the token; a stop gives that
lock back before it comes to the queue.  Between any two sections other calls,
the producers of all runs, and whoever else reads the program may go on.
-/

namespace GcodeJob

/-! ## What others do to a program -/

namespace Program

/-- What may become of a program that is read ahead: its index goes on, others
read from it, it is closed step by step, its file is rewritten in place or its
disk fails. -/
inductive Change
  | readChunk
  | takeChunk
  | get (line : Nat)
  | setCapacity (capacity : Nat)
  | markClosed
  | release
  | forget
  | rewrite (content : ByteArray)
  | damage (kept : Nat)

def change (p : Program) : Change → Program
  | .readChunk => { p with file := p.file.readChunk }
  | .takeChunk => { p with file := p.file.takeChunk }
  | .get line => (p.getCommand line).2
  | .setCapacity capacity => p.setCacheCapacity capacity
  | .markClosed => { p with file := p.file.markClosed }
  | .release => { p with file := p.file.release }
  | .forget => p.forget
  | .rewrite content => p.replaceContent content
  | .damage kept => p.damage kept

end Program

/-! ## Calls -/

/-- A call of a buffer, by the section that it comes to next. -/
inductive Call
  /-- A start looks whether the program can be read ahead. -/
  | checking
  /-- A start takes the token's lock and begins a run. -/
  | beginning
  /-- A start that holds this lock sends a producer on its way. -/
  | spawning
  /-- A start keeps the token and gives the lock back. -/
  | keeping
  /-- A stop cancels the producer of the kept token, under the token's lock. -/
  | cancelling
  /-- A stop drops what is queued and ends the run. -/
  | discarding
  /-- The call has returned. -/
  | returned
  deriving DecidableEq, Repr

/-- Whether it is a start that may still begin a run, or has begun one and not returned. -/
def Call.isStart : Call → Bool
  | .checking | .beginning | .spawning | .keeping => true
  | _ => false

structure Traffic where
  program : Program
  buffer : Buffer
  /-- Every call ever made. -/
  calls : Array Call := #[]
  /-- The call that holds the token's lock. -/
  holder? : Option Nat := none
  /-- What taking has given since the last run began. -/
  given : List Fetch := []

namespace Traffic

/-- A buffer that nobody has used. -/
def opened (path : String) (medium : Medium) (stream : StreamSettings) (settings : BufferSettings) :
    Traffic :=
  { program := .openAt path medium stream, buffer := { settings } }

/-- A call that comes to another section. -/
def goTo (s : Traffic) (number : Nat) (call : Call) : Traffic :=
  { s with calls := s.calls.setIfInBounds number call }

/-- The next section of a call.  Who needs a lock that is held waits; `spawns`
tells whether a thread can be had. -/
def advance (s : Traffic) (number : Nat) (spawns : Bool) : Traffic :=
  match s.calls[number]? with
  | some .checking =>
    match Buffer.checkSource (some s.program.state) with
    | .ok _ => s.goTo number .beginning
    | .error _ => s.goTo number .returned
  | some .beginning =>
    if s.holder?.isSome then s
    else
      match s.buffer.beginRun with
      | .ok buffer => { s with buffer, holder? := some number, given := [] }.goTo number .spawning
      | .error _ => s.goTo number .returned
  | some .spawning =>
    if spawns then { s with buffer := s.buffer.spawn }.goTo number .keeping
    else { s with buffer := s.buffer.abandon, holder? := none }.goTo number .returned
  | some .keeping => { s with buffer := s.buffer.keepToken, holder? := none }.goTo number .returned
  | some .cancelling =>
    if s.holder?.isSome then s
    else { s with buffer := s.buffer.cancelToken }.goTo number .discarding
  | some .discarding => { s with buffer := s.buffer.discard }.goTo number .returned
  | some .returned | none => s

/-! ## Courses -/

inductive Event
  /-- Somebody calls for a start. -/
  | start
  /-- Somebody calls for a stop. -/
  | stop
  | advance (call : Nat) (spawns : Bool)
  | next
  | produce (number now : Nat)
  | change (what : Program.Change)

def step (s : Traffic) : Event → Traffic
  | .start => { s with calls := s.calls.push .checking }
  | .stop => { s with calls := s.calls.push .cancelling }
  | .advance call spawns => s.advance call spawns
  | .next =>
    let (fetch, buffer) := s.buffer.next
    { s with buffer, given := s.given ++ [fetch] }
  | .produce number now =>
    let (program, buffer) := s.buffer.stepProducer now s.program number
    { s with program, buffer }
  | .change what => { s with program := s.program.change what }

def run (s : Traffic) (events : List Event) : Traffic := events.foldl step s

/-- Each event of a course happens where it may. -/
def Throughout (may : Traffic → Event → Prop) (s : Traffic) : List Event → Prop
  | [] => True
  | e :: events => may s e ∧ (s.step e).Throughout may events

instance Throughout.decide (may : Traffic → Event → Prop) [∀ s e, Decidable (may s e)]
    (s : Traffic) (events : List Event) : Decidable (s.Throughout may events) :=
  match events with
  | [] => inferInstanceAs (Decidable True)
  | e :: events =>
    have := Throughout.decide may (s.step e) events
    inferInstanceAs (Decidable (may s e ∧ (s.step e).Throughout may events))

/-- Calls that do not overlap: a start, a stop and a taking wait until all before have returned. -/
def Alone (s : Traffic) : Event → Prop
  | .start | .stop | .next => ∀ call ∈ s.calls, call = .returned
  | _ => True

/-- Calls that may overlap, but that no run begins between the two sections of a stop. -/
def Apart (s : Traffic) : Event → Prop
  | .advance call _ => s.calls[call]? = some .beginning → .discarding ∉ s.calls
  | _ => True

instance (s : Traffic) (e : Event) : Decidable (s.Alone e) := by
  cases e <;> unfold Alone <;> infer_instance

instance (s : Traffic) (e : Event) : Decidable (s.Apart e) := by
  cases e <;> unfold Apart <;> infer_instance

end Traffic

end GcodeJob
