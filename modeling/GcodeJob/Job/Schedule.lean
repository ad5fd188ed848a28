import GcodeJob.Job.Loop

/-!
# GcodeJob.Job.Schedule

One way for everything to take its turn, on a clock that only moves when
there is nothing left to do.  Producers work until all of them rest, then
the runs go on to their next sleep, and then it is as late as the first of
them wakes up.  A producer rests for at least as long as it meant to: one
whose rest is over while every run sleeps does not move the clock.
-/

namespace GcodeJob.Controller

/-- Steps that take a run from one sleep to the next. -/
def stepsToSleep : Nat := 16

/-- Lets a run go on until it sleeps or has ended.  Chance decides once, there
being one wake and one tick at most. -/
def resumeRun (chance : Chance) (number : Nat) : Nat → Controller → Controller
  | 0, c => c
  | n + 1, c =>
    if c.runs[number]?.any (·.isReady c.now) then
      resumeRun chance number n (c.stepRun chance number)
    else c

/-- Lets the producers of all feeds work until they rest. -/
def produce (c : Controller) : Controller :=
  (List.range c.feeds.size).foldl (fun c number =>
    c.onFeed number fun p b => b.work c.now (b.stepsToEnd p) p) c

/-- The run in flight, if it has something to do now. -/
def ready? (c : Controller) : Option Nat :=
  c.inFlight?.filter fun number => c.runs[number]?.any (·.isReady c.now)

/-- The first moment at which a sleeping run wakes up; with no run asleep, the
first at which a resting producer does. -/
def nextWake? (c : Controller) : Option Nat :=
  (c.runs.toList.filterMap Run.asleepUntil?).min? <|>
    (c.feeds.toList.flatMap fun f =>
      f.buffer.producers.toList.filterMap Producer.restingUntil?).min?

/-- One turn: the producers, and then the run in flight or the clock.  There
is none when nothing will happen before the moment `limit?`. -/
def turn? (chance : Chance) (limit? : Option Nat) (c : Controller) : Option Controller :=
  let c := c.produce
  match c.ready? with
  | some number => some (resumeRun chance number stepsToSleep c)
  | none =>
    c.nextWake?.bind fun moment =>
      if limit?.all (moment < ·) then some (c.advanceTo moment) else none

/-- Takes turns until a condition holds, nothing is left to do before
`limit?`, or `turns` turns are over.  Chance is given turn by turn. -/
def runUntil (chance : Nat → Chance) (limit? : Option Nat) (met : Controller → Bool) :
    (turns : Nat) → Controller → Controller
  | 0, c => c
  | n + 1, c =>
    if met c then c
    else
      match c.turn? (chance n) limit? with
      | some c => runUntil chance limit? met n c
      | none => c

end GcodeJob.Controller
