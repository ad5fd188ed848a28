import GcodeJob.Command
import GcodeJob.Job.Sleep
import GcodeJob.Number.Single

/-!
# GcodeJob.Job.Execution

The simulated execution of one command.  Its progress goes from zero to one
in randomised steps, one step per tick: a base step that depends on the
letter of the code, scaled by a factor in `[1, 5)` drawn from one random
word.  All of it is single precision, so progress is a sum of rounded
products, and reaching one is a matter of that rounding.
-/

namespace GcodeJob.Execution

/-- The base step of a code. -/
def baseStep : Letter → Single
  | .g => .ofRatio 15 1000
  | .m => .ofRatio 10 1000

/-- How many values of the upper bits lie between two whole factors. -/
def fractions : Nat := 0x200000

/-- The factor in `[1, 5)` that a random word gives: its upper 23 bits are
the fraction of the way.  The number is exact. -/
def factor (word : UInt32) : Single := .ofRatio (fractions + word.toNat / 512) fractions

/-- The progress of one tick.  Lines without a code are done at once and
draw no random word. -/
def step (letter? : Option Letter) (word : UInt32) : Single :=
  match letter? with
  | some letter => (baseStep letter).mul (factor word)
  | none => .one

/-- The progress after one more tick. -/
def advance (letter? : Option Letter) (progress : Single) (word : UInt32) : Single :=
  (progress.add (step letter? word)).min .one

/-- A command is finished when its progress is no longer below one. -/
def isFinished (progress : Single) : Bool := !progress.lt .one

/-- What a run of a command published, and whether it got to its end. -/
structure Trace where
  published : List Single
  completed : Bool
  deriving DecidableEq, Repr

/-- How long the run took if each tick was asked to take `tick`. -/
def Trace.time (t : Trace) (tick : Nat) : Nat := t.published.length * Sleep.length tick

/-- Runs from a progress for at most `limit` ticks.  The token is cancelled
right after update number `cancelAfter`; it is looked at before each tick,
so an update that finishes the command is not undone by it. -/
def runFrom (letter? : Option Letter) (words : Nat → UInt32) (cancelAfter : Option Nat) :
    (limit tick : Nat) → Single → Trace
  | 0, _, progress => ⟨[], isFinished progress⟩
  | limit + 1, tick, progress =>
    if isFinished progress then ⟨[], true⟩
    else if cancelAfter = some tick then ⟨[], false⟩
    else
      let next := advance letter? progress (words tick)
      let rest := runFrom letter? words cancelAfter limit (tick + 1) next
      { rest with published := next :: rest.published }

/-- Ticks after which every command is finished: the smallest step is a
hundredth, and a little is lost to rounding. -/
def tickLimit : Nat := 128

/-- Runs a command from the start, with one word per tick. -/
def run (letter? : Option Letter) (words : Nat → UInt32) (cancelAfter : Option Nat) : Trace :=
  runFrom letter? words cancelAfter tickLimit 0 .zero

end GcodeJob.Execution
