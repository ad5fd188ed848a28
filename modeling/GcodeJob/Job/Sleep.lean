/-!
# GcodeJob.Job.Sleep

How long sleeps take, in milliseconds.

A sleep takes as long as it was asked to, but never longer than thirty years,
and one on a token ends when the token is cancelled.
-/

namespace GcodeJob

/-- How a sleep on a token ended: whether it lasted to its end, and when. -/
structure Sleep where
  completed : Bool
  endedAt : Nat
  deriving DecidableEq, Repr

namespace Sleep

/-- The longest sleep, thirty years of 365 days. -/
def longest : Nat := 30 * 365 * 24 * 60 * 60 * 1000

/-- How long a sleep takes that is asked to take a while. -/
def length (asked : Nat) : Nat := min asked longest

/-- A sleep that begins now and is asked to take a while, on a token that is or
will be cancelled at `cancelAt`.  A token cancelled before the sleep ends it at
once. -/
def of (cancelled : Bool) (asked : Nat) (cancelAt : Option Nat) : Sleep :=
  if cancelled then ⟨false, 0⟩
  else
    match cancelAt with
    | some moment => if moment < length asked then ⟨false, moment⟩ else ⟨true, length asked⟩
    | none => ⟨true, length asked⟩

end Sleep

end GcodeJob
