import GcodeJob.Command

/-!
# GcodeJob.Command.Issued

A parsed line is issued once and then shared by everyone who holds it: the
cache, the read-ahead queue, the running job.  Issuing gives it a serial
number, under which its execution time is kept on a timesheet, so a time
written by one holder is seen by all others, and two parses of one line
never share a time.
-/

namespace GcodeJob

/-- A command under its serial number. -/
structure Issued where
  serial : Nat
  command : Command
  deriving DecidableEq, Repr

def Issued.line (i : Issued) : Nat := i.command.line

/-- The execution times in milliseconds, by serial number; zero until the
command has run. -/
structure Timesheet where
  times : Array Int
  deriving DecidableEq, Repr

namespace Timesheet

def empty : Timesheet := ⟨#[]⟩

/-- Issues a command under the next serial number. -/
def issue (t : Timesheet) (c : Command) : Issued × Timesheet :=
  (⟨t.times.size, c⟩, ⟨t.times.push 0⟩)

def time (t : Timesheet) (i : Issued) : Int := t.times[i.serial]?.getD 0

def record (t : Timesheet) (i : Issued) (ms : Int) : Timesheet :=
  ⟨t.times.setIfInBounds i.serial ms⟩

theorem time_issue (t : Timesheet) (c : Command) : (t.issue c).2.time (t.issue c).1 = 0 := by
  simp [issue, time]

theorem time_record (t : Timesheet) (i : Issued) (ms : Int) (h : i.serial < t.times.size) :
    (t.record i ms).time i = ms := by
  simp [record, time, h]

theorem time_record_of_ne (t : Timesheet) (i j : Issued) (ms : Int) (h : i.serial ≠ j.serial) :
    (t.record i ms).time j = t.time j := by
  simp [record, time, h]

end Timesheet

end GcodeJob
