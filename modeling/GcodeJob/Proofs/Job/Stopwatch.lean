import GcodeJob.Job.Stopwatch
import Mathlib.Data.List.Induction

/-!
# GcodeJob.Proofs.Job.Stopwatch

What a stopwatch shows after any presses, repeated ones included.  Time comes
in whole nanoseconds, so the length of all stretches in which a stopwatch runs
is the number of moments at which it runs, and whether it runs at a moment is
told by the last press up to then (`Stopwatch.runsAt`).

**Main result** (`Stopwatch.elapsed_pressed`): a stopwatch shows the length of
the stretches in which it ran.
-/

namespace GcodeJob

/-- A press of a stopwatch, and when. -/
inductive Press
  | start (moment : Nat)
  | pause (moment : Nat)
  deriving DecidableEq, Repr

namespace Press

def moment : Press → Nat
  | .start moment | .pause moment => moment

def starts : Press → Bool
  | .start _ => true
  | .pause _ => false

end Press

namespace Stopwatch

def press (w : Stopwatch) : Press → Stopwatch
  | .start moment => w.start moment
  | .pause moment => w.pause moment

/-- A new stopwatch after some presses. -/
def pressed (presses : List Press) : Stopwatch := presses.foldl press {}

/-- Whether a stopwatch runs at a moment, by the last press up to then. -/
def runsAt (presses : List Press) (moment : Nat) : Bool :=
  (presses.filter (·.moment ≤ moment)).getLast?.any Press.starts

/-- The length of the stretches before a moment in which a stopwatch runs. -/
def runningTime (presses : List Press) (moment : Nat) : Nat :=
  (List.range moment).countP (runsAt presses)

/-! ## One press -/

/-- A stopwatch that runs was started before. -/
def StartedBy (w : Stopwatch) (now : Nat) : Prop :=
  ∀ since, w.runningSince = some since → since ≤ now

section
variable {w : Stopwatch} {now later : Nat}

theorem StartedBy.mono (h : w.StartedBy now) (le : now ≤ later) : w.StartedBy later :=
  fun since running => Nat.le_trans (h since running) le

theorem startedBy_of_not_running (h : w.isRunning = false) : w.StartedBy now := by
  intro since running
  simp [isRunning, running] at h

theorem StartedBy.start (h : w.StartedBy later) (le : now ≤ later) :
    (w.start now).StartedBy later := by
  intro since running
  obtain rfl : w.runningSince.getD now = since := Option.some.inj running
  cases at_ : w.runningSince with
  | none => exact le
  | some since => exact h since at_

@[simp] theorem isRunning_pause (w : Stopwatch) (now : Nat) : (w.pause now).isRunning = false := by
  unfold pause isRunning
  split
  next none => simp [none]
  next => rfl

/-- What a stopwatch shows grows by the time that passes while it runs. -/
theorem StartedBy.elapsed_eq (h : w.StartedBy now) (le : now ≤ later) :
    w.elapsed later = w.elapsed now + if w.isRunning then later - now else 0 := by
  unfold elapsed isRunning
  cases running : w.runningSince with
  | none => rfl
  | some since =>
    have := h since running
    simp only [Option.map_some, Option.getD_some, Option.isSome_some, if_true]
    omega

theorem StartedBy.elapsed_mono (h : w.StartedBy now) (le : now ≤ later) :
    w.elapsed now ≤ w.elapsed later := by
  rw [h.elapsed_eq le]
  exact Nat.le_add_right ..

/-- Neither press changes what is shown at this moment. -/
theorem elapsed_start (w : Stopwatch) (now : Nat) : (w.start now).elapsed now = w.elapsed now := by
  unfold start elapsed
  cases w.runningSince <;> simp

theorem elapsed_pause (w : Stopwatch) (now later : Nat) :
    (w.pause now).elapsed later = w.elapsed now := by
  unfold pause elapsed
  cases at_ : w.runningSince <;> simp [at_]

end

/-! ## Any number of presses -/

section
variable {presses : List Press} {moment : Nat}

theorem pressed_concat (presses : List Press) (p : Press) :
    pressed (presses ++ [p]) = (pressed presses).press p := by
  rw [pressed, pressed, List.foldl_append, List.foldl_cons, List.foldl_nil]

theorem startedBy_pressed (past : ∀ p ∈ presses, p.moment ≤ moment) :
    (pressed presses).StartedBy moment := by
  induction presses using List.reverseRecOn with
  | nil => exact startedBy_of_not_running rfl
  | append_singleton earlier p ih =>
    rw [pressed_concat]
    have started := ih fun q mem => past q (List.mem_append_left _ mem)
    cases p with
    | start at_ => exact started.start (past (.start at_) (by simp))
    | pause at_ => exact startedBy_of_not_running (isRunning_pause ..)

/-- Before they are made presses do not matter. -/
theorem runsAt_append {more : List Press} (next : ∀ p ∈ more, moment < p.moment) :
    runsAt (presses ++ more) moment = runsAt presses moment := by
  have none : more.filter (·.moment ≤ moment) = [] :=
    List.filter_eq_nil_iff.mpr fun p mem => by simpa using next p mem
  rw [runsAt, List.filter_append, none, List.append_nil, runsAt]

theorem runningTime_append {more : List Press} (next : ∀ p ∈ more, moment ≤ p.moment) :
    runningTime (presses ++ more) moment = runningTime presses moment :=
  List.countP_congr fun n mem => by
    rw [runsAt_append fun p mem' => Nat.lt_of_lt_of_le (List.mem_range.mp mem) (next p mem')]

/-- From the last press on it alone matters. -/
theorem runsAt_concat_of_le {p : Press} (le : p.moment ≤ moment) :
    runsAt (presses ++ [p]) moment = p.starts := by
  simp [runsAt, List.filter_append, le]

/-- From the last press on a stopwatch runs all the time or not at all. -/
theorem runningTime_concat {p : Press} (le : p.moment ≤ moment) :
    runningTime (presses ++ [p]) moment =
      runningTime presses p.moment + if p.starts then moment - p.moment else 0 := by
  obtain ⟨rest, rfl⟩ := Nat.exists_eq_add_of_le le
  have before : runningTime (presses ++ [p]) p.moment = runningTime presses p.moment :=
    runningTime_append (by simp)
  have since : (List.range rest).countP (runsAt (presses ++ [p]) ∘ (p.moment + ·)) =
      (List.range rest).countP fun _ => p.starts :=
    List.countP_congr fun n _ => by
      rw [Function.comp_apply, runsAt_concat_of_le (Nat.le_add_right ..)]
  rw [← before, runningTime, List.range_add, List.countP_append, List.countP_map, since, runningTime]
  cases p.starts <;> simp

/-- **A stopwatch shows for how long it ran.** -/
theorem elapsed_pressed (sorted : presses.Pairwise (·.moment ≤ ·.moment))
    (past : ∀ p ∈ presses, p.moment ≤ moment) :
    (pressed presses).elapsed moment = runningTime presses moment := by
  induction presses using List.reverseRecOn generalizing moment with
  | nil =>
    have none : runningTime [] moment = 0 := List.countP_eq_zero.mpr fun _ _ => by simp [runsAt]
    exact none.symm
  | append_singleton earlier p ih =>
    obtain ⟨sorted, -, before⟩ := List.pairwise_append.mp sorted
    have before : ∀ q ∈ earlier, q.moment ≤ p.moment := fun q mem => before q mem p (by simp)
    have le : p.moment ≤ moment := past p (by simp)
    rw [pressed_concat, runningTime_concat le, ← ih sorted before]
    cases p with
    | start at_ =>
      have started : ((pressed earlier).start at_).StartedBy at_ :=
        (startedBy_pressed before).start (Nat.le_refl _)
      exact (started.elapsed_eq le).trans (by rw [elapsed_start]; rfl)
    | pause at_ => exact elapsed_pause ..

theorem runningTime_mono {later : Nat} (le : moment ≤ later) :
    runningTime presses moment ≤ runningTime presses later :=
  (List.range_sublist.mpr le).countP_le

/-- What is shown never decreases. -/
theorem elapsed_pressed_mono {more : List Press} {later : Nat} (le : moment ≤ later)
    (sorted : (presses ++ more).Pairwise (·.moment ≤ ·.moment))
    (past : ∀ p ∈ presses, p.moment ≤ moment) (next : ∀ p ∈ more, moment ≤ p.moment)
    (pastMore : ∀ p ∈ more, p.moment ≤ later) :
    (pressed presses).elapsed moment ≤ (pressed (presses ++ more)).elapsed later := by
  have pastAll : ∀ p ∈ presses ++ more, p.moment ≤ later := fun p mem =>
    (List.mem_append.mp mem).elim (fun mem => Nat.le_trans (past p mem) le) (pastMore p)
  rw [elapsed_pressed (List.pairwise_append.mp sorted).1 past, elapsed_pressed sorted pastAll,
    ← runningTime_append next]
  exact runningTime_mono le

end

end Stopwatch

end GcodeJob
