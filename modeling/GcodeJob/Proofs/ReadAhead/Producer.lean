import GcodeJob.Proofs.Program.Commands
import GcodeJob.ReadAhead.Producer

/-!
# GcodeJob.Proofs.ReadAhead.Producer

One step of a producer.  A producer that has been cancelled, or has exited,
changes nothing any more.  Any other works at the position of the queue: its
step leaves the queue alone, hands over the command on that line, or ends the
run, and it says the run is finished only at the end of the program.
-/

namespace GcodeJob

/-- What a live producer holds agrees with the position of the queue. -/
def ProducerPoint.Holds (commands : List Command) (position : Nat) : ProducerPoint → Prop
  | .fetching line => line = position
  | .delivering line held => line = position ∧ commands[line]? = some held.command
  | .leaving outcome => outcome = .failed ∨ outcome = .finished ∧ position = commands.length
  | _ => True

namespace Producer

/-- A producer that may still hand something over. -/
def IsLive (w : Producer) : Prop := w.cancelled = false ∧ w.point ≠ .gone

/-- A producer that is not live stays as it is to others. -/
structure Idles (s : Shared) (w : Producer) (step : Shared × Producer) : Prop where
  queue : step.1.queue = s.queue
  run : step.2.run = w.run
  idle : ¬step.2.IsLive

/-- What a step of a live producer does to the queue. -/
inductive Moves (commands : List Command) (q : Queue) (w : Producer) : Queue → Producer → Prop
  | stays (w' : Producer) : w'.run = w.run → w'.IsLive → w'.point.Holds commands q.position →
    Moves commands q w q w'
  | delivers (held : Issued) (w' : Producer) : w'.run = w.run → w'.IsLive →
    (∀ position, w'.point.Holds commands position) → commands[q.position]? = some held.command →
    Moves commands q w (q.deliver q.position held) w'
  | concludes (outcome : Stage) :
    outcome = .failed ∨ outcome = .finished ∧ q.position = commands.length →
    Moves commands q w { q with stage := outcome } { w with point := .gone }

variable (settings : BufferSettings) (now : Nat) {s : Shared} {w : Producer}

/-- A step leaves the file as it is. -/
theorem sameFile_step : s.program.SameFile (w.step settings now s).1.program := by
  obtain ⟨run, cancelled, point⟩ := w
  cases point with
  | fetching position => exact s.program.sameFile_getCommand position
  | delivering position held => cases cancelled <;> rfl
  | _ => rfl

/-- A step reads one command at most, and leaves the file as it is. -/
theorem program_step (sound : s.program.Sound) : (w.step settings now s).1.program.Sound ∧
    s.program.SameFile (w.step settings now s).1.program := by
  refine ⟨?_, sameFile_step settings now⟩
  obtain ⟨run, cancelled, point⟩ := w
  cases point with
  | fetching position => exact (sound.getCommand position).1
  | delivering position held => cases cancelled <;> exact sound
  | _ => exact sound

/-- One that is not live does nothing, its run being over. -/
theorem idles_step (idle : ¬w.IsLive) (off : ¬(s.queue.run = w.run ∧ s.queue.stage = .running)) :
    Idles s w (w.step settings now s) := by
  obtain ⟨run, cancelled, point⟩ := w
  have concludes (outcome : Stage) : s.queue.conclude run outcome = s.queue := if_neg off
  cases cancelled with
  | false =>
    obtain rfl : point = .gone := Decidable.byContradiction fun there => idle ⟨rfl, there⟩
    exact ⟨rfl, rfl, idle⟩
  | true =>
    have stays {w' : Producer} (cancelled : w'.cancelled = true) : ¬w'.IsLive :=
      fun live => Bool.noConfusion (cancelled.symm.trans live.1)
    cases point with
    | resting moment =>
      unfold step
      dsimp only
      split <;> exact ⟨rfl, rfl, stays rfl⟩
    | leaving outcome => exact ⟨concludes outcome, rfl, stays rfl⟩
    | _ => exact ⟨rfl, rfl, stays rfl⟩

/-- A live one works at the position of the queue. -/
theorem moves_step {commands : List Command} (live : w.IsLive) (sound : s.program.Sound)
    (same : s.program.commands = commands)
    (holds : w.point.Holds commands s.queue.position)
    (on : s.queue.run = w.run ∧ s.queue.stage = .running) :
    Moves commands s.queue w (w.step settings now s).1.queue (w.step settings now s).2 := by
  obtain ⟨run, cancelled, point⟩ := w
  obtain ⟨uncancelled, there⟩ := live
  obtain rfl : cancelled = false := uncancelled
  have stays {before point : ProducerPoint} (there : point ≠ .gone)
      (holds : point.Holds commands s.queue.position) :
      Moves commands s.queue ⟨run, false, before⟩ s.queue ⟨run, false, point⟩ :=
    .stays _ rfl ⟨rfl, there⟩ holds
  cases point with
  | checking => exact stays (by simp) trivial
  | sourcing =>
    unfold step
    dsimp only
    cases s.program.state <;> exact stays (by simp) (by simp [ProducerPoint.Holds])
  | measuring =>
    unfold step
    dsimp only
    split <;> exact stays (by simp) trivial
  | locating => exact stays (by simp) rfl
  | fetching position =>
    obtain rfl : position = s.queue.position := holds
    have answer := (sound.getCommand s.queue.position).2
    rw [same] at answer
    unfold step
    dsimp only
    generalize (s.program.getCommand s.queue.position).1 = reply at answer ⊢
    cases reply with
    | error e => exact stays (by simp) (.inl rfl)
    | ok command? =>
      cases command? with
      | none => exact stays (by simp) (.inr ⟨rfl, answer.2⟩)
      | some held => exact stays (by simp) ⟨rfl, answer⟩
  | delivering position held =>
    obtain ⟨rfl, at_line⟩ := holds
    unfold step
    simp only [Bool.false_eq_true, if_false]
    refine .delivers held _ rfl ⟨rfl, ?_⟩ (fun position => ?_) at_line
    all_goals cases held.command.isExecutable <;> simp [ProducerPoint.Holds]
  | resting moment =>
    unfold step
    dsimp only
    split <;> exact stays (by simp) trivial
  | leaving outcome =>
    have concludes : s.queue.conclude run outcome = { s.queue with stage := outcome } := if_pos on
    unfold step
    dsimp only
    rw [concludes]
    exact .concludes outcome holds
  | gone => exact absurd rfl there

end Producer

end GcodeJob
