import GcodeJob.Proofs.ReadAhead.Buffer

/-!
# GcodeJob.Proofs.ReadAhead.Working

A buffer at work, whatever its program holds: its producers are in order
(`Buffer.InOrder`), they only add to what is queued, and once its run is over
nothing is queued any more (`Buffer.Quiet`) until it is started again.
-/

namespace GcodeJob

/-- A producer that is about to end its run ends it. -/
def ProducerPoint.Concludes : ProducerPoint → Prop
  | .leaving outcome => outcome ≠ .running
  | _ => True

/-- A step of a live producer adds at most a command to what is queued. -/
theorem Producer.steps_of_isLive (settings : BufferSettings) (now : Nat) {s : Shared} {w : Producer}
    (live : w.IsLive) (concludes : w.point.Concludes)
    (on : s.queue.run = w.run ∧ s.queue.stage = .running) :
    let after := w.step settings now s
    w.Steps (fun _ point => point.Concludes) s.queue after.1.queue after.2 ∧
      s.queue.items <+: after.1.queue.items := by
  obtain ⟨run, cancelled, point⟩ := w
  obtain ⟨uncancelled, there⟩ := live
  obtain rfl : cancelled = false := uncancelled
  have stays {before point : ProducerPoint} (there : point ≠ .gone) (concludes : point.Concludes) :
      Producer.Steps (fun _ point => point.Concludes) s.queue ⟨run, false, before⟩ s.queue
          ⟨run, false, point⟩ ∧ s.queue.items <+: s.queue.items :=
    ⟨⟨rfl, rfl, ⟨fun _ => on.2, fun _ => ⟨rfl, there⟩⟩, fun _ => concludes⟩, List.prefix_refl _⟩
  cases point with
  | checking | locating => exact stays (by simp) trivial
  | sourcing =>
    unfold step
    dsimp only
    cases s.program.state <;> exact stays (by simp) (by simp [ProducerPoint.Concludes])
  | measuring | resting =>
    unfold step
    dsimp only
    split <;> exact stays (by simp) trivial
  | fetching position =>
    unfold step
    dsimp only
    generalize (s.program.getCommand position).1 = reply
    cases reply with
    | error e => exact stays (by simp) (by simp [ProducerPoint.Concludes])
    | ok command? => cases command? <;> exact stays (by simp) (by simp [ProducerPoint.Concludes])
  | delivering position held =>
    unfold step
    simp only [Bool.false_eq_true, if_false]
    refine ⟨⟨rfl, rfl, ⟨fun _ => on.2, fun _ => ⟨rfl, ?_⟩⟩, fun _ => ?_⟩, ?_⟩
    · cases held.command.isExecutable <;> simp
    · cases held.command.isExecutable <;> trivial
    · unfold Queue.deliver
      cases held.command.isExecutable
      · exact List.prefix_refl _
      · exact List.prefix_append _ _
  | leaving outcome =>
    have concluded : s.queue.conclude run outcome = { s.queue with stage := outcome } := if_pos on
    have gone : ¬Producer.IsLive ⟨run, false, .gone⟩ := fun live => live.2 rfl
    unfold step
    dsimp only
    rw [concluded]
    exact ⟨⟨rfl, rfl, ⟨fun live => absurd live gone, fun still => absurd still concludes⟩,
      fun live => absurd live gone⟩, List.prefix_refl _⟩
  | gone => exact absurd rfl there

namespace Buffer

/-- At most one producer is live, the one of the run that is on. -/
def InOrder (b : Buffer) : Prop := b.Runs fun _ point => point.Concludes

/-- Nothing is queued and no run is on. -/
structure Quiet (b : Buffer) : Prop where
  items : b.queue.items = []
  stage : b.queue.stage ≠ .running

theorem quiet_stop (b : Buffer) : b.stop.Quiet := ⟨rfl, b.stage_stop_ne⟩

theorem Quiet.next {b : Buffer} (h : b.Quiet) : b.next.2 = b := by
  have gives := b.next_spec
  split at gives
  next =>
    obtain ⟨-, queued, -⟩ := gives
    cases h.items.symm.trans queued
  next => exact gives.2.1
  next => exact gives.1

/-- A step of any producer leaves a buffer in order. -/
theorem InOrder.stepProducer {b : Buffer} (h : b.InOrder) (now : Nat) (p : Program) (number : Nat) :
    let b' := (b.stepProducer now p number).2
    b'.InOrder ∧ b'.queue.run = b.queue.run ∧ b.queue.items <+: b'.queue.items ∧
      (b.queue.stage ≠ .running → b'.queue = b.queue) := by
  unfold Buffer.stepProducer
  cases found : b.producers[number]? with
  | none => exact ⟨h, rfl, List.prefix_refl _, fun _ => rfl⟩
  | some w =>
    have works := h.works number w found
    dsimp only
    by_cases live : w.IsLive
    · have on := works.live_iff.mp live
      obtain ⟨steps, more⟩ := Producer.steps_of_isLive b.settings now (s := ⟨p, b.queue⟩) live
        (works.holds live) on
      exact ⟨h.of_steps found live steps, steps.queue_run, more, fun off => absurd on.2 off⟩
    · have idles := Producer.idles_step b.settings now (s := ⟨p, b.queue⟩) live
        (mt works.live_iff.mpr live)
      generalize w.step b.settings now ⟨p, b.queue⟩ = after at idles
      obtain ⟨⟨program, q⟩, w'⟩ := after
      obtain ⟨queue, run, idle⟩ := idles
      obtain rfl : q = b.queue := queue
      exact ⟨h.of_idles found live run idle, rfl, List.prefix_refl _, fun _ => rfl⟩

/-- While no run is on, the queue is left to itself. -/
theorem InOrder.queue_stepProducer {b : Buffer} (h : b.InOrder) (off : b.queue.stage ≠ .running)
    (now : Nat) (p : Program) (number : Nat) : (b.stepProducer now p number).2.queue = b.queue :=
  (h.stepProducer now p number).2.2.2 off

end Buffer

end GcodeJob
